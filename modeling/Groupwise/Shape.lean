import Groupwise.Text.Quoted
import Groupwise.Tree

namespace Groupwise.Shape

inductive Found where
  | null
  | bool (value : Bool)
  | integer (value : Int)
  | float (value : Binary64)
  | string (value : String)
  | sequence
  | map
  deriving DecidableEq, Repr

def Found.ofNumber : Number → Found
  | .integer n => .integer n
  | .float x => .float x

def Found.ofTree : Tree → Found
  | .null => .null
  | .bool b => .bool b
  | .number n => .ofNumber n
  | .string s => .string s
  | .array _ => .sequence
  | .object _ => .map

def Found.description : Found → String
  | .null => "null"
  | .bool b => s!"boolean `{b}`"
  | .integer n => s!"integer `{String.ofList (Number.integerText n)}`"
  | .float x => s!"floating point `{String.ofList (Number.floatText x)}`"
  | .string s => s!"string {Text.quoted s}"
  | .sequence => "sequence"
  | .map => "map"

inductive Fault where
  | wrongType (found : Found) (wanted : String)
  | outOfRange (value : Int) (wanted : String)
  | wrongLength (length : Nat) (wanted : String)
  | duplicateField (key : String)
  | missingField (key : String)
  | unknownVariant (name : String) (known : List String)
  deriving DecidableEq, Repr

def Fault.message : Fault → String
  | .wrongType found wanted => s!"invalid type: {found.description}, expected {wanted}"
  | .outOfRange value wanted =>
    s!"invalid value: {(Found.integer value).description}, expected {wanted}"
  | .wrongLength length wanted => s!"invalid length {length}, expected {wanted}"
  | .duplicateField key => s!"duplicate field `{key}`"
  | .missingField key => s!"missing field `{key}`"
  | .unknownVariant name known =>
    let names := ", ".intercalate (known.map fun other => s!"`{other}`")
    s!"unknown variant `{name}`, expected one of {names}"

end Groupwise.Shape
