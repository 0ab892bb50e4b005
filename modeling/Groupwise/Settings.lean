import Groupwise.Decode
import Groupwise.Json.Printer

namespace Groupwise

structure Settings where
  property1 : Int
  property2 : Bool
  deriving DecidableEq, Repr

namespace Settings

def innerKey : String := "property2-1"

def innerType : String := "struct Property2"

def decodeInner : Decoder Bool
  | .object members => do
    let found ← (members.find? (·.1 = innerKey)).mapM fun (_, t) => Decoder.bool t
    Decoder.required innerKey found
  | .array [] => .error (.wrongLength 0 s!"{innerType} with 1 element")
  | .array (flag :: rest) => do
    let found ← Decoder.bool flag
    if rest = [] then .ok found
    else .error (.wrongLength (rest.length + 1) "fewer elements in array")
  | t => Decoder.misplaced innerType t

/-- Members are read as they come. Only then is one that is missing reported. -/
def decode : Decoder Settings
  | .object members => do
    let number ← (members.find? (·.1 = "property1")).mapM fun (_, t) => Decoder.int64 t
    let flag ← (members.find? (·.1 = "property2")).mapM fun (_, t) => decodeInner t
    let number ← Decoder.required "property1" number
    let flag ← Decoder.required "property2" flag
    .ok ⟨number, flag⟩
  | t => Decoder.misplaced "struct Settings" t

def text (settings : Settings) : List Char :=
  Json.objectText
    [("property1", Number.integerText settings.property1), (innerKey, Json.boolText settings.property2)]

end Settings

end Groupwise
