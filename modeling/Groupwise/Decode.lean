import Groupwise.Shape

namespace Groupwise

abbrev Decoder (α : Type) := Tree → Except Shape.Fault α

namespace Decoder

variable {α : Type}

def misplaced (wanted : String) (t : Tree) : Except Shape.Fault α :=
  .error (.wrongType (.ofTree t) wanted)

def tree : Decoder Tree := .ok

def bool : Decoder Bool
  | .bool b => .ok b
  | t => misplaced "a boolean" t

def string : Decoder String
  | .string s => .ok s
  | t => misplaced "a string" t

def int64 : Decoder Int
  | .number (.integer n) =>
    if -(Number.signedEnd : Int) ≤ n ∧ n < Number.signedEnd then .ok n else .error (.outOfRange n "i64")
  | t => misplaced "i64" t

def list (item : Decoder α) : Decoder (List α)
  | .array items => items.mapM item
  | t => misplaced "a sequence" t

def map (value : Decoder α) : Decoder (Members α)
  | .object members => members.mapM fun (key, t) => do
    let v ← value t
    .ok (key, v)
  | t => misplaced "a map" t

def required (key : String) (value : Option α) : Except Shape.Fault α :=
  match value with
  | some v => .ok v
  | none => .error (.missingField key)

end Decoder

end Groupwise
