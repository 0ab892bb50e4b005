import Groupwise.Json.Reader
import Groupwise.Options

namespace Groupwise.Options

open Json (Reader FieldReader Token)

def formatOfName (name : String) : Except Json.Error Format :=
  match Format.ofName? name with
  | some format => .ok format
  | none => .error (.shape (.unknownVariant name (Format.names.map Prod.fst)))

def named : Reader Format := fun ts => do
  let (name, rest) ← Json.string ts
  let format ← formatOfName name
  .ok (format, rest)

/-- Reads the name of a format, or an object whose only key it is and whose value is `null`. -/
def readFormat (levels : Nat) : Reader Format
  | [] => .error (.text (.ended .value))
  | .string name :: rest => named (.string name :: rest)
  | .unreadable fault :: _ | .brokenString fault _ :: _ => .error (.text fault)
  | .openObject :: rest =>
    if levels = 0 then .error (.text .tooDeep)
    else
      match rest with
      | .string name :: .colon :: .null :: .closeObject :: rest => do
        let format ← formatOfName name
        .ok (format, ⟨rest, by simp; omega⟩)
      | .string name :: after => do
        let _ ← formatOfName name
        match after with
        | [] => .error (.text (.ended .object))
        | .colon :: .null :: [] => .error (.text (.ended .object))
        | .colon :: .null :: _ => .error (.text .expectedValue)
        | .colon :: value => .error (Json.misplaced "unit" value)
        | _ => .error (.text .expectedColon)
      | .unreadable fault :: _ | .brokenString fault _ :: _ => .error (.text fault)
      | [] => .error (.text (.ended .object))
      | .closeObject :: _ => .error (.text .expectedValue)
      | _ => .error (.text .keyNotString)
  | _ => .error (.text .expectedValue)

def fields (levels : Nat) : List (FieldReader Options) :=
  [⟨"format", Json.mapped (fun format options => { options with format := format }) (readFormat levels)⟩,
   ⟨"pretty", Json.mapped (fun pretty options => { options with pretty := pretty }) Json.bool⟩]

def ofJson (text : String) : Except Json.Error Options :=
  Json.readText (Json.record "struct ResolverOptions" (fields (Json.maxLevels - 1)) {} Json.maxLevels) text

end Groupwise.Options
