namespace Groupwise

inductive Format where
  | json
  | json5
  | yaml
  | toml
  deriving DecidableEq, Repr

namespace Format

def name : Format → String
  | .json => "json"
  | .json5 => "json5"
  | .yaml => "yaml"
  | .toml => "toml"

def title : Format → String
  | .json => "JSON"
  | .json5 => "JSON5"
  | .yaml => "YAML"
  | .toml => "TOML"

theorem title_injective {format other : Format} (h : format.title = other.title) : format = other := by
  cases format <;> cases other <;> first | rfl | exact absurd h (by decide)

def names : List (String × Format) :=
  [("json", .json), ("json5", .json5), ("yaml", .yaml), ("yml", .yaml), ("toml", .toml)]

def ofName? (name : String) : Option Format := (names.find? (·.1 = name)).map Prod.snd

def lastPart (path : List Char) : List Char :=
  ((path.splitOn '/').filter fun part => part ≠ [] && part ≠ ['.']).getLast?.getD []

/-- What follows the last dot of a name, unless that dot is its first character. -/
def extension? (name : List Char) : Option (List Char) :=
  match name.splitOn '.' with
  | [] | [_] | [[], _] => none
  | parts => parts.getLast?

def ofPath? (path : String) : Option Format := do
  let extension ← extension? (lastPart path.toList)
  ofName? (String.ofList (extension.map Char.toLower))

end Format

end Groupwise
