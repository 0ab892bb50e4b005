import Groupwise.Config.Json
import Groupwise.Config.Toml
import Groupwise.Override

namespace Groupwise

namespace Tree

def kind : Tree → String
  | .null => "null"
  | .bool _ => "a boolean"
  | .number _ => "a number"
  | .string _ => "a string"
  | .array _ => "an array"
  | .object _ => "an object"

end Tree

namespace Config

/-- Reads a configuration in a format. Only JSON and TOML can be read. -/
def parse (format : Format) (text : String) : Except Error Config :=
  match format with
  | .json => (ofJson text).mapError fun cause => .unreadable .json (.json cause)
  | .toml =>
    match ofToml? text with
    | some config => .ok config
    | none => .error (.unreadable .toml .toml)
  | .json5 => .error (.unreadable .json5 .disabled)
  | .yaml => .error (.unreadable .yaml .disabled)

def properties (config : Config) : Except Error Properties :=
  match config.defaults with
  | some (.object members) => .ok members
  | none | some .null => .error (.invalid defaultsKey .missing)
  | some other => .error (.invalid defaultsKey (.notAnObject other.kind))

def takeProperties (config : Config) : Except Error Properties × Config :=
  (config.properties, { config with defaults := none })

end Config

def applyRules (groups : Groups) (index : Nat) : List Rule → Properties → Applied
  | [], properties => ⟨properties, [], none⟩
  | rule :: rules, properties =>
    match rule.criterion? groups with
    | .error bad => ⟨properties, [], some (.expression bad.expression bad.cause)⟩
    | .ok none => (applyRules groups (index + 1) rules properties).after [.unmatched index]
    | .ok (some criterion) =>
      let applied := properties.overrideAll rule.overrides
      let log := .matched index criterion rule.overrides.length :: applied.log
      match applied.fault with
      | some fault => ⟨applied.properties, log, some fault⟩
      | none => (applyRules groups (index + 1) rules applied.properties).after log

structure Resolution where
  log : List Event
  outcome : Except Error Properties

namespace Config

/-- The default properties with the overrides of all rules that hold. `format` is only logged. -/
def resolve (config : Config) (groups : Groups) (format : Format) : Resolution :=
  match config.properties with
  | .error fault => ⟨[], .error fault⟩
  | .ok properties =>
    let applied := applyRules groups 0 config.rules properties
    let log := .resolving config.rules.length groups.size format :: applied.log
    match applied.fault with
    | some fault => ⟨log, .error fault⟩
    | none => ⟨log, .ok applied.properties⟩

end Config

def resolve (text : String) (groups : List String) (format : Format) : Resolution :=
  match Config.parse format text with
  | .error fault => ⟨[], .error fault⟩
  | .ok config => config.resolve (Groups.ofList groups) format

end Groupwise
