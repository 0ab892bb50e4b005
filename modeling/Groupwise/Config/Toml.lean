import Groupwise.Config
import Groupwise.Criterion
import Groupwise.Toml.Document

namespace Groupwise

open Toml (Value)

def Toml.member {α : Type} (entries : Members Value) (key : String) (absent : α) (read : Value → Option α) :
    Option α :=
  match entries.find? key with
  | some v => read v
  | none => some absent

def Toml.names? : Value → Option (List String)
  | .array items => items.mapM fun
    | .string s => some s
    | _ => none
  | _ => none

def Toml.text? : Value → Option (Option String)
  | .string s => some (some s)
  | _ => none

/-- The members of a table. A point in time counts as the object that stands for it. -/
def Toml.members? : Value → Option (Members Tree)
  | .table entries => some (Value.toMembers entries)
  | .moment text => some (Value.momentMembers text)
  | _ => none

def Rule.ofEntries? (entries : Members Value) : Option Rule := do
  let allGroups ← Toml.member entries Criterion.allGroups.name [] Toml.names?
  let anyGroup ← Toml.member entries Criterion.anyGroup.name [] Toml.names?
  let noneOfGroups ← Toml.member entries Criterion.noneOfGroups.name [] Toml.names?
  let expression ← Toml.member entries Criterion.expression.name none Toml.text?
  let overrides ← Toml.member entries overrideKey [] Toml.members?
  some ⟨allGroups, anyGroup, noneOfGroups, expression, overrides⟩

/-- A rule from a table, or from an array of the values of its fields, of which surplus ones do not count. -/
def Rule.ofToml? : Value → Option Rule
  | .table entries => Rule.ofEntries? entries
  | .moment _ => some {}
  | .array items =>
    Rule.ofEntries? ([Criterion.allGroups.name, Criterion.anyGroup.name, Criterion.noneOfGroups.name,
      Criterion.expression.name, overrideKey].zip items)
  | _ => none

def Toml.rules? : Value → Option (List Rule)
  | .array items => items.mapM Rule.ofToml?
  | _ => none

def Config.ofToml? (text : String) : Option Config := do
  let entries ← Toml.document? text
  let rules ← Toml.member entries rulesKey [] Toml.rules?
  let defaults ← Toml.member entries defaultsKey none fun v => some (some v.toTree)
  some ⟨rules, defaults⟩

end Groupwise
