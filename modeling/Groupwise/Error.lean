import Groupwise.Expr.Error
import Groupwise.Json.Error
import Groupwise.Options.Environment

namespace Groupwise

inductive Unreadable where
  | json (cause : Json.Error)
  | toml
  | disabled
  | other (text : String)
  deriving DecidableEq, Repr

inductive Problem where
  | missing
  | notAnObject (found : String)
  | tooManyKeys (count : Nat)
  | other (text : String)
  deriving DecidableEq, Repr

inductive Error where
  | notStored
  | unreadable (format : Format) (cause : Unreadable)
  | invalid (key : String) (problem : Problem)
  | expression (text : String) (cause : Expr.Error)
  | unfit (cause : Json.Error)
  | options (cause : Options.Fault)
  deriving DecidableEq, Repr

def maxKeys : Nat := 64

def Unreadable.message (format : Format) : Unreadable → String
  | .json cause => cause.message
  | .toml => ""
  | .disabled =>
    s!"{format.name} feature disabled: enable the '{format.name}' feature to support this format"
  | .other text => text

def Problem.message : Problem → String
  | .missing => "is missing"
  | .notAnObject found => s!"must be an object, found {found}"
  | .tooManyKeys count => s!"has {count} path segments; at most {maxKeys} are allowed"
  | .other text => text

namespace Problem

/-- The first number that the message says is the number of keys. -/
theorem decimalNumber_message (count : Nat) :
    Text.decimalNumber (((tooManyKeys count).message.toList.dropWhile (! ·.isDigit)).takeWhile (·.isDigit)) =
      count := by
  obtain ⟨rest, htext, hrest⟩ : ∃ rest : List Char, (tooManyKeys count).message.toList =
      "has ".toList ++ (Nat.toDigits 10 count ++ rest) ∧ rest.takeWhile (·.isDigit) = [] := by
    refine ⟨s!" path segments; at most {maxKeys} are allowed".toList, ?_, by decide⟩
    show ("has " ++ toString count ++ " path segments; at most " ++ toString maxKeys ++ " are allowed").toList = _
    rw [String.append_assoc, String.append_assoc, String.append_assoc, String.toList_append, String.toList_append,
      Nat.toString_eq_repr, Nat.toList_repr]
    rfl
  have hdigits : ∀ c ∈ Nat.toDigits 10 count, c.isDigit = true := fun c hc =>
    Nat.isDigit_of_mem_toDigits (by decide) (by decide) hc
  have hdrop : (tooManyKeys count).message.toList.dropWhile (! ·.isDigit) = Nat.toDigits 10 count ++ rest := by
    obtain ⟨d, ds, hds⟩ := List.exists_cons_of_ne_nil (Nat.toDigits_ne_nil (n := count) (b := 10))
    have hd : d.isDigit = true := hdigits d (by simp [hds])
    rw [htext, hds]
    simp [hd]
  rw [hdrop, List.takeWhile_append_of_pos hdigits, hrest, List.append_nil, Text.decimalNumber,
    Nat.ofDigitChars_ten_toDigits]

theorem head?_message {problem : Problem} (h : ∀ text, problem ≠ .other text) :
    problem.message.toList.head? = some (match problem with
      | .missing => 'i'
      | .notAnObject _ => 'm'
      | _ => 'h') := by
  cases problem with
  | missing => rfl
  | notAnObject found =>
      show ("must be an object, found " ++ found).toList.head? = _
      rw [String.toList_append]
      rfl
  | tooManyKeys count =>
      show ("has " ++ toString count ++ _ ++ _ ++ _).toList.head? = _
      rw [String.append_assoc, String.append_assoc, String.append_assoc, String.toList_append]
      rfl
  | other text => exact absurd rfl (h text)

/-- A message tells the whole problem, unless its text was made elsewhere. -/
theorem message_injective {problem other : Problem} (hproblem : ∀ text, problem ≠ .other text)
    (hother : ∀ text, other ≠ .other text) (h : problem.message = other.message) : problem = other := by
  have hhead := head?_message hproblem
  rw [h, head?_message hother] at hhead
  cases problem <;> cases other <;> simp at hproblem hother hhead
  case missing.missing => rfl
  case notAnObject.notAnObject => exact congrArg notAnObject ((String.append_right_inj _).1 h)
  case tooManyKeys.tooManyKeys count other =>
    have hcount := decimalNumber_message other
    rw [← h, decimalNumber_message] at hcount
    rw [hcount]

end Problem

namespace Error

def message : Error → String
  | .notStored =>
    "config to resolve is not set; call `set_config_to_resolve` or use a `*_from` entry point"
  | .unreadable format cause => s!"failed to parse {format.title} configuration: {cause.message format}"
  | .invalid key problem => s!"invalid config: '{key}' {problem.message}"
  | .expression text cause =>
    match cause.kind with
    | .malformed => s!"custom expression `{text}` is malformed: {cause.message}"
    | .unsupported => s!"custom expression `{text}` is not supported: {cause.message}"
  | .unfit cause => s!"failed to serialise resolved config: {cause.message}"
  | .options cause => s!"failed to load resolver options: {cause.message}"

def isExpression : Error → Bool
  | .expression .. => true
  | _ => false

end Error

end Groupwise
