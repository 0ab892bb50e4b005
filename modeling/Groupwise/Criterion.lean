import Groupwise.Expr.Parser
import Groupwise.Rule

namespace Groupwise

inductive Criterion where
  | allGroups
  | anyGroup
  | noneOfGroups
  | expression
  deriving DecidableEq, Repr

def Criterion.name : Criterion → String
  | .allGroups => "user-is-in-all-groups"
  | .anyGroup => "user-is-in-any-group"
  | .noneOfGroups => "user-is-none-of-the-groups"
  | .expression => "custom-expression"

theorem Criterion.name_injective {criterion other : Criterion} (h : criterion.name = other.name) :
    criterion = other := by
  cases criterion <;> cases other <;> first | rfl | exact absurd h (by decide)

namespace Rule

structure BadExpression where
  expression : String
  cause : Expr.Error
  deriving DecidableEq, Repr

/-- The first criterion that holds. The expression is looked at only when no list decides. -/
def criterion? (rule : Rule) (groups : Groups) : Except BadExpression (Option Criterion) :=
  if rule.allGroups ≠ [] ∧ groups.containsAll rule.allGroups then .ok (some .allGroups)
  else if groups.containsAny rule.anyGroup then .ok (some .anyGroup)
  else if rule.noneOfGroups ≠ [] ∧ groups.containsAny rule.noneOfGroups = false then .ok (some .noneOfGroups)
  else
    match rule.activeExpression with
    | none => .ok none
    | some expression =>
      match Expr.parse expression with
      | .error cause => .error ⟨expression, cause⟩
      | .ok e => .ok (if e.evaluate groups then some .expression else none)

end Rule

end Groupwise
