import Groupwise.Tree

namespace Groupwise

/--
Values to write into the properties of some users. A rule holds for a user if one of its criteria does; a
criterion that is left empty does not hold.
-/
structure Rule where
  allGroups : List String := []
  anyGroup : List String := []
  noneOfGroups : List String := []
  expression : Option String := none
  overrides : Members Tree := []
  deriving DecidableEq

namespace Rule

def overrideKey : String := "override"

def activeExpression (rule : Rule) : Option String := rule.expression.filter (· ≠ "")

def isInert (rule : Rule) : Bool :=
  rule.allGroups.isEmpty && rule.anyGroup.isEmpty && rule.noneOfGroups.isEmpty && rule.activeExpression.isNone

end Rule

end Groupwise
