import Groupwise.Groups

namespace Groupwise

inductive Expr where
  | member (group : String)
  | not (operand : Expr)
  | and (left right : Expr)
  | or (left right : Expr)
  deriving DecidableEq, Repr

namespace Expr

def evaluate (groups : Groups) : Expr → Bool
  | .member group => groups.contains group
  | .not operand => !operand.evaluate groups
  | .and left right => left.evaluate groups && right.evaluate groups
  | .or left right => left.evaluate groups || right.evaluate groups

def memberText (group : String) : List Char :=
  "#user.contains('".toList ++ group.toList ++ "')".toList

/-- Every `and` and every `or` stands in parentheses, so the text needs no rule of precedence. -/
def text : Expr → List Char
  | .member group => memberText group
  | .not operand => "not ".toList ++ operand.text
  | .and left right => '(' :: left.text ++ " and ".toList ++ right.text ++ [')']
  | .or left right => '(' :: left.text ++ " or ".toList ++ right.text ++ [')']

def toText (e : Expr) : String := String.ofList e.text

end Expr

end Groupwise
