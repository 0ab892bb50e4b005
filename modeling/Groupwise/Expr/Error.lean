import Groupwise.Expr.Token

namespace Groupwise.Expr

inductive Mark where
  | dot
  | open
  | quote
  | close
  deriving DecidableEq, Repr

def Mark.char : Mark → Char
  | .dot => '.'
  | .open => '('
  | .quote => '\''
  | .close => ')'

def Mark.purpose : Mark → String
  | .dot => "after '#user'"
  | .open => "after '#user.contains'"
  | .quote => "to open the group name"
  | .close => "to close '#user.contains('"

inductive Fault where
  | unexpectedChar (c : Char)
  | unsupportedOperator (operator : String)
  | unknownWord (word : String)
  | missingReceiver
  | unknownReceiver (receiver : String)
  | missingMethod
  | unsupportedMethod (method : String)
  | missingMark (mark : Mark)
  | unterminatedGroup (start : Nat)
  | emptyGroup
  | emptyExpression
  | notAnOperand (found : Symbol)
  | missingOperand
  | notAClose (opened : Nat) (found : Symbol)
  | missingClose (opened : Nat)
  | surplus (found : Symbol)
  | tooDeep
  deriving DecidableEq, Repr

/-- A malformed text has a wrong shape; an unsupported one asks for something outside the language. -/
inductive Kind where
  | malformed
  | unsupported
  deriving DecidableEq, Repr

/-- The greatest number of parentheses and negations that may be open at once. -/
def maxDepth : Nat := 64

def Fault.kind : Fault → Kind
  | .unsupportedOperator _ | .unknownWord _ | .unknownReceiver _ | .unsupportedMethod _ => .unsupported
  | _ => .malformed

def Fault.message : Fault → String
  | .unexpectedChar c => s!"unexpected character '{c}'"
  | .unsupportedOperator operator => s!"unsupported operator '{operator}'"
  | .unknownWord word => s!"unknown identifier '{word}'"
  | .missingReceiver => "expected an identifier after '#'"
  | .unknownReceiver receiver => s!"unknown identifier '#{receiver}'"
  | .missingMethod => "expected a method name after '#user.'"
  | .unsupportedMethod method => s!"unsupported method '#user.{method}'"
  | .missingMark mark => s!"expected '{mark.char}' {mark.purpose}"
  | .unterminatedGroup start => s!"unterminated group name starting at offset {start}"
  | .emptyGroup => "group name must not be empty"
  | .emptyExpression => "expression is empty"
  | .notAnOperand found => s!"expected a membership test or '(', found {found.description}"
  | .missingOperand => "expected a membership test or '(' but the expression ended"
  | .notAClose opened found =>
    s!"expected ')' to close '(' at offset {opened}, found {found.description}"
  | .missingClose opened => s!"unclosed '(' opened at offset {opened}"
  | .surplus found => s!"unexpected {found.description} after a complete expression"
  | .tooDeep => s!"expression nests deeper than {maxDepth} levels"

structure Error where
  fault : Fault
  position : Nat
  deriving DecidableEq, Repr

def Error.kind (e : Error) : Kind := e.fault.kind

def Error.message (e : Error) : String := s!"{e.fault.message} at offset {e.position}"

end Groupwise.Expr
