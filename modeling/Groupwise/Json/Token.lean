import Groupwise.Json.Error
import Groupwise.Text.Digits

namespace Groupwise.Json

structure Literal where
  negative : Bool
  whole : List Char
  fraction : List Char := []
  exponent : Option (Bool × List Char) := none
  deriving DecidableEq, Repr

/--
A token of a text. A fault is a token too: it is reported when somebody asks for the value it stands in the
place of, and what a reader says that wants the value may differ from what one says that skips it.
-/
inductive Token where
  | openArray
  | closeArray
  | openObject
  | closeObject
  | colon
  | comma
  | null
  | bool (value : Bool)
  | number (literal : Literal)
  | string (text : String)
  | unreadable (fault : Fault)
  | brokenString (read skipped : Fault)
  | broken (read skipped : Fault)
  deriving DecidableEq, Repr

def Literal.power (literal : Literal) : Int :=
  match literal.exponent with
  | none => 0
  | some (true, digits) => -(Text.decimalNumber digits : Int)
  | some (false, digits) => Text.decimalNumber digits

/--
The number that a literal denotes, if it is finite. Only a literal without fraction and exponent is a whole
number, and only if 64 bits hold it; minus zero is not one.
-/
def Literal.number? (literal : Literal) : Option Number :=
  let whole := Text.decimalNumber literal.whole
  if literal.fraction = [] ∧ literal.exponent = none ∧ literal.negative = false ∧ whole < Number.unsignedEnd then
    some (.integer whole)
  else if literal.fraction = [] ∧ literal.exponent = none ∧ literal.negative ∧ 0 < whole ∧
      whole ≤ Number.signedEnd then
    some (.integer (-whole))
  else
    (Binary64.ofDecimal? literal.negative (Text.decimalNumber (literal.whole ++ literal.fraction))
      (literal.power - literal.fraction.length)).map .float

end Groupwise.Json
