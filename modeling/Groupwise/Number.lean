import Groupwise.Binary64.Shortest

namespace Groupwise

inductive Number where
  | integer (value : Int)
  | float (value : Binary64)
  deriving DecidableEq, Repr

namespace Number

def unsignedEnd : Nat := 0x10000000000000000

def signedEnd : Nat := 0x8000000000000000

def zeros (n : Nat) : List Char := List.replicate n '0'

def plain (digits : List Char) (power : Int) : List Char :=
  if 0 ≤ power then digits ++ zeros power.toNat ++ ['.', '0']
  else
    let places := (-power).toNat
    if places < digits.length then
      digits.take (digits.length - places) ++ '.' :: digits.drop (digits.length - places)
    else '0' :: '.' :: zeros (places - digits.length) ++ digits

def scientific (digits : List Char) (exponent : Int) : List Char :=
  let mantissa :=
    match digits with
    | first :: second :: rest => first :: '.' :: second :: rest
    | _ => digits
  let sign := if exponent < 0 then '-' else '+'
  mantissa ++ 'e' :: sign :: Nat.toDigits 10 exponent.natAbs

/-- A number is written plainly when its first digit counts 10⁻⁵ or more and less than 10¹⁶. -/
def floatText (x : Binary64) : List Char :=
  let (count, power) := x.shortest
  let digits := Nat.toDigits 10 count
  let exponent := digits.length + power - 1
  let magnitude := if -5 ≤ exponent ∧ exponent < 16 then plain digits power else scientific digits exponent
  if x.negative then '-' :: magnitude else magnitude

def integerText (n : Int) : List Char :=
  if n < 0 then '-' :: Nat.toDigits 10 n.natAbs else Nat.toDigits 10 n.natAbs

def text : Number → List Char
  | .integer n => integerText n
  | .float x => floatText x

/-- A float in digits alone, with no exponent however long they grow and no fraction if it is whole. -/
def positional (x : Binary64) : List Char :=
  let (count, power) := x.shortest
  let digits := Nat.toDigits 10 count
  let magnitude := if 0 ≤ power then digits ++ zeros power.toNat else plain digits power
  if x.negative then '-' :: magnitude else magnitude

end Number

end Groupwise
