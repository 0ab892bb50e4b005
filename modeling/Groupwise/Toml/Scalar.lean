import Groupwise.Toml.Moment
import Groupwise.Toml.Value

namespace Groupwise.Toml

def ungrouped? (isDigit : Char → Bool) (s : List Char) : Option (List Char) :=
  let groups := s.splitOn '_'
  if groups.all fun group => group ≠ [] && group.all isDigit then some groups.flatten else none

def decimal? (s : List Char) : Option (List Char) := do
  let digits ← ungrouped? Char.isDigit s
  match digits with
  | '0' :: _ :: _ => none
  | digits => some digits

def digitValue (c : Char) : Nat :=
  if c.isDigit then c.toNat - '0'.toNat else c.toLower.toNat - 'a'.toNat + 10

def isDigitOf (base : Nat) (c : Char) : Bool := c.isAlphanum && digitValue c < base

def inBase? (base : Nat) (s : List Char) : Option Nat :=
  (ungrouped? (isDigitOf base) s).map fun digits => digits.foldl (fun n c => n * base + digitValue c) 0

def whole? (negative : Bool) (magnitude : Nat) : Option Value :=
  if negative then
    if magnitude ≤ Number.signedEnd then some (.integer (-magnitude)) else none
  else if magnitude < Number.unsignedEnd then some (.integer magnitude) else none

def power? (s : List Char) : Option Int :=
  match s with
  | [] => some 0
  | c :: rest =>
    if c = 'e' ∨ c = 'E' then do
      let (negative, digits) := Text.splitSign rest
      let power ← (ungrouped? Char.isDigit digits).map Text.decimalNumber
      some (if negative then -power else power)
    else none

def isGrouped (c : Char) : Bool := c.isDigit || c = '_'

def unsigned? (negative : Bool) (s : List Char) : Option Value := do
  let digits ← decimal? (s.takeWhile isGrouped)
  match s.dropWhile isGrouped with
  | [] => whole? negative (Text.decimalNumber digits)
  | '.' :: rest => do
    let places ← ungrouped? Char.isDigit (rest.takeWhile isGrouped)
    let power ← power? (rest.dropWhile isGrouped)
    let x ← Binary64.ofDecimal? negative (Text.decimalNumber (digits ++ places)) (power - places.length)
    some (.float x)
  | rest => do
    let power ← power? rest
    let x ← Binary64.ofDecimal? negative (Text.decimalNumber digits) power
    some (.float x)

def number? (s : List Char) : Option Value :=
  match s with
  | '0' :: 'x' :: digits => (inBase? 16 digits).bind (whole? false)
  | '0' :: 'o' :: digits => (inBase? 8 digits).bind (whole? false)
  | '0' :: 'b' :: digits => (inBase? 2 digits).bind (whole? false)
  | s =>
    match Text.splitSign s with
    | (_, ['i', 'n', 'f']) | (_, ['n', 'a', 'n']) => some .special
    | (negative, s) => unsigned? negative s

def scalar? (s : List Char) : Option Value :=
  if s = ['t', 'r', 'u', 'e'] then some (.bool true)
  else if s = ['f', 'a', 'l', 's', 'e'] then some (.bool false)
  else
    match moment? s with
    | some text => some (.moment (String.ofList text))
    | none => number? s

end Groupwise.Toml
