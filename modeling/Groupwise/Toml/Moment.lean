import Groupwise.Text.Digits

namespace Groupwise.Toml

open Text (decimalNumber)

def isDigits (s : List Char) : Bool := s.all Char.isDigit

def isLeapYear (year : Nat) : Bool := year % 4 = 0 && (year % 100 ≠ 0 || year % 400 = 0)

def daysOf (year month : Nat) : Nat :=
  if month = 2 then (if isLeapYear year then 29 else 28)
  else if [4, 6, 9, 11].contains month then 30
  else 31

def date? (s : List Char) : Option (List Char × List Char) :=
  match s with
  | y₁ :: y₂ :: y₃ :: y₄ :: '-' :: m₁ :: m₂ :: '-' :: d₁ :: d₂ :: rest =>
    let year := decimalNumber [y₁, y₂, y₃, y₄]
    let month := decimalNumber [m₁, m₂]
    let day := decimalNumber [d₁, d₂]
    if isDigits [y₁, y₂, y₃, y₄, m₁, m₂, d₁, d₂] ∧ 1 ≤ month ∧ month ≤ 12 ∧ 1 ≤ day ∧ day ≤ daysOf year month then
      some ([y₁, y₂, y₃, y₄, '-', m₁, m₂, '-', d₁, d₂], rest)
    else none
  | _ => none

/-- A fraction of a second counts to nine places and is written without zeros at its end. -/
def fractionText (digits : List Char) : List Char :=
  match ((digits.take 9).reverse.dropWhile (· = '0')).reverse with
  | [] => []
  | places => '.' :: places

def time? (s : List Char) : Option (List Char × List Char) :=
  match s with
  | h₁ :: h₂ :: ':' :: m₁ :: m₂ :: ':' :: s₁ :: s₂ :: rest =>
    if isDigits [h₁, h₂, m₁, m₂, s₁, s₂] ∧ decimalNumber [h₁, h₂] ≤ 23 ∧ decimalNumber [m₁, m₂] ≤ 59 ∧
        decimalNumber [s₁, s₂] ≤ 60 then
      let whole := [h₁, h₂, ':', m₁, m₂, ':', s₁, s₂]
      match rest with
      | '.' :: rest =>
        let digits := rest.takeWhile Char.isDigit
        if digits = [] then none else some (whole ++ fractionText digits, rest.dropWhile Char.isDigit)
      | rest => some (whole, rest)
    else none
  | _ => none

/-- The offset from universal time, to the end of the text. No offset at all is written with a plus sign. -/
def offset? (s : List Char) : Option (List Char) :=
  match s with
  | [] => some []
  | ['Z'] | ['z'] => some ['Z']
  | [sign, h₁, h₂, ':', m₁, m₂] =>
    if (sign = '+' ∨ sign = '-') ∧ isDigits [h₁, h₂, m₁, m₂] ∧ decimalNumber [h₁, h₂] ≤ 23 ∧
        decimalNumber [m₁, m₂] ≤ 59 then
      let sign := if decimalNumber [h₁, h₂, m₁, m₂] = 0 then '+' else sign
      some [sign, h₁, h₂, ':', m₁, m₂]
    else none
  | _ => none

def moment? (s : List Char) : Option (List Char) :=
  match date? s with
  | some (date, []) => some date
  | some (date, mark :: rest) =>
    if mark = 'T' ∨ mark = 't' ∨ mark = ' ' then do
      let (time, rest) ← time? rest
      let offset ← offset? rest
      some (date ++ 'T' :: time ++ offset)
    else none
  | none =>
    match time? s with
    | some (time, []) => some time
    | _ => none

end Groupwise.Toml
