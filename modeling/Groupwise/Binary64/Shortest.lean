import Groupwise.Binary64

namespace Groupwise.Binary64

/--
The numbers that round to `x`, in units of a quarter of its last place: they lie between `low` and `high`,
and the ends are among them when the significand is even.
-/
def low (x : Binary64) : Nat :=
  if x.significand = leading ∧ x.exponent > -1074 then 4 * x.significand - 1 else 4 * x.significand - 2

def high (x : Binary64) : Nat := 4 * x.significand + 2

def endsIncluded (x : Binary64) : Bool := x.significand % 2 = 0

def aligned (x : Binary64) (grid : Int) (count quarters : Nat) : Nat × Nat :=
  let (u, v) := fraction count grid
  let (n, d) := scale u v (x.exponent - 2)
  (n, quarters * d)

def covers (x : Binary64) (grid : Int) (count : Nat) : Bool :=
  let (c, l) := x.aligned grid count x.low
  let (_, h) := x.aligned grid count x.high
  if x.endsIncluded then l ≤ c && c ≤ h else l < c && c < h

def steps (x : Binary64) (grid : Int) : Nat :=
  let (c, q) := x.aligned grid 1 (4 * x.significand)
  q / c

def nearerAbove (x : Binary64) (grid : Int) : Bool :=
  let below := x.steps grid
  let (c, q) := x.aligned grid (2 * below + 1) (8 * x.significand)
  c < q || (c = q && below % 2 = 1)

def onGrid? (x : Binary64) (grid : Int) : Option Nat :=
  let below := x.steps grid
  match x.covers grid below, x.covers grid (below + 1) with
  | false, false => none
  | true, false => some below
  | false, true => some (below + 1)
  | true, true => some (if x.nearerAbove grid then below + 1 else below)

def coarsest (x : Binary64) : Nat → Nat × Int
  | 0 => (x.significand, 0)
  | n + 1 =>
    match x.onGrid? (n - 330) with
    | some count => (count, n - 330)
    | none => x.coarsest n

/-- The fewest digits that read back as the magnitude of `x`, and the power of ten they count. -/
def shortest (x : Binary64) : Nat × Int :=
  if x.rank = 0 then (0, 0) else x.coarsest 650

end Groupwise.Binary64
