import Groupwise.Proofs.Tree.Ordered

namespace Groupwise

def Number.Valid : Number → Prop
  | .integer n => -(signedEnd : Int) ≤ n ∧ n < unsignedEnd
  | .float _ => True

namespace Tree

/-- An ordered tree of valid numbers that never has more than so many arrays and objects around anything. -/
inductive Within : Nat → Tree → Prop
  | null (levels : Nat) : Within levels .null
  | bool (levels : Nat) (b : Bool) : Within levels (.bool b)
  | number (levels : Nat) {n : Number} (h : n.Valid) : Within levels (.number n)
  | string (levels : Nat) (s : String) : Within levels (.string s)
  | array {levels : Nat} {items : List Tree} (hitems : ∀ t ∈ items, Within levels t) : Within (levels + 1) (.array items)
  | object {levels : Nat} {members : Members Tree} (hkeys : members.Ascending)
      (hmembers : ∀ entry ∈ members, Within levels entry.2) : Within (levels + 1) (.object members)

theorem Within.ordered {levels : Nat} {t : Tree} (h : Within levels t) : t.Ordered := by
  induction h with
  | null => exact .null
  | bool => exact .bool _
  | number => exact .number _
  | string => exact .string _
  | array _ ih => exact .array ih
  | object hkeys _ ih => exact .object hkeys ih

end Tree

end Groupwise
