import Groupwise.Proofs.Tree.Ordered

namespace Groupwise

namespace Text

def bytes (text : String) : List UInt8 := text.toUTF8.data.toList

/-- The lists agree up to some place, at which the first one has the lesser byte. -/
def Sooner (xs ys : List UInt8) : Prop :=
  ∃ front x y back back', xs = front ++ x :: back ∧ ys = front ++ y :: back' ∧ x < y

variable {xs ys : List UInt8} {m n : Nat}

theorem Sooner.head (h : m < n) (hn : n < 256) : Sooner (UInt8.ofNat m :: xs) (UInt8.ofNat n :: ys) := by
  refine ⟨[], _, _, xs, ys, rfl, rfl, ?_⟩
  rw [UInt8.lt_iff_toNat_lt, UInt8.toNat_ofNat_of_lt' (Nat.lt_trans h hn), UInt8.toNat_ofNat_of_lt' hn]
  exact h

theorem Sooner.cons (hle : m ≤ n) (hn : n < 256) (h : m = n → Sooner xs ys) :
    Sooner (UInt8.ofNat m :: xs) (UInt8.ofNat n :: ys) := by
  rcases Nat.lt_or_eq_of_le hle with hlt | rfl
  · exact .head hlt hn
  · obtain ⟨front, x, y, back, back', rfl, rfl, hlt⟩ := h rfl
    exact ⟨UInt8.ofNat m :: front, x, y, back, back', rfl, rfl, hlt⟩

theorem Sooner.lt_append (h : Sooner xs ys) (more more' : List UInt8) : xs ++ more < ys ++ more' := by
  obtain ⟨front, x, y, back, back', rfl, rfl, hlt⟩ := h
  induction front with
  | nil => exact List.cons_lt_cons_iff.2 (.inl hlt)
  | cons byte front ih => exact List.cons_lt_cons_iff.2 (.inr ⟨rfl, ih⟩)

theorem sooner_encode {c d : Char} (h : c < d) : Sooner (String.utf8EncodeChar c) (String.utf8EncodeChar d) := by
  have hlt : c.val.toNat < d.val.toNat := h
  have hd : d.val.toNat < 1114112 := by
    rcases d.valid with hvalid | ⟨-, hvalid⟩
    · exact Nat.lt_trans hvalid (by decide)
    · exact hvalid
  simp only [String.utf8EncodeChar]
  generalize c.val.toNat = v at *
  generalize d.val.toNat = w at *
  -- A shorter encoding has a lesser first byte; encodings of the same length have the digits of the numbers.
  split
  · split
    · exact .head hlt (by omega)
    · split
      · exact .head (by omega) (by omega)
      · split <;> exact .head (by omega) (by omega)
  · rw [if_neg (show ¬ w ≤ 127 by omega)]
    split
    · split
      · exact .cons (by omega) (by omega) fun _ => .head (by omega) (by omega)
      · split <;> exact .head (by omega) (by omega)
    · rw [if_neg (show ¬ w ≤ 2047 by omega)]
      split
      · split
        · exact .cons (by omega) (by omega) fun _ => .cons (by omega) (by omega) fun _ =>
            .head (by omega) (by omega)
        · exact .head (by omega) (by omega)
      · rw [if_neg (show ¬ w ≤ 65535 by omega)]
        exact .cons (by omega) (by omega) fun _ => .cons (by omega) (by omega) fun _ =>
          .cons (by omega) (by omega) fun _ => .head (by omega) (by omega)

theorem bytes_eq (text : String) : bytes text = text.toList.flatMap String.utf8EncodeChar := by
  rw [bytes, String.toUTF8_eq_toByteArray, ← String.utf8Encode_toList, List.utf8Encode, List.data_toByteArray]

theorem bytes_lt_bytes {s t : String} (h : s < t) : bytes s < bytes t := by
  rw [bytes_eq, bytes_eq]
  rw [String.lt_iff] at h
  generalize s.toList = cs at *
  generalize t.toList = ds at *
  induction ds generalizing cs with
  | nil => exact absurd h (List.not_lt_nil cs)
  | cons d ds ih =>
      cases cs with
      | nil =>
          obtain ⟨byte, rest, hbyte⟩ : ∃ byte rest, String.utf8EncodeChar d = byte :: rest := by
            apply List.exists_cons_of_length_pos
            rw [String.length_utf8EncodeChar]
            exact d.utf8Size_pos
          rw [List.flatMap_cons, hbyte]
          exact List.nil_lt_cons _ _
      | cons c cs =>
          rw [List.flatMap_cons, List.flatMap_cons]
          rcases List.cons_lt_cons_iff.1 h with hlt | ⟨rfl, hrest⟩
          · exact (sooner_encode hlt).lt_append _ _
          · exact List.append_left_lt (ih cs hrest)

end Text

theorem Members.Ascending.bytes {α : Type} {members : Members α} (h : members.Ascending) :
    members.keys.Pairwise fun key other => Text.bytes key < Text.bytes other :=
  h.imp Text.bytes_lt_bytes

end Groupwise
