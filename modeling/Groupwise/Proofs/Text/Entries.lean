import Groupwise.Proofs.Text.Slice
import Groupwise.Text.Entries
import Mathlib.Data.List.DropRight

namespace Groupwise.Text

structure Trimmed (s : List Char) : Prop where
  first : ∀ x ∈ s.head?, isBlank x = false
  last : ∀ x ∈ s.getLast?, isBlank x = false

structure Entry (s : List Char) : Prop extends Trimmed s where
  ne_nil : s ≠ []
  no_comma : ',' ∉ s

instance (s : List Char) : Decidable (Entry s) :=
  decidable_of_iff (s.head?.all (!isBlank ·) && s.getLast?.all (!isBlank ·) && !s.isEmpty && !s.contains ',') <| by
    simp only [Bool.and_eq_true, Option.all_eq_true, Bool.not_eq_true', List.isEmpty_eq_false_iff,
      List.contains_eq_mem, decide_eq_false_iff_not]
    constructor
    · rintro ⟨⟨⟨hfirst, hlast⟩, hne⟩, hcomma⟩
      exact ⟨⟨hfirst, hlast⟩, hne, hcomma⟩
    · rintro ⟨⟨hfirst, hlast⟩, hne, hcomma⟩
      exact ⟨⟨⟨hfirst, hlast⟩, hne⟩, hcomma⟩

/-- Entries, and what is written between the commas for them: each with blanks around it, and blanks alone anywhere. -/
inductive Written : List (List Char) → List (List Char) → Prop
  | nil : Written [] []
  | blank {es pieces : List (List Char)} {blanks : List Char} (hblanks : ∀ x ∈ blanks, isBlank x = true)
      (h : Written es pieces) : Written es (blanks :: pieces)
  | entry {es pieces : List (List Char)} {before e after : List Char} (hbefore : ∀ x ∈ before, isBlank x = true)
      (hafter : ∀ x ∈ after, isBlank x = true) (h : Written es pieces) :
      Written (e :: es) ((before ++ e ++ after) :: pieces)

/-- Parts of a text, in the order in which they stand there. No two of them overlap. -/
inductive InOrder : List (List Char) → List Char → Prop
  | nil (s : List Char) : InOrder [] s
  | cons {parts : List (List Char)} {s : List Char} (before part : List Char) (h : InOrder parts s) :
      InOrder (part :: parts) (before ++ part ++ s)

section Trim

variable {s before after : List Char}

theorem dropWhile_isBlank (h : ∀ x ∈ s.head?, isBlank x = false) : s.dropWhile isBlank = s := by
  cases s with
  | nil => rfl
  | cons c s => exact List.dropWhile_cons_of_neg (by simp [h c rfl])

theorem trim_of_blanks (h : ∀ x ∈ s, isBlank x = true) : trim s = [] := by
  rw [trim, trimStart, List.dropWhile_eq_nil_iff.2 h]
  rfl

theorem trim_around (hbefore : ∀ x ∈ before, isBlank x = true) (hafter : ∀ x ∈ after, isBlank x = true)
    (h : Trimmed s) : trim (before ++ s ++ after) = s := by
  -- Without a character in between, the blanks of both ends are dropped from the front.
  by_cases hs : s = []
  · subst hs
    apply trim_of_blanks
    simpa [or_imp, forall_and] using ⟨hbefore, hafter⟩
  · have hfirst : ∀ x ∈ (s ++ after).head?, isBlank x = false := by
      rw [List.head?_append_of_ne_nil _ hs]
      exact h.first
    have hlast : ∀ x ∈ s.reverse.head?, isBlank x = false := by
      rw [List.head?_reverse]
      exact h.last
    calc trim (before ++ s ++ after)
      _ = trimEnd ((s ++ after).dropWhile isBlank) := by
        rw [trim, trimStart, List.append_assoc, List.dropWhile_append_of_pos hbefore]
      _ = (s.reverse.dropWhile isBlank).reverse := by
        rw [dropWhile_isBlank hfirst, trimEnd, trimStart, List.reverse_append,
          List.dropWhile_append_of_pos (by simpa using hafter)]
      _ = s := by rw [dropWhile_isBlank hlast, List.reverse_reverse]

theorem trimmed_trim (s : List Char) : Trimmed (trim s) where
  first := by
    intro x hx
    have hprefix : trim s <+: trimStart s := List.rdropWhile_prefix isBlank (trimStart s)
    obtain ⟨more, hmore⟩ := hprefix
    apply head?_dropWhile isBlank s
    rw [← trimStart, ← hmore]
    exact List.mem_head?_append_of_mem_head? hx
  last := by
    intro x hx
    rw [trim, trimEnd, List.getLast?_reverse] at hx
    exact head?_dropWhile isBlank (trimStart s).reverse x hx

theorem exists_trim (s : List Char) : ∃ before after,
    (∀ x ∈ before, isBlank x = true) ∧ (∀ x ∈ after, isBlank x = true) ∧ s = before ++ trim s ++ after := by
  refine ⟨s.takeWhile isBlank, (s.dropWhile isBlank).rtakeWhile isBlank, ?_, ?_, ?_⟩
  · exact List.all_eq_true.1 List.all_takeWhile
  · exact fun x hx => List.mem_rtakeWhile_imp hx
  · have hend : trim s ++ (s.dropWhile isBlank).rtakeWhile isBlank = s.dropWhile isBlank :=
      List.rdropWhile_append_rtakeWhile
    rw [List.append_assoc, hend, List.takeWhile_append_dropWhile]

end Trim

section Quotes

variable {s t before after : List Char} {quote : Char}

theorem between?_eq_some : between? quote s = some t ↔ s = quote :: t ++ [quote] := by
  cases s with
  | nil => simp [between?]
  | cons first rest =>
      rw [between?]
      constructor
      · intro h
        split at h
        · next hquotes =>
          obtain rfl := Option.some.inj h
          rw [hquotes.1, List.cons_append, List.dropLast_append_getLast? quote hquotes.2]
        · contradiction
      · intro h
        obtain ⟨rfl, rfl⟩ := List.cons.inj h
        simp

theorem unquote_around (hquote : quote = '"' ∨ quote = '\'') (hbefore : ∀ x ∈ before, isBlank x = true)
    (hafter : ∀ x ∈ after, isBlank x = true) : unquote (before ++ quote :: s ++ quote :: after) = s := by
  have hnot : isBlank quote = false := by rcases hquote with rfl | rfl <;> decide
  have htrimmed : Trimmed (quote :: s ++ [quote]) := by
    constructor
    · simpa using hnot
    · rw [List.getLast?_concat]
      simpa using hnot
  have htrim : trim (before ++ quote :: s ++ quote :: after) = quote :: s ++ [quote] := by
    rw [← trim_around hbefore hafter htrimmed]
    simp
  have hbetween : between? quote (quote :: s ++ [quote]) = some s := between?_eq_some.2 rfl
  rw [unquote, htrim]
  rcases hquote with rfl | rfl
  · rw [hbetween]
    rfl
  · have hdouble : between? '"' ('\'' :: s ++ ['\'']) = none := rfl
    rw [hdouble, hbetween]
    rfl

theorem exists_unquote (s : List Char) : ∃ front back, s = front ++ unquote s ++ back := by
  obtain ⟨before, after, -, -, hs⟩ := exists_trim s
  have hquoted : ∀ {quote : Char} {t : List Char}, between? quote (trim s) = some t →
      ∃ front back, s = front ++ t ++ back := by
    intro quote t ht
    refine ⟨before ++ [quote], quote :: after, ?_⟩
    rw [between?_eq_some.1 ht] at hs
    simpa using hs
  rw [unquote]
  rcases hdouble : between? '"' (trim s) with _ | t
  · rcases hsingle : between? '\'' (trim s) with _ | t
    · exact ⟨before, after, hs⟩
    · exact hquoted hsingle
  · exact hquoted hdouble

end Quotes

section Lists

variable {es pieces parts : List (List Char)} {s : List Char}

theorem Written.read (h : Written es pieces) (hes : ∀ e ∈ es, Entry e) : (pieces.map trim).filter (· ≠ []) = es := by
  induction h with
  | nil => rfl
  | blank hblanks h ih =>
      rw [List.map_cons, trim_of_blanks hblanks, List.filter_cons_of_neg (by simp), ih hes]
  | @entry es pieces before e after hbefore hafter h ih =>
      obtain ⟨he, hes⟩ := List.forall_mem_cons.1 hes
      rw [List.map_cons, trim_around hbefore hafter he.toTrimmed, List.filter_cons_of_pos (by simpa using he.ne_nil),
        ih hes]

theorem Written.no_comma (h : Written es pieces) (hes : ∀ e ∈ es, Entry e) : ∀ piece ∈ pieces, ',' ∉ piece := by
  have hblank : ∀ {blanks : List Char}, (∀ x ∈ blanks, isBlank x = true) → ',' ∉ blanks := by
    intro blanks hblanks hcomma
    exact absurd (hblanks ',' hcomma) (by decide)
  induction h with
  | nil => simp
  | blank hblanks h ih => exact List.forall_mem_cons.2 ⟨hblank hblanks, ih hes⟩
  | @entry es pieces before e after hbefore hafter h ih =>
      obtain ⟨he, hes⟩ := List.forall_mem_cons.1 hes
      refine List.forall_mem_cons.2 ⟨?_, ih hes⟩
      simp [hblank hbefore, he.no_comma, hblank hafter]

theorem written_read (pieces : List (List Char)) : Written ((pieces.map trim).filter (· ≠ [])) pieces := by
  induction pieces with
  | nil => exact .nil
  | cons piece pieces ih =>
      obtain ⟨before, after, hbefore, hafter, hpiece⟩ := exists_trim piece
      by_cases hblank : trim piece = []
      · rw [List.map_cons, List.filter_cons_of_neg (by simpa using hblank)]
        refine .blank ?_ ih
        rw [hpiece, hblank]
        simpa [or_imp, forall_and] using ⟨hbefore, hafter⟩
      · rw [List.map_cons, List.filter_cons_of_pos (by simpa using hblank)]
        have hentry := Written.entry (e := trim piece) hbefore hafter ih
        rwa [← hpiece] at hentry

theorem entry_of_mem_entries (s : List Char) : ∀ e ∈ entries s, Entry e := by
  intro e he
  obtain ⟨hmem, hne⟩ := List.mem_filter.1 he
  obtain ⟨piece, hpiece, rfl⟩ := List.mem_map.1 hmem
  have hcomma : ',' ∉ piece := not_mem_of_mem_splitOn hpiece
  obtain ⟨before, after, -, -, hparts⟩ := exists_trim piece
  refine ⟨trimmed_trim piece, by simpa using hne, fun hmem => hcomma ?_⟩
  rw [hparts]
  simp [hmem]

theorem InOrder.append_left (h : InOrder parts s) (front : List Char) : InOrder parts (front ++ s) := by
  cases h with
  | nil => exact .nil _
  | cons before part h =>
      rw [← List.append_assoc, ← List.append_assoc]
      exact .cons (front ++ before) part h

theorem InOrder.append_right (h : InOrder parts s) (back : List Char) : InOrder parts (s ++ back) := by
  induction h with
  | nil => exact .nil _
  | cons before part h ih =>
      rw [List.append_assoc]
      exact .cons before part ih

theorem exists_gap (piece : List Char) (pieces : List (List Char)) :
    ∃ gap, [','].intercalate (piece :: pieces) = piece ++ (gap ++ [','].intercalate pieces) := by
  cases pieces with
  | nil => exact ⟨[], by simp⟩
  | cons next pieces => exact ⟨[','], by rw [List.intercalate_cons_cons, List.append_assoc]⟩

theorem Written.inOrder (h : Written es pieces) : InOrder es ([','].intercalate pieces) := by
  induction h with
  | nil => exact .nil _
  | @blank es pieces blanks hblanks h ih =>
      obtain ⟨gap, hgap⟩ := exists_gap blanks pieces
      rw [hgap]
      exact (ih.append_left gap).append_left blanks
  | @entry es pieces before e after hbefore hafter h ih =>
      obtain ⟨gap, hgap⟩ := exists_gap (before ++ e ++ after) pieces
      rw [hgap, List.append_assoc (before ++ e)]
      exact .cons before e ((ih.append_left gap).append_left after)

/--
A list that is written between two quotes of one kind is read as its entries, whatever blanks stand around the quotes
and the entries, and whatever blank entries are added. What is read of a text has no commas and no blanks at its ends, is
not empty, and stands in the text in that order.
-/
theorem entries_of_written :
    (∀ {es pieces : List (List Char)} {quote : Char} {before after : List Char}, (∀ e ∈ es, Entry e) →
      Written es pieces → quote = '"' ∨ quote = '\'' → (∀ x ∈ before, isBlank x = true) →
      (∀ x ∈ after, isBlank x = true) →
      entries (before ++ quote :: [','].intercalate pieces ++ quote :: after) = es) ∧
    (∀ s, (∀ e ∈ entries s, Entry e) ∧ InOrder (entries s) s) := by
  constructor
  · intro es pieces quote before after hes hwritten hquote hbefore hafter
    rw [entries, unquote_around hquote hbefore hafter]
    -- No pieces at all are written as one empty piece is, and that is what is split off.
    by_cases hpieces : pieces = []
    · subst hpieces
      cases hwritten
      rfl
    · rw [List.splitOn_intercalate ',' (hwritten.no_comma hes) hpieces]
      exact hwritten.read hes
  · intro s
    refine ⟨entry_of_mem_entries s, ?_⟩
    obtain ⟨front, back, hs⟩ := exists_unquote s
    have hwritten : Written (entries s) ((unquote s).splitOn ',') := written_read _
    have hinside := hwritten.inOrder
    rw [List.intercalate_splitOn] at hinside
    have haround := (hinside.append_left front).append_right back
    rwa [← hs] at haround

theorem entries_of_written_quotes :
    let es := ["\"a b\"", "it's", "'c'"].map String.toList
    let text := "\u3000 '\"a b\", \t,it's , 'c','\n".toList
    (∀ e ∈ es, Entry e) ∧ entries text = es ∧ InOrder (entries text) text := by
  intro es text
  have hes : ∀ e ∈ es, Entry e := by decide +kernel
  have hnone : ∀ x ∈ [], isBlank x = true := by simp
  have hspace : ∀ x ∈ [' '], isBlank x = true := List.all_eq_true.1 rfl
  have hblanks : ∀ x ∈ [' ', '\t'], isBlank x = true := List.all_eq_true.1 rfl
  have hwritten : Written es
      [[] ++ "\"a b\"".toList ++ [], [' ', '\t'], [] ++ "it's".toList ++ [' '], [' '] ++ "'c'".toList ++ [], []] :=
    .entry hnone hnone (.blank hblanks (.entry hnone hspace (.entry hspace hnone (.blank hnone .nil))))
  have hbefore : ∀ x ∈ ['\u3000', ' '], isBlank x = true := List.all_eq_true.1 rfl
  have hafter : ∀ x ∈ ['\n'], isBlank x = true := List.all_eq_true.1 rfl
  have hread := entries_of_written.1 hes hwritten (.inr rfl) hbefore hafter
  exact ⟨hes, hread, (entries_of_written.2 text).2⟩

end Lists

end Groupwise.Text
