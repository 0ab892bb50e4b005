import Groupwise.Proofs.Json.Refusal
import Groupwise.Proofs.Tree.Meaning

namespace Groupwise.Json

variable {α : Type} {read : Reader α} {ts : List Token} {P : α → Prop} {levels : Nat} {means : Tree → α → Prop}

/-- Tokens are read as a value with a property, or there is no such value and they are refused. -/
def Settles (P : α → Prop) (read : Reader α) (ts : List Token) : Prop :=
  (∃ a, Reads read ts a ∧ P a) ∨ (∃ e, Refuses read ts e) ∧ ∀ a, ¬ P a

/-- A reader settles what the trees mean that have no more levels than these. -/
def Understands (levels : Nat) (read : Reader α) (means : Tree → α → Prop) : Prop :=
  ∀ t : Tree, t.Distinct → t.nesting ≤ levels → Settles (means t) read (tokensOf t)

theorem Settles.congr {Q : α → Prop} (h : Settles P read ts) (hiff : ∀ a, P a ↔ Q a) : Settles Q read ts := by
  rwa [← funext fun a => propext (hiff a)]

theorem refuses_orNull {e : Error} (absent : α) (h : Refuses read ts e) (hne : ts ≠ []) (hnull : ts.head? ≠ some .null) :
    Refuses (orNull absent read) ts e := by
  intro rest
  obtain ⟨t, ts, rfl⟩ := List.exists_cons_of_ne_nil hne
  have ht : t ≠ .null := by
    rintro rfl
    exact hnull rfl
  rw [List.cons_append, orNull_of_ne ht]
  exact h rest

theorem understands_orNull (absent : α) (h : Understands levels read means) :
    Understands levels (orNull absent read) fun t => Gives absent means (some t) := by
  intro t ht hlevels
  by_cases hnull : t = .null
  · subst hnull
    exact .inl ⟨absent, fun rest => rfl, .null⟩
  · rcases h t ht hlevels with ⟨a, hread, ha⟩ | ⟨⟨e, hrefuse⟩, hnone⟩
    · exact .inl ⟨a, reads_orNull absent hread (head?_tokensOf_ne_null hnull), .value hnull ha⟩
    · refine .inr ⟨⟨e, refuses_orNull absent hrefuse (tokensOf_ne_nil t) (head?_tokensOf_ne_null hnull)⟩, ?_⟩
      rintro a (_ | _ | ⟨-, ha⟩)
      · exact hnull rfl
      · exact hnone a ha

theorem understands_optional (h : Understands levels read means) :
    Understands levels (optional read) fun t => Gives none (Tree.IsSome means) (some t) := by
  apply understands_orNull
  intro t ht hlevels
  rcases h t ht hlevels with ⟨a, hread, ha⟩ | ⟨⟨e, hrefuse⟩, hnone⟩
  · exact .inl ⟨some a, reads_mapped some hread, a, ha, rfl⟩
  · refine .inr ⟨⟨e, refuses_mapped some hrefuse⟩, ?_⟩
    rintro found ⟨a, ha, -⟩
    exact hnone a ha

theorem refuses_string {t : Tree} (h : ∀ s, t ≠ .string s) :
    Refuses string (tokensOf t) (misplaced "a string" (tokensOf t)) := by
  cases t with
  | string s => exact absurd rfl (h s)
  | _ => exact fun rest => rfl

theorem understands_string (levels : Nat) : Understands levels string Tree.IsString := by
  intro t _ _
  by_cases h : ∃ s, t = .string s
  · obtain ⟨s, rfl⟩ := h
    exact .inl ⟨s, reads_string s, rfl⟩
  · rw [not_exists] at h
    exact .inr ⟨⟨_, refuses_string h⟩, h⟩

theorem understands_tree (levels : Nat) : Understands levels (tree levels) Tree.Arranged := by
  intro t ht hlevels
  exact .inl ⟨t.sorted, reads_tree_sorted ht hlevels, (Tree.arranged_iff ht).2 rfl⟩

theorem refuses_list {item : Reader α} {t : Tree} (h : ∀ items, t ≠ .array items) :
    Refuses (list levels item) (tokensOf t) (misplaced "a sequence" (tokensOf t)) := by
  cases t with
  | array items => exact absurd rfl (h items)
  | _ => exact fun rest => rfl

theorem refuses_list_of_item {item : Reader α} {before after : List (List Token)} {e : Error} (hlevels : levels ≠ 0)
    (hstart : ∀ ts' ∈ before ++ ts :: after, StartsItem ts') (hbefore : ∀ ts ∈ before, ∃ a, Reads item ts a)
    (h : Refuses item ts e) : Refuses (list levels item) (arrayTokens (before ++ ts :: after)) e := by
  intro rest
  have hitems := refuses_itemsOfOpen hstart hbefore h (.closeArray :: rest)
  rw [arrayTokens_append, list, if_neg hlevels, plain_eq_error.1 hitems]
  rfl

theorem settles_list {item : Reader α} {items : List Tree} (hlevels : levels ≠ 0)
    (h : ∀ t ∈ items, Settles (means t) item (tokensOf t)) :
    Settles (List.Forall₂ means items) (list levels item) (arrayTokens (items.map tokensOf)) := by
  by_cases hall : ∀ t ∈ items, ∃ a, Reads item (tokensOf t) a ∧ means t a
  · obtain ⟨all, hall⟩ := exists_forall₂ hall
    have hreads := List.forall₂_map_left_iff.2 (hall.imp fun t a ha => ha.1)
    exact .inl ⟨all, reads_list hlevels (starts_itemTokens items) hreads, hall.imp fun t a ha => ha.2⟩
  · obtain ⟨bad, hbad, hnot⟩ : ∃ t ∈ items, ¬ ∃ a, Reads item (tokensOf t) a ∧ means t a := by simpa using hall
    obtain ⟨before, t, after, rfl, hbefore, ⟨e, hrefuse⟩, hnone⟩ :=
      exists_first h ⟨bad, hbad, (h bad hbad).resolve_left hnot⟩
    have hstart := starts_itemTokens (before ++ t :: after)
    have hreads : ∀ ts ∈ before.map tokensOf, ∃ a, Reads item ts a :=
      List.forall_mem_map.2 fun b hb => (hbefore b hb).imp fun a ha => ha.1
    rw [List.map_append, List.map_cons] at hstart ⊢
    refine .inr ⟨⟨e, refuses_list_of_item hlevels hstart hreads hrefuse⟩, fun all hall => ?_⟩
    obtain ⟨a, ha⟩ := exists_of_forall₂ hall (List.mem_append_right before List.mem_cons_self)
    exact hnone a ha

theorem understands_list {item : Reader α} (h : Understands (levels - 1) item means) :
    Understands levels (list levels item) (Tree.IsList means) := by
  intro t ht hlevels
  by_cases harray : ∃ items, t = .array items
  · obtain ⟨items, rfl⟩ := harray
    obtain ⟨levels, rfl⟩ := Nat.exists_eq_add_one.2 (Nat.lt_of_lt_of_le (by simp [Tree.nesting]) hlevels)
    have hitems := settles_list (Nat.succ_ne_zero levels) fun t hmem =>
      h t (Tree.distinct_array.1 ht t hmem) (Tree.nesting_array_le.1 hlevels t hmem)
    rw [tokensOf, itemTokens_eq]
    exact hitems.congr fun all => by simp [Tree.IsList]
  · rw [not_exists] at harray
    refine .inr ⟨⟨_, refuses_list harray⟩, ?_⟩
    rintro all ⟨items, rfl, -⟩
    exact harray items rfl

theorem refuses_map {value : Reader α} {t : Tree} (h : ∀ members, t ≠ .object members) :
    Refuses (map levels value) (tokensOf t) (misplaced "a map" (tokensOf t)) := by
  cases t with
  | object members => exact absurd rfl (h members)
  | _ => exact fun rest => rfl

theorem understands_map (levels : Nat) : Understands levels (map levels (tree (levels - 1))) Tree.HasMembers := by
  intro t ht hlevels
  by_cases hobject : ∃ members, t = .object members
  · obtain ⟨members, rfl⟩ := hobject
    obtain ⟨levels, rfl⟩ := Nat.exists_eq_add_one.2 (Nat.lt_of_lt_of_le (by simp [Tree.nesting]) hlevels)
    have hread := reads_map tokensOf Tree.sorted (Nat.succ_ne_zero levels) fun entry hentry =>
      reads_tree_sorted ((Tree.distinct_object.1 ht).2 entry hentry) (Tree.nesting_object_le.1 hlevels entry hentry)
    refine .inl ⟨_, ?_, (Tree.arranged_iff ht).2 rfl⟩
    rw [tokensOf, memberTokens_eq, Tree.sortedMembers_eq]
    exact hread
  · rw [not_exists] at hobject
    refine .inr ⟨⟨_, refuses_map hobject⟩, fun entries hentries => ?_⟩
    obtain ⟨members, rfl⟩ := hentries.1.exists_object
    exact hobject members rfl

end Groupwise.Json
