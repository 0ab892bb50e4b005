import Mathlib.Data.List.Forall2
import Groupwise.Proofs.Tree.Reordered

namespace Groupwise

variable {α : Type}

/-- What a field gives that may be left out. Missing and `null` are the same. -/
inductive Gives (absent : α) (means : Tree → α → Prop) : Option Tree → α → Prop
  | missing : Gives absent means none absent
  | null : Gives absent means (some .null) absent
  | value {t : Tree} {a : α} (hnull : t ≠ .null) (h : means t a) : Gives absent means (some t) a

def Optionally (P : Tree → Prop) (found : Option Tree) : Prop := found = none ∨ found = some .null ∨ ∃ t, found = some t ∧ P t

namespace Tree

def IsString (t : Tree) (s : String) : Prop := t = .string s

def IsList (item : Tree → α → Prop) (t : Tree) (all : List α) : Prop :=
  ∃ items, t = .array items ∧ List.Forall₂ item items all

def IsListOf (P : Tree → Prop) (t : Tree) : Prop := ∃ items, t = .array items ∧ ∀ item ∈ items, P item

def IsSome (means : Tree → α → Prop) (t : Tree) (found : Option α) : Prop := ∃ a, means t a ∧ found = some a

def HasMembers (t : Tree) (members : Members Tree) : Prop := t.Arranged (.object members)

/-- The members of a record with these keys. Items of an array stand for the fields in their order. -/
inductive HasFields (keys : List String) : Tree → Members Tree → Prop
  | object (members : Members Tree) : HasFields keys (.object members) members
  | array {items : List Tree} (h : items.length ≤ keys.length) : HasFields keys (.array items) (keys.zip items)

def IsRecord (keys : List String) (means : Members Tree → α → Prop) (t : Tree) (a : α) : Prop :=
  ∃ entries, t.HasFields keys entries ∧ means entries a

def EachDistinct (entries : Members Tree) : Prop := ∀ entry ∈ entries, entry.2.Distinct

def FindsSorted (others entries : Members Tree) : Prop := ∀ key, others.find? key = (entries.find? key).map sorted

/-- A tree means at most one thing, and the same one whatever the order of its members is. -/
structure Definite (means : Tree → α → Prop) : Prop where
  unique : ∀ {t : Tree}, t.Distinct → ∀ {a b : α}, means t a → means t b → a = b
  sorted : ∀ {t : Tree}, t.Distinct → ∀ a, means t.sorted a ↔ means t a

structure DefiniteMembers (means : Members Tree → α → Prop) : Prop where
  unique : ∀ {entries : Members Tree}, EachDistinct entries → ∀ {a b : α}, means entries a → means entries b → a = b
  sorted : ∀ {entries others : Members Tree}, EachDistinct entries → FindsSorted others entries → ∀ a,
    means others a ↔ means entries a

end Tree

theorem exists_of_forall₂ {α β : Type} {R : α → β → Prop} {as : List α} {bs : List β} {a : α} (h : List.Forall₂ R as bs)
    (ha : a ∈ as) : ∃ b, R a b := by
  induction h with
  | nil => contradiction
  | cons hb _ ih =>
      rcases List.mem_cons.1 ha with rfl | hmem
      · exact ⟨_, hb⟩
      · exact ih hmem

theorem exists_forall₂ {α β : Type} {R : α → β → Prop} {as : List α} (h : ∀ a ∈ as, ∃ b, R a b) :
    ∃ bs, List.Forall₂ R as bs := by
  induction as with
  | nil => exact ⟨[], .nil⟩
  | cons a as ih =>
      obtain ⟨⟨b, hb⟩, has⟩ := List.forall_mem_cons.1 h
      obtain ⟨bs, hbs⟩ := ih has
      exact ⟨b :: bs, .cons hb hbs⟩

namespace Tree

variable {t : Tree} {means : Tree → α → Prop} {items : List Tree} {all others : List α}

theorem definite_isString : Definite IsString where
  unique _ _ _ ha hb := Tree.string.inj (ha.symm.trans hb)
  sorted {t} _ s := by cases t <;> simp [IsString, Tree.sorted]

theorem Definite.isSome (h : Definite means) : Definite (IsSome means) where
  unique := by
    rintro t ht _ _ ⟨a, ha, rfl⟩ ⟨b, hb, rfl⟩
    rw [h.unique ht ha hb]
  sorted ht found := by
    simp only [IsSome, h.sorted ht]

theorem definite_arranged : Definite Arranged where
  unique ht _ _ ha hb := ((arranged_iff ht).1 ha).trans ((arranged_iff ht).1 hb).symm
  sorted ht a := by
    have hsorted := (reordered_sorted ht).distinct ht
    rw [arranged_iff ht, arranged_iff hsorted, sorted_of_ordered (ordered_sorted ht)]

theorem definite_hasMembers : Definite HasMembers where
  unique ht _ _ ha hb := Tree.object.inj (definite_arranged.unique ht ha hb)
  sorted ht members := definite_arranged.sorted ht (.object members)

theorem forall₂_unique (h : Definite means) (hitems : ∀ t ∈ items, t.Distinct) (hall : List.Forall₂ means items all)
    (hothers : List.Forall₂ means items others) : all = others := by
  induction hall generalizing others with
  | nil =>
      cases hothers
      rfl
  | cons ha _ ih =>
      obtain ⟨hfirst, hrest⟩ := List.forall_mem_cons.1 hitems
      cases hothers with
      | cons hb hothers => rw [h.unique hfirst ha hb, ih hrest hothers]

theorem forall₂_sorted (h : Definite means) (hitems : ∀ t ∈ items, t.Distinct) :
    List.Forall₂ means (items.map Tree.sorted) all ↔ List.Forall₂ means items all := by
  rw [List.forall₂_map_left_iff]
  induction items generalizing all with
  | nil => simp
  | cons t items ih =>
      obtain ⟨ht, hitems⟩ := List.forall_mem_cons.1 hitems
      simp only [List.forall₂_cons_left_iff, h.sorted ht, ih hitems]

theorem Definite.isList (h : Definite means) : Definite (IsList means) where
  unique := by
    rintro t ht all others ⟨items, rfl, hall⟩ ⟨items', heq, hothers⟩
    obtain rfl := Tree.array.inj heq
    exact forall₂_unique h (distinct_array.1 ht) hall hothers
  sorted {t} ht all := by
    cases t with
    | array items => simp [IsList, Tree.sorted, sortedItems_eq, forall₂_sorted h (distinct_array.1 ht)]
    | _ => simp [IsList, Tree.sorted]

theorem exists_isSome_iff : (∃ found, IsSome means t found) ↔ ∃ a, means t a := by
  simp [IsSome]

theorem exists_isList_iff {P : Tree → Prop}
    (h : ∀ item : Tree, item.Distinct → ((∃ a, means item a) ↔ P item)) (ht : t.Distinct) :
    (∃ all, IsList means t all) ↔ IsListOf P t := by
  constructor
  · rintro ⟨all, items, rfl, hall⟩
    refine ⟨items, rfl, fun item hitem => ?_⟩
    exact (h item (distinct_array.1 ht item hitem)).1 (exists_of_forall₂ hall hitem)
  · rintro ⟨items, rfl, hitems⟩
    have hmeans : ∀ item ∈ items, ∃ a, means item a :=
      fun item hitem => (h item (distinct_array.1 ht item hitem)).2 (hitems item hitem)
    obtain ⟨all, hall⟩ := exists_forall₂ hmeans
    exact ⟨all, items, rfl, hall⟩

theorem exists_hasMembers_iff (ht : t.Distinct) : (∃ members, t.HasMembers members) ↔ ∃ members, t = .object members := by
  constructor
  · rintro ⟨members, h⟩
    exact h.1.exists_object
  · rintro ⟨members, rfl⟩
    exact ⟨_, (arranged_iff ht).2 rfl⟩

theorem exists_arranged (ht : t.Distinct) : ∃ arranged, t.Arranged arranged := ⟨_, (arranged_iff ht).2 rfl⟩

end Tree

section gives

variable {absent a b : α} {means : Tree → α → Prop} {found : Option Tree}

theorem Gives.unique (ha : Gives absent means found a) (hb : Gives absent means found b) (hmeans : Tree.Definite means)
    (hfound : ∀ t, found = some t → t.Distinct) : a = b := by
  cases ha with
  | missing =>
      cases hb
      rfl
  | null =>
      cases hb with
      | null => rfl
      | value hnull => exact absurd rfl hnull
  | value hnull ha =>
      cases hb with
      | null => exact absurd rfl hnull
      | value _ hb => exact hmeans.unique (hfound _ rfl) ha hb

theorem gives_value {t : Tree} (hnull : t ≠ .null) : Gives absent means (some t) a ↔ means t a := by
  constructor
  · rintro (_ | _ | ⟨-, ha⟩)
    · exact absurd rfl hnull
    · exact ha
  · exact .value hnull

theorem Tree.sorted_eq_null {t : Tree} : t.sorted = .null ↔ t = .null := by
  cases t <;> simp [Tree.sorted]

theorem gives_sorted (hmeans : Tree.Definite means) (hfound : ∀ t, found = some t → t.Distinct) :
    Gives absent means (found.map Tree.sorted) a ↔ Gives absent means found a := by
  cases found with
  | none => rfl
  | some t =>
      by_cases hnull : t = .null
      · subst hnull
        rfl
      · rw [Option.map_some, gives_value hnull, gives_value (mt Tree.sorted_eq_null.1 hnull)]
        exact hmeans.sorted (hfound t rfl) a

theorem exists_gives (h : ∀ t, found = some t → ∃ a, means t a) : ∃ a, Gives absent means found a := by
  cases found with
  | none => exact ⟨absent, .missing⟩
  | some t =>
      obtain ⟨a, ha⟩ := h t rfl
      by_cases hnull : t = .null
      · exact ⟨absent, hnull ▸ .null⟩
      · exact ⟨a, .value hnull ha⟩

theorem exists_gives_iff {P : Tree → Prop} (h : ∀ t, found = some t → ((∃ a, means t a) ↔ P t)) :
    (∃ a, Gives absent means found a) ↔ Optionally P found := by
  constructor
  · rintro ⟨a, _ | _ | ⟨hnull, ha⟩⟩
    · exact .inl rfl
    · exact .inr (.inl rfl)
    · exact .inr (.inr ⟨_, rfl, (h _ rfl).1 ⟨a, ha⟩⟩)
  · rintro (rfl | rfl | ⟨t, rfl, ht⟩)
    · exact ⟨absent, .missing⟩
    · exact ⟨absent, .null⟩
    · refine exists_gives fun u hu => ?_
      obtain rfl := Option.some.inj hu
      exact (h t rfl).2 ht

end gives

namespace Tree

variable {t : Tree} {keys : List String} {entries others : Members Tree}

theorem EachDistinct.found (h : EachDistinct entries) (key : String) (t : Tree) (hfind : entries.find? key = some t) :
    t.Distinct := h (key, t) (Members.mem_of_find? hfind)

theorem FindsSorted.gives_iff (hfind : FindsSorted others entries) (hentries : EachDistinct entries)
    {means : Tree → α → Prop} (hmeans : Definite means) (key : String) (absent a : α) :
    Gives absent means (others.find? key) a ↔ Gives absent means (entries.find? key) a := by
  rw [hfind key]
  exact gives_sorted hmeans (hentries.found key)

theorem hasFields_array {items : List Tree} :
    (array items).HasFields keys entries ↔ items.length ≤ keys.length ∧ entries = keys.zip items := by
  constructor
  · rintro (_ | h)
    exact ⟨h, rfl⟩
  · rintro ⟨h, rfl⟩
    exact .array h

theorem hasFields_object {members : Members Tree} :
    (object members).HasFields keys entries ↔ entries = members := by
  constructor
  · rintro ⟨⟩
    rfl
  · rintro rfl
    exact .object _

theorem HasFields.unique (h : t.HasFields keys entries) (hothers : t.HasFields keys others) : entries = others := by
  cases h with
  | object => exact (hasFields_object.1 hothers).symm
  | array => exact (hasFields_array.1 hothers).2.symm

theorem HasFields.distinct (h : t.HasFields keys entries) (ht : t.Distinct) : EachDistinct entries := by
  cases h with
  | object => exact (distinct_object.1 ht).2
  | array => exact fun entry hentry => distinct_array.1 ht _ (List.of_mem_zip hentry).2

theorem exists_hasFields_sorted {P : Members Tree → Prop} (ht : t.Distinct)
    (hP : ∀ {entries others}, t.HasFields keys entries → FindsSorted others entries → (P others ↔ P entries)) :
    (∃ entries, t.sorted.HasFields keys entries ∧ P entries) ↔ ∃ entries, t.HasFields keys entries ∧ P entries := by
  cases t with
  | object members =>
      rw [sorted]
      simp only [hasFields_object, exists_eq_left]
      exact hP (.object members) (find?_sortedMembers (distinct_object.1 ht).1)
  | array items =>
      rw [sorted, sortedItems_eq]
      simp only [hasFields_array, List.length_map, and_assoc, exists_and_left, exists_eq_left]
      refine and_congr_right fun h => hP (.array h) fun key => ?_
      rw [← Members.find?_map, List.zip_map_right]
      rfl
  | _ => rw [sorted]

theorem DefiniteMembers.isRecord {means : Members Tree → α → Prop} (h : DefiniteMembers means) (keys : List String) :
    Definite (IsRecord keys means) where
  unique := by
    rintro t ht a b ⟨entries, hentries, ha⟩ ⟨others, hothers, hb⟩
    obtain rfl := hentries.unique hothers
    exact h.unique (hentries.distinct ht) ha hb
  sorted ht a := exists_hasFields_sorted ht fun hentries hfind => h.sorted (hentries.distinct ht) hfind a

theorem exists_isRecord_iff {means : Members Tree → α → Prop} {P : Members Tree → Prop} (ht : t.Distinct)
    (h : ∀ entries, EachDistinct entries → ((∃ a, means entries a) ↔ P entries)) :
    (∃ a, IsRecord keys means t a) ↔ ∃ entries, t.HasFields keys entries ∧ P entries := by
  constructor
  · rintro ⟨a, entries, hentries, ha⟩
    exact ⟨entries, hentries, (h entries (hentries.distinct ht)).1 ⟨a, ha⟩⟩
  · rintro ⟨entries, hentries, hP⟩
    obtain ⟨a, ha⟩ := (h entries (hentries.distinct ht)).2 hP
    exact ⟨a, entries, hentries, ha⟩

end Tree

end Groupwise
