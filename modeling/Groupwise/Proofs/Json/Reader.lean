import Mathlib.Data.List.Forall2
import Groupwise.Json.Reader
import Groupwise.Proofs.Json.Printer
import Groupwise.Proofs.Tree.Reordered

namespace Groupwise.Json

variable {α β σ : Type} {ts rest rest' : List Token} {a : α} {toks : α → List Token} {all : List α}

def plain (x : Except Error (α × Rest ts)) : Except Error (α × List Token) := (fun r => (r.1, r.2.1)) <$> x

theorem plain_eq_ok {x : Except Error (α × Rest ts)} : plain x = .ok (a, rest) ↔ ∃ h, x = .ok (a, ⟨rest, h⟩) := by
  constructor
  · intro h
    rcases x with e | ⟨b, rest, hrest⟩
    · contradiction
    · obtain ⟨rfl, rfl⟩ := Prod.mk.inj (Except.ok.inj h)
      exact ⟨hrest, rfl⟩
  · rintro ⟨h, rfl⟩
    rfl

/-- A reader takes just these tokens off any list that begins with them, and makes a value out of them. -/
def Reads (read : Reader α) (ts : List Token) (a : α) : Prop := ∀ rest, plain (read (ts ++ rest)) = .ok (a, rest)

theorem Reads.ne_nil {read : Reader α} (h : Reads read ts a) : ts ≠ [] := by
  rintro rfl
  obtain ⟨hlt, -⟩ := plain_eq_ok.1 (h [])
  exact absurd hlt (by simp)

theorem reads_mapped {read : Reader α} (f : α → β) (h : Reads read ts a) : Reads (mapped f read) ts (f a) := by
  intro rest
  obtain ⟨hlt, hread⟩ := plain_eq_ok.1 (h rest)
  rw [mapped, hread]
  rfl

theorem orNull_of_ne {t : Token} (h : t ≠ .null) (absent : α) (read : Reader α) (ts : List Token) :
    orNull absent read (t :: ts) = read (t :: ts) := by
  cases t with
  | null => exact absurd rfl h
  | _ => rfl

theorem reads_orNull {read : Reader α} (absent : α) (h : Reads read ts a) (hnull : ts.head? ≠ some .null) :
    Reads (orNull absent read) ts a := by
  intro rest
  obtain ⟨t, ts, rfl⟩ := List.exists_cons_of_ne_nil h.ne_nil
  have ht : t ≠ .null := by
    rintro rfl
    exact hnull rfl
  rw [List.cons_append, orNull_of_ne ht]
  exact h rest

theorem reads_string (s : String) : Reads string [.string s] s := fun _ => rfl

theorem items_of_last {item : Reader α} (h : plain (item ts) = .ok (a, .closeArray :: rest)) :
    plain (items item ts) = .ok ([a], rest) := by
  obtain ⟨hlt, hitem⟩ := plain_eq_ok.1 h
  rw [items, hitem]
  rfl

theorem items_of_comma {item : Reader α} {t : Token} (h : plain (item ts) = .ok (a, .comma :: t :: rest))
    (ht : t ≠ .closeArray) :
    plain (items item ts) = (fun more => (a :: more.1, more.2)) <$> plain (items item (t :: rest)) := by
  obtain ⟨hlt, hitem⟩ := plain_eq_ok.1 h
  rw [items, hitem]
  cases t with
  | closeArray => exact absurd rfl ht
  | _ =>
      rw [Outcome.ok_bind]
      dsimp only
      cases items item (_ :: rest) <;> rfl

theorem exists_intercalate_cons (first : List Token) (others : List (List Token)) :
    ∃ s, [Token.comma].intercalate (first :: others) = first ++ s := by
  cases others with
  | nil => exact ⟨[], by simp⟩
  | cons next others => exact ⟨_, by rw [List.intercalate_cons_cons, List.append_assoc]⟩

def StartsItem (ts : List Token) : Prop := ts ≠ [] ∧ ts.head? ≠ some .closeArray

theorem exists_intercalate_of_starts {tss : List (List Token)} (hne : tss ≠ []) (h : ∀ ts ∈ tss, StartsItem ts) :
    ∃ t s, t ≠ .closeArray ∧ [Token.comma].intercalate tss = t :: s := by
  obtain ⟨first, others, rfl⟩ := List.exists_cons_of_ne_nil hne
  obtain ⟨hfirst, hhead⟩ := h first List.mem_cons_self
  obtain ⟨s, hs⟩ := exists_intercalate_cons first others
  obtain ⟨t, more, rfl⟩ := List.exists_cons_of_ne_nil hfirst
  refine ⟨t, more ++ s, ?_, hs⟩
  rintro rfl
  exact hhead rfl

theorem reads_items {item : Reader α} {tss : List (List Token)} (hne : tss ≠ [])
    (hstart : ∀ ts ∈ tss, StartsItem ts) (h : List.Forall₂ (Reads item) tss all) (rest : List Token) :
    plain (items item ([Token.comma].intercalate tss ++ .closeArray :: rest)) = .ok (all, rest) := by
  induction h with
  | nil => exact absurd rfl hne
  | @cons ts a tss all ha _ ih =>
      obtain ⟨-, hall⟩ := List.forall_mem_cons.1 hstart
      by_cases hlast : tss = []
      · subst hlast
        cases ‹List.Forall₂ _ [] all›
        rw [List.intercalate_singleton]
        exact items_of_last (ha _)
      · obtain ⟨t, s, ht, hs⟩ := exists_intercalate_of_starts hlast hall
        have hmore := ih hlast hall
        rw [hs] at hmore
        rw [List.intercalate_cons_of_ne_nil hlast, hs, List.append_assoc, List.append_assoc]
        exact (items_of_comma (ha _) ht).trans (congrArg (_ <$> ·) hmore)

theorem itemsOfOpen_cons {t : Token} (h : t ≠ .closeArray) (item : Reader α) (ts : List Token) :
    itemsOfOpen item (t :: ts) = items item (t :: ts) := by
  cases t with
  | closeArray => exact absurd rfl h
  | _ => rfl

theorem reads_itemsOfOpen {item : Reader α} {tss : List (List Token)}
    (hstart : ∀ ts ∈ tss, StartsItem ts) (h : List.Forall₂ (Reads item) tss all) (rest : List Token) :
    plain (itemsOfOpen item ([Token.comma].intercalate tss ++ .closeArray :: rest)) = .ok (all, rest) := by
  by_cases hempty : tss = []
  · subst hempty
    cases h
    rfl
  · have hitems := reads_items hempty hstart h rest
    obtain ⟨t, s, ht, hs⟩ := exists_intercalate_of_starts hempty hstart
    rw [hs, List.cons_append] at hitems ⊢
    rw [itemsOfOpen_cons ht]
    exact hitems

theorem arrayTokens_append (items : List (List Token)) (rest : List Token) :
    arrayTokens items ++ rest = .openArray :: ([Token.comma].intercalate items ++ .closeArray :: rest) := by
  rw [arrayTokens, List.cons_append, List.cons_append, List.append_assoc, List.singleton_append]

theorem reads_list {item : Reader α} {levels : Nat} {tss : List (List Token)} (hlevels : levels ≠ 0)
    (hstart : ∀ ts ∈ tss, StartsItem ts) (h : List.Forall₂ (Reads item) tss all) :
    Reads (list levels item) (arrayTokens tss) all := by
  intro rest
  obtain ⟨hlt, hitems⟩ := plain_eq_ok.1 (reads_itemsOfOpen hstart h rest)
  rw [arrayTokens_append, list, if_neg hlevels, hitems]
  rfl

theorem reads_list_map {item : Reader α} {levels : Nat} (hlevels : levels ≠ 0)
    (h : ∀ a ∈ all, Reads item (toks a) a ∧ (toks a).head? ≠ some .closeArray) :
    Reads (list levels item) (arrayTokens (all.map toks)) all := by
  refine reads_list hlevels (List.forall_mem_map.2 fun a ha => ⟨(h a ha).1.ne_nil, (h a ha).2⟩) ?_
  exact List.forall₂_map_left_iff.2 (List.forall₂_same.2 fun a ha => (h a ha).1)

/-- Members that are read one after another, each of them in the state that those before it have left. -/
inductive Steps (member : MemberReader σ) : σ → List (String × List Token) → σ → Prop
  | nil (state : σ) : Steps member state [] state
  | cons {state next final : σ} {key : String} {ts : List Token} {members : List (String × List Token)}
      {read : Reader σ} (hmember : member key state = .ok read) (hread : Reads read ts next)
      (hmembers : Steps member next members final) : Steps member state ((key, ts) :: members) final

theorem members_of_last {member : MemberReader σ} {state next : σ} {key : String} {read : Reader σ}
    (hmember : member key state = .ok read) (h : plain (read ts) = .ok (next, .closeObject :: rest)) :
    plain (members member state (.string key :: .colon :: ts)) = .ok (next, rest) := by
  obtain ⟨hlt, hread⟩ := plain_eq_ok.1 h
  rw [members, hmember, Outcome.ok_bind, hread]
  rfl

theorem members_of_comma {member : MemberReader σ} {state next : σ} {key key' : String} {read : Reader σ}
    {ts' : List Token} (hmember : member key state = .ok read)
    (h : plain (read ts) = .ok (next, .comma :: .string key' :: ts')) :
    plain (members member state (.string key :: .colon :: ts)) = plain (members member next (.string key' :: ts')) := by
  obtain ⟨hlt, hread⟩ := plain_eq_ok.1 h
  rw [members, hmember, Outcome.ok_bind, hread, Outcome.ok_bind]
  dsimp only
  cases members member next (.string key' :: ts') <;> rfl

def membersTokens (members : List (String × List Token)) : List Token :=
  [Token.comma].intercalate (members.map fun member => .string member.1 :: .colon :: member.2)

theorem membersTokens_cons {members : List (String × List Token)} (h : members ≠ []) (key : String) (ts : List Token) :
    membersTokens ((key, ts) :: members) = .string key :: .colon :: (ts ++ .comma :: membersTokens members) := by
  rw [membersTokens, List.map_cons, List.intercalate_cons_of_ne_nil (by simpa using h), membersTokens]
  simp

theorem exists_membersTokens {members : List (String × List Token)} (h : members ≠ []) :
    ∃ key s, membersTokens members = .string key :: s := by
  obtain ⟨⟨key, ts⟩, members, rfl⟩ := List.exists_cons_of_ne_nil h
  obtain ⟨s, hs⟩ := exists_intercalate_cons (.string key :: .colon :: ts)
    (members.map fun member => .string member.1 :: .colon :: member.2)
  exact ⟨key, _, hs⟩

theorem reads_members {member : MemberReader σ} {state final : σ} {parts : List (String × List Token)}
    (h : Steps member state parts final) (hne : parts ≠ []) (rest : List Token) :
    plain (members member state (membersTokens parts ++ .closeObject :: rest)) = .ok (final, rest) := by
  induction h with
  | nil => exact absurd rfl hne
  | @cons state next final key ts parts read hmember hread hmembers ih =>
      by_cases hlast : parts = []
      · subst hlast
        cases hmembers
        rw [membersTokens, List.map_singleton, List.intercalate_singleton]
        exact members_of_last hmember (hread _)
      · obtain ⟨key', s, hs⟩ := exists_membersTokens hlast
        have hmore := ih hlast
        rw [hs] at hmore
        rw [membersTokens_cons hlast, hs, List.cons_append, List.cons_append, List.append_assoc]
        exact (members_of_comma hmember (hread _)).trans hmore

theorem reads_membersOfOpen {member : MemberReader σ} {state final : σ} {parts : List (String × List Token)}
    (h : Steps member state parts final) (rest : List Token) :
    plain (membersOfOpen member state (membersTokens parts ++ .closeObject :: rest)) = .ok (final, rest) := by
  by_cases hempty : parts = []
  · subst hempty
    cases h
    rfl
  · have hmembers := reads_members h hempty rest
    obtain ⟨key, s, hs⟩ := exists_membersTokens hempty
    rw [hs, List.cons_append] at hmembers ⊢
    exact hmembers

theorem objectTokens_append (parts : List (String × List Token)) (rest : List Token) :
    objectTokens parts ++ rest = .openObject :: (membersTokens parts ++ .closeObject :: rest) := by
  rw [objectTokens, membersTokens, List.cons_append, List.cons_append, List.append_assoc, List.singleton_append]

section entries

variable {γ : Type} {value : Reader α} {entries : Members γ} {text : γ → List Token} {val : γ → α}

theorem steps_entry (before : Members α) (h : ∀ entry ∈ entries, Reads value (text entry.2) (val entry.2)) :
    Steps (entry value) before (entries.map fun entry => (entry.1, text entry.2))
      ((entries.map fun entry => (entry.1, val entry.2)).foldl
        (fun members entry => members.insert entry.1 entry.2) before) := by
  induction entries generalizing before with
  | nil => exact .nil before
  | cons first entries ih =>
      obtain ⟨hfirst, hentries⟩ := List.forall_mem_cons.1 h
      have hread := reads_mapped (before.insert first.1) hfirst
      exact .cons rfl hread (ih (before.insert first.1 (val first.2)) hentries)

theorem reads_entries (h : ∀ entry ∈ entries, Reads value (text entry.2) (val entry.2)) (rest : List Token) :
    plain (membersOfOpen (entry value) []
        (membersTokens (entries.map fun entry => (entry.1, text entry.2)) ++ .closeObject :: rest)) =
      .ok (Members.ofList (entries.map fun entry => (entry.1, val entry.2)), rest) :=
  reads_membersOfOpen (steps_entry [] h) rest

theorem reads_map (text : γ → List Token) (val : γ → α) {levels : Nat} (hlevels : levels ≠ 0)
    (h : ∀ entry ∈ entries, Reads value (text entry.2) (val entry.2)) :
    Reads (map levels value) (objectTokens (entries.map fun entry => (entry.1, text entry.2)))
      (Members.ofList (entries.map fun entry => (entry.1, val entry.2))) := by
  intro rest
  obtain ⟨hlt, hmembers⟩ := plain_eq_ok.1 (reads_entries h rest)
  rw [objectTokens_append, map, if_neg hlevels, hmembers]
  rfl

end entries

theorem reads_map_ascending {value : Reader α} {entries : Members α} {levels : Nat} (hlevels : levels ≠ 0)
    (h : ∀ entry ∈ entries, Reads value (toks entry.2) entry.2) (hkeys : entries.Ascending) :
    Reads (map levels value) (objectTokens (entries.map fun entry => (entry.1, toks entry.2))) entries := by
  have hread := reads_map toks id hlevels h
  simp only [id] at hread
  rwa [List.map_id', Members.ofList_of_ascending hkeys] at hread

theorem head?_tokensOf_ne_closeArray (t : Tree) : (tokensOf t).head? ≠ some .closeArray := by
  cases t <;> simp [tokensOf, arrayTokens, objectTokens]

theorem head?_tokensOf_ne_null {t : Tree} (h : t ≠ .null) : (tokensOf t).head? ≠ some .null := by
  cases t with
  | null => contradiction
  | _ => simp [tokensOf, arrayTokens, objectTokens]

theorem tokensOf_ne_nil (t : Tree) : tokensOf t ≠ [] := by
  cases t <;> simp [tokensOf, arrayTokens, objectTokens]

theorem startsItem_tokensOf (t : Tree) : StartsItem (tokensOf t) := ⟨tokensOf_ne_nil t, head?_tokensOf_ne_closeArray t⟩

theorem starts_itemTokens (items : List Tree) : ∀ ts ∈ items.map tokensOf, StartsItem ts :=
  List.forall_mem_map.2 fun t _ => startsItem_tokensOf t

/-- A tree is read with its members in ascending order, whatever their order is in the text. -/
theorem reads_tree_sorted {levels : Nat} {t : Tree} (h : t.Distinct) (hlevels : t.nesting ≤ levels) :
    Reads (tree levels) (tokensOf t) t.sorted := by
  induction h generalizing levels with
  | null | bool | string =>
      intro rest
      rw [tokensOf, List.singleton_append, tree, Tree.sorted]
      rfl
  | number hn =>
      intro rest
      rw [tokensOf, List.singleton_append, tree, Number.number?_literal hn, Tree.sorted]
      rfl
  | @array items _ ih =>
      intro rest
      obtain ⟨levels, rfl⟩ := Nat.exists_eq_add_one.2 (Nat.lt_of_lt_of_le (by simp [Tree.nesting]) hlevels)
      have hall : List.Forall₂ (Reads (tree levels)) (items.map tokensOf) (items.map Tree.sorted) := by
        rw [List.forall₂_map_left_iff, List.forall₂_map_right_iff, List.forall₂_same]
        exact fun t ht => ih t ht (Tree.nesting_array_le.1 hlevels t ht)
      obtain ⟨hlt, hitems⟩ := plain_eq_ok.1 (reads_itemsOfOpen (starts_itemTokens items) hall rest)
      rw [tokensOf, itemTokens_eq, arrayTokens_append, tree, hitems, Tree.sorted, Tree.sortedItems_eq]
      rfl
  | @object members _ _ ih =>
      intro rest
      obtain ⟨levels, rfl⟩ := Nat.exists_eq_add_one.2 (Nat.lt_of_lt_of_le (by simp [Tree.nesting]) hlevels)
      have hall : ∀ entry ∈ members, Reads (tree levels) (tokensOf entry.2) entry.2.sorted :=
        fun entry hentry => ih entry hentry (Tree.nesting_object_le.1 hlevels entry hentry)
      obtain ⟨hlt, hmembers⟩ := plain_eq_ok.1 (reads_entries hall rest)
      rw [tokensOf, memberTokens_eq, objectTokens_append, tree, hmembers, Tree.sorted, Tree.sortedMembers_eq]
      rfl

theorem reads_tree {levels : Nat} {t : Tree} (h : t.Within levels) : Reads (tree levels) (tokensOf t) t := by
  have hread := reads_tree_sorted h.distinct h.nesting_le
  rwa [Tree.sorted_of_ordered h.ordered] at hread

/-- A member of a record: its text, the tokens of it, and what these do to a record when they are read. -/
structure RecordPart (σ : Type) where
  key : String
  text : List Char
  tokens : List Token
  update : σ → σ

structure RecordPart.Sound (fields : List (FieldReader σ)) (part : RecordPart σ) : Prop where
  spells : Spells part.text part.tokens
  known : ∃ known, fields.find? (·.key = part.key) = some known ∧ Reads known.read part.tokens part.update

variable {fields : List (FieldReader σ)} {parts : List (RecordPart σ)}

theorem RecordPart.sound_of_mapped {part : RecordPart σ} {f : α → σ → σ} {read : Reader α}
    (hknown : fields.find? (·.key = part.key) = some ⟨part.key, mapped f read⟩) (hspells : Spells part.text part.tokens)
    (hread : Reads read part.tokens a) (hupdate : part.update = f a) : part.Sound fields :=
  ⟨hspells, _, hknown, hupdate ▸ reads_mapped f hread⟩

def partsText (parts : List (RecordPart σ)) : List Char := objectText (parts.map fun part => (part.key, part.text))

def partsTokens (parts : List (RecordPart σ)) : List Token :=
  objectTokens (parts.map fun part => (part.key, part.tokens))

def updateAll (parts : List (RecordPart σ)) (start : σ) : σ := parts.foldl (fun record part => part.update record) start

theorem exists_steps_field (seen : List String) (record : σ)
    (h : ∀ part ∈ parts, part.Sound fields) (hkeys : (seen ++ parts.map RecordPart.key).Nodup) :
    ∃ seen', Steps (field fields) (seen, record) (parts.map fun part => (part.key, part.tokens))
      (seen', updateAll parts record) := by
  induction parts generalizing seen record with
  | nil => exact ⟨seen, .nil _⟩
  | cons part parts ih =>
      obtain ⟨hpart, hparts⟩ := List.forall_mem_cons.1 h
      obtain ⟨known, hknown, hread⟩ := hpart.known
      rw [List.map_cons, List.nodup_middle, ← List.cons_append] at hkeys
      have hseen : part.key ∉ seen := by
        intro hmem
        exact (List.nodup_cons.1 hkeys).1 (List.mem_append_left _ hmem)
      obtain ⟨seen', hsteps⟩ := ih (part.key :: seen) (part.update record) hparts hkeys
      refine ⟨seen', .cons ?_ (reads_mapped (fun update => (part.key :: seen, update record)) hread) hsteps⟩
      simp only [field, hknown, if_neg hseen]

theorem spells_parts (h : ∀ part ∈ parts, part.Sound fields) :
    Spells (partsText parts) (partsTokens parts) := spells_object fun part hpart => (h part hpart).spells

theorem reads_parts {levels : Nat} (hlevels : levels ≠ 0) (h : ∀ part ∈ parts, part.Sound fields)
    (hkeys : (parts.map RecordPart.key).Nodup) (wanted : String) (start : σ) :
    Reads (Json.record wanted fields start levels) (partsTokens parts) (updateAll parts start) := by
  intro rest
  obtain ⟨seen', hsteps⟩ := exists_steps_field [] start h hkeys
  obtain ⟨hlt, hmembers⟩ := plain_eq_ok.1 (reads_membersOfOpen hsteps rest)
  rw [partsTokens, objectTokens_append, Json.record, if_neg hlevels, hmembers]
  rfl

theorem readText_of_spells {read : Reader α} {text : List Char} (hspells : Spells text ts) (hreads : Reads read ts a) :
    readText read (String.ofList text) = .ok a := by
  have htokens : tokens (String.ofList text).toList = ts ++ [] := by simpa [tokens] using hspells [] ends_nil
  have hread := hreads []
  rw [← htokens] at hread
  obtain ⟨hlt, hread⟩ := plain_eq_ok.1 hread
  rw [readText, hread]
  rfl

end Groupwise.Json
