import Groupwise.Proofs.Json.Reader
import Groupwise.Proofs.Tree.Nesting

namespace Groupwise.Json

variable {α σ : Type} {ts : List Token} {e : Error}

theorem plain_eq_error {x : Except Error (α × Rest ts)} : plain x = .error e ↔ x = .error e := by
  cases x <;> simp [plain]

def Refuses (read : Reader α) (ts : List Token) (e : Error) : Prop := ∀ rest, plain (read (ts ++ rest)) = .error e

theorem refuses_mapped {β : Type} {read : Reader α} (f : α → β) (h : Refuses read ts e) :
    Refuses (mapped f read) ts e := by
  intro rest
  rw [mapped, plain_eq_error.1 (h rest)]
  rfl

theorem exists_first {P Q : α → Prop} {all : List α} (hall : ∀ a ∈ all, P a ∨ Q a) (h : ∃ a ∈ all, Q a) :
    ∃ before a after, all = before ++ a :: after ∧ (∀ b ∈ before, P b) ∧ Q a := by
  induction all with
  | nil => simp at h
  | cons a all ih =>
      obtain ⟨ha, hrest⟩ := List.forall_mem_cons.1 hall
      by_cases hq : Q a
      · exact ⟨[], a, all, rfl, by simp, hq⟩
      · obtain ⟨before, b, after, rfl, hbefore, hb⟩ := ih hrest (by simpa [hq] using h)
        exact ⟨a :: before, b, after, rfl, List.forall_mem_cons.2 ⟨ha.resolve_right hq, hbefore⟩, hb⟩

section items

variable {item : Reader α} {before after : List (List Token)}

theorem refuses_items (hstart : ∀ ts' ∈ before ++ ts :: after, StartsItem ts')
    (hbefore : ∀ ts ∈ before, ∃ a, Reads item ts a) (h : Refuses item ts e) (rest : List Token) :
    plain (items item ([Token.comma].intercalate (before ++ ts :: after) ++ rest)) = .error e := by
  induction before with
  | nil =>
      obtain ⟨s, hs⟩ := exists_intercalate_cons ts after
      rw [List.nil_append, hs, List.append_assoc, items, plain_eq_error.1 (h _)]
      rfl
  | cons first before ih =>
      obtain ⟨⟨a, ha⟩, hbefore⟩ := List.forall_mem_cons.1 hbefore
      rw [List.cons_append, List.forall_mem_cons] at hstart
      obtain ⟨t, s, ht, hs⟩ := exists_intercalate_of_starts (by simp) hstart.2
      have hmore := ih hstart.2 hbefore
      rw [hs] at hmore
      rw [List.cons_append, List.intercalate_cons_of_ne_nil (by simp), hs, List.append_assoc, List.append_assoc]
      exact (items_of_comma (ha _) ht).trans (congrArg (_ <$> ·) hmore)

theorem refuses_itemsOfOpen (hstart : ∀ ts' ∈ before ++ ts :: after, StartsItem ts')
    (hbefore : ∀ ts ∈ before, ∃ a, Reads item ts a) (h : Refuses item ts e) (rest : List Token) :
    plain (itemsOfOpen item ([Token.comma].intercalate (before ++ ts :: after) ++ rest)) = .error e := by
  have hitems := refuses_items hstart hbefore h rest
  obtain ⟨t, s, ht, hs⟩ := exists_intercalate_of_starts (by simp) hstart
  rw [hs, List.cons_append] at hitems ⊢
  rw [itemsOfOpen_cons ht]
  exact hitems

end items

inductive Stuck (member : MemberReader σ) (e : Error) : σ → List (String × List Token) → Prop
  | here {state : σ} {key : String} {ts : List Token} {members : List (String × List Token)} {read : Reader σ}
      (hmember : member key state = .ok read) (hread : Refuses read ts e) : Stuck member e state ((key, ts) :: members)
  | later {state next : σ} {key : String} {ts : List Token} {members : List (String × List Token)} {read : Reader σ}
      (hmember : member key state = .ok read) (hread : Reads read ts next) (hmembers : Stuck member e next members) :
      Stuck member e state ((key, ts) :: members)

section members

variable {member : MemberReader σ} {state : σ} {parts : List (String × List Token)}

theorem Stuck.ne_nil (h : Stuck member e state parts) : parts ≠ [] := by
  cases h <;> simp

theorem refuses_members (h : Stuck member e state parts) (rest : List Token) :
    plain (members member state (membersTokens parts ++ rest)) = .error e := by
  induction h with
  | @here state key ts parts read hmember hread =>
      obtain ⟨s, hs⟩ := exists_intercalate_cons (.string key :: .colon :: ts)
        (parts.map fun member => .string member.1 :: .colon :: member.2)
      rw [membersTokens, List.map_cons, hs, List.append_assoc, List.cons_append, List.cons_append, members, hmember,
        Outcome.ok_bind, plain_eq_error.1 (hread _)]
      rfl
  | @later state next key ts parts read hmember hread hmembers ih =>
      obtain ⟨key', s, hs⟩ := exists_membersTokens hmembers.ne_nil
      rw [hs] at ih
      rw [membersTokens_cons hmembers.ne_nil, hs, List.cons_append, List.cons_append, List.append_assoc]
      exact (members_of_comma hmember (hread _)).trans ih

theorem refuses_membersOfOpen (h : Stuck member e state parts) (rest : List Token) :
    plain (membersOfOpen member state (membersTokens parts ++ rest)) = .error e := by
  have hmembers := refuses_members h rest
  obtain ⟨key, s, hs⟩ := exists_membersTokens h.ne_nil
  rw [hs, List.cons_append] at hmembers ⊢
  exact hmembers

theorem stuck_entry {value : Reader α} {before : List (String × List Token)}
    (hbefore : ∀ part ∈ before, ∃ a, Reads value part.2 a) (h : Refuses value ts e) (known : Members α) (key : String)
    (after : List (String × List Token)) : Stuck (entry value) e known (before ++ (key, ts) :: after) := by
  induction before generalizing known with
  | nil => exact .here rfl (refuses_mapped (known.insert key) h)
  | cons part before ih =>
      obtain ⟨⟨a, ha⟩, hbefore⟩ := List.forall_mem_cons.1 hbefore
      exact .later rfl (reads_mapped (known.insert part.1) ha) (ih hbefore (known.insert part.1 a))

end members

/-- A tree with more levels than are left is refused, and the reason is never another one. -/
theorem refuses_tree {levels : Nat} {t : Tree} (h : t.Valid) (hlevels : levels < t.nesting) :
    Refuses (tree levels) (tokensOf t) (.text .tooDeep) := by
  induction levels generalizing t with
  | zero =>
      intro rest
      cases t with
      | array items => rw [tokensOf, arrayTokens_append, tree]; rfl
      | object members => rw [tokensOf, objectTokens_append, tree]; rfl
      | _ => simp [Tree.nesting] at hlevels
  | succ levels ih =>
      -- Children that are not too deep are read, so the first one that is too deep is come to.
      have hchild : ∀ child : Tree, child.Valid →
          Reads (tree levels) (tokensOf child) child ∨ Refuses (tree levels) (tokensOf child) (.text .tooDeep) := by
        intro child hvalid
        by_cases hfits : child.nesting ≤ levels
        · exact .inl (reads_tree (hvalid.within hfits))
        · exact .inr (ih hvalid (Nat.lt_of_not_le hfits))
      intro rest
      cases t with
      | array items =>
          have hitems := Tree.valid_array.1 h
          obtain ⟨deep, hdeep, hnesting⟩ : ∃ t ∈ items, levels < t.nesting := by
            simpa [Tree.nesting_array_le] using Nat.not_le.2 hlevels
          obtain ⟨before, a, after, rfl, hbefore, ha⟩ := exists_first (fun t ht => hchild t (hitems t ht))
            ⟨deep, hdeep, ih (hitems deep hdeep) hnesting⟩
          have hstart := starts_itemTokens (before ++ a :: after)
          rw [List.map_append, List.map_cons] at hstart
          have hreads : ∀ ts ∈ before.map tokensOf, ∃ t, Reads (tree levels) ts t :=
            List.forall_mem_map.2 fun b hb => ⟨b, hbefore b hb⟩
          have hread := refuses_itemsOfOpen hstart hreads ha (.closeArray :: rest)
          rw [tokensOf, itemTokens_eq, List.map_append, List.map_cons, arrayTokens_append, tree, plain_eq_error.1 hread]
          rfl
      | object members =>
          have hmembers := (Tree.valid_object.1 h).values
          obtain ⟨deep, hdeep, hnesting⟩ : ∃ entry ∈ members, levels < entry.2.nesting := by
            have hnot := Nat.not_le.2 hlevels
            rw [Tree.nesting_object_le] at hnot
            simpa using hnot
          obtain ⟨before, a, after, rfl, hbefore, ha⟩ := exists_first
            (P := fun entry => Reads (tree levels) (tokensOf entry.2) entry.2)
            (fun entry hentry => hchild entry.2 (hmembers entry hentry))
            ⟨deep, hdeep, ih (hmembers deep hdeep) hnesting⟩
          have hreads : ∀ part ∈ before.map (fun entry => (entry.1, tokensOf entry.2)), ∃ t, Reads (tree levels) part.2 t :=
            List.forall_mem_map.2 fun b hb => ⟨b.2, hbefore b hb⟩
          have hread := refuses_membersOfOpen (stuck_entry hreads ha [] a.1 (memberTokens after)) (.closeObject :: rest)
          rw [tokensOf, memberTokens_eq, List.map_append, List.map_cons, ← memberTokens_eq after, objectTokens_append, tree,
            plain_eq_error.1 hread]
          rfl
      | _ => simp [Tree.nesting] at hlevels

theorem readText_of_refuses {read : Reader α} {text : List Char} (hspells : Spells text ts) (h : Refuses read ts e) :
    readText read (String.ofList text) = .error e := by
  have htokens : tokens (String.ofList text).toList = ts ++ [] := by simpa [tokens] using hspells [] ends_nil
  have hread := h []
  rw [← htokens] at hread
  rw [readText, plain_eq_error.1 hread]
  rfl

end Groupwise.Json
