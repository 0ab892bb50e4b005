import Mathlib.Data.List.Nodup
import Groupwise.Proofs.Tree.Ordered

namespace Groupwise.Members

variable {α β : Type} {key : String} {value : α} {members entries others : Members α}

@[simp] theorem keys_cons (entry : String × α) (members : Members α) : keys (entry :: members) = entry.1 :: keys members :=
  rfl

@[simp] theorem keys_append (members others : Members α) : keys (members ++ others) = keys members ++ keys others :=
  List.map_append

theorem Ascending.nodup (h : Ascending members) : (keys members).Nodup := h.imp String.ne_of_lt

theorem nodup_of_perm (h : entries.Perm others) (hkeys : (keys entries).Nodup) : (keys others).Nodup :=
  (h.map Prod.fst).nodup_iff.1 hkeys

theorem find?_append (h : key ∉ keys members) (others : Members α) :
    find? key (members ++ others) = find? key others := by
  induction members with
  | nil => rfl
  | cons entry members ih =>
      obtain ⟨hne, hmem⟩ := not_or.1 (mt List.mem_cons.2 h)
      rw [List.cons_append, find?, if_neg hne, ih hmem]

theorem find?_append_of_ne {other : String} (h : key ≠ other) (members : Members α) (value : α) :
    find? key (members ++ [(other, value)]) = find? key members := by
  induction members with
  | nil => simp [find?, h]
  | cons entry members ih => rw [List.cons_append, find?, find?, ih]

theorem find?_map (f : α → β) (key : String) (members : Members α) :
    find? key (members.map fun entry => (entry.1, f entry.2)) = (find? key members).map f := by
  induction members with
  | nil => rfl
  | cons entry members ih =>
      rw [List.map_cons, find?, find?, ih]
      split <;> rfl

theorem find?_eq_some_iff (hkeys : (keys members).Nodup) : find? key members = some value ↔ (key, value) ∈ members := by
  refine ⟨mem_of_find?, fun h => ?_⟩
  obtain ⟨before, after, rfl⟩ := List.append_of_mem h
  rw [keys_append, keys_cons] at hkeys
  have hbefore : key ∉ keys before := fun hmem =>
    (List.nodup_append.1 hkeys).2.2 key hmem key List.mem_cons_self rfl
  rw [find?_append hbefore, find?, if_pos rfl]

theorem find?_of_perm (hkeys : (keys entries).Nodup) (h : entries.Perm others) : find? key entries = find? key others := by
  ext value
  rw [find?_eq_some_iff hkeys, find?_eq_some_iff (nodup_of_perm h hkeys), h.mem_iff]

theorem perm_insert (h : key ∉ keys members) (value : α) : (insert key value members).Perm ((key, value) :: members) := by
  induction members with
  | nil => exact .refl _
  | cons entry members ih =>
      obtain ⟨other, old⟩ := entry
      obtain ⟨hne, hmem⟩ := not_or.1 (mt List.mem_cons.2 h)
      simp only [insert]
      split
      · exact .refl _
      · exact ((ih hmem).cons _).trans (.swap _ _ _)

theorem perm_foldl_insert (h : (keys (members ++ entries)).Nodup) :
    (entries.foldl (fun members entry => insert entry.1 entry.2 members) members).Perm (members ++ entries) := by
  induction entries generalizing members with
  | nil => rw [List.append_nil]; exact .refl _
  | cons entry entries ih =>
      rw [keys_append, keys_cons, List.nodup_middle, List.nodup_cons] at h
      have hinsert := perm_insert (fun hmem => h.1 (List.mem_append_left _ hmem)) entry.2
      have hperm : (insert entry.1 entry.2 members ++ entries).Perm (members ++ entry :: entries) :=
        (hinsert.append_right entries).trans List.perm_middle.symm
      refine (ih (nodup_of_perm hperm.symm ?_)).trans hperm
      rw [keys_append, keys_cons, List.nodup_middle, List.nodup_cons]
      exact h

theorem perm_ofList (h : (keys entries).Nodup) : (ofList entries).Perm entries := perm_foldl_insert h

theorem ascending_ofList (entries : Members α) : Ascending (ofList entries) := by
  have hfold : ∀ members : Members α, Ascending members →
      Ascending (entries.foldl (fun members entry => insert entry.1 entry.2 members) members) := by
    induction entries with
    | nil => exact fun members h => h
    | cons entry entries ih => exact fun members h => ih _ (ascending_insert entry.1 entry.2 h)
  exact hfold [] ascending_nil

theorem eq_of_perm (hentries : Ascending entries) (hothers : Ascending others) (h : entries.Perm others) :
    entries = others := by
  have hless : ∀ {members : Members α}, Ascending members → members.Pairwise fun a b => a.1 < b.1 :=
    fun h => List.pairwise_map.1 h
  exact h.eq_of_pairwise (fun _ _ _ _ hlt hgt => absurd hgt (String.lt_asymm hlt)) (hless hentries) (hless hothers)

theorem ofList_of_perm (hkeys : (keys entries).Nodup) (h : entries.Perm others) : ofList entries = ofList others := by
  apply eq_of_perm (ascending_ofList entries) (ascending_ofList others)
  exact (perm_ofList hkeys).trans (h.trans (perm_ofList (nodup_of_perm h hkeys)).symm)

theorem ofList_of_ascending (h : Ascending entries) : ofList entries = entries :=
  eq_of_perm (ascending_ofList entries) h (perm_ofList h.nodup)

end Groupwise.Members
