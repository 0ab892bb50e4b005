import Groupwise.Tree

namespace Groupwise

namespace Members

variable {α : Type} {key : String} {value : α} {members : Members α}

@[simp] theorem ascending_nil : Ascending ([] : Members α) := List.Pairwise.nil

theorem ascending_cons {entry : String × α} :
    Ascending (entry :: members) ↔ (∀ other ∈ keys members, entry.1 < other) ∧ Ascending members :=
  List.pairwise_cons

theorem eq_or_mem_of_mem_insert {entry : String × α} (h : entry ∈ insert key value members) :
    entry = (key, value) ∨ entry ∈ members := by
  induction members with
  | nil => simpa [insert] using h
  | cons head rest ih =>
      obtain ⟨other, old⟩ := head
      simp only [insert] at h
      split at h
      · simpa using h
      · split at h
        · rcases List.mem_cons.1 h with heq | hrest
          · exact .inl heq
          · exact .inr (List.mem_cons_of_mem _ hrest)
        · rcases List.mem_cons.1 h with heq | hrest
          · exact .inr (heq ▸ List.mem_cons_self)
          · exact (ih hrest).imp_right (List.mem_cons_of_mem _)

theorem mem_keys_insert {other : String} : other ∈ keys (insert key value members) ↔ other = key ∨ other ∈ keys members := by
  induction members with
  | nil => simp [insert, keys]
  | cons head rest ih =>
      obtain ⟨name, old⟩ := head
      simp only [insert]
      split
      · simp [keys]
      · split
        · next heq => simp [keys, heq]
        · simp only [keys, List.map_cons, List.mem_cons] at ih ⊢
          rw [ih, or_left_comm]

theorem ascending_insert (key : String) (value : α) (h : Ascending members) :
    Ascending (insert key value members) := by
  induction members with
  | nil => simp [insert, Ascending, keys]
  | cons head rest ih =>
      obtain ⟨other, old⟩ := head
      obtain ⟨hhead, hrest⟩ := ascending_cons.1 h
      simp only [insert]
      split
      · next hlt =>
          refine ascending_cons.2 ⟨fun name hname => ?_, h⟩
          rcases List.mem_cons.1 hname with rfl | hname
          · exact hlt
          · exact String.lt_trans hlt (hhead name hname)
      · next hlt =>
          split
          · next heq => exact ascending_cons.2 ⟨heq ▸ hhead, hrest⟩
          · next hne =>
              refine ascending_cons.2 ⟨fun name hname => ?_, ih hrest⟩
              rcases mem_keys_insert.1 hname with rfl | hname
              · exact Std.lt_of_le_of_ne (Std.not_lt.1 hlt) (Ne.symm hne)
              · exact hhead name hname

theorem mem_of_find? (h : find? key members = some value) : (key, value) ∈ members := by
  induction members with
  | nil => simp [find?] at h
  | cons head rest ih =>
      obtain ⟨other, old⟩ := head
      simp only [find?] at h
      split at h
      · next heq =>
          obtain rfl := Option.some.inj h
          exact heq ▸ List.mem_cons_self
      · exact List.mem_cons_of_mem _ (ih h)

structure AscendingWith (P : α → Prop) (members : Members α) : Prop where
  ascending : Ascending members
  values : ∀ entry ∈ members, P entry.2

namespace AscendingWith

variable {P : α → Prop}

theorem nil : AscendingWith P ([] : Members α) := ⟨ascending_nil, by simp⟩

theorem insert (key : String) (h : AscendingWith P members) (hvalue : P value) :
    AscendingWith P (Members.insert key value members) := by
  refine ⟨ascending_insert key value h.ascending, fun entry hentry => ?_⟩
  rcases eq_or_mem_of_mem_insert hentry with rfl | hmem
  · exact hvalue
  · exact h.values entry hmem

theorem find (h : AscendingWith P members) (hfind : find? key members = some value) : P value :=
  h.values (key, value) (mem_of_find? hfind)

end AscendingWith

end Members

namespace Tree

inductive Ordered : Tree → Prop
  | null : Ordered .null
  | bool (b : Bool) : Ordered (.bool b)
  | number (n : Number) : Ordered (.number n)
  | string (s : String) : Ordered (.string s)
  | array {items : List Tree} (hitems : ∀ t ∈ items, Ordered t) : Ordered (.array items)
  | object {members : Members Tree} (hkeys : members.Ascending)
      (hmembers : ∀ entry ∈ members, Ordered entry.2) : Ordered (.object members)

theorem ordered_object {members : Members Tree} :
    Ordered (.object members) ↔ members.AscendingWith Ordered := by
  constructor
  · rintro (_ | _ | _ | _ | _ | ⟨hkeys, hmembers⟩)
    exact ⟨hkeys, hmembers⟩
  · rintro ⟨hkeys, hmembers⟩
    exact .object hkeys hmembers

end Tree

end Groupwise
