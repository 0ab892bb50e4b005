import Groupwise.Proofs.Members
import Groupwise.Proofs.Tree.Nesting

namespace Groupwise.Tree

inductive Distinct : Tree → Prop
  | null : Distinct .null
  | bool (b : Bool) : Distinct (.bool b)
  | number {n : Number} (h : n.Valid) : Distinct (.number n)
  | string (s : String) : Distinct (.string s)
  | array {items : List Tree} (hitems : ∀ t ∈ items, Distinct t) : Distinct (.array items)
  | object {members : Members Tree} (hkeys : members.keys.Nodup) (hmembers : ∀ entry ∈ members, Distinct entry.2) :
      Distinct (.object members)

/-- Trees that differ in nothing but the order of members, at whatever depth. -/
inductive Reordered : Tree → Tree → Prop
  | refl (t : Tree) : Reordered t t
  | trans {t u v : Tree} (h : Reordered t u) (hmore : Reordered u v) : Reordered t v
  | members {members others : Members Tree} (h : members.Perm others) : Reordered (.object members) (.object others)
  | item {t u : Tree} (before after : List Tree) (h : Reordered t u) :
      Reordered (.array (before ++ t :: after)) (.array (before ++ u :: after))
  | member {t u : Tree} (before : Members Tree) (key : String) (after : Members Tree) (h : Reordered t u) :
      Reordered (.object (before ++ (key, t) :: after)) (.object (before ++ (key, u) :: after))

/-- A tree in which all members are in ascending order, and which is the same but for that. -/
def Arranged (t arranged : Tree) : Prop := Reordered t arranged ∧ arranged.Ordered

mutual
def sorted : Tree → Tree
  | .array items => .array (sortedItems items)
  | .object members => .object (Members.ofList (sortedMembers members))
  | .null => .null
  | .bool b => .bool b
  | .number n => .number n
  | .string s => .string s

def sortedItems : List Tree → List Tree
  | [] => []
  | t :: rest => sorted t :: sortedItems rest

def sortedMembers : Members Tree → Members Tree
  | [] => []
  | (key, t) :: rest => (key, sorted t) :: sortedMembers rest
end

variable {t u : Tree} {items : List Tree} {members others : Members Tree} {bound : Nat}

theorem distinct_array : (array items).Distinct ↔ ∀ t ∈ items, t.Distinct := by
  constructor
  · rintro (_ | _ | _ | _ | hitems)
    exact hitems
  · exact .array

theorem distinct_object : (object members).Distinct ↔ members.keys.Nodup ∧ ∀ entry ∈ members, entry.2.Distinct := by
  constructor
  · rintro (_ | _ | _ | _ | _ | ⟨hkeys, hmembers⟩)
    exact ⟨hkeys, hmembers⟩
  · rintro ⟨hkeys, hmembers⟩
    exact .object hkeys hmembers

theorem Within.distinct {levels : Nat} (h : t.Within levels) : t.Distinct := by
  induction h with
  | null => exact .null
  | bool _ b => exact .bool b
  | number _ hn => exact .number hn
  | string _ s => exact .string s
  | array _ ih => exact .array ih
  | object hkeys _ ih => exact .object hkeys.nodup ih

namespace Reordered

theorem symm (h : Reordered t u) : Reordered u t := by
  induction h with
  | refl t => exact .refl t
  | trans _ _ ih ihmore => exact .trans ihmore ih
  | members h => exact .members h.symm
  | item before after _ ih => exact .item before after ih
  | member before key after _ ih => exact .member before key after ih

theorem distinct (h : Reordered t u) (ht : t.Distinct) : u.Distinct := by
  induction h with
  | refl => exact ht
  | trans _ _ ih ihmore => exact ihmore (ih ht)
  | members h =>
      obtain ⟨hkeys, hmembers⟩ := distinct_object.1 ht
      exact .object (Members.nodup_of_perm h hkeys) fun entry hentry => hmembers entry (h.mem_iff.2 hentry)
  | item before after _ ih =>
      have hitems := distinct_array.1 ht
      simp only [List.forall_mem_append, List.forall_mem_cons] at hitems
      apply distinct_array.2
      simp only [List.forall_mem_append, List.forall_mem_cons]
      exact ⟨hitems.1, ih hitems.2.1, hitems.2.2⟩
  | member before key after _ ih =>
      obtain ⟨hkeys, hmembers⟩ := distinct_object.1 ht
      simp only [List.forall_mem_append, List.forall_mem_cons] at hmembers
      refine .object ?_ ?_
      · simpa only [Members.keys_append, Members.keys_cons] using hkeys
      · simp only [List.forall_mem_append, List.forall_mem_cons]
        exact ⟨hmembers.1, ih hmembers.2.1, hmembers.2.2⟩

theorem nesting_le (h : Reordered t u) (ht : t.nesting ≤ bound) : u.nesting ≤ bound := by
  induction h generalizing bound with
  | refl => exact ht
  | trans _ _ ih ihmore => exact ihmore (ih ht)
  | members h =>
      cases bound with
      | zero => simp [nesting] at ht
      | succ bound =>
          rw [nesting_object_le] at ht ⊢
          exact fun entry hentry => ht entry (h.mem_iff.2 hentry)
  | item before after _ ih =>
      cases bound with
      | zero => simp [nesting] at ht
      | succ bound =>
          rw [nesting_array_le] at ht ⊢
          simp only [List.forall_mem_append, List.forall_mem_cons] at ht ⊢
          exact ⟨ht.1, ih ht.2.1, ht.2.2⟩
  | member before key after _ ih =>
      cases bound with
      | zero => simp [nesting] at ht
      | succ bound =>
          rw [nesting_object_le] at ht ⊢
          simp only [List.forall_mem_append, List.forall_mem_cons] at ht ⊢
          exact ⟨ht.1, ih ht.2.1, ht.2.2⟩

end Reordered

theorem Reordered.exists_object (h : Reordered t (.object members)) : ∃ others, t = .object others := by
  generalize hu : object members = u at h
  induction h generalizing members with
  | refl => exact ⟨members, hu.symm⟩
  | trans _ _ ih ihmore =>
      obtain ⟨others, rfl⟩ := ihmore hu
      exact ih rfl
  | members => exact ⟨_, rfl⟩
  | item => contradiction
  | member => exact ⟨_, rfl⟩

theorem sortedItems_eq (items : List Tree) : sortedItems items = items.map sorted := by
  induction items with
  | nil => rfl
  | cons t items ih => rw [sortedItems, ih, List.map_cons]

theorem sortedMembers_eq (members : Members Tree) :
    sortedMembers members = members.map fun entry => (entry.1, entry.2.sorted) := by
  induction members with
  | nil => rfl
  | cons entry members ih => rw [sortedMembers, ih, List.map_cons]

@[simp] theorem keys_sortedMembers (members : Members Tree) : (sortedMembers members).keys = members.keys := by
  rw [sortedMembers_eq, Members.keys, List.map_map]
  rfl

theorem find?_sortedMembers (h : members.keys.Nodup) (key : String) :
    (Members.ofList (sortedMembers members)).find? key = (members.find? key).map sorted := by
  have hkeys : (sortedMembers members).keys.Nodup := by rwa [keys_sortedMembers]
  have hperm := Members.perm_ofList hkeys
  rw [← Members.find?_of_perm hkeys hperm.symm, sortedMembers_eq, Members.find?_map]

theorem ordered_sorted (h : t.Distinct) : t.sorted.Ordered := by
  induction h with
  | null => exact .null
  | bool b => exact .bool b
  | number => exact .number _
  | string s => exact .string s
  | array _ ih =>
      rw [sorted, sortedItems_eq]
      exact .array (List.forall_mem_map.2 ih)
  | @object members hkeys _ ih =>
      have hperm := Members.perm_ofList ((keys_sortedMembers members).symm ▸ hkeys)
      rw [sorted]
      refine .object (Members.ascending_ofList _) fun entry hentry => ?_
      rw [hperm.mem_iff, sortedMembers_eq] at hentry
      obtain ⟨unsorted, hunsorted, rfl⟩ := List.mem_map.1 hentry
      exact ih unsorted hunsorted

theorem sorted_of_ordered (h : t.Ordered) : t.sorted = t := by
  induction h with
  | null | bool | number | string => rw [sorted]
  | array _ ih =>
      rw [sorted, sortedItems_eq, List.map_congr_left ih, List.map_id']
  | object hkeys _ ih =>
      rw [sorted, sortedMembers_eq, List.map_congr_left fun entry hentry => congrArg (Prod.mk entry.1) (ih entry hentry)]
      rw [List.map_id', Members.ofList_of_ascending hkeys]

theorem reordered_items (before : List Tree) (h : ∀ t ∈ items, Reordered t t.sorted) :
    Reordered (.array (before ++ items)) (.array (before ++ items.map sorted)) := by
  induction items generalizing before with
  | nil => exact .refl _
  | cons t items ih =>
      obtain ⟨ht, hitems⟩ := List.forall_mem_cons.1 h
      have hmore := ih (before ++ [t.sorted]) hitems
      rw [List.append_assoc, List.append_assoc] at hmore
      exact .trans (.item before items ht) hmore

theorem reordered_members (before : Members Tree) (h : ∀ entry ∈ members, Reordered entry.2 entry.2.sorted) :
    Reordered (.object (before ++ members)) (.object (before ++ sortedMembers members)) := by
  induction members generalizing before with
  | nil => exact .refl _
  | cons entry members ih =>
      obtain ⟨hentry, hmembers⟩ := List.forall_mem_cons.1 h
      have hmore := ih (before ++ [(entry.1, entry.2.sorted)]) hmembers
      rw [List.append_assoc, List.append_assoc] at hmore
      exact .trans (.member before entry.1 members hentry) hmore

theorem reordered_sorted (h : t.Distinct) : Reordered t t.sorted := by
  induction h with
  | null | bool | number | string => exact .refl _
  | array _ ih =>
      rw [sorted, sortedItems_eq]
      exact reordered_items [] ih
  | @object members hkeys _ ih =>
      have hperm := Members.perm_ofList ((keys_sortedMembers members).symm ▸ hkeys)
      exact .trans (reordered_members [] ih) (.members hperm.symm)

theorem Reordered.sorted_eq (h : Reordered t u) (ht : t.Distinct) : t.sorted = u.sorted := by
  induction h with
  | refl => rfl
  | trans h _ ih ihmore => exact (ih ht).trans (ihmore (h.distinct ht))
  | @members members others h =>
      have hkeys := (keys_sortedMembers members).symm ▸ (distinct_object.1 ht).1
      have hperm : (sortedMembers members).Perm (sortedMembers others) := by
        rw [sortedMembers_eq, sortedMembers_eq]
        exact h.map _
      rw [sorted, sorted, Members.ofList_of_perm hkeys hperm]
  | @item t u before after _ ih =>
      have ht := distinct_array.1 ht t (by simp)
      simp only [sorted, sortedItems_eq, List.map_append, List.map_cons, ih ht]
  | @member t u before key after _ ih =>
      have ht := (distinct_object.1 ht).2 (key, t) (by simp)
      simp only [sorted, sortedMembers_eq, List.map_append, List.map_cons, ih ht]

theorem arranged_iff (h : t.Distinct) : Arranged t u ↔ u = t.sorted := by
  constructor
  · rintro ⟨hreordered, hordered⟩
    rw [hreordered.sorted_eq h, sorted_of_ordered hordered]
  · rintro rfl
    exact ⟨reordered_sorted h, ordered_sorted h⟩

end Groupwise.Tree
