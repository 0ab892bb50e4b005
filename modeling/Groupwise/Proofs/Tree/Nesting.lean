import Groupwise.Proofs.Tree.LastWrite
import Groupwise.Proofs.Tree.Within

namespace Groupwise

namespace Tree

mutual
def nesting : Tree → Nat
  | .array items => nestingOfItems items + 1
  | .object members => nestingOfMembers members + 1
  | .null | .bool _ | .number _ | .string _ => 0

def nestingOfItems : List Tree → Nat
  | [] => 0
  | t :: rest => max (nesting t) (nestingOfItems rest)

def nestingOfMembers : Members Tree → Nat
  | [] => 0
  | (_, t) :: rest => max (nesting t) (nestingOfMembers rest)
end

variable {t value : Tree} {items : List Tree} {members : Members Tree} {levels bound : Nat} {place : List String}

theorem nestingOfItems_le : nestingOfItems items ≤ bound ↔ ∀ t ∈ items, t.nesting ≤ bound := by
  induction items with
  | nil => simp [nestingOfItems]
  | cons t items ih => rw [nestingOfItems, Nat.max_le, ih, List.forall_mem_cons]

theorem nestingOfMembers_le : nestingOfMembers members ≤ bound ↔ ∀ entry ∈ members, entry.2.nesting ≤ bound := by
  induction members with
  | nil => simp [nestingOfMembers]
  | cons entry members ih => rw [nestingOfMembers, Nat.max_le, ih, List.forall_mem_cons]

theorem nesting_array_le : (array items).nesting ≤ bound + 1 ↔ ∀ t ∈ items, t.nesting ≤ bound := by
  rw [nesting, Nat.add_le_add_iff_right, nestingOfItems_le]

theorem nesting_object_le : (object members).nesting ≤ bound + 1 ↔ ∀ entry ∈ members, entry.2.nesting ≤ bound := by
  rw [nesting, Nat.add_le_add_iff_right, nestingOfMembers_le]

theorem one_le_nesting_object (members : Members Tree) : 1 ≤ (object members).nesting := by
  rw [nesting]
  exact Nat.le_add_left 1 _

theorem nesting_lookup_le (h : t.lookup place = some value) : place.length + value.nesting ≤ t.nesting := by
  induction place generalizing t with
  | nil =>
      rw [lookup] at h
      obtain rfl := Option.some.inj h
      simp
  | cons key place ih =>
      cases t with
      | object members =>
          rw [lookup_object_cons] at h
          obtain ⟨child, hfind, hchild⟩ := Option.bind_eq_some_iff.1 h
          have hmember : child.nesting ≤ nestingOfMembers members :=
            nestingOfMembers_le.1 Nat.le.refl (key, child) (Members.mem_of_find? hfind)
          have hplace := ih hchild
          rw [nesting, List.length_cons]
          omega
      | _ => simp [lookup] at h

theorem Within.nesting_le (h : t.Within levels) : t.nesting ≤ levels := by
  induction h with
  | null | bool | number | string => exact Nat.zero_le _
  | array _ ih => exact nesting_array_le.2 ih
  | object _ _ ih => exact nesting_object_le.2 ih

theorem Within.of_nesting_le (h : t.Within levels) (hbound : t.nesting ≤ bound) : t.Within bound := by
  induction h generalizing bound with
  | null => exact .null bound
  | bool _ b => exact .bool bound b
  | number _ hn => exact .number bound hn
  | string _ s => exact .string bound s
  | array _ ih =>
      cases bound with
      | zero => exact absurd hbound (by simp [nesting])
      | succ bound => exact .array fun t ht => ih t ht (nesting_array_le.1 hbound t ht)
  | object hkeys _ ih =>
      cases bound with
      | zero => exact absurd hbound (by simp [nesting])
      | succ bound => exact .object hkeys fun entry hentry => ih entry hentry (nesting_object_le.1 hbound entry hentry)

def Valid (t : Tree) : Prop := t.Within t.nesting

theorem Within.valid (h : t.Within levels) : t.Valid := h.of_nesting_le Nat.le.refl

theorem Valid.within (h : t.Valid) (hlevels : t.nesting ≤ levels) : t.Within levels := Within.of_nesting_le h hlevels

theorem valid_array : (array items).Valid ↔ ∀ t ∈ items, t.Valid := by
  constructor
  · rintro (_ | _ | _ | _ | hitems | _)
    exact fun t ht => (hitems t ht).valid
  · intro h
    exact .array fun t ht => (h t ht).within (nestingOfItems_le.1 Nat.le.refl t ht)

theorem valid_object : (object members).Valid ↔ members.AscendingWith Valid := by
  constructor
  · rintro (_ | _ | _ | _ | _ | ⟨hkeys, hmembers⟩)
    exact ⟨hkeys, fun entry hentry => (hmembers entry hentry).valid⟩
  · rintro ⟨hkeys, hmembers⟩
    exact .object hkeys fun entry hentry => (hmembers entry hentry).within (nestingOfMembers_le.1 Nat.le.refl entry hentry)

end Tree

namespace Properties

variable {properties : Properties} {value : Tree} {writes : List Write} {keys : List String} {bound : Nat}

theorem nesting_below_le (key : String) (h : ∀ entry ∈ properties, entry.2.nesting ≤ bound + 1) :
    ∀ entry ∈ below key properties, entry.2.nesting ≤ bound := by
  rw [below]
  split
  · next members hfind => exact Tree.nesting_object_le.1 (h (key, .object members) (Members.mem_of_find? hfind))
  · simp

theorem nesting_of_mem_write (hproperties : ∀ entry ∈ properties, entry.2.nesting ≤ bound)
    (hvalue : keys.length + value.nesting ≤ bound + 1) :
    ∀ entry ∈ properties.write value keys, entry.2.nesting ≤ bound := by
  induction keys generalizing properties bound with
  | nil => exact hproperties
  | cons key rest ih =>
      intro entry hentry
      rw [List.length_cons] at hvalue
      by_cases hrest : rest = []
      · subst hrest
        rcases Members.eq_or_mem_of_mem_insert hentry with rfl | hmem
        · rw [List.length_nil] at hvalue
          show value.nesting ≤ bound
          omega
        · exact hproperties entry hmem
      · -- The object that the next keys lead through takes one of the levels.
        have hlength : 0 < rest.length := List.length_pos_iff.2 hrest
        obtain ⟨inner, rfl⟩ : ∃ inner, bound = inner + 1 := ⟨bound - 1, by omega⟩
        rw [write_cons hrest] at hentry
        rcases Members.eq_or_mem_of_mem_insert hentry with rfl | hmem
        · exact Tree.nesting_object_le.2 (ih (nesting_below_le key hproperties) (by omega))
        · exact hproperties entry hmem

theorem nesting_write_le (hproperties : (Tree.object properties).nesting ≤ bound)
    (hvalue : keys.length + value.nesting ≤ bound) :
    (Tree.object (properties.write value keys)).nesting ≤ bound := by
  obtain ⟨inner, rfl⟩ : ∃ inner, bound = inner + 1 :=
    ⟨bound - 1, (Nat.sub_add_cancel (Nat.le_trans (Tree.one_le_nesting_object properties) hproperties)).symm⟩
  exact Tree.nesting_object_le.2 (nesting_of_mem_write (Tree.nesting_object_le.1 hproperties) hvalue)

/-- Each write on its own is as deep as its keys and its value, however many of them go on from one another. -/
theorem nesting_writeAll_le (hproperties : (Tree.object properties).nesting ≤ bound)
    (hwrites : ∀ w ∈ writes, w.keys.length + w.value.nesting ≤ bound) :
    (Tree.object (properties.writeAll writes)).nesting ≤ bound := by
  apply writeAll_keeps (P := fun properties => (Tree.object properties).nesting ≤ bound) _ hproperties
  intro w hw properties h
  exact nesting_write_le h (hwrites w hw)

theorem valid_below (key : String) (h : properties.AscendingWith Tree.Valid) :
    (below key properties).AscendingWith Tree.Valid := by
  rw [below]
  split
  · next members hfind => exact Tree.valid_object.1 (h.find hfind)
  · exact .nil

theorem valid_write (hproperties : properties.AscendingWith Tree.Valid) (hvalue : value.Valid) :
    (properties.write value keys).AscendingWith Tree.Valid := by
  induction keys generalizing properties with
  | nil => exact hproperties
  | cons key rest ih =>
      by_cases hrest : rest = []
      · subst hrest
        exact hproperties.insert key hvalue
      · rw [write_cons hrest]
        exact hproperties.insert key (Tree.valid_object.2 (ih (valid_below key hproperties)))

theorem valid_writeAll (hproperties : properties.AscendingWith Tree.Valid) (hwrites : ∀ w ∈ writes, w.value.Valid) :
    (properties.writeAll writes).AscendingWith Tree.Valid := by
  apply writeAll_keeps _ hproperties
  intro w hw properties h
  exact valid_write h (hwrites w hw)

end Properties

end Groupwise
