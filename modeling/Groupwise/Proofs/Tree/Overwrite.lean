import Groupwise.Proofs.Tree.LastWrite

namespace Groupwise

namespace Members

variable {α : Type}

theorem insert_insert_self (key : String) (value old : α) (members : Members α) :
    insert key value (insert key old members) = insert key value members := by
  induction members with
  | nil => simp [insert]
  | cons entry rest ih =>
      obtain ⟨other, found⟩ := entry
      by_cases hlt : key < other
      · simp [insert, hlt]
      · by_cases heq : key = other
        · simp [insert, heq]
        · simp [insert, hlt, heq, ih]

theorem insert_insert_of_lt {key other : String} (h : key < other) (value found : α) (members : Members α) :
    insert key value (insert other found members) = insert other found (insert key value members) := by
  have hnot : ¬ other < key := String.lt_asymm h
  have hne : other ≠ key := fun heq => String.lt_irrefl key (heq ▸ h)
  induction members with
  | nil => simp [insert, h, hnot, hne]
  | cons entry rest ih =>
      obtain ⟨head, old⟩ := entry
      by_cases hlt : key < head
      · simp only [insert, hlt, hnot, hne, if_true, if_false]
        split
        · simp [insert, h]
        · split
          · simp [insert, h]
          · simp [insert, hlt]
      · have hhead : ¬ other < head := fun hother => hlt (String.lt_trans h hother)
        have hnehead : other ≠ head := fun heq => hlt (heq ▸ h)
        by_cases heq : key = head
        · simp [insert, ← heq, hnot, hne]
        · simp [insert, hlt, heq, hhead, hnehead, ih]

/-- The members need not be in ascending order for this. -/
theorem insert_insert_of_ne {key other : String} (h : key ≠ other) (value found : α) (members : Members α) :
    insert key value (insert other found members) = insert other found (insert key value members) := by
  by_cases hlt : key < other
  · exact insert_insert_of_lt hlt value found members
  · have hgt : other < key := Std.lt_of_le_of_ne (Std.not_lt.1 hlt) h.symm
    exact (insert_insert_of_lt hgt found value members).symm

end Members

def Apart (first second : List String) : Prop := ¬ first <+: second ∧ ¬ second <+: first

instance (first second : List String) : Decidable (Apart first second) := inferInstanceAs (Decidable (_ ∧ _))

theorem Apart.symm {first second : List String} (h : Apart first second) : Apart second first := ⟨h.2, h.1⟩

theorem apart_cons {key : String} {first second : List String} :
    Apart (key :: first) (key :: second) ↔ Apart first second := by
  simp [Apart, List.cons_prefix_cons]

theorem Apart.ne_nil {first second : List String} (h : Apart first second) : first ≠ [] := by
  rintro rfl
  exact h.1 List.nil_prefix

namespace Properties

theorem below_insert_self (key : String) (members properties : Properties) :
    below key (properties.insert key (.object members)) = members := by
  simp [below]

theorem below_insert_of_ne {key other : String} (h : key ≠ other) (value : Tree) (properties : Properties) :
    below key (properties.insert other value) = below key properties := by
  rw [below, below, Members.find?_insert_of_ne h]

/-- A write sets one member. To what it is set depends on nothing but what was below that member. -/
theorem exists_write_cons (value : Tree) (key : String) (rest : List String) :
    ∃ child : Properties → Tree, ∀ properties : Properties,
      properties.write value (key :: rest) = properties.insert key (child (below key properties)) := by
  by_cases hrest : rest = []
  · subst hrest
    exact ⟨fun _ => value, fun properties => rfl⟩
  · exact ⟨fun members => .object (members.write value rest), write_cons hrest value key⟩

theorem write_write_of_prefix {keys place : List String} (hne : keys ≠ []) (h : keys <+: place)
    (value old : Tree) (properties : Properties) :
    (properties.write old place).write value keys = properties.write value keys := by
  induction keys generalizing place properties with
  | nil => contradiction
  | cons key rest ih =>
      obtain ⟨more, rfl⟩ := h
      by_cases hrest : rest = []
      · subst hrest
        obtain ⟨child, hchild⟩ := exists_write_cons old key more
        rw [List.cons_append, List.nil_append, hchild]
        exact Members.insert_insert_self key value _ properties
      · have hmore : rest ++ more ≠ [] := List.append_ne_nil_of_left_ne_nil hrest more
        rw [List.cons_append, write_cons hmore, write_cons hrest, write_cons hrest, below_insert_self,
          Members.insert_insert_self, ih hrest ⟨more, rfl⟩]

/-- Writes at places that are apart may change places, whatever stands in the way of them. -/
theorem write_write_of_apart {keys place : List String} (h : Apart keys place)
    (value found : Tree) (properties : Properties) :
    (properties.write found place).write value keys = (properties.write value keys).write found place := by
  induction keys generalizing place properties with
  | nil => exact absurd rfl h.ne_nil
  | cons key rest ih =>
      cases place with
      | nil => exact absurd rfl h.symm.ne_nil
      | cons head place =>
          by_cases hhead : head = key
          · subst hhead
            rw [apart_cons] at h
            simp only [write_cons h.ne_nil, write_cons h.symm.ne_nil, below_insert_self, Members.insert_insert_self,
              ih h]
          · obtain ⟨child, hchild⟩ := exists_write_cons value key rest
            obtain ⟨other, hother⟩ := exists_write_cons found head place
            simp only [hchild, hother, below_insert_of_ne hhead, below_insert_of_ne (Ne.symm hhead)]
            exact Members.insert_insert_of_ne (Ne.symm hhead) _ _ properties

open Write

variable {w : Write} {first second writes later : List Write}

theorem writeAll_write_of_apart (h : ∀ other ∈ writes, Apart other.keys w.keys) (properties : Properties) :
    writeAll writes (properties.write w.value w.keys) = (writeAll writes properties).write w.value w.keys := by
  induction writes generalizing properties with
  | nil => rfl
  | cons other writes ih =>
      obtain ⟨hother, hrest⟩ := List.forall_mem_cons.1 h
      rw [writeAll_cons, writeAll_cons, write_write_of_apart hother, ih hrest]

theorem writeAll_writeAll_of_apart (h : ∀ w ∈ first, ∀ other ∈ second, Apart w.keys other.keys)
    (properties : Properties) :
    writeAll second (writeAll first properties) = writeAll first (writeAll second properties) := by
  induction first generalizing properties with
  | nil => rfl
  | cons w first ih =>
      obtain ⟨hw, hfirst⟩ := List.forall_mem_cons.1 h
      rw [writeAll_cons, writeAll_cons, ih hfirst, writeAll_write_of_apart fun other hother => (hw other hother).symm]

/--
A write is lost if a later one sets the same place or something above it. What it opened on its way is opened
again, and what it was gone through by in between is gone with it.
-/
theorem writeAll_cons_of_reached (hkeys : ∀ x ∈ later, x.keys ≠ []) (h : Reached later w.keys)
    (properties : Properties) : writeAll (w :: later) properties = writeAll later properties := by
  induction later generalizing w properties with
  | nil => simp [Reached] at h
  | cons next later ih =>
      obtain ⟨hnext, hlater⟩ := List.forall_mem_cons.1 hkeys
      by_cases habove : next.keys <+: w.keys
      · rw [writeAll_cons, writeAll_cons, write_write_of_prefix hnext habove]
        rfl
      · have hreached : Reached later w.keys := (reached_cons.1 h).resolve_left habove
        by_cases hbelow : w.keys <+: next.keys
        · -- What sets the place of `w` later on sets that of `next` too, so both are lost.
          obtain ⟨last, hlast, hprefix⟩ := hreached
          have hnextReached : Reached later next.keys := ⟨last, hlast, hprefix.trans hbelow⟩
          calc writeAll (w :: next :: later) properties
            _ = writeAll (next :: later) (properties.write w.value w.keys) := rfl
            _ = writeAll later (properties.write w.value w.keys) := ih hlater hnextReached _
            _ = writeAll later properties := ih hlater ⟨last, hlast, hprefix⟩ properties
            _ = writeAll (next :: later) properties := (ih hlater hnextReached properties).symm
        · have hapart : Apart next.keys w.keys := ⟨habove, hbelow⟩
          rw [writeAll_cons, writeAll_cons, write_write_of_apart hapart]
          exact ih hlater hreached _

theorem writeAll_append_of_reached (hkeys : ∀ x ∈ first ++ second, x.keys ≠ [])
    (h : ∀ w ∈ first, Reached second w.keys) (properties : Properties) :
    writeAll (first ++ second) properties = writeAll second properties := by
  induction first with
  | nil => rfl
  | cons w first ih =>
      obtain ⟨hw, hfirst⟩ := List.forall_mem_cons.1 h
      obtain ⟨last, hlast, hprefix⟩ := hw
      have hreached : Reached (first ++ second) w.keys := ⟨last, List.mem_append_right first hlast, hprefix⟩
      have hrest : ∀ x ∈ first ++ second, x.keys ≠ [] := fun x hx => hkeys x (List.mem_cons_of_mem w hx)
      rw [List.cons_append, writeAll_cons_of_reached hrest hreached, ih hrest hfirst]

/-- Each write of the first run is reached by the same write of the second one. -/
theorem writeAll_writeAll_self (hkeys : ∀ w ∈ writes, w.keys ≠ []) (properties : Properties) :
    writeAll writes (writeAll writes properties) = writeAll writes properties := by
  rw [← writeAll_append]
  apply writeAll_append_of_reached
  · simpa using hkeys
  · exact fun w hw => ⟨w, hw, List.prefix_rfl⟩

end Properties

end Groupwise
