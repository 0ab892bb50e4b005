import Groupwise.Proofs.Tree.Write

namespace Groupwise

structure Write where
  keys : List String
  value : Tree

def Tree.IsObject (t : Option Tree) : Prop := ∃ members, t = some (.object members)

namespace Write

variable {writes later : List Write} {last : Write} {place : List String}

def Reached (writes : List Write) (place : List String) : Prop := ∃ w ∈ writes, w.keys <+: place

def Entered (writes : List Write) (place : List String) : Prop := ∃ w ∈ writes, Through place w.keys

theorem reached_cons {w : Write} :
    Reached (w :: writes) place ↔ w.keys <+: place ∨ Reached writes place := by
  simp [Reached]

theorem entered_cons {w : Write} :
    Entered (w :: writes) place ↔ Through place w.keys ∨ Entered writes place := by
  simp [Entered]

/-- The last write that sets a place or something above it, and the writes that come after it. -/
structure IsLast (writes : List Write) (place : List String) (last : Write) (later : List Write) : Prop where
  split : ∃ earlier, writes = earlier ++ last :: later
  reaches : last.keys <+: place
  unreached : ¬ Reached later place

end Write

namespace Properties

open Groupwise.Tree (IsObject)
open Write

variable {writes later : List Write} {last : Write} {place : List String}

def writeAll (writes : List Write) (properties : Properties) : Properties :=
  writes.foldl (fun properties w => properties.write w.value w.keys) properties

theorem writeAll_cons (w : Write) (writes : List Write) (properties : Properties) :
    writeAll (w :: writes) properties = writeAll writes (properties.write w.value w.keys) := rfl

theorem writeAll_append (first second : List Write) (properties : Properties) :
    writeAll (first ++ second) properties = writeAll second (writeAll first properties) :=
  List.foldl_append

theorem writeAll_keeps {P : Properties → Prop} {properties : Properties}
    (hwrites : ∀ w ∈ writes, ∀ properties : Properties, P properties → P (properties.write w.value w.keys))
    (h : P properties) : P (properties.writeAll writes) := by
  induction writes generalizing properties with
  | nil => exact h
  | cons w writes ih =>
      obtain ⟨hw, hrest⟩ := List.forall_mem_cons.1 hwrites
      exact ih hrest (hw properties h)

theorem lookup_writeAll_of_untouched (hreached : ¬ Reached writes place) (hentered : ¬ Entered writes place)
    (properties : Properties) : lookup place (properties.writeAll writes) = properties.lookup place := by
  apply writeAll_keeps (P := fun after => lookup place after = properties.lookup place) _ rfl
  intro w hw after hafter
  have hkeys : ¬ w.keys <+: place := fun hprefix => hreached ⟨w, hw, hprefix⟩
  have hplace : ¬ place <+: w.keys := by
    intro hfront
    exact hentered ⟨w, hw, hfront, fun heq => hkeys (heq ▸ List.prefix_rfl)⟩
  rw [lookup_write_of_apart hkeys hplace, hafter]

theorem isObject_write {w : Write} {properties : Properties} (h : ¬ w.keys <+: place)
    (hobject : IsObject (properties.lookup place)) :
    IsObject (lookup place (properties.write w.value w.keys)) := by
  by_cases hplace : place <+: w.keys
  · have hthrough : Through place w.keys := ⟨hplace, fun heq => h (heq ▸ List.prefix_rfl)⟩
    exact ⟨_, lookup_write_of_through hthrough w.value properties⟩
  · rwa [lookup_write_of_apart h hplace]

theorem isObject_writeAll (hreached : ¬ Reached writes place) {properties : Properties}
    (hobject : IsObject (properties.lookup place)) :
    IsObject (lookup place (properties.writeAll writes)) := by
  apply writeAll_keeps (P := fun properties => IsObject (properties.lookup place)) _ hobject
  intro w hw properties
  exact isObject_write fun hprefix => hreached ⟨w, hw, hprefix⟩

theorem isObject_writeAll_of_entered (hreached : ¬ Reached writes place) (hentered : Entered writes place)
    (properties : Properties) : IsObject (lookup place (properties.writeAll writes)) := by
  induction writes generalizing properties with
  | nil => simp [Entered] at hentered
  | cons w writes ih =>
      rw [reached_cons, not_or] at hreached
      rw [entered_cons] at hentered
      rcases hentered with hthrough | hrest
      · exact isObject_writeAll hreached.2 ⟨_, lookup_write_of_through hthrough w.value properties⟩
      · exact ih hreached.2 hrest (properties.write w.value w.keys)

/--
What properties hold after some writes. At each place only the last write counts that sets the place or
something above it; the place is an object if a write goes through it later on, or if there is no such write and
any goes through it.
-/
structure LastWins (writes : List Write) (before after : Properties) : Prop where
  value {place : List String} {last : Write} {later : List Write} (h : IsLast writes place last later)
    (hentered : ¬ Entered later place) :
    after.lookup place = last.value.lookup (place.drop last.keys.length)
  opened {place : List String} {last : Write} {later : List Write} (h : IsLast writes place last later)
    (hentered : Entered later place) : IsObject (after.lookup place)
  kept {place : List String} (hreached : ¬ Reached writes place) (hentered : ¬ Entered writes place) :
    after.lookup place = before.lookup place
  created {place : List String} (hreached : ¬ Reached writes place) (hentered : Entered writes place) :
    IsObject (after.lookup place)

theorem lastWins_writeAll (hkeys : ∀ w ∈ writes, w.keys ≠ []) (properties : Properties) :
    LastWins writes properties (properties.writeAll writes) := by
  refine ⟨?_, ?_, ?_, ?_⟩
  · intro place last later h hentered
    obtain ⟨earlier, rfl⟩ := h.split
    have hne : last.keys ≠ [] := hkeys last (by simp)
    rw [writeAll_append, writeAll_cons, lookup_writeAll_of_untouched h.unreached hentered,
      lookup_write_of_prefix hne h.reaches]
  · intro place last later h hentered
    obtain ⟨earlier, rfl⟩ := h.split
    rw [writeAll_append, writeAll_cons]
    exact isObject_writeAll_of_entered h.unreached hentered _
  · intro place hreached hentered
    exact lookup_writeAll_of_untouched hreached hentered properties
  · intro place hreached hentered
    exact isObject_writeAll_of_entered hreached hentered properties

end Properties

end Groupwise
