import Groupwise.Proofs.Override.Order
import Groupwise.Proofs.Text.Slice
import Groupwise.Proofs.Tree.Ordered

namespace Groupwise

section keysOf

variable {path key : String} {keys : List String}

theorem not_mem_of_mem_keysOf (h : key ∈ keysOf path) : '.' ∉ key.toList := by
  obtain ⟨part, hpart, rfl⟩ := List.mem_map.1 h
  rw [String.toList_ofList]
  exact Text.not_mem_of_mem_splitOn hpart

/-- The keys of a path are the only ones that have no dots and give the path when dots are put between them. -/
theorem eq_keysOf_iff : keys = keysOf path ↔
    keys ≠ [] ∧ (∀ key ∈ keys, '.' ∉ key.toList) ∧ ['.'].intercalate (keys.map String.toList) = path.toList := by
  constructor
  · rintro rfl
    exact ⟨keysOf_ne_nil path, fun key hkey => not_mem_of_mem_keysOf hkey, intercalate_keysOf path⟩
  · rintro ⟨hne, hdots, hjoin⟩
    have hparts : ∀ part ∈ keys.map String.toList, '.' ∉ part := by simpa using hdots
    rw [keysOf, ← hjoin, List.splitOn_intercalate '.' hparts (by simpa using hne)]
    simp [Function.comp_def]

end keysOf

namespace Properties

variable {value : Tree} {properties : Properties} {keys place : List String} {key : String}

theorem mem_keys_write (hne : keys ≠ []) :
    key ∈ Members.keys (properties.write value keys) ↔ keys.head? = some key ∨ key ∈ Members.keys properties := by
  obtain ⟨head, rest, rfl⟩ := List.exists_cons_of_ne_nil hne
  obtain ⟨child, hchild⟩ := exists_write_cons value head rest
  rw [hchild, Members.mem_keys_insert, List.head?_cons, Option.some.injEq, eq_comm]

theorem apart_sibling (more : List String) (h : Through place keys) (hkey : keys[place.length]? ≠ some key) :
    Apart keys (place ++ key :: more) := by
  obtain ⟨⟨rest, rfl⟩, hne⟩ := h
  have hrest : rest ≠ [] := by
    rintro rfl
    simp at hne
  obtain ⟨next, rest, rfl⟩ := List.exists_cons_of_ne_nil hrest
  have hnext : next ≠ key := by simpa using hkey
  constructor
  · rw [List.prefix_append_right_inj, List.cons_prefix_cons]
    exact fun hprefix => hnext hprefix.1
  · rw [List.prefix_append_right_inj, List.cons_prefix_cons]
    exact fun hprefix => hnext hprefix.1.symm

/--
What is found after something was written: the value at its place and below, objects above it, which have the next key
and the members that they had before, and elsewhere what was there before.
-/
structure Overwritten (keys : List String) (value : Tree) (before after : Properties) : Prop where
  written {place : List String} (h : keys <+: place) : after.lookup place = value.lookup (place.drop keys.length)
  opened {place : List String} (h : Through place keys) : ∃ members, after.lookup place = some (.object members) ∧
    ∀ key, key ∈ Members.keys members ↔ keys[place.length]? = some key ∨ key ∈ Members.keys (before.membersAt place)
  kept {place : List String} (hkeys : ¬ keys <+: place) (hplace : ¬ Through place keys) :
    after.lookup place = before.lookup place
  siblings {place : List String} {key : String} (more : List String) (h : Through place keys)
    (hkey : keys[place.length]? ≠ some key) : after.lookup (place ++ key :: more) = before.lookup (place ++ key :: more)
  dotted {place : List String} {key : String} (hkey : key ∈ place) (hdot : '.' ∈ key.toList) (hkeys : ¬ keys <+: place) :
    after.lookup place = before.lookup place

theorem overwritten_write (path : String) (value : Tree) (properties : Properties) :
    Overwritten (keysOf path) value properties (properties.write value (keysOf path)) where
  written := fun h => lookup_write_of_prefix (keysOf_ne_nil path) h value properties
  opened := by
    intro place h
    refine ⟨_, lookup_write_of_through h value properties, fun key => ?_⟩
    have hne : (keysOf path).drop place.length ≠ [] := by
      intro hnil
      exact h.2 (h.1.eq_of_length_le (List.drop_eq_nil_iff.1 hnil))
    rw [mem_keys_write hne, List.head?_drop]
  kept := by
    intro place hkeys hplace
    have hfront : ¬ place <+: keysOf path := fun h => hplace ⟨h, fun heq => hkeys (heq ▸ List.prefix_rfl)⟩
    exact lookup_write_of_apart hkeys hfront value properties
  siblings := by
    intro place key more h hkey
    have hapart := apart_sibling more h hkey
    exact lookup_write_of_apart hapart.1 hapart.2 value properties
  dotted := by
    -- No key of a path has a dot, so the path does not lead to this place.
    intro place key hkey hdot hkeys
    have hfront : ¬ place <+: keysOf path := fun h => not_mem_of_mem_keysOf (h.subset hkey) hdot
    exact lookup_write_of_apart hkeys hfront value properties

/--
What an override leaves at every place. The keys of its path are those between the dots, empty ones among them. A path
of more than 64 keys is refused and changes nothing.
-/
theorem lookup_override (path : String) (value : Tree) (properties : Properties) :
    (∀ keys, keys = keysOf path ↔
      keys ≠ [] ∧ (∀ key ∈ keys, '.' ∉ key.toList) ∧ ['.'].intercalate (keys.map String.toList) = path.toList) ∧
    ((keysOf path).length ≤ 64 →
      ∃ after, properties.override path value = .ok after ∧ Overwritten (keysOf path) value properties after) ∧
    (64 < (keysOf path).length →
      properties.override path value = .error (.invalid path (.tooManyKeys (keysOf path).length)) ∧
        (properties.overrideAll [(path, value)]).properties = properties) := by
  refine ⟨fun keys => eq_keysOf_iff, fun hfits => ?_, fun hlong => ?_⟩
  · exact ⟨_, override_of_fits hfits value properties, overwritten_write path value properties⟩
  · have hpath : ¬ Fits path := Nat.not_le_of_gt hlong
    refine ⟨override_of_not_fits hpath value properties, ?_⟩
    rw [overrideAll, override_of_not_fits hpath]

theorem lookup_override_empty_key :
    let properties : Properties := [("a", .object [("", .bool true), ("x", .null)]), ("a..b", .bool false)]
    let value : Tree := .object [("c", .null)]
    let long := String.ofList (List.replicate 64 '.')
    (∃ after, properties.override "a..b" value = .ok after ∧ after.lookup ["a", "", "b", "c"] = some .null ∧
      after.lookup ["a", "x"] = some .null ∧ after.lookup ["a..b"] = some (.bool false)) ∧
    properties.override long value = .error (.invalid long (.tooManyKeys (keysOf long).length)) := by
  intro properties value long
  constructor
  · obtain ⟨-, hfits, -⟩ := lookup_override "a..b" value properties
    obtain ⟨after, hafter, h⟩ := hfits (by decide +kernel)
    have hthrough : Through ["a"] (keysOf "a..b") := by decide +kernel
    refine ⟨after, hafter, ?_, ?_, ?_⟩
    · exact (h.written (by decide +kernel)).trans (by decide +kernel)
    · exact h.siblings [] hthrough (by decide +kernel)
    · exact h.dotted List.mem_cons_self (by decide) (by decide +kernel)
  · exact ((lookup_override long value properties).2.2 (by decide +kernel)).1

end Properties

end Groupwise
