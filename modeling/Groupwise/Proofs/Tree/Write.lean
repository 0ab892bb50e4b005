import Groupwise.Tree

namespace Groupwise

def Through (place keys : List String) : Prop := place <+: keys ∧ place ≠ keys

instance (place keys : List String) : Decidable (Through place keys) := inferInstanceAs (Decidable (_ ∧ _))

theorem through_cons {key : String} {place keys : List String} :
    Through (key :: place) (key :: keys) ↔ Through place keys := by
  simp [Through, List.cons_prefix_cons]

theorem Through.ne_nil {place keys : List String} (h : Through place keys) : keys ≠ [] := by
  rintro rfl
  exact h.2 (List.prefix_nil.1 h.1)

namespace Tree

theorem lookup_object_cons (members : Members Tree) (key : String) (place : List String) :
    (object members).lookup (key :: place) = (members.find? key).bind (·.lookup place) := by
  cases h : members.find? key <;> simp [lookup, h]

end Tree

namespace Properties

def lookup (place : List String) (properties : Properties) : Option Tree :=
  (Tree.object properties).lookup place

@[simp] theorem lookup_nil (properties : Properties) :
    properties.lookup [] = some (.object properties) := by
  simp [lookup, Tree.lookup]

theorem lookup_cons (key : String) (place : List String) (properties : Properties) :
    properties.lookup (key :: place) = (properties.find? key).bind (·.lookup place) :=
  Tree.lookup_object_cons properties key place

theorem lookup_insert_self (key : String) (place : List String) (value : Tree) (properties : Properties) :
    lookup (key :: place) (properties.insert key value) = value.lookup place := by
  simp [lookup_cons]

theorem lookup_insert_of_ne {key other : String} (h : key ≠ other) (place : List String) (value : Tree)
    (properties : Properties) :
    lookup (key :: place) (properties.insert other value) = properties.lookup (key :: place) := by
  rw [lookup_cons, lookup_cons, Members.find?_insert_of_ne h]

/-- What is not an object has nothing below it, and neither has the object that takes its place. -/
theorem lookup_below {place : List String} (h : place ≠ []) (key : String) (properties : Properties) :
    lookup place (below key properties) = properties.lookup (key :: place) := by
  obtain ⟨head, place, rfl⟩ := List.exists_cons_of_ne_nil h
  rw [lookup_cons key]
  rw [below]
  split
  · next members hfind => simp [hfind, lookup]
  · next hfind =>
      cases hchild : properties.find? key with
      | none => simp [lookup_cons, Members.find?]
      | some child => cases child <;> simp_all [lookup_cons, Members.find?, Tree.lookup]

def membersAt (place : List String) (properties : Properties) : Properties :=
  match properties.lookup place with
  | some (.object members) => members
  | _ => []

theorem membersAt_cons (key : String) (place : List String) (properties : Properties) :
    membersAt (key :: place) properties = membersAt place (below key properties) := by
  by_cases hplace : place = []
  · subst hplace
    cases hchild : properties.find? key with
    | none => simp [membersAt, below, lookup_cons, hchild]
    | some child => cases child <;> simp [membersAt, below, lookup_cons, hchild, Tree.lookup]
  · rw [membersAt, membersAt, lookup_below hplace]

theorem write_cons {rest : List String} (h : rest ≠ []) (value : Tree) (key : String) (properties : Properties) :
    properties.write value (key :: rest) =
      properties.insert key (.object (write value rest (below key properties))) := by
  obtain ⟨second, rest, rfl⟩ := List.exists_cons_of_ne_nil h
  rfl

theorem lookup_write_of_prefix {keys place : List String} (hne : keys ≠ []) (h : keys <+: place)
    (value : Tree) (properties : Properties) :
    lookup place (properties.write value keys) = value.lookup (place.drop keys.length) := by
  induction keys generalizing place properties with
  | nil => contradiction
  | cons key rest ih =>
      obtain ⟨more, rfl⟩ := h
      by_cases hrest : rest = []
      · subst hrest
        exact lookup_insert_self key more value properties
      · rw [write_cons hrest, List.cons_append, lookup_insert_self]
        exact ih hrest ⟨more, rfl⟩ (below key properties)

theorem lookup_write_self {keys : List String} (hne : keys ≠ []) (value : Tree) (properties : Properties) :
    lookup keys (properties.write value keys) = some value := by
  have h := lookup_write_of_prefix hne (List.prefix_refl keys) value properties
  rwa [List.drop_length, Tree.lookup] at h

/-- Above what is written there are objects, which keep their other members. -/
theorem lookup_write_of_through {keys place : List String} (h : Through place keys)
    (value : Tree) (properties : Properties) :
    lookup place (properties.write value keys) =
      some (.object ((membersAt place properties).write value (keys.drop place.length))) := by
  induction keys generalizing place properties with
  | nil => exact absurd rfl h.ne_nil
  | cons key rest ih =>
      cases place with
      | nil => simp [membersAt]
      | cons head place =>
          obtain ⟨rfl, -⟩ := List.cons_prefix_cons.1 h.1
          have hthrough := through_cons.1 h
          rw [write_cons hthrough.ne_nil, lookup_insert_self, membersAt_cons]
          exact ih hthrough (below head properties)

theorem lookup_write_of_apart {keys place : List String} (hkeys : ¬ keys <+: place) (hplace : ¬ place <+: keys)
    (value : Tree) (properties : Properties) :
    lookup place (properties.write value keys) = properties.lookup place := by
  induction keys generalizing place properties with
  | nil => exact absurd List.nil_prefix hkeys
  | cons key rest ih =>
      cases place with
      | nil => exact absurd List.nil_prefix hplace
      | cons head place =>
          by_cases hhead : head = key
          · subst hhead
            rw [List.cons_prefix_cons] at hkeys hplace
            have hrest : rest ≠ [] := by rintro rfl; simp at hkeys
            have hne : place ≠ [] := by rintro rfl; simp at hplace
            rw [write_cons hrest, lookup_insert_self]
            exact (ih (by simpa using hkeys) (by simpa using hplace) (below head properties)).trans
              (lookup_below hne head properties)
          · by_cases hrest : rest = []
            · subst hrest
              exact lookup_insert_of_ne hhead place value properties
            · rw [write_cons hrest, lookup_insert_of_ne hhead]

end Properties

end Groupwise
