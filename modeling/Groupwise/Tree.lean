import Groupwise.Members
import Groupwise.Number

namespace Groupwise

inductive Tree where
  | null
  | bool (value : Bool)
  | number (value : Number)
  | string (value : String)
  | array (items : List Tree)
  | object (members : List (String × Tree))

namespace Tree

mutual
def same : Tree → Tree → Bool
  | .null, .null => true
  | .bool a, .bool b => a = b
  | .number a, .number b => a = b
  | .string a, .string b => a = b
  | .array a, .array b => sameItems a b
  | .object a, .object b => sameMembers a b
  | _, _ => false

def sameItems : List Tree → List Tree → Bool
  | [], [] => true
  | a :: as, b :: bs => same a b && sameItems as bs
  | _, _ => false

def sameMembers : Members Tree → Members Tree → Bool
  | [], [] => true
  | (j, a) :: as, (k, b) :: bs => j = k && same a b && sameMembers as bs
  | _, _ => false
end

mutual
theorem same_iff (a b : Tree) : same a b = true ↔ a = b := by
  cases a <;> cases b <;> simp [same]
  · exact sameItems_iff _ _
  · exact sameMembers_iff _ _

theorem sameItems_iff (as bs : List Tree) : sameItems as bs = true ↔ as = bs := by
  cases as with
  | nil => cases bs <;> simp [sameItems]
  | cons a as =>
      cases bs with
      | nil => simp [sameItems]
      | cons b bs => simp [sameItems, same_iff a b, sameItems_iff as bs]

theorem sameMembers_iff (as bs : Members Tree) : sameMembers as bs = true ↔ as = bs := by
  cases as with
  | nil => cases bs <;> simp [sameMembers]
  | cons a as =>
      obtain ⟨j, a⟩ := a
      cases bs with
      | nil => simp [sameMembers]
      | cons b bs =>
          obtain ⟨k, b⟩ := b
          simp [sameMembers, same_iff a b, sameMembers_iff as bs]
end

instance : DecidableEq Tree := fun a b => decidable_of_iff _ (same_iff a b)

def lookup : Tree → List String → Option Tree
  | t, [] => some t
  | .object members, key :: keys =>
    match Members.find? key members with
    | some child => child.lookup keys
    | none => none
  | _, _ :: _ => none

end Tree

abbrev Properties := Members Tree

namespace Properties

def below (key : String) (properties : Properties) : Properties :=
  match properties.find? key with
  | some (.object members) => members
  | _ => []

/--
Overwrites what a list of keys leads to. Objects on the way keep their other members; whatever else stands
on the way gives place to an object.
-/
def write (value : Tree) : List String → Properties → Properties
  | [], properties => properties
  | [key], properties => properties.insert key value
  | key :: rest, properties => properties.insert key (.object (write value rest (below key properties)))

end Properties

end Groupwise
