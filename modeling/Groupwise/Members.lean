namespace Groupwise

abbrev Members (α : Type) := List (String × α)

namespace Members

variable {α : Type}

def find? (key : String) : Members α → Option α
  | [] => none
  | (other, value) :: rest => if key = other then some value else find? key rest

def insert (key : String) (value : α) : Members α → Members α
  | [] => [(key, value)]
  | (other, old) :: rest =>
    if key < other then (key, value) :: (other, old) :: rest
    else if key = other then (key, value) :: rest
    else (other, old) :: insert key value rest

def ofList (entries : List (String × α)) : Members α :=
  entries.foldl (fun members entry => insert entry.1 entry.2 members) []

def keys (members : Members α) : List String := members.map Prod.fst

def Ascending (members : Members α) : Prop := members.keys.Pairwise (· < ·)

instance (members : Members α) : Decidable members.Ascending :=
  inferInstanceAs (Decidable (members.keys.Pairwise (· < ·)))

@[simp] theorem find?_insert_self (key : String) (value : α) (members : Members α) :
    find? key (insert key value members) = some value := by
  induction members with
  | nil => simp [insert, find?]
  | cons entry rest ih =>
      obtain ⟨other, old⟩ := entry
      simp only [insert]
      split
      · simp [find?]
      · split
        · simp [find?]
        · next hne => simp [find?, hne, ih]

theorem find?_insert_of_ne {key other : String} (h : key ≠ other) (value : α) (members : Members α) :
    find? key (insert other value members) = find? key members := by
  induction members with
  | nil => simp [insert, find?, h]
  | cons entry rest ih =>
      obtain ⟨head, old⟩ := entry
      simp only [insert]
      split
      · simp [find?, h]
      · split
        · next heq => simp [find?, h, ← heq]
        · simp [find?, ih]

end Members

end Groupwise
