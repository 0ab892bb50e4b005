namespace Groupwise

namespace Groups

def insertName (name : String) : List String → List String
  | [] => [name]
  | other :: rest =>
    if name < other then name :: other :: rest
    else if name = other then other :: rest
    else other :: insertName name rest

theorem mem_insertName {name other : String} {names : List String} :
    other ∈ insertName name names ↔ other = name ∨ other ∈ names := by
  induction names with
  | nil => simp [insertName]
  | cons head rest ih => grind [insertName]

theorem insertName_ascending {name : String} {names : List String}
    (h : names.Pairwise (· < ·)) : (insertName name names).Pairwise (· < ·) := by
  induction names with
  | nil => simp [insertName]
  | cons head rest ih =>
      obtain ⟨hhead, hrest⟩ := List.pairwise_cons.1 h
      by_cases hlt : name < head
      · simp only [insertName, hlt, if_true, List.pairwise_cons]
        refine ⟨fun x hx => ?_, hhead, hrest⟩
        rcases List.mem_cons.1 hx with rfl | hx
        · exact hlt
        · exact String.lt_trans hlt (hhead x hx)
      · by_cases heq : name = head
        · simpa [insertName, heq] using h
        · simp only [insertName, hlt, heq, if_false, List.pairwise_cons]
          refine ⟨fun x hx => ?_, ih hrest⟩
          rcases mem_insertName.1 hx with rfl | hx
          · exact Std.lt_of_le_of_ne (Std.not_lt.1 hlt) (Ne.symm heq)
          · exact hhead x hx

end Groups

/-- The groups of a user. Only which names occur counts, so they are kept in ascending order and once each. -/
structure Groups where
  names : List String := []
  ascending : names.Pairwise (· < ·) := by simp
  deriving DecidableEq, Repr

namespace Groups

def insert (groups : Groups) (name : String) : Groups :=
  ⟨insertName name groups.names, insertName_ascending groups.ascending⟩

def ofList (names : List String) : Groups := names.foldl insert {}

def size (groups : Groups) : Nat := groups.names.length

def isEmpty (groups : Groups) : Bool := groups.names.isEmpty

def contains (groups : Groups) (name : String) : Bool := groups.names.contains name

def containsAll (groups : Groups) (names : List String) : Bool := names.all groups.contains

def containsAny (groups : Groups) (names : List String) : Bool := names.any groups.contains

theorem contains_insert {groups : Groups} {name other : String} :
    (groups.insert name).contains other ↔ other = name ∨ groups.contains other := by
  simp [contains, insert, mem_insertName]

theorem contains_ofList {names : List String} {name : String} : (ofList names).contains name ↔ name ∈ names := by
  have hfoldl : ∀ groups : Groups, (names.foldl insert groups).contains name ↔ name ∈ names ∨ groups.contains name := by
    induction names with
    | nil => simp
    | cons other names ih =>
        intro groups
        rw [List.foldl_cons, ih, contains_insert, List.mem_cons, or_left_comm, or_assoc]
  rw [ofList, hfoldl]
  simp [contains]

end Groups

end Groupwise
