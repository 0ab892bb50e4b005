import Groupwise.Override
import Groupwise.Proofs.Tree.LastWrite

namespace Groupwise

theorem keysOf_ne_nil (path : String) : keysOf path ≠ [] := by
  simp [keysOf, List.splitOn_ne_nil]

def Fits (path : String) : Prop := (keysOf path).length ≤ maxKeys

instance (path : String) : Decidable (Fits path) := inferInstanceAs (Decidable (_ ≤ _))

def overlong (path : String) : Error := .invalid path (.tooManyKeys (keysOf path).length)

def writesOf (entries : Members Tree) : List Write := entries.map fun entry => ⟨keysOf entry.1, entry.2⟩

def overlong? (entries : Members Tree) : Option String := (Members.keys entries).find? fun path => ¬ Fits path

theorem keys_ne_nil_of_mem_writesOf {entries : Members Tree} {w : Write} (h : w ∈ writesOf entries) :
    w.keys ≠ [] := by
  obtain ⟨entry, -, rfl⟩ := List.mem_map.1 h
  exact keysOf_ne_nil entry.1

theorem overlong?_eq_none {entries : Members Tree} :
    overlong? entries = none ↔ ∀ path ∈ Members.keys entries, Fits path := by
  simp [overlong?]

theorem exists_of_overlong?_eq_some {entries : Members Tree} {path : String} (h : overlong? entries = some path) :
    ∃ before after value, entries = before ++ (path, value) :: after ∧
      (∀ other ∈ Members.keys before, Fits other) ∧ ¬ Fits path := by
  obtain ⟨hpath, front, back, hkeys, hfront⟩ := List.find?_eq_some_iff_append.1 h
  obtain ⟨before, rest, rfl, rfl, hrest⟩ := List.map_eq_append_iff.1 hkeys
  obtain ⟨⟨_, value⟩, after, rfl, rfl, -⟩ := List.map_eq_cons_iff.1 hrest
  refine ⟨before, after, value, rfl, ?_, by simpa using hpath⟩
  intro other hother
  simpa using hfront other hother

/-- Among overrides in ascending order the first dot path with too many keys is the least one. -/
theorem le_of_overlong?_eq_some {entries : Members Tree} {path : String} (hkeys : entries.Ascending)
    (h : overlong? entries = some path) :
    path ∈ Members.keys entries ∧ ¬ Fits path ∧ ∀ other ∈ Members.keys entries, ¬ Fits other → path ≤ other := by
  obtain ⟨before, after, value, rfl, hbefore, hpath⟩ := exists_of_overlong?_eq_some h
  refine ⟨by simp [Members.keys], hpath, fun other hother hlong => ?_⟩
  simp only [Members.Ascending, Members.keys, List.map_append, List.map_cons, List.pairwise_append,
    List.pairwise_cons] at hkeys
  simp only [Members.keys, List.map_append, List.map_cons, List.mem_append, List.mem_cons] at hother
  rcases hother with hother | rfl | hother
  · exact absurd (hbefore other hother) hlong
  · exact String.le_refl other
  · exact Std.le_of_lt (hkeys.2.1.1 other hother)

theorem not_mem_takeWhile_ne (c : Char) (text : List Char) : c ∉ text.takeWhile (· ≠ c) := by
  intro hmem
  simpa using List.all_eq_true.1 List.all_takeWhile c hmem

theorem not_mem_of_splitFirst?_eq_none {path : List Char} (h : splitFirst? path = none) : '.' ∉ path := by
  rw [splitFirst?] at h
  split at h
  · next hdrop =>
    have hwhole := List.takeWhile_append_dropWhile (p := (· ≠ '.')) (l := path)
    rw [hdrop, List.append_nil] at hwhole
    rw [← hwhole]
    exact not_mem_takeWhile_ne '.' path
  · contradiction

theorem splitFirst?_eq_some {path key rest : List Char} (h : splitFirst? path = some (key, rest)) :
    path = key ++ '.' :: rest ∧ '.' ∉ key := by
  rw [splitFirst?] at h
  split at h
  · contradiction
  · next c rest' hdrop =>
    simp only [Option.some.injEq, Prod.mk.injEq] at h
    obtain ⟨rfl, rfl⟩ := h
    have hdot : c = '.' := by
      have hhead := List.head?_dropWhile_not (· ≠ '.') path
      rw [hdrop] at hhead
      simpa using hhead
    have hwhole := List.takeWhile_append_dropWhile (p := (· ≠ '.')) (l := path)
    rw [hdrop, hdot] at hwhole
    exact ⟨hwhole.symm, not_mem_takeWhile_ne '.' path⟩

namespace Properties

/-- Keys that are taken off a path one after another are those between its dots. -/
theorem writeAlong_eq (value : Tree) (path : List Char) (properties : Properties) :
    properties.writeAlong value path = properties.write value ((path.splitOn '.').map String.ofList) := by
  fun_induction writeAlong value path properties with
  | case1 path properties hsplit =>
      rw [List.splitOn_eq_singleton (not_mem_of_splitFirst?_eq_none hsplit)]
      rfl
  | case2 path properties key rest hsplit name ih =>
      obtain ⟨rfl, hkey⟩ := splitFirst?_eq_some hsplit
      have hne : (rest.splitOn '.').map String.ofList ≠ [] := by simp [List.splitOn_ne_nil]
      rw [List.splitOn_append_cons_self_of_not_mem hkey, List.map_cons, write_cons hne, ih]

theorem override_of_fits {path : String} (h : Fits path) (value : Tree) (properties : Properties) :
    properties.override path value = .ok (properties.write value (keysOf path)) := by
  rw [keysOf, ← writeAlong_eq]
  exact if_pos h

theorem override_of_not_fits {path : String} (h : ¬ Fits path) (value : Tree) (properties : Properties) :
    properties.override path value = .error (overlong path) :=
  if_neg h

theorem overrideAll_of_fits {entries : Members Tree} (h : ∀ path ∈ Members.keys entries, Fits path)
    (properties : Properties) :
    properties.overrideAll entries =
      ⟨properties.writeAll (writesOf entries), (Members.keys entries).map .applying, none⟩ := by
  induction entries generalizing properties with
  | nil => rfl
  | cons entry entries ih =>
      obtain ⟨path, value⟩ := entry
      have hentry : Fits path := h path (by simp [Members.keys])
      have hentries : ∀ other ∈ Members.keys entries, Fits other := fun other hother =>
        h other (List.mem_cons_of_mem path hother)
      rw [overrideAll, override_of_fits hentry]
      simp only [ih hentries, Applied.after]
      rfl

theorem overrideAll_of_overlong {before after : Members Tree} {path : String}
    (hbefore : ∀ other ∈ Members.keys before, Fits other) (h : ¬ Fits path) (value : Tree)
    (properties : Properties) :
    properties.overrideAll (before ++ (path, value) :: after) =
      ⟨properties.writeAll (writesOf before), (Members.keys before).map .applying ++ [.applying path],
        some (overlong path)⟩ := by
  induction before generalizing properties with
  | nil => rw [List.nil_append, overrideAll, override_of_not_fits h]; rfl
  | cons entry before ih =>
      obtain ⟨other, found⟩ := entry
      have hentry : Fits other := hbefore other (by simp [Members.keys])
      have hrest : ∀ other ∈ Members.keys before, Fits other := fun name hname =>
        hbefore name (List.mem_cons_of_mem other hname)
      rw [List.cons_append, overrideAll, override_of_fits hentry]
      simp only [ih hrest, Applied.after]
      rfl

theorem fault_overrideAll (entries : Members Tree) (properties : Properties) :
    (properties.overrideAll entries).fault = (overlong? entries).map overlong := by
  cases hfind : overlong? entries with
  | none => rw [overrideAll_of_fits (overlong?_eq_none.1 hfind)]; rfl
  | some path =>
      obtain ⟨before, after, value, rfl, hbefore, hpath⟩ := exists_of_overlong?_eq_some hfind
      rw [overrideAll_of_overlong hbefore hpath]
      rfl

end Properties

end Groupwise
