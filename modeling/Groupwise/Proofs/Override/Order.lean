import Groupwise.Proofs.Override
import Groupwise.Proofs.Rearrange
import Groupwise.Proofs.Tree.Overwrite

namespace Groupwise

theorem intercalate_isPrefix {α : Type} (gap : List α) {parts whole : List (List α)} (h : parts <+: whole) :
    gap.intercalate parts <+: gap.intercalate whole := by
  induction parts generalizing whole with
  | nil => exact List.nil_prefix
  | cons part parts ih =>
      obtain ⟨more, rfl⟩ := h
      by_cases hparts : parts = []
      · subst hparts
        cases more with
        | nil => exact List.prefix_rfl
        | cons next more =>
            rw [List.intercalate_singleton, List.cons_append, List.nil_append, List.intercalate_cons_cons,
              List.append_assoc]
            exact List.prefix_append _ _
      · have hmore : parts ++ more ≠ [] := List.append_ne_nil_of_left_ne_nil hparts more
        rw [List.cons_append, List.intercalate_cons_of_ne_nil hparts, List.intercalate_cons_of_ne_nil hmore]
        exact (List.prefix_append_right_inj _).2 (ih ⟨more, rfl⟩)

section keysOf

variable {path other : String}

theorem intercalate_keysOf (path : String) : ['.'].intercalate ((keysOf path).map String.toList) = path.toList := by
  have hparts : (keysOf path).map String.toList = path.toList.splitOn '.' := by
    simp [keysOf, Function.comp_def]
  rw [hparts, List.intercalate_splitOn]

theorem toList_isPrefix (h : keysOf path <+: keysOf other) : path.toList <+: other.toList := by
  rw [← intercalate_keysOf path, ← intercalate_keysOf other]
  exact intercalate_isPrefix ['.'] (h.map String.toList)

theorem eq_of_keysOf_eq (h : keysOf path = keysOf other) : path = other := by
  apply String.toList_inj.1
  rw [← intercalate_keysOf path, ← intercalate_keysOf other, h]

/-- A path comes before the paths that go on from it, whatever characters are less than a dot. -/
theorem lt_of_keysOf_isPrefix (hne : path ≠ other) (h : keysOf path <+: keysOf other) : path < other := by
  have hnot : ¬ other < path := by
    rw [String.lt_iff]
    exact (toList_isPrefix h).le
  exact Std.lt_of_le_of_ne (Std.not_lt.1 hnot) hne

theorem keysOf_ne_of_lt (h : path < other) : keysOf path ≠ keysOf other := fun heq =>
  String.lt_irrefl other (eq_of_keysOf_eq heq ▸ h)

theorem not_through_of_lt (h : path < other) : ¬ Through (keysOf other) (keysOf path) := by
  intro hthrough
  have hne : other ≠ path := fun heq => hthrough.2 (congrArg keysOf heq)
  exact String.lt_asymm h (lt_of_keysOf_isPrefix hne hthrough.1)

end keysOf

variable {entries order : Members Tree}

theorem Members.Ascending.pairwise {α : Type} {entries : Members α} (h : entries.Ascending) :
    entries.Pairwise fun earlier later => earlier.1 < later.1 :=
  List.pairwise_map.1 h

def AncestorsFirst (entries : Members Tree) : Prop :=
  entries.Pairwise fun earlier later => ¬ Through (keysOf later.1) (keysOf earlier.1)

instance (entries : Members Tree) : Decidable (AncestorsFirst entries) :=
  inferInstanceAs (Decidable (List.Pairwise _ entries))

theorem ancestorsFirst_of_ascending (h : entries.Ascending) : AncestorsFirst entries :=
  h.pairwise.imp not_through_of_lt

theorem ancestorsFirst_of_perm (hperm : order.Perm entries)
    (h : ∀ path ∈ Members.keys entries, ∀ other ∈ Members.keys entries, path ≠ other → ¬ keysOf path <+: keysOf other) :
    AncestorsFirst order := by
  apply List.pairwise_of_forall_mem_list
  intro earlier hearlier later hlater hthrough
  have hne : later.1 ≠ earlier.1 := fun heq => hthrough.2 (congrArg keysOf heq)
  have hkey : ∀ entry ∈ order, entry.1 ∈ Members.keys entries := fun entry hentry =>
    List.mem_map_of_mem (hperm.mem_iff.1 hentry)
  exact h later.1 (hkey later hlater) earlier.1 (hkey earlier hearlier) hne hthrough.1

theorem lt_or_apart_of_ancestorsFirst (hkeys : entries.Ascending) (hperm : order.Perm entries)
    (hfirst : AncestorsFirst order) :
    order.Pairwise fun earlier later => earlier.1 < later.1 ∨ Apart (keysOf later.1) (keysOf earlier.1) := by
  have hentries : entries.Pairwise fun earlier later => earlier.1 ≠ later.1 := by
    apply hkeys.pairwise.imp
    intro earlier later hlt heq
    exact String.lt_irrefl later.1 (heq ▸ hlt)
  have hdistinct : order.Pairwise fun earlier later => earlier.1 ≠ later.1 :=
    hperm.symm.pairwise hentries Ne.symm
  apply (hdistinct.and hfirst).imp
  rintro earlier later ⟨hne, hthrough⟩
  by_cases hback : keysOf later.1 <+: keysOf earlier.1
  · exact absurd ⟨hback, fun heq => hne (eq_of_keysOf_eq heq).symm⟩ hthrough
  · by_cases hon : keysOf earlier.1 <+: keysOf later.1
    · exact .inl (lt_of_keysOf_isPrefix hne hon)
    · exact .inr ⟨hback, hon⟩

namespace Properties

def overrideEach (entries : Members Tree) (properties : Properties) : Except Error Properties :=
  entries.foldlM (fun properties entry => properties.override entry.1 entry.2) properties

theorem overrideEach_eq (entries : Members Tree) (properties : Properties) :
    properties.overrideEach entries =
      match (properties.overrideAll entries).fault with
      | none => .ok (properties.overrideAll entries).properties
      | some fault => .error fault := by
  induction entries generalizing properties with
  | nil => rfl
  | cons entry entries ih =>
      obtain ⟨path, value⟩ := entry
      rw [overrideEach, List.foldlM_cons, overrideAll]
      cases properties.override path value with
      | error fault => rfl
      | ok properties => exact ih properties

theorem writeAll_writesOf (entries : Members Tree) (properties : Properties) :
    properties.writeAll (writesOf entries) =
      entries.foldl (fun properties entry => properties.write entry.2 (keysOf entry.1)) properties :=
  List.foldl_map

theorem writeAll_writesOf_of_perm (hkeys : entries.Ascending) (hperm : order.Perm entries)
    (hfirst : AncestorsFirst order) (properties : Properties) :
    properties.writeAll (writesOf order) = properties.writeAll (writesOf entries) := by
  rw [writeAll_writesOf, writeAll_writesOf]
  apply foldl_eq_of_perm (fun _ _ => String.lt_asymm) hkeys.pairwise hperm
  apply (lt_or_apart_of_ancestorsFirst hkeys hperm hfirst).imp
  intro earlier later h
  exact h.imp_right fun hapart properties => write_write_of_apart hapart _ _ properties

/-- Where no longer path leads, no later entry writes: the paths of later entries lead away or go on. -/
theorem apart_of_mem_writesOf {before after : Members Tree} {path : String} {value : Tree} {place : List String}
    (hkeys : Members.Ascending (before ++ (path, value) :: after)) (hplace : keysOf path <+: place)
    (hlonger : ∀ other ∈ Members.keys after, Through (keysOf path) (keysOf other) → Apart (keysOf other) place)
    {w : Write} (hw : w ∈ writesOf after) : Apart w.keys place := by
  obtain ⟨entry, hentry, rfl⟩ := List.mem_map.1 hw
  have hlt : path < entry.1 :=
    (List.pairwise_cons.1 (List.pairwise_append.1 hkeys.pairwise).2.1).1 entry hentry
  by_cases hon : keysOf path <+: keysOf entry.1
  · exact hlonger entry.1 (List.mem_map_of_mem hentry) ⟨hon, keysOf_ne_of_lt hlt⟩
  · constructor
    · intro hreach
      -- Both lead to `place`, so one of them goes on from the other, and it cannot be the greater one.
      have hback : keysOf entry.1 <+: keysOf path :=
        (List.prefix_or_prefix_of_prefix hplace hreach).resolve_left hon
      exact not_through_of_lt hlt ⟨hback, (keysOf_ne_of_lt hlt).symm⟩
    · intro henter
      exact hon (hplace.trans henter)

theorem lookup_writeAll_writesOf (hkeys : entries.Ascending) {path : String} {value : Tree} {place : List String}
    (hmem : (path, value) ∈ entries) (hplace : keysOf path <+: place)
    (hlonger : ∀ other ∈ Members.keys entries, Through (keysOf path) (keysOf other) → Apart (keysOf other) place)
    (properties : Properties) :
    lookup place (properties.writeAll (writesOf entries)) = value.lookup (place.drop (keysOf path).length) := by
  obtain ⟨before, after, rfl⟩ := List.append_of_mem hmem
  have hafter : ∀ other ∈ Members.keys after, other ∈ Members.keys (before ++ (path, value) :: after) := by
    intro other hother
    simp only [Members.keys, List.map_append, List.map_cons, List.mem_append, List.mem_cons]
    exact .inr (.inr hother)
  have hapart : ∀ w ∈ writesOf after, Apart w.keys place := fun w hw =>
    apart_of_mem_writesOf hkeys hplace (fun other hother => hlonger other (hafter other hother)) hw
  have hlast : Write.IsLast (writesOf (before ++ (path, value) :: after)) place ⟨keysOf path, value⟩ (writesOf after) := by
    refine ⟨⟨writesOf before, by simp [writesOf]⟩, hplace, ?_⟩
    rintro ⟨w, hw, hreach⟩
    exact (hapart w hw).1 hreach
  have hentered : ¬ Write.Entered (writesOf after) place := by
    rintro ⟨w, hw, hthrough⟩
    exact (hapart w hw).2 hthrough.1
  exact (lastWins_writeAll (fun w hw => keys_ne_nil_of_mem_writesOf hw) properties).value hlast hentered

/--
Overrides are applied in ascending order of their paths, and any other order in which no path stands before one that
it goes on from has the same result: every order, if no path goes on from another. The longer of two paths is always
written on top of the shorter one.
-/
theorem overrideAll_eq_overrideEach (hkeys : entries.Ascending)
    (hfits : ∀ path ∈ Members.keys entries, (keysOf path).length ≤ 64) (properties : Properties) :
    ∃ result, properties.overrideAll entries = ⟨result, (Members.keys entries).map .applying, none⟩ ∧
      (∀ order : Members Tree, order.Perm entries → AncestorsFirst order → properties.overrideEach order = .ok result) ∧
      ((∀ path ∈ Members.keys entries, ∀ other ∈ Members.keys entries, path ≠ other →
          ¬ keysOf path <+: keysOf other) →
        ∀ order : Members Tree, order.Perm entries → properties.overrideEach order = .ok result) ∧
      AncestorsFirst entries ∧
      (∀ path value place, (path, value) ∈ entries → keysOf path <+: place →
        (∀ other ∈ Members.keys entries, Through (keysOf path) (keysOf other) → Apart (keysOf other) place) →
        result.lookup place = value.lookup (place.drop (keysOf path).length)) := by
  have hany : ∀ order : Members Tree, order.Perm entries → AncestorsFirst order →
      properties.overrideEach order = .ok (properties.writeAll (writesOf entries)) := by
    intro order hperm hfirst
    have hfits' : ∀ path ∈ Members.keys order, Fits path := fun path hpath =>
      hfits path ((hperm.map Prod.fst).mem_iff.1 hpath)
    rw [overrideEach_eq, overrideAll_of_fits hfits', writeAll_writesOf_of_perm hkeys hperm hfirst]
  refine ⟨_, overrideAll_of_fits hfits properties, hany, ?_, ancestorsFirst_of_ascending hkeys, ?_⟩
  · intro hnone order hperm
    exact hany order hperm (ancestorsFirst_of_perm hperm hnone)
  · intro path value place hmem hplace hlonger
    exact lookup_writeAll_writesOf hkeys hmem hplace hlonger properties

theorem overrideAll_eq_overrideEach_between :
    let entries : Members Tree := [("a", .number (.integer 1)), ("a!", .number (.integer 2)),
      ("a-b", .number (.integer 3)), ("a.b", .number (.integer 4)), ("a.b.c", .number (.integer 5))]
    let order : Members Tree := [("a", .number (.integer 1)), ("a.b", .number (.integer 4)),
      ("a.b.c", .number (.integer 5)), ("a-b", .number (.integer 3)), ("a!", .number (.integer 2))]
    let properties : Properties := [("a", .object [("x", .null)]), ("b", .bool true)]
    ∃ result, properties.overrideAll entries = ⟨result, (Members.keys entries).map .applying, none⟩ ∧
      properties.overrideEach order = .ok result ∧ result.lookup ["a", "b", "c"] = some (.number (.integer 5)) := by
  intro entries order properties
  have hkeys : entries.Ascending := by decide
  have hfits : ∀ path ∈ Members.keys entries, (keysOf path).length ≤ 64 := by decide +kernel
  obtain ⟨result, hresult, hany, -, -, hvalue⟩ := overrideAll_eq_overrideEach hkeys hfits properties
  have hfirst : AncestorsFirst order := by decide +kernel
  refine ⟨result, hresult, hany order (by decide) hfirst, ?_⟩
  exact hvalue "a.b.c" (.number (.integer 5)) ["a", "b", "c"] (by decide) (by decide +kernel) (by decide +kernel)

end Properties

end Groupwise
