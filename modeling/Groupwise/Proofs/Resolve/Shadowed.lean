import Groupwise.Proofs.Ensures
import Groupwise.Proofs.Resolve.Run
import Groupwise.Proofs.Tree.Overwrite

namespace Groupwise

def Members.remove {α : Type} (key : String) (members : Members α) : Members α := members.filter (·.1 ≠ key)

namespace Properties

open Write

theorem writeAll_remove {path : String} {later : List Write} (hkeys : ∀ w ∈ later, w.keys ≠ [])
    (h : Reached later (keysOf path)) (entries : Members Tree) (properties : Properties) :
    properties.writeAll (writesOf (entries.remove path) ++ later) = properties.writeAll (writesOf entries ++ later) := by
  induction entries generalizing properties with
  | nil => rfl
  | cons entry entries ih =>
      by_cases hpath : entry.1 = path
      · have hall : ∀ w ∈ writesOf entries ++ later, w.keys ≠ [] := by
          intro w hw
          rcases List.mem_append.1 hw with hw | hw
          · exact keys_ne_nil_of_mem_writesOf hw
          · exact hkeys w hw
        -- Entries that follow may go on from this one or lie above it. Either way `later` covers its path.
        have hreached : Reached (writesOf entries ++ later) (keysOf entry.1) := by
          obtain ⟨w, hw, hprefix⟩ := h
          exact ⟨w, List.mem_append_right _ hw, hpath ▸ hprefix⟩
        have hremove : Members.remove path (entry :: entries) = Members.remove path entries := by
          simp [Members.remove, hpath]
        rw [hremove, ih]
        exact (writeAll_cons_of_reached hall hreached properties).symm
      · have hremove : Members.remove path (entry :: entries) = entry :: Members.remove path entries := by
          simp [Members.remove, hpath]
        rw [hremove]
        exact ih _

end Properties

namespace Rule

variable {groups : Groups} {rule : Rule} {path : String}

def without (path : String) (rule : Rule) : Rule := { rule with overrides := rule.overrides.remove path }

/-- A rule holds and writes at a path or at one that leads there. -/
def Covers (groups : Groups) (path : String) (rule : Rule) : Prop :=
  rule.Holds groups ∧ ∃ other ∈ Members.keys rule.overrides, keysOf other <+: keysOf path

instance (groups : Groups) (path : String) (rule : Rule) : Decidable (rule.Covers groups path) :=
  inferInstanceAs (Decidable (_ ∧ _))

theorem criterion?_without (path : String) (rule : Rule) : (rule.without path).criterion? groups = rule.criterion? groups :=
  rfl

theorem fault?_without (h : rule.fault? groups = none) : (rule.without path).fault? groups = none := by
  rw [fault?, criterion?_without]
  cases hcriterion : rule.criterion? groups with
  | error bad => simp [fault?, hcriterion] at h
  | ok found =>
      cases found with
      | none => rfl
      | some criterion =>
          have hfits := fits_of_holds h ⟨criterion, hcriterion⟩
          have hrest : overlong? (rule.without path).overrides = none := by
            apply overlong?_eq_none.2
            intro other hother
            obtain ⟨entry, hentry, rfl⟩ := List.mem_map.1 hother
            exact hfits entry.1 (List.mem_map_of_mem (List.mem_filter.1 hentry).1)
          simp [hrest]

theorem reached_writes (h : rule.Covers groups path) : Write.Reached (rule.writes groups) (keysOf path) := by
  obtain ⟨⟨criterion, hcriterion⟩, other, hother, hprefix⟩ := h
  obtain ⟨entry, hentry, rfl⟩ := List.mem_map.1 hother
  refine ⟨⟨keysOf entry.1, entry.2⟩, ?_, hprefix⟩
  simp only [writes, hcriterion]
  exact List.mem_map_of_mem hentry

theorem writeAll_writes_without {later : List Write} (hkeys : ∀ w ∈ later, w.keys ≠ [])
    (h : Write.Reached later (keysOf path)) (rule : Rule) (properties : Properties) :
    properties.writeAll ((rule.without path).writes groups ++ later) = properties.writeAll (rule.writes groups ++ later) := by
  rw [writes, writes, criterion?_without]
  split
  · exact Properties.writeAll_remove hkeys h rule.overrides properties
  · rfl

end Rule

namespace Config

variable {groups : Groups}

/--
What a rule writes at a path is lost if a later rule that holds writes there or above. Nothing is left of it in the
properties, not even of the objects that were made for it on the way.
-/
theorem outcome_resolve_without {config : Config} {format : Format} {result : Properties} {before after : List Rule}
    {rule : Rule} {path : String} (h : (config.resolve groups format).outcome = .ok result)
    (hrules : config.rules = before ++ rule :: after) (hcovers : ∃ other ∈ after, other.Covers groups path) :
    ({ config with rules := before ++ rule.without path :: after }.resolve groups format).outcome = .ok result := by
  obtain ⟨defaults, hdefaults, hfault, rfl⟩ := outcome_resolve_eq_ok.1 h
  have hreached : Write.Reached (after.flatMap (·.writes groups)) (keysOf path) := by
    obtain ⟨other, hother, hcovers⟩ := hcovers
    obtain ⟨w, hw, hprefix⟩ := Rule.reached_writes hcovers
    exact ⟨w, List.mem_flatMap.2 ⟨other, hother, hw⟩, hprefix⟩
  have hkeys : ∀ w ∈ after.flatMap (·.writes groups), w.keys ≠ [] := by
    intro w hw
    obtain ⟨other, -, hw⟩ := List.mem_flatMap.1 hw
    exact Rule.keys_ne_nil_of_mem_writes hw
  refine outcome_resolve_eq_ok.2 ⟨defaults, hdefaults, ?_, ?_⟩
  · simp only [hrules, List.findSome?_eq_none_iff, List.forall_mem_append, List.forall_mem_cons] at hfault ⊢
    obtain ⟨hbefore, hrule, hafter⟩ := hfault
    exact ⟨hbefore, Rule.fault?_without hrule, hafter⟩
  · simp only [writes, hrules, List.flatMap_append, List.flatMap_cons]
    rw [Properties.writeAll_append (before.flatMap _), Rule.writeAll_writes_without hkeys hreached,
      ← Properties.writeAll_append]

theorem outcome_resolve_without_opened :
    let first : Rule := ⟨[], ["g"], [], none, [("x.y.z", .number (.integer 1)), ("u", .null)]⟩
    let second : Rule := ⟨["g"], [], [], none, [("x.y.z.w", .bool true), ("x.v", .bool false)]⟩
    let third : Rule := ⟨[], [], ["h"], none, [("x.y", .array [])]⟩
    let defaults : Option Tree := some (.object [("x", .string "s")])
    let groups := Groups.ofList ["g"]
    let result : Properties := [("u", .null), ("x", .object [("v", .bool false), ("y", .array [])])]
    (resolve ⟨[first, second, third], defaults⟩ groups .json).outcome = .ok result ∧
      (resolve ⟨[first.without "x.y.z", second, third], defaults⟩ groups .json).outcome = .ok result := by
  intro first second third defaults groups result
  have h : (resolve ⟨[first, second, third], defaults⟩ groups .json).outcome = .ok result :=
    Outcome.eq_ok_of_toOption (by decide +kernel)
  have hcovers : third.Covers groups "x.y.z" := by decide +kernel
  have hrules : [first, second, third] = [] ++ first :: [second, third] := rfl
  exact ⟨h, outcome_resolve_without h hrules ⟨third, by simp, hcovers⟩⟩

end Config

end Groupwise
