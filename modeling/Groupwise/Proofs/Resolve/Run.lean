import Groupwise.Proofs.Override
import Groupwise.Resolve

namespace Groupwise

namespace Rule

def Holds (groups : Groups) (rule : Rule) : Prop := ∃ criterion, rule.criterion? groups = .ok (some criterion)

instance (groups : Groups) (rule : Rule) : Decidable (rule.Holds groups) :=
  match h : rule.criterion? groups with
  | .ok (some criterion) => .isTrue ⟨criterion, h⟩
  | .ok none => .isFalse (by simp [Holds, h])
  | .error _ => .isFalse (by simp [Holds, h])

def writes (groups : Groups) (rule : Rule) : List Write :=
  match rule.criterion? groups with
  | .ok (some _) => writesOf rule.overrides
  | _ => []

def fault? (groups : Groups) (rule : Rule) : Option Error :=
  match rule.criterion? groups with
  | .error bad => some (.expression bad.expression bad.cause)
  | .ok none => none
  | .ok (some _) => (overlong? rule.overrides).map overlong

def block (groups : Groups) (index : Nat) (rule : Rule) : List Event :=
  match rule.criterion? groups with
  | .ok (some criterion) =>
    .matched index criterion rule.overrides.length :: (Members.keys rule.overrides).map .applying
  | _ => [.unmatched index]

variable {groups : Groups} {rule : Rule}

theorem exists_entry_of_mem_writes {w : Write} (h : w ∈ rule.writes groups) :
    rule.Holds groups ∧ ∃ entry ∈ rule.overrides, w = ⟨keysOf entry.1, entry.2⟩ := by
  rw [writes] at h
  split at h
  · next criterion hcriterion =>
    obtain ⟨entry, hentry, rfl⟩ := List.mem_map.1 h
    exact ⟨⟨criterion, hcriterion⟩, entry, hentry, rfl⟩
  · contradiction

theorem exists_of_mem_writes {w : Write} (h : w ∈ rule.writes groups) :
    rule.Holds groups ∧ ∃ path ∈ Members.keys rule.overrides, w.keys = keysOf path := by
  obtain ⟨hholds, entry, hentry, rfl⟩ := exists_entry_of_mem_writes h
  exact ⟨hholds, entry.1, List.mem_map_of_mem hentry, rfl⟩

theorem fits_of_holds (hfault : rule.fault? groups = none) (hholds : rule.Holds groups) :
    ∀ path ∈ Members.keys rule.overrides, Fits path := by
  obtain ⟨criterion, hcriterion⟩ := hholds
  exact overlong?_eq_none.1 (by simpa [fault?, hcriterion] using hfault)

theorem keys_ne_nil_of_mem_writes {w : Write} (h : w ∈ rule.writes groups) : w.keys ≠ [] := by
  obtain ⟨-, path, -, hkeys⟩ := exists_of_mem_writes h
  rw [hkeys]
  exact keysOf_ne_nil path

end Rule

variable {groups : Groups} {rule : Rule} {rules : List Rule} {index : Nat} {properties : Properties}

@[simp] theorem Applied.fault_after (log : List Event) (applied : Applied) :
    (applied.after log).fault = applied.fault := rfl

@[simp] theorem Applied.properties_after (log : List Event) (applied : Applied) :
    (applied.after log).properties = applied.properties := rfl

theorem applyRules_cons_of_none (h : rule.fault? groups = none) :
    applyRules groups index (rule :: rules) properties =
      (applyRules groups (index + 1) rules (properties.writeAll (rule.writes groups))).after
        (rule.block groups index) := by
  rw [applyRules]
  cases hcriterion : rule.criterion? groups with
  | error bad => simp [Rule.fault?, hcriterion] at h
  | ok found =>
      cases found with
      | none => simp only [Rule.writes, Rule.block, hcriterion]; rfl
      | some criterion =>
          have hfits : overlong? rule.overrides = none := by simpa [Rule.fault?, hcriterion] using h
          simp only [Rule.writes, Rule.block, hcriterion,
            Properties.overrideAll_of_fits (overlong?_eq_none.1 hfits)]

theorem fault_applyRules_cons_of_some {fault : Error} (h : rule.fault? groups = some fault) :
    (applyRules groups index (rule :: rules) properties).fault = some fault := by
  rw [applyRules]
  cases hcriterion : rule.criterion? groups with
  | error bad => simpa [Rule.fault?, hcriterion] using h
  | ok found =>
      cases found with
      | none => simp [Rule.fault?, hcriterion] at h
      | some criterion =>
          have hfault : (properties.overrideAll rule.overrides).fault = some fault := by
            rw [Properties.fault_overrideAll]
            simpa [Rule.fault?, hcriterion] using h
          simp only [hfault]

/-- The first rule with an error ends the run. Which one that is has nothing to do with the properties. -/
theorem fault_applyRules (groups : Groups) (index : Nat) (rules : List Rule) (properties : Properties) :
    (applyRules groups index rules properties).fault = rules.findSome? (·.fault? groups) := by
  induction rules generalizing index properties with
  | nil => rfl
  | cons rule rules ih =>
      cases h : rule.fault? groups with
      | none => rw [applyRules_cons_of_none h, Applied.fault_after, ih, List.findSome?_cons, h]
      | some fault => rw [fault_applyRules_cons_of_some h, List.findSome?_cons, h]

theorem properties_applyRules (h : rules.findSome? (·.fault? groups) = none) (index : Nat)
    (properties : Properties) :
    (applyRules groups index rules properties).properties = properties.writeAll (rules.flatMap (·.writes groups)) := by
  induction rules generalizing index properties with
  | nil => rfl
  | cons rule rules ih =>
      rw [List.findSome?_cons] at h
      cases hrule : rule.fault? groups with
      | some fault => simp [hrule] at h
      | none =>
          rw [applyRules_cons_of_none hrule, Applied.properties_after, ih (by simpa [hrule] using h),
            List.flatMap_cons, Properties.writeAll_append]

namespace Config

def writes (groups : Groups) (config : Config) : List Write := config.rules.flatMap (·.writes groups)

theorem keys_ne_nil_of_mem_writes {config : Config} {w : Write} (h : w ∈ config.writes groups) : w.keys ≠ [] := by
  obtain ⟨rule, -, hw⟩ := List.mem_flatMap.1 h
  exact Rule.keys_ne_nil_of_mem_writes hw

/-- The outcome is the error of the first rule that has one, or else what the writes make of the defaults. -/
theorem outcome_resolve {config : Config} (groups : Groups) (format : Format)
    (h : config.properties = .ok properties) :
    (config.resolve groups format).outcome =
      match config.rules.findSome? (·.fault? groups) with
      | some fault => .error fault
      | none => .ok (properties.writeAll (config.writes groups)) := by
  rw [resolve]
  simp only [h, fault_applyRules]
  cases hfault : config.rules.findSome? (·.fault? groups) with
  | some fault => rfl
  | none => simp only [properties_applyRules hfault, writes]

theorem outcome_resolve_eq_ok {config : Config} {format : Format} {result : Properties} :
    (config.resolve groups format).outcome = .ok result ↔
      ∃ defaults, config.properties = .ok defaults ∧ config.rules.findSome? (·.fault? groups) = none ∧
        defaults.writeAll (config.writes groups) = result := by
  cases hdefaults : config.properties with
  | error fault => simp [resolve, hdefaults]
  | ok defaults =>
      rw [outcome_resolve groups format hdefaults]
      cases config.rules.findSome? (·.fault? groups) <;> simp

theorem outcome_resolve_of_error {config : Config} {fault : Error} (groups : Groups) (format : Format)
    (h : config.properties = .error fault) : (config.resolve groups format).outcome = .error fault := by
  simp [resolve, h]

end Config

theorem resolve_of_parse {text : String} {names : List String} {format : Format} {config : Config}
    (h : Config.parse format text = .ok config) :
    resolve text names format = config.resolve (Groups.ofList names) format := by
  simp [resolve, h]

theorem resolve_of_unread {text : String} {names : List String} {format : Format} {fault : Error}
    (h : Config.parse format text = .error fault) : resolve text names format = ⟨[], .error fault⟩ := by
  simp [resolve, h]

end Groupwise
