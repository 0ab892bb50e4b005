import Groupwise.Proofs.Config.RoundTrip
import Groupwise.Proofs.Resolve.LastWrite
import Groupwise.Proofs.Tree.Nesting

namespace Groupwise

variable {groups : Groups} {config : Config} {w : Write}

namespace Config

theorem exists_of_mem_writes (h : w ∈ config.writes groups) :
    ∃ rule ∈ config.rules, rule.Holds groups ∧ ∃ entry ∈ rule.overrides, w = ⟨keysOf entry.1, entry.2⟩ := by
  obtain ⟨rule, hrule, hw⟩ := List.mem_flatMap.1 h
  exact ⟨rule, hrule, Rule.exists_entry_of_mem_writes hw⟩

theorem length_of_mem_writes (hfault : config.rules.findSome? (·.fault? groups) = none)
    (hw : w ∈ config.writes groups) : w.keys.length ≤ maxKeys := by
  obtain ⟨rule, hrule, hholds, entry, hentry, rfl⟩ := exists_of_mem_writes hw
  have hrulefault : rule.fault? groups = none := List.findSome?_eq_none_iff.1 hfault rule hrule
  exact Rule.fits_of_holds hrulefault hholds entry.1 (List.mem_map_of_mem hentry)

/-- The values of overrides stand in four arrays and objects: the configuration, its rules, a rule, and its overrides. -/
theorem within_of_mem_writes {levels : Nat} (h : config.Within levels) (hw : w ∈ config.writes groups) :
    w.value.Within (levels - 2 - 2) := by
  obtain ⟨rule, hrule, -, entry, hentry, rfl⟩ := exists_of_mem_writes hw
  exact (h.rules rule hrule).values entry hentry

end Config

theorem exists_of_resolve_json {text : String} {names : List String} {result : Properties}
    (h : (resolve text names .json).outcome = .ok result) :
    ∃ defaults writes, result = Properties.writeAll writes defaults ∧ (Tree.object defaults).Within 126 ∧
      ∀ w ∈ writes, w.keys.length ≤ 64 ∧ w.value.Within 123 := by
  cases hparse : Config.parse .json text with
  | error fault => simp [resolve_of_unread hparse] at h
  | ok config =>
      rw [resolve_of_parse hparse] at h
      obtain ⟨defaults, hdefaults, hfault, rfl⟩ := Config.outcome_resolve_eq_ok.1 h
      have hwithin : config.Within Json.maxLevels := Config.exists_parse_json_iff.1 ⟨text, hparse⟩
      refine ⟨defaults, config.writes (Groups.ofList names), rfl, ?_, fun w hw => ⟨?_, ?_⟩⟩
      · exact hwithin.defaults _ (Config.defaults_of_properties hdefaults)
      · exact Config.length_of_mem_writes hfault hw
      · exact Config.within_of_mem_writes hwithin hw

theorem nesting_le_of_resolve_json {text : String} {names : List String} {result : Properties}
    (h : (resolve text names .json).outcome = .ok result) : (Tree.object result).nesting ≤ 187 := by
  obtain ⟨defaults, writes, rfl, hdefaults, hwrites⟩ := exists_of_resolve_json h
  apply Properties.nesting_writeAll_le (Nat.le_trans hdefaults.nesting_le (by decide))
  intro w hw
  obtain ⟨hkeys, hvalue⟩ := hwrites w hw
  exact Nat.add_le_add hkeys hvalue.nesting_le

theorem valid_of_resolve_json {text : String} {names : List String} {result : Properties}
    (h : (resolve text names .json).outcome = .ok result) : (Tree.object result).Valid := by
  obtain ⟨defaults, writes, rfl, hdefaults, hwrites⟩ := exists_of_resolve_json h
  apply Tree.valid_object.2
  exact Properties.valid_writeAll (Tree.valid_object.1 hdefaults.valid) fun w hw => (hwrites w hw).2.valid

def Config.single (path : String) (value : Tree) : Config :=
  ⟨[⟨[], ["g"], [], none, [(path, value)]⟩], some (.object [])⟩

def Tree.boxed : Nat → Tree
  | 0 => .null
  | n + 1 => .array [boxed n]

def emptyKeys (n : Nat) : String := String.ofList (List.replicate n '.')

theorem Tree.within_boxed (n : Nat) : (boxed n).Within n := by
  induction n with
  | zero => exact .null 0
  | succ n ih => exact .array (by simpa using ih)

theorem Tree.nesting_boxed (n : Nat) : (boxed n).nesting = n := by
  induction n with
  | zero => rfl
  | succ n ih => simp [boxed, nesting, nestingOfItems, ih]

theorem length_keysOf_emptyKeys (n : Nat) : (keysOf (emptyKeys n)).length = n + 1 := by
  rw [keysOf, emptyKeys, List.length_map, String.toList_ofList]
  induction n with
  | zero => rfl
  | succ n ih =>
      rw [List.replicate_succ, ← List.nil_append ('.' :: _), List.splitOn_append_cons_self_of_not_mem (by simp),
        List.length_cons, ih]

theorem Config.within_single {path : String} {value : Tree} (h : value.Within 123) :
    (single path value).Within Json.maxLevels := by
  refine ⟨?_, ?_, ?_⟩
  · intro rule hrule
    obtain rfl := List.mem_singleton.1 hrule
    exact .insert path .nil h
  · rintro t ⟨⟩
    exact .object Members.ascending_nil (by simp)
  · rintro t ⟨⟩
    simp

theorem outcome_resolve_single {path : String} {value : Tree} (hpath : Fits path) (hvalue : value.Within 123) :
    (resolve (Config.single path value).toJson ["g"] .json).outcome =
      .ok (Properties.write value (keysOf path) []) := by
  have hparse : Config.parse .json (Config.single path value).toJson = .ok (Config.single path value) :=
    Config.parse_json_eq_ok.2 (Config.ofJson_toJson (Config.within_single hvalue))
  have hcriterion : ∀ overrides, Rule.criterion? ⟨[], ["g"], [], none, overrides⟩ (Groups.ofList ["g"]) =
      .ok (some .anyGroup) := fun _ => rfl
  have hfits : overlong? [(path, value)] = none := overlong?_eq_none.2 (by simpa [Members.keys] using hpath)
  rw [resolve_of_parse hparse]
  refine Config.outcome_resolve_eq_ok.2 ⟨[], rfl, ?_, ?_⟩
  · simp [Config.single, Rule.fault?, hcriterion, hfits]
  · simp [Config.single, Config.writes, Rule.writes, hcriterion, writesOf, Properties.writeAll]

/-- The limit to the keys of a path is used up, with a value of any depth that can be written down. -/
theorem exists_resolve_deep {levels : Nat} (h : levels ≤ 123) :
    ∃ text names result path value, (resolve text names .json).outcome = .ok result ∧ (keysOf path).length = 64 ∧
      value.nesting = levels ∧ Properties.lookup (keysOf path) result = some value := by
  have hlength : (keysOf (emptyKeys 63)).length = 64 := length_keysOf_emptyKeys 63
  have hwithin : (Tree.boxed levels).Within 123 := (Tree.within_boxed levels).of_nesting_le (by rwa [Tree.nesting_boxed])
  have hresolve := outcome_resolve_single hlength.le hwithin
  refine ⟨_, _, _, emptyKeys 63, _, hresolve, hlength, Tree.nesting_boxed levels, ?_⟩
  exact Properties.lookup_write_self (keysOf_ne_nil _) _ []

/--
An override makes nothing deeper than it was, unless its own keys and value are deeper. So the keys of different
overrides do not add up, and properties that are resolved have at most 187 levels: those of 64 keys and of a value.
-/
theorem nesting_resolve_le :
    (∀ path value properties, (keysOf path).length ≤ 64 →
      ∃ after, Properties.override path value properties = .ok after ∧
        (Tree.object after).nesting ≤ max (Tree.object properties).nesting ((keysOf path).length + value.nesting)) ∧
    (∀ text names result, (resolve text names .json).outcome = .ok result → (Tree.object result).nesting ≤ 187) ∧
    (∃ text names result, (resolve text names .json).outcome = .ok result ∧ (Tree.object result).nesting = 187) := by
  refine ⟨?_, fun _ _ _ => nesting_le_of_resolve_json, ?_⟩
  · intro path value properties hpath
    refine ⟨_, Properties.override_of_fits hpath value properties, ?_⟩
    exact Properties.nesting_write_le (Nat.le_max_left _ _) (Nat.le_max_right _ _)
  · obtain ⟨text, names, result, path, value, hresolve, hlength, hvalue, hlookup⟩ := exists_resolve_deep Nat.le.refl
    have hdeep := Tree.nesting_lookup_le hlookup
    rw [hlength, hvalue] at hdeep
    exact ⟨text, names, result, hresolve, Nat.le_antisymm (nesting_le_of_resolve_json hresolve) hdeep⟩

set_option maxRecDepth 8000 in
theorem nesting_resolve_le_through :
    let text := "\x7b\"default-properties\": \x7b\"a\": [[[[[]]]]]\x7d, \"override-rules\": [" ++
      "\x7b\"user-is-in-any-group\": [\"g\"], \"override\": \x7b\"a.b\": \x7b\"c\": [\x7b\x7d]\x7d\x7d\x7d, " ++
      "\x7b\"user-is-in-any-group\": [\"g\"], \"override\": \x7b\"a.b.d\": []\x7d\x7d]\x7d"
    let result : Properties := [("a", .object [("b", .object [("c", .array [.object []]), ("d", .array [])])])]
    (resolve text ["g"] .json).outcome = .ok result ∧ (Tree.object result).nesting = 5 ∧
      (Tree.object result).nesting ≤ 187 := by
  intro text result
  have h : (resolve text ["g"] .json).outcome = .ok result := Outcome.eq_ok_of_toOption (by decide +kernel)
  exact ⟨h, by decide, nesting_resolve_le.2.1 text ["g"] result h⟩

end Groupwise
