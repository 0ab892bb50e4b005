import Mathlib.Algebra.GroupWithZero.Nat
import Mathlib.Data.List.Dedup
import Groupwise.Proofs.Members
import Groupwise.Proofs.Resolve.Failure
import Groupwise.Proofs.Text.ByteOrder

namespace Groupwise

theorem Groups.size_ofList (names : List String) : (ofList names).size = names.dedup.length := by
  have hnodup : (ofList names).names.Nodup := (ofList names).ascending.imp String.ne_of_lt
  refine ((List.perm_ext_iff_of_nodup hnodup names.nodup_dedup).2 fun name => ?_).length_eq
  rw [List.mem_dedup, ← List.contains_iff_mem]
  exact contains_ofList

namespace Event

def isApplying : Event → Bool
  | .applying _ => true
  | _ => false

/-- Behind every rule that is said to hold, as many overrides are applied as it is said to have. -/
def Announced (log : List Event) : Prop :=
  ∀ index criterion count rest, .matched index criterion count :: rest <:+ log →
    (rest.takeWhile isApplying).length = count

def counts (name : String) (log : List Event) : List Nat :=
  (log.flatMap details).filterMap fun
    | (other, .count n) => if other = name then some n else none
    | _ => none

/--
Does again what a log says that was done. The values are those of the rule that was matched last. There is nothing
to do for a log that names a rule or a path that is not there.
-/
def replay (rules : List Rule) (current : Members Tree) : List Event → Properties → Option (Except Error Properties)
  | [], properties => some (.ok properties)
  | .matched index _ _ :: log, properties => do
    let rule ← rules[index]?
    replay rules rule.overrides log properties
  | .applying path :: log, properties => do
    let value ← Members.find? path current
    match properties.override path value with
    | .error fault => if log = [] then some (.error fault) else none
    | .ok properties => replay rules current log properties
  | .loaded _ :: log, properties | .resolving .. :: log, properties | .unmatched _ :: log, properties =>
    replay rules current log properties

end Event

namespace Rule

def blocks (groups : Groups) (index : Nat) (rules : List Rule) : List Event :=
  (rules.zipIdx index).flatMap fun entry => entry.1.block groups entry.2

end Rule

/--
What is logged about the rules of a run with some outcome. Either all rules are handled, or the log ends before the
rule with an expression that cannot be read, or at the first path of a rule that has too many keys.
-/
inductive Logged (groups : Groups) (rules : List Rule) (defaults : Properties) :
    List Event → Except Error Properties → Prop where
  | complete {result : Properties} (hgood : ∀ rule ∈ rules, ¬ rule.Bad groups)
      (hannounced : Event.Announced (Rule.blocks groups 0 rules))
      (hreplay : Event.replay rules [] (Rule.blocks groups 0 rules) defaults = some (.ok result)) :
      Logged groups rules defaults (Rule.blocks groups 0 rules) (.ok result)
  | expression {before after : List Rule} {rule : Rule} {bad : Rule.BadExpression} {reached : Properties}
      (hrules : rules = before ++ rule :: after) (hgood : ∀ earlier ∈ before, ¬ earlier.Bad groups)
      (hcriterion : rule.criterion? groups = .error bad)
      (hreplay : Event.replay rules [] (Rule.blocks groups 0 before) defaults = some (.ok reached)) :
      Logged groups rules defaults (Rule.blocks groups 0 before) (.error (.expression bad.expression bad.cause))
  | path {before after : List Rule} {rule : Rule} {criterion : Criterion} {front back : Members Tree} {path : String}
      {value : Tree} {log : List Event} {fault : Error}
      (hrules : rules = before ++ rule :: after) (hgood : ∀ earlier ∈ before, ¬ earlier.Bad groups)
      (hcriterion : rule.criterion? groups = .ok (some criterion))
      (hoverrides : rule.overrides = front ++ (path, value) :: back)
      (hfits : ∀ other ∈ front.keys, (keysOf other).length ≤ 64) (hlong : 64 < (keysOf path).length)
      (hlog : log = Rule.blocks groups 0 before ++ .matched before.length criterion rule.overrides.length ::
        (front.keys ++ [path]).map .applying)
      (hfault : fault = .invalid path (.tooManyKeys (keysOf path).length))
      (hreplay : Event.replay rules [] log defaults = some (.error fault)) :
      Logged groups rules defaults log (.error fault)

variable {groups : Groups} {rule : Rule} {rules before after : List Rule} {index : Nat} {log : List Event}
  {properties : Properties}

namespace Rule

theorem blocks_nil (groups : Groups) (index : Nat) : blocks groups index [] = [] := rfl

theorem blocks_cons (groups : Groups) (index : Nat) (rule : Rule) (rules : List Rule) :
    blocks groups index (rule :: rules) = rule.block groups index ++ blocks groups (index + 1) rules := by
  rw [blocks, List.zipIdx_cons, List.flatMap_cons, ← blocks]

theorem block_of_matched {criterion : Criterion} (h : rule.criterion? groups = .ok (some criterion)) (index : Nat) :
    rule.block groups index =
      .matched index criterion rule.overrides.length :: (Members.keys rule.overrides).map .applying := by
  rw [block, h]

theorem block_of_not_matched (h : ¬ rule.Holds groups) (index : Nat) : rule.block groups index = [.unmatched index] := by
  rw [block]
  split
  · next criterion hcriterion => exact absurd ⟨criterion, hcriterion⟩ h
  · rfl

theorem writes_of_matched {criterion : Criterion} (h : rule.criterion? groups = .ok (some criterion)) :
    rule.writes groups = writesOf rule.overrides := by
  rw [writes, h]

theorem writes_of_not_matched (h : ¬ rule.Holds groups) : rule.writes groups = [] := by
  rw [writes]
  split
  · next criterion hcriterion => exact absurd ⟨criterion, hcriterion⟩ h
  · rfl

theorem applyRules_append (h : ∀ earlier ∈ before, ¬ earlier.Bad groups) (index : Nat) (rest : List Rule)
    (properties : Properties) :
    applyRules groups index (before ++ rest) properties =
      (applyRules groups (index + before.length) rest (properties.writeAll (before.flatMap (·.writes groups)))).after
        (blocks groups index before) := by
  induction before generalizing index properties with
  | nil => rfl
  | cons rule before ih =>
      obtain ⟨hrule, hbefore⟩ := List.forall_mem_cons.1 h
      rw [List.cons_append, applyRules_cons_of_none (fault?_eq_none.2 hrule), ih hbefore, blocks_cons,
        List.flatMap_cons, Properties.writeAll_append, List.length_cons, Nat.add_comm before.length, ← Nat.add_assoc]
      simp [Applied.after]

theorem log_applyRules_of_overlong {criterion : Criterion} {front back : Members Tree} {path : String} {value : Tree}
    (hcriterion : rule.criterion? groups = .ok (some criterion)) (hoverrides : rule.overrides = front ++ (path, value) :: back)
    (hfits : ∀ other ∈ front.keys, Fits other) (hlong : ¬ Fits path) (index : Nat) (properties : Properties) :
    (applyRules groups index (rule :: rules) properties).log =
      .matched index criterion rule.overrides.length :: (front.keys ++ [path]).map .applying := by
  simp only [applyRules, hcriterion, hoverrides, Properties.overrideAll_of_overlong hfits hlong, List.map_append,
    List.map_singleton]

end Rule

namespace Event

theorem announced_cons {event : Event} :
    Announced (event :: log) ↔
      (∀ index criterion count, event = .matched index criterion count → (log.takeWhile isApplying).length = count) ∧
        Announced log := by
  simp only [Announced, List.suffix_cons_iff]
  constructor
  · intro h
    exact ⟨fun index criterion count heq => h index criterion count log (.inl (heq ▸ rfl)),
      fun index criterion count rest hrest => h index criterion count rest (.inr hrest)⟩
  · rintro ⟨hhead, hlog⟩ index criterion count rest (heq | hrest)
    · obtain ⟨rfl, rfl⟩ := List.cons.inj heq
      exact hhead index criterion count rfl
    · exact hlog index criterion count rest hrest

theorem announced_applying (paths : List String) (h : Announced log) :
    Announced (paths.map .applying ++ log) := by
  induction paths with
  | nil => exact h
  | cons path paths ih => exact announced_cons.2 ⟨by simp, ih⟩

theorem takeWhile_blocks (groups : Groups) (index : Nat) (rules : List Rule) :
    (Rule.blocks groups index rules).takeWhile isApplying = [] := by
  cases rules with
  | nil => rfl
  | cons rule rules =>
      rw [Rule.blocks_cons, Rule.block]
      split <;> rfl

theorem announced_blocks (groups : Groups) (index : Nat) (rules : List Rule) :
    Announced (Rule.blocks groups index rules) := by
  induction rules generalizing index with
  | nil => simp [Rule.blocks_nil, Announced]
  | cons rule rules ih =>
      rw [Rule.blocks_cons]
      by_cases h : rule.Holds groups
      · obtain ⟨criterion, hcriterion⟩ := h
        rw [Rule.block_of_matched hcriterion, List.cons_append]
        refine announced_cons.2 ⟨?_, announced_applying _ (ih _)⟩
        rintro _ _ _ heq
        obtain ⟨-, -, rfl⟩ := Event.matched.inj heq
        rw [List.takeWhile_append_of_pos (by simp [isApplying]), takeWhile_blocks]
        simp [Members.keys]
      · rw [Rule.block_of_not_matched h]
        exact announced_cons.2 ⟨by simp, ih _⟩

theorem counts_append (name : String) (log log' : List Event) :
    counts name (log ++ log') = counts name log ++ counts name log' := by
  simp [counts]

theorem counts_applying (name : String) (paths : List String) : counts name (paths.map .applying) = [] := by
  induction paths with
  | nil => rfl
  | cons path paths ih => exact ih

theorem counts_block (groups : Groups) (index : Nat) (rule : Rule) :
    counts "rules" (rule.block groups index) = [] ∧ counts "rule" (rule.block groups index) = [index] ∧
      (counts "overrides" (rule.block groups index)).sum = (rule.block groups index).countP isApplying := by
  by_cases h : rule.Holds groups
  · obtain ⟨criterion, hcriterion⟩ := h
    have hcount : ((Members.keys rule.overrides).map applying).countP isApplying = rule.overrides.length := by
      rw [List.countP_eq_length.2 (by simp [isApplying])]
      simp [Members.keys]
    have hcounts (name : String) : counts name (rule.block groups index) =
        counts name [.matched index criterion rule.overrides.length] := by
      rw [Rule.block_of_matched hcriterion, ← List.singleton_append, counts_append, counts_applying, List.append_nil]
    simp only [hcounts]
    rw [Rule.block_of_matched hcriterion, List.countP_cons_of_neg (by simp [isApplying]), hcount]
    exact ⟨rfl, rfl, rfl⟩
  · rw [Rule.block_of_not_matched h]
    exact ⟨rfl, rfl, rfl⟩

theorem counts_blocks (groups : Groups) (index : Nat) (rules : List Rule) :
    counts "rules" (Rule.blocks groups index rules) = [] ∧
      counts "rule" (Rule.blocks groups index rules) = List.range' index rules.length ∧
      (counts "overrides" (Rule.blocks groups index rules)).sum =
        (Rule.blocks groups index rules).countP isApplying := by
  induction rules generalizing index with
  | nil => exact ⟨rfl, rfl, rfl⟩
  | cons rule rules ih =>
      obtain ⟨hrules, hrule, hoverrides⟩ := counts_block groups index rule
      obtain ⟨ihrules, ihrule, ihoverrides⟩ := ih (index + 1)
      rw [Rule.blocks_cons, counts_append, counts_append, counts_append, List.sum_append, List.countP_append, hrules,
        hrule, hoverrides, ihrules, ihrule, ihoverrides]
      exact ⟨rfl, rfl, rfl⟩

theorem replay_applying {entries current : Members Tree}
    (hcurrent : ∀ entry ∈ entries, Members.find? entry.1 current = some entry.2)
    (hfits : ∀ path ∈ entries.keys, Fits path) (log : List Event) (properties : Properties) :
    replay rules current (entries.keys.map .applying ++ log) properties =
      replay rules current log (properties.writeAll (writesOf entries)) := by
  induction entries generalizing properties with
  | nil => rfl
  | cons entry entries ih =>
      obtain ⟨hentry, hrest⟩ := List.forall_mem_cons.1 hcurrent
      obtain ⟨hfit, hfits⟩ := List.forall_mem_cons.1 hfits
      have hstep : replay rules current (.applying entry.1 :: (Members.keys entries).map .applying ++ log) properties =
          replay rules current ((Members.keys entries).map .applying ++ log)
            (properties.write entry.2 (keysOf entry.1)) := by
        simp only [List.cons_append, replay, hentry, Properties.override_of_fits hfit, Option.bind_eq_bind,
          Option.bind_some]
      exact hstep.trans (ih hrest hfits _)

theorem replay_overlong {current : Members Tree} {path : String} {value : Tree}
    (hcurrent : Members.find? path current = some value) (h : ¬ Fits path) (properties : Properties) :
    replay rules current [.applying path] properties = some (.error (overlong path)) := by
  simp [replay, hcurrent, Properties.override_of_not_fits h]

theorem replay_matched (h : rules[index]? = some rule) (criterion : Criterion) (count : Nat) (current : Members Tree)
    (log : List Event) (properties : Properties) :
    replay rules current (.matched index criterion count :: log) properties =
      replay rules rule.overrides log properties := by
  simp [replay, h]

/-- What a rule writes is done again with its events, after which the values of any rule may be the current ones. -/
theorem exists_replay_block (hrule : rules[index]? = some rule) (hkeys : rule.overrides.Ascending)
    (hgood : ¬ rule.Bad groups) (current : Members Tree) (log : List Event) (properties : Properties) :
    ∃ current', replay rules current (rule.block groups index ++ log) properties =
      replay rules current' log (properties.writeAll (rule.writes groups)) := by
  by_cases h : rule.Holds groups
  · have hfits := Rule.fits_of_holds (Rule.fault?_eq_none.2 hgood) h
    obtain ⟨criterion, hcriterion⟩ := h
    refine ⟨rule.overrides, ?_⟩
    rw [Rule.block_of_matched hcriterion, List.cons_append, replay_matched hrule, Rule.writes_of_matched hcriterion]
    exact replay_applying (fun entry hentry => (Members.find?_eq_some_iff hkeys.nodup).2 hentry) hfits log properties
  · refine ⟨current, ?_⟩
    rw [Rule.block_of_not_matched h, Rule.writes_of_not_matched h]
    rfl

theorem exists_replay_blocks (earlier : List Rule) (hkeys : ∀ rule ∈ before, rule.overrides.Ascending)
    (hgood : ∀ rule ∈ before, ¬ rule.Bad groups) (hrules : rules = earlier ++ before ++ after)
    (current : Members Tree) (log : List Event) (properties : Properties) :
    ∃ current', replay rules current (Rule.blocks groups earlier.length before ++ log) properties =
      replay rules current' log (properties.writeAll (before.flatMap (·.writes groups))) := by
  -- Events name rules by their places, so the rules that were handled already are kept as `earlier`.
  induction before generalizing earlier current properties with
  | nil => exact ⟨current, rfl⟩
  | cons rule before ih =>
      obtain ⟨hrule, hkeys⟩ := List.forall_mem_cons.1 hkeys
      obtain ⟨hgood, hbefore⟩ := List.forall_mem_cons.1 hgood
      have hindex : rules[earlier.length]? = some rule := by simp [hrules]
      obtain ⟨current', hblock⟩ := exists_replay_block hindex hrule hgood current
        (Rule.blocks groups (earlier.length + 1) before ++ log) properties
      have hrules' : rules = (earlier ++ [rule]) ++ before ++ after := by simp [hrules]
      obtain ⟨current'', hblocks⟩ := ih (earlier ++ [rule]) hkeys hbefore hrules' current' (properties.writeAll (rule.writes groups))
      refine ⟨current'', ?_⟩
      rw [List.length_append, List.length_singleton] at hblocks
      rw [Rule.blocks_cons, List.append_assoc, hblock, hblocks, List.flatMap_cons, Properties.writeAll_append]

theorem exists_replay_start (hkeys : ∀ rule ∈ before, rule.overrides.Ascending)
    (hgood : ∀ rule ∈ before, ¬ rule.Bad groups) (hrules : rules = before ++ after) (log : List Event)
    (properties : Properties) :
    ∃ current, replay rules [] (Rule.blocks groups 0 before ++ log) properties =
      replay rules current log (properties.writeAll (before.flatMap (·.writes groups))) :=
  exists_replay_blocks [] hkeys hgood hrules [] log properties

end Event

theorem logged_of_good (hkeys : ∀ rule ∈ rules, rule.overrides.Ascending) (hgood : ∀ rule ∈ rules, ¬ rule.Bad groups)
    (defaults : Properties) :
    Logged groups rules defaults (applyRules groups 0 rules defaults).log
      (.ok (defaults.writeAll (rules.flatMap (·.writes groups)))) := by
  obtain ⟨current, hreplay⟩ := Event.exists_replay_start hkeys hgood (List.append_nil rules).symm [] defaults
  have hlog : (applyRules groups 0 rules defaults).log = Rule.blocks groups 0 rules := by
    have happly := Rule.applyRules_append hgood 0 [] defaults
    rw [List.append_nil] at happly
    simp [happly, applyRules, Applied.after]
  rw [hlog]
  rw [List.append_nil] at hreplay
  exact .complete hgood (Event.announced_blocks groups 0 rules) hreplay

theorem logged_of_bad {fault : Error} (hkeys : ∀ rule ∈ rules, rule.overrides.Ascending)
    (hrules : rules = before ++ rule :: after) (hgood : ∀ earlier ∈ before, ¬ earlier.Bad groups)
    (hfault : rule.fault? groups = some fault) (defaults : Properties) :
    Logged groups rules defaults (applyRules groups 0 rules defaults).log (.error fault) := by
  have hbefore : ∀ earlier ∈ before, earlier.overrides.Ascending := fun earlier hearlier =>
    hkeys earlier (by simp [hrules, hearlier])
  have hreplay := Event.exists_replay_start hbefore hgood hrules
  have hlog : (applyRules groups 0 rules defaults).log = Rule.blocks groups 0 before ++
      (applyRules groups before.length (rule :: after) (defaults.writeAll (before.flatMap (·.writes groups)))).log := by
    rw [hrules, Rule.applyRules_append hgood, Nat.zero_add]
    rfl
  rw [hlog]
  cases hcriterion : rule.criterion? groups with
  | error bad =>
      obtain ⟨current, hreplay⟩ := hreplay [] defaults
      rw [Rule.fault?, hcriterion, Option.some.injEq] at hfault
      rw [applyRules, hcriterion, ← hfault]
      rw [List.append_nil] at hreplay ⊢
      exact .expression hrules hgood hcriterion hreplay
  | ok found =>
      cases found with
      | none => simp [Rule.fault?, hcriterion] at hfault
      | some criterion =>
          simp only [Rule.fault?, hcriterion] at hfault
          obtain ⟨path, hpath, rfl⟩ := Option.map_eq_some_iff.1 hfault
          -- The overrides before the path that is too long are made, and with that path the log ends.
          obtain ⟨front, back, value, hoverrides, hfits, hlong⟩ := exists_of_overlong?_eq_some hpath
          have hfind : ∀ entry ∈ front ++ [(path, value)], Members.find? entry.1 rule.overrides = some entry.2 := by
            intro entry hentry
            refine (Members.find?_eq_some_iff (hkeys rule (by simp [hrules])).nodup).2 ?_
            rw [hoverrides, List.append_cons]
            exact List.mem_append_left back hentry
          obtain ⟨hfront, hlast⟩ := List.forall_mem_append.1 hfind
          have hindex : rules[before.length]? = some rule := by simp [hrules]
          obtain ⟨current, hreplay⟩ := hreplay (.matched before.length criterion rule.overrides.length ::
            (Members.keys front ++ [path]).map .applying) defaults
          rw [Rule.log_applyRules_of_overlong hcriterion hoverrides hfits hlong]
          refine .path hrules hgood hcriterion hoverrides hfits (Nat.lt_of_not_le hlong) rfl rfl ?_
          rw [hreplay, Event.replay_matched hindex, List.map_append, Event.replay_applying hfront hfits]
          exact Event.replay_overlong (hlast _ List.mem_cons_self) hlong _

theorem Logged.eq_blocks {defaults result : Properties} (h : Logged groups rules defaults log (.ok result)) :
    log = Rule.blocks groups 0 rules := by
  cases h
  rfl

namespace Config

theorem log_resolve {config : Config} {defaults : Properties} (groups : Groups) (format : Format)
    (h : config.properties = .ok defaults) :
    (config.resolve groups format).log =
      .resolving config.rules.length groups.size format :: (applyRules groups 0 config.rules defaults).log := by
  simp only [resolve, h]
  split <;> rfl

theorem logged_resolve {config : Config} {defaults : Properties} (hordered : config.Ordered) (groups : Groups)
    (format : Format) (h : config.properties = .ok defaults) :
    Logged groups config.rules defaults (applyRules groups 0 config.rules defaults).log
      (config.resolve groups format).outcome := by
  have hkeys : ∀ rule ∈ config.rules, rule.overrides.Ascending := fun rule hrule =>
    (hordered.rules rule hrule).ascending
  rw [outcome_resolve groups format h]
  cases hfind : config.rules.findSome? (·.fault? groups) with
  | none => exact logged_of_good hkeys (findSome?_fault?_eq_none.1 hfind) defaults
  | some fault =>
      obtain ⟨before, rule, after, hrules, hrule, hbefore⟩ := List.findSome?_eq_some_iff.1 hfind
      exact logged_of_bad hkeys hrules (fun earlier hearlier => Rule.fault?_eq_none.1 (hbefore earlier hearlier)) hrule
        defaults

/-- The numbers that are logged about a run without errors agree with one another. -/
theorem counts_log_resolve {config : Config} {defaults result : Properties} {format : Format}
    (hordered : config.Ordered) (h : config.properties = .ok defaults)
    (hresult : (config.resolve groups format).outcome = .ok result) :
    ∃ n, Event.counts "rules" (config.resolve groups format).log = [n] ∧
      Event.counts "rule" (config.resolve groups format).log = List.range n ∧
      (Event.counts "overrides" (config.resolve groups format).log).sum =
        (config.resolve groups format).log.countP Event.isApplying := by
  have hlog := (hresult ▸ logged_resolve hordered groups format h).eq_blocks
  have hcounts (name : String) : Event.counts name (config.resolve groups format).log =
      Event.counts name [.resolving config.rules.length groups.size format] ++
        Event.counts name (Rule.blocks groups 0 config.rules) := by
    rw [log_resolve groups format h, hlog, ← List.singleton_append, Event.counts_append]
  obtain ⟨hrules, hrule, hoverrides⟩ := Event.counts_blocks groups 0 config.rules
  refine ⟨config.rules.length, ?_, ?_, ?_⟩
  · rw [hcounts, hrules]
    rfl
  · rw [hcounts, hrule, List.range_eq_range']
    rfl
  · rw [hcounts, List.sum_append, hoverrides, log_resolve groups format h, hlog,
      List.countP_cons_of_neg (by simp [Event.isApplying])]
    exact Nat.zero_add _

end Config

/--
Nothing is logged before the default properties are known. From then on the log tells how the rules were handled in
their order, up to the end or to what went wrong, and what it tells leads from the default properties to the outcome.
-/
theorem log_resolve_faithful (text : String) (names : List String) (format : Format) :
    (∀ fault, Config.parse format text = .error fault → (resolve text names format).log = []) ∧
    ∀ config, Config.parse format text = .ok config →
      (∀ fault, config.properties = .error fault → (resolve text names format).log = []) ∧
      ∀ defaults, config.properties = .ok defaults →
        (∀ rule ∈ config.rules, (Members.keys rule.overrides).Pairwise fun path other =>
          Text.bytes path < Text.bytes other) ∧
        ∃ log, (resolve text names format).log = .resolving config.rules.length names.dedup.length format :: log ∧
          Logged (Groups.ofList names) config.rules defaults log (resolve text names format).outcome := by
  constructor
  · intro fault hparse
    rw [resolve_of_unread hparse]
  · intro config hparse
    rw [resolve_of_parse hparse]
    have hordered := Config.ordered_parse hparse
    refine ⟨fun fault hfault => ?_, fun defaults hdefaults => ⟨fun rule hrule => ?_, ?_⟩⟩
    · simp [Config.resolve, hfault]
    · exact (hordered.rules rule hrule).ascending.bytes
    · refine ⟨_, ?_, Config.logged_resolve hordered (Groups.ofList names) format hdefaults⟩
      rw [Config.log_resolve _ _ hdefaults, Groups.size_ofList]

set_option maxRecDepth 8000 in
theorem log_resolve_faithful_overlong :
    let text := "\x7b\"default-properties\": \x7b\x7d, \"override-rules\": [\x7b\x7d, " ++
      "\x7b\"user-is-in-any-group\": [\"b\"], \"override\": \x7b\"y\": 2, \"x.y\": 1\x7d\x7d, " ++
      "\x7b\"user-is-in-all-groups\": [\"a\"], \"override\": \x7b\"z\": 1, \"" ++
      String.ofList (List.replicate 64 '.') ++ "\": 2\x7d\x7d]\x7d"
    let overlong := String.ofList (List.replicate 64 '.')
    let second : Rule := ⟨[], ["b"], [], none, [("x.y", .number (.integer 1)), ("y", .number (.integer 2))]⟩
    let third : Rule := ⟨["a"], [], [], none, [(overlong, .number (.integer 2)), ("z", .number (.integer 1))]⟩
    (resolve text ["a", "b", "a"] .json).log =
      [.resolving 3 2 .json, .unmatched 0, .matched 1 .anyGroup 2, .applying "x.y", .applying "y",
        .matched 2 .allGroups 2, .applying overlong] ∧
    ∃ log, (resolve text ["a", "b", "a"] .json).log = .resolving 3 2 .json :: log ∧
      Logged (Groups.ofList ["a", "b", "a"]) [{}, second, third] [] log
        (resolve text ["a", "b", "a"] .json).outcome := by
  intro text overlong second third
  have hparse : Config.parse .json text = .ok ⟨[{}, second, third], some (.object [])⟩ :=
    Outcome.eq_ok_of_toOption (by decide +kernel)
  refine ⟨?_, (((log_resolve_faithful text ["a", "b", "a"] .json).2 _ hparse).2 [] rfl).2⟩
  rw [resolve_of_parse hparse]
  decide +kernel

end Groupwise
