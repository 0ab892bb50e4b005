import Groupwise.Proofs.Config.Ordered
import Groupwise.Proofs.Resolve.Run

namespace Groupwise

theorem Config.defaults_of_properties {config : Config} {properties : Properties}
    (h : config.properties = .ok properties) : config.defaults = some (.object properties) := by
  rw [Config.properties] at h
  split at h
  · next members hdefaults =>
      obtain rfl := Except.ok.inj h
      exact hdefaults
  · contradiction
  · contradiction
  · contradiction

theorem eq_writeAll_of_resolve {text : String} {names : List String} {format : Format} {result : Properties}
    (h : (resolve text names format).outcome = .ok result) :
    ∃ config defaults, Config.parse format text = .ok config ∧ config.properties = .ok defaults ∧
      result = defaults.writeAll (config.writes (Groups.ofList names)) := by
  cases hparse : Config.parse format text with
  | error fault => simp [resolve_of_unread hparse] at h
  | ok config =>
      rw [resolve_of_parse hparse] at h
      obtain ⟨defaults, hdefaults, -, rfl⟩ := Config.outcome_resolve_eq_ok.1 h
      exact ⟨config, defaults, rfl, hdefaults, rfl⟩

/--
At every place of the properties that are resolved the last write wins, where the rules write in their order,
each of them its overrides in ascending order of the paths.
-/
theorem lastWins_resolve {text : String} {names : List String} {format : Format} {result : Properties}
    (h : (resolve text names format).outcome = .ok result) :
    ∃ config defaults, Config.parse format text = .ok config ∧ config.defaults = some (.object defaults) ∧
      (∀ rule ∈ config.rules, rule.overrides.Ascending) ∧
      Properties.LastWins (config.writes (Groups.ofList names)) defaults result := by
  obtain ⟨config, defaults, hparse, hdefaults, rfl⟩ := eq_writeAll_of_resolve h
  refine ⟨config, defaults, hparse, Config.defaults_of_properties hdefaults, ?_, ?_⟩
  · intro rule hrule
    exact ((Config.ordered_parse hparse).rules rule hrule).ascending
  · exact Properties.lastWins_writeAll (fun w hw => Config.keys_ne_nil_of_mem_writes hw) defaults

set_option maxRecDepth 8000 in
theorem lastWins_resolve_overlapping :
    let text := "\x7b\"default-properties\": \x7b\"x\": 1\x7d, \"override-rules\": [" ++
      "\x7b\"user-is-in-any-group\": [\"a\"], \"override\": \x7b\"x\": 2, \"x.y\": 3\x7d\x7d, " ++
      "\x7b\"user-is-in-any-group\": [\"a\"], \"override\": \x7b\"x.y.z\": 4\x7d\x7d]\x7d"
    let result : Properties := [("x", .object [("y", .object [("z", .number (.integer 4))])])]
    (resolve text ["a"] .json).outcome = .ok result ∧
      ∃ config defaults, Config.parse .json text = .ok config ∧ config.defaults = some (.object defaults) ∧
        (∀ rule ∈ config.rules, rule.overrides.Ascending) ∧
        Properties.LastWins (config.writes (Groups.ofList ["a"])) defaults result := by
  intro text result
  have h : (resolve text ["a"] .json).outcome = .ok result := Outcome.eq_ok_of_toOption (by decide +kernel)
  exact ⟨h, lastWins_resolve h⟩

end Groupwise
