import Groupwise.Proofs.Ensures
import Groupwise.Proofs.Resolve.Run
import Groupwise.Proofs.Tree.Overwrite

namespace Groupwise.Config

/--
Properties that are resolved stay what they are when they are resolved once more. The first writes of the second run
may destroy what the last writes of the first one made, but then those last writes make it again.
-/
theorem outcome_resolve_again {config : Config} {groups : Groups} {format : Format} {result : Properties}
    (h : (config.resolve groups format).outcome = .ok result) :
    ({ config with defaults := some (.object result) }.resolve groups format).outcome = .ok result := by
  obtain ⟨defaults, -, hfault, rfl⟩ := outcome_resolve_eq_ok.1 h
  -- Which rules hold, and with which errors, has nothing to do with the properties.
  have hagain : (defaults.writeAll (config.writes groups)).writeAll (config.writes groups) =
      defaults.writeAll (config.writes groups) :=
    Properties.writeAll_writeAll_self (fun w hw => keys_ne_nil_of_mem_writes hw) defaults
  exact outcome_resolve_eq_ok.2 ⟨_, rfl, hfault, hagain⟩

theorem outcome_resolve_again_overlapping :
    let rules : List Rule := [⟨[], ["g"], [], none, [("a.b", .number (.integer 1))]⟩,
      ⟨[], ["g"], [], none, [("a", .object [("d", .null)])]⟩,
      ⟨[], [], ["h"], none, [("a.b", .bool true), ("a.b.c", .number (.integer 2))]⟩]
    let groups := Groups.ofList ["g"]
    let result : Properties := [("a", .object [("b", .object [("c", .number (.integer 2))]), ("d", .null)])]
    (resolve ⟨rules, some (.object [("a", .string "x")])⟩ groups .json).outcome = .ok result ∧
      (resolve ⟨rules, some (.object result)⟩ groups .json).outcome = .ok result := by
  intro rules groups result
  have h : (resolve ⟨rules, some (.object [("a", .string "x")])⟩ groups .json).outcome = .ok result :=
    Outcome.eq_ok_of_toOption (by decide +kernel)
  exact ⟨h, outcome_resolve_again h⟩

end Groupwise.Config
