import Groupwise.Config.Json
import Groupwise.Proofs.Json.Ordered

namespace Groupwise

open Outcome

def Rule.Within (levels : Nat) (rule : Rule) : Prop := rule.overrides.AscendingWith (Tree.Within (levels - 2))

/-- The rules of a configuration are items of an array in an object. -/
structure Config.Within (levels : Nat) (config : Config) : Prop where
  rules : ∀ rule ∈ config.rules, rule.Within (levels - 2)
  defaults : ∀ t ∈ config.defaults, t.Within (levels - 1)
  given : ∀ t ∈ config.defaults, t ≠ .null

theorem Rule.keepsAll_fields (levels : Nat) : Json.KeepsAll (Rule.Within levels) (Rule.fields (levels - 1)) := by
  have hoverrides := Json.yields_orNull .nil (Json.yields_map (levels - 1) (Json.yields_tree (levels - 2)))
  simp only [Rule.fields, Json.keepsAll_cons]
  refine ⟨?_, ?_, ?_, ?_, ?_, Json.keepsAll_nil⟩
  · exact Json.keeps_mapped (Json.Yields.trivial _) fun _ _ _ hrule => hrule
  · exact Json.keeps_mapped (Json.Yields.trivial _) fun _ _ _ hrule => hrule
  · exact Json.keeps_mapped (Json.Yields.trivial _) fun _ _ _ hrule => hrule
  · exact Json.keeps_mapped (Json.Yields.trivial _) fun _ _ _ hrule => hrule
  · exact Json.keeps_mapped hoverrides fun _ _ hentries _ => hentries

theorem Rule.yields_read (levels : Nat) : Json.Yields (Rule.Within levels) (Rule.read levels) :=
  Json.yields_record _ levels (Rule.keepsAll_fields levels) .nil

theorem Json.yields_optional_tree (levels : Nat) :
    Json.Yields (fun found => ∀ t ∈ found, t.Within levels ∧ t ≠ .null) (Json.optional (Json.tree levels)) := by
  intro ts
  unfold Json.optional Json.orNull
  split
  · simp
  · next hnull =>
      have hne : ts.head? ≠ some .null := by
        rintro hhead
        obtain ⟨rest, rfl⟩ := List.head?_eq_some_iff.1 hhead
        exact hnull rest rfl
      intro found hfound
      obtain ⟨r, hr, hmapped⟩ := Outcome.bind_eq_ok.1 hfound
      obtain rfl := Except.ok.inj hmapped
      intro t ht
      obtain rfl := Option.mem_some_iff.1 ht
      exact ⟨Json.yields_tree levels ts r hr, Json.ensures_ne_null hne r hr⟩

theorem Config.keepsAll_fields (levels : Nat) : Json.KeepsAll (Config.Within levels) (Config.fields (levels - 1)) := by
  have hrules := Json.yields_list (levels - 1) (Rule.yields_read (levels - 2))
  simp only [Config.fields, Json.keepsAll_cons]
  refine ⟨?_, ?_, Json.keepsAll_nil⟩
  · exact Json.keeps_mapped (Json.yields_orNull (by simp) hrules) fun _ _ hall hconfig =>
      ⟨hall, hconfig.defaults, hconfig.given⟩
  · exact Json.keeps_mapped (Json.yields_optional_tree (levels - 1)) fun _ _ hfound hconfig =>
      ⟨hconfig.rules, fun t ht => (hfound t ht).1, fun t ht => (hfound t ht).2⟩

theorem Config.within_ofJson (text : String) : Ensures (Config.Within Json.maxLevels) (Config.ofJson text) := by
  apply Json.ensures_readText
  exact Json.yields_record _ _ (Config.keepsAll_fields _) ⟨by simp, by simp, by simp⟩

end Groupwise
