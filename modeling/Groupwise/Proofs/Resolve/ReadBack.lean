import Groupwise.Proofs.Json.Refusal
import Groupwise.Proofs.Resolve.Nesting
import Groupwise.Session

namespace Groupwise

namespace Json

variable {t : Tree}

/-- The text of a tree gives back the tree, unless it is nested too deeply, which is what is said then. -/
structure ReadsBack (layout : Layout) (t : Tree) : Prop where
  shallow : t.nesting ≤ 127 → readText (tree maxLevels) (render layout t) = .ok t
  deep : 127 < t.nesting → ∃ cause, readText (tree maxLevels) (render layout t) = .error cause ∧
    cause.message = "recursion limit exceeded"

theorem readText_render (layout : Layout) (h : t.Within maxLevels) :
    readText (tree maxLevels) (render layout t) = .ok t :=
  readText_of_spells (spells_layout layout t) (reads_tree h)

theorem readsBack (layout : Layout) (h : t.Valid) : ReadsBack layout t where
  shallow := fun hnesting => readText_render layout (h.within hnesting)
  deep := fun hnesting =>
    ⟨.text .tooDeep, readText_of_refuses (spells_layout layout t) (refuses_tree h hnesting), rfl⟩

theorem eq_of_render_eq {layout : Layout} {other : Tree} (h : t.Within maxLevels) (hother : other.Within maxLevels)
    (heq : render layout t = render layout other) : t = other := by
  have hread := readText_render layout h
  rw [heq, readText_render layout hother] at hread
  exact (Except.ok.inj hread).symm

end Json

/--
Properties that were resolved are read back from their text in either layout if they have at most 127 levels, so that
other such properties have another text. They can have more than that, as there is a limit to the keys of a path and to
the levels of a value, but not to both of them together, and then their text cannot be read.
-/
theorem readsBack_resolve :
    (∀ text names result layout, (resolve text names .json).outcome = .ok result →
      Json.ReadsBack layout (.object result) ∧
        ∀ text' names' result', (resolve text' names' .json).outcome = .ok result' →
          (Tree.object result).nesting ≤ 127 → (Tree.object result').nesting ≤ 127 →
          renderProperties layout result = renderProperties layout result' → result = result') ∧
    (∀ levels, 64 ≤ levels → levels ≤ 123 →
      ∃ text names result path value, (resolve text names .json).outcome = .ok result ∧
        (keysOf path).length = 64 ∧ value.nesting = levels ∧ Properties.lookup (keysOf path) result = some value ∧
        127 < (Tree.object result).nesting) := by
  constructor
  · intro text names result layout h
    have hvalid := valid_of_resolve_json h
    refine ⟨Json.readsBack layout hvalid, ?_⟩
    intro text' names' result' h' hnesting hnesting' heq
    have hvalid' := valid_of_resolve_json h'
    exact Tree.object.inj (Json.eq_of_render_eq (hvalid.within hnesting) (hvalid'.within hnesting') heq)
  · intro levels hlow hhigh
    obtain ⟨text, names, result, path, value, hresolve, hlength, hvalue, hlookup⟩ := exists_resolve_deep hhigh
    have hdeep := Tree.nesting_lookup_le hlookup
    exact ⟨text, names, result, path, value, hresolve, hlength, hvalue, hlookup, by omega⟩

set_option maxRecDepth 8000 in
theorem readsBack_resolve_pretty :
    let text := "\x7b\"default-properties\": \x7b\"a\": [[], \x7b\x7d, 1.5e300]\x7d, \"override-rules\": [" ++
      "\x7b\"user-is-in-any-group\": [\"g\"], \"override\": \x7b\"b.\\\"\": [true, -0]\x7d\x7d]\x7d"
    let result : Properties := [("a", .array [.array [], .object [], .number (.float ⟨false, 9097811302482466869, by decide⟩)]),
      ("b", .object [("\"", .array [.bool true, .number (.float ⟨true, 0, by decide⟩)])])]
    ((resolve text ["g"] .json).outcome = .ok result ∧ (Tree.object result).nesting = 3 ∧
        Json.readText (Json.tree Json.maxLevels) (renderProperties .pretty result) = .ok (.object result)) ∧
      ∃ text names result cause, (resolve text names .json).outcome = .ok result ∧
        Json.readText (Json.tree Json.maxLevels) (renderProperties .compact result) = .error cause ∧
        cause.message = "recursion limit exceeded" := by
  intro text result
  have h : (resolve text ["g"] .json).outcome = .ok result := Outcome.eq_ok_of_toOption (by decide +kernel)
  refine ⟨⟨h, by decide, (readsBack_resolve.1 text ["g"] result .pretty h).1.shallow (by decide)⟩, ?_⟩
  obtain ⟨text, names, result, -, -, hresolve, -, -, -, hdeep⟩ := readsBack_resolve.2 64 (by decide) (by decide)
  obtain ⟨cause, hcause, hmessage⟩ := (readsBack_resolve.1 text names result .compact hresolve).1.deep hdeep
  exact ⟨text, names, result, cause, hresolve, hcause, hmessage⟩

end Groupwise
