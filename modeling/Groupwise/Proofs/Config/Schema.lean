import Groupwise.Proofs.Config.Described
import Groupwise.Proofs.Config.Ordered
import Groupwise.Proofs.Json.Record

namespace Groupwise

open Json (Understands Builds Adds Settles)

section

variable {α σ : Type} {absent a : α} {value : Tree → α → Prop} {before : Members Tree} {key other : String} {t : Tree}

theorem Gives.append (h : Gives absent value (before.find? key) a) (hne : key ≠ other) (t : Tree) :
    Gives absent value (Members.find? key (before ++ [(other, t)])) a := by
  rwa [Members.find?_append_of_ne hne]

theorem gives_append_self (hfresh : key ∉ before.keys) (after : Members Tree) :
    Gives absent value (Members.find? key (before ++ (key, t) :: after)) a ↔ Gives absent value (some t) a := by
  rw [Members.find?_append hfresh, Members.find?, if_pos rfl]

theorem adds_field {levels : Nat} {means : Members Tree → σ → Prop} {read : Json.Reader α} {f : α → σ → σ} {record : σ}
    (hread : Understands levels read fun t => Gives absent value (some t)) (hfresh : key ∉ before.keys)
    (ht : t.Distinct) (hlevels : t.nesting ≤ levels)
    (hgives : ∀ entries all, means entries all → ∃ a, Gives absent value (entries.find? key) a)
    (hset : ∀ a, Gives absent value (Members.find? key (before ++ [(key, t)])) a →
      means (before ++ [(key, t)]) (f a record)) :
    Adds means before record ⟨key, Json.mapped f read⟩ t := by
  rcases hread t ht hlevels with ⟨a, hread, ha⟩ | ⟨⟨e, hrefuse⟩, hnone⟩
  · exact .inl ⟨f a, Json.reads_mapped f hread, hset a ((gives_append_self hfresh []).2 ha)⟩
  · refine .inr ⟨⟨e, Json.refuses_mapped f hrefuse⟩, fun after all hall => ?_⟩
    obtain ⟨a, ha⟩ := hgives _ all hall
    exact hnone a ((gives_append_self hfresh after).1 ha)

end

namespace Rule

theorem understands_names (levels : Nat) :
    Understands levels (readNames levels) fun t => Gives [] (Tree.IsList Tree.IsString) (some t) :=
  Json.understands_orNull [] (Json.understands_list (Json.understands_string (levels - 1)))

theorem builds_fields (levels : Nat) : Builds levels (fields levels) {} DescribedBy where
  start := ⟨.missing, .missing, .missing, .missing, .missing⟩
  known := by
    intro before rule h field hfield hfresh t ht hlevels
    simp only [fields, List.mem_cons, List.not_mem_nil, or_false] at hfield
    -- The member of one field adds that field and leaves the others as they were.
    rcases hfield with rfl | rfl | rfl | rfl | rfl
    · refine adds_field (understands_names levels) hfresh ht hlevels (fun _ _ h => ⟨_, h.allGroups⟩) fun names hnames => ?_
      exact ⟨hnames, h.anyGroup.append (by decide) t, h.noneOfGroups.append (by decide) t,
        h.expression.append (by decide) t, h.overrides.append (by decide) t⟩
    · refine adds_field (understands_names levels) hfresh ht hlevels (fun _ _ h => ⟨_, h.anyGroup⟩) fun names hnames => ?_
      exact ⟨h.allGroups.append (by decide) t, hnames, h.noneOfGroups.append (by decide) t,
        h.expression.append (by decide) t, h.overrides.append (by decide) t⟩
    · refine adds_field (understands_names levels) hfresh ht hlevels (fun _ _ h => ⟨_, h.noneOfGroups⟩) fun names hnames => ?_
      exact ⟨h.allGroups.append (by decide) t, h.anyGroup.append (by decide) t, hnames,
        h.expression.append (by decide) t, h.overrides.append (by decide) t⟩
    · have hread := Json.understands_optional (Json.understands_string levels)
      refine adds_field hread hfresh ht hlevels (fun _ _ h => ⟨_, h.expression⟩) fun text htext => ?_
      exact ⟨h.allGroups.append (by decide) t, h.anyGroup.append (by decide) t, h.noneOfGroups.append (by decide) t,
        htext, h.overrides.append (by decide) t⟩
    · have hread := Json.understands_orNull [] (Json.understands_map levels)
      refine adds_field hread hfresh ht hlevels (fun _ _ h => ⟨_, h.overrides⟩) fun overrides hoverrides => ?_
      exact ⟨h.allGroups.append (by decide) t, h.anyGroup.append (by decide) t, h.noneOfGroups.append (by decide) t,
        h.expression.append (by decide) t, hoverrides⟩
  unknown := by
    intro before rule h key hkey t
    have hne : ∀ known ∈ fieldKeys, known ≠ key := by
      rintro _ hknown rfl
      exact hkey hknown
    exact ⟨h.allGroups.append (hne _ (by decide)) t, h.anyGroup.append (hne _ (by decide)) t,
      h.noneOfGroups.append (hne _ (by decide)) t, h.expression.append (hne _ (by decide)) t,
      h.overrides.append (hne _ (by decide)) t⟩

theorem understands_read (levels : Nat) : Understands levels (read levels) Described := by
  have hkeys : fieldKeys.Nodup := by decide
  exact Json.understands_record (builds_fields (levels - 1)) (List.cons_ne_nil _ _) hkeys "struct OverrideRule"

end Rule

namespace Config

theorem builds_fields (levels : Nat) : Builds levels (fields levels) {} DescribedBy where
  start := ⟨.missing, .missing⟩
  known := by
    intro before config h field hfield hfresh t ht hlevels
    simp only [fields, List.mem_cons, List.not_mem_nil, or_false] at hfield
    rcases hfield with rfl | rfl
    · have hread := Json.understands_orNull [] (Json.understands_list (Rule.understands_read (levels - 1)))
      refine adds_field hread hfresh ht hlevels (fun _ _ h => ⟨_, h.rules⟩) fun rules hrules => ?_
      exact ⟨hrules, h.defaults.append (by decide) t⟩
    · have hread := Json.understands_optional (Json.understands_tree levels)
      refine adds_field hread hfresh ht hlevels (fun _ _ h => ⟨_, h.defaults⟩) fun defaults hdefaults => ?_
      exact ⟨h.rules.append (by decide) t, hdefaults⟩
  unknown := by
    intro before config h key hkey t
    have hne : ∀ known ∈ fieldKeys, known ≠ key := by
      rintro _ hknown rfl
      exact hkey hknown
    exact ⟨h.rules.append (hne _ (by decide)) t, h.defaults.append (hne _ (by decide)) t⟩

theorem understands_read (levels : Nat) : Understands levels (read levels) Described := by
  have hkeys : fieldKeys.Nodup := by decide
  exact Json.understands_record (builds_fields (levels - 1)) (List.cons_ne_nil _ _) hkeys "struct ResolverConfig"

theorem parse_render_eq_ok {t : Tree} {config : Config} (ht : t.Distinct) (hlevels : t.nesting ≤ Json.maxLevels)
    (layout : Json.Layout) : parse .json (Json.render layout t) = .ok config ↔ Described t config := by
  have hspells := Json.spells_layout layout t
  rw [parse_json_eq_ok, ofJson, Json.render]
  rcases understands_read Json.maxLevels t ht hlevels with ⟨found, hread, hfound⟩ | ⟨⟨e, hrefuse⟩, hnone⟩
  · rw [Json.readText_of_spells hspells hread]
    constructor
    · intro h
      exact Except.ok.inj h ▸ hfound
    · intro h
      rw [definite_described.unique ht h hfound]
  · rw [Json.readText_of_refuses hspells hrefuse]
    constructor
    · intro h
      contradiction
    · intro h
      exact absurd h (hnone config)

/--
A value is read as a configuration just if it is of the shape of one: the texts of other values are refused. What is
read is what the value describes, in either layout, and it is the same if members come in another order.
-/
theorem parse_render_described {t : Tree} (ht : t.Distinct) (hlevels : t.nesting ≤ 127) (layout : Json.Layout) :
    ((∃ config, parse .json (Json.render layout t) = .ok config) ↔ Shaped t) ∧
      (∀ config, parse .json (Json.render layout t) = .ok config ↔ Described t config) ∧
      ∀ u : Tree, t.Reordered u → ∀ (other : Json.Layout) (config : Config),
        parse .json (Json.render other u) = .ok config ↔ parse .json (Json.render layout t) = .ok config := by
  refine ⟨?_, fun config => parse_render_eq_ok ht hlevels layout, fun u hu other config => ?_⟩
  · simp only [parse_render_eq_ok ht hlevels layout, exists_described_iff ht]
  · have hdistinct := hu.distinct ht
    rw [parse_render_eq_ok hdistinct (hu.nesting_le hlevels), parse_render_eq_ok ht hlevels,
      ← definite_described.sorted hdistinct, ← hu.sorted_eq ht, definite_described.sorted ht]

theorem parse_render_described_spellings :
    let rules : Tree := .array [.array [.null, .array [.string "x"]], .object [("note", .array [.null]),
      (Rule.overrideKey, .object [("b", .null), ("a", .bool true)]), (Criterion.expression.name, .null)]]
    let defaults : Tree := .object [("d", .number (.integer 7)), ("c", .null)]
    let t : Tree := .object [(defaultsKey, defaults), ("later", .null), (rulesKey, rules)]
    let u : Tree := .object [("later", .null), (defaultsKey, defaults), (rulesKey, rules)]
    let config : Config := ⟨[⟨[], ["x"], [], none, []⟩, ⟨[], [], [], none, [("a", .bool true), ("b", .null)]⟩],
      some (.object [("c", .null), ("d", .number (.integer 7))])⟩
    (t.Distinct ∧ t.nesting ≤ 127 ∧ t.Reordered u) ∧ parse .json (Json.render .pretty t) = .ok config ∧
      Shaped t ∧ Described t config ∧ parse .json (Json.render .compact u) = .ok config := by
  intro rules defaults t u config
  have hseven : (Number.integer 7).Valid := ⟨by decide, by decide⟩
  have ht : t.Distinct := by
    simp [t, rules, defaults, Tree.distinct_object, Tree.distinct_array, Members.keys, Tree.Distinct.null,
      Tree.Distinct.bool, Tree.Distinct.string, Tree.Distinct.number hseven, rulesKey, defaultsKey,
      Rule.overrideKey, Criterion.name]
  have hlevels : t.nesting ≤ 127 := by
    simp only [t, rules, defaults]
    decide
  have hu : t.Reordered u := .members (.swap _ _ _)
  have hcompact : parse .json (Json.render .compact u) = .ok config := by
    simp only [u, rules, defaults, config]
    exact Outcome.eq_ok_of_toOption (by decide +kernel)
  obtain ⟨hshaped, hdescribed, hreordered⟩ := parse_render_described ht hlevels .pretty
  have hparse := (hreordered u hu .compact config).1 hcompact
  exact ⟨⟨ht, hlevels, hu⟩, hparse, hshaped.1 ⟨config, hparse⟩, (hdescribed config).1 hparse, hcompact⟩

end Config

end Groupwise
