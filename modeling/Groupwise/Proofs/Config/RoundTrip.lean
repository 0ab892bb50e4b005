import Groupwise.Proofs.Config.Ordered
import Groupwise.Proofs.Json.Reader

namespace Groupwise

open Json (RecordPart Spells Reads Token)

namespace Rule

def nameTokens (names : List String) : List Token := Json.arrayTokens (names.map fun name => [.string name])

def parts (rule : Rule) : List (RecordPart Rule) :=
  [⟨Criterion.allGroups.name, namesText rule.allGroups, nameTokens rule.allGroups,
      fun other => { other with allGroups := rule.allGroups }⟩,
   ⟨Criterion.anyGroup.name, namesText rule.anyGroup, nameTokens rule.anyGroup,
      fun other => { other with anyGroup := rule.anyGroup }⟩,
   ⟨Criterion.noneOfGroups.name, namesText rule.noneOfGroups, nameTokens rule.noneOfGroups,
      fun other => { other with noneOfGroups := rule.noneOfGroups }⟩]
  ++ (rule.expression.map fun e => ⟨Criterion.expression.name, Json.stringText e, [.string e],
      fun other => { other with expression := some e }⟩).toList
  ++ [⟨overrideKey, Json.compact (.object rule.overrides), Json.tokensOf (.object rule.overrides),
      fun other => { other with overrides := rule.overrides }⟩]

theorem text_eq (rule : Rule) : rule.text = Json.partsText rule.parts := by
  obtain ⟨all, any, none, expression, overrides⟩ := rule
  cases expression <;> rfl

theorem updateAll_parts (rule : Rule) : Json.updateAll rule.parts {} = rule := by
  obtain ⟨all, any, none, expression, overrides⟩ := rule
  cases expression <;> rfl

theorem nodup_keys (rule : Rule) : (rule.parts.map RecordPart.key).Nodup := by
  obtain ⟨all, any, none, expression, overrides⟩ := rule
  cases expression <;> simp [parts, Criterion.name, overrideKey]

theorem spells_names (names : List String) : Spells (namesText names) (nameTokens names) :=
  Json.spells_array fun name _ => Json.spells_string name

theorem reads_names {levels : Nat} (hlevels : levels ≠ 0) (names : List String) :
    Reads (readNames levels) (nameTokens names) names := by
  refine Json.reads_orNull [] ?_ (by simp [nameTokens, Json.arrayTokens])
  exact Json.reads_list_map hlevels fun name _ => ⟨Json.reads_string name, by simp⟩

theorem reads_overrides {levels : Nat} {rule : Rule} (hlevels : 2 ≤ levels) (h : rule.Within levels) :
    Reads (Json.orNull [] (Json.map (levels - 1) (Json.tree (levels - 2)))) (Json.tokensOf (.object rule.overrides))
      rule.overrides := by
  rw [Json.tokensOf, Json.memberTokens_eq]
  refine Json.reads_orNull [] ?_ (by simp [Json.objectTokens])
  exact Json.reads_map_ascending (by omega) (fun entry hentry => Json.reads_tree (h.values entry hentry)) h.ascending

theorem sound_parts {levels : Nat} {rule : Rule} (hlevels : 2 ≤ levels) (h : rule.Within levels) :
    ∀ part ∈ rule.parts, part.Sound (fields (levels - 1)) := by
  have hinner : levels - 1 ≠ 0 := by omega
  intro part hpart
  simp only [parts, List.mem_append, List.mem_cons, Option.mem_toList, Option.map_eq_some_iff, List.not_mem_nil,
    or_false] at hpart
  rcases hpart with ((rfl | rfl | rfl) | ⟨e, -, rfl⟩) | rfl
  · exact RecordPart.sound_of_mapped rfl (spells_names _) (reads_names hinner _) rfl
  · exact RecordPart.sound_of_mapped rfl (spells_names _) (reads_names hinner _) rfl
  · exact RecordPart.sound_of_mapped rfl (spells_names _) (reads_names hinner _) rfl
  · have hread : Reads (Json.optional Json.string) [.string e] (some e) :=
      Json.reads_orNull none (Json.reads_mapped some (Json.reads_string e)) (by simp)
    exact RecordPart.sound_of_mapped rfl (Json.spells_string e) hread rfl
  · exact RecordPart.sound_of_mapped rfl (Json.spells_compact _) (reads_overrides hlevels h) rfl

def tokens (rule : Rule) : List Token := Json.partsTokens rule.parts

theorem spells_text {levels : Nat} {rule : Rule} (hlevels : 2 ≤ levels) (h : rule.Within levels) :
    Spells rule.text rule.tokens := rule.text_eq ▸ Json.spells_parts (sound_parts hlevels h)

theorem reads_tokens {levels : Nat} {rule : Rule} (hlevels : 2 ≤ levels) (h : rule.Within levels) :
    Reads (read levels) rule.tokens rule := by
  have hread : Reads (read levels) rule.tokens (Json.updateAll rule.parts {}) :=
    Json.reads_parts (by omega) (sound_parts hlevels h) rule.nodup_keys "struct OverrideRule" {}
  rw [updateAll_parts] at hread
  exact hread

end Rule

namespace Config

def parts (config : Config) : List (RecordPart Config) :=
  ⟨rulesKey, Json.arrayText (config.rules.map Rule.text), Json.arrayTokens (config.rules.map Rule.tokens),
    fun other => { other with rules := config.rules }⟩
  :: (config.defaults.map fun defaults => ⟨defaultsKey, Json.compact defaults, Json.tokensOf defaults,
    fun other => { other with defaults := some defaults }⟩).toList

theorem text_eq (config : Config) : config.text = Json.partsText config.parts := by
  obtain ⟨rules, defaults⟩ := config
  cases defaults <;> rfl

theorem updateAll_parts (config : Config) : Json.updateAll config.parts {} = config := by
  obtain ⟨rules, defaults⟩ := config
  cases defaults <;> rfl

theorem nodup_keys (config : Config) : (config.parts.map RecordPart.key).Nodup := by
  obtain ⟨rules, defaults⟩ := config
  cases defaults <;> simp [parts, rulesKey, defaultsKey]

theorem reads_rules {levels : Nat} {config : Config} (hlevels : 4 ≤ levels) (h : config.Within levels) :
    Reads (Json.orNull [] (Json.list (levels - 1) (Rule.read (levels - 2))))
      (Json.arrayTokens (config.rules.map Rule.tokens)) config.rules := by
  refine Json.reads_orNull [] ?_ (by simp [Json.arrayTokens])
  refine Json.reads_list_map (by omega) fun rule hrule => ⟨Rule.reads_tokens (by omega) (h.rules rule hrule), ?_⟩
  simp [Rule.tokens, Json.partsTokens, Json.objectTokens]

theorem sound_parts {levels : Nat} {config : Config} (hlevels : 4 ≤ levels) (h : config.Within levels) :
    ∀ part ∈ config.parts, part.Sound (fields (levels - 1)) := by
  intro part hpart
  simp only [parts, List.mem_cons, Option.mem_toList, Option.map_eq_some_iff] at hpart
  rcases hpart with rfl | ⟨defaults, hdefaults, rfl⟩
  · have hspells := Json.spells_array fun rule hrule => Rule.spells_text (by omega) (h.rules rule hrule)
    exact RecordPart.sound_of_mapped rfl hspells (reads_rules hlevels h) rfl
  · -- Default properties that are `null` would be taken for missing ones.
    have hread := Json.reads_orNull none (Json.reads_mapped some (Json.reads_tree (h.defaults defaults hdefaults)))
      (Json.head?_tokensOf_ne_null (h.given defaults hdefaults))
    exact RecordPart.sound_of_mapped rfl (Json.spells_compact defaults) hread rfl

theorem ofJson_toJson {config : Config} (h : config.Within Json.maxLevels) : ofJson config.toJson = .ok config := by
  have hsound := sound_parts (by decide) h
  have hread : Reads (read Json.maxLevels) (Json.partsTokens config.parts) (Json.updateAll config.parts {}) :=
    Json.reads_parts (by decide) hsound config.nodup_keys "struct ResolverConfig" {}
  rw [updateAll_parts] at hread
  rw [toJson, text_eq]
  exact Json.readText_of_spells (Json.spells_parts hsound) hread

/-- Just the configurations that keep within the limits can be read at all. -/
theorem exists_parse_json_iff {config : Config} :
    (∃ text, parse .json text = .ok config) ↔ config.Within Json.maxLevels := by
  constructor
  · rintro ⟨text, h⟩
    exact within_ofJson text config (parse_json_eq_ok.1 h)
  · intro h
    exact ⟨config.toJson, parse_json_eq_ok.2 (ofJson_toJson h)⟩

/--
A configuration that was read from a text in JSON is read from its own text as well, which gives the same
configuration and so the same text.
-/
theorem parse_toJson {text : String} {config : Config} (h : parse .json text = .ok config) :
    ∃ again, parse .json config.toJson = .ok again ∧ again = config ∧ again.toJson = config.toJson := by
  have hwithin := exists_parse_json_iff.1 ⟨text, h⟩
  exact ⟨config, parse_json_eq_ok.2 (ofJson_toJson hwithin), rfl, rfl⟩

theorem parse_toJson_spellings :
    let text := "\x7b\"default-properties\": \x7b\"b\": [null, -1.50e3], \"a\": \"\\u00e9\\n\"\x7d, " ++
      "\"later\": [\x7b\x7d], \"override-rules\": [[[\"x\"], null], " ++
      "\x7b\"user-is-in-any-group\": null, \"custom-expression\": null, " ++
      "\"override\": \x7b\"b\": -0, \"a\": 7, \"b\": 18446744073709551615\x7d\x7d]\x7d"
    let config : Config :=
      ⟨[⟨["x"], [], [], none, []⟩, ⟨[], [], [], none, [("a", .number (.integer 7)),
          ("b", .number (.integer 18446744073709551615))]⟩],
        some (.object [("a", .string "é\n"),
          ("b", .array [.null, .number (.float ⟨true, 4654311885213007872, by decide⟩)])])⟩
    parse .json text = .ok config ∧
      ∃ again, parse .json config.toJson = .ok again ∧ again = config ∧ again.toJson = config.toJson := by
  intro text config
  have h : parse .json text = .ok config := Outcome.eq_ok_of_toOption (by decide +kernel)
  exact ⟨h, parse_toJson h⟩

end Config

end Groupwise
