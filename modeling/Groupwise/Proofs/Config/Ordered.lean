import Groupwise.Proofs.Config.Within
import Groupwise.Proofs.Toml.Document
import Groupwise.Resolve

namespace Groupwise

open Outcome

def Rule.Ordered (rule : Rule) : Prop := rule.overrides.AscendingWith Tree.Ordered

structure Config.Ordered (config : Config) : Prop where
  rules : ∀ rule ∈ config.rules, rule.Ordered
  defaults : ∀ t ∈ config.defaults, t.Ordered

theorem Rule.Within.ordered {levels : Nat} {rule : Rule} (h : rule.Within levels) : rule.Ordered :=
  ⟨h.ascending, fun entry hentry => (h.values entry hentry).ordered⟩

theorem Config.Within.ordered {levels : Nat} {config : Config} (h : config.Within levels) : config.Ordered :=
  ⟨fun rule hrule => (h.rules rule hrule).ordered, fun t ht => (h.defaults t ht).ordered⟩

theorem Config.ordered_ofJson (text : String) : Ensures Config.Ordered (Config.ofJson text) :=
  fun config h => (Config.within_ofJson text config h).ordered

theorem Toml.ascendingWith_members {v : Toml.Value} {members : Members Tree} (hv : v.Ordered)
    (h : Toml.members? v = some members) : members.AscendingWith Tree.Ordered := by
  unfold Toml.members? at h
  split at h
  · obtain rfl := Option.some.inj h
    exact Tree.ordered_object.1 hv
  · obtain rfl := Option.some.inj h
    exact Value.ascendingWith_momentMembers _
  · contradiction

theorem Toml.member_ensures {α : Type} {P : α → Prop} {entries : Members Toml.Value} {key : String} {absent a : α}
    {read : Toml.Value → Option α} (habsent : P absent)
    (hread : ∀ v a, entries.find? key = some v → read v = some a → P a)
    (h : Toml.member entries key absent read = some a) : P a := by
  rw [Toml.member] at h
  split at h
  · next v hv => exact hread v a hv h
  · obtain rfl := Option.some.inj h
    exact habsent

theorem Rule.ordered_ofEntries {entries : Members Toml.Value} {rule : Rule}
    (hentries : ∀ v, entries.find? overrideKey = some v → v.Ordered) (h : Rule.ofEntries? entries = some rule) :
    rule.Ordered := by
  obtain ⟨allGroups, -, h⟩ := Option.bind_eq_some_iff.1 h
  obtain ⟨anyGroup, -, h⟩ := Option.bind_eq_some_iff.1 h
  obtain ⟨noneOfGroups, -, h⟩ := Option.bind_eq_some_iff.1 h
  obtain ⟨expression, -, h⟩ := Option.bind_eq_some_iff.1 h
  obtain ⟨overrides, hoverrides, h⟩ := Option.bind_eq_some_iff.1 h
  obtain rfl := Option.some.inj h
  have hascending : Members.AscendingWith Tree.Ordered overrides :=
    Toml.member_ensures .nil (fun v _ hfind => Toml.ascendingWith_members (hentries v hfind)) hoverrides
  exact hascending

theorem Toml.ordered_of_mem {items : List Toml.Value} {v : Toml.Value} (h : (Toml.Value.array items).Ordered)
    (hv : v ∈ items) : v.Ordered := by
  rw [Toml.Value.Ordered, Toml.Value.toTree, Toml.Value.toTrees_eq_map] at h
  cases h with
  | array hitems => exact hitems _ (List.mem_map_of_mem hv)

theorem Toml.ordered_of_find {entries : Members Toml.Value} {key : String} {v : Toml.Value}
    (h : (Toml.Value.table entries).Ordered) (hfind : entries.find? key = some v) : v.Ordered := by
  rw [Toml.Value.Ordered, Toml.Value.toTree, Toml.Value.toMembers_eq_map] at h
  cases h with
  | object _ hmembers => exact hmembers _ (List.mem_map_of_mem (Members.mem_of_find? hfind))

theorem Rule.ordered_ofToml {v : Toml.Value} {rule : Rule} (hv : v.Ordered) (h : Rule.ofToml? v = some rule) :
    rule.Ordered := by
  unfold Rule.ofToml? at h
  split at h
  · exact Rule.ordered_ofEntries (fun _ hfind => Toml.ordered_of_find hv hfind) h
  · obtain rfl := Option.some.inj h
    exact .nil
  · refine Rule.ordered_ofEntries (fun w hfind => ?_) h
    exact Toml.ordered_of_mem hv (List.of_mem_zip (Members.mem_of_find? hfind)).2
  · contradiction

theorem Toml.exists_of_mem_mapM {α β : Type} {f : α → Option β} {items : List α} {all : List β} {b : β}
    (h : items.mapM f = some all) (hb : b ∈ all) : ∃ a ∈ items, f a = some b := by
  induction items generalizing all with
  | nil =>
      obtain rfl := Option.some.inj h
      contradiction
  | cons a items ih =>
      rw [List.mapM_cons] at h
      obtain ⟨first, hfirst, h⟩ := Option.bind_eq_some_iff.1 h
      obtain ⟨more, hmore, h⟩ := Option.bind_eq_some_iff.1 h
      obtain rfl := Option.some.inj h
      rcases List.mem_cons.1 hb with rfl | hrest
      · exact ⟨a, List.mem_cons_self, hfirst⟩
      · obtain ⟨a', ha', hf⟩ := ih hmore hrest
        exact ⟨a', List.mem_cons_of_mem a ha', hf⟩

theorem Toml.ordered_rules {v : Toml.Value} {rules : List Rule} (hv : v.Ordered) (h : Toml.rules? v = some rules) :
    ∀ rule ∈ rules, rule.Ordered := by
  unfold Toml.rules? at h
  split at h
  · next items =>
      intro rule hrule
      obtain ⟨item, hitem, hread⟩ := Toml.exists_of_mem_mapM h hrule
      exact Rule.ordered_ofToml (Toml.ordered_of_mem hv hitem) hread
  · contradiction

theorem Config.ordered_ofToml {text : String} {config : Config} (h : Config.ofToml? text = some config) :
    config.Ordered := by
  obtain ⟨entries, hentries, h⟩ := Option.bind_eq_some_iff.1 h
  obtain ⟨rules, hrules, h⟩ := Option.bind_eq_some_iff.1 h
  obtain ⟨defaults, hdefaults, h⟩ := Option.bind_eq_some_iff.1 h
  obtain rfl := Option.some.inj h
  have hvalues := Toml.ascendingWith_document hentries
  have hnil : ∀ rule ∈ ([] : List Rule), rule.Ordered := by simp
  have hnone : ∀ t ∈ (none : Option Tree), t.Ordered := by simp
  constructor
  · exact Toml.member_ensures hnil (fun v _ hfind => Toml.ordered_rules (hvalues.find hfind)) hrules
  · apply Toml.member_ensures hnone ?_ hdefaults
    intro v found hfind hread t ht
    obtain rfl := Option.some.inj hread
    obtain rfl := Option.mem_some_iff.1 ht
    exact hvalues.find hfind

theorem Config.parse_json_eq_ok {text : String} {config : Config} :
    Config.parse .json text = .ok config ↔ Config.ofJson text = .ok config := by
  unfold Config.parse
  cases Config.ofJson text <;> simp

/-- Whatever configuration is read, in whatever format, is ordered. -/
theorem Config.ordered_parse {format : Format} {text : String} {config : Config}
    (h : Config.parse format text = .ok config) : config.Ordered := by
  cases format with
  | json => exact Config.ordered_ofJson text config (Config.parse_json_eq_ok.1 h)
  | toml =>
      unfold Config.parse at h
      dsimp only at h
      split at h
      · next read hread =>
          obtain rfl := Except.ok.inj h
          exact Config.ordered_ofToml hread
      · contradiction
  | json5 => contradiction
  | yaml => contradiction

end Groupwise
