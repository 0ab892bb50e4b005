import Groupwise.Config
import Groupwise.Criterion
import Groupwise.Proofs.Tree.Meaning

namespace Groupwise

namespace Rule

def fieldKeys : List String :=
  [Criterion.allGroups.name, Criterion.anyGroup.name, Criterion.noneOfGroups.name, Criterion.expression.name, overrideKey]

/-- Every field is what the member with its key gives. Other members do not count. -/
structure DescribedBy (entries : Members Tree) (rule : Rule) : Prop where
  allGroups : Gives [] (Tree.IsList Tree.IsString) (entries.find? Criterion.allGroups.name) rule.allGroups
  anyGroup : Gives [] (Tree.IsList Tree.IsString) (entries.find? Criterion.anyGroup.name) rule.anyGroup
  noneOfGroups : Gives [] (Tree.IsList Tree.IsString) (entries.find? Criterion.noneOfGroups.name) rule.noneOfGroups
  expression : Gives none (Tree.IsSome Tree.IsString) (entries.find? Criterion.expression.name) rule.expression
  overrides : Gives [] Tree.HasMembers (entries.find? overrideKey) rule.overrides

def Described (t : Tree) (rule : Rule) : Prop := t.IsRecord fieldKeys DescribedBy rule

structure ShapedBy (entries : Members Tree) : Prop where
  allGroups : Optionally (Tree.IsListOf fun t => ∃ s, t = .string s) (entries.find? Criterion.allGroups.name)
  anyGroup : Optionally (Tree.IsListOf fun t => ∃ s, t = .string s) (entries.find? Criterion.anyGroup.name)
  noneOfGroups : Optionally (Tree.IsListOf fun t => ∃ s, t = .string s) (entries.find? Criterion.noneOfGroups.name)
  expression : Optionally (fun t => ∃ s, t = .string s) (entries.find? Criterion.expression.name)
  overrides : Optionally (fun t => ∃ members, t = .object members) (entries.find? overrideKey)

def Shaped (t : Tree) : Prop := ∃ entries, t.HasFields fieldKeys entries ∧ ShapedBy entries

theorem definiteMembers_describedBy : Tree.DefiniteMembers DescribedBy where
  unique := by
    intro entries hentries a b ha hb
    have hnames := Tree.definite_isString.isList
    cases a
    cases b
    rw [Rule.mk.injEq]
    exact ⟨ha.allGroups.unique hb.allGroups hnames (hentries.found _),
      ha.anyGroup.unique hb.anyGroup hnames (hentries.found _),
      ha.noneOfGroups.unique hb.noneOfGroups hnames (hentries.found _),
      ha.expression.unique hb.expression Tree.definite_isString.isSome (hentries.found _),
      ha.overrides.unique hb.overrides Tree.definite_hasMembers (hentries.found _)⟩
  sorted := by
    intro entries others hentries hfind rule
    have hnames := fun key => hfind.gives_iff hentries Tree.definite_isString.isList key []
    have htext := hfind.gives_iff hentries Tree.definite_isString.isSome Criterion.expression.name none rule.expression
    have hoverrides := hfind.gives_iff hentries Tree.definite_hasMembers overrideKey [] rule.overrides
    constructor
    · intro h
      exact ⟨(hnames _ _).1 h.allGroups, (hnames _ _).1 h.anyGroup, (hnames _ _).1 h.noneOfGroups, htext.1 h.expression,
        hoverrides.1 h.overrides⟩
    · intro h
      exact ⟨(hnames _ _).2 h.allGroups, (hnames _ _).2 h.anyGroup, (hnames _ _).2 h.noneOfGroups, htext.2 h.expression,
        hoverrides.2 h.overrides⟩

theorem definite_described : Tree.Definite Described := definiteMembers_describedBy.isRecord fieldKeys

theorem exists_describedBy_iff (entries : Members Tree) (hentries : Tree.EachDistinct entries) :
    (∃ rule, DescribedBy entries rule) ↔ ShapedBy entries := by
  have hnames : ∀ key, (∃ names, Gives [] (Tree.IsList Tree.IsString) (entries.find? key) names) ↔
      Optionally (Tree.IsListOf fun t => ∃ s, t = .string s) (entries.find? key) :=
    fun key => exists_gives_iff fun t ht => Tree.exists_isList_iff (fun _ _ => Iff.rfl) (hentries.found key t ht)
  have htext : ∀ key, (∃ text, Gives none (Tree.IsSome Tree.IsString) (entries.find? key) text) ↔
      Optionally (fun t => ∃ s, t = .string s) (entries.find? key) :=
    fun key => exists_gives_iff fun t ht => Tree.exists_isSome_iff
  have hoverrides : ∀ key, (∃ overrides, Gives [] Tree.HasMembers (entries.find? key) overrides) ↔
      Optionally (fun t => ∃ members, t = .object members) (entries.find? key) :=
    fun key => exists_gives_iff fun t ht => Tree.exists_hasMembers_iff (hentries.found key t ht)
  constructor
  · rintro ⟨rule, h⟩
    exact ⟨(hnames _).1 ⟨_, h.allGroups⟩, (hnames _).1 ⟨_, h.anyGroup⟩, (hnames _).1 ⟨_, h.noneOfGroups⟩,
      (htext _).1 ⟨_, h.expression⟩, (hoverrides _).1 ⟨_, h.overrides⟩⟩
  · intro h
    obtain ⟨allGroups, hall⟩ := (hnames _).2 h.allGroups
    obtain ⟨anyGroup, hany⟩ := (hnames _).2 h.anyGroup
    obtain ⟨noneOfGroups, hnone⟩ := (hnames _).2 h.noneOfGroups
    obtain ⟨expression, hexpression⟩ := (htext _).2 h.expression
    obtain ⟨overrides, hoverride⟩ := (hoverrides _).2 h.overrides
    exact ⟨⟨allGroups, anyGroup, noneOfGroups, expression, overrides⟩, hall, hany, hnone, hexpression, hoverride⟩

theorem exists_described_iff {t : Tree} (ht : t.Distinct) : (∃ rule, Described t rule) ↔ Shaped t :=
  Tree.exists_isRecord_iff ht exists_describedBy_iff

end Rule

namespace Config

def fieldKeys : List String := [rulesKey, defaultsKey]

structure DescribedBy (entries : Members Tree) (config : Config) : Prop where
  rules : Gives [] (Tree.IsList Rule.Described) (entries.find? rulesKey) config.rules
  defaults : Gives none (Tree.IsSome Tree.Arranged) (entries.find? defaultsKey) config.defaults

def Described (t : Tree) (config : Config) : Prop := t.IsRecord fieldKeys DescribedBy config

/-- Default properties may be anything, so only rules have to be of some shape. -/
def Shaped (t : Tree) : Prop :=
  ∃ entries, t.HasFields fieldKeys entries ∧ Optionally (Tree.IsListOf Rule.Shaped) (entries.find? rulesKey)

theorem definiteMembers_describedBy : Tree.DefiniteMembers DescribedBy where
  unique := by
    intro entries hentries a b ha hb
    cases a
    cases b
    rw [Config.mk.injEq]
    exact ⟨ha.rules.unique hb.rules Rule.definite_described.isList (hentries.found _),
      ha.defaults.unique hb.defaults Tree.definite_arranged.isSome (hentries.found _)⟩
  sorted := by
    intro entries others hentries hfind config
    have hrules := hfind.gives_iff hentries Rule.definite_described.isList rulesKey [] config.rules
    have hdefaults := hfind.gives_iff hentries Tree.definite_arranged.isSome defaultsKey none config.defaults
    constructor
    · exact fun h => ⟨hrules.1 h.rules, hdefaults.1 h.defaults⟩
    · exact fun h => ⟨hrules.2 h.rules, hdefaults.2 h.defaults⟩

theorem definite_described : Tree.Definite Described := definiteMembers_describedBy.isRecord fieldKeys

theorem exists_describedBy_iff (entries : Members Tree) (hentries : Tree.EachDistinct entries) :
    (∃ config, DescribedBy entries config) ↔ Optionally (Tree.IsListOf Rule.Shaped) (entries.find? rulesKey) := by
  have hrules : (∃ rules, Gives [] (Tree.IsList Rule.Described) (entries.find? rulesKey) rules) ↔
      Optionally (Tree.IsListOf Rule.Shaped) (entries.find? rulesKey) :=
    exists_gives_iff fun t ht =>
      Tree.exists_isList_iff (fun _ hitem => Rule.exists_described_iff hitem) (hentries.found _ t ht)
  obtain ⟨defaults, hdefaults⟩ : ∃ defaults,
      Gives none (Tree.IsSome Tree.Arranged) (entries.find? defaultsKey) defaults :=
    exists_gives fun t ht => Tree.exists_isSome_iff.2 (Tree.exists_arranged (hentries.found _ t ht))
  rw [← hrules]
  constructor
  · rintro ⟨config, h⟩
    exact ⟨config.rules, h.rules⟩
  · rintro ⟨rules, h⟩
    exact ⟨⟨rules, defaults⟩, h, hdefaults⟩

theorem exists_described_iff {t : Tree} (ht : t.Distinct) : (∃ config, Described t config) ↔ Shaped t :=
  Tree.exists_isRecord_iff ht exists_describedBy_iff

end Config

end Groupwise
