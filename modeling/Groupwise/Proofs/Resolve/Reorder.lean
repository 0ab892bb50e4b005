import Groupwise.Proofs.Ensures
import Groupwise.Proofs.Rearrange
import Groupwise.Proofs.Resolve.Run
import Groupwise.Proofs.Tree.Overwrite

namespace Groupwise

namespace Rule

/-- Two rules hold, and some path of one of them is the same as some path of the other, or goes on from it. -/
def Overlaps (groups : Groups) (rule other : Rule) : Prop :=
  rule.Holds groups ∧ other.Holds groups ∧
    ∃ path ∈ Members.keys rule.overrides, ∃ path' ∈ Members.keys other.overrides,
      keysOf path <+: keysOf path' ∨ keysOf path' <+: keysOf path

instance (groups : Groups) (rule other : Rule) : Decidable (rule.Overlaps groups other) :=
  inferInstanceAs (Decidable (_ ∧ _))

variable {groups : Groups} {rule other : Rule} {w : Write}

theorem apart_of_not_overlaps (h : ¬ rule.Overlaps groups other) {x : Write} (hw : w ∈ rule.writes groups)
    (hx : x ∈ other.writes groups) : Apart w.keys x.keys := by
  obtain ⟨hrule, path, hpath, hkeys⟩ := exists_of_mem_writes hw
  obtain ⟨hother, path', hpath', hkeys'⟩ := exists_of_mem_writes hx
  rw [hkeys, hkeys']
  constructor
  · intro hprefix
    exact h ⟨hrule, hother, path, hpath, path', hpath', .inl hprefix⟩
  · intro hprefix
    exact h ⟨hrule, hother, path, hpath, path', hpath', .inr hprefix⟩

end Rule

variable {groups : Groups} {rules : List Rule} {order : List (Rule × Nat)}

theorem writeAll_flatMap_writes (order : List (Rule × Nat)) (properties : Properties) :
    properties.writeAll ((order.map Prod.fst).flatMap (·.writes groups)) =
      order.foldl (fun properties place => properties.writeAll (place.1.writes groups)) properties := by
  rw [List.flatMap_map]
  exact List.foldl_flatMap

theorem pairwise_zipIdx (rules : List Rule) : rules.zipIdx.Pairwise fun a b => a.2 < b.2 := by
  apply List.pairwise_map.1
  rw [List.zipIdx_map_snd]
  exact List.pairwise_lt_range'

theorem writeAll_of_perm (hperm : order.Perm rules.zipIdx)
    (hkept : order.Pairwise fun a b => a.1.Overlaps groups b.1 → a.2 < b.2) (properties : Properties) :
    properties.writeAll ((order.map Prod.fst).flatMap (·.writes groups)) =
      properties.writeAll (rules.flatMap (·.writes groups)) := by
  -- Rules that do not overlap write to places that are apart, so they commute.
  have horder : order.Pairwise fun a b => a.2 < b.2 ∨
      Commute (fun properties place => Properties.writeAll (Rule.writes groups place.1) properties) a b := by
    apply hkept.imp
    intro a b hplaces
    by_cases hoverlaps : a.1.Overlaps groups b.1
    · exact .inl (hplaces hoverlaps)
    · refine .inr fun properties => ?_
      apply Properties.writeAll_writeAll_of_apart
      exact fun w hw x hx => Rule.apart_of_not_overlaps hoverlaps hw hx
  calc properties.writeAll ((order.map Prod.fst).flatMap (·.writes groups))
    _ = order.foldl (fun properties place => properties.writeAll (place.1.writes groups)) properties :=
      writeAll_flatMap_writes order properties
    _ = rules.zipIdx.foldl (fun properties place => properties.writeAll (place.1.writes groups)) properties :=
      foldl_eq_of_perm (fun _ _ => Nat.lt_asymm) (pairwise_zipIdx rules) hperm horder properties
    _ = properties.writeAll ((rules.zipIdx.map Prod.fst).flatMap (·.writes groups)) :=
      (writeAll_flatMap_writes rules.zipIdx properties).symm
    _ = properties.writeAll (rules.flatMap (·.writes groups)) := by rw [List.zipIdx_map_fst]

theorem findSome?_fault?_of_perm {rules' : List Rule} (hperm : rules'.Perm rules)
    (h : rules.findSome? (·.fault? groups) = none) : rules'.findSome? (·.fault? groups) = none := by
  rw [List.findSome?_eq_none_iff] at h ⊢
  exact fun rule hrule => h rule (hperm.mem_iff.1 hrule)

namespace Config

/-- Rules may change places, as long as those that overlap keep their order. -/
theorem outcome_resolve_reordered {config : Config} {format : Format} {result : Properties}
    (h : (config.resolve groups format).outcome = .ok result) (hperm : order.Perm config.rules.zipIdx)
    (hkept : order.Pairwise fun a b => a.1.Overlaps groups b.1 → a.2 < b.2) :
    ({ config with rules := order.map Prod.fst }.resolve groups format).outcome = .ok result := by
  obtain ⟨defaults, hdefaults, hfault, rfl⟩ := outcome_resolve_eq_ok.1 h
  have hrules : (order.map Prod.fst).Perm config.rules := by
    have hfirst := hperm.map Prod.fst
    rwa [List.zipIdx_map_fst] at hfirst
  have hfault' := findSome?_fault?_of_perm hrules hfault
  exact outcome_resolve_eq_ok.2 ⟨defaults, hdefaults, hfault', writeAll_of_perm hperm hkept defaults⟩

theorem outcome_resolve_reordered_around :
    let first : Rule := ⟨[], ["g"], [], none, [("a.b", .number (.integer 1))]⟩
    let second : Rule := ⟨[], ["g"], [], none, [("a.c", .null)]⟩
    let third : Rule := ⟨["g"], [], [], none, [("a.b.d", .number (.integer 2))]⟩
    let last : Rule := ⟨[], ["h"], [], none, [("a", .number (.integer 3))]⟩
    let defaults : Option Tree := some (.object [("a", .string "x")])
    let groups := Groups.ofList ["g"]
    let result : Properties := [("a", .object [("b", .object [("d", .number (.integer 2))]), ("c", .null)])]
    (resolve ⟨[first, second, third, last], defaults⟩ groups .json).outcome = .ok result ∧
      (resolve ⟨[last, second, first, third], defaults⟩ groups .json).outcome = .ok result := by
  intro first second third last defaults groups result
  have h : (resolve ⟨[first, second, third, last], defaults⟩ groups .json).outcome = .ok result :=
    Outcome.eq_ok_of_toOption (by decide +kernel)
  have hkept : [(last, 3), (second, 1), (first, 0), (third, 2)].Pairwise
      fun a b => a.1.Overlaps groups b.1 → a.2 < b.2 := by decide +kernel
  exact ⟨h, outcome_resolve_reordered h (by decide +kernel) hkept⟩

end Config

end Groupwise
