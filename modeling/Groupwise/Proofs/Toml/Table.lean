import Groupwise.Proofs.Tree.Ordered
import Groupwise.Toml.Table

namespace Groupwise.Toml

namespace Value

def Ordered (v : Value) : Prop := v.toTree.Ordered

theorem toTrees_eq_map (items : List Value) : toTrees items = items.map toTree := by
  induction items with
  | nil => rfl
  | cons v items ih => rw [toTrees, ih, List.map_cons]

theorem toMembers_eq_map (entries : List (String × Value)) :
    toMembers entries = entries.map (fun entry => (entry.1, toTree entry.2)) := by
  induction entries with
  | nil => rfl
  | cons entry entries ih => rw [toMembers, ih, List.map_cons]

theorem ordered_array {items : List Value} (h : ∀ v ∈ items, v.Ordered) : (array items).Ordered := by
  rw [Ordered, toTree, toTrees_eq_map]
  apply Tree.Ordered.array
  intro t ht
  obtain ⟨v, hv, rfl⟩ := List.mem_map.1 ht
  exact h v hv

theorem ascendingWith_toMembers {entries : Members Value} (h : entries.AscendingWith Ordered) :
    Members.AscendingWith Tree.Ordered (toMembers entries) := by
  rw [toMembers_eq_map]
  refine ⟨by simpa [Members.Ascending, Members.keys, Function.comp_def] using h.ascending, ?_⟩
  intro entry hentry
  obtain ⟨old, hold, rfl⟩ := List.mem_map.1 hentry
  exact h.values old hold

theorem ordered_table {entries : Members Value} (h : entries.AscendingWith Ordered) : (table entries).Ordered :=
  Tree.ordered_object.2 (ascendingWith_toMembers h)

theorem ascendingWith_momentMembers (text : String) :
    Members.AscendingWith Tree.Ordered (momentMembers text) :=
  Members.AscendingWith.nil.insert momentKey (.string text)

end Value

namespace Node

inductive Ordered : Node → Prop
  | value {v : Value} (hv : v.Ordered) : Ordered (.value v)
  | table (origin : Origin) {entries : Members Node} (hkeys : entries.Ascending)
      (hentries : ∀ entry ∈ entries, Ordered entry.2) : Ordered (.table origin entries)
  | tables {elements : List Node} (helements : ∀ node ∈ elements, Ordered node) : Ordered (.tables elements)

theorem ordered_table {origin : Origin} {entries : Members Node} :
    Ordered (.table origin entries) ↔ entries.AscendingWith Ordered := by
  constructor
  · rintro (_ | ⟨_, hkeys, hentries⟩)
    exact ⟨hkeys, hentries⟩
  · rintro ⟨hkeys, hentries⟩
    exact .table origin hkeys hentries

theorem ordered_tables_cons {node : Node} {older : List Node} :
    Ordered (.tables (node :: older)) ↔ node.Ordered ∧ ∀ other ∈ older, other.Ordered := by
  constructor
  · rintro (_ | _ | helements)
    exact List.forall_mem_cons.1 helements
  · intro helements
    exact .tables (List.forall_mem_cons.2 helements)

theorem closeEntries_eq_map (entries : List (String × Node)) :
    closeEntries entries = entries.map (fun entry => (entry.1, close entry.2)) := by
  induction entries with
  | nil => rfl
  | cons entry entries ih => rw [closeEntries, ih, List.map_cons]

theorem closeElements_eq_map (elements : List Node) : closeElements elements = elements.map close := by
  induction elements with
  | nil => rfl
  | cons node elements ih => rw [closeElements, ih, List.map_cons]

theorem ascendingWith_map_close {entries : Members Node} (hkeys : entries.Ascending)
    (h : ∀ entry ∈ entries, (close entry.2).Ordered) :
    Members.AscendingWith Value.Ordered (closeEntries entries) := by
  rw [closeEntries_eq_map]
  refine ⟨by simpa [Members.Ascending, Members.keys, Function.comp_def] using hkeys, ?_⟩
  intro entry hentry
  obtain ⟨old, hold, rfl⟩ := List.mem_map.1 hentry
  exact h old hold

theorem ordered_close {node : Node} (h : node.Ordered) : (close node).Ordered := by
  induction h with
  | value hv => exact hv
  | table origin hkeys _ ih =>
      rw [close]
      exact Value.ordered_table (ascendingWith_map_close hkeys ih)
  | tables _ ih =>
      rw [close, closeElements_eq_map]
      apply Value.ordered_array
      intro v hv
      obtain ⟨node, hnode, rfl⟩ := List.mem_map.1 (List.mem_reverse.1 hv)
      exact ih node hnode

theorem ascendingWith_closeEntries {entries : Members Node} (h : entries.AscendingWith Ordered) :
    Members.AscendingWith Value.Ordered (closeEntries entries) :=
  ascendingWith_map_close h.ascending fun entry hentry => ordered_close (h.values entry hentry)

theorem ascendingWith_assign {v : Value} {own : Bool} {keys : List String} {entries result : Members Node}
    (hv : v.Ordered) (hentries : entries.AscendingWith Ordered)
    (h : assign v own keys entries = some result) : result.AscendingWith Ordered := by
  fun_induction assign v own keys entries generalizing result with
  | case1 | case3 | case5 | case8 => contradiction
  | case2 own key entries _ =>
      obtain rfl := Option.some.inj h
      exact hentries.insert key (.value hv)
  | case4 own key keys entries _ _ ih =>
      obtain ⟨inner, hinner, h⟩ := Option.bind_eq_some_iff.1 h
      obtain rfl := Option.some.inj h
      exact hentries.insert key (ordered_table.2 (ih .nil hinner))
  | case6 own key keys entries _ origin inner _ hfind ih =>
      obtain ⟨inner', hinner, h⟩ := Option.bind_eq_some_iff.1 h
      obtain rfl := Option.some.inj h
      exact hentries.insert key (ordered_table.2 (ih (ordered_table.1 (hentries.find hfind)) hinner))
  | case7 own key keys entries _ origin inner older hfind ih =>
      obtain ⟨inner', hinner, h⟩ := Option.bind_eq_some_iff.1 h
      obtain rfl := Option.some.inj h
      obtain ⟨hfirst, holder⟩ := ordered_tables_cons.1 (hentries.find hfind)
      exact hentries.insert key (ordered_tables_cons.2
        ⟨ordered_table.2 (ih (ordered_table.1 hfirst) hinner), holder⟩)

theorem ascendingWith_change {f : Members Node → Option (Members Node)} {keys : List String}
    {entries result : Members Node}
    (hf : ∀ before after : Members Node, before.AscendingWith Ordered → f before = some after →
      after.AscendingWith Ordered)
    (hentries : entries.AscendingWith Ordered) (h : change f keys entries = some result) :
    result.AscendingWith Ordered := by
  fun_induction change f keys entries generalizing result with
  | case1 entries => exact hf entries result hentries h
  | case2 key keys entries _ ih =>
      obtain ⟨inner, hinner, h⟩ := Option.bind_eq_some_iff.1 h
      obtain rfl := Option.some.inj h
      exact hentries.insert key (ordered_table.2 (ih .nil hinner))
  | case3 key keys entries origin inner hfind ih =>
      obtain ⟨inner', hinner, h⟩ := Option.bind_eq_some_iff.1 h
      obtain rfl := Option.some.inj h
      exact hentries.insert key (ordered_table.2 (ih (ordered_table.1 (hentries.find hfind)) hinner))
  | case4 key keys entries origin inner older hfind ih =>
      obtain ⟨inner', hinner, h⟩ := Option.bind_eq_some_iff.1 h
      obtain rfl := Option.some.inj h
      obtain ⟨hfirst, holder⟩ := ordered_tables_cons.1 (hentries.find hfind)
      exact hentries.insert key (ordered_tables_cons.2
        ⟨ordered_table.2 (ih (ordered_table.1 hfirst) hinner), holder⟩)
  | case5 => contradiction

theorem ascendingWith_head {key : String} {entries result : Members Node}
    (hentries : entries.AscendingWith Ordered) (h : head key entries = some result) :
    result.AscendingWith Ordered := by
  rw [head] at h
  split at h
  · obtain rfl := Option.some.inj h
    exact hentries.insert key (ordered_table.2 .nil)
  · next inner hfind =>
      obtain rfl := Option.some.inj h
      exact hentries.insert key (ordered_table.2 (ordered_table.1 (hentries.find hfind)))
  · contradiction

theorem ascendingWith_append {key : String} {entries result : Members Node}
    (hentries : entries.AscendingWith Ordered) (h : append key entries = some result) :
    result.AscendingWith Ordered := by
  have hempty : Ordered (.table .headed []) := ordered_table.2 .nil
  rw [append] at h
  split at h
  · obtain rfl := Option.some.inj h
    exact hentries.insert key (.tables (by simpa using hempty))
  · next elements hfind =>
      obtain rfl := Option.some.inj h
      cases hentries.find hfind with
      | tables helements => exact hentries.insert key (.tables (by simpa using ⟨hempty, helements⟩))
  · contradiction

end Node

end Groupwise.Toml
