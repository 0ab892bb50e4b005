import Groupwise.Proofs.Toml.Table
import Groupwise.Toml.Document

namespace Groupwise.Toml

open Node

def Yields (read : Reader Value) : Prop := ∀ s v rest, read s = some (v, rest) → v.Ordered

theorem ordered_items {read : Reader Value} (hread : Yields read) {s rest : List Char} {all : List Value}
    (h : items read s = some (all, rest)) : ∀ v ∈ all, v.Ordered := by
  fun_induction items read s generalizing all rest with
  | case1 s ih =>
      obtain ⟨start, -, h⟩ := Option.bind_eq_some_iff.1 h
      split at h
      · obtain ⟨rfl, -⟩ := by simpa using h
        simp
      · obtain ⟨⟨first, tail⟩, hfirst, h⟩ := Option.bind_eq_some_iff.1 h
        obtain ⟨line, -, h⟩ := Option.bind_eq_some_iff.1 h
        have hv := hread _ _ _ hfirst
        split at h
        · obtain ⟨rfl, -⟩ := by simpa using h
          simpa using hv
        · next tail _ =>
            split at h
            · next hless =>
                obtain ⟨⟨more, tail⟩, hmore, h⟩ := Option.bind_eq_some_iff.1 h
                obtain ⟨rfl, -⟩ := by simpa using h
                exact List.forall_mem_cons.2 ⟨hv, ih _ hless hmore⟩
            · contradiction
        · contradiction

theorem ordered_assignment {read : Reader Value} (hread : Yields read) {s rest : List Char} {keys : List String}
    {v : Value} (h : assignment read s = some ((keys, v), rest)) : v.Ordered := by
  obtain ⟨⟨keys', rest'⟩, -, h⟩ := Option.bind_eq_some_iff.1 h
  dsimp only at h
  split at h
  · obtain ⟨⟨v', rest'⟩, hv, h⟩ := Option.bind_eq_some_iff.1 h
    obtain ⟨⟨-, rfl⟩, -⟩ := by simpa using h
    exact hread _ _ _ hv
  · contradiction

theorem ascendingWith_assignments {read : Reader Value} (hread : Yields read) {entries result : Members Node}
    {s rest : List Char} (hentries : entries.AscendingWith Node.Ordered)
    (h : assignments read entries s = some (result, rest)) : result.AscendingWith Node.Ordered := by
  fun_induction assignments read entries s generalizing result rest with
  | case1 entries s ih =>
      obtain ⟨⟨⟨keys, v⟩, tail⟩, hv, h⟩ := Option.bind_eq_some_iff.1 h
      obtain ⟨more, hmore, h⟩ := Option.bind_eq_some_iff.1 h
      have hordered := ascendingWith_assign (ordered_assignment hread hv) hentries hmore
      split at h
      · obtain ⟨rfl, -⟩ := by simpa using h
        exact hordered
      · split at h
        · next hless => exact ih _ _ hless hordered h
        · contradiction
      · contradiction

theorem ordered_whole {negative : Bool} {magnitude : Nat} {v : Value}
    (h : whole? negative magnitude = some v) : v.Ordered := by
  rw [whole?] at h
  split at h <;> split at h
  · obtain rfl := Option.some.inj h
    exact .number _
  · contradiction
  · obtain rfl := Option.some.inj h
    exact .number _
  · contradiction

theorem ordered_unsigned {negative : Bool} {s : List Char} {v : Value}
    (h : unsigned? negative s = some v) : v.Ordered := by
  obtain ⟨digits, -, h⟩ := Option.bind_eq_some_iff.1 h
  split at h
  · exact ordered_whole h
  · obtain ⟨places, -, h⟩ := Option.bind_eq_some_iff.1 h
    obtain ⟨power, -, h⟩ := Option.bind_eq_some_iff.1 h
    obtain ⟨x, -, h⟩ := Option.bind_eq_some_iff.1 h
    obtain rfl := Option.some.inj h
    exact .number _
  · obtain ⟨power, -, h⟩ := Option.bind_eq_some_iff.1 h
    obtain ⟨x, -, h⟩ := Option.bind_eq_some_iff.1 h
    obtain rfl := Option.some.inj h
    exact .number _

theorem ordered_number {s : List Char} {v : Value} (h : number? s = some v) : v.Ordered := by
  unfold number? at h
  split at h
  · obtain ⟨n, -, h⟩ := Option.bind_eq_some_iff.1 h
    exact ordered_whole h
  · obtain ⟨n, -, h⟩ := Option.bind_eq_some_iff.1 h
    exact ordered_whole h
  · obtain ⟨n, -, h⟩ := Option.bind_eq_some_iff.1 h
    exact ordered_whole h
  · split at h
    · obtain rfl := Option.some.inj h
      exact .null
    · obtain rfl := Option.some.inj h
      exact .null
    · exact ordered_unsigned h

theorem ordered_scalar {s : List Char} {v : Value} (h : scalar? s = some v) : v.Ordered := by
  rw [scalar?] at h
  split at h
  · obtain rfl := Option.some.inj h
    exact .bool _
  split at h
  · obtain rfl := Option.some.inj h
    exact .bool _
  split at h
  · obtain rfl := Option.some.inj h
    exact Tree.ordered_object.2 (Value.ascendingWith_momentMembers _)
  · exact ordered_number h

theorem yields_value (levels : Nat) : Yields (value levels) := by
  intro s v rest h
  unfold value at h
  split at h
  · obtain ⟨⟨text, tail⟩, -, h⟩ := Option.map_eq_some_iff.1 h
    obtain ⟨rfl, -⟩ := by simpa using h
    exact .string text
  · obtain ⟨⟨text, tail⟩, -, h⟩ := Option.map_eq_some_iff.1 h
    obtain ⟨rfl, -⟩ := by simpa using h
    exact .string text
  · cases levels with
    | zero => contradiction
    | succ levels =>
        obtain ⟨⟨all, tail⟩, hall, h⟩ := Option.map_eq_some_iff.1 h
        obtain ⟨rfl, -⟩ := by simpa using h
        exact Value.ordered_array (ordered_items (yields_value levels) hall)
  · cases levels with
    | zero => contradiction
    | succ levels =>
        dsimp only at h
        split at h
        · obtain ⟨rfl, -⟩ := by simpa using h
          exact Value.ordered_table .nil
        · obtain ⟨⟨entries, tail⟩, hentries, h⟩ := Option.map_eq_some_iff.1 h
          obtain ⟨rfl, -⟩ := by simpa using h
          exact Value.ordered_table
            (ascendingWith_closeEntries (ascendingWith_assignments (yields_value levels) .nil hentries))
  · obtain ⟨w, hw, h⟩ := Option.map_eq_some_iff.1 h
    obtain ⟨rfl, -⟩ := by simpa using h
    exact ordered_scalar hw

theorem ascendingWith_header {element : Bool} {state after : State} {s rest : List Char}
    (hstate : state.root.AscendingWith Node.Ordered) (h : header element state s = some (after, rest)) :
    after.root.AscendingWith Node.Ordered := by
  obtain ⟨⟨keys, tail⟩, -, h⟩ := Option.bind_eq_some_iff.1 h
  dsimp only at h
  have hchange {last : String} {root : Members Node}
      (hroot : change (if element then append last else head last) keys.dropLast state.root = some root) :
      root.AscendingWith Node.Ordered := by
    apply ascendingWith_change _ hstate hroot
    intro before after hbefore hafter
    split at hafter
    · exact ascendingWith_append hbefore hafter
    · exact ascendingWith_head hbefore hafter
  split at h
  · obtain ⟨tail, -, h⟩ := Option.bind_eq_some_iff.1 h
    obtain ⟨last, -, h⟩ := Option.bind_eq_some_iff.1 h
    obtain ⟨root, hroot, h⟩ := Option.bind_eq_some_iff.1 h
    obtain ⟨rfl, -⟩ := by simpa using h
    exact hchange hroot
  · obtain ⟨tail, -, h⟩ := Option.bind_eq_some_iff.1 h
    obtain ⟨last, -, h⟩ := Option.bind_eq_some_iff.1 h
    obtain ⟨root, hroot, h⟩ := Option.bind_eq_some_iff.1 h
    obtain ⟨rfl, -⟩ := by simpa using h
    exact hchange hroot
  · contradiction

theorem ascendingWith_statement {state after : State} {s rest : List Char}
    (hstate : state.root.AscendingWith Node.Ordered) (h : statement state s = some (after, rest)) :
    after.root.AscendingWith Node.Ordered := by
  unfold statement at h
  split at h
  · exact ascendingWith_header hstate h
  · exact ascendingWith_header hstate h
  · obtain ⟨⟨⟨keys, v⟩, tail⟩, hv, h⟩ := Option.bind_eq_some_iff.1 h
    obtain ⟨root, hroot, h⟩ := Option.bind_eq_some_iff.1 h
    obtain ⟨rfl, -⟩ := by simpa using h
    apply ascendingWith_change _ hstate hroot
    intro before after hbefore hafter
    exact ascendingWith_assign (ordered_assignment (yields_value maxLevels) hv) hbefore hafter

theorem ascendingWith_statements {state after : State} {s : List Char}
    (hstate : state.root.AscendingWith Node.Ordered) (h : statements state s = some after) :
    after.root.AscendingWith Node.Ordered := by
  fun_induction statements state s generalizing after with
  | case1 state s ih =>
      obtain ⟨start, -, h⟩ := Option.bind_eq_some_iff.1 h
      split at h
      · obtain rfl := Option.some.inj h
        exact hstate
      · obtain ⟨⟨next, tail⟩, hnext, h⟩ := Option.bind_eq_some_iff.1 h
        obtain ⟨line, -, h⟩ := Option.bind_eq_some_iff.1 h
        have hordered := ascendingWith_statement hstate hnext
        split at h
        · split at h
          · next hless => exact ih _ _ hless hordered h
          · contradiction
        · split at h
          · obtain rfl := Option.some.inj h
            exact hordered
          · contradiction

theorem ascendingWith_document {text : String} {entries : Members Value} (h : document? text = some entries) :
    entries.AscendingWith Value.Ordered := by
  obtain ⟨state, hstate, h⟩ := Option.bind_eq_some_iff.1 h
  obtain rfl := Option.some.inj h
  exact ascendingWith_closeEntries (ascendingWith_statements .nil hstate)

end Groupwise.Toml
