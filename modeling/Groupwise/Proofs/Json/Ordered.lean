import Groupwise.Json.Reader
import Groupwise.Proofs.Ensures
import Groupwise.Proofs.Tree.Within

namespace Groupwise.Json

open Outcome

variable {α β σ : Type} {P : α → Prop} {I : σ → Prop}

def Yields (P : α → Prop) (read : Reader α) : Prop := ∀ ts, Ensures (fun r => P r.1) (read ts)

theorem Yields.trivial (read : Reader α) : Yields (fun _ => True) read := fun _ _ _ => True.intro

theorem yields_orNull {absent : α} {read : Reader α} (habsent : P absent) (h : Yields P read) :
    Yields P (orNull absent read) := by
  intro ts
  unfold orNull
  split
  · exact Ensures.ok.2 habsent
  · exact h ts

theorem yields_mapped {Q : β → Prop} {f : α → β} {read : Reader α} (h : Yields P read)
    (hf : ∀ a, P a → Q (f a)) : Yields Q (mapped f read) := by
  intro ts
  refine Ensures.bind (h ts) fun r hr => ?_
  exact Ensures.ok.2 (hf r.1 hr)

theorem ensures_items {item : Reader α} (h : Yields P item) (ts : List Token) :
    Ensures (fun r => ∀ a ∈ r.1, P a) (items item ts) := by
  fun_induction items item ts with
  | case1 ts ih =>
      refine Ensures.bind (h ts) ?_
      rintro ⟨first, rest, hrest⟩ hfirst
      dsimp only at hfirst ⊢
      split
      · simpa using hfirst
      · simp
      · simp
      · next rest hless _ _ =>
          refine Ensures.bind (ih rest hless) fun more hmore => ?_
          simpa using ⟨hfirst, hmore⟩
      · simp
      · simp

theorem ensures_itemsOfOpen {item : Reader α} (h : Yields P item) (ts : List Token) :
    Ensures (fun r => ∀ a ∈ r.1, P a) (itemsOfOpen item ts) := by
  unfold itemsOfOpen
  split
  · simp
  · simp
  · exact ensures_items h _

theorem yields_list {item : Reader α} (levels : Nat) (h : Yields P item) :
    Yields (fun all => ∀ a ∈ all, P a) (list levels item) := by
  intro ts
  unfold list
  split
  · split
    · exact Ensures.error
    · exact Ensures.bind (ensures_itemsOfOpen h _) fun r hr => Ensures.ok.2 hr
  · exact Ensures.error

def Keeps (I : σ → Prop) (member : MemberReader σ) : Prop :=
  ∀ key state, I state → Ensures (Yields I) (member key state)

theorem ensures_members {member : MemberReader σ} (h : Keeps I member) (state : σ) (ts : List Token)
    (hstate : I state) : Ensures (fun r => I r.1) (members member state ts) := by
  fun_induction members member state ts with
  | case1 state key rest ih =>
      refine Ensures.bind (h key state hstate) fun read hread => ?_
      refine Ensures.bind (hread rest) ?_
      rintro ⟨next, tail, htail⟩ hnext
      dsimp only at hnext ⊢
      split
      · simpa using hnext
      · simp
      · simp
      · next tail hless _ _ =>
          refine Ensures.bind (ih next tail tail hless hnext) fun r hr => ?_
          simpa using hr
      · simp
      · simp
  | case2 state key | case3 state key => exact Ensures.bind (h key state hstate) fun _ _ => Ensures.error
  | case4 | case5 | case6 => exact Ensures.error

theorem ensures_membersOfOpen {member : MemberReader σ} (h : Keeps I member) (state : σ) (ts : List Token)
    (hstate : I state) : Ensures (fun r => I r.1) (membersOfOpen member state ts) := by
  unfold membersOfOpen
  split
  · exact Ensures.ok.2 hstate
  · exact Ensures.error
  · exact ensures_members h state _ hstate

theorem keeps_entry {value : Reader α} (h : Yields P value) : Keeps (Members.AscendingWith P) (entry value) := by
  intro key before hbefore
  exact Ensures.ok.2 (yields_mapped h fun v hv => hbefore.insert key hv)

theorem yields_map {value : Reader α} (levels : Nat) (h : Yields P value) :
    Yields (Members.AscendingWith P) (map levels value) := by
  intro ts
  unfold map
  split
  · split
    · exact Ensures.error
    · exact Ensures.bind (ensures_membersOfOpen (keeps_entry h) [] _ .nil) fun r hr => Ensures.ok.2 hr
  · exact Ensures.error

theorem valid_of_number? {literal : Literal} {n : Number} (h : literal.number? = some n) : n.Valid := by
  simp only [Literal.number?] at h
  split at h
  · obtain rfl := Option.some.inj h
    simp only [Number.Valid]
    omega
  · split at h
    · obtain rfl := Option.some.inj h
      simp only [Number.Valid]
      omega
    · obtain ⟨x, -, rfl⟩ := Option.map_eq_some_iff.1 h
      exact True.intro

theorem ensures_number (literal : Literal) (rest : List Token) (levels : Nat) :
    Ensures (fun r => r.1.Within levels) (tree levels (.number literal :: rest)) := by
  rw [tree]
  split
  · next n hn => exact Ensures.ok.2 (.number levels (valid_of_number? hn))
  · exact Ensures.error

theorem yields_tree (levels : Nat) : Yields (Tree.Within levels) (tree levels) := by
  induction levels with
  | zero =>
      intro ts
      unfold tree
      split
      · exact Ensures.ok.2 (.null 0)
      · exact Ensures.ok.2 (.bool 0 _)
      · exact ensures_number _ _ 0
      · exact Ensures.ok.2 (.string 0 _)
      · exact Ensures.error
      · exact Ensures.error
      · exact Ensures.error
  | succ levels ih =>
      intro ts
      unfold tree
      split
      · exact Ensures.ok.2 (.null _)
      · exact Ensures.ok.2 (.bool _ _)
      · exact ensures_number _ _ (levels + 1)
      · exact Ensures.ok.2 (.string _ _)
      · refine Ensures.bind (ensures_itemsOfOpen ih _) fun r hr => ?_
        exact Ensures.ok.2 (.array hr)
      · refine Ensures.bind (ensures_membersOfOpen (keeps_entry ih) [] _ .nil) fun r hr => ?_
        exact Ensures.ok.2 (.object hr.ascending hr.values)
      · exact Ensures.error

theorem ensures_ne_null {levels : Nat} {ts : List Token} (h : ts.head? ≠ some .null) :
    Ensures (fun r => r.1 ≠ .null) (tree levels ts) := by
  unfold tree
  split
  · exact absurd rfl h
  · simp
  · split <;> simp
  · simp
  · split
    · simp
    · exact Ensures.bind_of_forall fun r => by simp
  · split
    · simp
    · exact Ensures.bind_of_forall fun r => by simp
  · simp

def KeepsAll (I : σ → Prop) (fields : List (FieldReader σ)) : Prop :=
  ∀ f ∈ fields, Yields (fun update => ∀ record, I record → I (update record)) f.read

theorem keepsAll_cons {f : FieldReader σ} {fields : List (FieldReader σ)} :
    KeepsAll I (f :: fields) ↔
      Yields (fun update => ∀ record, I record → I (update record)) f.read ∧ KeepsAll I fields :=
  List.forall_mem_cons

theorem keepsAll_nil : KeepsAll I [] := by
  intro f hf
  contradiction

theorem keeps_mapped {read : Reader α} {f : α → σ → σ} (h : Yields P read)
    (hf : ∀ a record, P a → I record → I (f a record)) :
    Yields (fun update => ∀ record, I record → I (update record)) (mapped f read) :=
  yields_mapped h fun a ha record hrecord => hf a record ha hrecord

theorem keeps_field {fields : List (FieldReader σ)} (h : KeepsAll I fields) :
    Keeps (fun state => I state.2) (field fields) := by
  rintro key ⟨seen, record⟩ hrecord
  simp only [field]
  split
  · next known hknown =>
      split
      · exact Ensures.error
      · exact Ensures.ok.2 (yields_mapped (h known (List.mem_of_find?_eq_some hknown))
          fun update hupdate => hupdate record hrecord)
  · exact Ensures.ok.2 (yields_mapped (Yields.trivial skip) fun _ _ => hrecord)

theorem ensures_values {fields : List (FieldReader σ)} (h : KeepsAll I fields) (record : σ) (first : Bool)
    (ts : List Token) (hrecord : I record) : Ensures (fun r => I r.1) (values record first fields ts) := by
  fun_induction values record first fields ts with
  | case1 | case5 => exact Ensures.ok.2 hrecord
  | case2 | case3 | case4 | case6 | case8 | case9 | case11 => exact Ensures.error
  | case7 record next fields t rest hclose ih | case10 record first next fields hfirst rest hclose hend hne ih =>
      have hfields : KeepsAll I fields := fun f hf => h f (List.mem_cons_of_mem next hf)
      refine Ensures.bind (h next List.mem_cons_self _) fun r hr => ?_
      exact Ensures.bind (ih r.1 r.2.1 hfields (hr record hrecord)) fun r hr => Ensures.ok.2 hr

theorem yields_record {fields : List (FieldReader σ)} {start : σ} (wanted : String) (levels : Nat)
    (h : KeepsAll I fields) (hstart : I start) : Yields I (Json.record wanted fields start levels) := by
  intro ts
  unfold Json.record
  split
  · split
    · exact Ensures.error
    · exact Ensures.bind (ensures_values h start true _ hstart) fun r hr => Ensures.ok.2 hr
  · split
    · exact Ensures.error
    · exact Ensures.bind (ensures_membersOfOpen (keeps_field h) ([], start) _ hstart) fun r hr => Ensures.ok.2 hr
  · exact Ensures.error

theorem ensures_readText {read : Reader α} (h : Yields P read) (text : String) : Ensures P (readText read text) := by
  refine Ensures.bind (h _) ?_
  rintro ⟨value, rest, hrest⟩ hvalue
  dsimp only at hvalue ⊢
  split
  · exact Ensures.ok.2 hvalue
  · exact Ensures.error

end Groupwise.Json
