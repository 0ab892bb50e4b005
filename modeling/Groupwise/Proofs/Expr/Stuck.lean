import Groupwise.Proofs.Expr.Lexer
import Groupwise.Proofs.Expr.Sound

namespace Groupwise.Expr

open State

def Shallow (places : List Place) : Prop := ∀ place ∈ places, place.overdeep = false

@[simp] theorem shallow_nil : Shallow [] := by
  simp [Shallow]

@[simp] theorem shallow_cons {place : Place} {places : List Place} :
    Shallow (place :: places) ↔ place.overdeep = false ∧ Shallow places :=
  List.forall_mem_cons

@[simp] theorem shallow_append {first second : List Place} :
    Shallow (first ++ second) ↔ Shallow first ∧ Shallow second :=
  List.forall_mem_append

section Viable

variable {α β : Type} {places : α → List Place} {places' : β → List Place} {front : List Token}

def Viable (places : α → List Place) (front : List Token) : Prop :=
  ∃ tree more, tokensOf (places tree) = front ++ more ∧ (∀ token ∈ more, token.symbol.Named) ∧ Shallow (places tree)

theorem Viable.extend (h : Viable places front) {extra : List Place} (hextra : Shallow extra) {f : α → β}
    (hf : ∀ tree, places' (f tree) = extra ++ places tree) : Viable places' (tokensOf extra ++ front) := by
  obtain ⟨tree, more, htokens, hnamed, hshallow⟩ := h
  refine ⟨f tree, more, ?_, hnamed, ?_⟩
  · rw [hf, tokensOf_append, htokens, List.append_assoc]
  · rw [hf, shallow_append]
    exact ⟨hextra, hshallow⟩

end Viable

theorem viable_primary_nil (around : Nat) : Viable (PrimaryTree.places around) [] := by
  refine ⟨.member 0 "a", _, rfl, ?_, ?_⟩
  · rintro token htoken group hgroup
    obtain rfl := List.mem_singleton.1 htoken
    obtain rfl := Symbol.member.inj hgroup
    decide
  · simp [PrimaryTree.places, Place.overdeep, Symbol.opens]

theorem viable_unary_nil (around : Nat) : Viable (UnaryTree.places around) [] :=
  (viable_primary_nil around).extend shallow_nil (f := .primary) fun _ => rfl

theorem viable_group {around position : Nat} {front : List Token} (hdepth : around < maxDepth)
    (h : Viable (OrTree.places (around + 1)) front) :
    Viable (PrimaryTree.places around) (⟨.open, position⟩ :: front) := by
  obtain ⟨inner, more, htokens, hnamed, hshallow⟩ := h
  refine ⟨.group position 0 inner, more ++ [⟨.close, 0⟩], ?_, ?_, ?_⟩
  · simp [PrimaryTree.places, htokens]
  · rw [List.forall_mem_append]
    refine ⟨hnamed, ?_⟩
    rintro token htoken group hgroup
    obtain rfl := List.mem_singleton.1 htoken
    contradiction
  · simp [PrimaryTree.places, hshallow, Place.overdeep, Symbol.opens, hdepth]

/--
How a reader of a derivation fails. Either it stops at a token, so that it fails alike whatever comes behind that
one, or the tokens end too soon.
-/
inductive Stops {α : Type} (read : Nat → List Token → Except Error (Expr × State)) (places : α → List Place)
    (stop : Nat) : List Token → Error → Prop
  | token {before after : List Token} {token : Token} {fault : Error} (hkind : fault.kind = .malformed)
      (hposition : fault.position = token.position) (hviable : Viable places before)
      (hsame : ∀ stop' after', read stop' (before ++ token :: after') = .error fault) :
      Stops read places stop (before ++ token :: after) fault
  | ended {ts : List Token} {fault : Error} (hkind : fault.kind = .malformed) (hposition : fault.position = stop)
      (hviable : Viable places ts) : Stops read places stop ts fault

variable {α β : Type} {places : α → List Place} {places' : β → List Place}

theorem Stops.head {read : Nat → List Token → Except Error (Expr × State)} {stop : Nat} {after : List Token}
    {token : Token} {fault : Error} (hkind : fault.kind = .malformed) (hposition : fault.position = token.position)
    (hviable : Viable places []) (hsame : ∀ stop' after', read stop' (token :: after') = .error fault) :
    Stops read places stop (token :: after) fault :=
  .token hkind hposition hviable hsame

/-- A reader fails as the one does that it calls behind `front`, as long as the next token is the same. -/
theorem Stops.lift {read read' : Nat → List Token → Except Error (Expr × State)} {stop : Nat} {ts : List Token}
    {fault : Error} (h : Stops read places stop ts fault) (front : List Token)
    (hread : ∀ stop' ts', ts'.head? = ts.head? → read stop' ts' = .error fault → read' stop' (front ++ ts') = .error fault)
    (hviable : ∀ ts', Viable places ts' → Viable places' (front ++ ts')) :
    Stops read' places' stop (front ++ ts) fault := by
  cases h with
  | @token before after token _ hkind hposition hbefore hsame =>
      rw [← List.append_assoc]
      refine .token hkind hposition (hviable before hbefore) fun stop' after' => ?_
      rw [List.append_assoc]
      apply hread stop' _ _ (hsame stop' after')
      cases before <;> rfl
  | ended hkind hposition hts => exact .ended hkind hposition (hviable ts hts)

theorem ends_of_not_next {symbol : Symbol} {s : State} (h : ¬ s.nextIs symbol) : Ends symbol s.tokens := by
  obtain ⟨ts, depth⟩ := s
  cases ts with
  | nil => exact ends_nil symbol
  | cons token rest => simpa [nextIs] using h

theorem ends_of_readAnds {stop : Nat} {left e : Expr} {s t : State} (h : plain (readAnds stop left s) = .ok (e, t)) :
    Ends .and t.tokens := by
  by_cases hnext : s.nextIs .and
  · have hlength := length_pass hnext
    rw [plain_readAnds_of_next stop left hnext] at h
    obtain ⟨⟨right, u⟩, hright, htail⟩ := Outcome.bind_eq_ok.1 h
    have hlength' := of_plain_eq_ok hright
    exact ends_of_readAnds htail
  · rw [plain_readAnds_of_not_next stop left hnext] at h
    obtain ⟨-, rfl⟩ := Prod.mk.inj (Except.ok.inj h)
    exact ends_of_not_next hnext
termination_by s.tokens.length

theorem ends_of_readAnd {stop : Nat} {e : Expr} {s t : State} (h : plain (readAnd stop s) = .ok (e, t)) :
    Ends .and t.tokens := by
  rw [plain_readAnd] at h
  obtain ⟨⟨left, u⟩, -, htail⟩ := Outcome.bind_eq_ok.1 h
  exact ends_of_readAnds htail

theorem ends_of_readOrs {stop : Nat} {left e : Expr} {s t : State} (hand : Ends .and s.tokens)
    (h : plain (readOrs stop left s) = .ok (e, t)) : Ends .and t.tokens ∧ Ends .or t.tokens := by
  by_cases hnext : s.nextIs .or
  · have hlength := length_pass hnext
    rw [plain_readOrs_of_next stop left hnext] at h
    obtain ⟨⟨right, u⟩, hright, htail⟩ := Outcome.bind_eq_ok.1 h
    have hlength' := of_plain_eq_ok hright
    exact ends_of_readOrs (ends_of_readAnd hright) htail
  · rw [plain_readOrs_of_not_next stop left hnext] at h
    obtain ⟨-, rfl⟩ := Prod.mk.inj (Except.ok.inj h)
    exact ⟨hand, ends_of_not_next hnext⟩
termination_by s.tokens.length

theorem ends_of_readOr {stop : Nat} {e : Expr} {s t : State} (h : plain (readOr stop s) = .ok (e, t)) :
    Ends .and t.tokens ∧ Ends .or t.tokens := by
  rw [plain_readOr] at h
  obtain ⟨⟨left, u⟩, hleft, htail⟩ := Outcome.bind_eq_ok.1 h
  exact ends_of_readOrs (ends_of_readAnd hleft) htail

theorem reading_of_shallow {places : List Place} (h : Shallow places) (e : Expr) (after : State) :
    reading places e after = .ok (e, after) := by
  have hfind : places.find? Place.overdeep = none := by
    simpa [Shallow] using h
  rw [reading, hfind]

theorem ends_congr {symbol : Symbol} {ts ts' : List Token} (hhead : ts'.head? = ts.head?) (h : Ends symbol ts) :
    Ends symbol ts' := by
  rwa [Ends, hhead]

theorem nextIs_congr {symbol : Symbol} {ts ts' : List Token} {depth : Nat} (hhead : ts'.head? = ts.head?) :
    State.nextIs symbol ⟨ts', depth⟩ = State.nextIs symbol ⟨ts, depth⟩ := by
  cases ts <;> cases ts' <;> simp_all [nextIs]

section Equations

variable (stop : Nat)

theorem plain_readOrs_or (left : Expr) (position depth : Nat) (rest : List Token) :
    plain (readOrs stop left ⟨⟨.or, position⟩ :: rest, depth⟩) =
      plain (readAnd stop ⟨rest, depth⟩) >>= fun r => plain (readOrs stop (.or left r.1) r.2) :=
  plain_readOrs_of_next stop left rfl

theorem plain_readAnds_and (left : Expr) (position depth : Nat) (rest : List Token) :
    plain (readAnds stop left ⟨⟨.and, position⟩ :: rest, depth⟩) =
      plain (readUnary stop ⟨rest, depth⟩) >>= fun r => plain (readAnds stop (.and left r.1) r.2) :=
  plain_readAnds_of_next stop left rfl

theorem cases_of_readPrimary_eq_error {depth : Nat} {ts : List Token} {fault : Error}
    (h : plain (readPrimary stop ⟨ts, depth⟩) = .error fault) :
    (ts = [] ∧ fault = ⟨.missingOperand, stop⟩) ∨
      (∃ token rest, ts = token :: rest ∧ fault = ⟨.notAnOperand token.symbol, token.position⟩ ∧
        ∀ stop' rest', plain (readPrimary stop' ⟨token :: rest', depth⟩) = .error fault) ∨
      ∃ opened rest, ts = ⟨.open, opened⟩ :: rest ∧ plain (readGroup stop opened ⟨rest, depth⟩) = .error fault := by
  cases ts with
  | nil =>
      rw [plain_readPrimary_nil] at h
      exact .inl ⟨rfl, (Except.error.inj h).symm⟩
  | cons token rest =>
      obtain ⟨symbol, position⟩ := token
      cases symbol with
      | member group =>
          rw [plain_readPrimary_member] at h
          contradiction
      | «open» =>
          rw [plain_readPrimary_open] at h
          exact .inr (.inr ⟨position, rest, rfl, h⟩)
      | close | and | or | not =>
          rw [plain_readPrimary_other stop (by simp) (by simp)] at h
          refine .inr (.inl ⟨_, rest, rfl, (Except.error.inj h).symm, fun stop' rest' => ?_⟩)
          rw [plain_readPrimary_other stop' (by simp) (by simp), h]

theorem cases_of_readGroup_eq_error {opened depth : Nat} {ts : List Token} {fault : Error}
    (h : plain (readGroup stop opened ⟨ts, depth⟩) = .error fault) :
    (¬ depth < maxDepth ∧ fault = ⟨.tooDeep, opened⟩) ∨
      depth < maxDepth ∧ (plain (readOr stop ⟨ts, depth + 1⟩) = .error fault ∨
        ∃ e us, plain (readOr stop ⟨ts, depth + 1⟩) = .ok (e, ⟨us, depth + 1⟩) ∧
          ((us = [] ∧ fault = ⟨.missingClose opened, stop⟩) ∨
            ∃ token rest, us = token :: rest ∧ token.symbol ≠ .close ∧
              fault = ⟨.notAClose opened token.symbol, token.position⟩)) := by
  rw [plain_readGroup] at h
  split at h
  · next hdepth =>
    refine .inr ⟨hdepth, ?_⟩
    rcases Outcome.bind_eq_error.1 h with hinner | ⟨⟨e, us, depth'⟩, hinner, hclose⟩
    · exact .inl hinner
    · obtain ⟨tree, hpasses, -⟩ := exists_orTree hinner
      obtain rfl : depth' = depth + 1 := hpasses.depth
      refine .inr ⟨e, us, hinner, ?_⟩
      cases us with
      | nil => exact .inl ⟨rfl, (Except.error.inj hclose).symm⟩
      | cons token rest =>
          by_cases hsymbol : token.symbol = .close
          · simp [close, hsymbol] at hclose
          · simp only [close, if_neg hsymbol] at hclose
            exact .inr ⟨token, rest, rfl, hsymbol, (Except.error.inj hclose).symm⟩
  · next hdepth => exact .inl ⟨hdepth, (Except.error.inj h).symm⟩

end Equations

mutual
theorem stops_readOr {stop depth : Nat} {ts : List Token} {fault : Error}
    (h : plain (readOr stop ⟨ts, depth⟩) = .error fault) :
    Stops (fun stop ts => plain (readOr stop ⟨ts, depth⟩)) (OrTree.places depth) stop ts fault := by
  rw [plain_readOr] at h
  rcases Outcome.bind_eq_error.1 h with hfirst | ⟨⟨left, us, depth'⟩, hleft, htail⟩
  · refine (stops_readAnd hfirst).lift [] (fun stop' ts' _ herror => ?_) fun ts' hviable => ?_
    · rw [List.nil_append, plain_readOr, herror]
      rfl
    · exact hviable.extend shallow_nil (f := (OrTree.chain · .nil)) fun first => by simp [OrTree.places, OrTail.places]
  · obtain ⟨first, hpasses, rfl⟩ := exists_andTree hleft
    obtain rfl : depth' = depth := hpasses.depth
    have hlength := of_plain_eq_ok hleft
    have hts : ts = tokensOf (first.places depth') ++ us := hpasses.tokens
    rw [hts]
    refine (stops_readOrs htail).lift _ (fun stop' ts' hhead herror => ?_) fun ts' hviable => ?_
    · have hends := ends_congr hhead (ends_of_readAnd hleft)
      rw [plain_readOr, AndTree.read stop' depth' hends first, reading_of_shallow hpasses.shallow]
      exact herror
    · exact hviable.extend hpasses.shallow (f := .chain first) fun _ => rfl
termination_by (ts.length, 4)

theorem stops_readOrs {stop depth : Nat} {left : Expr} {ts : List Token} {fault : Error}
    (h : plain (readOrs stop left ⟨ts, depth⟩) = .error fault) :
    Stops (fun stop ts => plain (readOrs stop left ⟨ts, depth⟩)) (OrTail.places depth) stop ts fault := by
  by_cases hnext : State.nextIs .or ⟨ts, depth⟩
  · obtain ⟨position, rest, hs⟩ := exists_of_next hnext
    have hts : ts = ⟨.or, position⟩ :: rest := congrArg State.tokens hs
    have hlength : rest.length < ts.length := by simp [hts]
    have hjoiner : Shallow [⟨⟨.or, position⟩, depth⟩] := by simp [Place.overdeep, Symbol.opens]
    rw [hts, plain_readOrs_or] at h
    rw [hts]
    rcases Outcome.bind_eq_error.1 h with hright | ⟨⟨right, us, depth'⟩, hright, htail⟩
    · refine (stops_readAnd hright).lift [⟨.or, position⟩] (fun stop' ts' _ herror => ?_)
        fun ts' hviable => ?_
      · rw [List.singleton_append, plain_readOrs_or, herror]
        rfl
      · exact hviable.extend hjoiner (f := (OrTail.cons position · .nil)) fun next => by simp [OrTail.places]
    · -- The operand is read, so the fault is behind it.
      obtain ⟨next, hpasses, rfl⟩ := exists_andTree hright
      obtain rfl : depth' = depth := hpasses.depth
      have hrest : rest = tokensOf (next.places depth') ++ us := hpasses.tokens
      have hlength' : us.length < ts.length := Nat.lt_trans (of_plain_eq_ok hright) hlength
      rw [hrest]
      refine (stops_readOrs htail).lift (⟨.or, position⟩ :: tokensOf (next.places depth'))
        (fun stop' ts' hhead herror => ?_) fun ts' hviable => ?_
      · have hends := ends_congr hhead (ends_of_readAnd hright)
        rw [List.cons_append, plain_readOrs_or, AndTree.read stop' depth' hends next,
          reading_of_shallow hpasses.shallow]
        exact herror
      · exact hviable.extend (shallow_append.2 ⟨hjoiner, hpasses.shallow⟩) (f := .cons position next) fun _ => rfl
  · rw [plain_readOrs_of_not_next stop left hnext] at h
    contradiction
termination_by (ts.length, 0)

theorem stops_readAnd {stop depth : Nat} {ts : List Token} {fault : Error}
    (h : plain (readAnd stop ⟨ts, depth⟩) = .error fault) :
    Stops (fun stop ts => plain (readAnd stop ⟨ts, depth⟩)) (AndTree.places depth) stop ts fault := by
  rw [plain_readAnd] at h
  rcases Outcome.bind_eq_error.1 h with hfirst | ⟨⟨left, us, depth'⟩, hleft, htail⟩
  · refine (stops_readUnary hfirst).lift [] (fun stop' ts' _ herror => ?_) fun ts' hviable => ?_
    · rw [List.nil_append, plain_readAnd, herror]
      rfl
    · exact hviable.extend shallow_nil (f := (AndTree.chain · .nil)) fun first => by
        simp [AndTree.places, AndTail.places]
  · obtain ⟨first, hpasses, rfl⟩ := exists_unaryTree hleft
    obtain rfl : depth' = depth := hpasses.depth
    have hlength := of_plain_eq_ok hleft
    have hts : ts = tokensOf (first.places depth') ++ us := hpasses.tokens
    rw [hts]
    refine (stops_readAnds htail).lift _ (fun stop' ts' _ herror => ?_) fun ts' hviable => ?_
    · rw [plain_readAnd, UnaryTree.read stop' depth' ts' first, reading_of_shallow hpasses.shallow]
      exact herror
    · exact hviable.extend hpasses.shallow (f := .chain first) fun _ => rfl
termination_by (ts.length, 3)

theorem stops_readAnds {stop depth : Nat} {left : Expr} {ts : List Token} {fault : Error}
    (h : plain (readAnds stop left ⟨ts, depth⟩) = .error fault) :
    Stops (fun stop ts => plain (readAnds stop left ⟨ts, depth⟩)) (AndTail.places depth) stop ts fault := by
  by_cases hnext : State.nextIs .and ⟨ts, depth⟩
  · obtain ⟨position, rest, hs⟩ := exists_of_next hnext
    have hts : ts = ⟨.and, position⟩ :: rest := congrArg State.tokens hs
    have hlength : rest.length < ts.length := by simp [hts]
    have hjoiner : Shallow [⟨⟨.and, position⟩, depth⟩] := by simp [Place.overdeep, Symbol.opens]
    rw [hts, plain_readAnds_and] at h
    rw [hts]
    rcases Outcome.bind_eq_error.1 h with hright | ⟨⟨right, us, depth'⟩, hright, htail⟩
    · refine (stops_readUnary hright).lift [⟨.and, position⟩] (fun stop' ts' _ herror => ?_)
        fun ts' hviable => ?_
      · rw [List.singleton_append, plain_readAnds_and, herror]
        rfl
      · exact hviable.extend hjoiner (f := (AndTail.cons position · .nil)) fun next => by simp [AndTail.places]
    · obtain ⟨next, hpasses, rfl⟩ := exists_unaryTree hright
      obtain rfl : depth' = depth := hpasses.depth
      have hrest : rest = tokensOf (next.places depth') ++ us := hpasses.tokens
      have hlength' : us.length < ts.length := Nat.lt_trans (of_plain_eq_ok hright) hlength
      rw [hrest]
      refine (stops_readAnds htail).lift (⟨.and, position⟩ :: tokensOf (next.places depth'))
        (fun stop' ts' _ herror => ?_) fun ts' hviable => ?_
      · rw [List.cons_append, plain_readAnds_and, UnaryTree.read stop' depth' ts' next,
          reading_of_shallow hpasses.shallow]
        exact herror
      · exact hviable.extend (shallow_append.2 ⟨hjoiner, hpasses.shallow⟩) (f := .cons position next) fun _ => rfl
  · rw [plain_readAnds_of_not_next stop left hnext] at h
    contradiction
termination_by (ts.length, 0)

theorem stops_readUnary {stop depth : Nat} {ts : List Token} {fault : Error}
    (h : plain (readUnary stop ⟨ts, depth⟩) = .error fault) :
    Stops (fun stop ts => plain (readUnary stop ⟨ts, depth⟩)) (UnaryTree.places depth) stop ts fault := by
  by_cases hnext : State.nextIs .not ⟨ts, depth⟩
  · obtain ⟨position, rest, hs⟩ := exists_of_next hnext
    have hts : ts = ⟨.not, position⟩ :: rest := congrArg State.tokens hs
    have hlength : rest.length < ts.length := by simp [hts]
    rw [hts, plain_readUnary_not] at h
    rw [hts]
    by_cases hdepth : depth < maxDepth
    · rw [if_pos hdepth] at h
      have hinner : plain (readUnary stop ⟨rest, depth + 1⟩) = .error fault := by
        rcases Outcome.bind_eq_error.1 h with hinner | ⟨_, -, hdone⟩
        · exact hinner
        · cases hdone
      refine (stops_readUnary hinner).lift [⟨.not, position⟩] (fun stop' ts' _ herror => ?_)
        fun ts' hviable => ?_
      · rw [List.singleton_append, plain_readUnary_not, if_pos hdepth, herror]
        rfl
      · have hshallow : Shallow [⟨⟨.not, position⟩, depth⟩] := by simp [Place.overdeep, hdepth]
        exact hviable.extend hshallow (f := .not position) fun _ => rfl
    · rw [if_neg hdepth] at h
      obtain rfl := Except.error.inj h
      refine .head rfl rfl (viable_unary_nil depth) fun stop' after' => ?_
      rw [plain_readUnary_not, if_neg hdepth]
  · rw [plain_readUnary_of_not_next stop hnext] at h
    refine (stops_readPrimary h).lift [] (fun stop' ts' hhead herror => ?_) fun ts' hviable => ?_
    · rw [List.nil_append, plain_readUnary_of_not_next stop' (by rwa [nextIs_congr hhead]), herror]
    · exact hviable.extend shallow_nil (f := .primary) fun _ => rfl
termination_by (ts.length, 2)

theorem stops_readPrimary {stop depth : Nat} {ts : List Token} {fault : Error}
    (h : plain (readPrimary stop ⟨ts, depth⟩) = .error fault) :
    Stops (fun stop ts => plain (readPrimary stop ⟨ts, depth⟩)) (PrimaryTree.places depth) stop ts fault := by
  rcases cases_of_readPrimary_eq_error stop h with
    ⟨hts, hfault⟩ | ⟨token, rest, hts, hfault, hsame⟩ | ⟨opened, rest, hts, hgroup⟩
  · rw [hts, hfault]
    exact .ended rfl rfl (viable_primary_nil depth)
  · rw [hts]
    exact .head (by rw [hfault]; rfl) (by rw [hfault]) (viable_primary_nil depth) hsame
  · have hlength : rest.length < ts.length := by simp [hts]
    rw [hts]
    rcases cases_of_readGroup_eq_error stop hgroup with ⟨hdepth, hfault⟩ | ⟨hdepth, hinner | ⟨e, us, hinner, hclose⟩⟩
    · rw [hfault]
      refine .head rfl rfl (viable_primary_nil depth) fun stop' after' => ?_
      rw [plain_readPrimary_open, plain_readGroup, if_neg hdepth]
    · refine (stops_readOr hinner).lift [⟨.open, opened⟩] (fun stop' ts' _ herror => ?_)
        fun ts' hviable => viable_group hdepth hviable
      rw [List.singleton_append, plain_readPrimary_open, plain_readGroup, if_pos hdepth, herror]
      rfl
    · -- The group has an expression but no end, and it is read as that expression whatever comes behind.
      obtain ⟨inner, hpasses, rfl⟩ := exists_orTree hinner
      have hrest : rest = tokensOf (inner.places (depth + 1)) ++ us := hpasses.tokens
      have hviable : Viable (PrimaryTree.places depth) (⟨.open, opened⟩ :: tokensOf (inner.places (depth + 1))) :=
        viable_group hdepth ⟨inner, [], by simp, by simp, hpasses.shallow⟩
      rw [hrest]
      rcases hclose with ⟨rfl, hfault⟩ | ⟨token, tail, rfl, hsymbol, hfault⟩
      · rw [hfault, List.append_nil]
        exact .ended rfl rfl hviable
      · rw [hfault, ← List.cons_append]
        refine .token rfl rfl hviable fun stop' after' => ?_
        obtain ⟨hand, hor⟩ := ends_of_readOr hinner
        have hand' : Ends .and (token :: after') := ends_congr rfl hand
        have hor' : Ends .or (token :: after') := ends_congr rfl hor
        rw [List.cons_append, plain_readPrimary_open, plain_readGroup, if_pos hdepth,
          OrTree.read stop' (depth + 1) hand' hor' inner, reading_of_shallow hpasses.shallow]
        exact if_neg hsymbol
termination_by (ts.length, 1)
end

end Groupwise.Expr
