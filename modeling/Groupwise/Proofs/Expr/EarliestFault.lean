import Groupwise.Proofs.Expr.Parser
import Groupwise.Proofs.Expr.Scan
import Groupwise.Proofs.Expr.Stuck

namespace Groupwise.Expr

mutual
theorem OrTree.exists_moved {around : Nat} {ts : List Token} (tree : OrTree)
    (h : symbolsOf ts = symbolsOf (tokensOf (tree.places around))) :
    ∃ tree' : OrTree, tokensOf (tree'.places around) = ts ∧
      (Shallow (tree.places around) → Shallow (tree'.places around)) := by
  obtain ⟨first, tail⟩ := tree
  rw [OrTree.places, tokensOf_append, symbolsOf_append] at h
  obtain ⟨us, vs, rfl, hus, hvs⟩ := symbolsOf_eq_append h
  obtain ⟨first', rfl, hfirst⟩ := AndTree.exists_moved first hus
  obtain ⟨tail', rfl, htail⟩ := OrTail.exists_moved tail hvs
  refine ⟨.chain first' tail', by simp [OrTree.places], ?_⟩
  simp only [OrTree.places, shallow_append]
  exact And.imp hfirst htail
termination_by structural tree

theorem OrTail.exists_moved {around : Nat} {ts : List Token} (tail : OrTail)
    (h : symbolsOf ts = symbolsOf (tokensOf (tail.places around))) :
    ∃ tail' : OrTail, tokensOf (tail'.places around) = ts ∧
      (Shallow (tail.places around) → Shallow (tail'.places around)) := by
  cases tail with
  | nil =>
      obtain rfl : ts = [] := List.map_eq_nil_iff.1 h
      exact ⟨.nil, rfl, id⟩
  | cons position next tail =>
      rw [OrTail.places, tokensOf_cons, tokensOf_append, symbolsOf_cons, symbolsOf_append] at h
      obtain ⟨position', ts, rfl, hts⟩ := symbolsOf_eq_cons h
      obtain ⟨us, vs, rfl, hus, hvs⟩ := symbolsOf_eq_append hts
      obtain ⟨next', rfl, hnext⟩ := AndTree.exists_moved next hus
      obtain ⟨tail', rfl, htail⟩ := OrTail.exists_moved tail hvs
      refine ⟨.cons position' next' tail', by simp [OrTail.places], ?_⟩
      simp only [OrTail.places, shallow_append, shallow_cons]
      exact And.imp id (And.imp hnext htail)
termination_by structural tail

theorem AndTree.exists_moved {around : Nat} {ts : List Token} (tree : AndTree)
    (h : symbolsOf ts = symbolsOf (tokensOf (tree.places around))) :
    ∃ tree' : AndTree, tokensOf (tree'.places around) = ts ∧
      (Shallow (tree.places around) → Shallow (tree'.places around)) := by
  obtain ⟨first, tail⟩ := tree
  rw [AndTree.places, tokensOf_append, symbolsOf_append] at h
  obtain ⟨us, vs, rfl, hus, hvs⟩ := symbolsOf_eq_append h
  obtain ⟨first', rfl, hfirst⟩ := UnaryTree.exists_moved first hus
  obtain ⟨tail', rfl, htail⟩ := AndTail.exists_moved tail hvs
  refine ⟨.chain first' tail', by simp [AndTree.places], ?_⟩
  simp only [AndTree.places, shallow_append]
  exact And.imp hfirst htail
termination_by structural tree

theorem AndTail.exists_moved {around : Nat} {ts : List Token} (tail : AndTail)
    (h : symbolsOf ts = symbolsOf (tokensOf (tail.places around))) :
    ∃ tail' : AndTail, tokensOf (tail'.places around) = ts ∧
      (Shallow (tail.places around) → Shallow (tail'.places around)) := by
  cases tail with
  | nil =>
      obtain rfl : ts = [] := List.map_eq_nil_iff.1 h
      exact ⟨.nil, rfl, id⟩
  | cons position next tail =>
      rw [AndTail.places, tokensOf_cons, tokensOf_append, symbolsOf_cons, symbolsOf_append] at h
      obtain ⟨position', ts, rfl, hts⟩ := symbolsOf_eq_cons h
      obtain ⟨us, vs, rfl, hus, hvs⟩ := symbolsOf_eq_append hts
      obtain ⟨next', rfl, hnext⟩ := UnaryTree.exists_moved next hus
      obtain ⟨tail', rfl, htail⟩ := AndTail.exists_moved tail hvs
      refine ⟨.cons position' next' tail', by simp [AndTail.places], ?_⟩
      simp only [AndTail.places, shallow_append, shallow_cons]
      exact And.imp id (And.imp hnext htail)
termination_by structural tail

theorem UnaryTree.exists_moved {around : Nat} {ts : List Token} (tree : UnaryTree)
    (h : symbolsOf ts = symbolsOf (tokensOf (tree.places around))) :
    ∃ tree' : UnaryTree, tokensOf (tree'.places around) = ts ∧
      (Shallow (tree.places around) → Shallow (tree'.places around)) := by
  cases tree with
  | not position operand =>
      rw [UnaryTree.places, tokensOf_cons, symbolsOf_cons] at h
      obtain ⟨position', ts, rfl, hts⟩ := symbolsOf_eq_cons h
      obtain ⟨operand', rfl, hoperand⟩ := UnaryTree.exists_moved operand hts
      refine ⟨.not position' operand', rfl, ?_⟩
      simp only [UnaryTree.places, shallow_cons]
      exact And.imp id hoperand
  | primary tree =>
      obtain ⟨tree', rfl, hshallow⟩ := PrimaryTree.exists_moved tree h
      exact ⟨.primary tree', rfl, hshallow⟩
termination_by structural tree

theorem PrimaryTree.exists_moved {around : Nat} {ts : List Token} (tree : PrimaryTree)
    (h : symbolsOf ts = symbolsOf (tokensOf (tree.places around))) :
    ∃ tree' : PrimaryTree, tokensOf (tree'.places around) = ts ∧
      (Shallow (tree.places around) → Shallow (tree'.places around)) := by
  cases tree with
  | group opened closed inner =>
      rw [PrimaryTree.places, tokensOf_cons, tokensOf_append, symbolsOf_cons, symbolsOf_append] at h
      obtain ⟨opened', ts, rfl, hts⟩ := symbolsOf_eq_cons h
      obtain ⟨us, vs, rfl, hus, hvs⟩ := symbolsOf_eq_append hts
      obtain ⟨closed', vs, rfl, hend⟩ := symbolsOf_eq_cons hvs
      obtain rfl : vs = [] := List.map_eq_nil_iff.1 hend
      obtain ⟨inner', rfl, hinner⟩ := OrTree.exists_moved inner hus
      refine ⟨.group opened' closed' inner', by simp [PrimaryTree.places], ?_⟩
      simp only [PrimaryTree.places, shallow_append, shallow_cons]
      exact And.imp id (And.imp hinner id)
  | member position group =>
      obtain ⟨position', ts, rfl, hts⟩ := symbolsOf_eq_cons h
      obtain rfl : ts = [] := List.map_eq_nil_iff.1 hts
      exact ⟨.member position' group, rfl, fun _ => by simp [PrimaryTree.places, Place.overdeep, Symbol.opens]⟩
termination_by structural tree
end

def Accepted (ts : List Token) : Prop := ∃ text e, tokens text = .ok ts ∧ parse text = .ok e

variable {text : String} {before after ts : List Token} {token : Token}

theorem accepted_of_tree {tree : OrTree} (h : tokens text = .ok (tokensOf (tree.places 0)))
    (hshallow : Shallow (tree.places 0)) : Accepted (tokensOf (tree.places 0)) :=
  ⟨text, tree.expr, h, parse_of_shallow h hshallow⟩

theorem exists_tree_of_accepted (h : Accepted ts) :
    ∃ tree : OrTree, tokensOf (tree.places 0) = ts ∧ Shallow (tree.places 0) := by
  obtain ⟨text, e, htokens, hparse⟩ := h
  obtain ⟨tree, htree, -, hshallow⟩ := exists_of_parse_eq_ok hparse
  rw [htokens, Except.ok.injEq] at htree
  exact ⟨tree, htree.symm, hshallow⟩

theorem exists_parse_of_accepted (htokens : tokens text = .ok ts) (h : Accepted ts) : ∃ e, parse text = .ok e := by
  obtain ⟨tree, rfl, hshallow⟩ := exists_tree_of_accepted h
  exact ⟨tree.expr, parse_of_shallow htokens hshallow⟩

/-- A beginning of a derivation can be gone on with in a text, behind the very tokens that it has in another one. -/
theorem exists_accepted_of_viable (htokens : tokens text = .ok (before ++ after))
    (h : Viable (OrTree.places 0) before) : ∃ more, Accepted (before ++ more) := by
  obtain ⟨tree, rest, htree, hnamed, hshallow⟩ := h
  have hsymbols : ∀ symbol ∈ symbolsOf rest, symbol.Named := List.forall_mem_map.2 hnamed
  obtain ⟨text', more, htext', hmore⟩ := exists_text_of_front htokens hsymbols
  have hmoved : symbolsOf (before ++ more) = symbolsOf (tokensOf (tree.places 0)) := by
    rw [htree, symbolsOf_append, symbolsOf_append, hmore]
  obtain ⟨tree', hbefore, hshallow'⟩ := tree.exists_moved hmoved
  rw [← hbefore] at htext'
  exact ⟨more, hbefore ▸ accepted_of_tree htext' (hshallow' hshallow)⟩

theorem not_accepted_of_read (h : ∀ after' e, State.plain (readOr 0 ⟨before ++ token :: after', 0⟩) ≠ .ok (e, ⟨[], 0⟩))
    (haccepted : Accepted ts) : ¬ symbolsOf (before ++ [token]) <+: symbolsOf ts := by
  rintro ⟨symbols, hsymbols⟩
  obtain ⟨tree, rfl, hshallow⟩ := exists_tree_of_accepted haccepted
  obtain ⟨us, vs, hsplit, hus, -⟩ := symbolsOf_eq_append hsymbols.symm
  have hmoved : symbolsOf (before ++ [token] ++ vs) = symbolsOf (tokensOf (tree.places 0)) := by
    rw [hsplit, symbolsOf_append, symbolsOf_append us, hus]
  obtain ⟨tree', htree', hshallow'⟩ := tree.exists_moved hmoved
  have hread := OrTree.read 0 0 (ends_nil _) (ends_nil _) tree'
  rw [List.append_nil, htree', reading_of_shallow (hshallow' hshallow), List.append_assoc] at hread
  exact h vs tree'.expr hread

/--
A token stands at some offset up to which the tokens begin a text that is read, while no text that is read begins with
the same symbols up to and with that token.
-/
def FirstBad (ts : List Token) (position : Nat) : Prop :=
  ∃ before token after, ts = before ++ token :: after ∧ position = token.position ∧
    (∃ more, Accepted (before ++ more)) ∧ ∀ ts', Accepted ts' → ¬ symbolsOf (before ++ [token]) <+: symbolsOf ts'

/-- Tokens that are not accepted, but would be if more came behind them. -/
def Unfinished (ts : List Token) : Prop := ¬ Accepted ts ∧ ∃ more, more ≠ [] ∧ Accepted (ts ++ more)

theorem cases_of_parse_eq_error {fault : Error} (htokens : tokens text = .ok ts) (hne : ts ≠ [])
    (h : parse text = .error fault) :
    fault.kind = .malformed ∧
      ((∃ before token after, ts = before ++ token :: after ∧ fault.position = token.position ∧
          Viable (OrTree.places 0) before ∧
          ∀ after' e, State.plain (readOr 0 ⟨before ++ token :: after', 0⟩) ≠ .ok (e, ⟨[], 0⟩)) ∨
        (fault.position = text.utf8ByteSize ∧ Viable (OrTree.places 0) ts)) := by
  rw [parse_of_tokens htokens hne] at h
  rcases Outcome.bind_eq_error.1 h with hread | ⟨⟨e, rest, depth⟩, hread, hend⟩
  · cases stops_readOr hread with
    | token hkind hposition hviable hsame =>
        refine ⟨hkind, .inl ⟨_, _, _, rfl, hposition, hviable, fun after' e => ?_⟩⟩
        rw [hsame 0 after']
        simp
    | ended hkind hposition hviable => exact ⟨hkind, .inr ⟨hposition, hviable⟩⟩
  · -- A whole expression is read, and the token behind it is left whatever comes after that one.
    obtain ⟨tree, hpasses, -⟩ := exists_orTree hread
    cases rest with
    | nil => contradiction
    | cons token rest =>
        obtain rfl := Except.error.inj hend
        obtain ⟨hand, hor⟩ := ends_of_readOr hread
        refine ⟨rfl, .inl ⟨_, token, rest, hpasses.tokens, rfl, ⟨tree, [], by simp, by simp, hpasses.shallow⟩,
          fun after' e => ?_⟩⟩
        have hand' : Ends .and (token :: after') := ends_congr rfl hand
        have hor' : Ends .or (token :: after') := ends_congr rfl hor
        rw [OrTree.read 0 0 hand' hor' tree, reading_of_shallow hpasses.shallow]
        simp

/--
The earliest fault of the tokens is the one that is reported: at the first token with which they cannot be gone on
with, or at the end of the text if there is no such token.
-/
theorem parse_error_is_earliest {fault : Error} (htokens : tokens text = .ok ts) (hne : ts ≠ [])
    (h : parse text = .error fault) :
    fault.kind = .malformed ∧
      (FirstBad ts fault.position ∨ (fault.position = text.utf8ByteSize ∧ Unfinished ts)) := by
  have hnot : ¬ Accepted ts := by
    intro haccepted
    obtain ⟨e, hparse⟩ := exists_parse_of_accepted htokens haccepted
    rw [h] at hparse
    contradiction
  obtain ⟨hkind, ⟨before, token, after, rfl, hposition, hviable, hread⟩ | ⟨hposition, hviable⟩⟩ :=
    cases_of_parse_eq_error htokens hne h
  · refine ⟨hkind, .inl ⟨before, token, after, rfl, hposition, exists_accepted_of_viable htokens hviable, ?_⟩⟩
    exact fun ts' haccepted => not_accepted_of_read hread haccepted
  · rw [← List.append_nil ts] at htokens
    obtain ⟨more, hmore⟩ := exists_accepted_of_viable htokens hviable
    refine ⟨hkind, .inr ⟨hposition, hnot, more, ?_, hmore⟩⟩
    rintro rfl
    exact hnot (by rwa [List.append_nil] at hmore)

theorem parse_error_is_earliest_in_group :
    let text := "not (#user.contains('a') and #user.contains('é') #user.contains('b'))"
    let ts : List Token := [⟨.not, 0⟩, ⟨.open, 4⟩, ⟨.member "a", 5⟩, ⟨.and, 25⟩, ⟨.member "é", 29⟩, ⟨.member "b", 50⟩,
      ⟨.close, 69⟩]
    let fault : Error := ⟨.notAClose 4 (.member "b"), 50⟩
    tokens text = .ok ts ∧ parse text = .error fault ∧
      fault.kind = .malformed ∧
        (FirstBad ts fault.position ∨ (fault.position = text.utf8ByteSize ∧ Unfinished ts)) := by
  intro text ts fault
  have htokens : tokens text = .ok ts := Outcome.eq_ok_of_toOption (by decide +kernel)
  have hparse : parse text = .error fault := by
    rw [parse_of_tokens htokens (by decide)]
    simp [ts, fault, plain_readOr, plain_readOrs_of_not_next, plain_readAnd, plain_readAnds_of_next,
      plain_readAnds_of_not_next, plain_readUnary_not, plain_readUnary_of_not_next, plain_readPrimary_member,
      plain_readPrimary_open, plain_readGroup, State.nextIs, State.pass, State.close, maxDepth]
  exact ⟨htokens, hparse, parse_error_is_earliest htokens (by decide) hparse⟩

end Groupwise.Expr
