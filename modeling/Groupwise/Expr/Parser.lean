import Groupwise.Expr.Basic
import Groupwise.Expr.Lexer

namespace Groupwise.Expr

structure State where
  tokens : List Token
  depth : Nat
  deriving DecidableEq, Repr

namespace State

abbrev Read (s : State) := Except Error (Expr × { t : State // t.tokens.length < s.tokens.length })

abbrev ReadOn (s : State) := Except Error (Expr × { t : State // t.tokens.length ≤ s.tokens.length })

def nextIs (symbol : Symbol) (s : State) : Bool :=
  match s.tokens with
  | token :: _ => token.symbol = symbol
  | [] => false

def pass (s : State) : State := ⟨s.tokens.tail, s.depth⟩

theorem length_pass {symbol : Symbol} {s : State} (h : s.nextIs symbol) :
    s.pass.tokens.length < s.tokens.length := by
  unfold nextIs at h
  split at h
  · next token rest hrest => simp [pass, hrest]
  · simp at h

def ascend (s : State) : State := ⟨s.tokens, s.depth - 1⟩

end State

open State

mutual
/--
A reader for each level of precedence. A token that is missing is reported at `stop`, the byte length of the text.

    or      := and ("or" and)*
    and     := unary ("and" unary)*
    unary   := "not" unary | primary
    primary := "(" or ")" | membership test
-/
def readOr (stop : Nat) (s : State) : Read s := do
  let (left, ⟨t, ht⟩) ← readAnd stop s
  let (e, ⟨u, hu⟩) ← readOrs stop left t
  .ok (e, ⟨u, by omega⟩)
termination_by (s.tokens.length, 4)

def readOrs (stop : Nat) (left : Expr) (s : State) : ReadOn s :=
  if h : s.nextIs .or then do
    have := length_pass h
    let (right, ⟨t, ht⟩) ← readAnd stop s.pass
    let (e, ⟨u, hu⟩) ← readOrs stop (.or left right) t
    .ok (e, ⟨u, by omega⟩)
  else .ok (left, ⟨s, Nat.le_refl _⟩)
termination_by (s.tokens.length, 0)

def readAnd (stop : Nat) (s : State) : Read s := do
  let (left, ⟨t, ht⟩) ← readUnary stop s
  let (e, ⟨u, hu⟩) ← readAnds stop left t
  .ok (e, ⟨u, by omega⟩)
termination_by (s.tokens.length, 3)

def readAnds (stop : Nat) (left : Expr) (s : State) : ReadOn s :=
  if h : s.nextIs .and then do
    have := length_pass h
    let (right, ⟨t, ht⟩) ← readUnary stop s.pass
    let (e, ⟨u, hu⟩) ← readAnds stop (.and left right) t
    .ok (e, ⟨u, by omega⟩)
  else .ok (left, ⟨s, Nat.le_refl _⟩)
termination_by (s.tokens.length, 0)

def readUnary (stop : Nat) (s : State) : Read s :=
  match hs : s.tokens with
  | [] => .error ⟨.missingOperand, stop⟩
  | token :: rest =>
    match token.symbol with
    | .not =>
      if s.depth < maxDepth then do
        have : rest.length < s.tokens.length := by simp [hs]
        let (operand, ⟨t, ht⟩) ← readUnary stop ⟨rest, s.depth + 1⟩
        .ok (.not operand, ⟨t.ascend, by simpa [ascend] using Nat.lt_trans ht this⟩)
      else .error ⟨.tooDeep, token.position⟩
    | _ => readPrimary stop s
termination_by (s.tokens.length, 2)

def readPrimary (stop : Nat) (s : State) : Read s :=
  match hs : s.tokens with
  | [] => .error ⟨.missingOperand, stop⟩
  | token :: rest =>
    match token.symbol with
    | .member group => .ok (.member group, ⟨⟨rest, s.depth⟩, by simp [hs]⟩)
    | .open => do
      have hrest : rest.length < s.tokens.length := by simp [hs]
      let (e, ⟨t, ht⟩) ← readGroup stop token.position ⟨rest, s.depth⟩
      .ok (e, ⟨t, Nat.lt_trans ht hrest⟩)
    | found => .error ⟨.notAnOperand found, token.position⟩
termination_by (s.tokens.length, 1)

def readGroup (stop opened : Nat) (s : State) : Read s :=
  if s.depth < maxDepth then do
    let (e, ⟨t, ht⟩) ← readOr stop ⟨s.tokens, s.depth + 1⟩
    match hrest : t.ascend.tokens with
    | [] => .error ⟨.missingClose opened, stop⟩
    | token :: rest =>
      if token.symbol = .close then
        .ok (e, ⟨⟨rest, t.ascend.depth⟩, by simp_all [ascend]; omega⟩)
      else .error ⟨.notAClose opened token.symbol, token.position⟩
  else .error ⟨.tooDeep, opened⟩
termination_by (s.tokens.length, 5)
end

/-- All characters are read before the first token is looked at. -/
def parse (text : String) : Except Error Expr := do
  let ts ← tokens text
  if ts = [] then .error ⟨.emptyExpression, 0⟩
  else do
    let (e, ⟨rest, _⟩) ← readOr text.utf8ByteSize ⟨ts, 0⟩
    match rest.tokens with
    | [] => .ok e
    | token :: _ => .error ⟨.surplus token.symbol, token.position⟩

def evaluateText (groups : Groups) (text : String) : Except Error Bool := (·.evaluate groups) <$> parse text

end Groupwise.Expr
