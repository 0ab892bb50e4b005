import Groupwise.Proofs.Expr.Reader
import Mathlib.Logic.Function.Iterate

namespace Groupwise.Expr

open State

inductive Chain where
  | or
  | and
  deriving DecidableEq, Repr

/-- What a reader can be asked for. A group is asked for behind its `(`, which stands at offset `opened`. -/
inductive Task where
  | chain (chain : Chain)
  | unary
  | primary
  | group (opened : Nat)
  deriving DecidableEq, Repr

namespace Chain

def symbol : Chain → Symbol
  | .or => .or
  | .and => .and

def operand : Chain → Task
  | .or => .chain .and
  | .and => .unary

def join : Chain → Expr → Expr → Expr
  | .or => .or
  | .and => .and

end Chain

inductive Frame where
  | chain (chain : Chain) (left? : Option Expr)
  | negation
  | group (opened : Nat)
  deriving DecidableEq, Repr

def Frame.opens : Frame → Bool
  | .chain _ _ => false
  | .negation | .group _ => true

inductive Control where
  | ask (task : Task)
  | answer (e : Expr)
  | refuse (fault : Error)
  deriving DecidableEq, Repr

/--
A moment of reading: what is to be done, what waits for it, and what the readers themselves keep. The frames are a
list so that the groups and negations that are open can be counted beside the depth.
-/
structure Stage where
  control : Control
  frames : List Frame
  state : State
  deriving DecidableEq, Repr

namespace Stage

def opened (m : Stage) : Nat := m.frames.countP Frame.opens

def descend (position : Nat) (task : Task) (frame : Frame) (frames : List Frame) (s : State) : Stage :=
  if s.depth < maxDepth then ⟨.ask task, frame :: frames, ⟨s.tokens, s.depth + 1⟩⟩
  else ⟨.refuse ⟨.tooDeep, position⟩, frames, s⟩

def begin (stop : Nat) (frames : List Frame) (s : State) : Task → Stage
  | .chain chain => ⟨.ask chain.operand, .chain chain none :: frames, s⟩
  | .unary =>
    match s.tokens with
    | ⟨.not, position⟩ :: rest => descend position .unary .negation frames ⟨rest, s.depth⟩
    | _ => ⟨.ask .primary, frames, s⟩
  | .primary =>
    match s.tokens with
    | [] => ⟨.refuse ⟨.missingOperand, stop⟩, frames, s⟩
    | ⟨.member group, _⟩ :: rest => ⟨.answer (.member group), frames, ⟨rest, s.depth⟩⟩
    | ⟨.open, position⟩ :: rest => ⟨.ask (.group position), frames, ⟨rest, s.depth⟩⟩
    | ⟨found, position⟩ :: rest => ⟨.refuse ⟨.notAnOperand found, position⟩, frames, ⟨rest, s.depth⟩⟩
  | .group opened => descend opened (.chain .or) (.group opened) frames s

def resume (stop : Nat) (e : Expr) (s : State) : List Frame → Stage
  | [] => ⟨.answer e, [], s⟩
  | .chain chain left? :: frames =>
    let left := left?.elim e (chain.join · e)
    if s.nextIs chain.symbol then ⟨.ask chain.operand, .chain chain (some left) :: frames, s.pass⟩
    else ⟨.answer left, frames, s⟩
  | .negation :: frames => ⟨.answer (.not e), frames, s.ascend⟩
  -- The level is left before the `)` is looked for, so also if there is none.
  | .group opened :: frames =>
    match close stop opened (e, s) with
    | .ok (e, t) => ⟨.answer e, frames, t⟩
    | .error fault => ⟨.refuse fault, frames, s.ascend⟩

/-- One step of a reader. Nothing changes any more once the whole is read or refused. -/
def next (stop : Nat) (m : Stage) : Stage :=
  match m.control with
  | .ask task => begin stop m.frames m.state task
  | .answer e => resume stop e m.state m.frames
  | .refuse _ => m

def result? (m : Stage) : Option (Except Error (Expr × State)) :=
  match m.control, m.frames with
  | .answer e, [] => some (.ok (e, m.state))
  | .refuse fault, _ => some (.error fault)
  | _, _ => none

variable {stop d n : Nat} {m : Stage} {frames : List Frame} {s t : State} {e : Expr}

structure Balanced (d : Nat) (m : Stage) : Prop where
  depth : m.state.depth = d + m.opened
  le : m.state.depth ≤ maxDepth

theorem Balanced.of_eq {m' : Stage} (h : Balanced d m) (hopened : m'.opened = m.opened)
    (hdepth : m'.state.depth = m.state.depth) : Balanced d m' where
  depth := by rw [hdepth, hopened, h.depth]
  le := by
    rw [hdepth]
    exact h.le

theorem Balanced.descend (h : Balanced d m) {frame : Frame} (hframe : frame.opens = true)
    (hdepth : s.depth = m.state.depth) (position : Nat) (task : Task) :
    Balanced d (descend position task frame m.frames s) := by
  rw [Stage.descend]
  split
  · next hlt =>
    constructor
    · simp only [opened, List.countP_cons_of_pos hframe, hdepth, h.depth, Nat.add_assoc]
    · exact hlt
  · exact h.of_eq rfl hdepth

theorem balanced_begin (h : Balanced d m) (task : Task) : Balanced d (begin stop m.frames m.state task) := by
  cases task with
  | chain chain => exact h.of_eq rfl rfl
  | unary =>
      simp only [begin]
      split
      · refine h.descend ?_ ?_ _ _ <;> rfl
      · exact h.of_eq rfl rfl
  | primary =>
      simp only [begin]
      split <;> exact h.of_eq rfl rfl
  | group opened => exact h.descend rfl rfl _ _

theorem depth_of_close {opened : Nat} {e' : Expr} (h : close stop opened (e, s) = .ok (e', t)) :
    t.depth = s.depth - 1 ∧ t.tokens.length < s.tokens.length := by
  obtain ⟨ts, depth⟩ := s
  cases ts with
  | nil => contradiction
  | cons token rest =>
      simp only [close] at h
      split at h
      · obtain ⟨-, rfl⟩ := Prod.mk.inj (Except.ok.inj h)
        exact ⟨rfl, Nat.lt_succ_self _⟩
      · contradiction

theorem Balanced.ascend {control control' : Control} {frame : Frame}
    (h : Balanced d ⟨control, frame :: frames, s⟩) (hframe : frame.opens = true) (hdepth : t.depth = s.depth - 1) :
    Balanced d ⟨control', frames, t⟩ := by
  have hs := h.depth
  have hle := h.le
  simp only [opened, List.countP_cons_of_pos hframe] at hs hle
  constructor
  · simp only [opened]
    omega
  · simp only
    omega

theorem balanced_resume (h : Balanced d ⟨.answer e, frames, s⟩) : Balanced d (resume stop e s frames) := by
  cases frames with
  | nil => exact h
  | cons frame frames =>
      cases frame with
      | chain chain left? =>
          simp only [resume]
          split <;> exact h.of_eq rfl rfl
      | negation => exact h.ascend rfl rfl
      | group opened =>
          rw [resume]
          split
          · next hclose => exact h.ascend rfl (depth_of_close hclose).1
          · exact h.ascend rfl rfl

theorem balanced_next (h : Balanced d m) : Balanced d (m.next stop) := by
  obtain ⟨control, frames, s⟩ := m
  cases control with
  | ask task => exact balanced_begin h task
  | answer e => exact balanced_resume h
  | refuse fault => exact h

theorem balanced_iterate (h : Balanced d m) (n : Nat) : Balanced d ((next stop)^[n] m) := by
  induction n with
  | zero => exact h
  | succ n ih =>
      rw [Function.iterate_succ_apply']
      exact balanced_next ih

end Stage

@[simp] def Task.weight : Task → Nat
  | .chain .or => 6
  | .chain .and => 4
  | .unary => 2
  | .primary => 1
  | .group _ => 8

@[simp] def Control.weight : Control → Nat
  | .ask task => task.weight
  | .answer _ | .refuse _ => 0

theorem Task.weight_le (task : Task) : task.weight ≤ 8 := by
  cases task with
  | chain chain => cases chain <;> decide
  | unary | primary | group => simp

theorem Chain.weight_operand_lt (chain : Chain) : chain.operand.weight + 1 < (Task.chain chain).weight := by
  cases chain <;> decide

namespace Stage

variable {stop n : Nat} {m : Stage}

/-- At least as much as there are steps to come. A token that is passed pays for all that is asked for behind it. -/
def weight (m : Stage) : Nat := 8 * m.state.tokens.length + m.frames.length + m.control.weight

theorem weight_descend_lt {task : Task} (htask : task.weight ≤ 6) (position : Nat) (frame : Frame)
    (frames : List Frame) (s : State) :
    (descend position task frame frames s).weight < 8 * s.tokens.length + frames.length + 8 := by
  rw [descend]
  split
  · simp only [weight, Control.weight, List.length_cons]
    omega
  · simp only [weight, Control.weight]
    omega

theorem weight_begin_lt (task : Task) (frames : List Frame) (s : State) :
    (begin stop frames s task).weight < 8 * s.tokens.length + frames.length + task.weight := by
  cases task with
  | chain chain =>
      have hoperand := chain.weight_operand_lt
      simp only [begin, weight, Control.weight, List.length_cons]
      omega
  | unary =>
      simp only [begin]
      split
      · next position rest hs =>
        have hlt := weight_descend_lt (by decide : Task.unary.weight ≤ 6) position .negation frames ⟨rest, s.depth⟩
        rw [hs, List.length_cons, Task.weight]
        simp only at hlt
        omega
      · simp only [weight, Control.weight, Task.weight]
        omega
  | primary =>
      simp only [begin]
      split
      all_goals
        next hs =>
        simp only [hs, weight, Control.weight, Task.weight, List.length_cons]
        omega
  | group opened => exact weight_descend_lt (Nat.le_refl _) opened _ frames s

theorem weight_resume_lt (e : Expr) (s : State) (frame : Frame) (frames : List Frame) :
    (resume stop e s (frame :: frames)).weight < 8 * s.tokens.length + (frames.length + 1) := by
  cases frame with
  | chain chain left? =>
      simp only [resume]
      split
      · next hnext =>
        have hlength := length_pass hnext
        have hoperand := chain.weight_operand_lt
        have hchain := (Task.chain chain).weight_le
        simp only [weight, Control.weight, List.length_cons]
        omega
      · simp only [weight, Control.weight]
        omega
  | negation =>
      simp only [resume, weight, Control.weight, State.ascend]
      omega
  | group opened =>
      rw [resume]
      split
      · next hclose =>
        have hlength := (depth_of_close hclose).2
        simp only [weight, Control.weight]
        omega
      · simp only [weight, Control.weight, State.ascend]
        omega

theorem weight_next_lt (stop : Nat) (h : m.result? = none) : (m.next stop).weight < m.weight := by
  obtain ⟨control, frames, s⟩ := m
  cases control with
  | ask task => exact weight_begin_lt task frames s
  | answer e =>
      cases frames with
      | nil => contradiction
      | cons frame frames => exact weight_resume_lt e s frame frames
  | refuse fault => contradiction

theorem next_of_result? (h : m.result? ≠ none) : m.next stop = m := by
  obtain ⟨control, frames, s⟩ := m
  cases control with
  | ask task => contradiction
  | answer e =>
      cases frames with
      | nil => rfl
      | cons frame frames => contradiction
  | refuse fault => rfl

theorem result?_iterate (h : m.weight ≤ n) : ((next stop)^[n] m).result? ≠ none := by
  induction n generalizing m with
  | zero =>
      intro hnone
      exact Nat.not_lt_zero _ (Nat.lt_of_lt_of_le (weight_next_lt stop hnone) h)
  | succ n ih =>
      by_cases hnone : m.result? = none
      · rw [Function.iterate_succ_apply]
        exact ih (Nat.le_of_lt_succ (Nat.lt_of_lt_of_le (weight_next_lt stop hnone) h))
      · rwa [Function.iterate_fixed (next_of_result? hnone)]

end Stage

end Groupwise.Expr
