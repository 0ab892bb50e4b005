import Groupwise.Proofs.Expr.Sound
import Groupwise.Proofs.Expr.Stage

namespace Groupwise.Expr

open State

def Task.read (stop : Nat) (s : State) : Task → Except Error (Expr × State)
  | .chain .or => plain (readOr stop s)
  | .chain .and => plain (readAnd stop s)
  | .unary => plain (readUnary stop s)
  | .primary => plain (readPrimary stop s)
  | .group opened => plain (readGroup stop opened s)

def Chain.readOn (stop : Nat) (left : Expr) (s : State) : Chain → Except Error (Expr × State)
  | .or => plain (readOrs stop left s)
  | .and => plain (readAnds stop left s)

section Readers

variable {stop : Nat} {s t : State} {e : Expr}

theorem read_chain (chain : Chain) :
    (Task.chain chain).read stop s = chain.operand.read stop s >>= fun r => chain.readOn stop r.1 r.2 := by
  cases chain with
  | or => exact plain_readOr stop s
  | and => exact plain_readAnd stop s

theorem readOn_of_next {chain : Chain} (h : s.nextIs chain.symbol) (left : Expr) :
    chain.readOn stop left s =
      chain.operand.read stop s.pass >>= fun r => chain.readOn stop (chain.join left r.1) r.2 := by
  cases chain with
  | or => exact plain_readOrs_of_next stop left h
  | and => exact plain_readAnds_of_next stop left h

theorem readOn_of_not_next {chain : Chain} (h : ¬ s.nextIs chain.symbol) (left : Expr) :
    chain.readOn stop left s = .ok (left, s) := by
  cases chain with
  | or => exact plain_readOrs_of_not_next stop left h
  | and => exact plain_readAnds_of_not_next stop left h

theorem length_of_read {task : Task} (h : task.read stop s = .ok (e, t)) : t.tokens.length < s.tokens.length := by
  cases task with
  | chain chain => cases chain <;> exact of_plain_eq_ok h
  | unary | primary | group => exact of_plain_eq_ok h

theorem exists_passes_of_read {task : Task} (htask : ∀ opened, task ≠ .group opened)
    (h : task.read stop s = .ok (e, t)) : ∃ places, Passes places s t := by
  cases task with
  | chain chain =>
      cases chain with
      | or =>
          obtain ⟨tree, hpasses, -⟩ := exists_orTree h
          exact ⟨_, hpasses⟩
      | and =>
          obtain ⟨tree, hpasses, -⟩ := exists_andTree h
          exact ⟨_, hpasses⟩
  | unary =>
      obtain ⟨tree, hpasses, -⟩ := exists_unaryTree h
      exact ⟨_, hpasses⟩
  | primary =>
      obtain ⟨tree, hpasses, -⟩ := exists_primaryTree h
      exact ⟨_, hpasses⟩
  | group opened => exact absurd rfl (htask opened)

/-- What a reader passes, it passes from the front, and the depth is what it was. A group ends with its `)`. -/
theorem exists_passed_of_read {task : Task} (h : task.read stop s = .ok (e, t)) :
    t.depth = s.depth ∧ ∃ passed, s.tokens = passed ++ t.tokens ∧ passed ≠ [] ∧
      ∀ opened, task = .group opened → ∃ closed, passed.getLast? = some ⟨.close, closed⟩ := by
  have hlength := length_of_read h
  cases task with
  | chain | unary | primary =>
      obtain ⟨places, hpasses⟩ := exists_passes_of_read (by simp) h
      refine ⟨hpasses.depth, tokensOf places, hpasses.tokens, ?_, by simp⟩
      intro hnil
      rw [hpasses.tokens, hnil] at hlength
      exact Nat.lt_irrefl _ hlength
  | group opened =>
      obtain ⟨ts, depth⟩ := s
      obtain ⟨-, u, closed, hinner, hu, hdepth⟩ := exists_of_readGroup_eq_ok stop h
      obtain ⟨tree, hpasses, -⟩ := exists_orTree hinner
      have hopen : u.depth = depth + 1 := hpasses.depth
      have htokens : ts = tokensOf (tree.places (depth + 1)) ++ u.tokens := hpasses.tokens
      refine ⟨?_, tokensOf (tree.places (depth + 1)) ++ [⟨.close, closed⟩], ?_, by simp, ?_⟩
      · rw [hdepth, hopen, Nat.add_sub_cancel]
      · rw [htokens, hu, List.append_assoc, List.singleton_append]
      · exact fun _ _ => ⟨closed, List.getLast?_concat⟩

end Readers

namespace Stage

/-- From a moment on, what a reader gives comes to what waits for it, or its fault ends the run. -/
def Comes (stop : Nat) (m : Stage) (frames : List Frame) : Except Error (Expr × State) → Prop
  | .ok (e, t) => ∃ n, (next stop)^[n] m = ⟨.answer e, frames, t⟩
  | .error fault => ∃ n, ((next stop)^[n] m).control = .refuse fault

section Comes

variable {stop : Nat} {m m' : Stage} {frames frames' : List Frame} {x : Except Error (Expr × State)}

theorem Comes.of_iterate {n : Nat} (hm : (next stop)^[n] m = m') (h : Comes stop m' frames x) :
    Comes stop m frames x := by
  have hadd : ∀ k, (next stop)^[k + n] m = (next stop)^[k] m' := by
    intro k
    rw [Function.iterate_add_apply, hm]
  rcases x with fault | ⟨e, t⟩
  · obtain ⟨k, hk⟩ := h
    exact ⟨k + n, by rw [hadd, hk]⟩
  · obtain ⟨k, hk⟩ := h
    exact ⟨k + n, by rw [hadd, hk]⟩

theorem Comes.of_next (h : Comes stop (m.next stop) frames x) : Comes stop m frames x :=
  .of_iterate (n := 1) rfl h

theorem Comes.bind {f : Expr × State → Except Error (Expr × State)} (hx : Comes stop m frames x)
    (hf : ∀ e t, x = .ok (e, t) → Comes stop ⟨.answer e, frames, t⟩ frames' (f (e, t))) :
    Comes stop m frames' (x >>= f) := by
  rcases x with fault | ⟨e, t⟩
  · exact hx
  · obtain ⟨n, hn⟩ := hx
    exact .of_iterate hn (hf e t rfl)

end Comes

variable {stop d n : Nat} {frames : List Frame} {s : State}

theorem next_unary_of_not_next (h : ¬ s.nextIs .not) :
    next stop ⟨.ask .unary, frames, s⟩ = ⟨.ask .primary, frames, s⟩ := by
  obtain ⟨ts, depth⟩ := s
  cases ts with
  | nil => rfl
  | cons token rest =>
      obtain ⟨symbol, position⟩ := token
      cases symbol with
      | not => simp [nextIs] at h
      | «open» | close | and | or | member => rfl

mutual
theorem comes_task (stop : Nat) (task : Task) (s : State) (frames : List Frame) :
    Comes stop ⟨.ask task, frames, s⟩ frames (task.read stop s) := by
  -- By the recursion of the readers: on the tokens that are left, and on what is asked for while none is passed.
  cases task with
  | chain chain =>
      have hweight : chain.operand.weight < (Task.chain chain).weight := Nat.lt_of_succ_lt chain.weight_operand_lt
      rw [read_chain]
      apply Comes.of_next
      refine (comes_task stop chain.operand s (.chain chain none :: frames)).bind fun e t h => ?_
      have hlength := length_of_read h
      exact comes_chain stop chain none e t frames
  | unary =>
      by_cases hnext : s.nextIs .not
      · obtain ⟨position, rest, hs⟩ := exists_of_next hnext
        have hlength : rest.length < s.tokens.length := by
          rw [hs]
          simp
        rw [hs, Task.read, plain_readUnary_not]
        apply Comes.of_next
        by_cases hdepth : s.depth < maxDepth
        · simp only [next, begin, descend, if_pos hdepth]
          refine (comes_task stop .unary ⟨rest, s.depth + 1⟩ (.negation :: frames)).bind fun e t _ => ?_
          exact ⟨1, rfl⟩
        · simp only [next, begin, descend, if_neg hdepth]
          exact ⟨0, rfl⟩
      · rw [Task.read, plain_readUnary_of_not_next stop hnext]
        apply Comes.of_next
        rw [next_unary_of_not_next hnext]
        exact comes_task stop .primary s frames
  | primary =>
      obtain ⟨ts, depth⟩ := s
      apply Comes.of_next
      cases ts with
      | nil =>
          rw [Task.read, plain_readPrimary_nil]
          exact ⟨0, rfl⟩
      | cons token rest =>
          obtain ⟨symbol, position⟩ := token
          cases symbol with
          | member group =>
              rw [Task.read, plain_readPrimary_member]
              exact ⟨0, rfl⟩
          | «open» =>
              rw [Task.read, plain_readPrimary_open]
              exact comes_task stop (.group position) ⟨rest, depth⟩ frames
          | close | and | or | not =>
              rw [Task.read, plain_readPrimary_other stop (by simp) (by simp)]
              exact ⟨0, rfl⟩
  | group opened =>
      obtain ⟨ts, depth⟩ := s
      rw [Task.read, plain_readGroup]
      apply Comes.of_next
      by_cases hdepth : depth < maxDepth
      · simp only [next, begin, descend, if_pos hdepth]
        refine (comes_task stop (.chain .or) ⟨ts, depth + 1⟩ (.group opened :: frames)).bind fun e t _ => ?_
        apply Comes.of_next
        simp only [next, resume]
        rcases close stop opened (e, t) with fault | ⟨e', u⟩ <;> exact ⟨0, rfl⟩
      · simp only [next, begin, descend, if_neg hdepth]
        exact ⟨0, rfl⟩
termination_by (s.tokens.length, task.weight)

theorem comes_chain (stop : Nat) (chain : Chain) (left? : Option Expr) (e : Expr) (s : State) (frames : List Frame) :
    Comes stop ⟨.answer e, .chain chain left? :: frames, s⟩ frames
      (chain.readOn stop (left?.elim e (chain.join · e)) s) := by
  apply Comes.of_next
  simp only [next, resume]
  by_cases hnext : s.nextIs chain.symbol
  · have hlength := length_pass hnext
    rw [readOn_of_next hnext, if_pos hnext]
    refine (comes_task stop chain.operand s.pass _).bind fun right t h => ?_
    have hlength' := length_of_read h
    exact comes_chain stop chain (some _) right t frames
  · rw [readOn_of_not_next hnext, if_neg hnext]
    exact ⟨0, rfl⟩
termination_by (s.tokens.length, 0)
end

theorem result?_of_comes {x : Except Error (Expr × State)} {m : Stage} (h : Comes stop m [] x) :
    ∃ n, ((next stop)^[n] m).result? = some x := by
  rcases x with fault | ⟨e, t⟩
  · obtain ⟨n, hn⟩ := h
    exact ⟨n, by rw [result?, hn]⟩
  · obtain ⟨n, hn⟩ := h
    exact ⟨n, by rw [hn, result?]⟩

theorem result?_eq {m : Stage} {k : Nat} {r : Except Error (Expr × State)}
    (hk : ((next stop)^[k] m).result? = some r) (hn : ((next stop)^[n] m).result? ≠ none) :
    ((next stop)^[n] m).result? = some r := by
  have hrests : ∀ {i : Nat}, ((next stop)^[i] m).result? ≠ none → ∀ j, i ≤ j →
      (next stop)^[j] m = (next stop)^[i] m := by
    intro i hi j hij
    rw [← Nat.sub_add_cancel hij, Function.iterate_add_apply]
    exact Function.iterate_fixed (next_of_result? hi) _
  rcases Nat.le_total n k with hnk | hkn
  · rw [← hrests hn k hnk, hk]
  · rw [hrests (by simp [hk]) n hkn, hk]

theorem result?_run (stop : Nat) (task : Task) (s : State) (h : 8 * (s.tokens.length + 1) ≤ n) :
    ((next stop)^[n] ⟨.ask task, [], s⟩).result? = some (task.read stop s) := by
  obtain ⟨k, hk⟩ := result?_of_comes (comes_task stop task s [])
  apply result?_eq hk
  apply result?_iterate
  have htask := task.weight_le
  simp only [weight, Control.weight, List.length_nil]
  omega

end Stage

/--
A reader that is started at any depth up to 64 comes to an end, after at most eight steps for each token and eight more,
and every reader that it asks on the way gives what it gives alone. At each moment the depth has grown by as many levels
as groups and negations are open, so it is never above 64 and goes down only from above where it began. A reader that
succeeds leaves the depth as it was and has passed some of the tokens; a group has passed its `)`.
-/
theorem depth_eq_add_opened (stop : Nat) (task : Task) (ts : List Token) {d : Nat} (hd : d ≤ 64) :
    let run := fun n => (Stage.next stop)^[n] ⟨.ask task, [], ⟨ts, d⟩⟩
    (∀ n, 8 * (ts.length + 1) ≤ n → (run n).result? = some (task.read stop ⟨ts, d⟩)) ∧
    (∀ n inner, (run n).control = .ask inner →
      (run n).Comes stop (run n).frames (inner.read stop (run n).state)) ∧
    (∀ n, (run n).state.depth = d + (run n).opened ∧ d ≤ (run n).state.depth ∧ (run n).state.depth ≤ 64 ∧
      (run n).opened ≤ 64) ∧
    (∀ n, ∀ frame ∈ (run n).frames, frame.opens = true → d < (run n).state.depth) ∧
    (∀ e t, task.read stop ⟨ts, d⟩ = .ok (e, t) → t.depth = d ∧ ∃ passed, ts = passed ++ t.tokens ∧ passed ≠ [] ∧
      ∀ opened, task = .group opened → ∃ closed, passed.getLast? = some ⟨.close, closed⟩) := by
  intro run
  have hstart : Stage.Balanced d ⟨.ask task, [], ⟨ts, d⟩⟩ := ⟨rfl, hd⟩
  have hrun : ∀ n, (run n).Balanced d := fun n => Stage.balanced_iterate hstart n
  refine ⟨fun n hn => Stage.result?_run stop task ⟨ts, d⟩ hn, ?_, ?_, ?_, fun e t h => exists_passed_of_read h⟩
  · intro n inner hinner
    have hcomes := Stage.comes_task stop inner (run n).state (run n).frames
    rwa [← hinner] at hcomes
  · intro n
    have hdepth := (hrun n).depth
    have hle : (run n).state.depth ≤ 64 := (hrun n).le
    omega
  · intro n frame hframe hopens
    have hdepth := (hrun n).depth
    have hopened : 0 < (run n).opened := List.countP_pos_iff.2 ⟨frame, hframe, hopens⟩
    omega

theorem depth_eq_add_opened_at_limit :
    let ts : List Token := [⟨.not, 8⟩, ⟨.open, 12⟩, ⟨.member "a", 13⟩, ⟨.close, 32⟩, ⟨.close, 33⟩, ⟨.or, 35⟩]
    let deepest := (Stage.next 37)^[9] ⟨.ask (.group 7), [], ⟨ts, 61⟩⟩
    61 ≤ 64 ∧ deepest.opened = 3 ∧ deepest.state.depth = 64 ∧
      (Task.group 7).read 37 ⟨ts, 61⟩ = .ok (.not (.member "a"), ⟨[⟨.or, 35⟩], 61⟩) := by
  intro ts deepest
  have hd : 61 ≤ 64 := by decide
  have hopened : deepest.opened = 3 := by decide +kernel
  have hlast : (Stage.next 37)^[56] ⟨.ask (.group 7), [], ⟨ts, 61⟩⟩ =
      ⟨.answer (.not (.member "a")), [], ⟨[⟨.or, 35⟩], 61⟩⟩ := by decide +kernel
  obtain ⟨hend, -, hdepth, -⟩ := depth_eq_add_opened 37 (.group 7) ts hd
  have hread := hend 56 (by decide)
  simp only [hlast] at hread
  have hdeepest : deepest.state.depth = 61 + deepest.opened := (hdepth 9).1
  rw [hopened] at hdeepest
  exact ⟨hd, hopened, hdeepest, (Option.some.inj hread).symm⟩

end Groupwise.Expr
