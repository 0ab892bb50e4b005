import Groupwise.Outcome

namespace Groupwise

variable {ε α β : Type}

theorem Outcome.eq_ok_of_toOption {x : Except ε α} {a : α} (h : x.toOption = some a) : x = .ok a := by
  cases x with
  | ok b => exact congrArg Except.ok (Option.some.inj h)
  | error e => contradiction

def Outcome.fault? : Except ε α → Option ε
  | .ok _ => none
  | .error fault => some fault

theorem Outcome.eq_error_of_fault? {x : Except ε α} {fault : ε} (h : Outcome.fault? x = some fault) :
    x = .error fault := by
  cases x with
  | ok a => contradiction
  | error e => exact congrArg Except.error (Option.some.inj h)

def Outcome.Ensures (P : α → Prop) (x : Except ε α) : Prop := ∀ a, x = .ok a → P a

namespace Outcome.Ensures

variable {P : α → Prop} {Q : β → Prop}

@[simp] theorem ok {a : α} : Ensures P (Except.ok a : Except ε α) ↔ P a := by
  simp [Ensures]

@[simp] theorem error {e : ε} : Ensures P (Except.error e : Except ε α) := by
  simp [Ensures]

theorem bind {x : Except ε α} {f : α → Except ε β} (hx : Ensures P x) (hf : ∀ a, P a → Ensures Q (f a)) :
    Ensures Q (x >>= f) := by
  intro b h
  obtain ⟨a, ha, hb⟩ := Outcome.bind_eq_ok.1 h
  exact hf a (hx a ha) b hb

theorem bind_of_forall {x : Except ε α} {f : α → Except ε β} (hf : ∀ a, Ensures Q (f a)) : Ensures Q (x >>= f) := by
  intro b h
  obtain ⟨a, -, hb⟩ := Outcome.bind_eq_ok.1 h
  exact hf a b hb

end Outcome.Ensures

end Groupwise
