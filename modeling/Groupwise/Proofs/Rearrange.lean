namespace Groupwise

variable {α β : Type} {f : β → α → β} {before : α → α → Prop} {steps order : List α}

def Commute (f : β → α → β) (a b : α) : Prop := ∀ s, f (f s a) b = f (f s b) a

theorem foldl_append_cons_of_commute {front : List α} {a : α} (h : ∀ x ∈ front, Commute f x a)
    (back : List α) (s : β) : (front ++ a :: back).foldl f s = (front ++ back).foldl f (f s a) := by
  induction front generalizing s with
  | nil => rfl
  | cons x front ih =>
      obtain ⟨hx, hfront⟩ := List.forall_mem_cons.1 h
      simp only [List.cons_append, List.foldl_cons]
      rw [ih hfront, hx s]

/--
A run does not depend on the order of its steps as long as any two steps that do not commute keep theirs. `steps`
are in the order `before`, and `order` has the same steps in another order.
-/
theorem foldl_eq_of_perm (hasymm : ∀ a b, before a b → ¬ before b a) (hsteps : steps.Pairwise before)
    (hperm : order.Perm steps) (horder : order.Pairwise fun a b => before a b ∨ Commute f a b) (s : β) :
    order.foldl f s = steps.foldl f s := by
  induction steps generalizing order s with
  | nil =>
      obtain rfl := hperm.eq_nil
      rfl
  | cons a steps ih =>
      obtain ⟨ha, hsteps⟩ := List.pairwise_cons.1 hsteps
      obtain ⟨front, back, rfl⟩ := List.append_of_mem (hperm.mem_iff.2 List.mem_cons_self)
      have hrest : (front ++ back).Perm steps :=
        List.Perm.cons_inv (List.perm_middle.symm.trans hperm)
      -- What comes before `a` here comes after it there, so it has to commute with it.
      have hcommute : ∀ x ∈ front, Commute f x a := by
        intro x hx
        have hpair := (List.pairwise_append.1 horder).2.2 x hx a List.mem_cons_self
        have hafter : before a x := ha x (hrest.mem_iff.1 (List.mem_append_left back hx))
        exact hpair.resolve_left (hasymm a x hafter)
      have hsublist : (front ++ back).Sublist (front ++ a :: back) :=
        List.Sublist.append_left (List.sublist_cons_self a back) front
      rw [foldl_append_cons_of_commute hcommute, List.foldl_cons]
      exact ih hsteps hrest (horder.sublist hsublist) (f s a)

end Groupwise
