import DisastrOS.Library.Runs

/-!
# Ranking arguments

A goal is reached in time if every state that still waits for it has a rank, no step raises the
rank, and every step of some kind lowers it. Then a run from a waiting state that has more steps of
that kind than the rank passes the goal (`Ranked.reaches`).
-/

set_option autoImplicit false

namespace Runs

variable {σ α : Type}

/-- The states in `waiting` wait for `goal`: a step reaches it, or the rank does not grow, and a
step with an action in `serves` lowers it. -/
def Ranked (step : σ → α → σ → Prop) (waiting goal : σ → Prop) (rank : σ → Nat)
    (serves : α → Bool) : Prop :=
  ∀ s a t, waiting s → step s a t →
    goal t ∨ (waiting t ∧ rank t + (serves a).toNat ≤ rank s)

variable {step : σ → α → σ → Prop} {waiting goal : σ → Prop} {rank : σ → Nat} {serves : α → Bool}
  {s t : σ} {es : List (Event σ α)}

/-- Either some event reaches the goal, after at most as many steps that serve as the first rank, or
the rank and those steps add up to at most the first rank. -/
theorem Ranked.reaches_or (h : Ranked step waiting goal rank serves) (hs : waiting s)
    (hrun : Run step s es t) :
    (∃ fs e gs, es = fs ++ e :: gs ∧ goal e.post ∧ fs.countP (fun e => serves e.act) ≤ rank s) ∨
      (waiting t ∧ rank t + es.countP (fun e => serves e.act) ≤ rank s) := by
  induction hrun with
  | start => exact Or.inr ⟨hs, Nat.le_refl _⟩
  | @step es t t' a _ hstep ih =>
      rcases ih with ⟨fs, e, gs, rfl, hgoal, hcount⟩ | ⟨hwait, hrank⟩
      · exact Or.inl ⟨fs, e, gs ++ [⟨t, a, t'⟩], by simp, hgoal, hcount⟩
      · rcases h t a t' hwait hstep with hgoal | ⟨hwait', hrank'⟩
        · exact Or.inl ⟨es, ⟨t, a, t'⟩, [], rfl, hgoal, by omega⟩
        · refine Or.inr ⟨hwait', ?_⟩
          have hone : List.countP (fun e => serves e.act) [(⟨t, a, t'⟩ : Event σ α)] =
              (serves a).toNat := by
            cases hserves : serves a <;> simp [hserves]
          rw [List.countP_append, hone]
          omega

/-- A run with more steps that serve than the first rank reaches the goal. -/
theorem Ranked.reaches (h : Ranked step waiting goal rank serves) (hs : waiting s)
    (hrun : Run step s es t) (hcount : rank s < es.countP fun e => serves e.act) :
    ∃ e ∈ es, goal e.post := by
  rcases h.reaches_or hs hrun with ⟨fs, e, gs, rfl, hgoal, -⟩ | ⟨-, hrank⟩
  · exact ⟨e, by simp, hgoal⟩
  · omega

/-- If a second goal is reached within `n` further steps that serve, the run reaches it. -/
theorem Ranked.andThen {n : Nat} (goal' : σ → Prop)
    (h : Ranked step waiting goal rank serves) (hs : waiting s) (hrun : Run step s es t)
    (hnext : ∀ fs u gs, Run step s fs u → goal u → Run step u gs t →
      n ≤ gs.countP (fun e => serves e.act) → goal' u ∨ ∃ e ∈ gs, goal' e.post)
    (hcount : rank s + n < es.countP fun e => serves e.act) : ∃ e ∈ es, goal' e.post := by
  rcases h.reaches_or hs hrun with ⟨fs, e, gs, rfl, hgoal, hfs⟩ | ⟨-, hrank⟩
  · have hgs : n ≤ gs.countP fun e => serves e.act := by
      rw [List.countP_append, List.countP_cons] at hcount
      split at hcount <;> omega
    obtain ⟨hfirst, hstep, hrest⟩ := hrun.split
    rcases hnext _ e.post gs (hfirst.step hstep) hgoal hrest hgs with he | ⟨f, hf, hgoal'⟩
    · exact ⟨e, by simp, he⟩
    · exact ⟨f, by simp [hf], hgoal'⟩
  · omega

end Runs
