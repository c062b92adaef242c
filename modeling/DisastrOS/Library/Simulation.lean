import DisastrOS.Library.Runs

/-!
# Forward simulations with stuttering

A system simulates another one if each step of the other is answered by one step with the action
that the step shows, or by none if it shows nothing. The actions shown along a run are then those of
a run of the simulating system (`Simulates.run`).
-/

set_option autoImplicit false

namespace Runs

variable {σ τ ι α : Type}

/-- A step that shows the action `a` is answered by a step with it, a step that shows nothing by
none. -/
def Answered (step : τ → α → τ → Prop) (t : τ) : Option α → τ → Prop
  | none, t' => t' = t
  | some a, t' => step t a t'

/-- `shows` is the action that a step shows, and `rel` relates the states. -/
def Simulates (step : σ → ι → σ → Prop) (step' : τ → α → τ → Prop) (shows : σ → ι → Option α)
    (rel : σ → τ → Prop) : Prop :=
  ∀ s i s' t, rel s t → step s i s' → ∃ t', Answered step' t (shows s i) t' ∧ rel s' t'

variable {step : σ → ι → σ → Prop} {step' : τ → α → τ → Prop} {shows : σ → ι → Option α}
  {rel : σ → τ → Prop} {s s' : σ} {t : τ} {es : List (Event σ ι)}

/-- The actions that the events of a run show, in order. -/
def shown (shows : σ → ι → Option α) (es : List (Event σ ι)) : List α :=
  es.filterMap fun e => shows e.pre e.act

theorem shown_concat {i : ι} :
    shown shows (es ++ [⟨s, i, s'⟩]) = shown shows es ++ (shows s i).toList := by
  rw [shown, List.filterMap_append, ← shown]
  cases hshows : shows s i <;> simp [hshows]

theorem Simulates.run (h : Simulates step step' shows rel) (hrun : Run step s es s')
    (hrel : rel s t) :
    ∃ fs t', Run step' t fs t' ∧ fs.map Event.act = shown shows es ∧ rel s' t' := by
  induction hrun with
  | start => exact ⟨[], t, .start, rfl, hrel⟩
  | @step es u u' i _ hstep ih =>
      obtain ⟨fs, t', hrun', hacts, hrel'⟩ := ih
      obtain ⟨t'', hanswer, hrel''⟩ := h u i u' t' hrel' hstep
      rw [shown_concat, ← hacts]
      cases hshows : shows u i with
      | none =>
          rw [hshows] at hanswer
          obtain rfl : t'' = t' := hanswer
          exact ⟨fs, t'', hrun', by simp, hrel''⟩
      | some a =>
          rw [hshows] at hanswer
          exact ⟨fs ++ [⟨t', a, t''⟩], t'', hrun'.step hanswer, by simp, hrel''⟩

end Runs
