import Mathlib.Logic.Basic
import Mathlib.Data.List.Basic

/-!
# Runs of a transition system

A run is a sequence of events, each with the state before and the state after it. `Run step s es t`
says that the events `es` lead from `s` to `t`. What holds of a run is proved by induction from its
end (`Run.invariant`), under a condition on every event that may depend on the events before it.
`trace` executes a list of actions, and a completed trace is a run.
-/

set_option autoImplicit false

namespace Runs

variable {σ α ε : Type}

/-- An action with the states before and after it. -/
structure Event (σ α : Type) where
  pre : σ
  act : α
  post : σ

/-- The events lead from the state `s` to the last state. -/
inductive Run (step : σ → α → σ → Prop) (s : σ) : List (Event σ α) → σ → Prop where
  | start : Run step s [] s
  | step {es : List (Event σ α)} {t t' : σ} {a : α} :
      Run step s es t → step t a t' → Run step s (es ++ [⟨t, a, t'⟩]) t'

/-- The condition `P` holds of every event and the events before it. -/
def Throughout (P : List (Event σ α) → Event σ α → Prop) (es : List (Event σ α)) : Prop :=
  ∀ fs e gs, es = fs ++ e :: gs → P fs e

variable {step : σ → α → σ → Prop} {s t t' : σ} {es fs : List (Event σ α)} {e : Event σ α} {a : α}

/-! ## Conditions on events -/

theorem throughout_nil (P : List (Event σ α) → Event σ α → Prop) : Throughout P [] :=
  fun _ _ _ h => by simp at h

theorem throughout_concat {P : List (Event σ α) → Event σ α → Prop} :
    Throughout P (es ++ [e]) ↔ Throughout P es ∧ P es e := by
  constructor
  · intro h
    refine ⟨fun fs f gs hes => h fs f (gs ++ [e]) (by simp [hes]), h es e [] rfl⟩
  · rintro ⟨h, he⟩ fs f gs heq
    rcases List.eq_nil_or_concat gs with rfl | ⟨gs, g, rfl⟩
    · obtain ⟨rfl, hef⟩ := List.append_inj' heq rfl
      obtain rfl : e = f := by simpa using hef
      exact he
    · rw [List.concat_eq_append, ← List.cons_append, ← List.append_assoc] at heq
      exact h fs f gs (List.append_inj' heq rfl).1

theorem Throughout.left {P : List (Event σ α) → Event σ α → Prop} (h : Throughout P (es ++ fs)) :
    Throughout P es := fun gs f hs heq => h gs f (hs ++ fs) (by simp [heq])

theorem Throughout.right {P : List (Event σ α) → Event σ α → Prop} (h : Throughout P (es ++ fs)) :
    Throughout (fun gs e => P (es ++ gs) e) fs :=
  fun gs f hs heq => h (es ++ gs) f hs (by simp [heq])

/-- The test `test` succeeds on every event of `gs` and the events before it, with `fs` in front. -/
def throughoutTest (test : List (Event σ α) → Event σ α → Bool) :
    List (Event σ α) → List (Event σ α) → Bool
  | _, [] => true
  | fs, e :: gs => test fs e && throughoutTest test (fs ++ [e]) gs

theorem Throughout.of_test {P : List (Event σ α) → Event σ α → Prop}
    {test : List (Event σ α) → Event σ α → Bool} (htest : ∀ fs e, test fs e → P fs e)
    {gs : List (Event σ α)} (h : Throughout P fs) (hgs : throughoutTest test fs gs) :
    Throughout P (fs ++ gs) := by
  induction gs generalizing fs with
  | nil =>
      rw [List.append_nil]
      exact h
  | cons e gs ih =>
      obtain ⟨he, hgs⟩ := Bool.and_eq_true_iff.1 hgs
      have hrest := ih (throughout_concat.2 ⟨h, htest fs e he⟩) hgs
      rwa [List.append_assoc] at hrest

/-! ## Induction along a run -/

/-- What holds at the start and is kept by every step that meets the condition holds at the end. -/
theorem Run.invariant {P : List (Event σ α) → Event σ α → Prop}
    {I : List (Event σ α) → σ → Prop} (h : Run step s es t) (hP : Throughout P es) (h0 : I [] s)
    (hs : ∀ es t a t', Run step s es t → I es t → step t a t' → P es ⟨t, a, t'⟩ →
      I (es ++ [⟨t, a, t'⟩]) t') : I es t := by
  induction h with
  | start => exact h0
  | step hrun hstep ih =>
      rw [throughout_concat] at hP
      exact hs _ _ _ _ hrun (ih hP.1) hstep hP.2

/-- If a step from a good state ends in a good state exactly when it meets the condition, given that
all steps before it do, then all states of a run are good exactly when all its events meet it. -/
theorem Run.all_iff {G : σ → Prop} {P : Event σ α → Prop} (h : Run step s es t) (h0 : G s)
    (hs : ∀ es e, Run step s es e.pre → (∀ f ∈ es, P f) → step e.pre e.act e.post → G e.pre →
      (G e.post ↔ P e)) :
    (G t ∧ ∀ e ∈ es, G e.pre ∧ G e.post) ↔ ∀ e ∈ es, P e := by
  induction h with
  | start => simp [h0]
  | @step es t t' a hrun hstep ih =>
      have hlast := fun hP => hs es ⟨t, a, t'⟩ hrun hP hstep
      simp only [List.mem_append, List.mem_singleton, or_imp, forall_and, forall_eq] at ih ⊢
      constructor
      · rintro ⟨ht', ⟨hpre, ht⟩, hpost, -⟩
        have hP := ih.1 ⟨ht, hpre, hpost⟩
        exact ⟨hP, (hlast hP ht).1 ht'⟩
      · rintro ⟨hP, he⟩
        obtain ⟨ht, hpre, hpost⟩ := ih.2 hP
        have ht' := (hlast hP ht).2 he
        exact ⟨ht', ⟨hpre, ht⟩, hpost, ht'⟩

/-- A run is split at any of its events. -/
theorem Run.split {gs : List (Event σ α)} (h : Run step s (fs ++ e :: gs) t) :
    Run step s fs e.pre ∧ step e.pre e.act e.post ∧ Run step e.post gs t := by
  generalize hes : fs ++ e :: gs = es at h
  induction h generalizing gs with
  | start => simp at hes
  | @step es u u' b hrun hstep ih =>
      rcases List.eq_nil_or_concat gs with rfl | ⟨gs, g, rfl⟩
      · obtain ⟨rfl, he⟩ := List.append_inj' hes rfl
        obtain rfl : e = ⟨u, b, u'⟩ := by simpa using he
        exact ⟨hrun, hstep, .start⟩
      · rw [List.concat_eq_append, ← List.cons_append, ← List.append_assoc] at hes
        obtain ⟨hinit, hg⟩ := List.append_inj' hes rfl
        obtain rfl : g = ⟨u, b, u'⟩ := by simpa using hg
        obtain ⟨h1, h2, h3⟩ := ih hinit
        rw [List.concat_eq_append]
        exact ⟨h1, h2, h3.step hstep⟩

theorem Run.eq_of_nil (h : Run step s [] t) : s = t := by
  generalize hes : ([] : List (Event σ α)) = es at h
  cases h with
  | start => rfl
  | step _ _ => simp at hes

/-- The last event of a run ends in the last state. -/
theorem Run.of_concat (h : Run step s (es ++ [e]) t) :
    Run step s es e.pre ∧ step e.pre e.act e.post ∧ e.post = t :=
  ⟨h.split.1, h.split.2.1, h.split.2.2.eq_of_nil⟩

/-- A step in front of a run. -/
theorem Run.cons (hstep : step s a t) (h : Run step t es t') :
    Run step s (⟨s, a, t⟩ :: es) t' := by
  induction h with
  | start => exact Run.start.step hstep
  | step _ hs ih => exact ih.step hs

/-! ## Executing a list of actions -/

/-- The events of the actions from the state `s`, and the last state. -/
def trace (next : σ → α → Except ε σ) : σ → List α → Except ε (List (Event σ α) × σ)
  | s, [] => .ok ([], s)
  | s, a :: as =>
      match next s a with
      | .error f => .error f
      | .ok t =>
          match trace next t as with
          | .error f => .error f
          | .ok (es, t') => .ok (⟨s, a, t⟩ :: es, t')

theorem trace_run {next : σ → α → Except ε σ} {as : List α} (h : trace next s as = .ok (es, t)) :
    Run (fun s a t => next s a = .ok t) s es t := by
  induction as generalizing s es with
  | nil =>
      obtain ⟨rfl, rfl⟩ : [] = es ∧ s = t := by simpa [trace] using h
      exact .start
  | cons a as ih =>
      cases hnext : next s a with
      | error f => simp [trace, hnext] at h
      | ok u =>
          cases htrace : trace next u as with
          | error f => simp [trace, hnext, htrace] at h
          | ok r =>
              obtain ⟨fs, u'⟩ := r
              obtain ⟨rfl, rfl⟩ : ⟨s, a, u⟩ :: fs = es ∧ u' = t := by
                simpa [trace, hnext, htrace] using h
              exact (ih htrace).cons hnext

end Runs
