import DisastrOS.Abstract.Frames
import DisastrOS.Library.Runs
import DisastrOS.Refinement.Observation

/-!
# Runs of the system

A run of the system starts in a state built by `disastrOSStart` and consists of completed steps: it
ends where no process is left to run, since restarts by the main context are no steps (`LongRun` has
them), and it leaves the contexts in the PCBs out, so that forked processes run in it.
`SystemRun.invariant` is the induction that all properties of runs use: along a run the kernel
stores an abstract state with the invariants, and a further property of the events so far and the
abstract state is kept if every transition keeps it.
-/

set_option autoImplicit false

namespace DisastrOS

open Runs LinkedSequence LinkedSequence.ListHeap Model

/-- One completed step. -/
def Kernel.Completes (s : Kernel) (act : Action) (s' : Kernel) : Prop := s.step act = .ok s'

/-- The events `es` are those of a run of the system, without restarts by the main context, that
ends in the state `s`. -/
def SystemRun (es : List (Event Kernel Action)) (s : Kernel) : Prop :=
  ∃ chars ints s₀, Kernel.disastrOSStart chars ints = .ok s₀ ∧ Run Kernel.Completes s₀ es s

/-- Some run ends in the state `s`. -/
def Reachable (s : Kernel) : Prop := ∃ es, SystemRun es s

/-- The zombie list is the only list of processes whose counter may be wrong. -/
def exceptZombies (l : ProcList) : Prop := l ≠ .zombie

theorem Kernel.Completes.on {s s' : Kernel} {act : Action} (h : s.Completes act s') :
    s.shutdownNow = false := by
  cases hon : s.shutdownNow with
  | true => simp [Completes, step, hon] at h
  | false => rfl

/-- A completed syscall is a completed run of its handler. -/
theorem Kernel.Completes.handler {s s' : Kernel} {call : Syscall} {r : Addr}
    (h : s.Completes (.syscall call) s') (hr : s.running = some r) :
    call.handler (s.enter r call) = .ok s' := by
  rw [← step_syscall_eq hr h.on]
  exact h

/-- A completed call is a completed step. -/
theorem completes_of_call {s s' : Kernel} {call : Syscall} {v : Option Int}
    (hon : s.shutdownNow = false) (h : s.call call = .ok (s', v)) :
    s.Completes (.syscall call) s' := by
  simp [Kernel.Completes, Kernel.step, hon, h]

/-- The event is the transition from `a` to `a'` of the abstract system. -/
structure Simulated (counted : ProcList → Prop) (e : Event Kernel Action) (a a' : Model) :
    Prop where
  completes : e.pre.Completes e.act e.post
  pre : Refines counted e.pre a
  post : Refines counted e.post a'
  inv : a.Inv
  inv' : a'.Inv
  step : Model.Step e.pre.msgs.Unlinked a e.act a'

variable {counted : ProcList → Prop} {es : List (Event Kernel Action)} {s : Kernel}
  {e : Event Kernel Action} {a a' : Model} {r : Addr}

theorem Simulated.distinct (h : Simulated counted e a a') : a.Distinct :=
  h.pre.distinct h.inv.msg

theorem Refines.running_eq (hR : Refines counted s a) : s.running = a.running := by
  rw [hR.data]

/-- A syscall event is a transition of its handler. -/
theorem Simulated.handler {call : Syscall} (h : Simulated counted e a a')
    (hact : e.act = .syscall call) (hr : e.pre.running = some r) :
    a.running = some r ∧ HandlerStep e.pre.msgs.Unlinked (a.enter r call) r call a' := by
  have hr' : a.running = some r := h.pre.running_eq.symm.trans hr
  have hstep := h.step
  rw [hact] at hstep
  exact ⟨hr', hstep.handler hr'⟩

/-! ## Induction along a run -/

/-- What holds of the initial abstract states and is kept by every transition that meets the
condition `P` holds along every run that meets it. -/
theorem SystemRun.invariant {P : List (Event Kernel Action) → Event Kernel Action → Prop}
    {J : List (Event Kernel Action) → Model → Prop} (h : SystemRun es s) (hP : Throughout P es)
    (h0 : ∀ chars ints, J [] (Model.start chars ints))
    (hcount : ∀ es a, J es a → a.Inv → counted .zombie →
      ∀ q, ∀ e ∈ a.children q, a.ptrPcb e ∉ a.freePcbs)
    (hs : ∀ es e a a', SystemRun es e.pre → J es a → Simulated counted e a a' → P es e →
      J (es ++ [e]) a') :
    ∃ a, Refines counted s a ∧ a.Inv ∧ J es a := by
  obtain ⟨chars, ints, s₀, hstart, hrun⟩ := h
  refine hrun.invariant (I := fun es s => ∃ a, Refines counted s a ∧ a.Inv ∧ J es a) hP ?_ ?_
  · obtain ⟨s, hs, hR⟩ := disastrOSStart_refines counted chars ints
    obtain rfl : s₀ = s := Except.ok.inj (hstart.symm.trans hs)
    exact ⟨_, hR, Model.start_inv chars ints, h0 chars ints⟩
  · rintro es t act t' hrun ⟨a, hR, hI, hJ⟩ hstep hPe
    obtain ⟨a', hs', hR', hI'⟩ := refine_step hR hI (hcount es a hJ hI) hstep
    exact ⟨a', hR', hI', hs es ⟨t, act, t'⟩ a a' ⟨chars, ints, s₀, hstart, hrun⟩ hJ
      ⟨hstep, hR, hR', hI, hI', hs'⟩ hPe⟩

/-- A property that needs neither a condition on the events nor the counter of the zombies. -/
theorem SystemRun.invariant_of_step {J : List (Event Kernel Action) → Model → Prop}
    (h : SystemRun es s) (h0 : ∀ chars ints, J [] (Model.start chars ints))
    (hs : ∀ es e a a', SystemRun es e.pre → J es a → Simulated exceptZombies e a a' →
      J (es ++ [e]) a') :
    ∃ a, Refines exceptZombies s a ∧ a.Inv ∧ J es a :=
  h.invariant (P := fun _ _ => True) (fun _ _ _ _ => trivial) h0
    (fun _ _ _ _ hc => absurd rfl hc) fun es e a a' hrun hJ hsim _ => hs es e a a' hrun hJ hsim

/-- Every reachable state stores an abstract state. -/
theorem SystemRun.refines (h : SystemRun es s) : ∃ a, Refines exceptZombies s a ∧ a.Inv := by
  obtain ⟨a, hR, hI, -⟩ := h.invariant_of_step (J := fun _ _ => True) (fun _ _ => trivial)
    fun _ _ _ _ _ _ _ => trivial
  exact ⟨a, hR, hI⟩

/-- Induction along a run that starts in any state that stores an abstract state. -/
theorem Refines.invariant {P : List (Event Kernel Action) → Event Kernel Action → Prop}
    {J : List (Event Kernel Action) → Model → Prop} {s₀ : Kernel} (hR : Refines exceptZombies s₀ a)
    (hI : a.Inv) (h0 : J [] a) (hrun : Run Kernel.Completes s₀ es s) (hP : Throughout P es)
    (hs : ∀ es e a a', J es a → Simulated exceptZombies e a a' → P es e → J (es ++ [e]) a') :
    ∃ a, Refines exceptZombies s a ∧ a.Inv ∧ J es a := by
  refine hrun.invariant (I := fun es s => ∃ a, Refines exceptZombies s a ∧ a.Inv ∧ J es a) hP
    ⟨a, hR, hI, h0⟩ ?_
  rintro es t act t' - ⟨a, hR, hI, hJ⟩ hstep hPe
  obtain ⟨a', hs', hR', hI'⟩ := refine_step hR hI (fun hc => absurd rfl hc) hstep
  exact ⟨a', hR', hI', hs es ⟨t, act, t'⟩ a a' hJ ⟨hstep, hR, hR', hI, hI', hs'⟩ hPe⟩

theorem SystemRun.step {s' : Kernel} {act : Action} (h : SystemRun es s)
    (hstep : s.Completes act s') : SystemRun (es ++ [⟨s, act, s'⟩]) s' := by
  obtain ⟨chars, ints, s₀, hstart, hrun⟩ := h
  exact ⟨chars, ints, s₀, hstart, hrun.step hstep⟩

/-- A step from a reachable state ends in a reachable state. -/
theorem Reachable.step {s' : Kernel} {act : Action} (h : Reachable s) (hstep : s.Completes act s') :
    Reachable s' := by
  obtain ⟨es, hrun⟩ := h
  exact ⟨_, hrun.step hstep⟩

/-- The run without events. -/
theorem exists_start : ∃ s, SystemRun [] s ∧
    Refines exceptZombies s (Model.start (fun _ => 0) fun _ => 0) := by
  obtain ⟨s, hstart, hR⟩ := disastrOSStart_refines exceptZombies (fun _ => 0) fun _ => 0
  exact ⟨s, ⟨_, _, s, hstart, .start⟩, hR⟩

/-- Up to any of its events a run is a run. -/
theorem SystemRun.split {fs gs : List (Event Kernel Action)} (h : SystemRun (fs ++ e :: gs) s) :
    SystemRun fs e.pre ∧ e.pre.Completes e.act e.post ∧ SystemRun (fs ++ [e]) e.post := by
  obtain ⟨chars, ints, s₀, hstart, hrun⟩ := h
  obtain ⟨h1, h2, -⟩ := hrun.split
  exact ⟨⟨chars, ints, s₀, hstart, h1⟩, h2, ⟨chars, ints, s₀, hstart, h1.step h2⟩⟩

/-- The events after any event of a run lead to its last state. -/
theorem SystemRun.rest {fs gs : List (Event Kernel Action)} (h : SystemRun (fs ++ e :: gs) s) :
    Run Kernel.Completes e.post gs s := by
  obtain ⟨chars, ints, s₀, hstart, hrun⟩ := h
  exact hrun.split.2.2

/-- A run from the state before any event of a run. -/
theorem SystemRun.from_event {fs gs : List (Event Kernel Action)} (h : SystemRun (fs ++ e :: gs) s) :
    Reachable e.pre ∧ Run Kernel.Completes e.pre (e :: gs) s :=
  ⟨⟨fs, h.split.1⟩, h.rest.cons h.split.2.1⟩

/-- The last event of a run ends in the last state. -/
theorem SystemRun.of_concat (h : SystemRun (es ++ [e]) s) :
    SystemRun es e.pre ∧ e.pre.Completes e.act e.post ∧ e.post = s := by
  obtain ⟨chars, ints, s₀, hstart, hrun⟩ := h
  obtain ⟨h1, h2, h3⟩ := hrun.of_concat
  exact ⟨⟨chars, ints, s₀, hstart, h1⟩, h2, h3⟩

/-- A completed step from a state that stores an abstract state is a transition. -/
theorem Refines.simulated {act : Action} {s' : Kernel} (hR : Refines exceptZombies s a)
    (hI : a.Inv) (h : s.Completes act s') : ∃ a', Simulated exceptZombies ⟨s, act, s'⟩ a a' := by
  obtain ⟨a', hs, hR', hI'⟩ := refine_step hR hI (fun hc => absurd rfl hc) h
  exact ⟨a', h, hR, hR', hI, hI', hs⟩

/-- Every event of a run is a transition of the abstract system. -/
theorem SystemRun.simulated (h : SystemRun es s) (he : e ∈ es) :
    ∃ a a', Simulated exceptZombies e a a' := by
  obtain ⟨fs, gs, rfl⟩ := List.append_of_mem he
  obtain ⟨hpre, hstep, -⟩ := h.split
  obtain ⟨a, hR, hI⟩ := hpre.refines
  obtain ⟨a', hsim⟩ := hR.simulated hI hstep
  exact ⟨a, a', hsim⟩

/-- All states of a run are good exactly when all its events meet a condition, if the initial state
is good and that is so for every transition from a good state. -/
theorem SystemRun.all_iff {G : Kernel → Prop} {P : Event Kernel Action → Prop}
    (h : SystemRun es s)
    (h0 : ∀ s₀ chars ints, Refines exceptZombies s₀ (Model.start chars ints) → G s₀)
    (hs : ∀ es e, SystemRun es e.pre → (∀ f ∈ es, P f) → e.pre.Completes e.act e.post → G e.pre →
      (G e.post ↔ P e)) :
    (G s ∧ ∀ e ∈ es, G e.pre ∧ G e.post) ↔ ∀ e ∈ es, P e := by
  obtain ⟨chars, ints, s₀, hstart, hrun⟩ := h
  obtain ⟨s₁, hs₁, hR⟩ := disastrOSStart_refines exceptZombies chars ints
  obtain rfl : s₀ = s₁ := Except.ok.inj (hstart.symm.trans hs₁)
  exact hrun.all_iff (h0 s₀ chars ints hR) fun es e hpre =>
    hs es e ⟨chars, ints, s₀, hstart, hpre⟩

/-! ## Executing runs -/

/-- The run with these actions, from zero-initialised memory of the processes. -/
def execute (as : List Action) : Except Fault (List (Event Kernel Action) × Kernel) :=
  match Kernel.disastrOSStart (fun _ => 0) (fun _ => 0) with
  | .error f => .error f
  | .ok s => trace Kernel.step s as

/-- The test `p` succeeds on the run with these actions. -/
def executes (as : List Action) (p : List (Event Kernel Action) → Kernel → Bool) : Bool :=
  match execute as with
  | .error _ => false
  | .ok (es, s) => p es s

theorem exists_of_executes (as : List Action) (p : List (Event Kernel Action) → Kernel → Bool)
    (h : executes as p) : ∃ es s, SystemRun es s ∧ p es s := by
  unfold executes at h
  split at h
  · cases h
  · rename_i es s hexec
    unfold execute at hexec
    split at hexec
    · cases hexec
    · rename_i s₀ hstart
      exact ⟨es, s, ⟨_, _, s₀, hstart, trace_run hexec⟩, h⟩

end DisastrOS
