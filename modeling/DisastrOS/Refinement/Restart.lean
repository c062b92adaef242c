import DisastrOS.Abstract.Restart
import DisastrOS.Contexts
import DisastrOS.Refinement.SystemRun

/-!
# Runs with restarts

When the last process that could run goes to sleep, the trap returns and the main context resumes.
A long run may contain any number of such restarts, but none by a process function that returns.
Kernel states keep storing abstract states with the invariants along it.
-/

set_option autoImplicit false

namespace DisastrOS

open Runs LinkedSequence LinkedSequence.ListHeap Model

variable {counted : ProcList → Prop} {c c' s : Kernel} {a : Model}

theorem initPools_on {s s' : Kernel} (h : s.initPools = .ok s') :
    s'.shutdownNow = s.shutdownNow := by
  simp only [Kernel.initPools, bind_eq_ok, pure_eq_ok, Except.ok.injEq] at h
  obtain ⟨_, _, _, _, _, _, _, _, _, _, _, _, _, _, _, _, rfl⟩ := h
  rfl

/-- The first process, too, is started by the main context. -/
theorem disastrOSStart_eq (chars : Int → UInt8) (ints : Int → Int) :
    Kernel.disastrOSStart chars ints = (Kernel.zeroed chars ints).initPools >>= fun s =>
      Kernel.resumeMain { s with
        initPcb := none
        running := none
        procs := ((s.procs.initHead .ready).initHead .waiting).initHead .zombie
        resourcesList := s.resourcesList.initHead ()
        timerList := s.timerList.initHead () } := by
  unfold Kernel.disastrOSStart
  cases hpools : (Kernel.zeroed chars ints).initPools with
  | error f => rfl
  | ok s =>
      have hon : s.shutdownNow = false := initPools_on hpools
      simp only [ok_bind, Kernel.resumeMain, hon, Bool.false_eq_true, if_false]

/-- The main context starts a new `init`, or uses a null pointer if no PCB is free. -/
theorem Refines.resumeMain (hR : Refines counted c a) (hI : a.Inv) (hon : c.shutdownNow = false) :
    (a.freePcbs = [] ∧ c.resumeMain = .error .nullPointer) ∨
      ∃ c' a', c.resumeMain = .ok c' ∧ BootStep a a' ∧ Refines counted c' a' := by
  have hdata := hR.data
  unfold Kernel.resumeMain
  simp only [hon, Bool.false_eq_true, if_false]
  rcases hR.pcbs.getBlock_cases with ⟨hnil, hblock⟩ | ⟨x, xs, pool, hx, hblock, hpool⟩
  · exact Or.inl ⟨hnil, by simp [Kernel.pcbAlloc, hblock, deref]⟩
  have hfresh := hI.proc.free_fresh (x := x) (by rw [hx]; exact List.mem_cons_self)
  have hout : Unlisted (fun _ => True) a.procs x := fun l _ hmem => hfresh (Used.of_mem hmem)
  simp only [Kernel.pcbAlloc, hblock, deref_some, ok_bind, pure_eq_ok]
  obtain ⟨d, sq, fb⟩ := a
  obtain rfl := hdata
  refine Or.inr ⟨_, _, rfl, .booted hx, { hR with
    data := ?_
    procs := hR.procs.clearItem hout
    tidy := hR.tidy.clearItem x
    children := hR.children.initHead x (fun _ _ => Or.inr trivial) fun _ _ => Or.inr trivial
    descriptors := hR.descriptors.initHead x (fun _ _ => Or.inr trivial)
      fun _ _ => Or.inr trivial
    pcbs := hpool }⟩
  simp [Model.boot]

/-- One completed move. The main context resumes when no process runs: that is when the trap returns
to it, since no process function does. -/
def Kernel.Moves (s : Kernel) : Move → Kernel → Prop
  | .action act, s' => s.Completes act s'
  | .resume, s' => s.running = none ∧ s.resumeMain = .ok s'

/-- After the shutdown nothing moves. -/
theorem Kernel.Moves.on {mv : Move} (h : s.Moves mv c) : s.shutdownNow = false := by
  cases mv with
  | action act => exact Kernel.Completes.on h
  | resume =>
      obtain ⟨-, hstep⟩ := h
      cases hon : s.shutdownNow with
      | true => simp [Kernel.resumeMain, hon] at hstep
      | false => rfl

/-- The events `es` are those of a run with restarts that ends in the state `s`. -/
def LongRun (es : List (Event Kernel Move)) (s : Kernel) : Prop :=
  ∃ chars ints s₀, Kernel.disastrOSStart chars ints = .ok s₀ ∧ Run Kernel.Moves s₀ es s

/-- Every move is a transition that keeps the invariants. -/
theorem Refines.moves {mv : Move} (hR : Refines exceptZombies c a) (hI : a.Inv)
    (h : c.Moves mv c') : ∃ a', Refines exceptZombies c' a' ∧ a'.Inv ∧
      Model.MoveStep c.msgs.Unlinked a mv a' := by
  cases mv with
  | action act =>
      obtain ⟨a', hsim⟩ := hR.simulated hI h
      exact ⟨a', hsim.post, hsim.inv', .action hsim.step⟩
  | resume =>
      have hon := h.on
      obtain ⟨hidle, hstep⟩ := h
      have hidle' : a.running = none := hR.running_eq.symm.trans hidle
      rcases hR.resumeMain hI hon with ⟨-, hfault⟩ | ⟨c₁, a', heq, hboot, hR'⟩
      · rw [hfault] at hstep
        cases hstep
      · obtain rfl : c₁ = c' := Except.ok.inj (heq.symm.trans hstep)
        exact ⟨a', hR', hboot.keep hI hidle', .resume hidle' hboot⟩

/-- Nothing moves while no process runs and no PCB is free for a new `init`. -/
theorem Refines.not_moves {mv : Move} (hR : Refines exceptZombies c a) (hI : a.Inv)
    (hidle : a.running = none) (hfree : a.freePcbs = []) : ¬ c.Moves mv c' := by
  intro h
  obtain ⟨a', -, -, hstep⟩ := hR.moves hI h
  cases hstep with
  | action hstep =>
      cases hstep with
      | tick hr _ => cases hidle.symm.trans hr
      | syscall hr _ => cases hidle.symm.trans hr
      | store hr => cases hidle.symm.trans hr
  | resume _ hboot =>
      cases hboot with
      | booted hx => cases hfree.symm.trans hx

/-- The event is the transition from `a` to `a'`, or a restart. -/
structure Moved (e : Event Kernel Move) (a a' : Model) : Prop where
  moves : e.pre.Moves e.act e.post
  pre : Refines exceptZombies e.pre a
  post : Refines exceptZombies e.post a'
  inv : a.Inv
  inv' : a'.Inv
  step : Model.MoveStep e.pre.msgs.Unlinked a e.act a'

/-- Induction along a run with restarts that starts in any state that stores an abstract state. -/
theorem Refines.move_invariant {es : List (Event Kernel Move)}
    {P : List (Event Kernel Move) → Event Kernel Move → Prop}
    {J : List (Event Kernel Move) → Model → Prop} (hR : Refines exceptZombies c a) (hI : a.Inv)
    (h0 : J [] a) (hrun : Run Kernel.Moves c es s) (hP : Throughout P es)
    (hs : ∀ es e a a', J es a → Moved e a a' → P es e → J (es ++ [e]) a') :
    ∃ a, Refines exceptZombies s a ∧ a.Inv ∧ J es a := by
  refine hrun.invariant (I := fun es s => ∃ a, Refines exceptZombies s a ∧ a.Inv ∧ J es a) hP
    ⟨a, hR, hI, h0⟩ ?_
  rintro es t mv t' - ⟨a, hR, hI, hJ⟩ hstep hPe
  obtain ⟨a', hR', hI', hmove⟩ := hR.moves hI hstep
  exact ⟨a', hR', hI', hs es ⟨t, mv, t'⟩ a a' hJ ⟨hstep, hR, hR', hI, hI', hmove⟩ hPe⟩

/-- A property of the events so far and the abstract state that every move keeps. -/
theorem LongRun.invariant {es : List (Event Kernel Move)}
    {J : List (Event Kernel Move) → Model → Prop} (h : LongRun es s)
    (h0 : ∀ chars ints, J [] (Model.start chars ints))
    (hs : ∀ es e a a', J es a → Moved e a a' → J (es ++ [e]) a') :
    ∃ a, Refines exceptZombies s a ∧ a.Inv ∧ J es a := by
  obtain ⟨chars, ints, s₀, hstart, hrun⟩ := h
  obtain ⟨s, hs₀, hR⟩ := disastrOSStart_refines exceptZombies chars ints
  obtain rfl : s₀ = s := Except.ok.inj (hstart.symm.trans hs₀)
  exact hR.move_invariant (Model.start_inv chars ints) (h0 chars ints) hrun
    (P := fun _ _ => True) (fun _ _ _ _ => trivial) fun es e a a' hJ hmove _ => hs es e a a' hJ hmove

/-- A move at the end of a run. -/
theorem LongRun.step {es : List (Event Kernel Move)} {mv : Move} (h : LongRun es s)
    (hmove : s.Moves mv c) : LongRun (es ++ [⟨s, mv, c⟩]) c := by
  obtain ⟨chars, ints, s₀, hstart, hrun⟩ := h
  exact ⟨chars, ints, s₀, hstart, hrun.step hmove⟩

/-- The last event of a run ends in the last state. -/
theorem LongRun.of_concat {es : List (Event Kernel Move)} {e : Event Kernel Move}
    (h : LongRun (es ++ [e]) s) : LongRun es e.pre ∧ e.pre.Moves e.act e.post ∧ e.post = s := by
  obtain ⟨chars, ints, s₀, hstart, hrun⟩ := h
  obtain ⟨h1, h2, h3⟩ := hrun.of_concat
  exact ⟨⟨chars, ints, s₀, hstart, h1⟩, h2, h3⟩

/-- A run without restarts. -/
theorem SystemRun.longRun {es : List (Event Kernel Action)} (h : SystemRun es s) :
    LongRun (es.map fun e => ⟨e.pre, .action e.act, e.post⟩) s := by
  obtain ⟨chars, ints, s₀, hstart, hrun⟩ := h
  refine ⟨chars, ints, s₀, hstart, ?_⟩
  induction hrun with
  | start => exact .start
  | step _ hstep ih =>
      rw [List.map_append]
      exact ih.step hstep

end DisastrOS
