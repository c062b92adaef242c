import DisastrOS.Abstract.Sleeping
import DisastrOS.Properties.Sleepers
import DisastrOS.Refinement.Calls
import DisastrOS.Refinement.Restart

/-!
# How long a process sleeps

`sleep` adds the number of cycles to the clock as an `int`. Up to the largest `int` the process
sleeps until the clock has reached the sum. Beyond it the sum wraps around to a time in the past,
and the next call of the scheduler wakes the process. If nobody is left to call it, the main context
starts a new `init` that does.
-/

set_option autoImplicit false

namespace DisastrOS

open Runs LinkedSequence LinkedSequence.ListHeap Model

variable {es : List (Event Kernel Move)} {s s' u : Kernel} {a a' : Model} {r : Addr}
  {n : Int32} {w : Int}

/-- In every run from `s`, with or without restarts, during which the clock is below `w`, the
process `r` is not moved to the ready list and does not run. -/
def SleepsOn (s : Kernel) (r : Addr) (w : Int) : Prop :=
  ∀ es u, Run Kernel.Moves s es u → (∀ e ∈ es, e.pre.time < w) → u.time < w →
    r ∉ u.processes .ready ∧ u.running ≠ some r

/-! ## Sleeping until the awakening time -/

theorem Model.SleepsUntil.not_ready (h : a.SleepsUntil r w) (hP : a.ProcInv) :
    r ∉ a.procs .ready ∧ a.running ≠ some r := by
  constructor
  · intro hready
    have hstatus := hP.ready r hready
    rw [(hP.waiting r).2 h.waits] at hstatus
    cases hstatus
  · intro hrun
    exact (hP.running_fresh hrun).1 .waiting h.waits

/-- A process whose timer elapses at `w` sleeps until then. -/
theorem Refines.sleepsOn (hR : Refines exceptZombies s a) (hI : a.Inv) (h : a.SleepsUntil r w) :
    SleepsOn s r w := by
  intro es u hrun hpre hu
  -- the last state of every part of the run is before `w`
  have hpost : Throughout (fun _ e => e.post.time < w) es := by
    rintro fs e gs rfl
    cases gs with
    | nil =>
        obtain ⟨-, -, heq⟩ := hrun.of_concat
        rwa [heq]
    | cons g gs =>
        rw [← List.singleton_append, ← List.append_assoc] at hrun
        obtain ⟨-, -, heq⟩ := hrun.split.1.of_concat
        rw [heq]
        exact hpre g (by simp)
  obtain ⟨b, hRb, hIb, hb⟩ := hR.move_invariant (J := fun _ b => b.SleepsUntil r w) hI h hrun hpost
    fun es e b b' hb hmove hlt => hmove.step.sleepsUntil hmove.inv hmove.inv' hb (by
      rwa [hmove.post.data] at hlt)
  rw [hRb.processes_eq hIb.proc, hRb.running_eq]
  exact hb.not_ready hIb.proc

/-! ## Runs -/

theorem Model.start_timed (chars : Int → UInt8) (ints : Int → Int) :
    (Model.start chars ints).Timed :=
  ⟨⟨by simp [Model.start, Kernel.zeroed], by simp [Model.start, Kernel.zeroed]⟩,
    start_noTimers chars ints, StableQueue.inOrder_nil⟩

theorem LongRun.timed (h : LongRun es s) :
    ∃ a, Refines exceptZombies s a ∧ a.Inv ∧ a.Timed :=
  h.invariant (J := fun _ a => a.Timed) Model.start_timed
    fun _ _ _ _ hT hmove => hmove.step.timed hmove.inv hT

/-- Nothing happens any more while no process runs and no PCB is free for a new `init`. -/
theorem Refines.eq_of_run_idle (hR : Refines exceptZombies s a) (hI : a.Inv)
    (hidle : a.running = none) (hfree : a.freePcbs = []) (h : Run Kernel.Moves s es u) : u = s := by
  induction h with
  | start => rfl
  | step _ hmove ih =>
      subst ih
      exact absurd hmove (hR.not_moves hI hidle hfree)

/-! ## Waking -/

/-- A process whose timer has elapsed already is woken by the next `preempt`. -/
theorem Refines.wakes_at_once (hR : Refines exceptZombies s a) (hI : a.Inv) (hT : a.Timed)
    (hon : s.shutdownNow = false) (hx : a.SleepsUntil r w) (hw : w ≤ a.time) {q : Addr}
    (hq : a.running = some q) : ∃ u, s.Completes (.syscall .preempt) u ∧ u.time = s.time ∧
      (r ∈ u.processes .ready ∨ u.running = some r) := by
  obtain ⟨u, b, hcalled⟩ := hR.call_preempt hI hq
  have hstep := completes_of_call hon hcalled.call
  have htime : u.time = s.time := by
    rw [hcalled.post.data, hcalled.step.time_eq, hR.data]
    rfl
  refine ⟨u, hstep, htime, ?_⟩
  have hx₁ : r ∈ (a.enter q .preempt).elapsedPcbs := by
    obtain ⟨t, ht, htr, htw⟩ := hx.timer
    refine List.mem_map.2 ⟨t, List.mem_filter.2 ⟨ht, ?_⟩, htr⟩
    show decide (a.awakeningTime t ≤ a.time)
    rw [htw]
    exact decide_eq_true hw
  have hI₁ := hI.enter hq .preempt
  rw [hcalled.post.processes_eq hcalled.inv.proc, hcalled.post.running_eq]
  cases hcalled.step with
  | preempt hs => exact hs.wakes hI₁.proc hI₁.timer hT.order hx₁

/-- It does not sleep on while a process runs. -/
theorem Refines.not_sleepsOn (hR : Refines exceptZombies s a) (hI : a.Inv) (hT : a.Timed)
    (hon : s.shutdownNow = false) (hx : a.SleepsUntil r w) (hw : w ≤ a.time) {q : Addr}
    (hq : a.running = some q) {v : Int} (hv : s.time < v) : ¬ SleepsOn s r v := by
  intro hsleeps
  obtain ⟨u, hstep, htime, hwoken⟩ := hR.wakes_at_once hI hT hon hx hw hq
  have hmove : s.Moves (.action (.syscall .preempt)) u := hstep
  obtain ⟨hout, hidle⟩ := hsleeps [⟨s, .action (.syscall .preempt), u⟩] u (Run.start.step hmove)
    (fun e he => by
      obtain rfl := List.mem_singleton.1 he
      exact hv) (by omega)
  exact hwoken.elim hout hidle

/-- While nobody runs, the main context starts a process if a PCB is free, which wakes the one that
sleeps. -/
theorem Refines.not_sleepsOn_of_idle (hR : Refines exceptZombies s a) (hI : a.Inv) (hT : a.Timed)
    (hon : s.shutdownNow = false) (hx : a.SleepsUntil r w) (hw : w ≤ a.time)
    (hidle : a.running = none) (hfree : a.freePcbs ≠ []) {v : Int} (hv : s.time < v) :
    ¬ SleepsOn s r v := by
  intro hsleeps
  rcases hR.resumeMain hI hon with ⟨hnil, -⟩ | ⟨c, b, hstep, hboot, hRb⟩
  · exact hfree hnil
  have hmove : s.Moves .resume c := ⟨hR.running_eq.trans hidle, hstep⟩
  have hIb := hboot.keep hI hidle
  have hxb := hboot.sleepsUntil hx
  have hTb := hboot.timed hT
  cases hboot with
  | @booted y ys hy =>
      have htime : c.time = s.time := by
        rw [hRb.data, hR.data]
        rfl
      have honb : c.shutdownNow = false := by
        rw [hRb.data, ← hon, hR.data]
        rfl
      refine hRb.not_sleepsOn hIb hTb honb hxb hw rfl (htime ▸ hv) ?_
      -- a run from there is a run from `s` after the restart
      intro es u hrun hpre hu
      refine hsleeps _ u (hrun.cons hmove) (fun e he => ?_) hu
      rcases List.mem_cons.1 he with rfl | he
      · exact hv
      · exact hpre e he

/-! ## The call -/

/-- After a `sleep` the caller sleeps, and the first of the ready processes runs. -/
theorem Refines.slept (hR : Refines exceptZombies s a) (hI : a.Inv) (hT : a.Timed)
    (hr : s.running = some r) (hsleep : s.Completes (.syscall (.sleep n)) s') :
    ∃ a', Refines exceptZombies s' a' ∧ a'.Inv ∧ a'.Timed ∧
      a'.SleepsUntil r (wrapInt (s.time + n.toInt)) ∧ a'.running = (s.processes .ready).head? ∧
      a'.freePcbs = a.freePcbs ∧ s'.time = s.time ∧ s'.shutdownNow = false := by
  obtain ⟨a', hsim⟩ := hR.simulated hI hsleep
  obtain ⟨hr', hs⟩ := hsim.handler rfl hr
  have htime : s.time = a.time := by rw [hR.data]
  have harg : (a.enter r (.sleep n)).syscallArgs r 0 = n.toInt :=
    enter_args a r (.sleep n) (by simp [Syscall.args])
  have htime' : s'.time = s.time := by
    rw [hsim.post.data, hs.time_eq, htime]
    rfl
  have hT' := hsim.step.timed hI hT
  cases hs with
  | sleep hs =>
      have hI₁ := hI.enter hr' (.sleep n)
      obtain ⟨hx, hnext⟩ :=
        hs.sleepsUntil hI₁.proc hI₁.timer hT.noTimers hr' (Function.update_self ..)
      rw [harg, wrapInt_toInt, show (a.enter r (.sleep n)).time = s.time from htime.symm] at hx
      rw [show (a.enter r (.sleep n)).procs = a.procs from rfl, ← hR.processes_eq hI.proc] at hnext
      refine ⟨a', hsim.post, hsim.inv', hT', hx, hnext, ?_, htime', ?_⟩
      · obtain ⟨_, _, _, _, _, _, _, _, rfl⟩ := hs.eq
        rfl
      · obtain ⟨_, _, _, _, _, _, _, _, rfl⟩ := hs.eq
        rw [hsim.post.data, ← hsleep.on, hR.data]
        rfl

/-- In a state at the end of a run, with or without restarts, after `sleep(n)` the process sleeps
until the clock has advanced by `n`, if and only if that time is an `int` or nothing can happen any
more: nobody is left to run, and no PCB is free for a new `init`. -/
theorem sleeps_on_iff (h : LongRun es s) (hr : s.running = some r) (hn : 0 ≤ n.toInt)
    (hsleep : s.Completes (.syscall (.sleep n)) s') :
    SleepsOn s' r (s.time + n.toInt) ↔ s.time + n.toInt < 2 ^ 31 ∨
      (s.processes .ready = [] ∧ s.pcbAllocator.getBlock.1 = none) := by
  obtain ⟨a, hR, hI, hT⟩ := h.timed
  have hclock : -2 ^ 31 ≤ s.time ∧ s.time < 2 ^ 31 := by
    rw [hR.data]
    exact hT.clock
  obtain ⟨a', hR', hI', hT', hx, hnext, hpcbs, htime, hon⟩ := hR.slept hI hT hr hsleep
  have htime' : a'.time = s.time := by rw [← htime, hR'.data]
  by_cases hfit : s.time + n.toInt < 2 ^ 31
  · rw [wrapInt_of_bounds (by omega) hfit] at hx
    exact iff_of_true (hR'.sleepsOn hI' hx) (Or.inl hfit)
  -- the sum has wrapped around to a time in the past
  · rw [or_iff_right hfit, hR.pcbs.getBlock_head, List.head?_eq_none_iff, ← hpcbs]
    have hpast : wrapInt (s.time + n.toInt) ≤ a'.time := by
      rw [htime']
      exact wrapInt_add_le hclock.2 n.toInt_lt (Int.not_lt.1 hfit)
    have hlt : s'.time < s.time + n.toInt := by omega
    cases hready : s.processes .ready with
    -- the next process wakes the caller
    | cons q rest =>
        rw [hready] at hnext
        exact iff_of_false (hR'.not_sleepsOn hI' hT' hon hx hpast hnext hlt)
          fun h => List.cons_ne_nil q rest h.1
    -- the main context starts a new process that does, if it can
    | nil =>
        rw [hready] at hnext
        rw [and_iff_right rfl]
        by_cases hfree : a'.freePcbs = []
        · refine iff_of_true (fun es u hrun _ _ => ?_) hfree
          rw [hR'.eq_of_run_idle hI' hnext hfree hrun, hR'.processes_eq hI'.proc, hR'.running_eq]
          exact hx.not_ready hI'.proc
        · exact iff_of_false
            (hR'.not_sleepsOn_of_idle hI' hT' hon hx hpast hnext hfree hlt) hfree

/-- `init` sleeps for the largest `int` while the clock is 0. -/
theorem sleeps_on_iff_max : ∃ s : Kernel, s.processes .waiting = [0] ∧
    SleepsOn s 0 2147483647 := by
  obtain ⟨es, s, hrun, hp⟩ := exists_of_executes [.syscall (.spawn 1 0)]
    (fun _ s => s.running = some 0 ∧ s.time = 0 ∧
      ((s.step (.syscall (.sleep 2147483647))).toOption.map fun s' => s'.processes .waiting) =
        some [0]) (by decide +kernel)
  obtain ⟨hr, htime, hwaiting⟩ := of_decide_eq_true hp
  cases hstep : s.step (.syscall (.sleep 2147483647)) with
  | error f =>
      rw [hstep] at hwaiting
      cases hwaiting
  | ok s' =>
      rw [hstep] at hwaiting
      have hiff := sleeps_on_iff hrun.longRun hr (n := 2147483647) (by decide) hstep
      rw [htime] at hiff
      exact ⟨s', Option.some.inj hwaiting, hiff.2 (Or.inl (by decide))⟩

/-- At the time 1, `init` sleeps for the largest `int`, and its child wakes it at once. -/
theorem wakes_early : ∃ (es : List (Event Kernel Move)) (s s' : Kernel), LongRun es s ∧
    s.running = some 0 ∧ s.time = 1 ∧ s.Completes (.syscall (.sleep 2147483647)) s' ∧
      ¬ SleepsOn s' 0 (1 + 2147483647) := by
  obtain ⟨es, s, hrun, hp⟩ := exists_of_executes [.tick, .syscall (.spawn 1 0)]
    (fun _ s => s.running = some 0 ∧ s.time = 1 ∧
      (s.step (.syscall (.sleep 2147483647)) >>= fun s' => s'.step (.syscall .preempt) >>= fun u =>
        .ok (s'.time, u.time, u.running)).toOption = some (1, 1, some 0)) (by decide +kernel)
  obtain ⟨hr, htime, hsteps⟩ := of_decide_eq_true hp
  cases hstep : s.step (.syscall (.sleep 2147483647)) with
  | error f =>
      rw [hstep] at hsteps
      cases hsteps
  | ok s' =>
      rw [hstep, ok_bind] at hsteps
      cases hstep' : s'.step (.syscall .preempt) with
      | error f =>
          rw [hstep'] at hsteps
          cases hsteps
      | ok u =>
          rw [hstep', ok_bind] at hsteps
          obtain ⟨hpre, hrest⟩ := Prod.mk.inj (Option.some.inj hsteps)
          obtain ⟨hpost, hwoken⟩ := Prod.mk.inj hrest
          refine ⟨_, s, s', hrun.longRun, hr, htime, hstep, fun hsleeps => ?_⟩
          have hmove : s'.Moves (.action (.syscall .preempt)) u := hstep'
          refine (hsleeps [⟨s', .action (.syscall .preempt), u⟩] u (Run.start.step hmove)
            (fun e he => ?_) (by omega)).2 hwoken
          obtain rfl := List.mem_singleton.1 he
          show s'.time < _
          omega

end DisastrOS
