import DisastrOS.Abstract.Fairness
import DisastrOS.Library.Ranking
import DisastrOS.Properties.SleepTime

/-!
# How long a process waits for the processor

No process starves: with every call of the scheduler a ready process gets closer to the head of the
ready list. A process that sleeps is ready when the clock has reached its awakening time, and waits
like any other from then on.
-/

set_option autoImplicit false

namespace DisastrOS

open Runs LinkedSequence LinkedSequence.ListHeap Model

variable {es : List (Event Kernel Action)} {s s' u : Kernel} {a : Model} {r x : Addr} {n : Int32}
  {w : Int}

/-- The processes in front of the ready process `x`, and those that sleep. -/
def Kernel.ahead (s : Kernel) (x : Addr) : Nat := (s.processes .ready).idxOf x + s.timers.length

/-- How many of the events satisfy `p`. -/
def countActs (p : Action → Bool) (es : List (Event Kernel Action)) : Nat :=
  es.countP fun e => p e.act

theorem Refines.ahead_eq (hR : Refines exceptZombies s a) (hI : a.Inv) (x : Addr) :
    s.ahead x = a.ahead x := by
  rw [Kernel.ahead, Model.ahead, hR.processes_eq hI.proc, hR.timers_eq hI.timer]

/-! ## Ready processes -/

/-- The process `x` is ready in a state that stores an abstract state. -/
def WaitsReady (x : Addr) (s : Kernel) : Prop :=
  ∃ a, Refines exceptZombies s a ∧ a.Inv ∧ x ∈ a.procs .ready

theorem ranked_ready (x : Addr) : Ranked Kernel.Completes (WaitsReady x)
    (fun s => s.running = some x) (fun s => s.ahead x) schedules := by
  rintro s act t ⟨a, hR, hI, hx⟩ hstep
  obtain ⟨a', hsim⟩ := hR.simulated hI hstep
  rcases hsim.step.advances hx with hrun | ⟨hx', hle⟩
  · exact Or.inl (hsim.post.running_eq.trans hrun)
  · refine Or.inr ⟨⟨a', hsim.post, hsim.inv', hx'⟩, ?_⟩
    show t.ahead x + (schedules act).toNat ≤ s.ahead x
    rwa [hsim.post.ahead_eq hsim.inv', hR.ahead_eq hI]

theorem Reachable.waitsReady (h : Reachable s) (hx : x ∈ s.processes .ready) :
    WaitsReady x s ∧ s.ahead x < maxNumProcesses := by
  obtain ⟨es, hrun⟩ := h
  obtain ⟨a, hR, hI⟩ := hrun.refines
  rw [hR.processes_eq hI.proc] at hx
  refine ⟨⟨a, hR, hI, hx⟩, ?_⟩
  rw [hR.ahead_eq hI]
  exact hI.ahead_lt hx

/-- A ready process is behind fewer than 1024 others, and it runs once the scheduler has been called
more often than their number. -/
theorem bounded_waiting (h : Reachable u) (hx : x ∈ u.processes .ready) :
    u.ahead x < maxNumProcesses ∧ ∀ es s, Run Kernel.Completes u es s →
      u.ahead x < countActs schedules es → ∃ e ∈ es, e.post.running = some x := by
  obtain ⟨hwaits, hahead⟩ := h.waitsReady hx
  exact ⟨hahead, fun es s => (ranked_ready x).reaches hwaits⟩

/-- The second child is behind the first and behind `init`, which sleeps; it runs at the latest with
the third tick. -/
theorem bounded_waiting_two : ∃ (u s : Kernel) (es : List (Event Kernel Action)),
    u.processes .ready = [35088] ∧ u.ahead 35088 = 1 ∧ Run Kernel.Completes u es s ∧
      ∃ e ∈ es, e.post.running = some 35088 := by
  obtain ⟨es, s, hrun, hp⟩ := exists_of_executes
    [.syscall (.spawn 1 0), .syscall (.spawn 1 0), .syscall (.sleep 1), .tick, .tick]
    (fun es _ => match es with
      | _ :: _ :: _ :: e :: gs => e.pre.processes .ready = [35088] ∧ e.pre.ahead 35088 = 1 ∧
          1 < countActs schedules (e :: gs)
      | _ => false) (by decide +kernel)
  split at hp
  · rename_i e₁ e₂ e₃ e gs
    obtain ⟨hready, hahead, hcount⟩ := of_decide_eq_true hp
    have hrun' : SystemRun ([e₁, e₂, e₃] ++ e :: gs) s := hrun
    obtain ⟨hreach, hrest⟩ := hrun'.from_event
    have hmem : 35088 ∈ e.pre.processes .ready := by rw [hready]; exact List.mem_singleton_self _
    exact ⟨e.pre, s, e :: gs, hready, hahead, hrest,
      (bounded_waiting hreach hmem).2 _ s hrest (by rwa [hahead])⟩
  · cases hp

/-! ## Sleepers -/

/-- The process `x` sleeps until the clock reaches `w`, in a state that stores an abstract state. -/
def WaitsAsleep (x : Addr) (w : Int) (s : Kernel) : Prop :=
  s.time < w ∧ ∃ a, Refines exceptZombies s a ∧ a.Inv ∧ a.Timed ∧ a.SleepsUntil x w

theorem WaitsAsleep.step {act : Action} {t : Kernel} (h : WaitsAsleep x w s) (hw : w < 2 ^ 31)
    (hstep : s.Completes act t) :
    (WaitsAsleep x w t ∧ t.time = s.time + (ticks act).toNat) ∨
      (s.time + (ticks act).toNat = w ∧ (x ∈ t.processes .ready ∨ t.running = some x)) := by
  obtain ⟨hlt, a, hR, hI, hT, hx⟩ := h
  obtain ⟨a', hsim⟩ := hR.simulated hI hstep
  have htime : s.time = a.time := by rw [hR.data]
  have htime' : t.time = a'.time := by rw [hsim.post.data]
  rw [htime] at hlt ⊢
  rw [htime', hsim.post.processes_eq hsim.inv'.proc, hsim.post.running_eq]
  rcases hsim.step.sleeper_cases hI hsim.inv' hT.order hT.clock hx hw hlt with
    ⟨hx', hlt', hclock⟩ | hwoken
  · refine Or.inl ⟨⟨?_, a', hsim.post, hsim.inv', hsim.step.timed hI hT, hx'⟩, hclock⟩
    rwa [htime']
  · exact Or.inr hwoken

/-- The process `x` runs or is ready. -/
def Kernel.Awake (s : Kernel) (x : Addr) : Prop := s.running = some x ∨ x ∈ s.processes .ready

theorem ranked_asleep (x : Addr) (hw : w < 2 ^ 31) : Ranked Kernel.Completes (WaitsAsleep x w)
    (fun s => s.Awake x) (fun s => (w - s.time - 1).toNat) ticks := by
  intro s act t hs hstep
  rcases hs.step hw hstep with ⟨ht, hclock⟩ | ⟨-, hawake⟩
  · refine Or.inr ⟨ht, ?_⟩
    have hlt := ht.1
    show (w - t.time - 1).toNat + (ticks act).toNat ≤ (w - s.time - 1).toNat
    omega
  · exact Or.inl hawake.symm

/-- A `sleep` of at least one cycle whose end is an `int` lets the caller sleep until then. -/
theorem Reachable.asleep (h : Reachable s) (hr : s.running = some r) (hn : 0 < n.toInt)
    (hfit : s.time + n.toInt < 2 ^ 31) (hsleep : s.Completes (.syscall (.sleep n)) s') :
    WaitsAsleep r (s.time + n.toInt) s' ∧ s'.time = s.time := by
  obtain ⟨es, hrun⟩ := h
  obtain ⟨a, hR, hI, hT⟩ := hrun.longRun.timed
  have hclock : -2 ^ 31 ≤ s.time := by
    rw [hR.data]
    exact hT.clock.1
  obtain ⟨a', hR', hI', hT', hx, -, -, htime, -⟩ := hR.slept hI hT hr hsleep
  rw [wrapInt_of_bounds (by omega) hfit] at hx
  exact ⟨⟨by omega, a', hR', hI', hT', hx⟩, htime⟩

theorem Reachable.run (h : Reachable s) (hrun : Run Kernel.Completes s es u) : Reachable u := by
  induction hrun with
  | start => exact h
  | step _ hstep ih => exact ih.step hstep

/-- After `sleep(n)` the caller is ready, or runs again, at the latest with the `n`th tick, and it
runs again at the latest 1024 ticks after that. -/
theorem sleep_response (h : Reachable s) (hr : s.running = some r) (hn : 0 < n.toInt)
    (hfit : s.time + n.toInt < 2 ^ 31) (hsleep : s.Completes (.syscall (.sleep n)) s')
    (hrun : Run Kernel.Completes s' es u) :
    (n.toInt.toNat ≤ countActs ticks es → ∃ e ∈ es, e.post.Awake r) ∧
      (n.toInt.toNat + maxNumProcesses ≤ countActs ticks es →
        ∃ e ∈ es, e.post.running = some r) := by
  obtain ⟨hwaits, htime⟩ := h.asleep hr hn hfit hsleep
  have hreach := h.step hsleep
  have hrank : (s.time + n.toInt - s'.time - 1).toNat + 1 = n.toInt.toNat := by omega
  refine ⟨fun hcount => (ranked_asleep r hfit).reaches hwaits hrun ?_, fun hcount => ?_⟩
  · rw [countActs] at hcount
    omega
  · refine (ranked_asleep r hfit).andThen (fun s => s.running = some r) (n := maxNumProcesses)
      hwaits hrun ?_ ?_
    · rintro fs v gs hfs (hruns | hready) hgs hmany
      · exact Or.inl hruns
      · obtain ⟨hwaits', hahead⟩ := (hreach.run hfs).waitsReady hready
        refine Or.inr ((ranked_ready r).reaches hwaits' hgs ?_)
        -- every tick is a call of the scheduler
        refine Nat.lt_of_lt_of_le hahead (hmany.trans (List.countP_mono_left fun e _ => ?_))
        cases e.act <;> simp [ticks, schedules]
    · rw [countActs] at hcount
      omega

/-- `init` sleeps for two cycles while its child runs, and the second tick wakes it. -/
theorem sleep_response_two : ∃ (s' u : Kernel) (es : List (Event Kernel Action)),
    s'.processes .waiting = [0] ∧ Run Kernel.Completes s' es u ∧ countActs ticks es = 2 ∧
      ∃ e ∈ es, e.post.Awake 0 := by
  obtain ⟨es, u, hrun, hp⟩ := exists_of_executes
    [.syscall (.spawn 1 0), .syscall (.sleep 2), .tick, .tick]
    (fun es _ => match es with
      | _ :: f :: gs => f.act = .syscall (.sleep 2) ∧ f.pre.running = some 0 ∧ f.pre.time = 0 ∧
          f.post.processes .waiting = [0] ∧ countActs ticks gs = 2
      | _ => false) (by decide +kernel)
  split at hp
  · rename_i e f gs
    obtain ⟨hact, hr, htime, hwaiting, hcount⟩ := of_decide_eq_true hp
    have hrun' : SystemRun ([e] ++ f :: gs) u := hrun
    obtain ⟨hpre, hstep, -⟩ := hrun'.split
    rw [hact] at hstep
    exact ⟨f.post, u, gs, hwaiting, hrun'.rest, hcount,
      (sleep_response ⟨_, hpre⟩ hr (by decide) (by rw [htime]; decide) hstep hrun'.rest).1
        (by rw [hcount]; decide)⟩
  · cases hp

end DisastrOS
