import DisastrOS.Abstract.Timers
import DisastrOS.Refinement.SystemRun

/-!
# Timers and sleeping processes

The timers stand for the processes that are blocked in `sleep`, one for each. So `sleep` never runs
out of timers, the scheduler only wakes processes that are waiting, and a process that exits has no
timer.
-/

set_option autoImplicit false

namespace DisastrOS

open Runs LinkedSequence LinkedSequence.ListHeap Model

variable {counted : ProcList → Prop} {es : List (Event Kernel Action)} {s u : Kernel} {a : Model}
  {r t : Addr} {previous : Option Addr}

/-- The states at the head of the wake-up loop that starts in `s`, each with the process woken
last. -/
inductive WakeLoop (s : Kernel) : Kernel → Option Addr → Prop where
  | start : WakeLoop s s none
  | next {u u' : Kernel} {previous : Option Addr} {t : Addr} : WakeLoop s u previous →
      u.timerListCurrent u.time = some t → u.wakeOne t previous = .ok u' →
      WakeLoop s u' (some (u.timerPcb t))

/-- The states in which the scheduler is called while `r` runs in `s`: by a tick or by `preempt`. -/
def SchedulerCalled (s : Kernel) (r : Addr) (u : Kernel) : Prop :=
  u = { s with time := wrapInt (s.time + 1) } ∨ u = s.enter r .preempt

/-- Timers and sleeping processes correspond while `r` runs. -/
structure SleepersTimed (s : Kernel) (r : Addr) : Prop where
  distinct : (s.timers.map s.timerPcb).Nodup
  sleeping : ∀ p, p ∈ s.timers.map s.timerPcb ↔
    p ∈ s.processes .waiting ∧ s.syscallNum p = dsosCallSleep
  others : ∀ p ∈ s.processes .waiting, p ∉ s.timers.map s.timerPcb →
    s.syscallNum p = dsosCallWait
  inUse : ∀ t, s.timerItemAllocator.handedOut t ↔ t ∈ s.timers
  count : s.timers.Nodup ∧ s.timerItemAllocator.size + s.timers.length = maxNumProcesses
  /-- `sleep` finds a timer: it blocks the process, and answers nothing. -/
  sleeps : s.timerItemAllocator.getBlock.1 ≠ none ∧
    ∀ cycles, ∃ s', (s.enter r (.sleep cycles)).internalSleep = .ok s' ∧
      s'.syscallRetvalue = s.syscallRetvalue ∧ r ∈ s'.processes .waiting ∧
      r ∈ s'.timers.map s'.timerPcb
  /-- Every process that the wake-up loop detaches from the waiting list is in it. -/
  detaches : ∀ u₀, SchedulerCalled s r u₀ → ∀ u previous t, WakeLoop u₀ u previous →
    u.timerListCurrent u.time = some t → u.timerPcb t ∈ u.processes .waiting
  /-- No timer is that of the running process, so the loop of `exit` removes none. -/
  cleanUp : ∀ u : Kernel, u.timerList = s.timerList → u.timerPcb = s.timerPcb →
    (∀ t ∈ u.timers, u.timerPcb t ≠ r) ∧
      Kernel.releaseTimers r loopBound u (u.timerList.first ()) = .ok u
  exits : ∀ value s', s.Completes (.syscall (.exit value)) s' → s'.timers = s.timers

/-! ## The wake-up loop -/

/-- The abstract state at the head of the wake-up loop. -/
def AtLoopHead (counted : ProcList → Prop) (u : Kernel) (previous : Option Addr) : Prop :=
  ∃ a woken rest, Refines counted u a ∧ a.ProcInv ∧ a.TimerInv ∧
    a.procs .ready = woken ++ rest ∧ previous = woken.getLast?

/-- The timer for which the loop goes on is the first one. -/
theorem Refines.current (hR : Refines counted u a) (h : u.timerListCurrent u.time = some t) :
    ∃ ts, a.timerList = t :: ts := by
  rw [hR.timerListCurrent_eq] at h
  cases hlist : a.timerList with
  | nil => simp [hlist] at h
  | cons t' ts =>
      rw [hlist, List.head?_cons, Option.filter_eq_some_iff] at h
      obtain rfl : t' = t := Option.some.inj h.1
      exact ⟨ts, rfl⟩

theorem WakeLoop.atLoopHead (h : WakeLoop s u previous) (h₀ : AtLoopHead counted s none) :
    AtLoopHead counted u previous := by
  induction h with
  | start => exact h₀
  | @next u u' previous t _ hcur hone ih =>
      obtain ⟨a, woken, rest, hR, hP, hT, hready, rfl⟩ := ih
      obtain ⟨ts, ht⟩ := hR.current hcur
      have hx := (hT.sleeping t (by rw [ht]; exact List.mem_cons_self)).1
      obtain ⟨c', heq, hR'⟩ := hR.wakeOne hT ht hready
      obtain rfl : c' = u' := Except.ok.inj (heq.symm.trans hone)
      refine ⟨_, woken ++ [a.timerPcb t], rest, hR', hP.wake hx hready, hT.wake hP ht, ?_, ?_⟩
      · simp
      · simp [hR.data]

theorem AtLoopHead.detaches (h : AtLoopHead counted u previous)
    (hcur : u.timerListCurrent u.time = some t) : u.timerPcb t ∈ u.processes .waiting := by
  obtain ⟨a, -, -, hR, hP, hT, -, -⟩ := h
  obtain ⟨ts, ht⟩ := hR.current hcur
  rw [hR.processes_eq hP, hR.data]
  exact (hT.sleeping t (by rw [ht]; exact List.mem_cons_self)).1

theorem Refines.schedulerCalled {u₀ : Kernel} (hR : Refines counted s a) (hI : a.Inv)
    (hr : a.running = some r) (h : SchedulerCalled s r u₀) : AtLoopHead counted u₀ none := by
  rcases h with rfl | rfl
  · have htime : s.time = a.time := by rw [hR.data]
    refine ⟨{ a with time := wrapInt (a.time + 1) }, [], _, ?_, { hI.proc with },
      { hI.timer with }, rfl, rfl⟩
    exact { hR with data := by rw [← hR.data, htime] }
  · have hI' := hI.enter hr .preempt
    exact ⟨a.enter r .preempt, [], _, hR.enter r .preempt, hI'.proc, hI'.timer, rfl, rfl⟩

/-! ## Runs -/

theorem Model.start_noTimers (chars : Int → UInt8) (ints : Int → Int) :
    (Model.start chars ints).NoTimers := by
  intro x
  simp only [Model.start, Function.update_apply, ite_self]

theorem SystemRun.noTimers (h : SystemRun es s) :
    ∃ a, Refines exceptZombies s a ∧ a.Inv ∧ a.NoTimers :=
  h.invariant_of_step (J := fun _ a => a.NoTimers) Model.start_noTimers
    fun _ _ _ _ _ hN hsim => hsim.step.noTimers hN

/-- The timers are those of the sleeping processes, one for each. -/
theorem Refines.mem_timerPcbs (hR : Refines counted s a) (hI : a.Inv) (p : Addr) :
    p ∈ s.timers.map s.timerPcb ↔ p ∈ s.processes .waiting ∧ s.syscallNum p = dsosCallSleep := by
  rw [hR.timers_eq hI.timer, hR.processes_eq hI.proc, hR.data, List.mem_map]
  constructor
  · rintro ⟨t, ht, rfl⟩
    exact hI.timer.sleeping t ht
  · rintro ⟨hp, hnum⟩
    exact hI.timer.timed p hp hnum

/-- `sleep` blocks the running process on a new timer. -/
theorem Refines.sleeps (hR : Refines counted s a) (hI : a.Inv) (hN : a.NoTimers)
    (hr : a.running = some r) (cycles : Int32) :
    ∃ s', (s.enter r (.sleep cycles)).internalSleep = .ok s' ∧
      s'.syscallRetvalue = s.syscallRetvalue ∧ r ∈ s'.processes .waiting ∧
      r ∈ s'.timers.map s'.timerPcb := by
  have hR₁ := hR.enter r (.sleep cycles)
  have hI₁ := hI.enter hr (.sleep cycles)
  have hnum : (a.enter r (.sleep cycles)).syscallNum r = dsosCallSleep := Function.update_self ..
  obtain ⟨s', a', heq, hs, hR'⟩ := hR₁.internalSleep hI₁.proc hI₁.timer hr
  obtain ⟨hP', hT'⟩ := hs.inv hI₁.proc hI₁.timer hr hnum
  obtain ⟨hanswer, hmem⟩ := hs.blocks hI₁.proc hI₁.timer hN hr
  have hnum' : a'.syscallNum r = dsosCallSleep := by
    obtain ⟨_, _, _, _, _, _, _, _, rfl⟩ := hs.eq
    exact hnum
  obtain ⟨t, ht, hpcb⟩ := hT'.timed r hmem hnum'
  refine ⟨s', heq, ?_, ?_, ?_⟩
  · rw [hR'.data, hanswer, hR.data]
    rfl
  · rwa [hR'.processes_eq hP']
  · rw [hR'.timers_eq hT', hR'.data]
    exact List.mem_map.2 ⟨t, ht, hpcb⟩

/-- The clean-up loop of `exit` finds no timer of the running process. -/
theorem Refines.cleanUp (hR : Refines counted s a) (hI : a.Inv) (hr : a.running = some r)
    (hlist : u.timerList = s.timerList) (hpcb : u.timerPcb = s.timerPcb) :
    (∀ t ∈ u.timers, u.timerPcb t ≠ r) ∧
      Kernel.releaseTimers r loopBound u (u.timerList.first ()) = .ok u := by
  have hother : ∀ t ∈ a.timerList, u.timerPcb t ≠ r := by
    intro t ht heq
    rw [hpcb, hR.data] at heq
    exact (hI.proc.running_fresh hr).1 .waiting (heq ▸ (hI.timer.sleeping t ht).1)
  have htimers : u.timers = a.timerList := by
    rw [← hR.timers_eq hI.timer, Kernel.timers, Kernel.timers, hlist]
  refine ⟨fun t ht => hother t (htimers ▸ ht), ?_⟩
  have hchain := (hR.timerList.represents () trivial).chain
  rw [hlist, (hR.timerList.represents () trivial).first]
  exact releaseTimers_eq (hlist ▸ hchain) hother (hR.timerList_short hI.timer)

/-- In every reachable state the timers are those of the sleeping processes. -/
theorem sleepers_timed (h : Reachable s) (hr : s.running = some r) : SleepersTimed s r := by
  obtain ⟨es, hrun⟩ := h
  obtain ⟨a, hR, hI, hN⟩ := hrun.noTimers
  have hr' : a.running = some r := hR.running_eq.symm.trans hr
  have htimers := hR.timers_eq hI.timer
  constructor
  case distinct =>
    rw [htimers, hR.data]
    exact hI.timer.distinct
  case sleeping => exact hR.mem_timerPcbs hI
  case others =>
    intro p hp hout
    rw [hR.mem_timerPcbs hI, not_and] at hout
    have hnum := hout hp
    rw [hR.processes_eq hI.proc] at hp
    rw [hR.data] at hnum ⊢
    exact (hI.proc.blocked p hp).resolve_right hnum
  case inUse =>
    intro t
    rw [hR.timers.handedOut_iff, htimers, ← mem_allBlocks, ← hI.timer.partition.mem_iff,
      List.mem_append]
    constructor
    · rintro ⟨ht | ht, hfree⟩
      · exact ht
      · exact absurd ht hfree
    · intro ht
      exact ⟨Or.inl ht, (hI.timer.used ht).2⟩
  case count =>
    rw [htimers]
    refine ⟨hR.timerList.separate.nodup () trivial, ?_⟩
    have hlen := hI.timer.partition.length_eq
    rw [List.length_append, allBlocks_length] at hlen
    rw [hR.timers.count]
    omega
  case sleeps =>
    refine ⟨fun hnone => ?_, hR.sleeps hI hN hr'⟩
    rw [hR.timers.getBlock_head, List.head?_eq_none_iff] at hnone
    exact hI.timer.free_ne_nil hI.proc hr' hnone
  case detaches =>
    intro u₀ hcalled u previous t hloop hcur
    exact (hloop.atLoopHead (hR.schedulerCalled hI hr' hcalled)).detaches hcur
  case cleanUp => exact fun u hlist hpcb => hR.cleanUp hI hr' hlist hpcb
  case exits =>
    intro value s' hexit
    obtain ⟨a', hsim⟩ := hR.simulated hI hexit
    rw [htimers, hsim.post.timers_eq hsim.inv'.timer]
    obtain ⟨-, hs⟩ := hsim.handler rfl hr
    cases hs with
    | exit hs =>
        obtain ⟨_, _, _, _, _, _, _, _, _, _, _, _, _, rfl⟩ := hs.eq
        rfl

/-- Two processes sleep while a third one runs. -/
theorem sleepers_timed_two : ∃ s : Kernel, (s.processes .waiting = [0, 17544] ∧
    s.timers.map s.timerPcb = [17544, 0]) ∧ SleepersTimed s 35088 := by
  obtain ⟨es, s, hrun, hp⟩ := exists_of_executes
    [.syscall (.spawn 1 0), .syscall (.spawn 1 0), .syscall (.sleep 9), .syscall (.sleep 4)]
    (fun _ s => s.running = some 35088 ∧ s.processes .waiting = [0, 17544] ∧
      s.timers.map s.timerPcb = [17544, 0]) (by decide +kernel)
  obtain ⟨hr, hlists⟩ := of_decide_eq_true hp
  exact ⟨s, hlists, sleepers_timed ⟨es, hrun⟩ hr⟩

end DisastrOS
