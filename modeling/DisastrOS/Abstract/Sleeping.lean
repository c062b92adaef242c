import DisastrOS.Abstract.Restart
import DisastrOS.Abstract.Timers
import DisastrOS.Abstract.Waiting

/-!
# Processes that sleep

The awakening time of a process is that of its timer from the `sleep` that sets it until the wake-up
loop takes the timer out. So a process sleeps on as long as the clock is below that time, whatever
the other processes do, and also when the main context starts a new `init`.
-/

set_option autoImplicit false

namespace DisastrOS

open StableQueue

namespace Model

variable {clean : Addr → Prop} {a a' : Model} {r x t : Addr} {c : Syscall} {act : Action}
  {w : Int}

/-! ## The owners of the timers -/

/-- A timer in the list was there before, with the same process and time, or it is the new timer of
the process that sleeps. -/
theorem SleepStep.timer_cases (h : SleepStep a r a') (ht : t ∈ a'.timerList) :
    (t ∈ a.timerList ∧ a'.timerPcb t = a.timerPcb t ∧ a'.awakeningTime t = a.awakeningTime t) ∨
      a'.timerPcb t = r := by
  have hadded : ∀ {u : Addr} {us as bs : List Addr} {time : Int}, a.freeTimers = u :: us →
      a.timerList = as ++ bs → t ∈ as ++ u :: bs →
      (t ∈ a.timerList ∧ Function.update a.timerPcb u r t = a.timerPcb t ∧
        Function.update a.awakeningTime u time t = a.awakeningTime t) ∨
        Function.update a.timerPcb u r t = r := by
    intro u us as bs time hfree hsplit hmem
    by_cases htu : t = u
    · right
      rw [htu, Function.update_self]
    · left
      refine ⟨?_, Function.update_of_ne htu .., Function.update_of_ne htu ..⟩
      rw [hsplit]
      simpa [htu] using hmem
  cases h with
  | refused _ => exact Or.inl ⟨ht, rfl, rfl⟩
  | switch _ hfree hsplit _ _ => exact hadded hfree hsplit ht
  | idle _ hfree hsplit _ _ => exact hadded hfree hsplit ht

theorem HandlerStep.timer_cases (h : HandlerStep clean a r c a') (hT : a.TimerInv)
    (ht : t ∈ a'.timerList) :
    (t ∈ a.timerList ∧ a'.timerPcb t = a.timerPcb t ∧ a'.awakeningTime t = a.awakeningTime t) ∨
      a'.timerPcb t = r := by
  by_cases hc : ∀ cycles, c ≠ .sleep cycles
  · obtain ⟨htimes, howners⟩ := h.timers_eq hc
    refine Or.inl ⟨?_, congrFun howners t, congrFun htimes t⟩
    cases h.timerChange hT with
    | removed hsub _ => exact hsub.subset ht
    | added _ cycles hact _ _ _ => exact absurd (Action.syscall.inj hact) (hc cycles)
  · push Not at hc
    obtain ⟨cycles, rfl⟩ := hc
    cases h with
    | sleep h => exact h.timer_cases ht

/-! ## Sleeping on -/

/-- The process `x` sleeps, and its timer elapses at the time `w`. -/
structure SleepsUntil (a : Model) (x : Addr) (w : Int) : Prop where
  waits : x ∈ a.procs .waiting
  sleeps : a.syscallNum x = dsosCallSleep
  timer : ∃ t ∈ a.timerList, a.timerPcb t = x ∧ a.awakeningTime t = w

/-- Two timers of the same process are the same. -/
theorem TimerInv.timer_inj (hT : a.TimerInv) {u : Addr} (ht : t ∈ a.timerList)
    (hu : u ∈ a.timerList) (h : a.timerPcb t = a.timerPcb u) : t = u :=
  List.inj_on_of_nodup_map hT.distinct ht hu h

theorem SleepsUntil.elapsed_iff (h : a.SleepsUntil x w) (hT : a.TimerInv) :
    a.Elapsed x ↔ w ≤ a.time := by
  obtain ⟨t, ht, htx, htw⟩ := h.timer
  constructor
  · rintro ⟨u, hu, hux, hle⟩
    rwa [← hT.timer_inj ht hu (htx.trans hux.symm), htw] at hle
  · intro hle
    exact ⟨t, ht, htx, by rwa [htw]⟩

/-- A process that sleeps is not the one that an `exit` lets run. -/
theorem ExitStep.not_sleeper (h : ExitStep a r a') (hP : a.ProcInv) (hx : a.SleepsUntil x w) :
    a'.running ≠ some x := by
  intro hrun
  cases h with
  | @wakeParent init parent e _ _ _ hawaits _ =>
      obtain ⟨_, _, _, _, heq⟩ := handOver_eq (a.leave r init parent) r parent e
      rw [heq] at hrun
      obtain rfl : parent = x := Option.some.inj hrun
      have hnum := (awaits_iff.1 hawaits).2.1
      rw [hx.sleeps] at hnum
      exact absurd hnum (by decide)
  | @retire init parent next rest _ _ _ _ hready =>
      obtain rfl : next = x := Option.some.inj hrun
      have hstatus := hP.ready next (by rw [hready]; exact List.mem_cons_self)
      rw [(hP.waiting next).2 hx.waits] at hstatus
      cases hstatus

/-- The timer of a process that still waits in the same call is the same. -/
theorem SleepsUntil.keep (hx : a.SleepsUntil x w) (hT : a.TimerInv) (hT' : a'.TimerInv)
    (hwaits : x ∈ a'.procs .waiting) (hnum : a'.syscallNum x = a.syscallNum x)
    (htimers : ∀ t ∈ a'.timerList, a'.timerPcb t = x → t ∈ a.timerList ∧
      a'.timerPcb t = a.timerPcb t ∧ a'.awakeningTime t = a.awakeningTime t) :
    a'.SleepsUntil x w := by
  have hsleeps := hnum.trans hx.sleeps
  obtain ⟨t, ht, htx⟩ := hT'.timed x hwaits hsleeps
  obtain ⟨hold, hpcb, htime⟩ := htimers t ht htx
  obtain ⟨u, hu, hux, huw⟩ := hx.timer
  obtain rfl : u = t := hT.timer_inj hu hold (by rw [hux, ← hpcb, htx])
  exact ⟨hwaits, hsleeps, u, ht, htx, htime.trans huw⟩

/-- A process that sleeps until `w` sleeps on as long as the clock is below `w`. -/
theorem Step.sleepsUntil (h : Step clean a act a') (hI : a.Inv) (hI' : a'.Inv)
    (hx : a.SleepsUntil x w) (hw : a'.time < w) : a'.SleepsUntil x w := by
  cases h with
  | tick _ hs =>
      have hx₁ : { a with time := wrapInt (a.time + 1) }.SleepsUntil x w := { hx with }
      have hT₁ : { a with time := wrapInt (a.time + 1) }.TimerInv := { hI.timer with }
      have hsub := hs.timers_sublist.1.subset
      have hwaits := hs.waiting_cases hx.waits
      obtain ⟨_, _, _, _, _, _, rfl⟩ := hs.eq
      rw [hx₁.elapsed_iff hT₁, or_iff_left (Int.not_le.2 hw)] at hwaits
      exact hx.keep hI.timer hI'.timer hwaits rfl fun t ht _ => ⟨hsub ht, rfl, rfl⟩
  | @syscall r c _ hr hs =>
      have hI₁ := hI.enter hr c
      have hxr : x ≠ r := fun heq => (hI.proc.running_fresh hr).1 .waiting (heq ▸ hx.waits)
      have hx₁ : (a.enter r c).SleepsUntil x w :=
        { hx with sleeps := (Function.update_of_ne hxr ..).trans hx.sleeps }
      have hnum : a'.syscallNum x = (a.enter r c).syscallNum x := congrFun hs.syscall_eq.1 x
      refine hx₁.keep hI₁.timer hI'.timer ?_ hnum fun t ht htx => ?_
      · rcases hs.keeps_waiting hx.waits with hwaits | ⟨rfl, helapsed⟩ | ⟨⟨v, rfl⟩, hrun⟩
        · exact hwaits
        · -- `preempt` does not move the clock
          rw [hx₁.elapsed_iff hI₁.timer] at helapsed
          cases hs with
          | preempt hs =>
              obtain ⟨_, _, _, _, _, _, rfl⟩ := hs.eq
              exact absurd helapsed (Int.not_le.2 hw)
        · cases hs with
          | exit hs => exact absurd hrun (hs.not_sleeper hI₁.proc hx₁)
      · refine (hs.timer_cases hI₁.timer ht).resolve_right fun heq => hxr ?_
        rw [← htx, heq]
  | store _ => exact { hx with }

/-- What `sleep` does to the process that calls it, and who runs then. -/
theorem SleepStep.sleepsUntil (h : SleepStep a r a') (hP : a.ProcInv) (hT : a.TimerInv)
    (hN : a.NoTimers) (hr : a.running = some r) (hnum : a.syscallNum r = dsosCallSleep) :
    a'.SleepsUntil r (wrapInt (a.time + wrapInt (a.syscallArgs r 0))) ∧
      a'.running = (a.procs .ready).head? := by
  have hmem : r ∈ a.procs .waiting ++ [r] := List.mem_append_right _ (List.mem_singleton_self r)
  have hsleeps : ∀ {t : Addr} {as bs : List Addr} {time : Int}, ∃ u ∈ as ++ t :: bs,
      Function.update a.timerPcb t r u = r ∧ Function.update a.awakeningTime t time u = time := by
    intro t as bs time
    refine ⟨t, List.mem_append_right _ List.mem_cons_self, ?_, ?_⟩
    · rw [Function.update_self]
    · rw [Function.update_self]
  cases h with
  | refused hno => exact absurd hno (hT.not_refused hP hN hr)
  | switch htime _ _ _ hready =>
      rw [hready, ← htime]
      exact ⟨⟨hmem, hnum, hsleeps⟩, rfl⟩
  | idle htime _ _ _ hready =>
      rw [hready, ← htime]
      exact ⟨⟨hmem, hnum, hsleeps⟩, rfl⟩

/-! ## The clock -/

theorem HandlerStep.time_eq (h : HandlerStep clean a r c a') : a'.time = a.time := by
  cases hp : c.onProcesses with
  | false => exact (h.sameProcesses hp).time
  | true =>
      cases h with
      | preempt h =>
          obtain ⟨_, _, _, _, _, _, rfl⟩ := h.eq
          rfl
      | fork h => cases h with | created _ _ => rfl
      | spawn h => cases h with | created _ _ => rfl
      | wait h =>
          obtain ⟨_, _, _, _, _, _, _, _, rfl⟩ := h.eq
          rfl
      | exit h =>
          obtain ⟨_, _, _, _, _, _, _, _, _, _, _, _, _, rfl⟩ := h.eq
          rfl
      | sleep h =>
          obtain ⟨_, _, _, _, _, _, _, _, rfl⟩ := h.eq
          rfl
      | shutdown => rfl
      | _ => cases hp

/-- The clock is an `int`. -/
def ClockInv (a : Model) : Prop := -2 ^ 31 ≤ a.time ∧ a.time < 2 ^ 31

theorem Step.clockInv (h : Step clean a act a') (hC : a.ClockInv) : a'.ClockInv := by
  cases h with
  | tick _ hs =>
      obtain ⟨_, _, _, _, _, _, rfl⟩ := hs.eq
      exact wrapInt_bounds (a.time + 1)
  | syscall _ hs =>
      rw [ClockInv, hs.time_eq]
      exact hC
  | store _ => exact hC

/-- What a process that sleeps relies on: the clock is an `int`, no PCB refers to a timer, and the
timers are sorted by awakening time. -/
structure Timed (a : Model) : Prop where
  clock : a.ClockInv
  noTimers : a.NoTimers
  order : InOrder a.awakeningTime (fun _ _ => True) a.timerList

theorem Step.timed (h : Step clean a act a') (hI : a.Inv) (hT : a.Timed) : a'.Timed :=
  ⟨h.clockInv hT.clock, h.noTimers hT.noTimers, h.timersSorted hI hT.order⟩

/-! ## Restarts -/

theorem BootStep.timed (h : BootStep a a') (hT : a.Timed) : a'.Timed := by
  cases h with
  | booted _ =>
      refine ⟨hT.clock, fun x => ?_, hT.order⟩
      simp only [boot, Function.update_apply, hT.noTimers x, ite_self]

/-- A restart moves neither the clock nor the timers. -/
theorem BootStep.sleepsUntil (h : BootStep a a') (hx : a.SleepsUntil x w) :
    a'.SleepsUntil x w := by
  cases h with
  | booted _ => exact { hx with }

theorem MoveStep.timed {mv : Move} (h : MoveStep clean a mv a') (hI : a.Inv) (hT : a.Timed) :
    a'.Timed := by
  cases h with
  | action h => exact h.timed hI hT
  | resume _ h => exact h.timed hT

/-- A process that sleeps until `w` sleeps on through every move as long as the clock is below
`w`. -/
theorem MoveStep.sleepsUntil {mv : Move} (h : MoveStep clean a mv a') (hI : a.Inv) (hI' : a'.Inv)
    (hx : a.SleepsUntil x w) (hw : a'.time < w) : a'.SleepsUntil x w := by
  cases h with
  | action h => exact h.sleepsUntil hI hI' hx hw
  | resume _ h => exact h.sleepsUntil hx

end Model

end DisastrOS
