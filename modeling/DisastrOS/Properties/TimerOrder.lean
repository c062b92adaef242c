import DisastrOS.Abstract.Timers
import DisastrOS.Refinement.SystemRun

/-!
# The order of the timers and the scheduler

The timers are sorted by awakening time, those of equal time in the order in which their sleeps were
issued. One call of the scheduler then serves exactly the elapsed timers, in this order.
-/

set_option autoImplicit false

namespace DisastrOS

open Runs Model StableQueue

variable {counted : ProcList → Prop} {es gs : List (Event Kernel Action)} {s : Kernel}
  {e : Event Kernel Action} {a a' : Model} {r t u : Addr} {time : Int}

/-- The sleep `e` has put the timer `t` into the list, and there it stays in the events `gs`. -/
structure Issued (e : Event Kernel Action) (gs : List (Event Kernel Action)) (t : Addr) :
    Prop where
  sleep : ∃ cycles, e.act = .syscall (.sleep cycles)
  fresh : t ∉ e.pre.timers
  added : t ∈ e.post.timers
  stays : ∀ g ∈ gs, t ∈ g.post.timers

/-- The sleep of the timer `t` was issued before that of `u`. -/
def IssuedBefore (es : List (Event Kernel Action)) (t u : Addr) : Prop :=
  ∃ es₁ e es₂ f es₃, es = es₁ ++ e :: (es₂ ++ f :: es₃) ∧ Issued e (es₂ ++ f :: es₃) t ∧
    Issued f es₃ u

/-- The timers are sorted by awakening time, those of equal time by their sleeps. -/
def TimersSorted (es : List (Event Kernel Action)) (s : Kernel) : Prop :=
  s.timers.Pairwise fun t u => s.awakeningTime t < s.awakeningTime u ∨
    s.awakeningTime t = s.awakeningTime u ∧ IssuedBefore es t u

/-- The processes whose timers have elapsed at this time, in timer order. -/
def Kernel.elapsedPcbs (s : Kernel) (time : Int) : List Addr :=
  (s.timers.filter fun t => s.awakeningTime t ≤ time).map s.timerPcb

/-- One call of the scheduler at this time leads from `s` to `s'`. -/
structure SchedulesTo (s : Kernel) (time : Int) (s' : Kernel) : Prop where
  timers : s'.timers = s.timers.filter fun t => time < s.awakeningTime t
  times : s'.awakeningTime = s.awakeningTime ∧ s'.timerPcb = s.timerPcb
  moved : ∀ p ∈ s.elapsedPcbs time, p ∈ s.processes .waiting
  waiting : s'.processes .waiting = (s.processes .waiting).filter (· ∉ s.elapsedPcbs time)
  zombie : s'.processes .zombie = s.processes .zombie
  idle : s.elapsedPcbs time ++ s.processes .ready = [] →
    s'.processes .ready = [] ∧ s'.running = s.running
  switch : ∀ next rest, s.elapsedPcbs time ++ s.processes .ready = next :: rest →
    s'.processes .ready = rest ++ s.running.toList ∧ s'.running = some next

/-! ## Order -/

theorem Issued.concat (h : Issued e gs t) {g : Event Kernel Action} (hg : t ∈ g.post.timers) :
    Issued e (gs ++ [g]) t := by
  refine { h with stays := fun g' hg' => ?_ }
  rcases List.mem_append.1 hg' with hold | hnew
  · exact h.stays g' hold
  · rwa [List.mem_singleton.1 hnew]

theorem IssuedBefore.concat (h : IssuedBefore es t u) (ht : t ∈ e.post.timers)
    (hu : u ∈ e.post.timers) : IssuedBefore (es ++ [e]) t u := by
  obtain ⟨es₁, f, es₂, g, es₃, rfl, hf, hg⟩ := h
  refine ⟨es₁, f, es₂, g, es₃ ++ [e], by simp, ?_, hg.concat hu⟩
  have hf' := hf.concat ht
  rwa [List.append_assoc, List.cons_append] at hf'

/-- The invariant: the timers are in order, and each was put into the list by a sleep. -/
structure TimerHistory (es : List (Event Kernel Action)) (a : Model) : Prop where
  order : InOrder a.awakeningTime (IssuedBefore es) a.timerList
  issued : ∀ t ∈ a.timerList, ∃ fs e gs, es = fs ++ e :: gs ∧ Issued e gs t

theorem TimerHistory.step (h : TimerHistory es a) (hsim : Simulated counted e a a') :
    TimerHistory (es ++ [e]) a' := by
  have hpre : e.pre.timers = a.timerList := hsim.pre.timers_eq hsim.inv.timer
  have hpost : e.post.timers = a'.timerList := hsim.post.timers_eq hsim.inv'.timer
  have hissued : ∀ t ∈ a.timerList, t ∈ a'.timerList →
      ∃ fs f gs, es ++ [e] = fs ++ f :: gs ∧ Issued f gs t := by
    intro t ht ht'
    obtain ⟨fs, f, gs, rfl, hf⟩ := h.issued t ht
    exact ⟨fs, f, gs ++ [e], by simp, hf.concat (hpost ▸ ht')⟩
  cases hsim.step.timerChange hsim.inv with
  | removed hsub hkeep =>
      refine ⟨(h.order.sublist hsub).congr hkeep fun t ht u hu hb => ?_, fun t ht => ?_⟩
      · exact hb.concat (hpost ▸ ht) (hpost ▸ hu)
      · exact hissued t (hsub.subset ht) ht
  | added x cycles hact hout hkeep hlist =>
      -- the new timer is issued last and stands behind those with the same time
      have hmem : ∀ t, t ∈ a'.timerList ↔ t = x ∨ t ∈ a.timerList := fun t => by
        rw [hlist]
        exact mem_insertByKey
      have hx : Issued e [] x := by
        refine ⟨⟨cycles, hact⟩, hpre ▸ hout, hpost ▸ (hmem x).2 (Or.inl rfl), ?_⟩
        exact fun _ hg => absurd hg List.not_mem_nil
      constructor
      · rw [hlist]
        refine (h.order.congr hkeep fun t ht u hu hb => ?_).insertByKey fun t ht => ?_
        · exact hb.concat (hpost ▸ (hmem t).2 (Or.inr ht)) (hpost ▸ (hmem u).2 (Or.inr hu))
        · obtain ⟨fs, f, gs, rfl, hf⟩ := h.issued t ht
          exact ⟨fs, f, gs, e, [], by simp, hf.concat (hpost ▸ (hmem t).2 (Or.inr ht)), hx⟩
      · intro t ht
        rcases (hmem t).1 ht with rfl | hold
        · exact ⟨es, e, [], rfl, hx⟩
        · exact hissued t hold ht

theorem SystemRun.timerHistory (h : SystemRun es s) :
    ∃ a, Refines exceptZombies s a ∧ a.Inv ∧ TimerHistory es a := by
  refine h.invariant_of_step (J := TimerHistory) (fun chars ints => ⟨inOrder_nil, ?_⟩)
    fun es e a a' _ hH hsim => hH.step hsim
  exact fun t ht => absurd ht List.not_mem_nil

/-! ## One call of the scheduler -/

theorem Refines.schedulesTo {s' : Kernel} (hR : Refines counted s a) (hI : a.Inv)
    (hH : TimerHistory es a) (hR' : Refines counted s' a') (hP' : a'.ProcInv) (hT' : a'.TimerInv)
    (h : ScheduleStep { a with time := time } a') : SchedulesTo s time s' := by
  have hs := h.scheduled { hI.proc with } { hI.timer with } hH.order
  have helapsed : s.elapsedPcbs time = Model.elapsedPcbs { a with time := time } := by
    rw [Kernel.elapsedPcbs, hR.timers_eq hI.timer, hR.data]
    rfl
  have hkeep : a'.awakeningTime = a.awakeningTime ∧ a'.timerPcb = a.timerPcb := by
    obtain ⟨_, _, _, _, _, _, rfl⟩ := h.eq
    exact ⟨rfl, rfl⟩
  constructor
  case timers => rw [hR'.timers_eq hT', hR.timers_eq hI.timer, hs.timerList, hR.data]
  case times => rwa [hR'.data, hR.data]
  case moved =>
    intro p hp
    rw [hR.processes_eq hI.proc]
    rw [helapsed] at hp
    obtain ⟨t, ht, rfl⟩ := List.mem_map.1 hp
    exact (hI.timer.sleeping t (List.mem_filter.1 ht).1).1
  case waiting => rw [hR'.processes_eq hP', hR.processes_eq hI.proc, hs.waiting, helapsed]
  case zombie => rw [hR'.processes_eq hP', hR.processes_eq hI.proc, hs.zombie]
  case idle =>
    rw [hR'.processes_eq hP', hR.processes_eq hI.proc, helapsed, hR'.data, hR.data]
    exact hs.idle
  case switch =>
    rw [hR'.processes_eq hP', hR.processes_eq hI.proc, helapsed, hR'.data, hR.data]
    exact hs.switch

/-- Setting the time. -/
theorem Refines.setTime (hR : Refines counted s a) (time : Int) :
    Refines counted { s with time := time } { a with time := time } :=
  { hR with data := by rw [← hR.data] }

/-- In every reachable state the timers are sorted, and a call of the scheduler at any time
completes and serves the timers that have elapsed; so do the calls by ticks and by `preempt`. -/
theorem timer_order (h : SystemRun es s) : TimersSorted es s ∧
    (∀ r time, s.running = some r → ∃ s',
      { s with time := time }.internalSchedule = .ok s' ∧ SchedulesTo s time s') ∧
    (∀ s', s.Completes .tick s' → SchedulesTo s (wrapInt (s.time + 1)) s') ∧
    ∀ s', s.Completes (.syscall .preempt) s' → SchedulesTo s s.time s' := by
  obtain ⟨a, hR, hI, hH⟩ := h.timerHistory
  refine ⟨?_, ?_, ?_, ?_⟩
  · have horder := hH.order
    rw [InOrder] at horder
    rw [TimersSorted, hR.timers_eq hI.timer, hR.data]
    exact horder
  · intro r time hr
    have hr' : a.running = some r := hR.running_eq.symm.trans hr
    obtain ⟨s', a', heq, hs, hR'⟩ :=
      (hR.setTime time).internalSchedule { hI.proc with } { hI.timer with } hr'
    obtain ⟨hP', hT'⟩ := hs.inv { hI.proc with } { hI.timer with }
    exact ⟨s', heq, hR.schedulesTo hI hH hR' hP' hT' hs⟩
  · intro s' hstep
    obtain ⟨a', hsim⟩ := hR.simulated hI hstep
    have htime : s.time = a.time := by rw [hR.data]
    rw [htime]
    cases hsim.step with
    | tick _ hs => exact hR.schedulesTo hI hH hsim.post hsim.inv'.proc hsim.inv'.timer hs
  · intro s' hstep
    obtain ⟨a', hsim⟩ := hR.simulated hI hstep
    cases hsim.step with
    | @syscall r _ _ hr hs =>
        cases hs with
        | preempt hs =>
            -- storing the call in the PCB changes nothing that the scheduler reads
            have hI₁ := hI.enter hr .preempt
            have hH₁ : TimerHistory es (a.enter r .preempt) := ⟨hH.order, hH.issued⟩
            have htime : (a.enter r .preempt).time = s.time := by rw [hR.data]; rfl
            have hto : SchedulesTo (s.enter r .preempt) s.time s' :=
              (hR.enter r .preempt).schedulesTo hI₁ hH₁ hsim.post hsim.inv'.proc hsim.inv'.timer
                (htime ▸ hs)
            exact ⟨hto.timers, hto.times, hto.moved, hto.waiting, hto.zombie, hto.idle, hto.switch⟩

/-- Three processes sleep, two of them until the same time, and the next tick wakes two of them. -/
theorem timer_order_three : ∃ (es : List (Event Kernel Action)) (s : Kernel),
    (s.timers.map (fun t => (s.timerPcb t, s.awakeningTime t)) = [(0, 1), (35088, 1), (17544, 3)] ∧
      s.elapsedPcbs 1 = [0, 35088]) ∧ TimersSorted es s := by
  obtain ⟨es, s, hrun, hp⟩ := exists_of_executes
    [.syscall (.spawn 1 0), .syscall (.spawn 1 0), .syscall (.spawn 1 0), .syscall (.sleep 1),
      .syscall (.sleep 3), .syscall (.sleep 1)]
    (fun _ s => s.timers.map (fun t => (s.timerPcb t, s.awakeningTime t)) =
      [(0, 1), (35088, 1), (17544, 3)] ∧ s.elapsedPcbs 1 = [0, 35088]) (by decide +kernel)
  exact ⟨es, s, of_decide_eq_true hp, (timer_order hrun).1⟩

end DisastrOS
