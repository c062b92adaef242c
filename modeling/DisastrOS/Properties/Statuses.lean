import DisastrOS.Properties.Sleepers

/-!
# Status fields and lists

The scheduler and `exit` set the status of the process they dispatch, `sleep` and a `wait` that
blocks do not: the process that runs after them keeps the status `Ready`. All other status fields
agree with the lists in every reachable state.
-/

set_option autoImplicit false

namespace DisastrOS

open Runs Model

variable {counted : ProcList → Prop} {clean : Addr → Prop} {es : List (Event Kernel Action)}
  {s : Kernel} {e : Event Kernel Action} {a a' : Model} {r x : Addr} {act : Action}

/-- Every process has the status of the place where it is. -/
structure StatusesAgree (s : Kernel) : Prop where
  running : ∀ r ∈ s.running, s.status r = .running
  ready : ∀ x ∈ s.processes .ready, s.status x = .ready
  waiting : ∀ x ∈ s.processes .waiting, s.status x = .waiting
  zombie : ∀ x ∈ s.processes .zombie, s.status x = .zombie

/-- The entry of the children list of `r` at which the scan of `wait` stops. -/
def Kernel.awaited (s : Kernel) (r : Addr) (pidToWait : Int) : Option Addr :=
  ((s.childrenOf r).find? fun e =>
    (pidToWait = 0 ∧ s.status (s.ptrPcb e) = .zombie) ∨
      (pidToWait ≠ 0 ∧ s.pid (s.ptrPcb e) = pidToWait)).or (s.childrenOf r).getLast?

/-- No process is dispatched by `sleep` or by `wait`: at a sleep the ready list is empty, and a wait
finds no child at all or stops at a zombie. -/
def StatusCondition (e : Event Kernel Action) : Prop :=
  match e.act with
  | .syscall (.sleep _) => e.pre.processes .ready = []
  | .syscall (.wait pid _) => ∀ r ∈ e.pre.running, ∀ k ∈ e.pre.awaited r pid.toInt,
      e.pre.status (e.pre.ptrPcb k) = .zombie
  | _ => True

/-- `StatusCondition` as a test. -/
def statusTest (e : Event Kernel Action) : Bool :=
  match e.act with
  | .syscall (.sleep _) => decide (e.pre.processes .ready = [])
  | .syscall (.wait pid _) => decide (∀ r ∈ e.pre.running, ∀ k ∈ e.pre.awaited r pid.toInt,
      e.pre.status (e.pre.ptrPcb k) = .zombie)
  | _ => true

theorem StatusCondition.of_test (h : statusTest e = true) : StatusCondition e := by
  unfold StatusCondition
  split
  · rename_i hact
    simpa only [statusTest, hact, decide_eq_true_eq] using h
  · rename_i hact
    simpa only [statusTest, hact, decide_eq_true_eq] using h
  · trivial

namespace Model

/-! ## The invariant -/

/-- The running process has the status `Running`. -/
def RunningInv (a : Model) : Prop := ∀ r, a.running = some r → a.status r = .running

/-- The action dispatches no process without setting its status. -/
def SetsStatus (a : Model) : Action → Prop
  | .syscall (.sleep _) => a.procs .ready = []
  | .syscall (.wait pid _) => ∀ r ∈ a.running, ∀ k ∈ a.awaited r pid.toInt,
      a.status (a.ptrPcb k) = .zombie
  | _ => True

/-- The wake-up loop sets the status of waiting processes only. -/
theorem Wakes.status_eq {woken : List Addr} (h : Wakes woken a a') (hP : a.ProcInv)
    (hT : a.TimerInv) (hr : a.running = some r) : a'.status r = a.status r := by
  induction h with
  | stop _ => rfl
  | @wake woken a a' t ts rest ht _ hready _ ih =>
      have hx := (hT.sleeping t (by rw [ht]; exact List.mem_cons_self)).1
      rw [ih (hP.wake hx hready) (hT.wake hP ht) hr]
      refine Function.update_of_ne (fun heq => ?_) ..
      exact (hP.running_fresh hr).1 .waiting (heq ▸ hx)

theorem ScheduleStep.runningInv (h : ScheduleStep a a') (hI : a.RunningInv) (hP : a.ProcInv)
    (hT : a.TimerInv) : a'.RunningInv := by
  intro r hr
  cases h with
  | idle hw _ =>
      have hr' : a.running = some r := by
        obtain ⟨_, _, _, _, _, rfl⟩ := hw.eq
        exact hr
      rw [hw.status_eq hP hT hr']
      exact hI r hr'
  | switch hw _ _ =>
      obtain rfl := Option.some.inj hr
      exact Function.update_self ..

/-- Creating a process leaves the status of the caller as it is. -/
theorem CreateStep.runningInv (h : CreateStep a r a') (hI : a.RunningInv) (hP : a.ProcInv) :
    a'.RunningInv := by
  cases h with
  | @created x e xs es hx he =>
      intro p hp
      have hne : p ≠ x := by
        rintro rfl
        exact (hP.running_fresh hp).2 (hx ▸ List.mem_cons_self)
      have hstatus : (a.create r x e xs es).status p = a.status p := Function.update_of_ne hne ..
      rw [hstatus]
      exact hI p hp

theorem ExitStep.runningInv (h : ExitStep a r a') : a'.RunningInv := by
  intro p hp
  cases h with
  | @wakeParent init parent e _ _ _ _ _ =>
      obtain ⟨_, _, _, _, heq⟩ := handOver_eq (a.leave r init parent) r parent e
      rw [heq] at hp ⊢
      obtain rfl : parent = p := Option.some.inj hp
      exact Function.update_self ..
  | retire _ _ _ _ _ =>
      obtain rfl := Option.some.inj hp
      exact Function.update_self ..

/-- The process that is dispatched when `r` blocks is still `Ready`. -/
theorem ProcInv.dispatched_ne_running {next : Addr} {rest : List Addr} (hP : a.ProcInv)
    (hr : a.running = some r) (hready : a.procs .ready = next :: rest) :
    Function.update a.status r .waiting next ≠ .running := by
  have hmem : next ∈ a.procs .ready := by rw [hready]; exact List.mem_cons_self
  have hne : next ≠ r := fun heq => (hP.running_fresh hr).1 .ready (heq ▸ hmem)
  rw [Function.update_of_ne hne, hP.ready next hmem]
  exact nofun

/-- `sleep` dispatches a process without setting its status, unless none is ready. -/
theorem SleepStep.runningInv_iff (h : SleepStep a r a') (hP : a.ProcInv) (hT : a.TimerInv)
    (hN : a.NoTimers) (hr : a.running = some r) : a'.RunningInv ↔ a.procs .ready = [] := by
  cases h with
  | refused hno => exact absurd hno (hT.not_refused hP hN hr)
  | @switch t next ts as bs rest time _ _ _ _ hready =>
      refine iff_of_false (fun hI' => ?_) (by rw [hready]; exact List.cons_ne_nil _ _)
      exact hP.dispatched_ne_running hr hready (hI' next rfl)
  | idle _ _ _ _ hready => exact iff_of_true (fun p hp => by cases hp) hready

/-- A `wait` that blocks dispatches a process without setting its status. -/
theorem WaitStep.runningInv_iff (h : WaitStep a r a') (hI : a.RunningInv) (hP : a.ProcInv)
    (hr : a.running = some r) : a'.RunningInv ↔
      ∀ k ∈ a.awaited r (wrapInt (a.syscallArgs r 0)), a.status (a.ptrPcb k) = .zombie := by
  cases h with
  | noChildren hnil =>
      apply iff_of_true hI
      intro k hk
      rw [awaited, hnil] at hk
      cases hk
  | @reap e he hz =>
      rw [reap_eq]
      refine iff_of_true (fun p hp => hI p hp) fun k hk => ?_
      obtain rfl : e = k := Option.some.inj (he.symm.trans hk)
      exact hz
  | @block e next rest he hz hready =>
      refine iff_of_false (fun hI' => ?_) fun hall => hz (hall e he)
      exact hP.dispatched_ne_running hr hready (hI' next rfl)

/-- A call leaves a process running with the right status if and only if it sets it. -/
theorem HandlerStep.runningInv_iff {c : Syscall} (h : HandlerStep clean (a.enter r c) r c a')
    (hR : a.RunningInv) (hI : a.Inv) (hN : a.NoTimers) (hr : a.running = some r) :
    a'.RunningInv ↔ a.SetsStatus (.syscall c) := by
  have hI₁ := hI.enter hr c
  have hR₁ : (a.enter r c).RunningInv := hR
  cases hc : c.onProcesses with
  | false =>
      have hsame := h.sameProcesses hc
      have hkeep : a'.RunningInv := by
        intro p hp
        rw [hsame.status]
        exact hR₁ p (hsame.running ▸ hp)
      apply iff_of_true hkeep
      cases c <;> trivial
  | true =>
      cases h with
      | preempt h => exact iff_of_true (h.runningInv hR₁ hI₁.proc hI₁.timer) trivial
      | fork h => exact iff_of_true (h.runningInv hR₁ hI₁.proc) trivial
      | spawn h => exact iff_of_true (h.runningInv hR₁ hI₁.proc) trivial
      | @wait pid retval _ h =>
          -- `wait` sets the status of a process that blocks, but not that of the next one
          have harg : (a.enter r (.wait pid retval)).syscallArgs r 0 = pid.toInt :=
            enter_args a r (.wait pid retval) (by simp [Syscall.args])
          have hiff := h.runningInv_iff hR₁ hI₁.proc hr
          rw [harg, wrapInt_toInt] at hiff
          rw [hiff]
          exact (forall_running (Q := fun p => ∀ k ∈ a.awaited p pid.toInt,
            a.status (a.ptrPcb k) = .zombie) hr).symm
      | exit h => exact iff_of_true h.runningInv trivial
      | sleep h => exact h.runningInv_iff hI₁.proc hI₁.timer hN hr
      | shutdown => exact iff_of_true hR trivial
      | openResource _ => cases hc
      | closeResource _ => cases hc
      | destroyResource _ => cases hc
      | mqRead _ => cases hc
      | mqWrite _ => cases hc

/-- A transition keeps the status of the running process right if and only if it sets it when it
dispatches a process. -/
theorem Step.runningInv_iff (h : Step clean a act a') (hR : a.RunningInv) (hI : a.Inv)
    (hN : a.NoTimers) : a'.RunningInv ↔ a.SetsStatus act := by
  cases h with
  | tick _ h =>
      exact iff_of_true (h.runningInv hR { hI.proc with } { hI.timer with }) trivial
  | syscall hr h => exact h.runningInv_iff hR hI hN hr
  | store _ => exact iff_of_true hR trivial

end Model

/-! ## Runs -/

theorem Refines.awaited_eq (hR : Refines counted s a) (hK : a.KidInv) (r : Addr) (pid : Int) :
    s.awaited r pid = a.awaited r pid := by
  rw [Kernel.awaited, hR.childrenOf_eq hK, hR.data, Model.awaited]

theorem Simulated.statusCondition_iff (h : Simulated counted e a a') :
    StatusCondition e ↔ a.SetsStatus e.act := by
  rw [StatusCondition, h.pre.processes_eq h.inv.proc, h.pre.running_eq,
    funext fun r => funext fun p => h.pre.awaited_eq h.inv.kid r p, h.pre.data]
  cases e.act with
  | tick => rfl
  | syscall c => cases c <;> rfl
  | store _ _ => rfl

/-- All status fields agree if and only if that of the running process does. -/
theorem Refines.statusesAgree_iff (hR : Refines counted s a) (hP : a.ProcInv) :
    StatusesAgree s ↔ a.RunningInv := by
  have hstatus : s.status = a.status := by rw [hR.data]
  constructor
  · intro h r hr
    rw [← hstatus]
    exact h.running r (hR.running_eq.trans hr)
  · intro h
    constructor
    · intro r hr
      rw [hstatus]
      exact h r (hR.running_eq.symm.trans hr)
    · intro x hx
      rw [hR.processes_eq hP] at hx
      rw [hstatus]
      exact hP.ready x hx
    · intro x hx
      rw [hR.processes_eq hP] at hx
      rw [hstatus]
      exact (hP.waiting x).2 hx
    · intro x hx
      rw [hR.processes_eq hP] at hx
      rw [hstatus]
      exact hP.zombie x hx

theorem Model.start_runningInv (chars : Int → UInt8) (ints : Int → Int) :
    (Model.start chars ints).RunningInv := by
  intro r hr
  obtain rfl : 0 = r := Option.some.inj hr
  simp only [Model.start, Function.update_self]

/-- The status fields agree with the lists in all states of a run if and only if no process is
dispatched by a `sleep` or by a `wait` in it. -/
theorem statuses_agree_iff (h : SystemRun es s) :
    (StatusesAgree s ∧ ∀ e ∈ es, StatusesAgree e.pre ∧ StatusesAgree e.post) ↔
      ∀ e ∈ es, StatusCondition e := by
  refine h.all_iff (fun s₀ chars ints hR => ?_) fun es e hpre _ hstep hgood => ?_
  · exact (hR.statusesAgree_iff (Model.start_inv chars ints).proc).2
      (Model.start_runningInv chars ints)
  · obtain ⟨a, hR, hI, hN⟩ := hpre.noTimers
    obtain ⟨a', hsim⟩ := hR.simulated hI hstep
    rw [hR.statusesAgree_iff hI.proc] at hgood
    rw [hsim.post.statusesAgree_iff hsim.inv'.proc, hsim.statusCondition_iff]
    exact hsim.step.runningInv_iff hgood hI hN

/-- A child exits before its parent waits for it, and the parent sleeps alone. -/
theorem statuses_agree_iff_wait : ∃ (es : List (Event Kernel Action)) (s : Kernel),
    (es.length = 5 ∧ s.processes .waiting = [0]) ∧ StatusesAgree s ∧
      ∀ e ∈ es, StatusesAgree e.pre ∧ StatusesAgree e.post := by
  obtain ⟨es, s, hrun, hp⟩ := exists_of_executes
    [.syscall (.spawn 1 0), .syscall .preempt, .syscall (.exit 0), .syscall (.wait 0 0),
      .syscall (.sleep 1)]
    (fun es s => (∀ e ∈ es, statusTest e) ∧ es.length = 5 ∧ s.processes .waiting = [0])
    (by decide +kernel)
  obtain ⟨hsafe, hrest⟩ := of_decide_eq_true hp
  exact ⟨es, s, hrest, (statuses_agree_iff hrun).2 fun e he => .of_test (hsafe e he)⟩

/-- A child that starts to run because its parent waits for it is still `Ready`. -/
theorem statuses_disagree : ∃ (es : List (Event Kernel Action)) (s : Kernel), SystemRun es s ∧
    s.running = some 17544 ∧ s.status 17544 = .ready ∧ ¬ StatusesAgree s := by
  obtain ⟨es, s, hrun, hp⟩ := exists_of_executes
    [.syscall (.spawn 1 0), .syscall (.wait 0 0)]
    (fun _ s => s.running = some 17544 ∧ s.status 17544 = .ready) (by decide +kernel)
  obtain ⟨hr, hstatus⟩ := of_decide_eq_true hp
  refine ⟨es, s, hrun, hr, hstatus, fun h => ?_⟩
  have hbad := h.running 17544 hr
  rw [hstatus] at hbad
  cases hbad

end DisastrOS
