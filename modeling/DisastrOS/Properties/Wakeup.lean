import DisastrOS.Abstract.Wakeup
import DisastrOS.Refinement.SystemRun

/-!
# Lost wake-ups

A process that is blocked in `wait` is woken by the exit of a child that it waits for, as long as
the parent pointers of the processes that exit are those that the children lists suggest. After a
process has left its children are on the list of `init`, but their parent pointers are not changed,
and then `init` may sleep forever next to a zombie.
-/

set_option autoImplicit false

namespace DisastrOS

open Runs Model

variable {counted : ProcList → Prop} {es : List (Event Kernel Action)} {s : Kernel}
  {e : Event Kernel Action} {a a' : Model}

/-- The process `w` is blocked in a `wait` for pid `p`, or for any. -/
def Kernel.WaitsFor (s : Kernel) (w : Addr) (p : Int) : Prop :=
  w ∈ s.processes .waiting ∧ s.syscallNum w = dsosCallWait ∧
    (s.syscallArgs w 0 = 0 ∨ s.syscallArgs w 0 = p)

/-- No process is blocked in a `wait` for a zombie on its children list. -/
def NoLostWakeup (s : Kernel) : Prop :=
  ∀ w, ∀ k ∈ s.childrenOf w, s.status (s.ptrPcb k) = .zombie → ¬ s.WaitsFor w (s.pid (s.ptrPcb k))

/-- If this is the exit of a child that a process waits for, then that process runs afterwards. -/
def WakesWaiting (e : Event Kernel Action) : Prop :=
  ∀ r v, e.pre.running = some r → e.act = .syscall (.exit v) →
    ∀ w, ∀ k ∈ e.pre.childrenOf w, e.pre.ptrPcb k = r → e.pre.WaitsFor w (e.pre.pid r) →
      e.post.running = some w

/-- What the step finds in the state before it does not lose a wake-up. -/
def WakeupCondition (e : Event Kernel Action) : Prop :=
  e.pre.toData.WakeupSafe (e.pre.processes .waiting) e.pre.childrenOf e.act

instance (e : Event Kernel Action) : Decidable (WakeupCondition e) :=
  inferInstanceAs (Decidable (Data.WakeupSafe ..))

theorem Refines.waitsFor_iff (hR : Refines counted s a) (hI : a.Inv) {w : Addr} {p : Int} :
    s.WaitsFor w p ↔ a.awaits w p := by
  rw [Kernel.WaitsFor, hR.processes_eq hI.proc, hR.data, awaits_iff, hI.proc.waiting]

theorem Simulated.wakeupSafe (h : Simulated counted e a a') (hsafe : WakeupCondition e) :
    a.WakeupSafe (a.procs .waiting) a.children e.act := by
  have hchildren : e.pre.childrenOf = a.children := funext (h.pre.childrenOf_eq h.inv.kid)
  rwa [WakeupCondition, hchildren, h.pre.processes_eq h.inv.proc, h.pre.data] at hsafe

theorem Simulated.wakesWaiting (h : Simulated counted e a a') (hsafe : WakeupCondition e) :
    WakesWaiting e := by
  intro r v hrun hact w k hk hptr hwaits
  obtain ⟨hrun', hs⟩ := h.handler hact hrun
  have hsafe' := h.wakeupSafe hsafe
  rw [h.pre.childrenOf_eq h.inv.kid] at hk
  rw [h.pre.data] at hptr
  rw [h.pre.waitsFor_iff h.inv, h.pre.data] at hwaits
  rw [hact] at hsafe'
  rw [h.post.running_eq]
  cases hs with
  | exit hs =>
      exact hs.woken (h.inv.enter hrun' _).proc (exitSafe_enter (hsafe' r hrun') h.inv.proc hrun')
        hk hptr ((awaits_enter h.inv.proc hrun').2 hwaits)

theorem Model.start_wakeInv (chars : Int → UInt8) (ints : Int → Int) :
    (Model.start chars ints).WakeInv := by
  constructor
  · intro q k hk
    rw [start_children] at hk
    cases hk
  · intro w k hk
    rw [start_children] at hk
    cases hk

/-- In a run without the steps excluded by the condition no wake-up is lost: nobody is blocked next
to a zombie that it waits for, and every exit wakes the process that waits for it. -/
theorem no_lost_wakeup (h : SystemRun es s) (hsafe : ∀ e ∈ es, WakeupCondition e) :
    NoLostWakeup s ∧ ∀ e ∈ es, WakesWaiting e := by
  obtain ⟨a, hR, hI, hW⟩ : ∃ a, Refines exceptZombies s a ∧ a.Inv ∧ a.WakeInv := h.invariant
    (J := fun _ a => a.WakeInv) (P := fun _ e => WakeupCondition e)
    (fun fs e gs heq => hsafe e (by simp [heq]))
    Model.start_wakeInv (fun _ _ _ _ hc => absurd rfl hc)
    fun _ _ _ _ _ hW hsim hsafe => hsim.step.wakeInv hW hsim.inv hsim.inv' (hsim.wakeupSafe hsafe)
  constructor
  · intro w k hk hz hwaits
    rw [hR.childrenOf_eq hI.kid] at hk
    rw [hR.data] at hz
    rw [hR.waitsFor_iff hI, hR.data] at hwaits
    exact hW.awake w k hk hz hwaits
  · intro e he
    obtain ⟨_, _, hsim⟩ := h.simulated he
    exact hsim.wakesWaiting (hsafe e he)

/-- `init` waits for its child, which exits. -/
theorem no_lost_wakeup_one : ∃ (es : List (Event Kernel Action)) (s : Kernel),
    (es.length = 3 ∧ s.running = some 0 ∧ s.ints 100 = 5) ∧
      NoLostWakeup s ∧ ∀ e ∈ es, WakesWaiting e := by
  obtain ⟨es, s, hrun, hp⟩ := exists_of_executes
    [.syscall (.spawn 1 0), .syscall (.wait 0 100), .syscall (.exit 5)]
    (fun es s => (∀ e ∈ es, WakeupCondition e) ∧ es.length = 3 ∧ s.running = some 0 ∧
      s.ints 100 = 5) (by decide +kernel)
  obtain ⟨hsafe, hrest⟩ := of_decide_eq_true hp
  exact ⟨es, s, hrest, no_lost_wakeup hrun hsafe⟩

/-- `init` sleeps next to a zombie. Its child leaves a child of its own and is collected; `init`
then waits for any child, and the grandchild exits with a parent pointer to the freed PCB. -/
theorem lost_wakeup : ∃ (es : List (Event Kernel Action)) (s : Kernel), SystemRun es s ∧
    ¬ NoLostWakeup s := by
  obtain ⟨es, s, hrun, hp⟩ := exists_of_executes
    [.syscall (.spawn 1 0), .syscall (.spawn 1 0), .syscall .preempt, .syscall (.spawn 1 0),
      .syscall (.exit 0), .syscall .preempt, .syscall (.wait 1 0), .syscall (.wait 0 0),
      .syscall (.exit 0)]
    (fun _ s => 0 ∈ s.processes .waiting ∧ s.syscallNum 0 = dsosCallWait ∧
      s.syscallArgs 0 0 = 0 ∧ ∃ k ∈ s.childrenOf 0, s.status (s.ptrPcb k) = .zombie)
    (by decide +kernel)
  obtain ⟨hwaiting, hnum, harg, k, hk, hz⟩ := of_decide_eq_true hp
  exact ⟨es, s, hrun, fun h => h 0 k hk hz ⟨hwaiting, hnum, Or.inl harg⟩⟩

end DisastrOS
