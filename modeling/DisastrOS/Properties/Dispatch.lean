import DisastrOS.Abstract.Descriptors
import DisastrOS.Abstract.Parents
import DisastrOS.Properties.Statuses
import DisastrOS.Properties.WaitForPid

/-!
# Dispatch when a process blocks or leaves

A `wait` that blocks and an `exit` that nobody awaits take the head of the ready list without
looking whether there is one. There is one if and only if some other process is neither waiting nor
a zombie, which depends on the processes alone: when all others sleep, wait or have left, the kernel
reads through a null pointer.
-/

set_option autoImplicit false

namespace DisastrOS

open Runs LinkedSequence LinkedSequence.ListHeap Model

variable {es : List (Event Kernel Action)} {s s' : Kernel} {a a' : Model} {r : Addr} {c : Syscall}

/-- The call `c` of the process `r` needs another process to run: a `wait` that has to block, or an
`exit` that its parent is not blocked for. -/
def Kernel.GivesUp (s : Kernel) (r : Addr) : Syscall → Prop
  | .wait pid _ => ∃ e ∈ s.awaited r pid.toInt, s.status (s.ptrPcb e) ≠ .zombie
  | .exit _ => ¬ s.parentAwaits r
  | _ => False

instance (s : Kernel) (r : Addr) (c : Syscall) : Decidable (s.GivesUp r c) := by
  unfold Kernel.GivesUp
  split <;> infer_instance

/-- Some process other than `r` is neither waiting nor a zombie. -/
def Kernel.OthersRunnable (s : Kernel) (r : Addr) : Prop :=
  ∃ p, s.pcbAllocator.handedOut p ∧ p ≠ r ∧ s.status p ≠ .waiting ∧ s.status p ≠ .zombie

/-- A process is ready, and the call `c` completes with one of the ready processes running. -/
structure DispatchesReady (s : Kernel) (c : Syscall) : Prop where
  ready : s.processes .ready ≠ []
  completes : ∃ s' v, s.call c = .ok (s', v) ∧ ∃ q ∈ s.processes .ready,
    s'.running = some q ∧ s'.pcbAllocator.handedOut q

/-! ## The ready list -/

/-- The ready list holds the processes that neither run, wait nor have left. -/
theorem Refines.othersRunnable_iff (hR : Refines exceptZombies s a) (hP : a.ProcInv)
    (hr : a.running = some r) : s.OthersRunnable r ↔ a.procs .ready ≠ [] := by
  simp only [Kernel.OthersRunnable, hR.handedOut_iff_used hP]
  rw [hR.data]
  constructor
  · rintro ⟨p, hused, hne, hwaiting, hzombie⟩
    rcases hused with hp | hp | hp | hp
    · exact absurd (Option.some.inj (hp.symm.trans hr)) hne
    · exact List.ne_nil_of_mem hp
    · exact absurd ((hP.waiting p).2 hp) hwaiting
    · exact absurd (hP.zombie p hp) hzombie
  · intro hne
    obtain ⟨p, hp⟩ := List.exists_mem_of_ne_nil _ hne
    have hstatus : a.status p = .ready := hP.ready p hp
    refine ⟨p, Used.of_mem hp, ?_, ?_, ?_⟩
    · rintro rfl
      exact (hP.running_fresh hr).1 .ready hp
    · rw [hstatus]
      decide
    · rw [hstatus]
      decide

/-- A completed call after which the head of the ready list runs. -/
theorem Called.dispatchesReady {next : Addr} {rest : List Addr} (h : Called s a r c s' a')
    (hR : Refines exceptZombies s a) (hP : a.ProcInv) (hready : a.procs .ready = next :: rest)
    (hrun : a'.running = some next) : DispatchesReady s c := by
  have hmem : next ∈ s.processes .ready := by
    rw [hR.processes_eq hP, hready]
    exact List.mem_cons_self
  refine ⟨List.ne_nil_of_mem hmem, s', _, h.call, next, hmem, h.post.running_eq.trans hrun, ?_⟩
  rw [h.post.handedOut_iff_used h.inv.proc]
  exact Or.inl hrun

/-! ## The two calls -/

/-- A `wait` that has to block dispatches a process if and only if one is ready. -/
theorem Refines.wait_dispatches_iff {pid : Int32} {result : Int} (hR : Refines exceptZombies s a)
    (hI : a.Inv) (hr : a.running = some r) (hblock : s.GivesUp r (.wait pid result)) :
    DispatchesReady s (.wait pid result) ↔ a.procs .ready ≠ [] := by
  constructor
  · intro h
    rw [← hR.processes_eq hI.proc]
    exact h.ready
  · intro hready
    obtain ⟨e, he, halive⟩ := hblock
    rw [hR.awaited_eq hI.kid] at he
    rw [hR.data] at halive
    rcases hR.call_wait hI hr pid result with ⟨-, hnil, -⟩ | ⟨s', a', hcalled⟩
    · exact absurd hnil hready
    · have hkids : a.children r ≠ [] := List.ne_nil_of_mem (mem_of_awaited he)
      obtain ⟨k, hk, ⟨hz, -⟩ | ⟨-, next, rest, hnext, rfl⟩⟩ := hcalled.wait_cases hkids
      · obtain rfl : e = k := Option.some.inj (he.symm.trans hk)
        exact absurd hz halive
      · exact hcalled.dispatchesReady hR hI.proc hnext rfl

/-- An `exit` that the parent is not blocked for dispatches a process if and only if one is ready
and it is not `init` that leaves. -/
theorem Refines.exit_dispatches_iff {v : Int32} (hR : Refines exceptZombies s a) (hI : a.Inv)
    (hH : a.HasParents) (hr : a.running = some r) (hfree : ¬ s.parentAwaits r) :
    DispatchesReady s (.exit v) ↔ a.procs .ready ≠ [] ∧ a.initPcb ≠ some r := by
  have hrun : s.running = some r := hR.running_eq.trans hr
  have hR₁ := hR.enter r (.exit v)
  have hI₁ := hI.enter hr (.exit v)
  obtain ⟨init, hinit, hnoparent, -⟩ := hI.proc.init
  constructor
  · intro h
    refine ⟨by rw [← hR.processes_eq hI.proc]; exact h.ready, fun heq => ?_⟩
    obtain ⟨s', x, hcall, -⟩ := h.completes
    obtain rfl : init = r := Option.some.inj (hinit.symm.trans heq)
    exact internalExit_init hR₁ hI₁ (r := init) hr hinit hnoparent (handler_of_call hrun hcall).1
  · rintro ⟨hready, hne⟩
    have hri : r ≠ init := fun heq => hne (by rw [hinit, heq])
    obtain ⟨parent, hparent⟩ := Option.ne_none_iff_exists'.1 (hH r (Or.inl hr) hne)
    have hawaits : ¬ (a.enter r (.exit v)).awaits parent ((a.enter r (.exit v)).pid r) := by
      rw [awaits_enter hI.proc hr]
      rw [hR.data, Data.parentAwaits, hparent, Option.any_some] at hfree
      exact hfree
    -- the parent is not blocked, so the head of the ready list is dispatched
    have hexit := hR₁.internalExit_eq hI₁ (r := r) hr hinit hri
    rw [show (a.enter r (.exit v)).parent r = some parent from hparent] at hexit
    obtain ⟨s₁, hleft, hexit⟩ := hexit
    rw [if_neg hawaits] at hexit
    rcases hleft.dispatchNext with ⟨hnil, -⟩ | ⟨s', next, rest, hnext, hsplit, hpost⟩
    · exact absurd hnil hready
    · have hcalled := hR.called_of_handler (c := .exit v) hI hr (hexit.trans hnext)
        (.exit (.retire hinit hri hparent hawaits hsplit)) hpost
      exact hcalled.dispatchesReady hR hI.proc hsplit rfl

/-! ## Reachable states -/

theorem SystemRun.hasParents (h : SystemRun es s) :
    ∃ a, Refines exceptZombies s a ∧ a.Inv ∧ a.HasParents := by
  refine h.invariant_of_step (J := fun _ a => a.HasParents) (fun chars ints x hx hi => ?_)
    fun es e a a' _ hH hsim => hsim.step.hasParents hH hsim.inv hsim.inv'
  exact absurd (by rw [start_used hx]; rfl) hi

/-- In a reachable state in which the running process blocks in `wait` or leaves unawaited, a ready
process is dispatched if and only if some other process is neither waiting nor a zombie and it is
not `init` that leaves. -/
theorem dispatches_ready_iff (h : Reachable s) (hr : s.running = some r) (hc : s.GivesUp r c) :
    DispatchesReady s c ↔
      s.OthersRunnable r ∧ ((∃ v, c = .exit v) → s.initPcb ≠ some r) := by
  obtain ⟨es, hrun⟩ := h
  obtain ⟨a, hR, hI, hH⟩ := hrun.hasParents
  have hr' : a.running = some r := hR.running_eq.symm.trans hr
  have hinit : s.initPcb = a.initPcb := by rw [hR.data]
  rw [hR.othersRunnable_iff hI.proc hr', hinit]
  cases c with
  | wait pid result =>
      rw [hR.wait_dispatches_iff hI hr' hc]
      exact ⟨fun hready => ⟨hready, fun ⟨v, hv⟩ => Syscall.noConfusion hv⟩, fun hready => hready.1⟩
  | exit v =>
      rw [hR.exit_dispatches_iff hI hH hr' hc]
      exact ⟨fun ⟨hready, hne⟩ => ⟨hready, fun _ => hne⟩,
        fun ⟨hready, hne⟩ => ⟨hready, hne ⟨v, rfl⟩⟩⟩
  | _ => cases hc

/-- A child leaves while its sibling is ready. -/
theorem dispatches_ready_iff_sibling : ∃ s : Kernel, s.running = some 17544 ∧
    DispatchesReady s (.exit 3) := by
  obtain ⟨es, s, hrun, hp⟩ := exists_of_executes
    [.syscall (.spawn 1 0), .syscall (.spawn 1 0), .syscall .preempt]
    (fun _ s => s.running = some 17544 ∧ s.GivesUp 17544 (.exit 3) ∧ s.initPcb = some 0 ∧
      s.pcbAllocator.handedOut 35088 ∧ s.status 35088 = .ready) (by decide +kernel)
  obtain ⟨hr, hc, hinit, hout, hstatus⟩ := of_decide_eq_true hp
  refine ⟨s, hr, (dispatches_ready_iff ⟨es, hrun⟩ hr hc).2 ⟨⟨35088, hout, by decide, ?_, ?_⟩, ?_⟩⟩
  · rw [hstatus]
    decide
  · rw [hstatus]
    decide
  · rw [hinit]
    exact fun _ => by decide

/-- `init` waits for a child that sleeps, and a child leaves while `init` sleeps. -/
theorem nobody_ready : ∃ s t : Kernel,
    (Reachable s ∧ s.running = some 0 ∧ s.GivesUp 0 (.wait 0 0) ∧
      ¬ DispatchesReady s (.wait 0 0)) ∧
    Reachable t ∧ t.running = some 17544 ∧ t.GivesUp 17544 (.exit 3) ∧
      ¬ DispatchesReady t (.exit 3) := by
  obtain ⟨es, s, hrun, hp⟩ := exists_of_executes
    [.syscall (.spawn 1 0), .syscall .preempt, .syscall (.sleep 100)]
    (fun _ s => s.running = some 0 ∧ s.GivesUp 0 (.wait 0 0) ∧
      (s.call (.wait 0 0)).toOption.isNone) (by decide +kernel)
  obtain ⟨fs, t, hrun', hp'⟩ := exists_of_executes
    [.syscall (.spawn 1 0), .syscall (.sleep 100)]
    (fun _ t => t.running = some 17544 ∧ t.GivesUp 17544 (.exit 3) ∧
      (t.call (.exit 3)).toOption.isNone) (by decide +kernel)
  obtain ⟨hr, hc, hfault⟩ := of_decide_eq_true hp
  obtain ⟨hr', hc', hfault'⟩ := of_decide_eq_true hp'
  have hstuck : ∀ {u : Kernel} {c : Syscall}, (u.call c).toOption.isNone →
      ¬ DispatchesReady u c := by
    intro u c hnone h
    obtain ⟨u', v, hcall, -⟩ := h.completes
    rw [hcall] at hnone
    cases hnone
  exact ⟨s, t, ⟨⟨es, hrun⟩, hr, hc, hstuck hfault⟩, ⟨fs, hrun'⟩, hr', hc', hstuck hfault'⟩

end DisastrOS
