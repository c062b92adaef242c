import DisastrOS.Refinement.Messages

/-!
# Steps of the system refine the abstract transitions

Every completed step from a kernel state that stores an abstract state with the invariants is a
transition of the abstract system, and the result stores the new abstract state. The initial state
of the kernel stores the initial abstract state.
-/

set_option autoImplicit false

namespace DisastrOS

open LinkedSequence LinkedSequence.ListHeap Model

variable {counted : ProcList → Prop} {c c' : Kernel} {a : Model} {r : Addr}

/-! ## Syscalls -/

/-- The state in which the handler of a syscall starts. -/
def Kernel.enter (s : Kernel) (r : Addr) (call : Syscall) : Kernel :=
  { s with
    syscallArgs := Function.update s.syscallArgs r
      (Kernel.storeArgs (fun i => call.args.getD i 0) (Kernel.syscallNumarg call.num)
        (s.syscallArgs r))
    syscallNum := Function.update s.syscallNum r call.num }

theorem Refines.enter (hR : Refines counted c a) (r : Addr) (call : Syscall) :
    Refines counted (c.enter r call) (a.enter r call) := by
  have hdata := hR.data
  obtain ⟨d, sq, fb⟩ := a
  obtain rfl := hdata
  exact { hR with data := rfl }

/-- The handler that the syscall vector holds for a call. -/
def Syscall.handler : Syscall → Kernel → Except Fault Kernel
  | .preempt => Kernel.internalPreempt
  | .fork => Kernel.internalFork
  | .spawn .. => Kernel.internalSpawn
  | .wait .. => Kernel.internalWait
  | .exit .. => Kernel.internalExit
  | .sleep .. => Kernel.internalSleep
  | .openResource .. => Kernel.internalOpenResource
  | .closeResource .. => Kernel.internalCloseResource
  | .destroyResource .. => Kernel.internalDestroyResource
  | .shutdown => Kernel.internalShutdown
  | .mqRead .. => Kernel.internalMessageQueueRead
  | .mqWrite .. => Kernel.internalMessageQueueWrite

theorem Syscall.num_range (call : Syscall) : 0 ≤ call.num ∧ call.num < dsosMaxSyscalls := by
  cases call <;> simp only [num] <;> decide

/-- A call of the running process runs its handler. -/
theorem call_eq {call : Syscall} (hrun : c.running = some r) :
    c.call call = call.handler (c.enter r call) >>= fun c' =>
      .ok (c', c'.running.map c'.syscallRetvalue) := by
  obtain ⟨hlow, hhigh⟩ := call.num_range
  have hrange : ¬ (call.num < 0 ∨ call.num > dsosMaxSyscalls) := by omega
  have hmax : ¬ call.num = dsosMaxSyscalls := by omega
  have htrap : (c.enter r call).disastrOSTrap = call.handler (c.enter r call) := by
    have hrun' : (c.enter r call).running = some r := hrun
    have hnum : (c.enter r call).syscallNum r = call.num := Function.update_self ..
    rw [Kernel.disastrOSTrap, hrun', deref_some, ok_bind, hnum, if_neg hrange, if_neg hmax]
    cases call <;> rfl
  rw [← htrap]
  simp only [Kernel.call, Kernel.disastrOSSyscall, hrun, assertNonNull, ok_bind, hrange, hmax,
    if_false]
  rfl

/-- A syscall of the running process runs its handler. -/
theorem step_syscall_eq {call : Syscall} (hrun : c.running = some r) (hon : c.shutdownNow = false) :
    c.step (.syscall call) = call.handler (c.enter r call) := by
  simp only [Kernel.step, hon, Bool.false_eq_true, if_false, call_eq hrun]
  cases call.handler (c.enter r call) <;> rfl

/-! ## Steps -/

/-- Every handler refines the transition of its syscall. -/
theorem refine_handler {call : Syscall} (hR : Refines counted c a) (hI : a.Inv)
    (hr : a.running = some r)
    (hcount : counted .zombie → ∀ e ∈ a.children r, a.ptrPcb e ∉ a.freePcbs)
    (hargs : ∀ i, i < call.args.length → a.syscallArgs r i = call.args.getD i 0)
    (h : call.handler c = .ok c') :
    ∃ a', HandlerStep c.msgs.Unlinked a r call a' ∧ Refines counted c' a' := by
  have hproc := hI.proc
  have htimer := hI.timer
  cases call with
  | preempt =>
      -- the arguments that a handler reads are those that the trap stored in the PCB
      obtain ⟨a', hs, hR'⟩ := refine_internalSchedule hR hproc htimer hr h
      exact ⟨a', .preempt hs, hR'⟩
  | fork =>
      obtain ⟨a', hs, hR'⟩ := refine_createProcess hR hI hr h
      exact ⟨a', .fork hs, hR'⟩
  | spawn f x =>
      obtain ⟨a', hs, hR'⟩ := refine_createProcess hR hI hr h
      exact ⟨a', .spawn hs, hR'⟩
  | wait pid retval =>
      obtain ⟨a', hs, hR'⟩ := refine_internalWait hR hI hr hcount h
      exact ⟨a', .wait hs, hR'⟩
  | exit value =>
      obtain ⟨a', hs, hR'⟩ := refine_internalExit hR hI hr h
      exact ⟨a', .exit hs, hR'⟩
  | sleep cycles =>
      obtain ⟨a', hs, hR'⟩ := refine_internalSleep hR hproc htimer hr h
      exact ⟨a', .sleep hs, hR'⟩
  | openResource id type mode =>
      obtain ⟨a', hs, hR'⟩ := refine_internalOpenResource hR hI hr h
      have h0 : a.syscallArgs r 0 = id.toInt := hargs 0 (by simp [Syscall.args])
      have h1 : a.syscallArgs r 1 = type.toInt := hargs 1 (by simp [Syscall.args])
      have h2 : a.syscallArgs r 2 = mode.toInt := hargs 2 (by simp [Syscall.args])
      rw [h0, h1, h2, wrapInt_toInt, wrapInt_toInt, wrapInt_toInt] at hs
      exact ⟨a', .openResource hs, hR'⟩
  | closeResource fd mode =>
      obtain ⟨a', hs, hR'⟩ := refine_internalCloseResource hR hI hr h
      have h0 : a.syscallArgs r 0 = fd.toInt := hargs 0 (by simp [Syscall.args])
      have h1 : a.syscallArgs r 1 = mode.toInt := hargs 1 (by simp [Syscall.args])
      rw [h0, h1, wrapInt_toInt, wrapInt_toInt] at hs
      exact ⟨a', .closeResource hs, hR'⟩
  | destroyResource id =>
      obtain ⟨a', hs, hR'⟩ := refine_internalDestroyResource hR hI hr h
      have h0 : a.syscallArgs r 0 = id.toInt := hargs 0 (by simp [Syscall.args])
      rw [h0, wrapInt_toInt] at hs
      exact ⟨a', .destroyResource hs, hR'⟩
  | shutdown =>
      have hdata := hR.data
      simp only [Syscall.handler, Kernel.internalShutdown, Except.ok.injEq] at h
      subst h
      obtain ⟨d, sq, fb⟩ := a
      obtain rfl := hdata
      exact ⟨_, .shutdown, { hR with data := rfl }⟩
  | mqRead fd buf length =>
      obtain ⟨a', hs, hR'⟩ := refine_internalMessageQueueRead hR hI hr h
      have h0 : a.syscallArgs r 0 = fd.toInt := hargs 0 (by simp [Syscall.args])
      have h1 : a.syscallArgs r 1 = buf := hargs 1 (by simp [Syscall.args])
      have h2 : a.syscallArgs r 2 = length.toInt := hargs 2 (by simp [Syscall.args])
      rw [h0, h1, h2, wrapInt_toInt, wrapInt_toInt] at hs
      exact ⟨a', .mqRead hs, hR'⟩
  | mqWrite fd msg length =>
      obtain ⟨a', hs, hR'⟩ := refine_internalMessageQueueWrite hR hI hr h
      have h0 : a.syscallArgs r 0 = fd.toInt := hargs 0 (by simp [Syscall.args])
      have h1 : a.syscallArgs r 1 = msg := hargs 1 (by simp [Syscall.args])
      have h2 : a.syscallArgs r 2 = length.toInt := hargs 2 (by simp [Syscall.args])
      rw [h0, h1, h2, wrapInt_toInt, wrapInt_toInt] at hs
      exact ⟨a', .mqWrite hs, hR'⟩

/-- A step of the kernel is a transition of the abstract system. -/
theorem refine_step {act : Action} (hR : Refines counted c a) (hI : a.Inv)
    (hcount : counted .zombie → ∀ q, ∀ e ∈ a.children q, a.ptrPcb e ∉ a.freePcbs)
    (h : c.step act = .ok c') :
    ∃ a', Model.Step c.msgs.Unlinked a act a' ∧ Refines counted c' a' ∧ a'.Inv := by
  have hdata := hR.data
  have hD := hR.distinct hI.msg
  cases hon : c.shutdownNow with
  | true => simp [Kernel.step, hon] at h
  | false =>
      cases hr : a.running with
      | none =>
          have hrun : c.running = none := by rw [hdata, hr]
          cases act <;>
            simp [Kernel.step, hon, Kernel.timerInterrupt, Kernel.call, Kernel.disastrOSSyscall, hrun,
              deref, assertNonNull] at h
      | some r =>
          have hrun : c.running = some r := by rw [hdata, hr]
          suffices hstep : ∃ a', Model.Step c.msgs.Unlinked a act a' ∧ Refines counted c' a' by
            obtain ⟨a', hs, hR'⟩ := hstep
            exact ⟨a', hs, hR', hs.keep hI hD⟩
          cases act with
          | tick =>
              have htick : c.step .tick = c.timerInterrupt := by simp [Kernel.step, hon]
              rw [htick] at h
              simp only [Kernel.timerInterrupt, bind_eq_ok, pure_eq_ok, Except.ok.injEq] at h
              obtain ⟨-, -, c₁, hsched, -, -, rfl⟩ := h
              have hR₁ : Refines counted { c with time := wrapInt (c.time + 1) }
                  { a with time := wrapInt (a.time + 1) } := by
                obtain ⟨d, sq, fb⟩ := a
                obtain rfl := hdata
                exact { hR with data := rfl }
              obtain ⟨a', hs, hR'⟩ := refine_internalSchedule hR₁ { hI.proc with }
                { hI.timer with } hr hsched
              exact ⟨a', .tick hr hs, hR'⟩
          | syscall call =>
              rw [step_syscall_eq hrun hon] at h
              obtain ⟨a', hs, hR'⟩ := refine_handler (hR.enter r call) (hI.enter hr call)
                (r := r) hr (fun hc e he => hcount hc r e he)
                (fun i hi => enter_args a r call hi) h
              exact ⟨a', .syscall hr hs, hR'⟩
          | store address value =>
              simp only [Kernel.step, hon, Bool.false_eq_true, if_false, hrun, deref_some, ok_bind,
                pure_eq_ok, Except.ok.injEq] at h
              subst h
              refine ⟨_, .store hr, ?_⟩
              obtain ⟨d, sq, fb⟩ := a
              obtain rfl := hdata
              exact { hR with data := rfl }

end DisastrOS
