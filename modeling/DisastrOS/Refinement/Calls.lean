import DisastrOS.Abstract.Families
import DisastrOS.Refinement.SystemRun

/-!
# Calls of the running process

A call of the running process runs one handler. Where the handlers are known to complete, so is the
call; where they fault, the lemmas say in which states.
-/

set_option autoImplicit false

namespace DisastrOS

open LinkedSequence LinkedSequence.ListHeap Model

variable {s s' : Kernel} {a : Model} {r : Addr} {c : Syscall} {v : Option Int}

/-- The call `c` of the process `r` completes, as a transition of the abstract system. -/
structure Called (s : Kernel) (a : Model) (r : Addr) (c : Syscall) (s' : Kernel) (a' : Model) :
    Prop where
  call : s.call c = .ok (s', a'.running.map a'.syscallRetvalue)
  step : HandlerStep s.msgs.Unlinked (a.enter r c) r c a'
  post : Refines exceptZombies s' a'
  inv : a'.Inv

/-- A completed call that is none of the processes returns to its caller. -/
theorem Called.returns {a' : Model} (h : Called s a r c s' a') (hc : c.onProcesses = false)
    (hr : a.running = some r) :
    s.call c = .ok (s', some (a'.syscallRetvalue r)) ∧ s'.running = some r := by
  have hrun : a'.running = some r := (h.step.sameProcesses hc).running.trans hr
  refine ⟨?_, h.post.running_eq.trans hrun⟩
  rw [h.call, hrun, Option.map_some]

theorem call_of_handler (hrun : s.running = some r) (h : c.handler (s.enter r c) = .ok s') :
    s.call c = .ok (s', s'.running.map s'.syscallRetvalue) := by
  rw [call_eq hrun, h, ok_bind]

theorem call_of_fault {f : Fault} (hrun : s.running = some r)
    (h : c.handler (s.enter r c) = .error f) : s.call c = .error f := by
  rw [call_eq hrun, h, error_bind]

/-- A handler that does nothing but answer. -/
theorem call_of_refused (hrun : s.running = some r) {v : Int}
    (h : c.handler (s.enter r c) = .ok ((s.enter r c).setRetvalue r v)) :
    s.call c = .ok ((s.enter r c).setRetvalue r v, some v) := by
  have hrun' : ((s.enter r c).setRetvalue r v).running = some r := hrun
  have hret : ((s.enter r c).setRetvalue r v).syscallRetvalue r = v := Function.update_self ..
  rw [call_of_handler hrun h, hrun', Option.map_some, hret]

/-- The arguments that a handler finds. -/
theorem Refines.enter_arg (hR : Refines exceptZombies s a) {i : Nat} (hi : i < c.args.length) :
    (s.enter r c).syscallArgs r i = c.args.getD i 0 := by
  rw [(hR.enter r c).data]
  exact enter_args a r c hi

/-- A completed call has run the handler. -/
theorem handler_of_call (hrun : s.running = some r) (h : s.call c = .ok (s', v)) :
    c.handler (s.enter r c) = .ok s' ∧ v = s'.running.map s'.syscallRetvalue := by
  rw [call_eq hrun, bind_eq_ok] at h
  obtain ⟨t, ht, heq⟩ := h
  obtain ⟨rfl, rfl⟩ := Prod.mk.inj (Except.ok.inj heq)
  exact ⟨ht, rfl⟩

variable (hR : Refines exceptZombies s a) (hI : a.Inv) (hr : a.running = some r)
include hR hI hr

theorem Refines.called_of_handler {a' : Model} (h : c.handler (s.enter r c) = .ok s')
    (hs : HandlerStep s.msgs.Unlinked (a.enter r c) r c a') (hR' : Refines exceptZombies s' a') :
    Called s a r c s' a' := by
  have hD := (hR.enter r c).distinct (hI.enter hr c).msg
  refine ⟨?_, hs, hR', hs.keep (hI.enter hr c) hD hr (Function.update_self ..)⟩
  rw [call_of_handler (hR.running_eq.trans hr) h, hR'.data]

/-- Every completed call is a transition. -/
theorem Refines.called (h : s.call c = .ok (s', v)) :
    ∃ a', Called s a r c s' a' ∧ v = a'.running.map a'.syscallRetvalue := by
  obtain ⟨hh, rfl⟩ := handler_of_call (hR.running_eq.trans hr) h
  obtain ⟨a', hs, hR'⟩ := refine_handler (hR.enter r c) (hI.enter hr c) (r := r) hr
    (fun hc => absurd rfl hc) (fun i hi => enter_args a r c hi) hh
  exact ⟨a', hR.called_of_handler hI hr hh hs hR', by rw [hR'.data]⟩

/-- `preempt` completes. -/
theorem Refines.call_preempt : ∃ s' a', Called s a r .preempt s' a' := by
  have hI₁ := hI.enter hr .preempt
  obtain ⟨s', -, hh, -, -⟩ := (hR.enter r .preempt).internalSchedule hI₁.proc hI₁.timer hr
  obtain ⟨a', hcalled, -⟩ := hR.called (c := .preempt) hI hr
    (call_of_handler (hR.running_eq.trans hr) hh)
  exact ⟨s', a', hcalled⟩

/-- `closeResource` completes. -/
theorem Refines.call_closeResource (fd mode : Int32) :
    ∃ s' a', Called s a r (.closeResource fd mode) s' a' := by
  obtain ⟨s', -, hh, -, -⟩ :=
    (hR.enter r (.closeResource fd mode)).internalCloseResource (hI.enter hr _) hr
  obtain ⟨a', hcalled, -⟩ := hR.called (c := .closeResource fd mode) hI hr
    (call_of_handler (hR.running_eq.trans hr) hh)
  exact ⟨s', a', hcalled⟩

/-- `destroyResource` completes. -/
theorem Refines.call_destroyResource (id : Int32) :
    ∃ s' a', Called s a r (.destroyResource id) s' a' := by
  obtain ⟨s', -, hh, -, -⟩ :=
    (hR.enter r (.destroyResource id)).internalDestroyResource (hI.enter hr _) hr
  obtain ⟨a', hcalled, -⟩ := hR.called (c := .destroyResource id) hI hr
    (call_of_handler (hR.running_eq.trans hr) hh)
  exact ⟨s', a', hcalled⟩

/-- `closeResource` of a number that no descriptor has. -/
theorem Refines.call_close_unknown (fd mode : Int32) (hnone : a.descriptorByFd r fd.toInt = none) :
    s.call (.closeResource fd mode) =
      .ok ((s.enter r (.closeResource fd mode)).setRetvalue r dsosEResourceClose,
        some dsosEResourceClose) := by
  have hR₁ := hR.enter r (.closeResource fd mode)
  have harg : (s.enter r (.closeResource fd mode)).syscallArgs r 0 = fd.toInt :=
    hR.enter_arg (by simp [Syscall.args])
  have hrun : (s.enter r (.closeResource fd mode)).running = some r := hR.running_eq.trans hr
  have hfind := (hR₁.descriptorListByFd_eq (hI.enter hr _).desc r fd.toInt).trans
    (congrArg Except.ok hnone)
  apply call_of_refused (hR.running_eq.trans hr)
  simp only [Syscall.handler, Kernel.internalCloseResource, hrun, deref_some, ok_bind, harg,
    wrapInt_toInt, hfind, pure_eq_ok]

/-- `destroyResource` of an id that no resource has. -/
theorem Refines.call_destroy_unknown (id : Int32) (hnone : a.resourceById id.toInt = none) :
    s.call (.destroyResource id) =
      .ok ((s.enter r (.destroyResource id)).setRetvalue r dsosEResourceClose,
        some dsosEResourceClose) := by
  have hR₁ := hR.enter r (.destroyResource id)
  have harg : (s.enter r (.destroyResource id)).syscallArgs r 0 = id.toInt :=
    hR.enter_arg (by simp [Syscall.args])
  have hrun : (s.enter r (.destroyResource id)).running = some r := hR.running_eq.trans hr
  have hfind := (hR₁.resourceListById_eq (hI.enter hr _).res id.toInt).trans
    (congrArg Except.ok hnone)
  apply call_of_refused (hR.running_eq.trans hr)
  simp only [Syscall.handler, Kernel.internalDestroyResource, hrun, deref_some, ok_bind, harg,
    wrapInt_toInt, hfind, pure_eq_ok]

/-- `destroyResource` of a resource that is in use. -/
theorem Refines.call_destroy_inUse (id : Int32) {res : ResourceRef}
    (hid : a.resourceById id.toInt = some res) (hne : a.descriptorsPtrs res ≠ []) :
    s.call (.destroyResource id) =
      .ok ((s.enter r (.destroyResource id)).setRetvalue r dsosEResourceInUse,
        some dsosEResourceInUse) := by
  have hR₁ := hR.enter r (.destroyResource id)
  have harg : (s.enter r (.destroyResource id)).syscallArgs r 0 = id.toInt :=
    hR.enter_arg (by simp [Syscall.args])
  have hrun : (s.enter r (.destroyResource id)).running = some r := hR.running_eq.trans hr
  have hfind := (hR₁.resourceListById_eq (hI.enter hr _).res id.toInt).trans
    (congrArg Except.ok hid)
  have hsize : (s.enter r (.destroyResource id)).descriptorsPtrs.size res ≠ 0 := by
    have hcount := hR₁.descriptorsPtrs.count res trivial
    have hpos := List.length_pos_iff.2 hne
    rw [hcount, show (a.enter r (.destroyResource id)).descriptorsPtrs = a.descriptorsPtrs from rfl]
    omega
  apply call_of_refused (hR.running_eq.trans hr)
  simp only [Syscall.handler, Kernel.internalDestroyResource, hrun, deref_some, ok_bind, harg,
    wrapInt_toInt, hfind, hsize, ne_eq, not_false_eq_true, if_true, pure_eq_ok]

/-- `openResource` completes unless it is stuck. -/
theorem Refines.call_openResource (id type mode : Int32) :
    (a.OpenStuck id.toInt type.toInt mode.toInt ∧
        ∃ f, s.call (.openResource id type mode) = .error f) ∨
      ∃ s' a', Called s a r (.openResource id type mode) s' a' := by
  have harg : ∀ i, i < 3 → (a.enter r (.openResource id type mode)).syscallArgs r i =
      [id.toInt, type.toInt, mode.toInt].getD i 0 := fun i hi =>
    enter_args a r (.openResource id type mode) hi
  rcases (hR.enter r (.openResource id type mode)).internalOpenResource (hI.enter hr _) hr with
    ⟨hstuck, f, hh⟩ | ⟨s', -, hh, -, -⟩
  · rw [harg 0 (by decide), harg 1 (by decide), harg 2 (by decide)] at hstuck
    simp only [List.getD_cons_zero, List.getD_cons_succ, wrapInt_toInt] at hstuck
    exact Or.inl ⟨hstuck, f, call_of_fault (c := .openResource id type mode)
      (hR.running_eq.trans hr) hh⟩
  · obtain ⟨a', hcalled, -⟩ := hR.called (c := .openResource id type mode) hI hr
      (call_of_handler (hR.running_eq.trans hr) hh)
    exact Or.inr ⟨s', a', hcalled⟩

/-- `wait` completes, unless it blocks while no process is ready. -/
theorem Refines.call_wait (pid : Int32) (result : Int) :
    ((∃ e ∈ a.awaited r pid.toInt, a.status (a.ptrPcb e) ≠ .zombie) ∧ a.procs .ready = [] ∧
        s.call (.wait pid result) = .error .nullPointer) ∨
      ∃ s' a', Called s a r (.wait pid result) s' a' := by
  have harg : (a.enter r (.wait pid result)).syscallArgs r 0 = pid.toInt :=
    enter_args a r (.wait pid result) (by simp [Syscall.args])
  rcases (hR.enter r (.wait pid result)).internalWait (hI.enter hr _) hr
    (fun hc => absurd rfl hc) with ⟨hawaited, hready, hh⟩ | ⟨s', -, hh, -, -⟩
  · rw [harg, wrapInt_toInt] at hawaited
    exact Or.inl ⟨hawaited, hready, call_of_fault (c := .wait pid result)
      (hR.running_eq.trans hr) hh⟩
  · obtain ⟨a', hcalled, -⟩ := hR.called (c := .wait pid result) hI hr
      (call_of_handler (hR.running_eq.trans hr) hh)
    exact Or.inr ⟨s', a', hcalled⟩

/-- `spawn` and `fork` complete if and only if neither pool is empty. -/
theorem Refines.call_creates (hc : (Action.syscall c).creates) :
    ((a.freePcbs = [] ∨ a.freePcbPtrs = []) ∧ s.call c = .error .nullPointer) ∨
      ∃ s' a', Called s a r c s' a' := by
  have hhandler : c.handler = Kernel.createProcess := by
    cases c with
    | fork => rfl
    | spawn f x => rfl
    | _ => cases hc
  rcases (hR.enter r c).createProcess (hI.enter hr c) hr with ⟨hnil, hh⟩ | ⟨s', -, hh, -, -⟩
  · rw [← hhandler] at hh
    exact Or.inl ⟨hnil, call_of_fault (hR.running_eq.trans hr) hh⟩
  · rw [← hhandler] at hh
    obtain ⟨a', hcalled, -⟩ := hR.called hI hr (call_of_handler (hR.running_eq.trans hr) hh)
    exact Or.inr ⟨s', a', hcalled⟩

end DisastrOS
