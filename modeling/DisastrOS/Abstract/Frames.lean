import DisastrOS.Abstract.ResourceTable

/-!
# What the transitions leave alone

The handlers fall into two groups. Those for scheduling and processes leave the resources and the
messages alone, those for resources and messages leave the process table alone.
-/

set_option autoImplicit false

namespace DisastrOS

/-- The syscall is about processes, not about resources or messages. -/
def Syscall.onProcesses : Syscall → Bool
  | .openResource .. | .closeResource .. | .destroyResource .. | .mqRead .. | .mqWrite .. => false
  | _ => true

namespace Model

variable {clean : Addr → Prop} {a a' a'' : Model} {r : Addr} {c : Syscall} {act : Action}

/-! ## Steps about processes -/

/-- The resources, the queues and the messages of `a'` are those of `a`. -/
structure SameResources (a a' : Model) : Prop where
  resources : a'.toResources = a.toResources
  resourcesList : a'.resourcesList = a.resourcesList
  msgs : a'.msgs = a.msgs
  freeStandard : a'.freeStandard = a.freeStandard
  freeMqs : a'.freeMqs = a.freeMqs
  freeMs : a'.freeMs = a.freeMs

/-- The scheduler leaves the resources alone. -/
theorem ScheduleStep.sameResources (h : ScheduleStep a a') : SameResources a a' := by
  obtain ⟨_, _, _, _, _, _, rfl⟩ := h.eq
  exact ⟨rfl, rfl, rfl, rfl, rfl, rfl⟩

/-- `exit` takes no resource out of the list. -/
theorem ExitStep.sameResources (h : ExitStep a r a') : SameResources a a' := by
  obtain ⟨_, _, _, _, _, _, _, _, _, _, _, _, _, rfl⟩ := h.eq
  exact ⟨rfl, rfl, rfl, rfl, rfl, rfl⟩

/-- The calls on processes leave the resources alone. -/
theorem HandlerStep.sameResources (h : HandlerStep clean a r c a') (hc : c.onProcesses) :
    SameResources a a' := by
  cases h with
  | preempt h => exact h.sameResources
  | fork h => cases h with | created _ _ => exact ⟨rfl, rfl, rfl, rfl, rfl, rfl⟩
  | spawn h => cases h with | created _ _ => exact ⟨rfl, rfl, rfl, rfl, rfl, rfl⟩
  | wait h =>
      obtain ⟨_, _, _, _, _, _, _, _, rfl⟩ := h.eq
      exact ⟨rfl, rfl, rfl, rfl, rfl, rfl⟩
  | exit h => exact h.sameResources
  | sleep h =>
      obtain ⟨_, _, _, _, _, _, _, _, rfl⟩ := h.eq
      exact ⟨rfl, rfl, rfl, rfl, rfl, rfl⟩
  | shutdown => exact ⟨rfl, rfl, rfl, rfl, rfl, rfl⟩
  | openResource _ => cases hc
  | closeResource _ => cases hc
  | destroyResource _ => cases hc
  | mqRead _ => cases hc
  | mqWrite _ => cases hc

/-! ## Steps about resources -/

/-- The process table of `a'` is that of `a`; `r` made a syscall. -/
structure SameProcesses (a : Model) (r : Addr) (a' : Model) : Prop where
  pid : a'.pid = a.pid
  status : a'.status = a.status
  parent : a'.parent = a.parent
  signals : a'.signals = a.signals
  signalsMask : a'.signalsMask = a.signalsMask
  timer : a'.timer = a.timer
  syscallNum : a'.syscallNum = a.syscallNum
  syscallArgs : a'.syscallArgs = a.syscallArgs
  returnValue : ∀ p, p ≠ r → a'.returnValue p = a.returnValue p
  lastFd : ∀ p, p ≠ r → a'.lastFd p = a.lastFd p
  syscallRetvalue : ∀ p, p ≠ r → a'.syscallRetvalue p = a.syscallRetvalue p
  ptrPcb : ∀ e, e ∉ a.freePcbPtrs → a'.ptrPcb e = a.ptrPcb e
  initPcb : a'.initPcb = a.initPcb
  running : a'.running = a.running
  lastPid : a'.lastPid = a.lastPid
  time : a'.time = a.time
  shutdownNow : a'.shutdownNow = a.shutdownNow
  ints : a'.ints = a.ints
  procs : a'.procs = a.procs
  children : a'.children = a.children
  timerList : a'.timerList = a.timerList
  descriptors : ∀ p, p ≠ r → a'.descriptors p = a.descriptors p
  freePcbs : a'.freePcbs = a.freePcbs
  freePcbPtrs : a'.freePcbPtrs ⊆ a.freePcbPtrs

theorem SameProcesses.refl (a : Model) (r : Addr) : SameProcesses a r a := by
  constructor <;> first | rfl | exact fun _ _ => rfl | exact List.Subset.refl _

theorem SameProcesses.trans (h : SameProcesses a r a') (h' : SameProcesses a' r a'') :
    SameProcesses a r a'' where
  pid := h'.pid.trans h.pid
  status := h'.status.trans h.status
  parent := h'.parent.trans h.parent
  signals := h'.signals.trans h.signals
  signalsMask := h'.signalsMask.trans h.signalsMask
  timer := h'.timer.trans h.timer
  syscallNum := h'.syscallNum.trans h.syscallNum
  syscallArgs := h'.syscallArgs.trans h.syscallArgs
  returnValue := fun p hp => (h'.returnValue p hp).trans (h.returnValue p hp)
  lastFd := fun p hp => (h'.lastFd p hp).trans (h.lastFd p hp)
  syscallRetvalue := fun p hp => (h'.syscallRetvalue p hp).trans (h.syscallRetvalue p hp)
  ptrPcb := fun e he =>
    (h'.ptrPcb e fun hmem => he (h.freePcbPtrs hmem)).trans (h.ptrPcb e he)
  initPcb := h'.initPcb.trans h.initPcb
  running := h'.running.trans h.running
  lastPid := h'.lastPid.trans h.lastPid
  time := h'.time.trans h.time
  shutdownNow := h'.shutdownNow.trans h.shutdownNow
  ints := h'.ints.trans h.ints
  procs := h'.procs.trans h.procs
  children := h'.children.trans h.children
  timerList := h'.timerList.trans h.timerList
  descriptors := fun p hp => (h'.descriptors p hp).trans (h.descriptors p hp)
  freePcbs := h'.freePcbs.trans h.freePcbs
  freePcbPtrs := fun _ he => h.freePcbPtrs (h'.freePcbPtrs he)

theorem sameProcesses_answer (a : Model) (r : Addr) (v : Int) : SameProcesses a r (a.answer r v) :=
  { SameProcesses.refl a r with syscallRetvalue := fun _ hp => Function.update_of_ne hp .. }

theorem AddResource.sameProcesses {id type : Int} {res : ResourceRef}
    (h : AddResource a id type res a') (r : Addr) : SameProcesses a r a' := by
  cases h with
  | standard _ _ => exact { SameProcesses.refl a r with }
  | mq _ _ => exact { SameProcesses.refl a r with }

theorem Register.sameProcesses {res : ResourceRef} {mode : Int} (h : Register a r res mode a') :
    SameProcesses a r a' := by
  obtain ⟨_, _, _, _, rfl, hptr, hsub⟩ := h.eq
  exact { SameProcesses.refl a r with ptrPcb := hptr, freePcbPtrs := hsub }

theorem sameProcesses_attach {res : ResourceRef} {d e : Addr} {ds es : List Addr} :
    SameProcesses a r (a.attach r res d e ds es) :=
  { SameProcesses.refl a r with
    lastFd := fun _ hp => Function.update_of_ne hp ..
    syscallRetvalue := fun _ hp => Function.update_of_ne hp ..
    descriptors := fun _ hp => Function.update_of_ne hp .. }

theorem OpenFound.sameProcesses {res : ResourceRef} {mode : Int}
    (h : OpenFound a r res mode a') : SameProcesses a r a' := by
  cases h with
  | notExclusive _ _ => exact sameProcesses_answer ..
  | taken _ => exact sameProcesses_answer ..
  | noDescriptor _ hreg _ => exact hreg.sameProcesses.trans (sameProcesses_answer ..)
  | opened _ hreg _ _ => exact hreg.sameProcesses.trans sameProcesses_attach

/-- `openResource` leaves the process table alone, up to the answer and the caller's descriptors. -/
theorem OpenStep.sameProcesses {id type mode : Int} (h : OpenStep a r id type mode a') :
    SameProcesses a r a' := by
  cases h with
  | alreadyExists _ _ => exact sameProcesses_answer ..
  | created _ _ hadd hopen => exact (hadd.sameProcesses r).trans hopen.sameProcesses
  | unavailable _ _ => exact sameProcesses_answer ..
  | found _ _ _ hopen => exact hopen.sameProcesses

/-- `closeResource` leaves the process table alone, up to the answer and the caller's descriptors. -/
theorem CloseStep.sameProcesses {fd mode : Int} (h : CloseStep a r fd mode a') :
    SameProcesses a r a' := by
  cases h with
  | notFound _ => exact sameProcesses_answer ..
  | @closed d _ =>
      obtain ⟨_, _, heq⟩ := unregister_eq a (a.desResource d) mode
      refine SameProcesses.trans ?_ (sameProcesses_answer ..)
      rw [heq]
      exact { SameProcesses.refl a r with
        descriptors := fun _ hp => Function.update_of_ne hp .. }

theorem DestroyStep.sameProcesses {id : Int} (h : DestroyStep a r id a') :
    SameProcesses a r a' := by
  cases h with
  | notFound _ => exact sameProcesses_answer ..
  | inUse _ _ => exact sameProcesses_answer ..
  | @destroyed res _ _ =>
      refine SameProcesses.trans ?_ (sameProcesses_answer ..)
      cases res with
      | standard b => exact { SameProcesses.refl a r with }
      | mq q => exact { SameProcesses.refl a r with }

/-- `mq_read` leaves the process table alone, up to the answer. -/
theorem ReadStep.sameProcesses {fd buf length : Int} (h : ReadStep a r fd buf length a') :
    SameProcesses a r a' := by
  cases h with
  | notFound _ => exact sameProcesses_answer ..
  | wrongType _ _ => exact sameProcesses_answer ..
  | waiting _ _ _ => exact sameProcesses_answer ..
  | empty _ _ _ => exact sameProcesses_answer ..
  | tooLong _ _ _ => exact sameProcesses_answer ..
  | @read q m ms _ _ _ => exact { sameProcesses_answer a r (a.msgLength m) with }

/-- `mq_write` leaves the process table alone, up to the answer and the exit value that it stores for
a full queue. -/
theorem WriteStep.sameProcesses {fd msg length : Int}
    (h : WriteStep clean a r fd msg length a') : SameProcesses a r a' := by
  cases h with
  | badLength _ => exact sameProcesses_answer ..
  | notFound _ _ _ => exact sameProcesses_answer ..
  | wrongType _ _ _ _ => exact sameProcesses_answer ..
  | full _ _ _ _ =>
      exact { SameProcesses.refl a r with
        returnValue := fun _ hp => Function.update_of_ne hp .. }
  | linked _ _ _ _ _ _ => exact { sameProcesses_answer a r length with }
  | refused _ _ _ _ _ _ => exact { sameProcesses_answer a r length with }

/-- The calls on resources leave the process table alone, up to what belongs to the caller. -/
theorem HandlerStep.sameProcesses (h : HandlerStep clean a r c a') (hc : c.onProcesses = false) :
    SameProcesses a r a' := by
  cases h with
  | preempt _ => cases hc
  | fork _ => cases hc
  | spawn _ => cases hc
  | wait _ => cases hc
  | exit _ => cases hc
  | sleep _ => cases hc
  | shutdown => cases hc
  | openResource h => exact h.sameProcesses
  | closeResource h => exact h.sameProcesses
  | destroyResource h => exact h.sameProcesses
  | mqRead h => exact h.sameProcesses
  | mqWrite h => exact h.sameProcesses

/-! ## Opening and closing -/

/-- The resources, their messages and the awakening times of `a'` are those of `a`. -/
structure SameStore (a a' : Model) : Prop where
  resourcesList : a'.resourcesList = a.resourcesList
  resourceId : a'.resourceId = a.resourceId
  msgs : a'.msgs = a.msgs
  msgLength : a'.msgLength = a.msgLength
  msgText : a'.msgText = a.msgText
  freeMs : a'.freeMs = a.freeMs
  awakeningTime : a'.awakeningTime = a.awakeningTime

/-- Opening a resource that exists writes to no message. -/
theorem OpenFound.sameStore {res : ResourceRef} {mode : Int} (h : OpenFound a r res mode a') :
    SameStore a a' := by
  cases h with
  | notExclusive _ _ => exact ⟨rfl, rfl, rfl, rfl, rfl, rfl, rfl⟩
  | taken _ => exact ⟨rfl, rfl, rfl, rfl, rfl, rfl, rfl⟩
  | noDescriptor _ hreg _ =>
      -- the registration stays although the open fails
      obtain ⟨_, _, _, _, rfl, -⟩ := hreg.eq
      exact ⟨rfl, rfl, rfl, rfl, rfl, rfl, rfl⟩
  | opened _ hreg _ _ =>
      obtain ⟨_, _, _, _, rfl, -⟩ := hreg.eq
      exact ⟨rfl, rfl, rfl, rfl, rfl, rfl, rfl⟩

/-- Closing a descriptor writes to no message. -/
theorem CloseStep.sameStore {fd mode : Int} (h : CloseStep a r fd mode a') : SameStore a a' := by
  cases h with
  | notFound _ => exact ⟨rfl, rfl, rfl, rfl, rfl, rfl, rfl⟩
  | @closed d _ =>
      obtain ⟨_, _, heq⟩ := unregister_eq a (a.desResource d) mode
      rw [heq]
      exact ⟨rfl, rfl, rfl, rfl, rfl, rfl, rfl⟩

/-! ## The process that runs -/

theorem forall_running {Q : Addr → Prop} (hr : a.running = some r) :
    (∀ p ∈ a.running, Q p) ↔ Q r := by
  simp only [hr, Option.mem_some_iff, forall_eq']

/-- A syscall is a transition of its handler, for the process that runs. -/
theorem Step.handler (h : Step clean a (.syscall c) a') (hr : a.running = some r) :
    HandlerStep clean (a.enter r c) r c a' := by
  cases h with
  | syscall hr' hs =>
      obtain rfl : r = _ := Option.some.inj (hr.symm.trans hr')
      exact hs

end Model

end DisastrOS
