import DisastrOS.Refinement.System

/-!
# The calls stored in other PCBs

`disastrOS_syscall` stores the number and the arguments of a call in the PCB of the running process.
A handler reads them there, and `exit` also reads those of a waiting parent. Nothing else in the
kernel depends on them: with other calls stored in the PCBs of the remaining processes it runs in
the same way.
-/

set_option autoImplicit false

namespace DisastrOS

open LinkedSequence

/-! ## Equations between computations -/

section Except

variable {α α' β γ : Type} {x : Except Fault α} {x' : Except Fault α'} {p : α → α'}
  {f : α → Except Fault β} {g : β → γ}

theorem map_bind_eq {f' : α → Except Fault γ} (h : ∀ a, (f a).map g = f' a) :
    (x >>= f).map g = x >>= f' := by
  cases x with
  | error _ => rfl
  | ok a => exact h a

theorem map_bind_map_of_ok {f' : α' → Except Fault γ} (hx : x.map p = x')
    (h : ∀ a, x = .ok a → (f a).map g = f' (p a)) : (x >>= f).map g = x' >>= f' := by
  subst hx
  cases x with
  | error _ => rfl
  | ok a => exact h a rfl

theorem map_bind_map {f' : α' → Except Fault γ} (hx : x.map p = x')
    (h : ∀ a, (f a).map g = f' (p a)) : (x >>= f).map g = x' >>= f' :=
  map_bind_map_of_ok hx fun a _ => h a

end Except

namespace Kernel

/-- The state with other calls stored in the PCBs. -/
def withCalls (s : Kernel) (args : Addr → Nat → Int) (num : Addr → Int) : Kernel :=
  { s with syscallArgs := args, syscallNum := num }

/-- A result that comes with a state. -/
abbrev both {α : Type} (args : Addr → Nat → Int) (num : Addr → Int) (p : Kernel × α) :
    Kernel × α :=
  (p.1.withCalls args num, p.2)

variable (s : Kernel) (args : Addr → Nat → Int) (num : Addr → Int)

/-! ## Scheduling and processes -/

theorem pcbAlloc_withCalls : s.pcbAlloc.map (both args num) = (s.withCalls args num).pcbAlloc :=
  map_bind_eq fun _ => rfl

theorem pcbPtrAlloc_withCalls (pcb : Addr) :
    (s.pcbPtrAlloc pcb).map (both args num) = (s.withCalls args num).pcbPtrAlloc pcb :=
  map_bind_eq fun _ => rfl

theorem timerListRemoveCurrent_withCalls :
    s.timerListRemoveCurrent.map (·.withCalls args num) =
      (s.withCalls args num).timerListRemoveCurrent :=
  map_bind_eq fun _ => rfl

theorem timerListPrevious_withCalls (t : Int) (n : Nat) (previous aux : Option Addr) :
    (s.withCalls args num).timerListPrevious t n previous aux =
      s.timerListPrevious t n previous aux := by
  induction n generalizing previous aux with
  | zero => rfl
  | succ n ih =>
      cases aux with
      | none => rfl
      | some aux =>
          simp only [timerListPrevious, ih]
          rfl

theorem timerItemAlloc_withCalls (t : Int) (p : Addr) :
    (s.withCalls args num).timerItemAlloc t p = both args num (s.timerItemAlloc t p) := by
  unfold timerItemAlloc
  rw [show (s.withCalls args num).timerItemAllocator = s.timerItemAllocator from rfl]
  rcases s.timerItemAllocator.getBlock with ⟨_ | _, _⟩ <;> rfl

theorem timerListAdd_withCalls (t : Int) (p : Addr) :
    (s.timerListAdd t p).map (both args num) = (s.withCalls args num).timerListAdd t p := by
  unfold timerListAdd
  rw [timerListPrevious_withCalls, timerItemAlloc_withCalls]
  refine map_bind_eq fun previous => ?_
  rcases s.timerItemAlloc t p with ⟨s, _ | item⟩
  · rfl
  · exact map_bind_eq fun _ => rfl

theorem wakeElapsed_withCalls (n : Nat) (previous : Option Addr) :
    (wakeElapsed n s previous).map (·.withCalls args num) =
      wakeElapsed n (s.withCalls args num) previous := by
  induction n generalizing s previous with
  | zero => rfl
  | succ n ih =>
      unfold wakeElapsed
      rw [show (s.withCalls args num).timerListCurrent (s.withCalls args num).time =
        s.timerListCurrent s.time from rfl]
      cases s.timerListCurrent s.time with
      | none => rfl
      | some e =>
          refine map_bind_eq fun _ => map_bind_eq fun _ => ?_
          exact map_bind_map (timerListRemoveCurrent_withCalls _ args num) fun s => ih s _

theorem internalSchedule_withCalls : s.internalSchedule.map (·.withCalls args num) =
    (s.withCalls args num).internalSchedule := by
  refine map_bind_map (wakeElapsed_withCalls s args num _ _) fun s => ?_
  rw [show (s.withCalls args num).procs = s.procs from rfl]
  cases s.procs.first .ready with
  | none => rfl
  | some first =>
      exact map_bind_eq fun _ => map_bind_eq fun _ => map_bind_eq fun _ => rfl

theorem createProcess_withCalls : s.createProcess.map (·.withCalls args num) =
    (s.withCalls args num).createProcess := by
  refine map_bind_eq fun _ => map_bind_map (pcbAlloc_withCalls s args num) fun p => ?_
  refine map_bind_map (pcbPtrAlloc_withCalls _ args num _) fun q => ?_
  exact map_bind_eq fun _ => map_bind_eq fun _ => rfl

theorem waitScan_withCalls (pid : Int) (n : Nat) (awaited aux : Option Addr) :
    (s.withCalls args num).waitScan pid n awaited aux = s.waitScan pid n awaited aux := by
  induction n generalizing awaited aux with
  | zero => rfl
  | succ n ih =>
      cases aux with
      | none => rfl
      | some aux =>
          simp only [waitScan, ih]
          rfl

theorem reparentChildren_withCalls (r init : Addr) (n : Nat) :
    (reparentChildren r init n s).map (·.withCalls args num) =
      reparentChildren r init n (s.withCalls args num) := by
  induction n generalizing s with
  | zero => rfl
  | succ n ih =>
      unfold reparentChildren
      rw [show (s.withCalls args num).children = s.children from rfl]
      cases s.children.first r with
      | none => rfl
      | some first => exact map_bind_eq fun _ => map_bind_eq fun _ => ih _

theorem releaseTimers_withCalls (r : Addr) (n : Nat) (timer : Option Addr) :
    (releaseTimers r n s timer).map (·.withCalls args num) =
      releaseTimers r n (s.withCalls args num) timer := by
  induction n generalizing s timer with
  | zero => rfl
  | succ n ih =>
      cases timer with
      | none => rfl
      | some timer =>
          unfold releaseTimers
          show _ = (if s.timerPcb timer = r then _ else _)
          split
          · exact map_bind_eq fun _ => ih _ _
          · exact ih _ _

theorem releaseDescriptors_withCalls (r : Addr) (n : Nat) :
    (releaseDescriptors r n s).map (·.withCalls args num) =
      releaseDescriptors r n (s.withCalls args num) := by
  induction n generalizing s with
  | zero => rfl
  | succ n ih =>
      unfold releaseDescriptors
      rw [show (s.withCalls args num).descriptors = s.descriptors from rfl]
      cases s.descriptors.first r with
      | none => rfl
      | some des => exact map_bind_eq fun _ => map_bind_eq fun _ => ih _

theorem wakeParent_withCalls {r parent : Addr} (hargs : args parent = s.syscallArgs parent) :
    (s.wakeParent r parent).map (·.withCalls args num) =
      (s.withCalls args num).wakeParent r parent := by
  unfold wakeParent
  simp only [listDetach_eq, ok_bind, storeInt_eq]
  refine map_bind_eq fun _ => map_bind_eq fun p => ?_
  refine map_bind_map (releaseTimers_withCalls _ args num r _ _ |>.trans ?_) fun s =>
    map_bind_map (releaseDescriptors_withCalls s args num r _) fun s => rfl
  simp only [withCalls, setRetvalue, hargs]
  rfl

theorem dispatchNext_withCalls : s.dispatchNext.map (·.withCalls args num) =
    (s.withCalls args num).dispatchNext :=
  map_bind_eq fun _ => rfl

/-! ## Resources and messages -/

theorem mAlloc_withCalls (msg length : Int) : (s.mAlloc msg length).map (both args num) =
    (s.withCalls args num).mAlloc msg length := by
  unfold mAlloc
  rw [show (s.withCalls args num).mAllocator = s.mAllocator from rfl]
  rcases s.mAllocator.getBlock with ⟨_ | m, pool⟩
  · rfl
  · simp only
    split
    · rfl
    · split <;> rfl

theorem mqFreeMessages_withCalls (n : Nat) (m : Option Addr) :
    (mqFreeMessages n s m).map (·.withCalls args num) =
      mqFreeMessages n (s.withCalls args num) m := by
  induction n generalizing s m with
  | zero => rfl
  | succ n ih =>
      cases m with
      | none => rfl
      | some m =>
          unfold mqFreeMessages
          show _ = (if (s.mFree m).1 = .success then _ else _)
          simp only
          split
          · exact ih _ _
          · rfl

theorem deallocFunc_withCalls (res : ResourceRef) :
    (s.deallocFunc res).map (both args num) =
      (s.withCalls args num).deallocFunc res := by
  unfold deallocFunc
  show _ = (if s.resourceType res = standardResourceType then _ else
    if s.resourceType res = messageQueueType then _ else _)
  split
  · cases res <;> rfl
  · split
    · cases res with
      | standard _ => rfl
      | mq q => exact map_bind_map (mqFreeMessages_withCalls s args num _ _) fun _ => rfl
    · rfl

theorem resourceFree_withCalls (res : ResourceRef) :
    (s.resourceFree res).map (both args num) =
      (s.withCalls args num).resourceFree res := by
  unfold resourceFree
  show _ = (if wrapInt (s.resourceType res + 1) > maxTypeResources then _ else
    if (s.descriptorsPtrs.first res).isSome ∨ (s.descriptorsPtrs.last res).isSome then _ else _)
  split
  · rfl
  · split
    · rfl
    · exact deallocFunc_withCalls s args num res

theorem allocFunc_withCalls (type : Int) : (s.allocFunc type).map (both args num) =
    (s.withCalls args num).allocFunc type := by
  unfold allocFunc
  split
  · rfl
  · split
    · unfold mqAlloc
      rw [show (s.withCalls args num).mqAllocator = s.mqAllocator from rfl]
      rcases s.mqAllocator.getBlock with ⟨_ | _, _⟩ <;> rfl
    · rfl

theorem resourceAlloc_withCalls (id type : Int) : (s.resourceAlloc id type).map (both args num) =
    (s.withCalls args num).resourceAlloc id type := by
  unfold resourceAlloc
  split
  · rfl
  · refine map_bind_map (allocFunc_withCalls s args num type) fun p => ?_
    rcases p with ⟨s, _ | _⟩ <;> rfl

theorem mqSetMode_withCalls (res : ResourceRef) (mode : Int) :
    (s.mqSetMode res mode).map (both args num) =
      (s.withCalls args num).mqSetMode res mode := by
  unfold mqSetMode
  show _ = (if s.resourceType res ≠ messageQueueType then _ else _)
  split
  · rfl
  · cases res with
    | standard _ => rfl
    | mq q =>
        show _ = (if mode = dsosRead then (if (s.readingPid q).isSome then _ else _) else
          if mode = dsosWrite then (if (s.writingPid q).isSome then _ else _) else _)
        simp only
        split
        · split
          · rfl
          · exact map_bind_eq fun r =>
              map_bind_map (pcbPtrAlloc_withCalls s args num r) fun _ => rfl
        · split
          · split
            · rfl
            · exact map_bind_eq fun r =>
                map_bind_map (pcbPtrAlloc_withCalls s args num r) fun _ => rfl
          · rfl

theorem mqDeleteMode_withCalls (res : ResourceRef) (mode : Int) :
    (s.mqDeleteMode res mode).map (both args num) =
      (s.withCalls args num).mqDeleteMode res mode := by
  unfold mqDeleteMode
  show _ = (if s.resourceType res ≠ messageQueueType then _ else _)
  split
  · rfl
  · cases res with
    | standard _ => rfl
    | mq q =>
        simp only
        split
        · rfl
        · split <;> rfl

theorem openMode_withCalls (res : ResourceRef) (mode : Int) :
    (s.openMode res mode).map (both args num) = (s.withCalls args num).openMode res mode := by
  unfold openMode resourceOpen
  show _ = (if s.resourceType res > standardResourceType ∧ mode ≠ dsosCreate then
    (if s.resourceType res > standardResourceType then
      (if s.resourceType res = messageQueueType then _ else _) else _) else _)
  split
  · split
    · split
      · exact mqSetMode_withCalls s args num res mode
      · rfl
    · rfl
  · rfl

theorem closeMode_withCalls (res : ResourceRef) (mode : Int) :
    (s.closeMode res mode).map (both args num) = (s.withCalls args num).closeMode res mode := by
  unfold closeMode resourceRelease
  show _ = (if s.resourceType res > standardResourceType then
    (if s.resourceType res > standardResourceType then
      (if s.resourceType res = messageQueueType then _ else _) else _) else _)
  split
  · split
    · exact mqDeleteMode_withCalls s args num res mode
    · rfl
  · rfl

theorem descriptorAlloc_withCalls (fd : Int) (res : ResourceRef) (p : Addr) :
    both args num (s.descriptorAlloc fd res p) =
      (s.withCalls args num).descriptorAlloc fd res p := by
  unfold descriptorAlloc
  rw [show (s.withCalls args num).descriptorAllocator = s.descriptorAllocator from rfl]
  rcases s.descriptorAllocator.getBlock with ⟨_ | _, _⟩ <;> rfl

theorem descriptorPtrAlloc_withCalls (d : Addr) : both args num (s.descriptorPtrAlloc d) =
    (s.withCalls args num).descriptorPtrAlloc d := by
  unfold descriptorPtrAlloc
  rw [show (s.withCalls args num).descriptorPtrAllocator = s.descriptorPtrAllocator from rfl]
  rcases s.descriptorPtrAllocator.getBlock with ⟨_ | _, _⟩ <;> rfl

theorem openDescriptor_withCalls (r : Addr) (res : ResourceRef) :
    (s.openDescriptor r res).map (·.withCalls args num) =
      (s.withCalls args num).openDescriptor r res := by
  unfold openDescriptor
  rw [← descriptorAlloc_withCalls, show (s.withCalls args num).lastFd = s.lastFd from rfl]
  rcases s.descriptorAlloc (s.lastFd r) res r with ⟨s, _ | des⟩
  · rfl
  · have h := descriptorPtrAlloc_withCalls { s with
      lastFd := Function.update s.lastFd r (wrapInt (s.lastFd r + 1)) } args num des
    rcases hq : descriptorPtrAlloc { s with
      lastFd := Function.update s.lastFd r (wrapInt (s.lastFd r + 1)) } des with ⟨u, e⟩
    rw [hq] at h
    have h' : descriptorPtrAlloc { s.withCalls args num with
        lastFd := Function.update (s.withCalls args num).lastFd r
          (wrapInt ((s.withCalls args num).lastFd r + 1)) } des = (u.withCalls args num, e) :=
      h.symm
    simp only [hq, h']
    exact map_bind_eq fun _ => map_bind_eq fun _ => rfl

theorem openFound_withCalls (r : Addr) (res : Option ResourceRef) (type mode : Int) :
    (s.openFound r res type mode).map (·.withCalls args num) =
      (s.withCalls args num).openFound r res type mode := by
  unfold openFound
  rw [show (s.withCalls args num).resourceType = s.resourceType from rfl,
    show (s.withCalls args num).descriptorsPtrs = s.descriptorsPtrs from rfl]
  cases res.filter fun r => s.resourceType r = type with
  | none => rfl
  | some res =>
      simp only
      split
      · rfl
      · refine map_bind_map (openMode_withCalls s args num res mode) fun p => ?_
        obtain ⟨s, result⟩ := p
        simp only
        split
        · rfl
        · exact openDescriptor_withCalls s args num r res

/-! ## Handlers -/

/-- The calls of the running process and of the waiting ones are the same. -/
structure SameCalls (s : Kernel) (args : Addr → Nat → Int) (num : Addr → Int) : Prop where
  running : ∀ r, s.running = some r → args r = s.syscallArgs r ∧ num r = s.syscallNum r
  waiting : ∀ p, s.status p = .waiting → args p = s.syscallArgs p ∧ num p = s.syscallNum p

variable {s args num}

/-- A handler loads the running PCB first, and finds its arguments as they were. -/
theorem SameCalls.bind_running (h : s.SameCalls args num) {f g : Addr → Except Fault Kernel}
    (hfg : ∀ r, (s.withCalls args num).syscallArgs r = s.syscallArgs r →
      (f r).map (·.withCalls args num) = g r) :
    (deref s.running >>= f).map (·.withCalls args num) =
      deref (s.withCalls args num).running >>= g := by
  show _ = deref s.running >>= g
  cases hr : s.running with
  | none => rfl
  | some r =>
      have hargs : (s.withCalls args num).syscallArgs r = s.syscallArgs r := (h.running r hr).1
      simp only [deref_some, ok_bind]
      exact hfg r hargs

theorem internalSleep_withCalls (h : s.SameCalls args num) :
    s.internalSleep.map (·.withCalls args num) = (s.withCalls args num).internalSleep := by
  unfold internalSleep
  refine h.bind_running fun r hargs => ?_
  show _ = (if (s.timer r).isSome then _ else _)
  split
  · rfl
  · simp only [hargs]
    refine map_bind_map (timerListAdd_withCalls s args num _ r) fun p => ?_
    obtain ⟨s, t⟩ := p
    simp only
    split
    · rfl
    · refine map_bind_eq fun p => ?_
      cases p.1.first .ready with
      | none => rfl
      | some first => exact map_bind_eq fun _ => rfl

theorem internalWait_withCalls (h : s.SameCalls args num) :
    s.internalWait.map (·.withCalls args num) = (s.withCalls args num).internalWait := by
  unfold internalWait
  refine h.bind_running fun r hargs => ?_
  simp only [hargs]
  show _ = (if (s.children.first r).isNone then _ else _)
  split
  · rfl
  · rw [waitScan_withCalls]
    refine map_bind_eq fun awaited => ?_
    split
    · rfl
    · rw [show (s.withCalls args num).status = s.status from rfl,
        show (s.withCalls args num).ptrPcb = s.ptrPcb from rfl]
      cases awaited.filter fun e => s.status (s.ptrPcb e) = .zombie with
      | none => exact map_bind_eq fun _ => map_bind_eq fun _ => rfl
      | some e =>
          simp only [storeInt_eq]
          exact map_bind_eq fun _ => map_bind_eq fun _ => rfl

/-- The loop changes the children and their signals only. -/
theorem reparentChildren_frame {r init : Addr} {n : Nat} {t t' : Kernel}
    (h : reparentChildren r init n t = .ok t') :
    t'.status = t.status ∧ t'.syscallArgs = t.syscallArgs ∧ t'.syscallNum = t.syscallNum := by
  induction n generalizing t with
  | zero => cases h
  | succ n ih =>
      unfold reparentChildren at h
      split at h
      · cases h
        exact ⟨rfl, rfl, rfl⟩
      · simp only [bind_eq_ok] at h
        obtain ⟨_, _, _, _, h⟩ := h
        have hrest := ih h
        exact hrest

theorem awaits_withCalls {parent : Addr} (pid : Int)
    (h : s.status parent = .waiting →
      args parent = s.syscallArgs parent ∧ num parent = s.syscallNum parent) :
    (s.withCalls args num).awaits parent pid = s.awaits parent pid := by
  by_cases hw : s.status parent = .waiting
  · obtain ⟨hargs, hnum⟩ := h hw
    unfold PCBs.awaits
    simp only [withCalls, hargs, hnum]
  · unfold PCBs.awaits
    simp [withCalls, hw]

/-- The end of `internal_exit`: only a waiting parent is asked for its call. -/
theorem handBack_withCalls {r parent : Addr}
    (h : s.status parent = .waiting →
      args parent = s.syscallArgs parent ∧ num parent = s.syscallNum parent) :
    (if s.awaits parent (s.pid r) then s.wakeParent r parent else s.dispatchNext).map
        (·.withCalls args num) =
      if (s.withCalls args num).awaits parent (s.pid r) then
        (s.withCalls args num).wakeParent r parent
      else (s.withCalls args num).dispatchNext := by
  rw [awaits_withCalls (s.pid r) h]
  split
  · rename_i hawaits
    have hw : s.status parent = .waiting := by
      unfold PCBs.awaits at hawaits
      exact (of_decide_eq_true hawaits).1
    exact wakeParent_withCalls s args num (h hw).1
  · exact dispatchNext_withCalls s args num

theorem internalExit_withCalls (h : s.SameCalls args num) :
    s.internalExit.map (·.withCalls args num) = (s.withCalls args num).internalExit := by
  unfold internalExit
  refine h.bind_running fun r hargs => ?_
  simp only [hargs]
  refine map_bind_eq fun init => ?_
  refine map_bind_map_of_ok (reparentChildren_withCalls _ args num r init _)
    fun s₁ hs₁ => ?_
  obtain ⟨hstatus, hcalls, hnums⟩ := reparentChildren_frame hs₁
  refine map_bind_eq fun p => map_bind_eq fun parent => ?_
  -- only a waiting parent is asked for its call
  have hparent : Function.update s₁.status r .zombie parent = .waiting →
      args parent = s₁.syscallArgs parent ∧ num parent = s₁.syscallNum parent := by
    intro hw
    rw [hcalls, hnums]
    rw [hstatus] at hw
    by_cases heq : parent = r
    · rw [heq, Function.update_self] at hw
      cases hw
    · rw [Function.update_of_ne heq] at hw
      exact h.waiting parent hw
  exact handBack_withCalls (s := { s₁ with
    status := Function.update s₁.status r .zombie
    procs := p.1
    signals := Function.update s₁.signals parent
      (s₁.signals parent ||| (dsosSigchld &&& s₁.signalsMask parent)) }) hparent

theorem internalOpenResource_withCalls (h : s.SameCalls args num) :
    s.internalOpenResource.map (·.withCalls args num) =
      (s.withCalls args num).internalOpenResource := by
  unfold internalOpenResource
  refine h.bind_running fun r hargs => ?_
  simp only [hargs]
  refine map_bind_eq fun res => ?_
  split
  · split
    · rfl
    · refine map_bind_map (resourceAlloc_withCalls s args num _ _) fun p => ?_
      exact map_bind_eq fun _ => openFound_withCalls _ args num r p.2 _ _
  · exact openFound_withCalls s args num r res _ _

theorem internalCloseResource_withCalls (h : s.SameCalls args num) :
    s.internalCloseResource.map (·.withCalls args num) =
      (s.withCalls args num).internalCloseResource := by
  unfold internalCloseResource
  refine h.bind_running fun r hargs => ?_
  simp only [hargs]
  refine map_bind_eq fun des => ?_
  cases des with
  | none => rfl
  | some des =>
      refine map_bind_eq fun q => ?_
      refine map_bind_map (closeMode_withCalls _ args num _ _) fun p => ?_
      obtain ⟨s, result⟩ := p
      simp only
      split
      · rfl
      · exact map_bind_eq fun _ => rfl

theorem internalDestroyResource_withCalls (h : s.SameCalls args num) :
    s.internalDestroyResource.map (·.withCalls args num) =
      (s.withCalls args num).internalDestroyResource := by
  unfold internalDestroyResource
  refine h.bind_running fun r hargs => ?_
  simp only [hargs]
  refine map_bind_eq fun res => ?_
  cases res with
  | none => rfl
  | some res =>
      show _ = (if s.descriptorsPtrs.size res ≠ 0 then _ else _)
      simp only
      split
      · rfl
      · exact map_bind_eq fun q =>
          map_bind_map (resourceFree_withCalls _ args num q.2) fun _ => rfl

theorem internalMessageQueueRead_withCalls (h : s.SameCalls args num) :
    s.internalMessageQueueRead.map (·.withCalls args num) =
      (s.withCalls args num).internalMessageQueueRead := by
  unfold internalMessageQueueRead
  refine h.bind_running fun r hargs => ?_
  simp only [hargs]
  refine map_bind_eq fun d => ?_
  cases d with
  | none => rfl
  | some d =>
      show _ = (if s.resourceType (s.desResource d) ≠ messageQueueType then _ else _)
      simp only
      split
      · rfl
      · refine map_bind_eq fun q => ?_
        show _ = (if s.msgs.size q = 0 then (if (s.writingPid q).isSome then _ else _) else _)
        split
        · split <;> rfl
        · refine map_bind_eq fun m => ?_
          show _ = (if s.msgLength m > _ then _ else
            (if 0 < s.msgLength m ∧ s.syscallArgs r 1 = 0 then _ else _))
          split
          · rfl
          · split
            · rfl
            · refine map_bind_eq fun p => ?_
              simp only [mFree, setRetvalue,
                show (s.withCalls args num).mAllocator = s.mAllocator from rfl]
              cases (s.mAllocator.releaseBlock p.2).1 <;> rfl

theorem internalMessageQueueWrite_withCalls (h : s.SameCalls args num) :
    s.internalMessageQueueWrite.map (·.withCalls args num) =
      (s.withCalls args num).internalMessageQueueWrite := by
  unfold internalMessageQueueWrite
  refine h.bind_running fun r hargs => ?_
  simp only [hargs]
  split
  · rfl
  · refine map_bind_eq fun d => ?_
    cases d with
    | none => rfl
    | some d =>
        show _ = (if s.resourceType (s.desResource d) ≠ messageQueueType then _ else _)
        simp only
        split
        · rfl
        · refine map_bind_eq fun q => ?_
          show _ = (if s.msgs.size q = mForMq then _ else _)
          split
          · rfl
          · exact map_bind_map (mAlloc_withCalls s args num _ _) fun _ =>
              map_bind_eq fun _ => rfl

/-- A handler depends on the calls of the running process and of the waiting ones only. -/
theorem handler_withCalls (c : Syscall) (h : s.SameCalls args num) :
    (c.handler s).map (·.withCalls args num) = c.handler (s.withCalls args num) := by
  cases c with
  | preempt => exact internalSchedule_withCalls s args num
  | fork => exact createProcess_withCalls s args num
  | spawn _ _ => exact createProcess_withCalls s args num
  | wait _ _ => exact internalWait_withCalls h
  | exit _ => exact internalExit_withCalls h
  | sleep _ => exact internalSleep_withCalls h
  | openResource _ _ _ => exact internalOpenResource_withCalls h
  | closeResource _ _ => exact internalCloseResource_withCalls h
  | destroyResource _ => exact internalDestroyResource_withCalls h
  | shutdown => rfl
  | mqRead _ _ _ => exact internalMessageQueueRead_withCalls h
  | mqWrite _ _ _ => exact internalMessageQueueWrite_withCalls h

/-- The timer interrupt depends on no stored call. -/
theorem timerInterrupt_withCalls (s : Kernel) : s.timerInterrupt.map (·.withCalls args num) =
    (s.withCalls args num).timerInterrupt := by
  refine map_bind_eq fun _ => ?_
  exact map_bind_map (internalSchedule_withCalls _ args num) fun _ => map_bind_eq fun _ => rfl

end Kernel

end DisastrOS
