import DisastrOS.Abstract.Openings
import DisastrOS.Refinement.Calls

/-!
# Opens that fail

`openResource` creates the resource or registers the caller before it asks for a descriptor, and it
does not take that back when there is none. Before that, the pool of the resources and that of the
PCB pointers are used without a test, and a type outside of the tables gets as far as `List_insert`.
-/

set_option autoImplicit false

namespace DisastrOS

open Runs LinkedSequence LinkedSequence.ListHeap Model

variable {counted : ProcList → Prop} {es : List (Event Kernel Action)} {s s' : Kernel}
  {a a' : Model} {r : Addr} {id type mode : Int32}

namespace Kernel

/-- The resource with this id. -/
def resourceById (s : Kernel) (id : Int) : Option ResourceRef :=
  s.resources.find? fun res => s.resourceId res = id

/-- The free lists of all pools. -/
def freeLists (s : Kernel) : FreeBlocks where
  freePcbs := s.pcbAllocator.freeBlocks
  freePcbPtrs := s.pcbPtrAllocator.freeBlocks
  freeTimers := s.timerItemAllocator.freeBlocks
  freeStandard := s.standardResourcesAllocator.freeBlocks
  freeMqs := s.mqAllocator.freeBlocks
  freeMs := s.mAllocator.freeBlocks
  freeDescriptors := s.descriptorAllocator.freeBlocks
  freeDescriptorPtrs := s.descriptorPtrAllocator.freeBlocks

/-- Some process is registered with resource `res` for `mode`. -/
def Taken (s : Kernel) (res : ResourceRef) (mode : Int) : Prop :=
  ∃ q, res = .mq q ∧
    ((mode = dsosRead ∧ s.readingPid q ≠ none) ∨ (mode = dsosWrite ∧ s.writingPid q ≠ none))

/-- Opening `res` with `mode` registers the caller. -/
def NeedsEntry (s : Kernel) (res : ResourceRef) (mode : Int) : Prop :=
  ∃ q, res = .mq q ∧
    ((mode = dsosRead ∧ s.readingPid q = none) ∨ (mode = dsosWrite ∧ s.writingPid q = none))

/-- There is a block for a new resource of this type. -/
def CanAdd (s : Kernel) (type : Int) : Prop :=
  (type = standardResourceType ∧ s.standardResourcesAllocator.getBlock.1 ≠ none) ∨
    (type = messageQueueType ∧ s.mqAllocator.getBlock.1 ≠ none)

/-- The call fails one of the checks: the id is taken, or there is no such resource, or it is not
free for this mode. -/
def OpenRefused (s : Kernel) (id type mode : Int) : Prop :=
  (mode = dsosCreate ∧ s.resourceById id ≠ none) ∨
    (mode ≠ dsosCreate ∧ ∀ res ∈ s.resourceById id, s.resourceType res = type →
      (mode = dsosExcl ∧ s.descriptorsPtrsOf res ≠ []) ∨ s.Taken res mode)

/-- The call passes the checks and needs a block that its pool does not have, or a pool that does
not exist. -/
def OpenStuck (s : Kernel) (id type mode : Int) : Prop :=
  (mode = dsosCreate ∧ s.resourceById id = none ∧ ¬ s.CanAdd type) ∨
    (mode ≠ dsosCreate ∧ s.pcbPtrAllocator.getBlock.1 = none ∧ ∃ res ∈ s.resourceById id,
      s.resourceType res = type ∧ s.NeedsEntry res mode)

/-- The call creates no resource and registers nobody. -/
def PreparesNothing (s : Kernel) (id mode : Int) : Prop :=
  mode ≠ dsosCreate ∧ ∀ q, s.resourceById id = some (.mq q) → mode ≠ dsosRead ∧ mode ≠ dsosWrite

end Kernel

/-- The resources, the descriptors, the registrations and the pools are the same. -/
@[mk_iff]
structure TablesUnchanged (s s' : Kernel) : Prop where
  resources : s'.resources = s.resources
  descriptors : s'.descriptorsOf = s.descriptorsOf
  entries : s'.descriptorsPtrsOf = s.descriptorsPtrsOf
  readingPid : s'.readingPid = s.readingPid
  writingPid : s'.writingPid = s.writingPid
  lastFd : s'.lastFd = s.lastFd
  free : s'.freeLists = s.freeLists

/-- If `openResource` answers with a negative number, then it changes nothing. -/
def FailedOpenChangesNothing (s : Kernel) (id type mode : Int32) : Prop :=
  ∀ s' v, s.call (.openResource id type mode) = .ok (s', some v) → v < 0 → TablesUnchanged s s'

/-- `openResource` returns to its caller `r`, with a new fd or with an error code. -/
def OpenReturns (s : Kernel) (r : Addr) (id type mode : Int32) : Prop :=
  ∃ s' v, s.call (.openResource id type mode) = .ok (s', some v) ∧ s'.running = some r ∧
    (v = s.lastFd r ∨ v ∈ openErrors)

/-! ## Reading the predicates off the kernel -/

section Read

variable (hR : Refines counted s a)
include hR

theorem Refines.freeLists_eq : s.freeLists = a.toFreeBlocks := by
  rw [Kernel.freeLists, hR.pcbs.freeBlocks_eq, hR.pcbPtrs.freeBlocks_eq, hR.timers.freeBlocks_eq,
    hR.standard.freeBlocks_eq, hR.mqs.freeBlocks_eq, hR.ms.freeBlocks_eq,
    hR.freeDescriptors.freeBlocks_eq, hR.freeDescriptorPtrs.freeBlocks_eq]

/-- The kernel finds by id the resource that the abstract state has under it. -/
theorem Refines.resourceById_eq (hI : a.ResInv) (id : Int) :
    s.resourceById id = a.resourceById id := by
  rw [Kernel.resourceById, hR.resources_eq hI, hR.data, Model.resourceById]

theorem Refines.taken_iff {res : ResourceRef} {mode : Int} :
    s.Taken res mode ↔ Model.Taken a res mode := by
  rw [Kernel.Taken, hR.data, Model.Taken]

theorem Refines.needsEntry_iff {res : ResourceRef} {mode : Int} :
    s.NeedsEntry res mode ↔ Model.NeedsEntry a res mode := by
  rw [Kernel.NeedsEntry, hR.data, Model.NeedsEntry]

theorem Refines.canAdd_iff {type : Int} : s.CanAdd type ↔ a.CanAdd type := by
  rw [Kernel.CanAdd, hR.standard.getBlock_head, hR.mqs.getBlock_head, Model.CanAdd, ne_eq, ne_eq,
    List.head?_eq_none_iff, List.head?_eq_none_iff]

/-- The kernel refuses the calls that the abstract state refuses. -/
theorem Refines.openRefused_iff (hI : a.Inv) {id type mode : Int} :
    s.OpenRefused id type mode ↔ a.OpenRefused id type mode := by
  simp only [Kernel.OpenRefused, hR.resourceById_eq hI.res, hR.descriptorsPtrsOf_eq hI.desc,
    hR.taken_iff, hR.data, Model.OpenRefused]

/-- The kernel is stuck in the calls in which the abstract state is stuck. -/
theorem Refines.openStuck_iff (hI : a.Inv) {id type mode : Int} :
    s.OpenStuck id type mode ↔ a.OpenStuck id type mode := by
  simp only [Kernel.OpenStuck, hR.resourceById_eq hI.res, hR.pcbPtrs.getBlock_head,
    List.head?_eq_none_iff, hR.canAdd_iff, hR.needsEntry_iff, hR.data, Model.OpenStuck]

theorem Refines.preparesNothing_iff (hI : a.Inv) {id mode : Int} :
    s.PreparesNothing id mode ↔ a.PreparesNothing id mode := by
  rw [Kernel.PreparesNothing, hR.resourceById_eq hI.res, Model.PreparesNothing]

/-- The kernel leaves its tables alone where the abstract state does. -/
theorem Refines.tablesUnchanged_iff (hI : a.Inv) (hR' : Refines counted s' a') (hI' : a'.Inv) :
    TablesUnchanged s s' ↔ SameTables a a' := by
  rw [DisastrOS.tablesUnchanged_iff, sameTables_iff, hR.resources_eq hI.res,
    hR'.resources_eq hI'.res, funext (hR.descriptorsOf_eq hI.desc),
    funext (hR'.descriptorsOf_eq hI'.desc), funext (hR.descriptorsPtrsOf_eq hI.desc),
    funext (hR'.descriptorsPtrsOf_eq hI'.desc), hR.freeLists_eq, hR'.freeLists_eq, hR.data,
    hR'.data]

end Read

/-! ## The call -/

variable (hR : Refines exceptZombies s a) (hI : a.Inv) (hr : a.running = some r)

/-- A completed `openResource` is refused, or it prepares the resource and asks for a descriptor. -/
theorem Called.open_outcome (h : Called s a r (.openResource id type mode) s' a') :
    (a.OpenRefused id.toInt type.toInt mode.toInt ∧
        ∃ v ∈ openErrors, a' = (a.enter r (.openResource id type mode)).answer r v) ∨
      ∃ res a₁, Prepared (a.enter r (.openResource id type mode)) r id.toInt type.toInt
        mode.toInt res a₁ ∧ Attaches (a.enter r (.openResource id type mode)) a₁ r res a' := by
  have hstep := h.step
  cases hstep with
  | openResource hs => exact hs.outcome

/-- Where the call returns, only its answer and the tables matter. -/
theorem failedOpen_of_call {v : Int}
    (h : s.call (.openResource id type mode) = .ok (s', some v)) :
    FailedOpenChangesNothing s id type mode ↔ (v < 0 → TablesUnchanged s s') := by
  constructor
  · exact fun hfailed => hfailed s' v h
  · intro hsame s'' v' h'
    obtain ⟨rfl, heq⟩ := Prod.mk.inj (Except.ok.inj (h.symm.trans h'))
    obtain rfl := Option.some.inj heq
    exact hsame

include hR hI hr

/-- An `openResource` that fails changes nothing if it is refused. If it is not, that depends on the
pool of the descriptors. -/
theorem Refines.failedOpen_iff : FailedOpenChangesNothing s id type mode ↔
    a.OpenRefused id.toInt type.toInt mode.toInt ∨ a.OpenStuck id.toInt type.toInt mode.toInt ∨
      if a.freeDescriptors = [] then a.PreparesNothing id.toInt mode.toInt
      else 0 ≤ a.lastFd r := by
  rcases hR.call_openResource hI hr id type mode with ⟨hstuck, f, hfault⟩ | ⟨s', a', hcalled⟩
  · refine iff_of_true (fun s' v hcall => ?_) (Or.inr (Or.inl hstuck))
    rw [hfault] at hcall
    cases hcall
  · rw [failedOpen_of_call (hcalled.returns rfl hr).1,
      hR.tablesUnchanged_iff hI hcalled.post hcalled.inv,
      ← sameTables_enter (r := r) (c := .openResource id type mode)]
    rcases hcalled.open_outcome with ⟨hrefused, v, -, rfl⟩ | ⟨res, a₁, hprep, hattach⟩
    · exact iff_of_true (fun _ => sameTables_answer _ r v) (Or.inl hrefused)
    · have hpass : ¬ a.OpenRefused id.toInt type.toInt mode.toInt := hprep.not_refused
      have hfree : ¬ a.OpenStuck id.toInt type.toInt mode.toInt := hprep.not_stuck
      rw [or_iff_right hpass, or_iff_right hfree]
      cases hattach with
      | noDescriptor hnil =>
          have hnil' : a.freeDescriptors = [] := hnil
          have hneg : (a₁.answer r dsosEResourceNoFd).syscallRetvalue r < 0 := by
            rw [answer_retvalue]
            decide
          have hsame := hprep.sameTables_iff
          rw [if_pos hnil']
          exact ⟨fun h => hsame.1 { h hneg with }, fun h _ => { hsame.2 h with }⟩
      | @opened d e ds es hd he =>
          have hne : ¬ a.freeDescriptors = [] := by
            rw [show a.freeDescriptors = d :: ds from hd]
            exact List.cons_ne_nil d ds
          have hret : (a₁.attach r res d e ds es).syscallRetvalue r = a.lastFd r := by
            rw [attach_retvalue, hprep.descriptors_eq.2]
            rfl
          have hnot : ¬ SameTables (a.enter r (.openResource id type mode))
              (a₁.attach r res d e ds es) := not_sameTables_attach hprep.descriptors_eq.1
          rw [if_neg hne, hret]
          constructor
          · exact fun h => Int.not_lt.1 fun hneg => hnot (h hneg)
          · exact fun h hneg => absurd hneg (Int.not_lt.2 h)

omit hR hI hr

/-- In a reachable state, an `openResource` of the running process that fails changes nothing if and
only if it fails a check or faults, or there is no free descriptor and the call has neither a
resource to create nor a process to register, or there is one and the next fd is not negative. -/
theorem failed_open_iff (h : Reachable s) (hr : s.running = some r) (id type mode : Int32) :
    FailedOpenChangesNothing s id type mode ↔
      s.OpenRefused id.toInt type.toInt mode.toInt ∨ s.OpenStuck id.toInt type.toInt mode.toInt ∨
        if s.descriptorAllocator.getBlock.1 = none then s.PreparesNothing id.toInt mode.toInt
        else 0 ≤ s.lastFd r := by
  obtain ⟨es, hrun⟩ := h
  obtain ⟨a, hR, hI⟩ := hrun.refines
  rw [hR.failedOpen_iff hI (hR.running_eq.symm.trans hr), hR.openRefused_iff hI,
    hR.openStuck_iff hI, hR.preparesNothing_iff hI]
  simp only [hR.freeDescriptors.getBlock_head, List.head?_eq_none_iff, hR.data]

/-- The queue has a writer already. -/
theorem failed_open_iff_taken : ∃ s : Kernel, FailedOpenChangesNothing s 1 1 3 ∧
    (s.call (.openResource 1 1 3)).toOption.map (·.2) = some (some dsosEResourceOpen) := by
  obtain ⟨es, s, hrun, hp⟩ := exists_of_executes
    [.syscall (.openResource 1 1 1), .syscall (.spawn 1 0), .syscall .preempt,
      .syscall (.openResource 1 1 3), .syscall .preempt]
    (fun _ s => s.running = some 0 ∧ s.resourceById 1 = some (.mq 0) ∧ s.writingPid 0 ≠ none ∧
      (s.call (.openResource 1 1 3)).toOption.map (·.2) = some (some dsosEResourceOpen))
    (by decide +kernel)
  obtain ⟨hr, hid, hwriter, hcall⟩ := of_decide_eq_true hp
  refine ⟨s, (failed_open_iff ⟨es, hrun⟩ hr 1 1 3).2 (Or.inl (Or.inr ⟨by decide, ?_⟩)), hcall⟩
  intro res hres _
  exact Or.inr ⟨0, Option.some.inj (hres.symm.trans hid), Or.inr ⟨by decide, hwriter⟩⟩

/-! ## Exhausted descriptors -/

/-- A reachable state with a standard resource, which has the id 1. -/
structure Hoarding (s : Kernel) (a : Model) (r : Addr) : Prop where
  reachable : Reachable s
  refines : Refines exceptZombies s a
  inv : a.Inv
  running : s.running = some r
  on : s.shutdownNow = false
  resource : ∃ b, a.resourceById 1 = some (.standard b)

/-- The process `r` has `k` descriptors more. -/
structure Hoards (a : Model) (r : Addr) (k : Nat) (a' : Model) : Prop where
  opened : (a'.descriptors r).length = (a.descriptors r).length + k
  others : ∀ p, p ≠ r → a'.descriptors p = a.descriptors p
  free : a'.freeDescriptors.length + k = a.freeDescriptors.length
  freeStandard : a'.freeStandard = a.freeStandard
  resources : ∀ id, a'.resourceById id = a.resourceById id
  procs : a'.procs = a.procs
  timerList : a'.timerList = a.timerList

/-- A process can open descriptors in two portions. -/
theorem Hoards.trans {k k' : Nat} {a'' : Model} (h : Hoards a r k a') (h' : Hoards a' r k' a'') :
    Hoards a r (k + k') a'' where
  opened := by rw [h'.opened, h.opened, Nat.add_assoc]
  others := fun p hp => (h'.others p hp).trans (h.others p hp)
  free := by rw [← h.free, ← h'.free]; omega
  freeStandard := h'.freeStandard.trans h.freeStandard
  resources := fun id => (h'.resources id).trans (h.resources id)
  procs := h'.procs.trans h.procs
  timerList := h'.timerList.trans h.timerList

/-- A standard resource is neither registered with nor exclusive. -/
theorem Hoarding.passes (h : Hoarding s a r) :
    ¬ a.OpenRefused (1 : Int32).toInt (0 : Int32).toInt (0 : Int32).toInt := by
  obtain ⟨b, hb⟩ := h.resource
  have htype : a.resourceType (.standard b) = standardResourceType :=
    h.inv.res.type _ (mem_of_resourceById hb).1
  rintro (⟨hmode, -⟩ | ⟨-, hno⟩)
  · exact absurd hmode (by decide)
  · rcases hno _ hb htype with ⟨hmode, -⟩ | ⟨q, heq, -⟩
    · exact absurd hmode (by decide)
    · cases heq

/-- A process that opens a resource that exists, without registering, is not stuck. -/
theorem Hoarding.not_stuck (h : Hoarding s a r) :
    ¬ a.OpenStuck (1 : Int32).toInt (0 : Int32).toInt (0 : Int32).toInt := by
  obtain ⟨b, hb⟩ := h.resource
  rintro (⟨hmode, -⟩ | ⟨-, -, res, hres, -, q, rfl, -⟩)
  · exact absurd hmode (by decide)
  · cases hb.symm.trans hres

/-- The process that runs opens the resource, if there is a free descriptor. -/
theorem Hoarding.openOnce (h : Hoarding s a r) (hfree : a.freeDescriptors ≠ []) :
    ∃ s' a', Hoarding s' a' r ∧ Hoards a r 1 a' := by
  have hr : a.running = some r := h.refines.running_eq.symm.trans h.running
  obtain ⟨b, hb⟩ := h.resource
  rcases h.refines.call_openResource h.inv hr 1 0 0 with ⟨hstuck, -⟩ | ⟨s', a', hcalled⟩
  · exact absurd hstuck h.not_stuck
  · have hcomplete := completes_of_call h.on hcalled.call
    have hrun := (hcalled.returns rfl hr).2
    have hon : s'.shutdownNow = false := by
      rw [hcalled.post.data, (hcalled.step.sameProcesses rfl).shutdownNow, ← h.on, h.refines.data]
      rfl
    rcases hcalled.open_outcome with ⟨hrefused, -⟩ | ⟨res, a₁, hprep, hattach⟩
    · exact absurd hrefused h.passes
    · cases hprep with
      | created hmode _ _ => exact absurd hmode (by decide)
      | existing _ hid _ _ hreg =>
          obtain rfl : res = .standard b := Option.some.inj (hid.symm.trans hb)
          cases hreg with
          | reading heq _ _ _ => cases heq
          | writing heq _ _ _ => cases heq
          | none _ =>
              cases hattach with
              | noDescriptor hnil => exact absurd hnil hfree
              | opened hd he =>
                  refine ⟨s', _, ⟨h.reachable.step hcomplete, hcalled.post, hcalled.inv, hrun, hon,
                    b, hb⟩, ?_, fun p hp => ?_, ?_, rfl, fun _ => rfl, rfl, rfl⟩
                  · simp [attach, enter]
                  · simp [attach, enter, hp]
                  · rw [show a.freeDescriptors = _ from hd]
                    rfl

/-- It opens the resource any number of times for which there are descriptors. -/
theorem Hoarding.openMany (h : Hoarding s a r) {k : Nat} (hk : k ≤ a.freeDescriptors.length) :
    ∃ s' a', Hoarding s' a' r ∧ Hoards a r k a' := by
  induction k generalizing s a with
  | zero => exact ⟨s, a, h, rfl, fun _ _ => rfl, rfl, rfl, fun _ => rfl, rfl, rfl⟩
  | succ k ih =>
      have hne : a.freeDescriptors ≠ [] := fun hnil => by
        rw [hnil, List.length_nil] at hk
        omega
      obtain ⟨s₁, a₁, h₁, hoards₁⟩ := h.openOnce hne
      have hlen := hoards₁.free
      obtain ⟨s', a', h', hoards'⟩ := ih h₁ (by omega)
      refine ⟨s', a', h', ?_⟩
      rw [Nat.add_comm]
      exact hoards₁.trans hoards'

/-- A process has all 1024 descriptors and creates another resource: the call fails, and the
resource stays. -/
theorem failed_open_creates : ∃ s : Kernel, Reachable s ∧ s.running = some 0 ∧
    ¬ FailedOpenChangesNothing s 2 0 1 := by
  obtain ⟨es, s, hrun, hp⟩ := exists_of_executes [.syscall (.openResource 1 0 1)]
    (fun _ s => s.running = some 0 ∧ s.shutdownNow = false ∧
      s.resourceById 1 = some (.standard 0) ∧ s.resourceById 2 = none ∧
      s.standardResourcesAllocator.getBlock.1 ≠ none) (by decide +kernel)
  obtain ⟨hr, hon, hid, hnone, hblock⟩ := of_decide_eq_true hp
  obtain ⟨a, hR, hI⟩ := hrun.refines
  rw [hR.resourceById_eq hI.res] at hid hnone
  rw [hR.standard.getBlock_head, ne_eq, List.head?_eq_none_iff] at hblock
  have hhoarding : Hoarding s a 0 := ⟨⟨es, hrun⟩, hR, hI, hr, hon, 0, hid⟩
  obtain ⟨s', a', h', hhoards⟩ := hhoarding.openMany (Nat.le_refl _)
  have hnil : a'.freeDescriptors = [] := by
    have hlen := hhoards.free
    exact List.length_eq_zero_iff.1 (by omega)
  refine ⟨s', h'.reachable, h'.running, fun hfailed => ?_⟩
  rw [h'.refines.failedOpen_iff h'.inv (h'.refines.running_eq.symm.trans h'.running),
    if_pos hnil] at hfailed
  rcases hfailed with (⟨-, htaken⟩ | ⟨hmode, -⟩) | (⟨-, -, hadd⟩ | ⟨hmode, -⟩) | ⟨hmode, -⟩
  · exact htaken ((hhoards.resources _).trans hnone)
  · exact hmode rfl
  · exact hadd (Or.inl ⟨rfl, by rwa [hhoards.freeStandard]⟩)
  · exact hmode rfl
  · exact hmode rfl

/-! ## Opens that do not return -/

/-- In a reachable state, an `openResource` of the running process returns to it unless it passes
the checks and then needs a block that its pool does not have, or a pool that does not exist. -/
theorem open_returns_iff (h : Reachable s) (hr : s.running = some r) (id type mode : Int32) :
    OpenReturns s r id type mode ↔ ¬ s.OpenStuck id.toInt type.toInt mode.toInt := by
  obtain ⟨es, hrun⟩ := h
  obtain ⟨a, hR, hI⟩ := hrun.refines
  have hr' : a.running = some r := hR.running_eq.symm.trans hr
  rw [hR.openStuck_iff hI]
  rcases hR.call_openResource hI hr' id type mode with ⟨hstuck, f, hfault⟩ | ⟨s', a', hcalled⟩
  · refine iff_of_false ?_ (not_not_intro hstuck)
    rintro ⟨s', v, hcall, -⟩
    rw [hfault] at hcall
    cases hcall
  · obtain ⟨hcall, hrun'⟩ := hcalled.returns rfl hr'
    rcases hcalled.open_outcome with ⟨hrefused, v, hv, rfl⟩ | ⟨res, a₁, hprep, hattach⟩
    · refine iff_of_true ⟨s', _, hcall, hrun', Or.inr ?_⟩ hrefused.not_stuck
      rwa [answer_retvalue]
    · have hfree : ¬ a.OpenStuck id.toInt type.toInt mode.toInt := hprep.not_stuck
      refine iff_of_true ⟨s', _, hcall, hrun', ?_⟩ hfree
      cases hattach with
      | noDescriptor _ =>
          right
          rw [answer_retvalue]
          simp [openErrors]
      | opened _ _ =>
          left
          rw [attach_retvalue, hprep.descriptors_eq.2, hR.data]
          rfl

/-- A queue is opened for writing. -/
theorem open_returns_iff_writer : ∃ s : Kernel, s.resourceById 1 = some (.mq 0) ∧
    OpenReturns s 0 1 1 3 := by
  obtain ⟨es, s, hrun, hp⟩ := exists_of_executes [.syscall (.openResource 1 1 1)]
    (fun _ s => s.running = some 0 ∧ s.resourceById 1 = some (.mq 0) ∧
      s.pcbPtrAllocator.getBlock.1 ≠ none) (by decide +kernel)
  obtain ⟨hr, hid, hblock⟩ := of_decide_eq_true hp
  refine ⟨s, hid, (open_returns_iff ⟨es, hrun⟩ hr 1 1 3).2 ?_⟩
  rintro (⟨hmode, -⟩ | ⟨-, hnone, -⟩)
  · exact absurd hmode (by decide)
  · exact hblock hnone

/-- The type 5 has no entry in the table of the allocation functions. -/
theorem open_unknown_type : ∃ s : Kernel, Reachable s ∧ s.running = some 0 ∧
    ¬ OpenReturns s 0 1 5 1 := by
  obtain ⟨es, s, hrun, hp⟩ := exists_of_executes []
    (fun _ s => s.running = some 0 ∧ (s.call (.openResource 1 5 1)).toOption.isNone)
    (by decide +kernel)
  obtain ⟨hr, hfault⟩ := of_decide_eq_true hp
  refine ⟨s, ⟨es, hrun⟩, hr, ?_⟩
  rintro ⟨s', v, hcall, -⟩
  rw [hcall] at hfault
  cases hfault

end DisastrOS
