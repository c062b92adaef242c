import DisastrOS.Abstract.PcbPtrs
import DisastrOS.Properties.ProcessTable
import DisastrOS.Properties.Registrations
import Mathlib.Algebra.GroupWithZero.Nat

/-!
# Conservation of PCB pointers

The blocks of the pool of PCB pointers that are handed out are the entries of the children lists and
of the registrations. Three operations lose a block: an exit that wakes the parent, a
`closeResource` in the mode of a registration that is set, and a `destroyResource` of a queue with a
registration.
-/

set_option autoImplicit false

namespace DisastrOS

open Runs Model

variable {counted : ProcList → Prop} {es : List (Event Kernel Action)} {s : Kernel}
  {e : Event Kernel Action} {a a' : Model} {k q : Addr}

namespace Kernel

/-- The PCBs that are not freed. -/
def pcbsOut (s : Kernel) : List Addr :=
  (allBlocks maxNumProcesses sizeofPCB).filter s.pcbAllocator.handedOut

/-- The PCB pointers that are handed out. -/
def pcbPtrsOut (s : Kernel) : List Addr :=
  (allBlocks maxNumProcesses sizeofPCBPtr).filter s.pcbPtrAllocator.handedOut

/-- The total length of the children lists. -/
def childCount (s : Kernel) : Nat := (s.pcbsOut.map fun p => (s.childrenOf p).length).sum

/-- The number of registrations that are set. -/
def registrationCount (s : Kernel) : Nat :=
  (s.resources.map fun r => (s.registrationsOf r).length).sum

end Kernel

/-- The PCB pointers that are handed out are as many as children and registrations, and the pool is
empty only if these are as many as its blocks. -/
structure PtrsConserved (s : Kernel) : Prop where
  count : s.pcbPtrsOut.length = s.childCount + s.registrationCount
  exhausted : s.pcbPtrAllocator.getBlock.1 = none →
    s.childCount + s.registrationCount = maxNumProcesses

/-- The event loses no PCB pointer: nobody who exits is awaited, no `closeResource` drops a
registration, and no queue with a registration is destroyed. -/
def PtrCondition (e : Event Kernel Action) : Prop :=
  match e.act with
  | .syscall (.exit _) => ∀ r ∈ e.pre.running, ¬ e.pre.parentAwaits r
  | .syscall (.closeResource fd mode) => ∀ r ∈ e.pre.running, ∀ q ∈ e.pre.queueByFd r fd.toInt,
      e.pre.registration q mode.toInt = none
  | .syscall (.destroyResource id) => ∀ q ∈ e.pre.queueById id.toInt,
      e.pre.descriptorsPtrsOf (.mq q) = [] → e.pre.registrationsOf (.mq q) = []
  | _ => True

/-- `PtrCondition` as a test. -/
def ptrTest (e : Event Kernel Action) : Bool :=
  match e.act with
  | .syscall (.exit _) => decide (∀ r ∈ e.pre.running, ¬ e.pre.parentAwaits r)
  | .syscall (.closeResource fd mode) => decide (∀ r ∈ e.pre.running,
      ∀ q ∈ e.pre.queueByFd r fd.toInt, e.pre.registration q mode.toInt = none)
  | .syscall (.destroyResource id) => decide (∀ q ∈ e.pre.queueById id.toInt,
      e.pre.descriptorsPtrsOf (.mq q) = [] → e.pre.registrationsOf (.mq q) = [])
  | _ => true

theorem PtrCondition.of_test (h : ptrTest e = true) : PtrCondition e := by
  unfold PtrCondition
  split
  · rename_i hact
    simpa only [ptrTest, hact, decide_eq_true_eq] using h
  · rename_i hact
    simpa only [ptrTest, hact, decide_eq_true_eq] using h
  · rename_i hact
    simpa only [ptrTest, hact, decide_eq_true_eq] using h
  · trivial

/-! ## The entries -/

/-- All entries that are referred to: those of the children, then those of the registrations. -/
def Kernel.references (s : Kernel) : List Addr :=
  s.pcbsOut.flatMap s.childrenOf ++ s.resources.flatMap s.registrationsOf

/-- There are as many references as children and registrations. -/
theorem Kernel.references_length (s : Kernel) :
    s.references.length = s.childCount + s.registrationCount := by
  simp only [references, List.length_append, List.length_flatMap, childCount, registrationCount]

/-- The entries handed out are those that are not free. -/
theorem Refines.mem_pcbPtrsOut (hR : Refines counted s a) :
    k ∈ s.pcbPtrsOut ↔ IsBlock maxNumProcesses sizeofPCBPtr k ∧ k ∉ a.freePcbPtrs := by
  rw [Kernel.pcbPtrsOut, List.mem_filter, hR.pcbPtrs.handedOut_iff, mem_allBlocks]
  tauto

theorem Refines.mem_pcbsOut (hR : Refines counted s a) (hP : a.ProcInv) {x : Addr} :
    x ∈ s.pcbsOut ↔ a.Used x := by
  rw [Kernel.pcbsOut, List.mem_filter, hR.handedOut_iff_used hP, mem_allBlocks]
  exact and_iff_right_of_imp fun hx => (hP.used_iff.1 hx).1

/-- The kernel refers to the entries to which the abstract state refers. -/
theorem Refines.mem_references (hR : Refines counted s a) (hI : a.Inv) :
    k ∈ s.references ↔ a.Referred k := by
  simp only [Kernel.references, List.mem_append, List.mem_flatMap, hR.mem_pcbsOut hI.proc,
    hR.childrenOf_eq hI.kid, hR.resources_eq hI.res, hR.data, Referred]
  refine or_congr Iff.rfl ⟨?_, ?_⟩
  · rintro ⟨res, hres, hk⟩
    cases res with
    | standard b => cases hk
    | mq q =>
        obtain ⟨mode, hk⟩ := Resources.mem_registrationsOf.1 hk
        exact ⟨q, mode, hres, hk⟩
  · rintro ⟨q, mode, hq, hk⟩
    exact ⟨.mq q, hq, Resources.mem_registrationsOf.2 ⟨mode, hk⟩⟩

/-- No entry is referred to twice. -/
theorem Refines.references_nodup (hR : Refines counted s a) (hI : a.Inv) (hG : a.RegInv) :
    s.references.Nodup := by
  have hD := hR.distinct hI.msg
  rw [Kernel.references, List.nodup_append]
  refine ⟨?_, ?_, ?_⟩
  · rw [List.nodup_flatMap]
    constructor
    · intro p _
      rw [hR.childrenOf_eq hI.kid]
      exact hD.children.nodup' p
    · have hnd : s.pcbsOut.Nodup := (allBlocks_nodup (by decide)).filter _
      refine hnd.imp fun {p p'} hne k hk hk' => ?_
      rw [hR.childrenOf_eq hI.kid] at hk hk'
      exact hne (hD.children.eq hk hk')
  · rw [List.nodup_flatMap, hR.resources_eq hI.res, hR.data]
    constructor
    · intro res _
      cases res with
      | standard b => exact List.nodup_nil
      | mq q =>
          rw [Resources.registrationsOf, List.nodup_append]
          refine ⟨Option.toList_nodup _, Option.toList_nodup _, fun k hk k' hk' heq => ?_⟩
          subst heq
          rw [Option.mem_toList] at hk hk'
          exact absurd (hG.own q q dsosRead dsosWrite k hk hk').2 (by decide)
    · refine hD.resourcesList.imp fun {res res'} hne k hk hk' => ?_
      cases res with
      | standard b => cases hk
      | mq q =>
          cases res' with
          | standard b => cases hk'
          | mq q' =>
              obtain ⟨mode, hk⟩ := Resources.mem_registrationsOf.1 hk
              obtain ⟨mode', hk'⟩ := Resources.mem_registrationsOf.1 hk'
              exact hne (congrArg _ (hG.own q q' mode mode' k hk hk').1)
  -- a registration has an entry that is on no list of children
  · intro k hk k' hk' heq
    subst heq
    obtain ⟨p, -, hk⟩ := List.mem_flatMap.1 hk
    obtain ⟨res, -, hk'⟩ := List.mem_flatMap.1 hk'
    rw [hR.childrenOf_eq hI.kid] at hk
    rw [hR.data] at hk'
    cases res with
    | standard b => cases hk'
    | mq q =>
        obtain ⟨mode, hk'⟩ := Resources.mem_registrationsOf.1 hk'
        exact (hG.entry q mode k hk').unlisted p hk

/-- No entry is lost if and only if each of those in use is referred to. -/
theorem Refines.ptrsConserved_iff (hR : Refines counted s a) (hI : a.Inv) (hG : a.RegInv) :
    PtrsConserved s ↔ a.AllReferred := by
  have hnd : s.pcbPtrsOut.Nodup := (allBlocks_nodup (by decide)).filter _
  have hnd' := hR.references_nodup hI hG
  have hsub : s.references ⊆ s.pcbPtrsOut := by
    intro k hk
    rw [hR.mem_pcbPtrsOut]
    rcases (hR.mem_references hI).1 hk with ⟨p, -, hk⟩ | ⟨q, mode, -, hk⟩
    · exact hI.kid.used p k hk
    · exact ⟨hG.block q mode k hk, (hG.entry q mode k hk).used⟩
  constructor
  · intro h k hk hout
    -- as many blocks as references, and every reference is a block that is out
    have hle : s.pcbPtrsOut.length ≤ s.references.length := by
      rw [h.count, s.references_length]
    have hperm := (List.subperm_of_subset hnd' hsub).perm_of_length_le hle
    exact (hR.mem_references hI).1 (hperm.mem_iff.2 (hR.mem_pcbPtrsOut.2 ⟨hk, hout⟩))
  · intro hA
    have hperm : s.pcbPtrsOut.Perm s.references := by
      refine (List.perm_ext_iff_of_nodup hnd hnd').2 fun k => ⟨fun hk => ?_, fun hk => hsub hk⟩
      obtain ⟨hk, hout⟩ := hR.mem_pcbPtrsOut.1 hk
      exact (hR.mem_references hI).2 (hA k hk hout)
    have hcount : s.pcbPtrsOut.length = s.childCount + s.registrationCount := by
      rw [← s.references_length]
      exact hperm.length_eq
    refine ⟨hcount, fun hnone => ?_⟩
    rw [hR.pcbPtrs.getBlock_head, List.head?_eq_none_iff] at hnone
    have hall : s.pcbPtrsOut.Perm (allBlocks maxNumProcesses sizeofPCBPtr) := by
      apply (List.perm_ext_iff_of_nodup hnd (allBlocks_nodup (by decide))).2
      intro k
      rw [hR.mem_pcbPtrsOut, hnone, mem_allBlocks]
      simp
    rw [← hcount]
    simpa using hall.length_eq

/-! ## Runs -/

theorem Simulated.ptrCondition_iff (h : Simulated counted e a a') :
    PtrCondition e ↔ a.KeepsReferred e.act := by
  rw [PtrCondition]
  cases e.act with
  | tick => exact iff_of_true trivial trivial
  | store _ _ => exact iff_of_true trivial trivial
  | syscall c =>
      cases c with
      | exit _ => simp only [KeepsReferred, h.pre.data]
      | closeResource fd mode =>
          simp only [KeepsReferred, h.pre.queueByFd_eq h.inv.desc, h.pre.data]
      | destroyResource id =>
          simp only [KeepsReferred, h.pre.queueById_eq h.inv.res,
            h.pre.descriptorsPtrsOf_eq h.inv.desc, h.pre.data, Resources.registrationsOf_eq_nil]
      | _ => exact iff_of_true trivial trivial

theorem Model.start_regInv (chars : Int → UInt8) (ints : Int → Int) :
    (Model.start chars ints).RegInv := by
  constructor
  · intro q mode k hk
    rw [start_registration] at hk
    cases hk
  · intro q mode k hk
    rw [start_registration] at hk
    cases hk
  · intro q q' mode mode' k hk
    rw [start_registration] at hk
    cases hk

theorem Model.start_allReferred (chars : Int → UInt8) (ints : Int → Int) :
    (Model.start chars ints).AllReferred :=
  fun _ hk hout => absurd (mem_allBlocks.2 hk) hout

/-- Registrations have entries of their own in every run. -/
theorem SystemRun.regInv (h : SystemRun es s) :
    ∃ a, Refines exceptZombies s a ∧ a.Inv ∧ a.RegInv :=
  h.invariant_of_step (J := fun _ a => a.RegInv) start_regInv fun _ _ _ _ _ hG hsim =>
    hsim.step.regInv hG hsim.inv hsim.distinct

/-- The families are complete in a run that loses no entry. -/
theorem SystemRun.famInv (h : SystemRun es s) (hsafe : ∀ e ∈ es, PtrCondition e) :
    ∃ a, Refines exceptZombies s a ∧ a.Inv ∧ a.FamInv ∧ a.RegInv :=
  h.invariant (J := fun _ a => a.FamInv ∧ a.RegInv) (P := fun _ e => PtrCondition e)
    (fun fs e gs heq => hsafe e (by simp [heq]))
    (fun chars ints => ⟨(start_families chars ints).lists, start_regInv chars ints⟩)
    (fun _ _ _ _ hc => absurd rfl hc)
    fun _ _ _ _ _ ⟨hF, hG⟩ hsim hsafe =>
      ⟨hsim.step.famInv_of_keepsReferred hF hsim.inv hsim.inv' (hsim.ptrCondition_iff.1 hsafe),
        hsim.step.regInv hG hsim.inv hsim.distinct⟩

/-- In all states of a run the PCB pointers are conserved if and only if no event of the run loses
one. -/
theorem pcb_ptrs_conserved_iff (h : SystemRun es s) :
    (PtrsConserved s ∧ ∀ e ∈ es, PtrsConserved e.pre ∧ PtrsConserved e.post) ↔
      ∀ e ∈ es, PtrCondition e := by
  refine h.all_iff (fun s₀ chars ints hR => ?_) fun es e hpre hsafe hstep hgood => ?_
  · exact (hR.ptrsConserved_iff (start_inv chars ints) (start_regInv chars ints)).2
      (start_allReferred chars ints)
  · obtain ⟨a, hR, hI, hF, hG⟩ := hpre.famInv hsafe
    obtain ⟨a', hsim⟩ := hR.simulated hI hstep
    have hG' := hsim.step.regInv hG hI hsim.distinct
    rw [hR.ptrsConserved_iff hI hG] at hgood
    rw [hsim.post.ptrsConserved_iff hsim.inv' hG', hsim.ptrCondition_iff]
    exact hsim.step.allReferred_iff hgood hF hG hI hsim.inv' hsim.distinct

/-- A queue is open for writing, and one of two children has been collected. -/
theorem pcb_ptrs_conserved_iff_two : ∃ (es : List (Event Kernel Action)) (s : Kernel),
    (es.length = 7 ∧ s.childrenOf 0 = [24] ∧ s.registrationsOf (.mq 0) = [0]) ∧ PtrsConserved s ∧
      ∀ e ∈ es, PtrsConserved e.pre ∧ PtrsConserved e.post := by
  obtain ⟨es, s, hrun, hp⟩ := exists_of_executes
    [.syscall (.openResource 1 1 1), .syscall (.openResource 1 1 3), .syscall (.spawn 1 0),
      .syscall .preempt, .syscall (.exit 0), .syscall (.wait 0 0), .syscall (.spawn 1 0)]
    (fun es s => (∀ e ∈ es, ptrTest e) ∧ es.length = 7 ∧ s.childrenOf 0 = [24] ∧
      s.registrationsOf (.mq 0) = [0]) (by decide +kernel)
  obtain ⟨hsafe, hrest⟩ := of_decide_eq_true hp
  exact ⟨es, s, hrest, (pcb_ptrs_conserved_iff hrun).2 fun e he => .of_test (hsafe e he)⟩

/-- A queue is opened for writing and closed again, and its entry is lost. -/
theorem pcb_ptrs_leak : ∃ (es : List (Event Kernel Action)) (s : Kernel), SystemRun es s ∧
    s.pcbPtrAllocator.handedOut 0 ∧ s.childrenOf 0 = [] ∧ s.registrationsOf (.mq 0) = [] ∧
      ¬ PtrsConserved s := by
  obtain ⟨es, s, hrun, hp⟩ := exists_of_executes
    [.syscall (.openResource 1 1 1), .syscall (.openResource 1 1 3), .syscall (.closeResource 1 3)]
    (fun _ s => s.pcbPtrAllocator.handedOut 0 ∧ s.childrenOf 0 = [] ∧
      s.registrationsOf (.mq 0) = [] ∧ s.resources = [.mq 0] ∧ s.running = some 0 ∧
      s.processes .ready = [] ∧ s.processes .waiting = [] ∧ s.processes .zombie = [])
    (by decide +kernel)
  obtain ⟨hout, hchild, hreg, hres, hr, hready, hwaiting, hzombie⟩ := of_decide_eq_true hp
  refine ⟨es, s, hrun, hout, hchild, hreg, fun h => ?_⟩
  obtain ⟨a, hR, hI, hG⟩ := hrun.regInv
  obtain ⟨hblock, hfree⟩ := hR.pcbPtrs.handedOut_iff.1 hout
  rw [hR.processes_eq hI.proc] at hready hwaiting hzombie
  rw [hR.resources_eq hI.res] at hres
  rw [hR.data] at hreg
  rw [hR.childrenOf_eq hI.kid] at hchild
  rcases (hR.ptrsConserved_iff hI hG).1 h 0 hblock hfree with ⟨x, hx, hk⟩ | ⟨q, mode, hq, hk⟩
  · obtain rfl : x = 0 := by
      rw [Model.Used, hready, hwaiting, hzombie, ← hR.running_eq, hr] at hx
      simpa [eq_comm] using hx
    rw [hchild] at hk
    cases hk
  · obtain rfl : q = 0 := by
      rw [hres, List.mem_singleton] at hq
      exact ResourceRef.mq.inj hq
    rw [Resources.registrationsOf_eq_nil.1 hreg mode] at hk
    cases hk

end DisastrOS
