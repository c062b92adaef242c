import DisastrOS.Abstract.Invariants
import Mathlib.Data.List.Perm.Subperm

/-!
# Kernel states and abstract states

`Refines counted c a` says that the kernel state `c` stores the abstract state `a`: the contents of
the blocks are the same, every linked list is well formed and holds the nodes of its sequence, and
every allocator tracks its sequence of free blocks. `counted` tells for which lists of processes the
`size` field is claimed to be right; all other `size` fields are.

The lemmas of this module are about the kernel objects: each says what one allocation, release or
lookup does to a state that stores an abstract state.
-/

set_option autoImplicit false

namespace DisastrOS

open LinkedSequence LinkedSequence.ListHeap

/-- The kernel state `c` stores the abstract state `a`. -/
structure Refines (counted : ProcList → Prop) (c : Kernel) (a : Model) : Prop where
  data : c.toData = a.toData
  procs : c.procs.WellFormed (fun _ => True) counted a.procs
  tidy : c.procs.Tidy (fun _ => True) a.procs
  children : c.children.WellFormed (fun _ => True) (fun _ => True) a.children
  timerList : c.timerList.WellFormed (fun _ => True) (fun _ => True) (fun _ => a.timerList)
  resourcesList : c.resourcesList.WellFormed (fun _ => True) (fun _ => True)
    (fun _ => a.resourcesList)
  descriptors : c.descriptors.WellFormed (fun _ => True) (fun _ => True) a.descriptors
  descriptorsPtrs : c.descriptorsPtrs.WellFormed (fun _ => True) (fun _ => True)
    a.descriptorsPtrs
  msgs : c.msgs.WellFormed (fun q => .mq q ∈ a.resourcesList) (fun q => .mq q ∈ a.resourcesList)
    a.msgs
  pcbs : Tracks c.pcbAllocator maxNumProcesses sizeofPCB a.freePcbs
  pcbPtrs : Tracks c.pcbPtrAllocator maxNumProcesses sizeofPCBPtr a.freePcbPtrs
  timers : Tracks c.timerItemAllocator maxNumProcesses sizeofTimerItem a.freeTimers
  standard : Tracks c.standardResourcesAllocator maxNumResources sizeofStandardResource
    a.freeStandard
  mqs : Tracks c.mqAllocator maxNumResources sizeofMessageQueue a.freeMqs
  ms : Tracks c.mAllocator maxNumResources sizeofMessage a.freeMs
  freeDescriptors : Tracks c.descriptorAllocator maxNumProcesses sizeofDescriptor
    a.freeDescriptors
  freeDescriptorPtrs : Tracks c.descriptorPtrAllocator maxNumProcesses sizeofDescriptorPtr
    a.freeDescriptorPtrs

variable {counted : ProcList → Prop} {c : Kernel} {a : Model}

theorem Tracks.freeOf {p : PoolAllocator} {n : Nat} {size : Int} {free : List Addr}
    (h : Tracks p n size free) : Model.FreeOf n size free :=
  ⟨h.nodup, fun _ hx => h.isBlock hx⟩

/-! ## Lists -/

theorem Refines.distinct (h : Refines counted c a) (hm : a.MsgInv) : a.Distinct where
  procs := h.procs.separate
  children := h.children.separate
  timerList := h.timerList.separate.nodup () trivial
  resourcesList := h.resourcesList.separate.nodup () trivial
  descriptors := h.descriptors.separate
  descriptorsPtrs := h.descriptorsPtrs.separate
  freePcbPtrs := h.pcbPtrs.freeOf
  freeMs := h.ms.freeOf
  freeDescriptors := h.freeDescriptors.freeOf
  freeDescriptorPtrs := h.freeDescriptorPtrs.freeOf
  msgs := by
    have hlive : ∀ q x, x ∈ a.msgs q → ResourceRef.mq q ∈ a.resourcesList := by
      intro q x hx
      by_contra hq
      rw [hm.dead q hq] at hx
      exact absurd hx List.not_mem_nil
    constructor
    · intro q _
      by_cases hq : ResourceRef.mq q ∈ a.resourcesList
      · exact h.msgs.separate.nodup q hq
      · rw [hm.dead q hq]
        exact List.nodup_nil
    · intro q q' _ _ x hx hx'
      exact h.msgs.separate.disjoint q q' (hlive q x hx) (hlive q' x hx') x hx hx'

/-- Replacing the sequence of a single list. -/
@[simp] theorem update_single {ν : Type} (xs ys : List ν) :
    Function.update (fun _ : Unit => xs) () ys = fun _ => ys :=
  funext fun _ => Function.update_self ..

theorem unlisted_single {ν : Type} {xs : List ν} {x : ν} (hx : x ∉ xs) :
    Unlisted (fun _ : Unit => True) (fun _ => xs) x := fun _ _ => hx

/-- A free entry is in no list of children. -/
theorem Model.KidInv.free_unlisted {e : Addr} {es : List Addr} (hK : a.KidInv)
    (he : a.freePcbPtrs = e :: es) : Unlisted (fun _ => True) a.children e := fun q _ hmem =>
  (hK.used q e hmem).2 (by rw [he]; exact List.mem_cons_self)

/-- Answering a syscall. -/
theorem Refines.setRetvalue (hR : Refines counted c a) (p : Addr) (v : Int) :
    Refines counted (c.setRetvalue p v) (a.answer p v) := by
  have hdata := hR.data
  obtain ⟨d, sq, fb⟩ := a
  obtain rfl := hdata
  exact { hR with data := rfl }

end DisastrOS
