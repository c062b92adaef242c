import DisastrOS.Refinement.System

/-!
# The initial state

`disastrOSStart` always succeeds, and its result stores the abstract state `Model.start`, in which
the process `init` runs alone.
-/

set_option autoImplicit false

namespace DisastrOS

open LinkedSequence LinkedSequence.ListHeap Model

/-- The initial state of the abstract system. -/
def Model.start (chars : Int → UInt8) (ints : Int → Int) : Model :=
  { (Kernel.zeroed chars ints).toData with
    pid := Function.update (fun _ => 0) 0 0
    returnValue := Function.update (fun _ => 0) 0 0
    status := Function.update (Function.update (fun _ => .created) 0 .invalid) 0 .running
    signals := Function.update (fun _ => 0) 0 0
    signalsMask := Function.update (fun _ => 0) 0 0xFFFFFFFF
    parent := Function.update (fun _ => none) 0 none
    timer := Function.update (fun _ => none) 0 none
    lastFd := Function.update (fun _ => 0) 0 0
    lastPid := 1
    initPcb := some 0
    running := some 0
    procs := fun _ => []
    children := Function.update (fun _ => []) 0 []
    timerList := []
    resourcesList := []
    descriptors := Function.update (fun _ => []) 0 []
    descriptorsPtrs := fun _ => []
    msgs := fun _ => []
    freePcbs := (allBlocks maxNumProcesses sizeofPCB).tail
    freePcbPtrs := allBlocks maxNumProcesses sizeofPCBPtr
    freeTimers := allBlocks maxNumProcesses sizeofTimerItem
    freeStandard := allBlocks maxNumResources sizeofStandardResource
    freeMqs := allBlocks maxNumResources sizeofMessageQueue
    freeMs := allBlocks maxNumResources sizeofMessage
    freeDescriptors := allBlocks maxNumProcesses sizeofDescriptor
    freeDescriptorPtrs := allBlocks maxNumProcesses sizeofDescriptorPtr }

@[simp] theorem Model.start_children (chars : Int → UInt8) (ints : Int → Int) (p : Addr) :
    (Model.start chars ints).children p = [] := by
  simp only [Model.start, Function.update_apply, ite_self]

@[simp] theorem Model.start_descriptors (chars : Int → UInt8) (ints : Int → Int) (p : Addr) :
    (Model.start chars ints).descriptors p = [] := by
  simp only [Model.start, Function.update_apply, ite_self]

@[simp] theorem Model.start_descriptorsPtrs (chars : Int → UInt8) (ints : Int → Int)
    (res : ResourceRef) : (Model.start chars ints).descriptorsPtrs res = [] := rfl

/-- At the start there is no process but `init`. -/
theorem Model.start_used {chars : Int → UInt8} {ints : Int → Int} {x : Addr}
    (hx : (Model.start chars ints).Used x) : x = 0 := by
  rcases hx with hx | hx | hx | hx
  · exact (Option.some.inj hx).symm
  · cases hx
  · cases hx
  · cases hx

theorem initPool_tracks (a : PoolAllocator) (size : Int) (n blocks : Nat) (hn : 0 < n)
    (hsize : 0 < size) (hfit : wrapInt (n * (size + 4)) ≤ blocks * (size + 4)) :
    ∃ p, Kernel.initPool a size n blocks = .ok p ∧ Tracks p n size (allBlocks n size) := by
  obtain ⟨p, hinit, htracks⟩ := init_tracks a hn hsize hfit
  exact ⟨p, by rw [Kernel.initPool, hinit], htracks⟩

theorem allBlocks_succ (n : Nat) (size : Int) :
    allBlocks (n + 1) size = 0 :: (allBlocks (n + 1) size).tail := by
  simp [allBlocks, List.range_succ_eq_map]

/-- Zero-initialised lists are empty. -/
theorem zeroHeap_wellFormed {ν ι : Type} (live counted : ι → Prop) :
    (Kernel.zeroHeap : ListHeap ν ι).WellFormed live counted fun _ => [] where
  represents := fun _ _ => ⟨rfl, rfl, trivial, List.nodup_nil⟩
  disjoint := fun _ _ _ _ _ hx => absurd hx List.not_mem_nil
  count := fun _ _ => rfl

/-- `disastrOS_start` succeeds and stores the initial abstract state. -/
theorem disastrOSStart_refines (counted : ProcList → Prop) (chars : Int → UInt8)
    (ints : Int → Int) :
    ∃ s, Kernel.disastrOSStart chars ints = .ok s ∧ Refines counted s (Model.start chars ints) := by
  obtain ⟨p₁, h₁, t₁⟩ := initPool_tracks .zero sizeofPCB maxNumProcesses maxNumProcesses
    (by decide) (by decide) (by decide)
  obtain ⟨p₂, h₂, t₂⟩ := initPool_tracks .zero sizeofPCBPtr maxNumProcesses maxNumProcesses
    (by decide) (by decide) (by decide)
  obtain ⟨p₃, h₃, t₃⟩ := initPool_tracks .zero sizeofTimerItem maxNumProcesses maxNumProcesses
    (by decide) (by decide) (by decide)
  obtain ⟨p₄, h₄, t₄⟩ := initPool_tracks .zero sizeofDescriptor maxNumProcesses
    (maxNumDescriptorsPerProcess * maxNumProcesses) (by decide) (by decide) (by decide)
  obtain ⟨p₅, h₅, t₅⟩ := initPool_tracks .zero sizeofDescriptorPtr maxNumProcesses
    (maxNumDescriptorsPerProcess * maxNumProcesses) (by decide) (by decide) (by decide)
  obtain ⟨p₆, h₆, t₆⟩ := initPool_tracks .zero sizeofMessageQueue maxNumResources maxNumResources
    (by decide) (by decide) (by decide)
  obtain ⟨p₇, h₇, t₇⟩ := initPool_tracks .zero sizeofMessage maxNumResources
    (mForMq.toNat * maxNumResources) (by decide) (by decide) (by decide)
  obtain ⟨p₈, h₈, t₈⟩ := initPool_tracks .zero sizeofStandardResource maxNumResources
    maxNumResources (by decide) (by decide) (by decide)
  have hcons : allBlocks maxNumProcesses sizeofPCB =
      0 :: (allBlocks maxNumProcesses sizeofPCB).tail := allBlocks_succ 1023 sizeofPCB
  rw [hcons] at t₁
  obtain ⟨p₁', hblock, t₁'⟩ := t₁.getBlock_cons
  simp only [Kernel.disastrOSStart, Kernel.initPools, Kernel.zeroed, h₁, h₂, h₃, h₄, h₅, h₆, h₇,
    h₈, ok_bind, pure_eq_ok, Kernel.pcbAlloc, hblock, deref_some, Except.ok.injEq]
  -- setting the head of an empty list again changes nothing
  have hall {ν ι : Type} [DecidableEq ι] {h : ListHeap ν ι} {live counted : ι → Prop}
      (i : ι) (hW : h.WellFormed live counted fun _ => []) :
      (h.initHead i).WellFormed live counted fun _ => [] := by
    have hinit := hW.initHead i (fun _ => Or.inr) fun _ => Or.inr
    rwa [Function.update_eq_self i (fun _ => [])] at hinit
  have hprocs := hall ProcList.zombie (hall .waiting (hall .ready
    (zeroHeap_wellFormed (ν := Addr) (fun _ => True) counted)))
  exact ⟨_, rfl, {
    data := rfl
    procs := hprocs.clearItem fun _ _ => List.not_mem_nil
    tidy := fun x _ => by simp [clearItem, initHead, Unlinked, Kernel.zeroHeap]
    children := (zeroHeap_wellFormed ..).initHead 0 (fun _ => Or.inr) fun _ => Or.inr
    timerList := hall () (zeroHeap_wellFormed ..)
    resourcesList := hall () (zeroHeap_wellFormed ..)
    descriptors := (zeroHeap_wellFormed ..).initHead 0 (fun _ => Or.inr) fun _ => Or.inr
    descriptorsPtrs := zeroHeap_wellFormed ..
    msgs := zeroHeap_wellFormed ..
    pcbs := t₁'
    pcbPtrs := t₂
    timers := t₃
    standard := t₈
    mqs := t₆
    ms := t₇
    freeDescriptors := t₄
    freeDescriptorPtrs := t₅ }⟩

/-- The invariants hold initially. -/
theorem Model.start_inv (chars : Int → UInt8) (ints : Int → Int) : (Model.start chars ints).Inv where
  proc := by
    refine ⟨?_, ?_, ?_, ?_, ?_, ?_, 0, rfl, rfl, Or.inl rfl⟩
    · have hcons : allBlocks maxNumProcesses sizeofPCB = _ := allBlocks_succ 1023 sizeofPCB
      exact List.Perm.of_eq hcons.symm
    · exact fun _ hx => absurd hx List.not_mem_nil
    · intro x
      refine ⟨fun hx => ?_, fun hx => absurd hx List.not_mem_nil⟩
      simp only [Model.start, Function.update_apply] at hx
      split at hx
      · cases hx
      · cases hx
    · exact fun _ hx => absurd hx List.not_mem_nil
    · intro r hr
      obtain rfl : 0 = r := Option.some.inj hr
      exact Or.inl rfl
    · exact fun _ hx => absurd hx List.not_mem_nil
  timer :=
    ⟨List.Perm.refl _, fun _ ht => absurd ht List.not_mem_nil, List.nodup_nil,
      fun _ hx => absurd hx List.not_mem_nil⟩
  kid := ⟨fun q e he => by simp at he, fun q e he => by simp at he⟩
  res := ⟨List.Perm.refl _, List.nodup_nil, fun _ hr => absurd hr List.not_mem_nil⟩
  desc := by
    refine ⟨fun p d hd => by simp at hd, fun r e he => absurd he List.not_mem_nil, ?_⟩
    show (allBlocks maxNumProcesses sizeofDescriptor).length = (allBlocks _ _).length
    rw [allBlocks_length, allBlocks_length]
  msg :=
    ⟨fun _ _ hm => absurd hm List.not_mem_nil, fun _ _ hm => absurd hm List.not_mem_nil,
      fun _ => by simp [Model.start, mForMq], fun _ _ => rfl⟩

end DisastrOS
