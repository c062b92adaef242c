import DisastrOS.Abstract.Model
import Mathlib.Data.List.Perm.Subperm

/-!
# Invariants of the abstract system

Each invariant is about one part of the state: the process lists and the pool of PCBs, the timers,
the children lists, the resources, the descriptors and the messages. `Inv` collects them. None of
them needs a bound on the length of the run, so pids and descriptor numbers may have wrapped around.
-/

set_option autoImplicit false

namespace DisastrOS

open LinkedSequence LinkedSequence.ListHeap

/-! ## Blocks and sequences -/

/-- No node occurs twice in the sequences of a family, all heads of which are live. -/
abbrev Apart {ν ι : Type} (L : ι → List ν) : Prop := Separate (fun _ => True) L

theorem Apart.nodup' {ν ι : Type} {L : ι → List ν} (h : Apart L) (i : ι) : (L i).Nodup :=
  h.nodup i trivial

/-- A member of two of the lists shows that they are the same list. -/
theorem Apart.eq {ν ι : Type} {L : ι → List ν} (h : Apart L) {i j : ι} {x : ν} (hi : x ∈ L i)
    (hj : x ∈ L j) : i = j :=
  h.disjoint i j trivial trivial x hi hj

/-- The blocks of a pool are the first `n` multiples of the item size. -/
theorem mem_allBlocks {n : Nat} {size : Int} {x : Addr} :
    x ∈ allBlocks n size ↔ IsBlock n size x := by
  simp only [allBlocks, List.mem_map, List.mem_range, IsBlock]
  constructor
  · rintro ⟨i, hi, rfl⟩
    exact ⟨i, by omega, by omega, rfl⟩
  · rintro ⟨i, hi0, hin, rfl⟩
    exact ⟨i.toNat, by omega, by rw [Int.toNat_of_nonneg hi0]⟩

/-- The blocks of a pool are different from each other. -/
theorem allBlocks_nodup {n : Nat} {size : Int} (hs : 0 < size) : (allBlocks n size).Nodup := by
  rw [allBlocks]
  exact List.Nodup.map (fun _ _ h => Int.ofNat.inj ((mul_size_inj hs).1 h)) List.nodup_range

@[simp] theorem allBlocks_length (n : Nat) (size : Int) : (allBlocks n size).length = n := by
  simp [allBlocks]

/-- A list without repetitions of blocks of a pool is at most as long as the pool. -/
theorem length_le_of_blocks {n : Nat} {size : Int} {xs : List Addr} (hnd : xs.Nodup)
    (hb : ∀ x ∈ xs, IsBlock n size x) : xs.length ≤ n := by
  have hsub : xs ⊆ allBlocks n size := fun x hx => mem_allBlocks.2 (hb x hx)
  simpa using (List.subperm_of_subset hnd hsub).length_le

/-- The type of the resources of a pool. -/
def ResourceRef.type : ResourceRef → Int
  | .standard _ => standardResourceType
  | .mq _ => messageQueueType

@[simp] theorem type_standard (b : Addr) : (ResourceRef.standard b).type = standardResourceType := rfl

@[simp] theorem type_mq (q : Addr) : (ResourceRef.mq q).type = messageQueueType := rfl

namespace Model

/-- The free blocks of a pool are different blocks of it. -/
def FreeOf (n : Nat) (size : Int) (free : List Addr) : Prop :=
  free.Nodup ∧ ∀ x ∈ free, IsBlock n size x

/-- What the lists and the allocators of the kernel warrant: the sequences of every family are
apart and the free blocks are different blocks. -/
structure Distinct (a : Model) : Prop where
  procs : Apart a.procs
  children : Apart a.children
  timerList : a.timerList.Nodup
  resourcesList : a.resourcesList.Nodup
  descriptors : Apart a.descriptors
  descriptorsPtrs : Apart a.descriptorsPtrs
  msgs : Apart a.msgs
  freePcbPtrs : FreeOf maxNumProcesses sizeofPCBPtr a.freePcbPtrs
  freeMs : FreeOf maxNumResources sizeofMessage a.freeMs
  freeDescriptors : FreeOf maxNumProcesses sizeofDescriptor a.freeDescriptors
  freeDescriptorPtrs : FreeOf maxNumProcesses sizeofDescriptorPtr a.freeDescriptorPtrs

/-! ## Processes -/

/-- All PCBs: the running process, the members of the three lists and the free blocks. -/
def pcbBlocks (a : Model) : List Addr :=
  a.running.toList ++ (a.procs .ready ++ (a.procs .waiting ++ (a.procs .zombie ++ a.freePcbs)))

/-- The block `x` is a PCB in use: that of the running process or of a member of a list. -/
def Used (a : Model) (x : Addr) : Prop :=
  a.running = some x ∨ x ∈ a.procs .ready ∨ x ∈ a.procs .waiting ∨ x ∈ a.procs .zombie

/-- The process `x` has not executed `exit`. -/
def Alive (a : Model) (x : Addr) : Prop :=
  a.running = some x ∨ x ∈ a.procs .ready ∨ x ∈ a.procs .waiting

/-- The process table: every PCB block is in one place, and the status fields agree with the lists
as far as the handlers rely on it. -/
structure ProcInv (a : Model) : Prop where
  partition : a.pcbBlocks.Perm (allBlocks maxNumProcesses sizeofPCB)
  ready : ∀ x ∈ a.procs .ready, a.status x = .ready
  waiting : ∀ x, a.status x = .waiting ↔ x ∈ a.procs .waiting
  zombie : ∀ x ∈ a.procs .zombie, a.status x = .zombie
  running : ∀ r, a.running = some r → a.status r = .running ∨ a.status r = .ready
  blocked : ∀ x ∈ a.procs .waiting, a.syscallNum x = dsosCallWait ∨ a.syscallNum x = dsosCallSleep
  init : ∃ i, a.initPcb = some i ∧ a.parent i = none ∧ a.Alive i

/-! ## Timers -/

/-- Timers and sleeping processes correspond. -/
structure TimerInv (a : Model) : Prop where
  partition : (a.timerList ++ a.freeTimers).Perm (allBlocks maxNumProcesses sizeofTimerItem)
  sleeping : ∀ t ∈ a.timerList,
    a.timerPcb t ∈ a.procs .waiting ∧ a.syscallNum (a.timerPcb t) = dsosCallSleep
  distinct : (a.timerList.map a.timerPcb).Nodup
  timed : ∀ x ∈ a.procs .waiting, a.syscallNum x = dsosCallSleep →
    ∃ t ∈ a.timerList, a.timerPcb t = x

/-! ## Children -/

/-- The entries of the children lists are blocks in use and point to PCBs. -/
structure KidInv (a : Model) : Prop where
  used : ∀ q, ∀ e ∈ a.children q, IsBlock maxNumProcesses sizeofPCBPtr e ∧ e ∉ a.freePcbPtrs
  pcb : ∀ q, ∀ e ∈ a.children q, IsBlock maxNumProcesses sizeofPCB (a.ptrPcb e)

/-! ## Resources -/

/-- All resource blocks. -/
def resourceBlocks (a : Model) : List ResourceRef :=
  a.resourcesList ++ (a.freeStandard.map .standard ++ a.freeMqs.map .mq)

/-- The resources in the list are exactly those in use, with distinct ids. -/
structure ResInv (a : Model) : Prop where
  partition : a.resourceBlocks.Perm
    ((allBlocks maxNumResources sizeofStandardResource).map .standard ++
      (allBlocks maxNumResources sizeofMessageQueue).map .mq)
  ids : (a.resourcesList.map a.resourceId).Nodup
  type : ∀ r ∈ a.resourcesList, a.resourceType r = r.type

/-! ## Descriptors -/

/-- The list of a process and the list of a resource agree on the descriptor `d`. -/
structure Linked (a : Model) (d : Addr) : Prop where
  used : IsBlock maxNumProcesses sizeofDescriptor d ∧ d ∉ a.freeDescriptors
  ptr : ∃ e, a.desPtr d = some e ∧ a.desptrDescriptor e = d ∧
    (IsBlock maxNumProcesses sizeofDescriptorPtr e ∧ e ∉ a.freeDescriptorPtrs) ∧
    e ∈ a.descriptorsPtrs (a.desResource d)
  resource : a.desResource d ∈ a.resourcesList

/-- Descriptors and their entries in the lists of the resources point to each other. -/
structure DescInv (a : Model) : Prop where
  linked : ∀ p, ∀ d ∈ a.descriptors p, a.desPcb d = p ∧ a.Linked d
  entry : ∀ r, ∀ e ∈ a.descriptorsPtrs r,
    a.desPtr (a.desptrDescriptor e) = some e ∧ a.desResource (a.desptrDescriptor e) = r ∧
      a.Linked (a.desptrDescriptor e)
  balance : a.freeDescriptors.length = a.freeDescriptorPtrs.length

/-! ## Messages -/

/-- Messages in a queue are blocks in use, their lengths and the lengths of the queues are
bounded. -/
structure MsgInv (a : Model) : Prop where
  used : ∀ q, ∀ m ∈ a.msgs q, IsBlock maxNumResources sizeofMessage m ∧ m ∉ a.freeMs
  bound : ∀ q, ∀ m ∈ a.msgs q, 0 ≤ a.msgLength m ∧ a.msgLength m ≤ messageStringMaxLength
  size : ∀ q, ((a.msgs q).length : Int) ≤ mForMq
  dead : ∀ q, .mq q ∉ a.resourcesList → a.msgs q = []

/-! ## First consequences -/

section ProcInv

variable {a : Model} {x r : Addr}

/-- No PCB is in two places at once. -/
theorem ProcInv.nodup (h : a.ProcInv) : a.pcbBlocks.Nodup :=
  h.partition.nodup_iff.2 (allBlocks_nodup (by decide))

/-- Every PCB is in use or free. -/
theorem ProcInv.isBlock_iff (h : a.ProcInv) :
    IsBlock maxNumProcesses sizeofPCB x ↔ a.Used x ∨ x ∈ a.freePcbs := by
  rw [← mem_allBlocks, ← h.partition.mem_iff]
  simp only [pcbBlocks, Used, List.mem_append, Option.mem_toList, or_assoc]

/-- The running process is in no list and not free. -/
theorem ProcInv.running_fresh (h : a.ProcInv) (hr : a.running = some r) :
    (∀ l, r ∉ a.procs l) ∧ r ∉ a.freePcbs := by
  have hnd := h.nodup
  simp only [pcbBlocks, hr, Option.toList_some, List.singleton_append, List.nodup_cons,
    List.mem_append, not_or] at hnd
  obtain ⟨⟨h1, h2, h3, h4⟩, -⟩ := hnd
  refine ⟨fun l => ?_, h4⟩
  cases l <;> assumption

/-- A free block is in no list and does not run. -/
theorem ProcInv.free_fresh (h : a.ProcInv) (hx : x ∈ a.freePcbs) : ¬ a.Used x := by
  have hnd := h.nodup
  simp only [pcbBlocks, List.nodup_append, List.mem_append, Option.mem_toList] at hnd
  obtain ⟨-, ⟨-, ⟨-, ⟨-, -, hz⟩, hw⟩, hr⟩, hrun⟩ := hnd
  rintro (hu | hu | hu | hu)
  · exact hrun x hu x (Or.inr (Or.inr (Or.inr hx))) rfl
  · exact hr x hu x (Or.inr (Or.inr hx)) rfl
  · exact hw x hu x (Or.inr hx) rfl
  · exact hz x hu x hx rfl

/-- A PCB is in use if and only if it is not free. -/
theorem ProcInv.used_iff (hP : a.ProcInv) :
    a.Used x ↔ IsBlock maxNumProcesses sizeofPCB x ∧ x ∉ a.freePcbs := by
  rw [hP.isBlock_iff]
  exact ⟨fun hx => ⟨Or.inl hx, fun hfree => hP.free_fresh hfree hx⟩,
    fun ⟨hx, hfree⟩ => hx.resolve_right hfree⟩

theorem Used.of_mem {l : ProcList} (hx : x ∈ a.procs l) : a.Used x := by
  cases l with
  | ready => exact Or.inr (Or.inl hx)
  | waiting => exact Or.inr (Or.inr (Or.inl hx))
  | zombie => exact Or.inr (Or.inr (Or.inr hx))

theorem Alive.used (hx : a.Alive x) : a.Used x := by
  rcases hx with hx | hx | hx
  · exact Or.inl hx
  · exact Used.of_mem hx
  · exact Used.of_mem hx

end ProcInv

/-- The invariant of the abstract system. -/
structure Inv (a : Model) : Prop where
  proc : a.ProcInv
  timer : a.TimerInv
  kid : a.KidInv
  res : a.ResInv
  desc : a.DescInv
  msg : a.MsgInv

end Model

end DisastrOS
