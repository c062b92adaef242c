import DisastrOS.Refinement.Start

/-!
# Reading the lists and the allocators of the kernel

The sequences of an abstract state can be read off any kernel state that stores it, by following
the links, and so can the blocks that an allocator has handed out. The properties of the system are
stated with these functions.
-/

set_option autoImplicit false

namespace DisastrOS

open LinkedSequence LinkedSequence.ListHeap FreeChain Model

/-! ## The functions -/

/-- The block has been handed out and not been released since. -/
def PoolAllocator.handedOut (p : PoolAllocator) (x : Addr) : Bool :=
  x.tmod p.itemSize = 0 ∧ 0 ≤ x.tdiv p.itemSize ∧ x.tdiv p.itemSize < p.sizeMax ∧
    p.freeList (x.tdiv p.itemSize) = detachedIdx

/-- The blocks on the free list from index `i` on, at most `n` of them. -/
def PoolAllocator.blocksFrom (p : PoolAllocator) : Nat → Int → List Addr
  | 0, _ => []
  | n + 1, i => if i = nullIdx then [] else i * p.itemSize :: p.blocksFrom n (p.freeList i)

/-- The blocks on the free list, in its order. -/
def PoolAllocator.freeBlocks (p : PoolAllocator) : List Addr :=
  p.blocksFrom p.sizeMax.toNat p.firstIdx

namespace Kernel

/-- The members of a list of processes. -/
def processes (s : Kernel) (l : ProcList) : List Addr := s.procs.nodes loopBound l

/-- The process `q` has not executed `exit`. -/
def Alive (s : Kernel) (q : Addr) : Prop :=
  s.running = some q ∨ q ∈ s.processes .ready ∨ q ∈ s.processes .waiting

/-- The entries of the children list of `p`. -/
def childrenOf (s : Kernel) (p : Addr) : List Addr := s.children.nodes loopBound p

/-- The timers in the list of timers. -/
def timers (s : Kernel) : List Addr := s.timerList.nodes loopBound ()

/-- The resources that exist. -/
def resources (s : Kernel) : List ResourceRef := s.resourcesList.nodes loopBound ()

/-- The descriptors of process `p`. -/
def descriptorsOf (s : Kernel) (p : Addr) : List Addr := s.descriptors.nodes loopBound p

/-- The entries for the descriptors of resource `r`. -/
def descriptorsPtrsOf (s : Kernel) (r : ResourceRef) : List Addr :=
  s.descriptorsPtrs.nodes loopBound r

/-- The messages linked in queue `q`. -/
def messagesOf (s : Kernel) (q : Addr) : List Addr := s.msgs.nodes loopBound q

/-- The message queue behind descriptor number `fd` of process `p`. -/
def queueByFd (s : Kernel) (p : Addr) (fd : Int) : Option Addr :=
  match s.descriptorListByFd p fd with
  | .ok (some d) =>
      match s.desResource d with
      | .mq q => some q
      | .standard _ => none
  | _ => none

end Kernel

/-! ## What they read -/

variable {counted : ProcList → Prop} {c : Kernel} {a : Model}

/-- The blocks that the allocator has handed out are those that are not free. -/
theorem Tracks.handedOut_iff {p : PoolAllocator} {n : Nat} {size : Int} {free : List Addr}
    {x : Addr} (h : Tracks p n size free) :
    p.handedOut x ↔ IsBlock n size x ∧ x ∉ free := by
  have hpos := h.size_pos
  simp only [PoolAllocator.handedOut, h.itemSize, h.sizeMax, decide_eq_true_eq]
  constructor
  · rintro ⟨hmod, hlow, hhigh, hmark⟩
    have hx : x.tdiv size * size = x := Int.tdiv_mul_cancel (Int.dvd_of_tmod_eq_zero hmod)
    refine ⟨⟨x.tdiv size, hlow, hhigh, hx.symm⟩, fun hfree => ?_⟩
    obtain ⟨is, rfl, hchain, -, hbound, -⟩ := h.chain
    obtain ⟨i, hi, hix⟩ := List.mem_map.1 hfree
    have heq : i = x.tdiv size := (mul_size_inj hpos).1 (hix.trans hx.symm)
    exact chain_link_ne_detached hchain (fun j hj => (hbound j hj).1) i hi (heq ▸ hmark)
  · rintro ⟨⟨i, hi0, hin, rfl⟩, hfree⟩
    obtain ⟨is, rfl, -, -, -, hout⟩ := h.chain
    have hdiv : (i * size).tdiv size = i := Int.mul_tdiv_cancel i (Int.ne_of_gt hpos)
    rw [hdiv]
    exact ⟨Int.mul_tmod_left i size, hi0, hin,
      hout i hi0 hin fun hmem => hfree (List.mem_map.2 ⟨i, hmem, rfl⟩)⟩

/-- Following the free list from an index visits the free blocks in order. -/
theorem blocksFrom_eq {p : PoolAllocator} {is : List Int} {start : Int} {n : Nat}
    (hc : Chain p.freeList nullIdx start is) (hpos : ∀ i ∈ is, 0 ≤ i) (hn : is.length ≤ n) :
    p.blocksFrom n start = is.map (· * p.itemSize) := by
  induction is generalizing start n with
  | nil =>
      obtain rfl : start = nullIdx := hc
      cases n with
      | zero => rfl
      | succ n => rw [PoolAllocator.blocksFrom, if_pos rfl, List.map_nil]
  | cons i is ih =>
      obtain ⟨rfl, hrest⟩ := hc
      obtain ⟨m, rfl⟩ := Nat.exists_eq_add_one_of_ne_zero (Nat.ne_zero_of_lt hn)
      have hne : start ≠ nullIdx := by
        have := hpos start List.mem_cons_self
        simp only [nullIdx]
        omega
      rw [PoolAllocator.blocksFrom, if_neg hne, List.map_cons,
        ih hrest (fun j hj => hpos j (List.mem_cons_of_mem start hj)) (by simpa using hn)]

/-- The free list is the sequence of the free blocks. -/
theorem Tracks.freeBlocks_eq {p : PoolAllocator} {n : Nat} {size : Int} {free : List Addr}
    (h : Tracks p n size free) : p.freeBlocks = free := by
  have hlen := length_le_of_blocks h.nodup fun x hx => h.isBlock hx
  obtain ⟨is, rfl, hchain, -, hbound, -⟩ := h.chain
  rw [List.length_map] at hlen
  rw [PoolAllocator.freeBlocks, h.sizeMax, Int.toNat_natCast,
    blocksFrom_eq hchain (fun i hi => (hbound i hi).1) hlen, h.itemSize]

/-- Reading a list of processes off the heap gives the abstract one. -/
theorem Refines.processes_eq (hR : Refines counted c a) (hP : a.ProcInv) (l : ProcList) :
    c.processes l = a.procs l := by
  apply (hR.procs.represents l trivial).nodes_eq
  have hlen := hP.partition.length_eq
  simp only [pcbBlocks, List.length_append, allBlocks_length, maxNumProcesses] at hlen
  simp only [loopBound]
  cases l <;> omega

theorem Refines.handedOut_iff_used (hR : Refines counted c a) (hP : a.ProcInv) {x : Addr} :
    c.pcbAllocator.handedOut x ↔ a.Used x := by
  rw [hR.pcbs.handedOut_iff, hP.used_iff]

/-- The kernel and the abstract state agree on who is alive. -/
theorem Refines.alive_iff (hR : Refines counted c a) (hP : a.ProcInv) {q : Addr} :
    c.Alive q ↔ a.Alive q := by
  rw [Kernel.Alive, hR.processes_eq hP, hR.processes_eq hP, hR.data, Model.Alive]

theorem Refines.childrenOf_eq (hR : Refines counted c a) (hK : a.KidInv) (p : Addr) :
    c.childrenOf p = a.children p :=
  (hR.children.represents p trivial).nodes_eq (Nat.le_of_lt (hR.children_short hK p))

/-- Reading the list of timers off the heap gives the abstract one. -/
theorem Refines.timers_eq (hR : Refines counted c a) (hT : a.TimerInv) :
    c.timers = a.timerList :=
  (hR.timerList.represents () trivial).nodes_eq (Nat.le_of_lt (hR.timerList_short hT))

theorem Refines.resources_eq (hR : Refines counted c a) (hI : a.ResInv) :
    c.resources = a.resourcesList := by
  apply (hR.resourcesList.represents () trivial).nodes_eq
  have hlen := hI.partition.length_eq
  simp only [resourceBlocks, List.length_append, List.length_map, allBlocks_length,
    maxNumResources] at hlen
  simp only [loopBound]
  omega

theorem Refines.descriptorsOf_eq (hR : Refines counted c a) (hI : a.DescInv) (p : Addr) :
    c.descriptorsOf p = a.descriptors p :=
  (hR.descriptors.represents p trivial).nodes_eq (Nat.le_of_lt (hR.descriptors_short hI p))

theorem Refines.descriptorsPtrsOf_eq (hR : Refines counted c a) (hI : a.DescInv)
    (r : ResourceRef) : c.descriptorsPtrsOf r = a.descriptorsPtrs r := by
  apply (hR.descriptorsPtrs.represents r trivial).nodes_eq
  have hlen := length_le_of_blocks (hR.descriptorsPtrs.toFamily.nodup (i := r) trivial)
    fun e he => by
      obtain ⟨hptr, -, hL⟩ := hI.entry r e he
      obtain ⟨e', hptr', -, hused, -⟩ := hL.ptr
      obtain rfl : e = e' := Option.some.inj (hptr.symm.trans hptr')
      exact hused.1
  simp only [maxNumProcesses] at hlen
  simp only [loopBound]
  omega

/-- Reading the messages of a queue that exists off the heap gives the abstract ones. -/
theorem Refines.messagesOf_eq (hR : Refines counted c a) (hM : a.MsgInv) {q : Addr}
    (hq : .mq q ∈ a.resourcesList) : c.messagesOf q = a.msgs q :=
  (hR.msgs.represents q hq).nodes_eq (Nat.le_of_lt (hR.msgs_short hM q))

/-- The kernel finds by number the queue that the abstract state has under it. -/
theorem Refines.queueByFd_eq (hR : Refines counted c a) (hI : a.DescInv) (p : Addr) (fd : Int) :
    c.queueByFd p fd = a.queueByFd p fd := by
  rw [Kernel.queueByFd, hR.descriptorListByFd_eq hI, hR.data, Model.queueByFd]
  cases a.descriptorByFd p fd with
  | none => rfl
  | some d => cases hd : a.desResource d <;> simp [hd]

end DisastrOS
