import DisastrOS.Basic
import DisastrOS.Library.FreeChain

/-!
# `pool_allocator.c`

`PoolAllocator` is the C structure of that name; block addresses are offsets from its buffer.
`Tracks p n size free` says that the allocator `p` manages `n` blocks of `size` bytes, of which
`free` are free, in the order in which they will be handed out. `getBlock` then takes the first
free block, and `releaseBlock` puts a block that is in use in front of the free ones and refuses
one that is free already.
-/

set_option autoImplicit false

namespace DisastrOS

open FreeChain

/-- Result codes of the allocator. -/
inductive PoolAllocatorResult where
  | success
  | notEnoughMemory
  | unalignedFree
  | outOfRange
  | doubleFree
  deriving DecidableEq, Repr

/-- The value of the code in C. -/
def PoolAllocatorResult.toInt : PoolAllocatorResult → Int
  | success => 0
  | notEnoughMemory => -1
  | unalignedFree => -2
  | outOfRange => -3
  | doubleFree => -4

/-- End of the free list. -/
def nullIdx : Int := -1

/-- Free list entry of a block that is handed out. -/
def detachedIdx : Int := -2

/-- Bookkeeping of one pool. -/
structure PoolAllocator where
  freeList : Int → Int
  bufferSize : Int
  size : Int
  sizeMax : Int
  itemSize : Int
  firstIdx : Int

namespace PoolAllocator

/-- A zero-initialised allocator. -/
def zero : PoolAllocator := ⟨fun _ => 0, 0, 0, 0, 0, 0⟩

/-- The loop of `PoolAllocator_init`: entry `i` points to `i + 1`, for the first `n` entries. -/
def linkEntries : Nat → (Int → Int) → Int → Int
  | 0, freeList => freeList
  | n + 1, freeList => Function.update (linkEntries n freeList) n (n + 1)

/-- `PoolAllocator_init`. -/
def init (a : PoolAllocator) (itemSize numItems memorySize : Int) :
    PoolAllocatorResult × PoolAllocator :=
  let requestedSize := wrapInt (numItems * (itemSize + 4))
  if memorySize < requestedSize then
    (.notEnoughMemory, a)
  else
    let freeList := linkEntries (numItems - 1).toNat a.freeList
    (.success,
      { freeList := Function.update freeList (numItems - 1) nullIdx
        bufferSize := itemSize * numItems
        size := numItems
        sizeMax := numItems
        itemSize := itemSize
        firstIdx := 0 })

/-- `PoolAllocator_getBlock`: the address of a fresh block, or the null pointer. -/
def getBlock (a : PoolAllocator) : Option Addr × PoolAllocator :=
  if a.firstIdx = -1 then
    (none, a)
  else
    let detached := a.firstIdx
    (some (detached * a.itemSize),
      { a with
        firstIdx := a.freeList detached
        size := a.size - 1
        freeList := Function.update a.freeList detached detachedIdx })

/-- `PoolAllocator_releaseBlock`; `offset` is the address of the block in the buffer. -/
def releaseBlock (a : PoolAllocator) (offset : Addr) : PoolAllocatorResult × PoolAllocator :=
  if offset.tmod a.itemSize ≠ 0 then
    (.unalignedFree, a)
  else
    let idx := offset.tdiv a.itemSize
    if idx < 0 ∨ a.sizeMax ≤ idx then
      (.outOfRange, a)
    else if a.freeList idx ≠ detachedIdx then
      (.doubleFree, a)
    else
      (.success,
        { a with
          freeList := Function.update a.freeList idx a.firstIdx
          firstIdx := idx
          size := a.size + 1 })

end PoolAllocator

/-! ## What an allocator tracks -/

/-- Start address of one of `n` blocks of `size` bytes. -/
def IsBlock (n : Nat) (size : Int) (x : Addr) : Prop := ∃ i : Int, 0 ≤ i ∧ i < n ∧ x = i * size

/-- The allocator manages `n` blocks of `size` bytes and `free` are the free ones. -/
structure Tracks (p : PoolAllocator) (n : Nat) (size : Int) (free : List Addr) : Prop where
  itemSize : p.itemSize = size
  sizeMax : p.sizeMax = n
  size_pos : 0 < size
  count : p.size = free.length
  chain : ∃ is : List Int, free = is.map (· * size) ∧ Chain p.freeList nullIdx p.firstIdx is ∧
    is.Nodup ∧ (∀ i ∈ is, 0 ≤ i ∧ i < n) ∧
    ∀ i : Int, 0 ≤ i → i < n → i ∉ is → p.freeList i = detachedIdx

variable {p : PoolAllocator} {n : Nat} {size : Int} {free : List Addr} {x : Addr}

theorem mul_size_inj (hs : 0 < size) {i j : Int} : i * size = j * size ↔ i = j :=
  ⟨Int.eq_of_mul_eq_mul_right (Int.ne_of_gt hs), fun h => by rw [h]⟩

theorem Tracks.nodup (h : Tracks p n size free) : free.Nodup := by
  obtain ⟨is, rfl, -, hnd, -⟩ := h.chain
  exact hnd.map fun _ _ heq => (mul_size_inj h.size_pos).1 heq

theorem Tracks.isBlock (h : Tracks p n size free) (hx : x ∈ free) : IsBlock n size x := by
  obtain ⟨is, rfl, -, -, hbound, -⟩ := h.chain
  obtain ⟨i, hi, rfl⟩ := List.mem_map.1 hx
  exact ⟨i, (hbound i hi).1, (hbound i hi).2, rfl⟩

theorem Tracks.getBlock_nil (h : Tracks p n size []) : p.getBlock = (none, p) := by
  obtain ⟨is, hnil, hchain, -⟩ := h.chain
  rw [eq_comm, List.map_eq_nil_iff] at hnil
  subst hnil
  have hfirst : p.firstIdx = -1 := hchain
  rw [PoolAllocator.getBlock, if_pos hfirst]

theorem Tracks.getBlock_cons (h : Tracks p n size (x :: free)) :
    ∃ p', p.getBlock = (some x, p') ∧ Tracks p' n size free := by
  obtain ⟨is, hmap, hchain, hnd, hbound, hout⟩ := h.chain
  cases is with
  | nil => simp at hmap
  | cons i is =>
      rw [List.map_cons, List.cons.injEq] at hmap
      obtain ⟨rfl, rfl⟩ := hmap
      obtain ⟨hi, hnd⟩ := List.nodup_cons.1 hnd
      obtain ⟨hstart, hrest⟩ := hchain.pop hi detachedIdx
      have hpos := (hbound i List.mem_cons_self).1
      have hne : ¬ p.firstIdx = -1 := by omega
      refine ⟨{ p with
          firstIdx := p.freeList i
          size := p.size - 1
          freeList := Function.update p.freeList i detachedIdx }, ?_, ?_⟩
      · rw [PoolAllocator.getBlock, if_neg hne, hstart, h.itemSize]
      · refine ⟨h.itemSize, h.sizeMax, h.size_pos, ?_, is, rfl, hrest, hnd, ?_, ?_⟩
        · have := h.count
          rw [List.length_cons] at this
          show p.size - 1 = _
          omega
        · exact fun j hj => hbound j (List.mem_cons_of_mem i hj)
        · intro j hj0 hjn hj
          by_cases hji : j = i
          · rw [hji]
            exact Function.update_self ..
          · show Function.update p.freeList i detachedIdx j = _
            rw [Function.update_of_ne hji]
            exact hout j hj0 hjn fun hmem => (List.mem_cons.1 hmem).elim hji hj

/-- `getBlock` on a non-empty pool never answers null, on an empty one always. -/
theorem Tracks.getBlock_cases (h : Tracks p n size free) :
    (free = [] ∧ p.getBlock = (none, p)) ∨
      ∃ x xs p', free = x :: xs ∧ p.getBlock = (some x, p') ∧ Tracks p' n size xs := by
  cases free with
  | nil => exact Or.inl ⟨rfl, h.getBlock_nil⟩
  | cons x xs =>
      obtain ⟨p', heq, htracks⟩ := h.getBlock_cons
      exact Or.inr ⟨x, xs, p', rfl, heq, htracks⟩

/-- The next block is the head of the free blocks. -/
theorem Tracks.getBlock_head (h : Tracks p n size free) : p.getBlock.1 = free.head? := by
  rcases h.getBlock_cases with ⟨rfl, heq⟩ | ⟨x, xs, p', rfl, heq, -⟩
  · rw [heq]
    rfl
  · rw [heq]
    rfl

theorem Tracks.releaseBlock_used (h : Tracks p n size free) (hx : IsBlock n size x)
    (hfree : x ∉ free) :
    ∃ p', p.releaseBlock x = (.success, p') ∧ Tracks p' n size (x :: free) := by
  obtain ⟨is, rfl, hchain, hnd, hbound, hout⟩ := h.chain
  obtain ⟨i, hi0, hin, rfl⟩ := hx
  -- the index is marked as detached, so the block is in use
  have hi : i ∉ is := fun hmem => hfree (List.mem_map.2 ⟨i, hmem, rfl⟩)
  have hmod : (i * size).tmod size = 0 := Int.mul_tmod_left i size
  have hdiv : (i * size).tdiv size = i := Int.mul_tdiv_cancel i (Int.ne_of_gt h.size_pos)
  have hrange : ¬ (i < 0 ∨ (n : Int) ≤ i) := by omega
  refine ⟨{ p with
      freeList := Function.update p.freeList i p.firstIdx
      firstIdx := i
      size := p.size + 1 }, ?_, ?_⟩
  · simp only [PoolAllocator.releaseBlock, h.itemSize, hmod, hdiv, h.sizeMax, hrange,
      hout i hi0 hin hi, ne_eq, not_true_eq_false, if_false]
  · refine ⟨h.itemSize, h.sizeMax, h.size_pos, ?_, i :: is, rfl, hchain.push hi, ?_, ?_, ?_⟩
    · have := h.count
      show p.size + 1 = _
      rw [List.length_cons]
      omega
    · exact List.nodup_cons.2 ⟨hi, hnd⟩
    · intro j hj
      rcases List.mem_cons.1 hj with rfl | hj
      · exact ⟨hi0, hin⟩
      · exact hbound j hj
    · intro j hj0 hjn hj
      rw [List.mem_cons, not_or] at hj
      show Function.update p.freeList i p.firstIdx j = _
      rw [Function.update_of_ne hj.1]
      exact hout j hj0 hjn hj.2

/-- Entries of free blocks are never the mark of a block in use. -/
theorem chain_link_ne_detached {link : Int → Int} :
    ∀ {is : List Int} {start : Int}, Chain link nullIdx start is → (∀ i ∈ is, 0 ≤ i) →
      ∀ i ∈ is, link i ≠ detachedIdx := by
  intro is
  induction is with
  | nil => exact fun _ _ i hi => absurd hi List.not_mem_nil
  | cons j is ih =>
      intro start hc hpos i hi
      rcases List.mem_cons.1 hi with rfl | hi
      · cases is with
        | nil =>
            have hl : link i = nullIdx := hc.2
            rw [hl]
            decide
        | cons k is =>
            have hl : link i = k := hc.2.1
            have hk := hpos k (by simp)
            simp only [detachedIdx]
            omega
      · exact ih hc.2 (fun k hk => hpos k (List.mem_cons_of_mem j hk)) i hi

theorem Tracks.releaseBlock_free (h : Tracks p n size free) (hfree : x ∈ free) :
    p.releaseBlock x = (.doubleFree, p) := by
  obtain ⟨is, rfl, hchain, hnd, hbound, hout⟩ := h.chain
  obtain ⟨i, hi, rfl⟩ := List.mem_map.1 hfree
  have hmod : (i * size).tmod size = 0 := Int.mul_tmod_left i size
  have hdiv : (i * size).tdiv size = i := Int.mul_tdiv_cancel i (Int.ne_of_gt h.size_pos)
  have hb := hbound i hi
  have hrange : ¬ (i < 0 ∨ (n : Int) ≤ i) := by omega
  have hne : p.freeList i ≠ detachedIdx :=
    chain_link_ne_detached hchain (fun j hj => (hbound j hj).1) i hi
  simp only [PoolAllocator.releaseBlock, h.itemSize, hmod, hdiv, h.sizeMax, hrange, hne, ne_eq,
    not_true_eq_false, not_false_eq_true, if_false, if_true]

/-! ## Initialisation -/

theorem linkEntries_apply (freeList : Int → Int) (n : Nat) (i : Int) :
    PoolAllocator.linkEntries n freeList i = if 0 ≤ i ∧ i < n then i + 1 else freeList i := by
  induction n with
  | zero =>
      have : ¬ (0 ≤ i ∧ i < ((0 : Nat) : Int)) := by omega
      rw [if_neg this]
      rfl
  | succ n ih =>
      rw [PoolAllocator.linkEntries, Function.update_apply, ih]
      by_cases hi : i = n
      · have : 0 ≤ i ∧ i < ((n + 1 : Nat) : Int) := by omega
        rw [if_pos hi, if_pos this, hi]
      · rw [if_neg hi]
        by_cases hlt : 0 ≤ i ∧ i < (n : Int)
        · have : 0 ≤ i ∧ i < ((n + 1 : Nat) : Int) := by omega
          rw [if_pos hlt, if_pos this]
        · have : ¬ (0 ≤ i ∧ i < ((n + 1 : Nat) : Int)) := by omega
          rw [if_neg hlt, if_neg this]

/-- Addresses of all blocks of a pool, in ascending order. -/
@[irreducible] def allBlocks (n : Nat) (size : Int) : List Addr :=
  (List.range n).map fun i : Nat => (i : Int) * size

/-- After a successful initialisation all blocks are free, in ascending order. -/
theorem init_tracks (a : PoolAllocator) {n : Nat} {size memory : Int} (hn : 0 < n)
    (hsize : 0 < size) (hfit : wrapInt (n * (size + 4)) ≤ memory) :
    ∃ p, a.init size n memory = (.success, p) ∧ Tracks p n size (allBlocks n size) := by
  have hlt : ¬ memory < wrapInt (n * (size + 4)) := by omega
  refine ⟨_, by rw [PoolAllocator.init, if_neg hlt], rfl, rfl, hsize, ?_, ?_⟩
  · simp [allBlocks]
  · refine ⟨(List.range' 0 n).map Int.ofNat, ?_, ?_, ?_, ?_, ?_⟩
    · rw [allBlocks, List.map_map, List.range_eq_range']
      rfl
    · have := chain_range (Function.update
        (PoolAllocator.linkEntries ((n : Int) - 1).toNat a.freeList) ((n : Int) - 1) nullIdx)
        nullIdx hn ?_
      · simpa using this
      · intro i _ hi
        rw [Function.update_apply, linkEntries_apply]
        -- the last index ends the chain, every other one leads to its successor
        by_cases hlast : i + 1 = n
        · rw [if_pos hlast, if_pos (by omega)]
        · rw [if_neg hlast, if_neg (by omega), if_pos (by omega)]
    · exact List.Nodup.map (fun _ _ h => Int.ofNat.inj h) List.nodup_range'
    · intro i hi
      simp only [List.mem_map, List.mem_range'_1] at hi
      obtain ⟨j, hj, rfl⟩ := hi
      simp only [Int.ofNat_eq_natCast]
      omega
    · intro i hi0 hin hi
      refine absurd ?_ hi
      simp only [List.mem_map, List.mem_range'_1]
      exact ⟨i.toNat, by omega, Int.toNat_of_nonneg hi0⟩

end DisastrOS
