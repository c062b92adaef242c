import DisastrOS.Abstract.Invariants
import DisastrOS.Library.Runs

/-!
# The pool allocator over whole runs

After `PoolAllocator_init` any sequence of calls leaves the allocator with a free list of exactly
the blocks that are not handed out, and every result of a call agrees with that.
-/

set_option autoImplicit false

namespace DisastrOS

open Runs FreeChain

/-- The calls on an allocator; `offset` is that of the pointer from the buffer. -/
inductive PoolCall where
  | getBlock
  | releaseBlock (offset : Int32)

/-- One call on the allocator. -/
def PoolAllocator.Performs (p : PoolAllocator) (c : PoolCall) (p' : PoolAllocator) : Prop :=
  match c with
  | .getBlock => p.getBlock.2 = p'
  | .releaseBlock offset => (p.releaseBlock offset.toInt).2 = p'

/-- The blocks that are out after a call; `out` are those before it. -/
def blocksOutAfter (out : List Addr) (e : Event PoolAllocator PoolCall) : List Addr :=
  match e.act with
  | .getBlock => e.pre.getBlock.1.toList ++ out
  | .releaseBlock offset =>
      if (e.pre.releaseBlock offset.toInt).1 = .success then out.erase offset.toInt else out

/-- The blocks that the calls have handed out and not taken back. -/
def blocksOut (es : List (Event PoolAllocator PoolCall)) : List Addr := es.foldl blocksOutAfter []

/-- The allocator manages `n` blocks of `size` bytes, of which `out` are handed out. -/
structure AllocatorCorrect (p : PoolAllocator) (n : Nat) (size : Int) (out : List Addr) : Prop where
  blocks : out.Nodup ∧ ∀ x ∈ out, IsBlock n size x
  /-- The chain has no cycle, ends in `-1` and visits the `p.size` indices that are not out. -/
  chain : ∃ is, Chain p.freeList nullIdx p.firstIdx is ∧ is.Nodup ∧ p.size = is.length ∧
    ∀ i, i ∈ is ↔ 0 ≤ i ∧ i < n ∧ i * size ∉ out
  marked : ∀ i : Int, 0 ≤ i → i < n → i * size ∈ out → p.freeList i = detachedIdx
  getNull : p.getBlock.1 = none ↔ out.length = n
  getFresh : ∀ x ∈ p.getBlock.1, IsBlock n size x ∧ x ∉ out
  success : ∀ x : Int32, (p.releaseBlock x.toInt).1 = .success ↔ x.toInt ∈ out
  unaligned : ∀ x : Int32, (p.releaseBlock x.toInt).1 = .unalignedFree ↔ ¬ size ∣ x.toInt
  outOfRange : ∀ x : Int32, (p.releaseBlock x.toInt).1 = .outOfRange ↔
    size ∣ x.toInt ∧ (x.toInt < 0 ∨ n * size ≤ x.toInt)
  doubleFree : ∀ x : Int32, (p.releaseBlock x.toInt).1 = .doubleFree ↔
    IsBlock n size x.toInt ∧ x.toInt ∉ out
  refused : ∀ x : Int32, (p.releaseBlock x.toInt).1 ≠ .success → (p.releaseBlock x.toInt).2 = p
  restores : ∀ x : Int32, (p.releaseBlock x.toInt).1 = .success →
    (p.releaseBlock x.toInt).2.getBlock = (some x.toInt, p)

/-- The blocks `out` are those that are not free. -/
def SplitsBlocks (p : PoolAllocator) (n : Nat) (size : Int) (out : List Addr) : Prop :=
  ∃ free, Tracks p n size free ∧ (out ++ free).Perm (allBlocks n size)

variable {p p' : PoolAllocator} {n : Nat} {size : Int} {out : List Addr}
  {es : List (Event PoolAllocator PoolCall)} {x : Addr}

/-! ## Releasing -/

/-- The blocks are the multiples of the size inside the buffer. -/
theorem isBlock_iff (hsize : 0 < size) :
    IsBlock n size x ↔ size ∣ x ∧ ¬ (x < 0 ∨ n * size ≤ x) := by
  constructor
  · rintro ⟨i, hi0, hin, rfl⟩
    have hlow := Int.mul_nonneg hi0 (Int.le_of_lt hsize)
    have hhigh := Int.mul_lt_mul_of_pos_right hin hsize
    exact ⟨Int.dvd_mul_left i size,
      fun h => h.elim (Int.not_lt.2 hlow) (Int.not_le.2 hhigh)⟩
  · rintro ⟨⟨k, rfl⟩, hrange⟩
    rw [Int.mul_comm size k] at hrange ⊢
    refine ⟨k, ?_, ?_, rfl⟩
    · by_contra hneg
      exact hrange (Or.inl (Int.mul_neg_of_neg_of_pos (Int.not_le.1 hneg) hsize))
    · by_contra hbig
      exact hrange (Or.inr (Int.mul_le_mul_of_nonneg_right (Int.not_lt.1 hbig)
        (Int.le_of_lt hsize)))

/-- A pointer that is no multiple of the size is refused. -/
theorem releaseBlock_unaligned (hitem : p.itemSize = size) (hx : ¬ size ∣ x) :
    p.releaseBlock x = (.unalignedFree, p) := by
  have hmod : x.tmod size ≠ 0 := fun h => hx (Int.dvd_of_tmod_eq_zero h)
  simp only [PoolAllocator.releaseBlock, hitem, hmod, ne_eq, not_false_eq_true, if_true]

/-- A multiple of the size outside the buffer is refused. -/
theorem releaseBlock_outOfRange (hsize : 0 < size) (hitem : p.itemSize = size)
    (hmax : p.sizeMax = n) (hx : size ∣ x) (hrange : x < 0 ∨ n * size ≤ x) :
    p.releaseBlock x = (.outOfRange, p) := by
  obtain ⟨k, rfl⟩ := hx
  rw [Int.mul_comm size k] at hrange ⊢
  have hmod : (k * size).tmod size = 0 := Int.mul_tmod_left k size
  have hdiv : (k * size).tdiv size = k := Int.mul_tdiv_cancel k (Int.ne_of_gt hsize)
  have hk : k < 0 ∨ (n : Int) ≤ k := by
    rcases hrange with hneg | hbig
    · refine Or.inl (Int.not_le.1 fun hk => ?_)
      exact Int.not_lt.2 (Int.mul_nonneg hk (Int.le_of_lt hsize)) hneg
    · exact Or.inr (Int.le_of_mul_le_mul_right hbig hsize)
  simp only [PoolAllocator.releaseBlock, hitem, hmod, hdiv, hmax, hk, ne_eq,
    not_true_eq_false, if_false, if_true]

/-- A block that is taken back is the next one to be handed out. -/
theorem getBlock_releaseBlock (h : (p.releaseBlock x).1 = .success) :
    (p.releaseBlock x).2.getBlock = (some x, p) := by
  unfold PoolAllocator.releaseBlock at h ⊢
  by_cases hmod : x.tmod p.itemSize ≠ 0
  · rw [if_pos hmod] at h
    cases h
  · rw [if_neg hmod] at h ⊢
    by_cases hrange : x.tdiv p.itemSize < 0 ∨ p.sizeMax ≤ x.tdiv p.itemSize
    · simp only [hrange, if_true] at h
      cases h
    · by_cases hmark : p.freeList (x.tdiv p.itemSize) ≠ detachedIdx
      · simp only [hrange, hmark, if_false, ne_eq, not_false_eq_true, if_true] at h
        cases h
      · have hx : x.tdiv p.itemSize * p.itemSize = x :=
          Int.tdiv_mul_cancel (Int.dvd_of_tmod_eq_zero (not_not.1 hmod))
        have hne : ¬ x.tdiv p.itemSize = -1 := by omega
        simp only [hrange, hmark, if_false, PoolAllocator.getBlock, hne, Function.update_self,
          Function.update_idem, hx, Int.add_sub_cancel]
        rw [← not_not.1 hmark, Function.update_eq_self]

/-! ## The invariant -/

section Splits

variable {free : List Addr}

/-- Every block is out or free, and not both. -/
theorem block_cases (h : (out ++ free).Perm (allBlocks n size)) (hsize : 0 < size) :
    (∀ x, IsBlock n size x ↔ x ∈ out ∨ x ∈ free) ∧ out.Nodup ∧ ∀ x ∈ out, x ∉ free := by
  have hnd := List.nodup_append.1 (h.nodup_iff.2 (allBlocks_nodup hsize))
  refine ⟨fun x => ?_, hnd.1, fun x hx hx' => hnd.2.2 x hx x hx' rfl⟩
  rw [← mem_allBlocks, ← h.mem_iff, List.mem_append]

/-- The result of a release: what is wrong with the pointer, if anything. -/
theorem Tracks.releaseBlock_eq (h : Tracks p n size free)
    (hperm : (out ++ free).Perm (allBlocks n size)) (x : Addr) :
    (p.releaseBlock x).1 =
        (if size ∣ x then
          (if x < 0 ∨ n * size ≤ x then .outOfRange else if x ∈ out then .success else .doubleFree)
        else .unalignedFree) ∧
      ((p.releaseBlock x).1 ≠ .success → (p.releaseBlock x).2 = p) := by
  obtain ⟨hblock, -, hdisj⟩ := block_cases hperm h.size_pos
  by_cases hdvd : size ∣ x
  · by_cases hrange : x < 0 ∨ n * size ≤ x
    · simp [releaseBlock_outOfRange h.size_pos h.itemSize h.sizeMax hdvd hrange, hdvd, hrange]
    · have hx : IsBlock n size x := (isBlock_iff h.size_pos).2 ⟨hdvd, hrange⟩
      by_cases hout : x ∈ out
      · obtain ⟨q, heq, -⟩ := h.releaseBlock_used hx (hdisj x hout)
        simp [heq, hdvd, hrange, hout]
      · simp [h.releaseBlock_free (((hblock x).1 hx).resolve_left hout), hdvd, hrange, hout]
  · simp [releaseBlock_unaligned h.itemSize hdvd, hdvd]

/-- One call keeps the invariant. -/
theorem SplitsBlocks.step {c : PoolCall} (h : SplitsBlocks p n size out) (hp : p.Performs c p') :
    SplitsBlocks p' n size (blocksOutAfter out ⟨p, c, p'⟩) := by
  obtain ⟨free, htracks, hperm⟩ := h
  cases c with
  | getBlock =>
      obtain rfl : p.getBlock.2 = p' := hp
      simp only [blocksOutAfter]
      rcases htracks.getBlock_cases with ⟨hnil, heq⟩ | ⟨x, xs, q, hfree, heq, hq⟩
      · rw [heq]
        exact ⟨free, htracks, hperm⟩
      · rw [heq]
        refine ⟨xs, hq, ?_⟩
        rw [hfree] at hperm
        exact List.perm_middle.symm.trans hperm
  | releaseBlock offset =>
      obtain rfl : (p.releaseBlock offset.toInt).2 = p' := hp
      simp only [blocksOutAfter]
      obtain ⟨hblock, -, hdisj⟩ := block_cases hperm htracks.size_pos
      obtain ⟨hresult, hsame⟩ := htracks.releaseBlock_eq hperm offset.toInt
      by_cases hout : offset.toInt ∈ out
      -- a block that is out returns to the free list, anything else is refused
      · obtain ⟨q, heq, hq⟩ :=
          htracks.releaseBlock_used ((hblock _).2 (Or.inl hout)) (hdisj _ hout)
        rw [heq, if_pos rfl]
        refine ⟨offset.toInt :: free, hq, List.perm_middle.trans (List.Perm.trans ?_ hperm)⟩
        exact (List.perm_cons_erase hout).symm.append_right free
      · have hne : (p.releaseBlock offset.toInt).1 ≠ .success := by
          rw [hresult]
          simp only [hout, if_false]
          split_ifs <;> simp
        rw [if_neg hne, hsame hne]
        exact ⟨free, htracks, hperm⟩

/-- What the invariant says about the free list and about the results of calls. -/
theorem SplitsBlocks.correct (h : SplitsBlocks p n size out) : AllocatorCorrect p n size out := by
  obtain ⟨free, htracks, hperm⟩ := h
  have hsize := htracks.size_pos
  obtain ⟨hblock, hnd, hdisj⟩ := block_cases hperm hsize
  obtain ⟨is, hfree, hchain, hnodup, hbound, hmark⟩ := htracks.chain
  have hresult := fun x : Int32 => htracks.releaseBlock_eq hperm x.toInt
  have hmem : ∀ i : Int, i ∈ is ↔ i * size ∈ free := by
    intro i
    rw [hfree, List.mem_map]
    exact ⟨fun hi => ⟨i, hi, rfl⟩, fun ⟨j, hj, heq⟩ => (mul_size_inj hsize).1 heq ▸ hj⟩
  have hlength := hperm.length_eq
  rw [List.length_append, allBlocks_length] at hlength
  refine ⟨⟨hnd, fun x hx => (hblock x).2 (Or.inl hx)⟩, ⟨is, hchain, hnodup, ?_, fun i => ?_⟩,
    fun i hi0 hin hout => ?_, ?_, fun x hx => ?_, fun x => ?_, fun x => ?_, fun x => ?_,
    fun x => ?_, fun x => (hresult x).2, fun x => getBlock_releaseBlock⟩
  · rw [htracks.count, hfree, List.length_map]
  · constructor
    · intro hi
      exact ⟨(hbound i hi).1, (hbound i hi).2, fun hout => hdisj _ hout ((hmem i).1 hi)⟩
    · rintro ⟨hi0, hin, hout⟩
      exact (hmem i).2 (((hblock _).1 ⟨i, hi0, hin, rfl⟩).resolve_left hout)
  · exact hmark i hi0 hin fun hi => hdisj _ hout ((hmem i).1 hi)
  · rcases htracks.getBlock_cases with ⟨rfl, heq⟩ | ⟨x, xs, q, rfl, heq, -⟩
    · rw [heq]
      simpa using hlength
    · rw [heq]
      rw [List.length_cons] at hlength
      exact iff_of_false (Option.some_ne_none x) (by omega)
  · rcases htracks.getBlock_cases with ⟨-, heq⟩ | ⟨y, ys, q, rfl, heq, -⟩
    · rw [heq] at hx
      cases hx
    · rw [heq] at hx
      obtain rfl : y = x := Option.some.inj hx
      exact ⟨(hblock y).2 (Or.inr List.mem_cons_self), fun hout => hdisj y hout List.mem_cons_self⟩
  -- the four results of `releaseBlock`, one after the other
  · rw [(hresult x).1]
    constructor
    · intro h
      split_ifs at h with hdvd hrange hout
      exact hout
    · intro hout
      obtain ⟨hdvd, hrange⟩ := (isBlock_iff hsize).1 ((hblock x.toInt).2 (Or.inl hout))
      rw [if_pos hdvd, if_neg hrange, if_pos hout]
  · rw [(hresult x).1]
    split_ifs with hdvd hrange hout <;> simp [hdvd]
  · rw [(hresult x).1]
    split_ifs with hdvd hrange hout
    · exact iff_of_true rfl ⟨hdvd, hrange⟩
    · exact iff_of_false (by simp) fun h => hrange h.2
    · exact iff_of_false (by simp) fun h => hrange h.2
    · exact iff_of_false (by simp) fun h => hdvd h.1
  · rw [(hresult x).1, isBlock_iff hsize]
    split_ifs with hdvd hrange hout
    · exact iff_of_false (by simp) fun h => h.1.2 hrange
    · exact iff_of_false (by simp) fun h => h.2 hout
    · exact iff_of_true rfl ⟨⟨hdvd, hrange⟩, hout⟩
    · exact iff_of_false (by simp) fun h => hdvd h.1.1

end Splits

/-! ## Runs -/

/-- After a successful initialisation and any calls, with any pointers, the free list consists of
the blocks that are not out, and the allocator answers accordingly. -/
theorem pool_allocator {a p₀ : PoolAllocator} {memory : Int} (hsize : 1 ≤ size) (hn : 1 ≤ n)
    (hint : n * (size + 4) < 2 ^ 31) (hmemory : n * (size + 4) ≤ memory)
    (hinit : (a.init size n memory).2 = p₀) (hrun : Run PoolAllocator.Performs p₀ es p) :
    (a.init size n memory).1 = .success ∧ AllocatorCorrect p n size (blocksOut es) := by
  have hpos : 0 ≤ (n : Int) * (size + 4) := Int.mul_nonneg (Int.natCast_nonneg n) (by omega)
  have hfit : wrapInt (n * (size + 4)) ≤ memory := by
    rwa [wrapInt_of_bounds (by omega) (by omega)]
  obtain ⟨q, heq, htracks⟩ := init_tracks a hn (show 0 < size by omega) hfit
  rw [heq] at hinit ⊢
  obtain rfl : q = p₀ := hinit
  have hsplits : SplitsBlocks p n size (blocksOut es) := by
    refine hrun.invariant (P := fun _ _ => True)
      (I := fun es p => SplitsBlocks p n size (blocksOut es)) (fun _ _ _ _ => trivial)
      ⟨allBlocks n size, htracks, List.Perm.refl _⟩ ?_
    intro es p c p' _ hI hp _
    rw [blocksOut, List.foldl_append]
    exact hI.step hp
  exact ⟨rfl, hsplits.correct⟩

/-- Three blocks of eight bytes: two are handed out and one is taken back. -/
theorem pool_allocator_three : ∃ (es : List (Event PoolAllocator PoolCall)) (p : PoolAllocator),
    blocksOut es = [0] ∧ AllocatorCorrect p 3 8 (blocksOut es) := by
  let p₀ := (PoolAllocator.zero.init 8 (3 : Nat) 36).2
  let p₁ := p₀.getBlock.2
  let p₂ := p₁.getBlock.2
  have hrun : Run PoolAllocator.Performs p₀
      ([] ++ [⟨p₀, .getBlock, p₁⟩] ++ [⟨p₁, .getBlock, p₂⟩] ++
        [⟨p₂, .releaseBlock 8, (p₂.releaseBlock 8).2⟩]) (p₂.releaseBlock 8).2 :=
    ((Run.start.step rfl).step rfl).step rfl
  exact ⟨_, _, by decide, (pool_allocator (by decide) (by decide) (by decide) (by decide) rfl
    hrun).2⟩

end DisastrOS
