import DisastrOS.Abstract.Descriptors
import DisastrOS.Refinement.SystemRun
import Mathlib.Data.List.Induction

/-!
# Descriptors and resources

The list of descriptors of a process and the lists of entries of the resources refer to each other,
and a descriptor never refers to a resource that has been destroyed. The numbers of the descriptors
of a process are distinct as long as it opens fewer than `2 ^ 31` of them.
-/

set_option autoImplicit false

namespace DisastrOS

open Runs LinkedSequence LinkedSequence.ListHeap Model

variable {counted : ProcList → Prop} {es : List (Event Kernel Action)} {s : Kernel}
  {e : Event Kernel Action} {a a' : Model} {n : Addr → Nat}

/-! ## Counting descriptors -/

/-- The PCB `p` is handed out to a new process in this event. -/
def CreatedIn (e : Event Kernel Action) (p : Addr) : Bool :=
  e.act.creates && !e.pre.pcbAllocator.handedOut p && e.post.pcbAllocator.handedOut p

/-- The process `p` gets a descriptor in this event. -/
def OpensIn (e : Event Kernel Action) (p : Addr) : Bool :=
  (e.post.descriptorsOf p).length = (e.pre.descriptorsOf p).length + 1

/-- The number of descriptors that each process has opened since its PCB was handed out. -/
def opened (es : List (Event Kernel Action)) : Addr → Nat :=
  es.foldl (fun n e p => if CreatedIn e p then 0 else if OpensIn e p then n p + 1 else n p)
    fun _ => 0

/-- One more event adds at most one to the number of descriptors that a process has opened. -/
theorem opened_concat : opened (es ++ [e]) = fun p =>
    if CreatedIn e p then 0 else if OpensIn e p then opened es p + 1 else opened es p := by
  simp only [opened, List.foldl_append, List.foldl_cons, List.foldl_nil]

/-- The bound on the number of descriptors that a process opens. -/
def FewOpens (es : List (Event Kernel Action)) : Prop :=
  Throughout (fun fs e => ∀ p, opened (fs ++ [e]) p < 2 ^ 31) es

/-- A process opens at most one descriptor in each event. -/
theorem opened_le (es : List (Event Kernel Action)) (p : Addr) : opened es p ≤ es.length := by
  induction es using List.reverseRecOn with
  | nil => exact Nat.le_refl 0
  | append_singleton es e ih =>
      simp only [opened_concat, List.length_append, List.length_singleton]
      split
      · exact Nat.zero_le _
      · split <;> omega

/-- A short run opens few descriptors. -/
theorem fewOpens_of_length (h : es.length < 2 ^ 31) : FewOpens es := by
  rintro fs e gs rfl p
  have hle := opened_le (fs ++ [e]) p
  simp only [List.length_append, List.length_cons, List.length_nil] at h hle
  omega

/-! ## Numbers of descriptors -/

namespace Model

/-- Descriptor numbers are handed out in ascending order, `n p` of them to the process `p`. -/
structure FdInv (a : Model) (n : Addr → Nat) : Prop where
  next : ∀ p, a.lastFd p = n p
  bound : ∀ p, ∀ d ∈ a.descriptors p, 0 ≤ a.desFd d ∧ a.desFd d < a.lastFd p
  distinct : ∀ p, ((a.descriptors p).map a.desFd).Nodup

theorem FdInv.same (hF : a.FdInv n) (h : SameDescriptors a a') : a'.FdInv n := by
  constructor
  · intro p
    rw [h.lastFd]
    exact hF.next p
  · intro p
    rw [h.lastFd, h.descriptors, h.data]
    exact hF.bound p
  · intro p
    rw [h.descriptors, h.data]
    exact hF.distinct p

theorem FdInv.created {x : Addr} (hF : a.FdInv n) (h : Created a x a') :
    a'.FdInv (Function.update n x 0) := by
  constructor
  · intro p
    rw [h.lastFd]
    by_cases hp : p = x
    · rw [hp, Function.update_self, Function.update_self]
      rfl
    · rw [Function.update_of_ne hp, Function.update_of_ne hp]
      exact hF.next p
  · intro p
    rw [h.lastFd, h.descriptors, h.data]
    by_cases hp : p = x
    · rw [hp, Function.update_self]
      exact fun d hd => absurd hd List.not_mem_nil
    · rw [Function.update_of_ne hp, Function.update_of_ne hp]
      exact hF.bound p
  · intro p
    rw [h.descriptors, h.data]
    by_cases hp : p = x
    · rw [hp, Function.update_self]
      exact List.nodup_nil
    · rw [Function.update_of_ne hp]
      exact hF.distinct p

/-- The new descriptor gets a number that its process has not used before. -/
theorem FdInv.attached {r d e : Addr} {res : ResourceRef} (hF : a.FdInv n)
    (h : Attached a r res d e a') (hI : a.DescInv) (hn : n r + 1 < 2 ^ 31) :
    a'.FdInv (Function.update n r (n r + 1)) := by
  -- the counter does not overflow
  have hlast : wrapInt (a.lastFd r + 1) = a.lastFd r + 1 := by
    rw [hF.next, wrapInt_of_bounds (by omega) (by omega)]
  have hold : ∀ p, ∀ d' ∈ a.descriptors p, a'.desFd d' = a.desFd d' := by
    intro p d' hd'
    rw [h.fd, Function.update_of_ne]
    rintro rfl
    exact (hI.linked p d' hd').2.used.2 h.fresh
  have hnew : a'.desFd d = a.lastFd r := by rw [h.fd, Function.update_self]
  constructor
  · intro p
    rw [h.lastFd]
    by_cases hp : p = r
    · rw [hp, Function.update_self, Function.update_self, hlast, hF.next]
      rfl
    · rw [Function.update_of_ne hp, Function.update_of_ne hp]
      exact hF.next p
  · intro p d' hd'
    rw [h.descriptors] at hd'
    rw [h.lastFd]
    rcases ChildLists.mem_add.1 hd' with hd' | ⟨rfl, rfl⟩
    · have hbound := hF.bound p d' hd'
      rw [hold p d' hd']
      by_cases hp : p = r
      · rw [hp] at hbound
        rw [hp, Function.update_self, hlast]
        omega
      · rwa [Function.update_of_ne hp]
    · have hnext := hF.next p
      rw [hnew, Function.update_self, hlast]
      omega
  · intro p
    rw [h.descriptors]
    by_cases hp : p = r
    · subst hp
      rw [Function.update_self, List.map_append, List.map_singleton,
        List.map_congr_left (hold p), List.nodup_append]
      refine ⟨hF.distinct p, List.nodup_singleton _, fun m hm m' hm' heq => ?_⟩
      obtain ⟨d', hd', rfl⟩ := List.mem_map.1 hm
      rw [List.mem_singleton.1 hm', hnew] at heq
      -- the fds in use are below the counter, so the new one is another
      have hbound := (hF.bound p d' hd').2
      omega
    · rw [Function.update_of_ne hp, List.map_congr_left (hold p)]
      exact hF.distinct p

/-- Closing descriptors leaves the numbers of the others different. -/
theorem FdInv.closed {r : Addr} {rest : List Addr} (hF : a.FdInv n) (h : Closed a r rest a')
    (hrest : rest.Sublist (a.descriptors r)) : a'.FdInv n := by
  have hsub : ∀ p, (a'.descriptors p).Sublist (a.descriptors p) := by
    intro p
    rw [h.descriptors]
    by_cases hp : p = r
    · rw [hp, Function.update_self]
      exact hrest
    · rw [Function.update_of_ne hp]
  constructor
  · intro p
    rw [h.lastFd]
    exact hF.next p
  · intro p d hd
    rw [h.lastFd, h.data]
    exact hF.bound p d ((hsub p).subset hd)
  · intro p
    rw [h.data]
    exact (hF.distinct p).sublist ((hsub p).map _)

end Model

/-! ## Steps -/

/-- A process opens a descriptor where its list grows by one. -/
theorem Simulated.opensIn_iff (h : Simulated counted e a a') {p : Addr} :
    OpensIn e p ↔ (a'.descriptors p).length = (a.descriptors p).length + 1 := by
  rw [OpensIn, h.pre.descriptorsOf_eq h.inv.desc, h.post.descriptorsOf_eq h.inv'.desc,
    decide_eq_true_eq]

theorem Simulated.createdIn_iff (h : Simulated counted e a a') {p : Addr} :
    CreatedIn e p ↔ e.act.creates ∧ ¬ a.Used p ∧ a'.Used p := by
  rw [← h.pre.handedOut_iff_used h.inv.proc, ← h.post.handedOut_iff_used h.inv'.proc]
  simp only [CreatedIn, Bool.and_eq_true, Bool.not_eq_true', Bool.not_eq_true, and_assoc]

theorem not_createdIn {p : Addr} (hact : e.act.creates = false) : ¬ CreatedIn e p := by
  simp only [CreatedIn, hact, Bool.false_and, Bool.false_eq_true, not_false_eq_true]

theorem Simulated.opened_of_shrinks (h : Simulated counted e a a') (hact : e.act.creates = false)
    (hlen : ∀ p, (a'.descriptors p).length ≤ (a.descriptors p).length) :
    opened (es ++ [e]) = opened es := by
  rw [opened_concat]
  funext p
  have hopens : ¬ OpensIn e p := fun ho => by
    have hle := hlen p
    rw [h.opensIn_iff] at ho
    omega
  rw [if_neg (not_createdIn hact), if_neg hopens]

theorem Simulated.opened_of_created (h : Simulated counted e a a') {x : Addr}
    (hact : e.act.creates) (hx : Created a x a') :
    opened (es ++ [e]) = Function.update (opened es) x 0 := by
  rw [opened_concat]
  funext p
  by_cases hp : p = x
  · subst hp
    rw [if_pos (h.createdIn_iff.2 ⟨hact, hx.fresh, (hx.used p).2 (Or.inr rfl)⟩),
      Function.update_self]
  · have hcreated : ¬ CreatedIn e p := fun hc => by
      obtain ⟨-, hnot, hused⟩ := h.createdIn_iff.1 hc
      exact hnot (((hx.used p).1 hused).resolve_right hp)
    have hopens : ¬ OpensIn e p := fun ho => by
      rw [h.opensIn_iff, hx.descriptors, Function.update_of_ne hp] at ho
      omega
    rw [if_neg hcreated, if_neg hopens, Function.update_of_ne hp]

theorem Simulated.opened_of_attached (es : List (Event Kernel Action))
    (h : Simulated counted e a a') {r d u : Addr} {res : ResourceRef}
    (hact : e.act.creates = false) (hA : Attached a r res d u a') :
    opened (es ++ [e]) = Function.update (opened es) r (opened es r + 1) := by
  rw [opened_concat]
  funext p
  rw [if_neg (not_createdIn hact)]
  by_cases hp : p = r
  · subst hp
    have hopens : OpensIn e p := by
      rw [h.opensIn_iff, hA.descriptors, Function.update_self, List.length_append,
        List.length_singleton]
    rw [if_pos hopens, Function.update_self]
  · have hopens : ¬ OpensIn e p := fun ho => by
      rw [h.opensIn_iff, hA.descriptors, Function.update_of_ne hp] at ho
      omega
    rw [if_neg hopens, Function.update_of_ne hp]

/-- Every event counts the descriptor numbers it hands out. -/
theorem Simulated.fdInv (h : Simulated counted e a a') (hF : a.FdInv (opened es))
    (hn : ∀ p, opened (es ++ [e]) p < 2 ^ 31) : a'.FdInv (opened (es ++ [e])) := by
  -- a step that only removes descriptors hands out no number
  have hclosed : ∀ {r : Addr} {rest : List Addr}, e.act.creates = false → Closed a r rest a' →
      rest.Sublist (a.descriptors r) → a'.FdInv (opened (es ++ [e])) := by
    intro r rest hact hc hrest
    rw [h.opened_of_shrinks hact fun p => ?_]
    · exact hF.closed hc hrest
    · rw [hc.descriptors]
      by_cases hp : p = r
      · rw [hp, Function.update_self]
        exact hrest.length_le
      · rw [Function.update_of_ne hp]
  cases h.step.descriptors h.inv h.inv' h.distinct with
  | same hact _ hsame =>
      rw [h.opened_of_shrinks hact fun p => by rw [hsame.descriptors]]
      exact hF.same hsame
  | created x hact hx =>
      rw [h.opened_of_created hact hx]
      exact hF.created hx
  | opened r id type mode res d u hr hact hA =>
      have hcreates : e.act.creates = false := by rw [hact]; rfl
      have heq := h.opened_of_attached es hcreates hA
      have hbound := hn r
      rw [heq, Function.update_self] at hbound
      rw [heq]
      exact hF.attached hA h.inv.desc hbound
  | closed r fd mode d hr hact hd hc =>
      exact hclosed (by rw [hact]; rfl) hc List.erase_sublist
  | left r v hr hact hawaits hc =>
      exact hclosed (by rw [hact]; rfl) hc (List.nil_sublist _)

/-! ## Runs -/

theorem Model.start_fdInv (chars : Int → UInt8) (ints : Int → Int) :
    (Model.start chars ints).FdInv (opened []) := by
  constructor
  · intro p
    simp [Model.start, opened]
  · intro p d hd
    rw [start_descriptors] at hd
    cases hd
  · intro p
    rw [start_descriptors]
    exact List.nodup_nil

/-- Along a run with few opens no two descriptors of a process have the same number. -/
theorem SystemRun.fdInv (h : SystemRun es s) (hn : FewOpens es) :
    ∃ a, Refines exceptZombies s a ∧ a.Inv ∧ a.FdInv (opened es) :=
  h.invariant (J := fun es a => a.FdInv (opened es)) hn start_fdInv
    (fun _ _ _ _ hc => absurd rfl hc) fun _ _ _ _ _ hF hsim hn => hsim.fdInv hF hn

/-- The number of blocks that are handed out. -/
def PoolAllocator.inUse (p : PoolAllocator) : Int := p.sizeMax - p.size

/-- The descriptor `d` of process `p` and the entry for it on the list of its resource refer to each
other, and the resource exists. -/
structure DescriptorLinked (s : Kernel) (p d : Addr) : Prop where
  pcb : s.desPcb d = p
  fd : s.desFd d < s.lastFd p
  resource : s.desResource d ∈ s.resources
  ptr : ∃ e, s.desPtr d = some e ∧ s.desptrDescriptor e = d ∧
    (s.descriptorsPtrsOf (s.desResource d)).count e = 1

/-- The tables of descriptors and resources agree. The lists of descriptors are those of all PCBs,
free ones included. -/
structure DescriptorTables (s : Kernel) : Prop where
  ids : (s.resources.map s.resourceId).Nodup
  linked : ∀ p, ∀ d ∈ s.descriptorsOf p, DescriptorLinked s p d
  fds : ∀ p, ((s.descriptorsOf p).map s.desFd).Nodup
  apart : ∀ p q, ∀ d ∈ s.descriptorsOf p, d ∈ s.descriptorsOf q → p = q
  inUse : s.descriptorAllocator.inUse = s.descriptorPtrAllocator.inUse
  /-- If `Descriptor_alloc` returns a block, then so does `DescriptorPtr_alloc` after it, in every
  state with these two allocators, like the one in which `internal_openResource` calls them. -/
  alloc : ∀ (s' : Kernel) (fd : Int) (res : ResourceRef) (pcb d : Addr),
    s'.descriptorAllocator = s.descriptorAllocator →
    s'.descriptorPtrAllocator = s.descriptorPtrAllocator →
    (s'.descriptorAlloc fd res pcb).2 = some d →
    ((s'.descriptorAlloc fd res pcb).1.descriptorPtrAlloc d).2 ≠ none
  found : ∀ p fd d, s.descriptorListByFd p fd = .ok (some d) → s.desResource d ∈ s.resources

/-- A free descriptor comes with a free entry, since both pools are used alike. -/
theorem Refines.alloc_both (hR : Refines counted s a) (hI : a.DescInv) {s' : Kernel} {fd : Int}
    {res : ResourceRef} {pcb d : Addr} (hd : s'.descriptorAllocator = s.descriptorAllocator)
    (he : s'.descriptorPtrAllocator = s.descriptorPtrAllocator)
    (halloc : (s'.descriptorAlloc fd res pcb).2 = some d) :
    ((s'.descriptorAlloc fd res pcb).1.descriptorPtrAlloc d).2 ≠ none := by
  have hbalance := hI.balance
  rcases hR.freeDescriptors.getBlock_cases with ⟨-, hget⟩ | ⟨x, xs, pool, hfree, hget, -⟩
  · rw [← hd] at hget
    simp [Kernel.descriptorAlloc, hget] at halloc
  · rcases hR.freeDescriptorPtrs.getBlock_cases with ⟨hnil, -⟩ | ⟨y, ys, pool', -, hget', -⟩
    · rw [hfree, hnil, List.length_cons, List.length_nil] at hbalance
      omega
    · rw [← hd] at hget
      rw [← he] at hget'
      simp [Kernel.descriptorAlloc, hget, Kernel.descriptorPtrAlloc, hget']

/-- The tables of descriptors and resources agree in every reachable state. -/
theorem descriptor_tables (h : SystemRun es s) (hn : FewOpens es) : DescriptorTables s := by
  obtain ⟨a, hR, hI, hF⟩ := h.fdInv hn
  have hD := hR.distinct hI.msg
  have hdescriptors : s.descriptorsOf = a.descriptors := funext (hR.descriptorsOf_eq hI.desc)
  have hentries : s.descriptorsPtrsOf = a.descriptorsPtrs :=
    funext (hR.descriptorsPtrsOf_eq hI.desc)
  have hresources := hR.resources_eq hI.res
  refine ⟨?_, fun p d hd => ?_, fun p => ?_, fun p q d hp hq => ?_, ?_,
    fun s' fd res pcb d => hR.alloc_both hI.desc, fun p fd d hfound => ?_⟩
  · rw [hresources, hR.data]
    exact hI.res.ids
  · rw [hdescriptors] at hd
    obtain ⟨hpcb, -, ⟨e, hptr, hback, -, hmem⟩, hres⟩ := hI.desc.linked p d hd
    refine ⟨?_, ?_, ?_, e, ?_, ?_, ?_⟩
    · rw [hR.data]
      exact hpcb
    · rw [hR.data]
      exact (hF.bound p d hd).2
    · rw [hresources, hR.data]
      exact hres
    · rw [hR.data]
      exact hptr
    · rw [hR.data]
      exact hback
    · rw [hentries, hR.data]
      exact List.count_eq_one_of_mem (hD.descriptorsPtrs.nodup' _) hmem
  · rw [hdescriptors, hR.data]
    exact hF.distinct p
  · rw [hdescriptors] at hp hq
    exact hD.descriptors.eq hp hq
  · have hcount := hR.freeDescriptors.count
    have hcount' := hR.freeDescriptorPtrs.count
    rw [PoolAllocator.inUse, PoolAllocator.inUse, hR.freeDescriptors.sizeMax,
      hR.freeDescriptorPtrs.sizeMax, hcount, hcount', hI.desc.balance]
  · rw [hR.descriptorListByFd_eq hI.desc, Except.ok.injEq] at hfound
    rw [hresources, hR.data]
    exact (hI.desc.linked p d (mem_of_descriptorByFd hfound).1).2.resource

/-- Two processes share a queue, and one of them has closed a descriptor. -/
theorem descriptor_tables_two : ∃ s : Kernel, ((s.descriptorsOf 0).length = 1 ∧
    (s.descriptorsOf 17544).length = 1) ∧ DescriptorTables s := by
  obtain ⟨es, s, hrun, hp⟩ := exists_of_executes
    [.syscall (.openResource 1 1 1), .syscall (.openResource 1 1 0),
      .syscall (.closeResource 0 0), .syscall (.spawn 1 0), .syscall .preempt,
      .syscall (.openResource 1 1 0)]
    (fun es s => es.length < 2 ^ 31 ∧ (s.descriptorsOf 0).length = 1 ∧
      (s.descriptorsOf 17544).length = 1) (by decide +kernel)
  obtain ⟨hlen, hrest⟩ := of_decide_eq_true hp
  exact ⟨s, hrest, descriptor_tables hrun (fewOpens_of_length hlen)⟩

end DisastrOS
