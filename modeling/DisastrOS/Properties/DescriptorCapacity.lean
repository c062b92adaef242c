import DisastrOS.Abstract.DescriptorPool
import DisastrOS.Properties.Creation
import DisastrOS.Properties.OpenFailures

/-!
# The capacity for descriptors

The buffers of the descriptors have a share for every process, but the allocators are told to manage
as many blocks as there are processes. So an open fails for want of a descriptor if and only if that
many are open in the whole system, however few each process has.
-/

set_option autoImplicit false

namespace DisastrOS

open Runs LinkedSequence LinkedSequence.ListHeap Model

variable {es : List (Event Kernel Action)} {s s' : Kernel} {a a' : Model} {r next : Addr}
  {rest todo done : List Addr} {id type mode : Int32}

/-- The number of entries on the lists of all resources: one for each descriptor that has been
opened and not been closed. -/
def Kernel.openEntries (s : Kernel) : Nat := (s.resources.flatMap s.descriptorsPtrsOf).length

/-- Every process has fewer descriptors than its share. -/
def FewDescriptors (s : Kernel) : Prop :=
  ∀ p, s.pcbAllocator.handedOut p → (s.descriptorsOf p).length < maxNumDescriptorsPerProcess

/-- `openResource` of the process `r` answers `DSOS_ERESOURCENOFD`, and `r` has no new descriptor.
-/
def FailsWithNoFd (s : Kernel) (r : Addr) (id type mode : Int32) : Prop :=
  ∃ s', s.call (.openResource id type mode) = .ok (s', some dsosEResourceNoFd) ∧
    s'.descriptorsOf r = s.descriptorsOf r

/-! ## The call -/

section Call

variable (hR : Refines exceptZombies s a) (hI : a.Inv)
include hR hI

theorem Refines.openEntries_eq : s.openEntries = a.openEntries := by
  rw [Kernel.openEntries, hR.resources_eq hI.res, funext (hR.descriptorsPtrsOf_eq hI.desc),
    Model.openEntries]

/-- A call that passes the checks fails for want of a descriptor if and only if none is free and
nothing else is missing. -/
theorem Refines.failsWithNoFd_iff (hr : a.running = some r)
    (hpass : ¬ a.OpenRefused id.toInt type.toInt mode.toInt) :
    FailsWithNoFd s r id type mode ↔
      ¬ a.OpenStuck id.toInt type.toInt mode.toInt ∧ a.freeDescriptors = [] := by
  rcases hR.call_openResource hI hr id type mode with ⟨hstuck, f, hfault⟩ | ⟨s', a', hcalled⟩
  · refine iff_of_false (fun ⟨s', hcall, _⟩ => ?_) fun h => h.1 hstuck
    rw [hfault] at hcall
    cases hcall
  · have hlists := hcalled.post.descriptorsOf_eq hcalled.inv.desc r
    have hcall := (hcalled.returns rfl hr).1
    rcases hcalled.open_outcome with ⟨hrefused, -⟩ | ⟨res, a₁, hprep, hattach⟩
    · exact absurd hrefused hpass
    · have hfree : ¬ a.OpenStuck id.toInt type.toInt mode.toInt := hprep.not_stuck
      have hsame : a₁.descriptors = a.descriptors := hprep.descriptors_eq.1
      cases hattach with
      | noDescriptor hnil =>
          rw [answer_retvalue] at hcall
          refine iff_of_true ⟨s', hcall, ?_⟩ ⟨hfree, hnil⟩
          rw [hlists, hR.descriptorsOf_eq hI.desc]
          exact congrFun hsame r
      | @opened d e ds es hd _ =>
          have hne : a.freeDescriptors ≠ [] := by
            rw [show a.freeDescriptors = d :: ds from hd]
            exact List.cons_ne_nil d ds
          refine iff_of_false (fun ⟨s'', hcall', hkeep⟩ => ?_) fun h => hne h.2
          obtain ⟨rfl, -⟩ := Prod.mk.inj (Except.ok.inj (hcall'.symm.trans hcall))
          rw [hlists, hR.descriptorsOf_eq hI.desc, attach_descriptors, hsame] at hkeep
          have hlen := congrArg List.length hkeep
          rw [List.length_append, List.length_singleton] at hlen
          omega

end Call

theorem SystemRun.coversEntries (h : SystemRun es s) :
    ∃ a, Refines exceptZombies s a ∧ a.Inv ∧ a.CoversEntries := by
  refine h.invariant_of_step (J := fun _ a => a.CoversEntries) (fun chars ints e he => ?_)
    fun es e a a' _ hC hsim => hsim.step.coversEntries hC hsim.inv
  exact Or.inl (mem_allBlocks.2 he)

/-- In a reachable state, an `openResource` that passes the checks does not fail for want of a
descriptor if and only if it is stuck before it asks for one, or fewer than 1024 descriptors are
open in all. -/
theorem descriptor_capacity_iff (h : Reachable s) (hr : s.running = some r)
    (hpass : ¬ s.OpenRefused id.toInt type.toInt mode.toInt) :
    ¬ FailsWithNoFd s r id type mode ↔
      s.OpenStuck id.toInt type.toInt mode.toInt ∨ s.openEntries < maxNumProcesses := by
  obtain ⟨es, hrun⟩ := h
  obtain ⟨a, hR, hI, hC⟩ := hrun.coversEntries
  rw [hR.openRefused_iff hI] at hpass
  have hcount := hC.count hI.desc (hR.distinct hI.msg)
  have hfree : a.freeDescriptors ≠ [] ↔ a.openEntries < maxNumProcesses := by
    rw [← List.length_pos_iff]
    omega
  rw [hR.failsWithNoFd_iff hI (hR.running_eq.symm.trans hr) hpass, hR.openStuck_iff hI,
    hR.openEntries_eq hI, not_and_or, not_not, ← hfree]

/-- One descriptor is open, and the process that has it opens the resource again. -/
theorem descriptor_capacity_iff_again : ∃ s : Kernel, s.openEntries = 1 ∧
    ¬ FailsWithNoFd s 0 1 0 0 := by
  obtain ⟨es, s, hrun, hp⟩ := exists_of_executes [.syscall (.openResource 1 0 1)]
    (fun _ s => s.running = some 0 ∧ s.shutdownNow = false ∧ s.openEntries = 1 ∧
      s.resourceById 1 = some (.standard 0)) (by decide +kernel)
  obtain ⟨hr, hon, hone, hid⟩ := of_decide_eq_true hp
  obtain ⟨a, hR, hI⟩ := hrun.refines
  rw [hR.resourceById_eq hI.res] at hid
  have hhoarding : Hoarding s a 0 := ⟨⟨es, hrun⟩, hR, hI, hr, hon, 0, hid⟩
  refine ⟨s, hone, (descriptor_capacity_iff ⟨es, hrun⟩ hr ?_).2 (Or.inr ?_)⟩
  · rw [hR.openRefused_iff hI]
    exact hhoarding.passes
  · rw [hone]
    decide

/-! ## Many processes with few descriptors each -/

/-- The running process lets the first of the ready ones run. -/
theorem Hoarding.preempt (h : Hoarding s a r) (htimers : a.timerList = [])
    (hready : a.procs .ready = next :: rest) : ∃ s' a', Hoarding s' a' next ∧
      a'.procs .ready = rest ++ [r] ∧ a'.descriptors = a.descriptors ∧
      a'.freeDescriptors = a.freeDescriptors ∧ a'.timerList = [] := by
  have hr : a.running = some r := h.refines.running_eq.symm.trans h.running
  obtain ⟨s', a', hcalled⟩ := h.refines.call_preempt h.inv hr
  have hcomplete := completes_of_call h.on hcalled.call
  have hpost := hcalled.post
  have hI' := hcalled.inv
  have hnone : ∀ {b : Model}, Wakes [] (a.enter r .preempt) b → b = a.enter r .preempt := by
    intro b hw
    cases hw with
    | stop _ => rfl
    | wake ht _ _ _ => cases (show a.timerList = _ from ht).symm.trans htimers
  cases hcalled.step with
  | preempt hs =>
      cases hs with
      | idle hw hnil =>
          rw [hnone hw] at hnil
          cases (show a.procs .ready = [] from hnil).symm.trans hready
      | switch hw hr' hcons =>
          obtain rfl := hnone hw
          obtain rfl := Option.some.inj (hr.symm.trans hr')
          obtain ⟨rfl, rfl⟩ := List.cons.inj (hready.symm.trans hcons)
          refine ⟨s', _, ⟨h.reachable.step hcomplete, hpost, hI', hpost.running_eq, ?_, h.resource⟩,
            ?_, rfl, rfl, htimers⟩
          · rw [hpost.data, ← h.on, h.refines.data]
            rfl
          · show Function.update a.procs .ready (rest ++ [r]) .ready = rest ++ [r]
            exact Function.update_self ..

/-- The processes `r` and `todo` have no descriptors, and `todo` run next, one after the other. -/
structure Spreading (s : Kernel) (a : Model) (r : Addr) (todo : List Addr) : Prop where
  hoarding : Hoarding s a r
  ready : ∃ done, a.procs .ready = todo ++ done
  none : ∀ p ∈ r :: todo, a.descriptors p = []
  few : ∀ p, (a.descriptors p).length < maxNumDescriptorsPerProcess
  timers : a.timerList = []

section Spreading

variable (h : Spreading s a r todo)
include h

/-- Everybody still has few descriptors when the running process has opened up to 31. -/
theorem Spreading.few_of_hoards {k : Nat} (hk : k ≤ 31) (hoards : Hoards a r k a') (p : Addr) :
    (a'.descriptors p).length < maxNumDescriptorsPerProcess := by
  by_cases hp : p = r
  · rw [hp, hoards.opened, h.none r List.mem_cons_self, List.length_nil,
      maxNumDescriptorsPerProcess]
    omega
  · rw [hoards.others p hp]
    exact h.few p

theorem Spreading.last (hfree : a.freeDescriptors.length ≤ 31) : ∃ s' a' r', Hoarding s' a' r' ∧
    a'.freeDescriptors = [] ∧ ∀ p, (a'.descriptors p).length < maxNumDescriptorsPerProcess := by
  obtain ⟨s', a', h', hoards⟩ := h.hoarding.openMany (Nat.le_refl _)
  refine ⟨s', a', r, h', List.length_eq_zero_iff.1 ?_, h.few_of_hoards hfree hoards⟩
  exact Nat.add_eq_right.1 hoards.free

end Spreading

/-- The running process opens 31 descriptors, and the next one runs. -/
theorem Spreading.advance (h : Spreading s a r (next :: todo))
    (hfree : 31 ≤ a.freeDescriptors.length) : ∃ s' a', Spreading s' a' next todo ∧
      a'.freeDescriptors.length + 31 = a.freeDescriptors.length := by
  obtain ⟨s₁, a₁, h₁, hoards⟩ := h.hoarding.openMany hfree
  obtain ⟨done, hready⟩ := h.ready
  obtain ⟨s₂, a₂, h₂, hready₂, hlists, hpool, htimers⟩ :=
    h₁.preempt (hoards.timerList.trans h.timers) ((congrFun hoards.procs .ready).trans hready)
  have hr : a.running = some r := h.hoarding.refines.running_eq.symm.trans h.hoarding.running
  refine ⟨s₂, a₂, ⟨h₂, ⟨done ++ [r], ?_⟩, fun p hp => ?_, fun p => ?_, htimers⟩, ?_⟩
  · rw [hready₂]
    exact List.append_assoc todo done [r]
  · -- a ready process is not the one that has opened
    have hpr : p ≠ r := by
      rintro rfl
      refine (h.hoarding.inv.proc.running_fresh hr).1 .ready ?_
      rw [hready]
      exact List.mem_append_left _ hp
    rw [hlists, hoards.others p hpr]
    exact h.none p (List.mem_cons_of_mem r hp)
  · rw [hlists]
    exact h.few_of_hoards (Nat.le_refl _) hoards p
  · rw [hpool]
    exact hoards.free

/-- Up to 31 descriptors for each of these processes exhaust the pool. -/
theorem Spreading.exhaust (h : Spreading s a r todo)
    (hfree : a.freeDescriptors.length ≤ 31 * (todo.length + 1)) : ∃ s' a' r', Hoarding s' a' r' ∧
      a'.freeDescriptors = [] ∧ ∀ p, (a'.descriptors p).length < maxNumDescriptorsPerProcess := by
  induction todo generalizing s a r with
  | nil => exact h.last hfree
  | cons next todo ih =>
      by_cases hlast : a.freeDescriptors.length ≤ 31
      · exact h.last hlast
      · obtain ⟨s', a', h', hlen⟩ := h.advance (Nat.le_of_not_le hlast)
        rw [List.length_cons] at hfree
        exact ih h' (by omega)

/-- `init` has a descriptor, and `n` other processes are ready and have none. -/
structure Crowded (s : Kernel) (a : Model) (n : Nat) : Prop where
  hoarding : Hoarding s a 0
  timers : a.timerList = []
  free : a.freeDescriptors.length = 1023
  ready : (a.procs .ready).length = n
  none : ∀ p ∈ a.procs .ready, a.descriptors p = []
  pcbs : a.freePcbs.length + n = 1023
  pcbPtrs : a.freePcbPtrs.length + n = 1024

/-- `init` can spawn processes until there is no PCB left. -/
theorem exists_crowded {n : Nat} (hn : n < maxNumProcesses) : ∃ s a, Crowded s a n := by
  induction n with
  | zero =>
      obtain ⟨es, s, hrun, hp⟩ := exists_of_executes [.syscall (.openResource 1 0 1)]
        (fun _ s => s.running = some 0 ∧ s.shutdownNow = false ∧
          s.resourceById 1 = some (.standard 0) ∧ s.timers = [] ∧ s.processes .ready = [] ∧
          s.descriptorAllocator.size = 1023 ∧ s.pcbAllocator.size = 1023 ∧
          s.pcbPtrAllocator.size = 1024) (by decide +kernel)
      obtain ⟨hr, hon, hid, htimers, hready, hfree, hpcbs, hptrs⟩ := of_decide_eq_true hp
      obtain ⟨a, hR, hI⟩ := hrun.refines
      rw [hR.resourceById_eq hI.res] at hid
      rw [hR.timers_eq hI.timer] at htimers
      rw [hR.processes_eq hI.proc] at hready
      rw [hR.freeDescriptors.count] at hfree
      rw [hR.pcbs.count] at hpcbs
      rw [hR.pcbPtrs.count] at hptrs
      refine ⟨s, a, ⟨⟨es, hrun⟩, hR, hI, hr, hon, 0, hid⟩, htimers, by omega, ?_, fun p hp => ?_,
        by omega, by omega⟩
      · rw [hready, List.length_nil]
      · rw [hready] at hp
        cases hp
  | succ n ih =>
      obtain ⟨s, a, h⟩ := ih (Nat.lt_of_succ_lt hn)
      have hpcbs := h.pcbs
      have hptrs := h.pcbPtrs
      simp only [maxNumProcesses] at hn
      obtain ⟨x, xs, hx⟩ := List.exists_cons_of_length_pos (show 0 < a.freePcbs.length by omega)
      obtain ⟨k, ks, hk⟩ := List.exists_cons_of_length_pos (show 0 < a.freePcbPtrs.length by omega)
      have hH := h.hoarding
      have hr : a.running = some 0 := hH.refines.running_eq.symm.trans hH.running
      obtain ⟨s', hcalled, hstep, hon⟩ :=
        hH.refines.creates (c := .spawn 1 0) hH.inv hr rfl hH.on hx hk
      rw [hx, List.length_cons] at hpcbs
      rw [hk, List.length_cons] at hptrs
      refine ⟨s', _, ⟨hH.reachable.step hstep, hcalled.post, hcalled.inv,
        hcalled.post.running_eq.trans hr, hon, hH.resource⟩, h.timers, h.free, ?_, fun p hp => ?_,
        ?_, ?_⟩
      · show (a.procs .ready ++ [x]).length = n + 1
        rw [List.length_append, h.ready, List.length_singleton]
      · show Function.update a.descriptors x [] p = []
        by_cases hpx : p = x
        · rw [hpx, Function.update_self]
        · rw [Function.update_of_ne hpx]
          have hp' : p ∈ a.procs .ready ++ [x] := hp
          exact h.none p ((List.mem_append.1 hp').resolve_right (by simpa using hpx))
      · show xs.length + (n + 1) = 1023
        omega
      · show ks.length + (n + 1) = 1024
        omega

/-- Of 34 processes, 33 have 31 descriptors each and `init` has one, and the next open fails. -/
theorem descriptors_run_out : ∃ (s : Kernel) (r : Addr), Reachable s ∧ s.running = some r ∧
    FewDescriptors s ∧ ¬ s.OpenRefused 1 0 0 ∧ FailsWithNoFd s r 1 0 0 := by
  obtain ⟨s, a, h⟩ := exists_crowded (n := 33) (by decide)
  have hready := h.ready
  have hfree := h.free
  obtain ⟨p, todo, hlist⟩ := List.exists_cons_of_length_eq_add_one hready
  obtain ⟨s₁, a₁, h₁, hready₁, hlists, hpool, htimers⟩ := h.hoarding.preempt h.timers hlist
  have hspread : Spreading s₁ a₁ p todo := by
    refine ⟨h₁, ⟨[0], hready₁⟩, fun q hq => ?_, fun q => ?_, htimers⟩
    · rw [hlists]
      exact h.none q (hlist ▸ hq)
    · have hlen := h₁.inv.desc.length_le (h₁.refines.distinct h₁.inv.msg) q
      rw [hpool, hfree] at hlen
      simp only [maxNumProcesses, maxNumDescriptorsPerProcess] at hlen ⊢
      omega
  rw [hlist, List.length_cons] at hready
  obtain ⟨s', a', r', h', hnil, hfew⟩ := hspread.exhaust (by rw [hpool]; omega)
  refine ⟨s', r', h'.reachable, h'.running, fun p _ => ?_, ?_, ?_⟩
  · rw [h'.refines.descriptorsOf_eq h'.inv.desc]
    exact hfew p
  · rw [h'.refines.openRefused_iff h'.inv]
    exact h'.passes
  · exact (h'.refines.failsWithNoFd_iff h'.inv (h'.refines.running_eq.symm.trans h'.running)
      h'.passes).2 ⟨h'.not_stuck, hnil⟩

end DisastrOS
