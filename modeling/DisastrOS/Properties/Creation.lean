import DisastrOS.Properties.ProcessTable
import DisastrOS.Refinement.Calls

/-!
# Creating processes

`spawn` and `fork` use the blocks that the allocators return without looking whether there are any,
so they complete if and only if neither pool is empty, and never answer with an error. The pids are
the values of a counter modulo `2 ^ 32`: a pid is new as long as that many processes have not been
created.
-/

set_option autoImplicit false

namespace DisastrOS

open Runs LinkedSequence LinkedSequence.ListHeap Model

variable {es : List (Event Kernel Action)} {s s' : Kernel} {e : Event Kernel Action} {a a' : Model}
  {r x : Addr} {c : Syscall} {n : Nat} {pid : Int}

/-- A process with this pid exists. -/
def HasPid (s : Kernel) (pid : Int) : Prop := ∃ x, s.pcbAllocator.handedOut x ∧ s.pid x = pid

/-- A process had this pid in some state of the run. -/
def UsedPid (es : List (Event Kernel Action)) (s : Kernel) (pid : Int) : Prop :=
  HasPid s pid ∨ ∃ e ∈ es, HasPid e.pre pid

/-- The call `c` of the process `r` returns a pid that no process has had before, and a new process
with that pid is at the end of the ready list and of the children list of `r`. -/
def CreatesChild (es : List (Event Kernel Action)) (s : Kernel) (r : Addr) (c : Syscall) : Prop :=
  ∃ s' pid, s.call c = .ok (s', some pid) ∧ s'.running = some r ∧ ¬ UsedPid es s pid ∧
    ∃ x k, ¬ s.pcbAllocator.handedOut x ∧ s'.pid x = pid ∧ s'.ptrPcb k = x ∧
      s'.processes .ready = s.processes .ready ++ [x] ∧ s'.childrenOf r = s.childrenOf r ++ [k]

/-- A pool is empty, and the call `c` answers `DSOS_ESPAWN` and changes no list and no pool. -/
def FailsCleanly (s : Kernel) (c : Syscall) : Prop :=
  (s.pcbAllocator.getBlock.1 = none ∨ s.pcbPtrAllocator.getBlock.1 = none) ∧
    ∃ s', s.call c = .ok (s', some dsosESpawn) ∧ s'.toHeaps = s.toHeaps ∧ s'.toPools = s.toPools ∧
      s'.lastPid = s.lastPid

/-! ## The counter of the pids -/

/-- The values `0`, ..., `n - 1` of the counter come back at `n` if and only if it has wrapped
around. -/
theorem wrapInt_recurs_iff : (∃ i < n, wrapInt n = wrapInt i) ↔ 2 ^ 32 ≤ n := by
  constructor
  · rintro ⟨i, hi, heq⟩
    rw [wrapInt, wrapInt, Int.bmod_def, Int.bmod_def] at heq
    split at heq <;> split at heq <;> omega
  · intro hn
    refine ⟨n - 2 ^ 32, by omega, ?_⟩
    rw [Int.natCast_sub hn, wrapInt, wrapInt]
    exact (Int.sub_bmod_right ..).symm

namespace Model

/-- `n` processes have been created, and the pids of those in use are earlier values of the
counter. -/
structure PidsCounted (a : Model) (n : Nat) : Prop where
  next : a.lastPid = wrapInt n
  earlier : ∀ x, a.Used x → ∃ i < n, a.pid x = wrapInt i

theorem NoneNew.pidsCounted (h : NoneNew a a') (hN : a.PidsCounted n) : a'.PidsCounted n := by
  refine ⟨h.lastPid.trans hN.next, fun x hx => ?_⟩
  rw [h.pid]
  exact hN.earlier x (h.used x hx)

theorem NewChild.pidsCounted (h : NewChild a r x a') (hN : a.PidsCounted n) :
    a'.PidsCounted (n + 1) := by
  constructor
  · rw [h.lastPid, hN.next, wrapInt, wrapInt, Int.bmod_add_bmod]
    rfl
  · intro y hy
    rw [h.pid]
    by_cases hyx : y = x
    · rw [hyx, Function.update_self]
      exact ⟨n, Nat.lt_succ_self n, hN.next⟩
    · rw [Function.update_of_ne hyx]
      obtain ⟨i, hi, heq⟩ := hN.earlier y (((h.used y).1 hy).resolve_right hyx)
      exact ⟨i, Nat.lt_succ_of_lt hi, heq⟩

/-- All values of the counter so far are pids of processes in use, or were those of processes in an
earlier state. -/
def PidsHandedOut (es : List (Event Kernel Action)) (a : Model) (n : Nat) : Prop :=
  ∀ i < n, (∃ x, a.Used x ∧ a.pid x = wrapInt i) ∨ ∃ e ∈ es, HasPid e.pre (wrapInt i)

end Model

theorem Refines.hasPid_iff (hR : Refines exceptZombies s a) (hP : a.ProcInv) :
    HasPid s pid ↔ ∃ x, a.Used x ∧ a.pid x = pid := by
  simp only [HasPid, hR.handedOut_iff_used hP]
  rw [hR.data]

/-- A pid stays handed out when its process is freed. -/
theorem Simulated.pidsHandedOut (h : Simulated exceptZombies e a a')
    (hout : PidsHandedOut es a n) : PidsHandedOut (es ++ [e]) a' n := by
  intro i hi
  right
  rcases hout i hi with hx | ⟨f, hf, hpid⟩
  · exact ⟨e, by simp, (h.pre.hasPid_iff h.inv.proc).2 hx⟩
  · exact ⟨f, List.mem_append_left _ hf, hpid⟩

theorem Model.start_lastPid (chars : Int → UInt8) (ints : Int → Int) :
    (Model.start chars ints).lastPid = wrapInt (1 : Nat) :=
  (wrapInt_of_bounds (x := 1) (by decide) (by decide)).symm

theorem Model.start_pid (chars : Int → UInt8) (ints : Int → Int) :
    (Model.start chars ints).pid 0 = wrapInt (0 : Nat) :=
  (wrapInt_of_bounds (x := 0) (by decide) (by decide)).symm

theorem SystemRun.pids (h : SystemRun es s) : ∃ a, Refines exceptZombies s a ∧ a.Inv ∧
    a.PidsCounted (processesCreated es) ∧ PidsHandedOut es a (processesCreated es) := by
  refine h.invariant_of_step (J := fun es a => a.PidsCounted (processesCreated es) ∧
      PidsHandedOut es a (processesCreated es))
    (fun chars ints => ⟨⟨start_lastPid chars ints, fun x hx => ?_⟩, ?_⟩)
    fun es e a a' _ ⟨hN, hout⟩ hsim => ?_
  · rw [start_used hx]
    exact ⟨0, Nat.zero_lt_one, start_pid chars ints⟩
  · intro i hi
    obtain rfl : i = 0 := by
      rw [processesCreated, List.countP_nil] at hi
      omega
    exact Or.inl ⟨0, Or.inl rfl, start_pid chars ints⟩
  · have hold := hsim.pidsHandedOut hout
    rw [processesCreated_concat]
    rcases hsim.step.newcomer hsim.inv hsim.inv' with ⟨hc, hnone⟩ | ⟨hc, r, x, hnew⟩
    · rw [hc, if_neg Bool.false_ne_true, Nat.add_zero]
      exact ⟨hnone.pidsCounted hN, hold⟩
    · rw [hc, if_pos rfl]
      refine ⟨hnew.pidsCounted hN, fun i hi => ?_⟩
      rcases Nat.lt_succ_iff_lt_or_eq.1 hi with hlt | rfl
      · exact hold i hlt
      · refine Or.inl ⟨x, (hnew.used x).2 (Or.inr rfl), ?_⟩
        rw [hnew.pid, Function.update_self, hN.next]

/-- The pids used so far are the values of the counter so far. -/
theorem SystemRun.usedPid_iff (h : SystemRun es s) :
    UsedPid es s pid ↔ ∃ i < processesCreated es, pid = wrapInt i := by
  obtain ⟨a, hR, hI, hN, hout⟩ := h.pids
  constructor
  · rintro (hpid | ⟨e, he, hpid⟩)
    · obtain ⟨x, hx, rfl⟩ := (hR.hasPid_iff hI.proc).1 hpid
      exact hN.earlier x hx
    · obtain ⟨fs, gs, rfl⟩ := List.append_of_mem he
      obtain ⟨b, hRb, hIb, hNb, -⟩ := h.split.1.pids
      obtain ⟨x, hx, rfl⟩ := (hRb.hasPid_iff hIb.proc).1 hpid
      obtain ⟨i, hi, heq⟩ := hNb.earlier x hx
      exact ⟨i, Nat.lt_of_lt_of_le hi (processesCreated_le_append ..), heq⟩
  · rintro ⟨i, hi, heq⟩
    rw [heq]
    exact (hout i hi).imp (hR.hasPid_iff hI.proc).2 id

/-! ## The call -/

/-- A completed `spawn` or `fork` has found a block in both pools. -/
theorem Called.created (h : Called s a r c s' a') (hc : (Action.syscall c).creates) :
    ∃ x k xs ks, a.freePcbs = x :: xs ∧ a.freePcbPtrs = k :: ks ∧
      a' = (a.enter r c).create r x k xs ks := by
  obtain ⟨-, hstep, -, -⟩ := h
  cases hstep with
  | fork hs => cases hs with | created hx hk => exact ⟨_, _, _, _, hx, hk, rfl⟩
  | spawn hs => cases hs with | created hx hk => exact ⟨_, _, _, _, hx, hk, rfl⟩
  | _ => cases hc

section Call

variable (hR : Refines exceptZombies s a) (hI : a.Inv)
include hR hI

/-- A call that completes does not find a pool empty, so it does not fail. -/
theorem Refines.not_failsCleanly (hr : a.running = some r) (hc : (Action.syscall c).creates) :
    ¬ FailsCleanly s c := by
  rintro ⟨hnone, s', hcall, -⟩
  obtain ⟨a', hcalled, -⟩ := hR.called hI hr hcall
  obtain ⟨x, k, xs, ks, hx, hk, -⟩ := hcalled.created hc
  rw [hR.pcbs.getBlock_head, hR.pcbPtrs.getBlock_head, hx, hk] at hnone
  rcases hnone with hnone | hnone <;> cases hnone

/-- What a completed `spawn` or `fork` does. -/
theorem Refines.createsChild_iff (hr : a.running = some r) (hc : (Action.syscall c).creates)
    (h : Called s a r c s' a') : CreatesChild es s r c ↔ ¬ UsedPid es s a.lastPid := by
  have hcall := h.call
  have hpost := h.post
  have hI' := h.inv
  obtain ⟨x, k, xs, ks, hx, hk, rfl⟩ := h.created hc
  have hret : ((a.enter r c).create r x k xs ks).syscallRetvalue r = a.lastPid :=
    Function.update_self ..
  rw [show ((a.enter r c).create r x k xs ks).running = some r from hr, Option.map_some,
    hret] at hcall
  constructor
  · rintro ⟨s₁, pid, hcall₁, -, hfresh, -⟩
    obtain ⟨-, heq⟩ := Prod.mk.inj (Except.ok.inj (hcall.symm.trans hcall₁))
    rwa [Option.some.inj heq]
  · intro hfresh
    refine ⟨s', a.lastPid, hcall, hpost.running_eq.trans hr, hfresh, x, k, ?_, ?_, ?_, ?_, ?_⟩
    · rw [hR.pcbs.handedOut_iff, hx]
      exact fun hout => hout.2 List.mem_cons_self
    · rw [hpost.data]
      exact Function.update_self ..
    · rw [hpost.data]
      exact Function.update_self ..
    · rw [hpost.processes_eq hI'.proc, hR.processes_eq hI.proc]
      rfl
    · rw [hpost.childrenOf_eq hI'.kid, hR.childrenOf_eq hI.kid]
      exact Function.update_self ..

/-- A `spawn` or `fork` completes if no pool is empty. -/
theorem Refines.creates {k : Addr} {xs ks : List Addr} (hr : a.running = some r)
    (hc : (Action.syscall c).creates) (hon : s.shutdownNow = false) (hx : a.freePcbs = x :: xs)
    (hk : a.freePcbPtrs = k :: ks) :
    ∃ s', Called s a r c s' ((a.enter r c).create r x k xs ks) ∧
      s.Completes (.syscall c) s' ∧ s'.shutdownNow = false := by
  rcases hR.call_creates hI hr hc with ⟨hnil, -⟩ | ⟨s', a', hcalled⟩
  · rw [hx, hk] at hnil
    rcases hnil with hnil | hnil <;> cases hnil
  · obtain ⟨x', k', xs', ks', hx', hk', rfl⟩ := hcalled.created hc
    obtain ⟨rfl, rfl⟩ := List.cons.inj (hx.symm.trans hx')
    obtain ⟨rfl, rfl⟩ := List.cons.inj (hk.symm.trans hk')
    refine ⟨s', hcalled, completes_of_call hon hcalled.call, ?_⟩
    rw [hcalled.post.data, ← hon, hR.data]
    rfl

end Call

/-- In a state at the end of a run, `spawn` and `fork` create a process with a new pid or fail
without a change if and only if neither pool is empty and fewer than `2 ^ 32` processes have been
created. -/
theorem creates_cleanly_iff (h : SystemRun es s) (hr : s.running = some r)
    (hc : (Action.syscall c).creates) : CreatesChild es s r c ∨ FailsCleanly s c ↔
      (s.pcbAllocator.getBlock.1 ≠ none ∧ s.pcbPtrAllocator.getBlock.1 ≠ none) ∧
        processesCreated es < 2 ^ 32 := by
  obtain ⟨a, hR, hI, hN, -⟩ := h.pids
  have hr' : a.running = some r := hR.running_eq.symm.trans hr
  have hnew : ¬ UsedPid es s a.lastPid ↔ processesCreated es < 2 ^ 32 := by
    rw [h.usedPid_iff, hN.next, wrapInt_recurs_iff, Nat.not_le]
  rw [or_iff_left (hR.not_failsCleanly hI hr' hc), hR.pcbs.getBlock_head,
    hR.pcbPtrs.getBlock_head, ← hnew]
  rcases hR.call_creates hI hr' hc with ⟨hnil, hfault⟩ | ⟨s', a', hcalled⟩
  · refine iff_of_false (fun hcreates => ?_) fun ⟨hblocks, _⟩ => ?_
    · obtain ⟨s', pid, hcall, -⟩ := hcreates
      rw [hfault] at hcall
      cases hcall
    · rw [ne_eq, ne_eq, List.head?_eq_none_iff, List.head?_eq_none_iff] at hblocks
      exact hnil.elim hblocks.1 hblocks.2
  · obtain ⟨x, k, xs, ks, hx, hk, -⟩ := hcalled.created hc
    rw [hR.createsChild_iff hI hr' hc hcalled, hx, hk, List.head?_cons, List.head?_cons]
    exact ⟨fun hfresh => ⟨⟨Option.some_ne_none x, Option.some_ne_none k⟩, hfresh⟩, fun h => h.2⟩

/-- A child forks. -/
theorem creates_cleanly_iff_child : ∃ (es : List (Event Kernel Action)) (s : Kernel),
    es.length = 2 ∧ CreatesChild es s 17544 .fork := by
  obtain ⟨es, s, hrun, hp⟩ := exists_of_executes [.syscall (.spawn 1 0), .syscall .preempt]
    (fun es s => s.running = some 17544 ∧ (s.pcbAllocator.getBlock.1 ≠ none ∧
      s.pcbPtrAllocator.getBlock.1 ≠ none) ∧ processesCreated es < 2 ^ 32 ∧ es.length = 2 ∧
      (s.call .fork).toOption.map (·.2) ≠ some (some dsosESpawn)) (by decide +kernel)
  obtain ⟨hr, hblocks, hn, hlen, hret⟩ := of_decide_eq_true hp
  refine ⟨es, s, hlen, ((creates_cleanly_iff hrun hr rfl).2 ⟨hblocks, hn⟩).resolve_right ?_⟩
  rintro ⟨-, s', hcall, -⟩
  rw [hcall] at hret
  exact hret rfl

/-! ## An empty pool -/

/-- `init` has forked `n` times. -/
structure Forked (n : Nat) (es : List (Event Kernel Action)) (s : Kernel) (a : Model) : Prop where
  run : SystemRun es s
  forks : es.map (·.act) = List.replicate n (.syscall .fork)
  refines : Refines exceptZombies s a
  inv : a.Inv
  running : a.running = some 0
  on : s.shutdownNow = false
  pcbs : a.freePcbs.length + n = maxNumProcesses - 1
  pcbPtrs : a.freePcbPtrs.length + n = maxNumProcesses

/-- `init` can fork until there is no PCB left. -/
theorem exists_forked (hn : n < maxNumProcesses) : ∃ es s a, Forked n es s a := by
  induction n with
  | zero =>
      obtain ⟨s, hrun, hR⟩ := exists_start
      refine ⟨[], s, _, hrun, rfl, hR, Model.start_inv _ _, rfl, ?_, ?_, ?_⟩
      · rw [hR.data]
        rfl
      · simp [Model.start]
      · simp [Model.start]
  | succ n ih =>
      obtain ⟨es, s, a, h⟩ := ih (Nat.lt_of_succ_lt hn)
      have hpcbs := h.pcbs
      have hptrs := h.pcbPtrs
      simp only [maxNumProcesses] at hn hpcbs hptrs
      obtain ⟨x, xs, hx⟩ := List.exists_cons_of_length_pos (show 0 < a.freePcbs.length by omega)
      obtain ⟨k, ks, hk⟩ := List.exists_cons_of_length_pos (show 0 < a.freePcbPtrs.length by omega)
      obtain ⟨s', hcalled, hstep, hon⟩ :=
        h.refines.creates (c := .fork) h.inv h.running rfl h.on hx hk
      rw [hx, List.length_cons] at hpcbs
      rw [hk, List.length_cons] at hptrs
      refine ⟨_, s', _, h.run.step hstep, ?_, hcalled.post, hcalled.inv, h.running, hon, ?_, ?_⟩
      · rw [List.map_append, h.forks, List.replicate_succ']
        rfl
      · show xs.length + (n + 1) = 1023
        omega
      · show ks.length + (n + 1) = 1024
        omega

/-- `init` forks 1023 times, and the next `fork` uses a null pointer. -/
theorem fork_uses_null : ∃ (es : List (Event Kernel Action)) (s : Kernel), SystemRun es s ∧
    es.map (·.act) = List.replicate 1023 (.syscall .fork) ∧ s.running = some 0 ∧
    s.call .fork = .error .nullPointer ∧ ¬ (CreatesChild es s 0 .fork ∨ FailsCleanly s .fork) := by
  obtain ⟨es, s, a, h⟩ := exists_forked (n := 1023) (by decide)
  have hnil : a.freePcbs = [] := by
    have hpcbs := h.pcbs
    simp only [maxNumProcesses] at hpcbs
    exact List.length_eq_zero_iff.1 (by omega)
  have hfault : s.call .fork = .error .nullPointer := by
    rcases h.refines.call_creates (c := .fork) h.inv h.running rfl with
      ⟨-, hfault⟩ | ⟨s', a', hcalled⟩
    · exact hfault
    · obtain ⟨x, k, xs, ks, hx, -⟩ := hcalled.created rfl
      rw [hnil] at hx
      cases hx
  refine ⟨es, s, h.run, h.forks, h.refines.running_eq.trans h.running, hfault, ?_⟩
  rintro (⟨s', pid, hcall, -⟩ | ⟨-, s', hcall, -⟩)
  · rw [hfault] at hcall
    cases hcall
  · rw [hfault] at hcall
    cases hcall

end DisastrOS
