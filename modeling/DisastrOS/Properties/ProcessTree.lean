import DisastrOS.Abstract.ProcessTree
import DisastrOS.Properties.ProcessTable

/-!
# The tree of the processes

While pids do not wrap around, the children lists form a tree with `init` as its root, whatever has
been created, re-parented and collected. So there is no circle of processes that wait for each
other. This is about runs without restarts: after one, the former `init` has no parent and is not
the root any more.
-/

set_option autoImplicit false

namespace DisastrOS

open Runs LinkedSequence LinkedSequence.ListHeap Model ChildLists

variable {es : List (Event Kernel Action)} {s : Kernel} {a : Model}

/-- The process `x` is `p`, a child of `p`, a child of one of its children, and so on. -/
abbrev Kernel.DescendsFrom (s : Kernel) (p x : Addr) : Prop := Descends s.ptrPcb s.childrenOf p x

/-- The process `w` is blocked in `wait`. -/
def Kernel.BlockedInWait (s : Kernel) (w : Addr) : Prop :=
  w ∈ s.processes .waiting ∧ s.syscallNum w = dsosCallWait

/-- The processes in use are a tree. -/
structure ProcessTree (s : Kernel) : Prop where
  /-- The root is `init`, and it has not left. -/
  root : ∃ init, s.initPcb = some init ∧ s.Alive init ∧
    ∀ x, s.pcbAllocator.handedOut x → s.DescendsFrom init x
  /-- A child has a larger pid than the process on whose list it is, and that has not left. -/
  children : ∀ q, ∀ k ∈ s.childrenOf q,
    s.Alive q ∧ s.pcbAllocator.handedOut (s.ptrPcb k) ∧ s.pid q < s.pid (s.ptrPcb k)
  /-- Below every process that is blocked in `wait` there is one that is not. -/
  noCircle : ∀ w, s.BlockedInWait w → ∃ x, s.DescendsFrom w x ∧ x ≠ w ∧
    s.pcbAllocator.handedOut x ∧ ¬ s.BlockedInWait x

/-- A descendant of a process in use is in use. -/
theorem Model.FamInv.descendant_used {p x : Addr} (hF : a.FamInv)
    (h : Descends a.ptrPcb a.children p x) (hp : a.Used p) : a.Used x := by
  cases h with
  | self => exact hp
  | child _ he => exact (hF.entry _ _ he).1

theorem Model.start_ordered (chars : Int → UInt8) (ints : Int → Int) :
    (Model.start chars ints).Ordered ∧ (Model.start chars ints).BlockedParents := by
  refine ⟨⟨?_, fun q e he => ?_⟩, fun w hw => ?_⟩
  · rintro i ⟨⟩
    rfl
  · rw [start_children] at he
    cases he
  · cases hw.1

theorem SystemRun.ordered (h : SystemRun es s) (hn : processesCreated es < 2 ^ 31) :
    ∃ a, Refines exceptZombies s a ∧ a.Inv ∧ a.Families (processesCreated es) ∧ a.Ordered ∧
      a.BlockedParents := by
  refine h.invariant (J := fun es a => a.Families (processesCreated es) ∧ a.Ordered ∧
      a.BlockedParents) (throughout_processesCreated hn)
    (fun chars ints => ⟨start_families chars ints, start_ordered chars ints⟩)
    (fun _ _ _ _ hc => absurd rfl hc) fun es e a a' _ hJ hsim hPe => ?_
  obtain ⟨hG, hO, hB⟩ := hJ
  rw [processesCreated_concat] at hPe ⊢
  exact ⟨hsim.step.families hG hsim.inv hsim.inv' hPe, hsim.step.ordered hO hG hsim.inv,
    hsim.step.blockedParents hB hsim.inv⟩

theorem Refines.descendsFrom_iff {p x : Addr} (hR : Refines exceptZombies s a) (hK : a.KidInv) :
    s.DescendsFrom p x ↔ Descends a.ptrPcb a.children p x := by
  rw [Kernel.DescendsFrom, funext (hR.childrenOf_eq hK), hR.data]

theorem Refines.blockedInWait_iff {w : Addr} (hR : Refines exceptZombies s a) (hP : a.ProcInv) :
    s.BlockedInWait w ↔ a.Blocked w := by
  rw [Kernel.BlockedInWait, hR.processes_eq hP, hR.data, Model.Blocked]

/-- In a run with fewer than `2 ^ 31` processes, and without restarts, the processes in use form a
tree with `init` as its root, in which no processes wait for each other in a circle. -/
theorem process_tree (h : SystemRun es s) (hn : processesCreated es < 2 ^ 31) : ProcessTree s := by
  obtain ⟨a, hR, hI, hG, hO, hB⟩ := h.ordered hn
  have hF := hG.lists
  obtain ⟨init, hinit, -, halive⟩ := hI.proc.init
  refine ⟨⟨init, ?_, (hR.alive_iff hI.proc).2 halive, fun x hx => ?_⟩, fun q k hk => ?_,
    fun w hw => ?_⟩
  · rw [hR.data]
    exact hinit
  · rw [hR.handedOut_iff_used hI.proc] at hx
    rw [hR.descendsFrom_iff hI.kid]
    exact hO.descends hF hG.pids hinit hx
  · rw [hR.childrenOf_eq hI.kid] at hk
    have hptr : s.ptrPcb k = a.ptrPcb k := by rw [hR.data]
    have hpid : s.pid = a.pid := by rw [hR.data]
    rw [hR.alive_iff hI.proc, hR.handedOut_iff_used hI.proc, hptr, hpid]
    exact ⟨hF.holder q (List.ne_nil_of_mem hk), (hF.entry q k hk).1, hO.ascending q k hk⟩
  · obtain ⟨x, hx, hfree⟩ := hO.not_blocked hF hG.pids hB w
    rw [hR.blockedInWait_iff hI.proc] at hw
    refine ⟨x, (hR.descendsFrom_iff hI.kid).2 hx, ?_, ?_, ?_⟩
    · rintro rfl
      exact hfree hw
    · rw [hR.handedOut_iff_used hI.proc]
      exact hF.descendant_used hx (Used.of_mem hw.1)
    · rw [hR.blockedInWait_iff hI.proc]
      exact hfree

/-- `init` waits for its child, and that for its own. -/
theorem process_tree_three : ∃ s : Kernel, s.running = some 35088 ∧
    s.processes .waiting = [0, 17544] ∧ ProcessTree s := by
  obtain ⟨es, s, hrun, hp⟩ := exists_of_executes
    [.syscall (.spawn 1 0), .syscall (.wait 0 0), .syscall (.spawn 1 0), .syscall (.wait 0 0)]
    (fun es s => processesCreated es < 2 ^ 31 ∧ s.running = some 35088 ∧
      s.processes .waiting = [0, 17544]) (by decide +kernel)
  obtain ⟨hn, hr, hwaiting⟩ := of_decide_eq_true hp
  exact ⟨s, hr, hwaiting, process_tree hrun hn⟩

end DisastrOS
