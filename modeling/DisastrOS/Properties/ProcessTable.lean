import DisastrOS.Abstract.Families
import DisastrOS.Refinement.SystemRun

/-!
# The process table

While fewer than `2 ^ 31` processes have been created, pids identify processes, the children lists
are complete and the counters of all lists of processes are right. The running process and the
members of the three lists are then exactly the PCBs handed out.
-/

set_option autoImplicit false

namespace DisastrOS

open Runs LinkedSequence LinkedSequence.ListHeap Model

variable {es : List (Event Kernel Action)} {s : Kernel} {e : Event Kernel Action} {a : Model}
  {r : Addr}

/-- The number of processes created in a run, `init` included. -/
def processesCreated (es : List (Event Kernel Action)) : Nat :=
  es.countP (·.act.creates) + 1

theorem processesCreated_concat : processesCreated (es ++ [e]) =
    processesCreated es + if e.act.creates then 1 else 0 := by
  simp only [processesCreated, List.countP_append, List.countP_singleton]
  omega

theorem processesCreated_le_append (es fs : List (Event Kernel Action)) :
    processesCreated es ≤ processesCreated (es ++ fs) := by
  simp only [processesCreated, List.countP_append]
  omega

/-- The bound on the number of processes holds throughout a run if it holds at its end. -/
theorem throughout_processesCreated (h : processesCreated es < 2 ^ 31) :
    Throughout (fun fs e => processesCreated (fs ++ [e]) < 2 ^ 31) es := by
  rintro fs e gs rfl
  rw [List.append_cons] at h
  exact Nat.lt_of_le_of_lt (processesCreated_le_append ..) h

theorem Model.start_families (chars : Int → UInt8) (ints : Int → Int) :
    (Model.start chars ints).Families 1 := by
  refine ⟨⟨rfl, fun x hx => ?_, fun x y hx hy _ => (start_used hx).trans (start_used hy).symm⟩, ?_⟩
  · rw [start_used hx]
    exact ⟨Int.le_refl 0, Int.zero_lt_one⟩
  · refine ⟨fun q e he => ?_, fun q hq => absurd (start_children chars ints q) hq, fun q => ?_,
      fun q q' e e' he => ?_, fun x hx hi => ?_⟩
    · rw [start_children] at he
      cases he
    · rw [start_children]
      exact List.nodup_nil
    · rw [start_children] at he
      cases he
    · exact absurd (by rw [start_used hx]; rfl) hi

/-- In a run with fewer than `2 ^ 31` processes the kernel stores complete families and counts the
members of all lists of processes. -/
theorem SystemRun.families (h : SystemRun es s) (hn : processesCreated es < 2 ^ 31) :
    ∃ a, Refines (fun _ => True) s a ∧ a.Inv ∧ a.Families (processesCreated es) := by
  refine h.invariant (J := fun es a => a.Families (processesCreated es))
    (throughout_processesCreated hn) Model.start_families
    (fun _ _ hG hI _ q e he => hG.lists.not_free hI.proc he) fun es e a a' _ hG hsim hPe => ?_
  rw [processesCreated_concat] at hPe ⊢
  exact hsim.step.families hG hsim.inv hsim.inv' hPe

/-- The lists of processes are well formed, and with the running process `r` they hold exactly the
PCBs handed out, each once and all with different pids. -/
structure ProcessPartition (s : Kernel) (r : Addr) : Prop where
  wellFormed : s.procs.WellFormed (fun _ => True) (fun _ => True) s.processes
  handedOut : ∀ x, x ∈ r :: (s.processes .ready ++ s.processes .waiting ++ s.processes .zombie) ↔
    s.pcbAllocator.handedOut x
  once : (r :: (s.processes .ready ++ s.processes .waiting ++ s.processes .zombie)).Nodup
  pids : ((r :: (s.processes .ready ++ s.processes .waiting ++ s.processes .zombie)).map s.pid).Nodup

/-- No process is lost, in two lists or freed while it is in a list. -/
theorem process_table_partition (h : SystemRun es s) (hn : processesCreated es < 2 ^ 31)
    (hr : s.running = some r) : ProcessPartition s r := by
  obtain ⟨a, hR, hI, hG⟩ := h.families hn
  have hprocs : s.processes = a.procs := funext fun l => hR.processes_eq hI.proc l
  have hr' : a.running = some r := hR.running_eq.symm.trans hr
  have hmem : ∀ x, x ∈ r :: (a.procs .ready ++ a.procs .waiting ++ a.procs .zombie) ↔ a.Used x := by
    intro x
    simp only [List.mem_cons, List.mem_append, Model.Used, hr', Option.some.injEq, or_assoc,
      eq_comm (a := r)]
  have hnodup : (r :: (a.procs .ready ++ a.procs .waiting ++ a.procs .zombie)).Nodup := by
    have hnd := hI.proc.nodup
    simp only [pcbBlocks, hr', Option.toList_some, List.singleton_append, ← List.append_assoc] at hnd
    exact (List.nodup_append.1 hnd).1
  constructor
  · rw [hprocs]
    exact hR.procs
  · intro x
    rw [hprocs, hmem, hR.handedOut_iff_used hI.proc]
  · rw [hprocs]
    exact hnodup
  · rw [hprocs, hR.data]
    exact hnodup.map_on fun x hx y hy heq => hG.pids.inj x y ((hmem x).1 hx) ((hmem y).1 hy) heq

/-- A run with a process in every list. -/
theorem process_table_partition_four : ∃ s : Kernel, (s.processes .ready = [52632] ∧
    s.processes .waiting = [35088] ∧ s.processes .zombie = [17544]) ∧ ProcessPartition s 0 := by
  obtain ⟨es, s, hrun, hp⟩ := exists_of_executes
    [.syscall (.spawn 1 0), .syscall (.spawn 1 0), .syscall (.spawn 1 0), .syscall .preempt,
      .syscall (.exit 3), .syscall (.sleep 100), .syscall .preempt]
    (fun es s => processesCreated es < 2 ^ 31 ∧ s.running = some 0 ∧
      s.processes .ready = [52632] ∧ s.processes .waiting = [35088] ∧
      s.processes .zombie = [17544]) (by decide +kernel)
  obtain ⟨hn, hr, hlists⟩ := of_decide_eq_true hp
  exact ⟨s, hlists, process_table_partition hrun hn hr⟩

end DisastrOS
