import DisastrOS.Abstract.Parents
import DisastrOS.Properties.ProcessTable

/-!
# Parent pointers and children lists

The parent pointer of a process names the process on whose children list it is, as long as no
process exits before its children. Then an exiting process is found by its pid on the list of its
parent, and it signals and wakes nobody else.
-/

set_option autoImplicit false

namespace DisastrOS

open Runs LinkedSequence LinkedSequence.ListHeap Model

variable {counted : ProcList → Prop} {es : List (Event Kernel Action)} {s : Kernel}
  {e : Event Kernel Action} {a a' : Model} {r : Addr}

/-- Parent pointers and children lists agree. -/
structure ParentsAgree (s : Kernel) : Prop where
  pointer : ∀ x, s.pcbAllocator.handedOut x → s.initPcb ≠ some x →
    ∃ q, s.parent x = some q ∧ s.pcbAllocator.handedOut q ∧ ∃ k ∈ s.childrenOf q, s.ptrPcb k = x
  entry : ∀ q, ∀ k ∈ s.childrenOf q, s.parent (s.ptrPcb k) = some q

/-- The process `r` can leave: it has no children, and if its parent waits for it, then no entry in
front of its own has the same pid. -/
def Kernel.CanLeave (s : Kernel) (r : Addr) : Prop :=
  s.toData.LeavesAlone s.childrenOf r

/-- If the running process can leave and its parent waits for it, then `PCBPtr_byPID` returns its
entry on the list of the parent. -/
def FindsItself (s : Kernel) : Prop :=
  ∀ r p, s.running = some r → s.CanLeave r → s.parent r = some p → s.awaits p (s.pid r) →
    ∃ k ∈ s.childrenOf p, s.ptrPcb k = r ∧ s.pcbPtrByPID p (s.pid r) = .ok (some k)

/-- If this is an exit, then it changes the signals of the process on whose children list the
exiting one is, and of nobody else, and it wakes nobody else. -/
def TouchesParent (e : Event Kernel Action) : Prop :=
  ∀ r v, e.pre.running = some r → e.act = .syscall (.exit v) → ∀ x,
    (e.post.signals x ≠ e.pre.signals x ∨
      x ∈ e.pre.processes .waiting ∧ x ∉ e.post.processes .waiting) →
    ∃ k ∈ e.pre.childrenOf x, e.pre.ptrPcb k = r

/-- If this is an exit, then the process can leave. -/
def ParentCondition (e : Event Kernel Action) : Prop :=
  match e.act with
  | .syscall (.exit _) => ∀ r ∈ e.pre.running, e.pre.CanLeave r
  | _ => True

instance (s : Kernel) (r : Addr) : Decidable (s.CanLeave r) :=
  inferInstanceAs (Decidable (Data.LeavesAlone ..))

instance (e : Event Kernel Action) : Decidable (ParentCondition e) := by
  unfold ParentCondition
  split <;> infer_instance

theorem Refines.canLeave_iff (hR : Refines counted s a) (hK : a.KidInv) :
    s.CanLeave r ↔ a.LeavesAlone a.children r := by
  rw [Kernel.CanLeave, hR.data, funext (hR.childrenOf_eq hK)]

theorem Simulated.leavesAlone (h : Simulated counted e a a') (hsafe : ParentCondition e) (r : Addr)
    (v : Int32) (hr : a.running = some r) (hact : e.act = .syscall (.exit v)) :
    a.LeavesAlone a.children r := by
  simp only [ParentCondition, hact] at hsafe
  exact (h.pre.canLeave_iff h.inv.kid).1 (hsafe r (h.pre.running_eq.trans hr))

theorem Model.start_parents (chars : Int → UInt8) (ints : Int → Int) :
    (Model.start chars ints).Parents := by
  intro q k hk
  rw [start_children] at hk
  cases hk

theorem Refines.findsItself (hR : Refines counted s a) (hI : a.Inv) (hF : a.FamInv)
    (hQ : a.Parents) : FindsItself s := by
  intro r p hr hsafe hparent hawaits
  rw [hR.canLeave_iff hI.kid] at hsafe
  have hr' : a.running = some r := hR.running_eq.symm.trans hr
  have hdata := hR.data
  obtain ⟨d, sq, fb⟩ := a
  obtain rfl := hdata
  obtain ⟨init, hinit, hnone, -⟩ := hI.proc.init
  have hne : r ≠ init := by
    rintro rfl
    exact absurd (hparent.symm.trans hnone) nofun
  obtain ⟨q, hq, -, k, hk, hkr⟩ := hQ.entry hF (Or.inl hr')
    (show s.initPcb ≠ some r from fun heq => hne (Option.some.inj (heq.symm.trans hinit)))
  obtain rfl : q = p := Option.some.inj (hq.symm.trans hparent)
  have hsearch := listSearch_eq (hR.children.represents q trivial)
    (fun e => s.pid (s.ptrPcb e) = s.pid r) (hR.children_short hI.kid q)
  cases hfind : (sq.children q).find? (fun e => s.pid (s.ptrPcb e) = s.pid r) with
  | none =>
      have hnot := List.find?_eq_none.1 hfind k hk
      simp [show s.ptrPcb k = r from hkr] at hnot
  | some e =>
      have hown := findsOwn_of_leavesAlone hsafe init q e hinit hne hparent hawaits
      rw [leave_children_eq hsafe.1] at hown
      refine ⟨e, ?_, hown hfind, ?_⟩
      · rw [hR.childrenOf_eq hI.kid]
        exact List.mem_of_find?_eq_some hfind
      · rw [Kernel.pcbPtrByPID, hsearch, hfind]

theorem Simulated.touchesParent (h : Simulated counted e a a') (hF : a.FamInv) (hQ : a.Parents)
    (hsafe : ParentCondition e) : TouchesParent e := by
  intro r v hrun hact x hx
  obtain ⟨hrun', hs⟩ := h.handler hact hrun
  have hnil := (h.leavesAlone hsafe r v hrun' hact).1
  rw [h.pre.processes_eq h.inv.proc, h.post.processes_eq h.inv'.proc, h.pre.data, h.post.data] at hx
  rw [h.pre.childrenOf_eq h.inv.kid, h.pre.data]
  have hparent : a.parent r = some x := by
    cases hs with
    | exit hs =>
        obtain ⟨hsignals, hwoken⟩ := hs.parent_only hnil
        exact hx.elim (hsignals x) fun ⟨hx, hx'⟩ => hwoken x hx hx'
  obtain ⟨init, hinit, hnone, -⟩ := h.inv.proc.init
  have hne : a.initPcb ≠ some r := by
    rw [hinit]
    rintro ⟨⟩
    exact absurd (hparent.symm.trans hnone) nofun
  obtain ⟨q, hq, -, k, hk, hkr⟩ := hQ.entry hF (Or.inl hrun') hne
  obtain rfl : q = x := Option.some.inj (hq.symm.trans hparent)
  exact ⟨k, hk, hkr⟩

theorem SystemRun.parents (h : SystemRun es s) (hsafe : ∀ e ∈ es, ParentCondition e) :
    ∃ a, Refines exceptZombies s a ∧ a.Inv ∧ a.Parents ∧ a.FamInv :=
  h.invariant (J := fun _ a => a.Parents ∧ a.FamInv) (P := fun _ e => ParentCondition e)
    (fun fs e gs heq => hsafe e (by simp [heq]))
    (fun chars ints => ⟨start_parents chars ints, (start_families chars ints).lists⟩)
    (fun _ _ _ _ hc => absurd rfl hc)
    fun _ _ _ _ _ ⟨hQ, hF⟩ hsim hsafe =>
      hsim.step.parents hQ hF (hsim.leavesAlone hsafe) hsim.inv hsim.inv'

/-- In a run in which every process that exits can leave, parent pointers and children lists agree;
an exiting process is found by its pid and touches its parent only. -/
theorem parents_agree (h : SystemRun es s) (hsafe : ∀ e ∈ es, ParentCondition e) :
    ParentsAgree s ∧ FindsItself s ∧ ∀ e ∈ es, TouchesParent e := by
  obtain ⟨a, hR, hI, hQ, hF⟩ := h.parents hsafe
  refine ⟨⟨fun x hx hinit => ?_, fun q k hk => ?_⟩, hR.findsItself hI hF hQ, fun e he => ?_⟩
  · rw [hR.handedOut_iff_used hI.proc] at hx
    rw [hR.data] at hinit
    obtain ⟨q, hq, halive, k, hk, hkx⟩ := hQ.entry hF hx hinit
    refine ⟨q, ?_, ?_, k, ?_, ?_⟩
    · rw [hR.data]
      exact hq
    · rw [hR.handedOut_iff_used hI.proc]
      exact halive.used
    · rw [hR.childrenOf_eq hI.kid]
      exact hk
    · rw [hR.data]
      exact hkx
  · rw [hR.childrenOf_eq hI.kid] at hk
    rw [hR.data]
    exact hQ q k hk
  · obtain ⟨fs, gs, rfl⟩ := List.append_of_mem he
    obtain ⟨hpre, hstep, -⟩ := h.split
    obtain ⟨a, hR, hI, hQ, hF⟩ := hpre.parents fun f hf => hsafe f (List.mem_append_left _ hf)
    obtain ⟨a', hsim⟩ := hR.simulated hI hstep
    exact hsim.touchesParent hF hQ (hsafe e he)

/-- One child is collected, the other one wakes its parent. -/
theorem parents_agree_two : ∃ (es : List (Event Kernel Action)) (s : Kernel),
    (es.length = 8 ∧ s.running = some 0) ∧
      ParentsAgree s ∧ FindsItself s ∧ ∀ e ∈ es, TouchesParent e := by
  obtain ⟨es, s, hrun, hp⟩ := exists_of_executes
    [.syscall (.spawn 1 0), .syscall (.spawn 1 0), .syscall .preempt, .syscall (.exit 3),
      .syscall .preempt, .syscall (.wait 0 0), .syscall (.wait 2 0), .syscall (.exit 4)]
    (fun es s => (∀ e ∈ es, ParentCondition e) ∧ es.length = 8 ∧ s.running = some 0)
    (by decide +kernel)
  obtain ⟨hsafe, hrest⟩ := of_decide_eq_true hp
  exact ⟨es, s, hrest, parents_agree hrun hsafe⟩

/-- A process exits before its child, which comes to the list of `init` with its old parent. -/
theorem parents_disagree : ∃ (es : List (Event Kernel Action)) (s : Kernel), SystemRun es s ∧
    ¬ ParentsAgree s := by
  obtain ⟨es, s, hrun, hp⟩ := exists_of_executes
    [.syscall (.spawn 1 0), .syscall .preempt, .syscall (.spawn 1 0), .syscall (.exit 0)]
    (fun _ s => ∃ k ∈ s.childrenOf 0, s.parent (s.ptrPcb k) ≠ some 0) (by decide +kernel)
  obtain ⟨k, hk, hne⟩ := of_decide_eq_true hp
  exact ⟨es, s, hrun, fun h => hne (h.entry 0 k hk)⟩

end DisastrOS
