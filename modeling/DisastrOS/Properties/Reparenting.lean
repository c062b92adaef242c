import DisastrOS.Refinement.Calls

/-!
# The children of a process that exits

`exit` first moves the children of the caller to the list of `init`, one in each round of a loop
that ends when the caller has none. For `init` the two lists are the same, and the loop ends only if
it is empty from the start.
-/

set_option autoImplicit false

namespace DisastrOS

open Runs LinkedSequence LinkedSequence.ListHeap Model

variable {s s' : Kernel} {a : Model} {r init : Addr} {v : Int32}

/-- The state in which `exit(v)` of the process `r` comes to its loop over the children. -/
def Kernel.exitEntry (s : Kernel) (r : Addr) (v : Int32) : Kernel :=
  let s := s.enter r (.exit v)
  { s with returnValue := Function.update s.returnValue r (wrapInt (s.syscallArgs r 0)) }

/-- The loop takes exactly one round for each child of `r` and ends in `s'`, where the children are
behind those of `init` and have got the signal `DSOS_SIGHUP` that their masks allow. -/
structure Reparents (s : Kernel) (r init : Addr) (v : Int32) (s' : Kernel) : Prop where
  rounds : ∀ n, Kernel.reparentChildren r init n (s.exitEntry r v) =
    if n ≤ (s.childrenOf r).length then .error .endlessLoop else .ok s'
  adopted : s'.childrenOf init = s.childrenOf init ++ s.childrenOf r
  signals : ∀ x, s'.signals x = if x ∈ (s.childrenOf r).map s.ptrPcb
    then s.signals x ||| (dsosSighup &&& s.signalsMask x) else s.signals x

/-- An `exit` of the running process starts with this loop. -/
theorem exit_enters_loop : ∃ rest : Addr → Kernel → Except Fault Kernel, ∀ (s : Kernel)
    (r init : Addr) (v : Int32), s.running = some r → s.initPcb = some init →
      (s.enter r (.exit v)).internalExit =
        Kernel.reparentChildren r init loopBound (s.exitEntry r v) >>= rest r := by
  refine ⟨?rest, ?loop⟩
  case loop =>
    intro s r init v hr hinit
    have hr' : (s.enter r (.exit v)).running = some r := hr
    have hinit' : (s.enter r (.exit v)).initPcb = some init := hinit
    simp only [Kernel.internalExit, hr', deref_some, ok_bind, hinit', assertNonNull]
    rfl

/-- A signal that is sent twice is there once. -/
theorem hangUp_apply (ptrPcb : Addr → Addr) (mask : Addr → BitVec 32) (es : List Addr)
    (signals : Addr → BitVec 32) (x : Addr) : hangUp ptrPcb mask es signals x =
      if x ∈ es.map ptrPcb then signals x ||| (dsosSighup &&& mask x) else signals x := by
  induction es generalizing signals with
  | nil => rfl
  | cons e es ih =>
      rw [hangUp, ih, List.map_cons]
      by_cases hx : x = ptrPcb e
      · subst hx
        rw [Function.update_self, if_pos List.mem_cons_self]
        split
        · rw [BitVec.or_assoc, BitVec.or_self]
        · rfl
      · simp only [Function.update_of_ne hx, List.mem_cons, hx, false_or]

variable (hR : Refines exceptZombies s a) (hI : a.Inv)
include hR hI

/-- If it is not `init` that exits, the loop ends after one round for each child. -/
theorem Refines.reparents (hne : r ≠ init) (v : Int32) : ∃ s', Reparents s r init v s' := by
  have hchildren := hR.childrenOf_eq hI.kid
  obtain ⟨children, hloop, hW⟩ := reparentChildren_eq (c := s.exitEntry r v) hR.children hne rfl
  refine ⟨{ s.exitEntry r v with
    children
    signals := hangUp s.ptrPcb s.signalsMask (a.children r) s.signals }, fun n => ?_, ?_,
    fun x => ?_⟩
  · rw [hloop, hchildren]
    rfl
  · have hlist := hW.represents init trivial
    rw [Function.update_of_ne hne.symm, Function.update_self] at hlist
    rw [hchildren, hchildren]
    refine hlist.nodes_eq ?_
    have hold := hR.children_length_le hI.kid init
    have hnew := hR.children_length_le hI.kid r
    simp only [maxNumProcesses] at hold hnew
    rw [List.length_append, loopBound]
    omega
  · rw [hchildren]
    exact hangUp_apply ..

/-- If `init` exits without children, nothing happens. -/
theorem Refines.reparents_nil (hnil : s.childrenOf r = []) (v : Int32) :
    Reparents s r r v (s.exitEntry r v) := by
  have hfirst := (hR.children.represents r trivial).first
  rw [← hR.childrenOf_eq hI.kid, hnil] at hfirst
  have hfirst' : (s.exitEntry r v).children.first r = none := hfirst
  refine ⟨fun n => ?_, ?_, fun x => ?_⟩
  · rw [hnil]
    cases n with
    | zero => rfl
    | succ n => simp [Kernel.reparentChildren, hfirst']
  · rw [hnil, List.append_nil]
    exact hnil
  · rw [hnil]
    rfl

/-- If `init` exits with children, the loop does not end, and the call does not either. -/
theorem Refines.endless_exit (hr : a.running = some r) (hinit : a.initPcb = some r)
    (hkids : s.childrenOf r ≠ []) (v : Int32) :
    (∀ n, Kernel.reparentChildren r r n (s.exitEntry r v) = .error .endlessLoop) ∧
      s.call (.exit v) = .error .endlessLoop := by
  rw [hR.childrenOf_eq hI.kid] at hkids
  have hloop : ∀ n, Kernel.reparentChildren r r n (s.exitEntry r v) = .error .endlessLoop :=
    fun n => reparentChildren_self hR.children hkids
  refine ⟨hloop, call_of_fault (c := .exit v) (hR.running_eq.trans hr) ?_⟩
  obtain ⟨rest, hrest⟩ := exit_enters_loop
  have hexit := hrest s r r v (hR.running_eq.trans hr) (by rw [hR.data]; exact hinit)
  rw [hloop, error_bind] at hexit
  exact hexit

omit hR hI

/-- In a reachable state, the loop of `exit` takes one round for each child of the running process
and hands the children over to `init`, if and only if the caller is not `init` or has no children.
-/
theorem reparents_iff (h : Reachable s) (hr : s.running = some r) (v : Int32) :
    (∃ init s', s.initPcb = some init ∧ Reparents s r init v s') ↔
      s.initPcb ≠ some r ∨ s.childrenOf r = [] := by
  obtain ⟨es, hrun⟩ := h
  obtain ⟨a, hR, hI⟩ := hrun.refines
  obtain ⟨init, hinit, -⟩ := hI.proc.init
  have hinit' : s.initPcb = some init := by rw [hR.data, hinit]
  constructor
  · rintro ⟨i, s', hi, hreparents⟩
    by_contra hnot
    rw [not_or, not_not] at hnot
    obtain ⟨hself, hkids⟩ := hnot
    obtain rfl : i = r := Option.some.inj (hi.symm.trans hself)
    obtain ⟨hloop, -⟩ := hR.endless_exit hI (hR.running_eq.symm.trans hr)
      (hinit.trans (hinit'.symm.trans hself)) hkids v
    -- enough rounds would end the loop
    have hrounds := hreparents.rounds ((s.childrenOf i).length + 1)
    rw [hloop, if_neg (Nat.not_succ_le_self _)] at hrounds
    cases hrounds
  · intro hcond
    by_cases hne : r = init
    · subst hne
      exact ⟨r, _, hinit', hR.reparents_nil hI (hcond.resolve_left fun hc => hc hinit') v⟩
    · obtain ⟨s', hs'⟩ := hR.reparents hI hne v
      exact ⟨init, s', hinit', hs'⟩

/-- A child with two children of its own exits. -/
theorem reparents_iff_two : ∃ s : Kernel, (s.childrenOf 17544).length = 2 ∧
    ∃ init s', s.initPcb = some init ∧ Reparents s 17544 init 3 s' := by
  obtain ⟨es, s, hrun, hp⟩ := exists_of_executes
    [.syscall (.spawn 1 0), .syscall .preempt, .syscall (.spawn 1 0), .syscall (.spawn 1 0)]
    (fun _ s => s.running = some 17544 ∧ s.initPcb = some 0 ∧ (s.childrenOf 17544).length = 2)
    (by decide +kernel)
  obtain ⟨hr, hinit, hlen⟩ := of_decide_eq_true hp
  refine ⟨s, hlen, (reparents_iff ⟨es, hrun⟩ hr 3).2 (Or.inl ?_)⟩
  rw [hinit]
  decide

/-- `init` exits with one child. -/
theorem init_exits_endlessly : ∃ s : Kernel, Reachable s ∧ s.running = some 0 ∧
    s.initPcb = some 0 ∧ s.call (.exit 0) = .error .endlessLoop ∧
    ¬ ∃ init s', s.initPcb = some init ∧ Reparents s 0 init 0 s' := by
  obtain ⟨es, s, hrun, hp⟩ := exists_of_executes [.syscall (.spawn 1 0)]
    (fun _ s => s.running = some 0 ∧ s.initPcb = some 0 ∧ s.childrenOf 0 ≠ []) (by decide +kernel)
  obtain ⟨hr, hinit, hkids⟩ := of_decide_eq_true hp
  obtain ⟨a, hR, hI⟩ := hrun.refines
  have hinit' : a.initPcb = some 0 := by rw [← hinit, hR.data]
  obtain ⟨hloop, hcall⟩ := hR.endless_exit hI (hR.running_eq.symm.trans hr) hinit' hkids 0
  refine ⟨s, ⟨es, hrun⟩, hr, hinit, hcall, ?_⟩
  rintro ⟨i, s', hi, hreparents⟩
  obtain rfl : 0 = i := Option.some.inj (hinit.symm.trans hi)
  have hrounds := hreparents.rounds ((s.childrenOf 0).length + 1)
  rw [hloop, if_neg (Nat.not_succ_le_self _)] at hrounds
  cases hrounds

end DisastrOS
