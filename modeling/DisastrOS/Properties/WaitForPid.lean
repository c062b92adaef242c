import DisastrOS.Abstract.Waiting
import DisastrOS.Refinement.Calls

/-!
# Waiting for a given pid

The scan of `wait` keeps its cursor when it runs off the end of the children list, so a pid that no
child has makes it stop at the last child, whichever that is. When a child has the pid, the call is
about the first such child only, and it completes if that child has left or some process is ready.
-/

set_option autoImplicit false

namespace DisastrOS

open Runs LinkedSequence LinkedSequence.ListHeap Model

variable {counted : ProcList → Prop} {es : List (Event Kernel Action)} {s s' t : Kernel}
  {a a' : Model} {r k : Addr} {pid : Int32} {result : Int}

/-- The first entry of the children list of `r` for a process with this pid. -/
def Kernel.childByPid (s : Kernel) (r : Addr) (pid : Int) : Option Addr :=
  (s.childrenOf r).find? fun k => s.pid (s.ptrPcb k) = pid

/-- The process `r` collects the process of its children entry `k`, and nothing else happens to the
processes; the exit value is stored through `result`. -/
structure Reaps (s : Kernel) (r k : Addr) (result : Int) (s' : Kernel) : Prop where
  running : s'.running = some r
  children : s'.childrenOf = Function.update s.childrenOf r ((s.childrenOf r).erase k)
  lists : s'.processes =
    Function.update s.processes .zombie ((s.processes .zombie).erase (s.ptrPcb k))
  freed : ∀ x, s'.pcbAllocator.handedOut x ↔ s.pcbAllocator.handedOut x ∧ x ≠ s.ptrPcb k
  entry : ∀ x, s'.pcbPtrAllocator.handedOut x ↔ s.pcbPtrAllocator.handedOut x ∧ x ≠ k
  ints : s'.ints =
    if result ≠ 0 then Function.update s.ints result (s.returnValue (s.ptrPcb k)) else s.ints

/-- The process `r` blocks and another one runs. When `r` runs again, its call returns `pid`. -/
structure BlocksFor (s : Kernel) (r : Addr) (pid : Int) (s' : Kernel) : Prop where
  running : ∃ next ∈ s.processes .ready, s'.running = some next
  waiting : s'.processes .waiting = s.processes .waiting ++ [r]
  zombies : s'.processes .zombie = s.processes .zombie
  children : s'.childrenOf = s.childrenOf
  ints : s'.ints = s.ints
  resumes : ∀ es t, Run Kernel.Completes s' es t → t.running = some r →
    (∀ e ∈ es, e.pre.running ≠ some r) → t.syscallRetvalue r = pid

/-- `wait(pid, result)` of the process `r` is about the child with that pid and nobody else. -/
structure WaitsForPid (s : Kernel) (r : Addr) (pid : Int32) (result : Int) : Prop where
  /-- Without such a child the answer is `DSOS_EWAIT`, and nothing but the fields of the call
  changes. -/
  refused : s.childByPid r pid.toInt = none → s.call (.wait pid result) =
    .ok ((s.enter r (.wait pid result)).setRetvalue r dsosEWait, some dsosEWait)
  zombie : ∀ k ∈ s.childByPid r pid.toInt, s.ptrPcb k ∈ s.processes .zombie →
    ∃ s', s.call (.wait pid result) = .ok (s', some pid.toInt) ∧ Reaps s r k result s'
  alive : ∀ k ∈ s.childByPid r pid.toInt, s.Alive (s.ptrPcb k) →
    ∃ s' v, s.call (.wait pid result) = .ok (s', v) ∧ BlocksFor s r pid.toInt s'
  /-- No other child is collected, and no other pid is waited for. -/
  nobodyElse : ∀ s' v, s.call (.wait pid result) = .ok (s', v) →
    (∀ q, ∀ k ∈ s.childrenOf q, k ∉ s'.childrenOf q → s.childByPid r pid.toInt = some k) ∧
    (∀ z ∈ s.processes .zombie, z ∉ s'.processes .zombie →
      ∃ k ∈ s.childByPid r pid.toInt, s.ptrPcb k = z) ∧
    (r ∈ s'.processes .waiting → s.childByPid r pid.toInt ≠ none)

/-! ## The scan -/

/-- The first child of `r` with this pid. -/
def Model.childByPid (a : Model) (r : Addr) (pid : Int) : Option Addr :=
  (a.children r).find? fun k => a.pid (a.ptrPcb k) = pid

theorem Refines.childByPid_eq (hR : Refines counted s a) (hK : a.KidInv) (r : Addr) (pid : Int) :
    s.childByPid r pid = a.childByPid r pid := by
  rw [Kernel.childByPid, hR.childrenOf_eq hK, hR.data, Model.childByPid]

/-- A scan for a pid stops at the first child with that pid, or else at the last child. -/
theorem Model.awaited_first {n : Int} (hn : 0 < n) :
    a.awaited r n = (a.childByPid r n).or (a.children r).getLast? := by
  have hpos : n ≠ 0 := by omega
  simp only [awaited, Model.childByPid, hpos, false_and, ne_eq, not_false_eq_true, true_and,
    false_or]

theorem Model.mem_of_childByPid {n : Int} (h : a.childByPid r n = some k) :
    k ∈ a.children r ∧ a.pid (a.ptrPcb k) = n := by
  have hfound := List.find?_some (show List.find? _ (a.children r) = some k from h)
  exact ⟨List.mem_of_find?_eq_some h, by simpa using hfound⟩

/-! ## Resuming -/

/-- `r` is blocked in a `wait` for `n`, or it runs and its call has returned `n`. -/
def AwaitsPid (r : Addr) (n : Int) (a : Model) : Prop :=
  (a.running ≠ some r → a.Blocked r ∧ a.syscallArgs r 0 = n) ∧
    (a.running = some r → a.syscallRetvalue r = n)

theorem AwaitsPid.step {clean : Addr → Prop} {act : Action} {n : Int} (h : AwaitsPid r n a)
    (hs : Step clean a act a') (hI : a.Inv) (hn : n ≠ 0) (hrun : a.running ≠ some r) :
    AwaitsPid r n a' := by
  obtain ⟨hblocked, harg⟩ := h.1 hrun
  constructor
  · intro hrun'
    obtain ⟨hblocked', hargs⟩ := hs.blocked_stays hI hblocked hrun'
    exact ⟨hblocked', by rw [hargs, harg]⟩
  · intro hrun'
    obtain ⟨q, -, hawaits, hret⟩ := hs.resumed_answer hI hblocked hrun'
    rw [awaits_iff, harg] at hawaits
    rw [hret, hawaits.2.2.resolve_left hn]

theorem Refines.resumes (hR : Refines exceptZombies s' a') (hI : a'.Inv) {n : Int} (hn : n ≠ 0)
    (h : AwaitsPid r n a') (hrun : Run Kernel.Completes s' es t) (ht : t.running = some r)
    (hes : ∀ e ∈ es, e.pre.running ≠ some r) : t.syscallRetvalue r = n := by
  obtain ⟨b, hRb, -, hb⟩ := hR.invariant (J := fun _ b => AwaitsPid r n b)
    (P := fun _ e => e.pre.running ≠ some r) hI h hrun (fun fs e gs heq => hes e (by simp [heq]))
    fun es e b b' hb hsim hne => hb.step hsim.step hsim.inv hn fun heq =>
      hne (hsim.pre.running_eq.trans heq)
  rw [hRb.data]
  exact hb.2 (hRb.running_eq.symm.trans ht)

/-! ## The call -/

/-- What `wait` does when it collects the process of `k`. -/
theorem Refines.reaps (hR : Refines counted s a) (hI : a.Inv)
    (hR' : Refines counted s' ((a.enter r (.wait pid result)).reap r k))
    (hI' : ((a.enter r (.wait pid result)).reap r k).Inv) (hr : a.running = some r) :
    Reaps s r k result s' := by
  have hresult : (a.enter r (.wait pid result)).syscallArgs r 1 = result :=
    enter_args a r (.wait pid result) (by simp [Syscall.args])
  have hptr : s.ptrPcb = a.ptrPcb := by rw [hR.data]
  have hdata := hR'.data
  rw [reap_eq, hresult] at hdata
  constructor
  · rw [hdata]
    exact hr
  · funext q
    rw [hR'.childrenOf_eq hI'.kid, funext (hR.childrenOf_eq hI.kid)]
    rfl
  · funext l
    rw [hR'.processes_eq hI'.proc, funext (hR.processes_eq hI.proc), hptr]
    rfl
  · intro x
    rw [hR'.pcbs.handedOut_iff, hR.pcbs.handedOut_iff, hptr]
    show _ ∧ x ∉ (if a.ptrPcb k ∈ a.freePcbs then _ else a.ptrPcb k :: a.freePcbs) ↔ _
    split
    · rename_i hfree
      exact ⟨fun h => ⟨h, fun heq => h.2 (heq ▸ hfree)⟩, fun h => h.1⟩
    · rw [List.mem_cons, not_or, and_comm (a := x ≠ _), and_assoc]
  · intro x
    rw [hR'.pcbPtrs.handedOut_iff, hR.pcbPtrs.handedOut_iff]
    show _ ∧ x ∉ k :: a.freePcbPtrs ↔ _
    rw [List.mem_cons, not_or, and_comm (a := x ≠ _), and_assoc]
  · rw [hdata, hR.data]
    rfl

/-- What `wait` does when it blocks. -/
theorem Refines.blocksFor {next : Addr} {rest : List Addr} (hR : Refines exceptZombies s a)
    (hI : a.Inv) (hR' : Refines exceptZombies s' ((a.enter r (.wait pid result)).block r next rest))
    (hI' : ((a.enter r (.wait pid result)).block r next rest).Inv) (hr : a.running = some r)
    (hready : a.procs .ready = next :: rest) (hpid : 0 < pid.toInt) :
    BlocksFor s r pid.toInt s' := by
  have hnext : next ∈ a.procs .ready := by rw [hready]; exact List.mem_cons_self
  have hne : next ≠ r := fun heq => (hI.proc.running_fresh hr).1 .ready (heq ▸ hnext)
  have hprocs := fun l => hR'.processes_eq hI'.proc l
  constructor
  · exact ⟨next, by rwa [hR.processes_eq hI.proc], by rw [hR'.data]; rfl⟩
  · rw [hprocs, hR.processes_eq hI.proc]
    rfl
  · rw [hprocs, hR.processes_eq hI.proc]
    rfl
  · rw [funext (hR'.childrenOf_eq hI'.kid), funext (hR.childrenOf_eq hI.kid)]
    rfl
  · rw [hR'.data, hR.data]
    rfl
  · intro es t hrun ht hes
    refine hR'.resumes hI' (by omega) ⟨fun _ => ⟨⟨?_, ?_⟩, ?_⟩, fun heq => ?_⟩ hrun ht hes
    · exact List.mem_append_right _ (List.mem_singleton_self r)
    · exact Function.update_self ..
    · exact enter_args a r (.wait pid result) (by simp [Syscall.args])
    · exact absurd (Option.some.inj heq) hne

/-- A `wait` of a process with children collects the child at which its scan stops, or blocks. -/
theorem Called.wait_cases (h : Called s a r (.wait pid result) s' a')
    (hkids : a.children r ≠ []) : ∃ k ∈ a.awaited r pid.toInt,
      (a.status (a.ptrPcb k) = .zombie ∧ a' = (a.enter r (.wait pid result)).reap r k) ∨
      (a.status (a.ptrPcb k) ≠ .zombie ∧ ∃ next rest, a.procs .ready = next :: rest ∧
        a' = (a.enter r (.wait pid result)).block r next rest) := by
  have harg : (a.enter r (.wait pid result)).syscallArgs r 0 = pid.toInt :=
    enter_args a r (.wait pid result) (by simp [Syscall.args])
  obtain ⟨-, hstep, -, -⟩ := h
  cases hstep with
  | wait hs =>
      cases hs with
      | noChildren hnil => exact absurd hnil hkids
      | @reap e he hz =>
          rw [harg, wrapInt_toInt] at he
          exact ⟨e, he, Or.inl ⟨hz, rfl⟩⟩
      | @block e next rest he hz hready =>
          rw [harg, wrapInt_toInt] at he
          exact ⟨e, he, Or.inr ⟨hz, next, rest, hready, rfl⟩⟩

/-- Only the entry `k` leaves a list, and only its process is no zombie any more. -/
theorem Reaps.nobodyElse (h : Reaps s r k result s') :
    (∀ q, ∀ e ∈ s.childrenOf q, e ∉ s'.childrenOf q → e = k) ∧
      ∀ z ∈ s.processes .zombie, z ∉ s'.processes .zombie → s.ptrPcb k = z := by
  constructor
  · intro q e he hout
    rw [h.children] at hout
    by_contra hne
    refine hout ?_
    by_cases hq : q = r
    · rw [hq, Function.update_self]
      exact (List.mem_erase_of_ne hne).2 (hq ▸ he)
    · rwa [Function.update_of_ne hq]
  · intro z hz hout
    rw [h.lists, Function.update_self] at hout
    by_contra hne
    exact hout ((List.mem_erase_of_ne (Ne.symm hne)).2 hz)

theorem Model.ProcInv.alive_status (hP : a.ProcInv) {x : Addr} (hx : a.Alive x) :
    a.status x ≠ .zombie := by
  rcases hx with h | h | h
  · have := hP.running x h
    grind
  · rw [hP.ready x h]
    decide
  · rw [(hP.waiting x).2 h]
    decide

/-- If a child has the pid, and a process is ready unless that child has left. -/
theorem Refines.waitsForPid (hR : Refines exceptZombies s a) (hI : a.Inv)
    (hr : a.running = some r) (hpid : 0 < pid.toInt) (hk : a.childByPid r pid.toInt = some k)
    (hready : s.Alive (s.ptrPcb k) → s.processes .ready ≠ []) : WaitsForPid s r pid result := by
  have hk' : s.childByPid r pid.toInt = some k := (hR.childByPid_eq hI.kid r _).trans hk
  have hawaited : a.awaited r pid.toInt = some k := by rw [awaited_first hpid, hk, Option.some_or]
  obtain ⟨hmem, hkpid⟩ := mem_of_childByPid hk
  have hkids := List.ne_nil_of_mem hmem
  have hptr : s.ptrPcb = a.ptrPcb := by rw [hR.data]
  rw [hR.processes_eq hI.proc] at hready
  refine ⟨fun hnone => ?_, fun k' hkk hzombie => ?_, fun k' hkk halive => ?_,
    fun s' v hcall => ?_⟩
  · rw [hk'] at hnone
    cases hnone
  -- the child has left: it is collected at once
  · obtain rfl : k = k' := Option.some.inj (hk'.symm.trans hkk)
    rw [hR.processes_eq hI.proc, hptr] at hzombie
    have hz := hI.proc.zombie _ hzombie
    rcases hR.call_wait hI hr pid result with ⟨⟨e, he, hne⟩, -, -⟩ | ⟨s', a', hcalled⟩
    · obtain rfl : e = k := Option.some.inj (he.symm.trans hawaited)
      exact absurd hz hne
    · obtain ⟨e, he, ⟨-, rfl⟩ | ⟨hne, -⟩⟩ := hcalled.wait_cases hkids
      · obtain rfl : e = k := Option.some.inj (he.symm.trans hawaited)
        refine ⟨s', ?_, hR.reaps hI hcalled.post hcalled.inv hr⟩
        have hrun : ((a.enter r (.wait pid result)).reap r e).running = some r := by
          rw [reap_eq]
          exact hr
        have hret : ((a.enter r (.wait pid result)).reap r e).syscallRetvalue r =
            a.pid (a.ptrPcb e) := by
          rw [reap_eq]
          exact Function.update_self ..
        rw [hcalled.call, hrun, Option.map_some, hret, hkpid]
      · obtain rfl : e = k := Option.some.inj (he.symm.trans hawaited)
        exact absurd hz hne
  -- it has not left: the caller blocks, and the exit of the child resumes it
  · obtain rfl : k = k' := Option.some.inj (hk'.symm.trans hkk)
    have hz := hI.proc.alive_status ((hR.alive_iff hI.proc).1 (hptr ▸ halive))
    rcases hR.call_wait hI hr pid result with ⟨-, hnil, -⟩ | ⟨s', a', hcalled⟩
    · exact absurd hnil (hready halive)
    · obtain ⟨e, he, ⟨hze, -⟩ | ⟨-, next, rest, hnext, rfl⟩⟩ := hcalled.wait_cases hkids
      · obtain rfl : e = k := Option.some.inj (he.symm.trans hawaited)
        exact absurd hze hz
      · exact ⟨s', _, hcalled.call, hR.blocksFor hI hcalled.post hcalled.inv hr hnext hpid⟩
  · obtain ⟨a', hcalled, -⟩ := hR.called hI hr hcall
    have hnone : s.childByPid r pid.toInt ≠ none := by
      rw [hk']
      exact Option.some_ne_none k
    obtain ⟨e, he, ⟨-, rfl⟩ | ⟨-, next, rest, hnext, rfl⟩⟩ := hcalled.wait_cases hkids
    · obtain rfl : e = k := Option.some.inj (he.symm.trans hawaited)
      obtain ⟨h1, h2⟩ := (hR.reaps hI hcalled.post hcalled.inv hr).nobodyElse
      exact ⟨fun q e' he' hout => by rw [hk', h1 q e' he' hout],
        fun z hz hout => ⟨e, hk', h2 z hz hout⟩, fun _ => hnone⟩
    · have hblocks := hR.blocksFor hI hcalled.post hcalled.inv hr hnext hpid
      exact ⟨fun q e' he' hout => absurd (hblocks.children ▸ he') hout,
        fun z hz hout => absurd (hblocks.zombies ▸ hz) hout, fun _ => hnone⟩

/-- In a reachable state in which `r` has children, `wait` of a positive pid concerns the child with
that pid only, if and only if there is such a child and some process is ready unless the child has
left. -/
theorem wait_for_pid_iff (h : Reachable s) (hr : s.running = some r) (hkids : s.childrenOf r ≠ [])
    (hpid : 0 < pid.toInt) (result : Int) :
    WaitsForPid s r pid result ↔ ∃ k ∈ s.childByPid r pid.toInt,
      s.Alive (s.ptrPcb k) → s.processes .ready ≠ [] := by
  obtain ⟨es, hrun⟩ := h
  obtain ⟨a, hR, hI⟩ := hrun.refines
  have hr' : a.running = some r := hR.running_eq.symm.trans hr
  constructor
  · intro hwait
    cases hk : s.childByPid r pid.toInt with
    | some k =>
        refine ⟨k, rfl, fun halive => ?_⟩
        obtain ⟨s', v, -, hblocks⟩ := hwait.alive k hk halive
        obtain ⟨next, hnext, -⟩ := hblocks.running
        exact List.ne_nil_of_mem hnext
    | none =>
        -- the scan stops at the last child, so the call is not refused
        obtain ⟨a', hcalled, -⟩ := hR.called hI hr' (hwait.refused hk)
        rw [hR.childrenOf_eq hI.kid] at hkids
        obtain ⟨e, he, ⟨-, rfl⟩ | ⟨-, next, rest, hnext, rfl⟩⟩ := hcalled.wait_cases hkids
        · have hchildren := (hR.reaps hI hcalled.post hcalled.inv hr').children
          have hsame : (s.childrenOf r).erase e = s.childrenOf r := by
            rw [← Function.update_self (f := s.childrenOf) r ((s.childrenOf r).erase e),
              ← hchildren]
            rfl
          have hmem : e ∈ s.childrenOf r := by
            rw [hR.childrenOf_eq hI.kid]
            exact mem_of_awaited he
          have hlen := List.length_erase_of_mem hmem
          have hpos := List.length_pos_of_mem hmem
          rw [hsame] at hlen
          omega
        · obtain ⟨next, hnext, hrunning⟩ :=
            (hR.blocksFor hI hcalled.post hcalled.inv hr' hnext hpid).running
          obtain rfl : r = next := Option.some.inj (hr.symm.trans hrunning)
          rw [hR.processes_eq hI.proc] at hnext
          exact absurd hnext ((hI.proc.running_fresh hr').1 .ready)
  · rintro ⟨k, hk, hready⟩
    exact hR.waitsForPid hI hr' hpid ((hR.childByPid_eq hI.kid r _).symm.trans hk) hready

/-- The parent of two children waits for the second one, which has not left. -/
theorem wait_for_pid_iff_second : ∃ s : Kernel, (s.childrenOf 0).length = 2 ∧
    WaitsForPid s 0 2 100 := by
  obtain ⟨es, s, hrun, hp⟩ := exists_of_executes
    [.syscall (.spawn 1 0), .syscall (.spawn 1 0)]
    (fun _ s => s.running = some 0 ∧ (s.childrenOf 0).length = 2 ∧
      s.childByPid 0 2 = some 24 ∧ s.processes .ready ≠ []) (by decide +kernel)
  obtain ⟨hr, hlen, hk, hready⟩ := of_decide_eq_true hp
  have hkids : s.childrenOf 0 ≠ [] := fun hnil => by rw [hnil] at hlen; cases hlen
  exact ⟨s, hlen, (wait_for_pid_iff ⟨es, hrun⟩ hr hkids (by decide) 100).2
    ⟨24, hk, fun _ => hready⟩⟩

/-- No child has the pid 5, and the call collects the child with the pid 1. -/
theorem wait_for_other_pid : ∃ (s : Kernel), Reachable s ∧ s.running = some 0 ∧
    s.childrenOf 0 ≠ [] ∧ ¬ WaitsForPid s 0 5 100 := by
  obtain ⟨es, s, hrun, hp⟩ := exists_of_executes
    [.syscall (.spawn 1 0), .syscall .preempt, .syscall (.exit 3)]
    (fun _ s => s.running = some 0 ∧ s.childrenOf 0 ≠ [] ∧ s.childByPid 0 5 = none ∧
      (s.call (.wait 5 100)).toOption.map (·.2) = some (some 1)) (by decide +kernel)
  obtain ⟨hr, hkids, hnone, hret⟩ := of_decide_eq_true hp
  refine ⟨s, ⟨es, hrun⟩, hr, hkids, fun hwait => ?_⟩
  rw [hwait.refused hnone] at hret
  have hcode : dsosEWait = 1 := Option.some.inj (Option.some.inj hret)
  exact absurd hcode (by decide)

end DisastrOS
