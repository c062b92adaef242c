import DisastrOS.SyscallTables
import DisastrOS.Refinement.SystemRun

/-!
# The tables of the syscalls

`disastrOS_syscall` and `disastrOS_trap` both refuse the numbers above `DSOS_MAX_SYSCALLS`, the
length of their tables, and so let that number itself pass. With every other number the tables are
read at their entries only, and a handler is called if and only if there is one.
-/

set_option autoImplicit false

namespace DisastrOS

open Logging Runs SyscallTables

variable {s : Kernel} {r : Addr} {num : Int} {args : Nat → Int}

/-! ## The specification -/

/-- The number of an entry of `syscall_vector` and `syscall_numarg`. -/
def InSyscallTables (num : Int) : Prop := 0 ≤ num ∧ num < dsosMaxSyscalls

namespace Access

/-- An access to an array that stays inside the array. -/
def InBounds : Access → Prop
  | .numarg i | .vector i => InSyscallTables i
  | .arg i => i < dsosMaxSyscallsArgs
  | .run _ _ => True

/-- The arguments that are stored, in order. -/
def stores (log : List Access) : List Nat :=
  log.filterMap fun
    | .arg i => some i
    | _ => none

/-- The calls of handlers, in order. -/
def runs (log : List Access) : List (SyscallFunction × Kernel) :=
  log.filterMap fun
    | .run handler s => some (handler, s)
    | _ => none

end Access

/-- The entry of `syscall_vector` that `disastrOS_start` leaves at `num`. -/
def HasEntry (num : Int) (entry : Option SyscallFunction) : Prop :=
  tableGet installed.vector Fault.outOfBounds num = .ok entry

/-- What the trap has to do in the state `s`, where `log` is what it does and `result` its
outcome. -/
structure TrapsInTables (s : Kernel) (r : Addr) (log : List Access) (result : Except Fault Kernel) :
    Prop where
  inBounds : ∀ a ∈ log, a.InBounds
  stores : Access.stores log = []
  outOfRange : ¬ InSyscallTables (s.syscallNum r) →
    result = .ok (s.setRetvalue r dsosESyscallOutOfRange) ∧ Access.runs log = []
  notImplemented : HasEntry (s.syscallNum r) none →
    result = .ok (s.setRetvalue r dsosESyscallNotImplemented) ∧ Access.runs log = []
  handled : ∀ handler, HasEntry (s.syscallNum r) (some handler) →
    result = handler s ∧ Access.runs log = [(handler, s)]

/-- What the syscall `num` has to do in the state `s`, where `log` is what it does and `result` its
outcome. -/
structure SyscallInTables (s : Kernel) (r : Addr) (num : Int) (args : Nat → Int)
    (log : List Access) (result : Except Fault (Kernel × Option Int)) : Prop where
  inBounds : ∀ a ∈ log, a.InBounds
  stores : (Access.stores log).length ≤ dsosMaxSyscallsArgs
  outOfRange : ¬ InSyscallTables num →
    result = .ok (s, some dsosESyscallOutOfRange) ∧ Access.runs log = []
  notImplemented : HasEntry num none → Access.runs log = [] ∧
    ∃ t : Kernel, result = .ok (t, some dsosESyscallNotImplemented) ∧
      t.toHeaps = s.toHeaps ∧ t.toPools = s.toPools
  /-- The handler runs once, in the state with the number and the arguments. -/
  handled : ∀ handler, HasEntry num (some handler) →
    Access.runs log = [(handler, s.enterTrap r num args)] ∧
      result = (handler (s.enterTrap r num args)).map fun t => (t, t.running.map t.syscallRetvalue)
  /-- The handler finds as many arguments as `syscall_numarg` says. -/
  passed : ∀ n, tableGet installed.numarg Fault.outOfBounds num = .ok n →
    ∀ i : Nat, i < n → (s.enterTrap r num args).syscallArgs r i = args i
  /-- For a function of the interface these are all its arguments. -/
  complete : ∀ c : Syscall, c.num = num →
    tableGet installed.numarg Fault.outOfBounds num = .ok (c.args.length : Int)

/-! ## The entries -/

theorem HasEntry.inTables {entry : Option SyscallFunction} (h : HasEntry num entry) :
    InSyscallTables num := bounds_of_tableGet h

theorem hasEntry_iff (h : InSyscallTables num) (entry : Option SyscallFunction) :
    HasEntry num entry ↔ Kernel.syscallVector num = entry := by
  rw [HasEntry, vector_get h.1 h.2, Except.ok.injEq]

theorem lt_or_lt_of_not_inTables (h : ¬ InSyscallTables num) (hmax : num ≠ dsosMaxSyscalls) :
    num < 0 ∨ dsosMaxSyscalls < num := by
  rw [InSyscallTables] at h
  omega

/-- The number just behind the tables, which the checks let pass, has no entry. -/
theorem not_inTables_max : ¬ InSyscallTables dsosMaxSyscalls := by
  rw [InSyscallTables]
  omega

namespace Access

/-- A syscall calls no handler before the trap. -/
theorem runs_entered (num : Int) (n : Nat) (l : List Access) :
    runs (.numarg num :: (List.range n).map .arg ++ l) = runs l := by
  have hnil : runs (.numarg num :: (List.range n).map .arg) = [] :=
    List.filterMap_eq_nil_iff.2 (List.forall_mem_cons.2 ⟨rfl, List.forall_mem_map.2 fun _ _ => rfl⟩)
  rw [runs, List.filterMap_append]
  exact (congrArg (· ++ runs l) hnil).trans (List.nil_append _)

theorem stores_entered (num : Int) (n : Nat) (l : List Access) :
    stores (.numarg num :: (List.range n).map .arg ++ l) = List.range n ++ stores l := by
  have hrange : stores (.numarg num :: (List.range n).map .arg) = List.range n := by
    rw [stores, List.filterMap_cons_none rfl, List.filterMap_map]
    exact List.filterMap_some
  rw [stores, List.filterMap_append]
  exact congrArg (· ++ stores l) hrange

end Access

/-! ## The trap -/

/-- The trap with the number of an entry. -/
theorem trap_entry (hr : s.running = some r) (h : InSyscallTables (s.syscallNum r)) :
    TrapsInTables s r (installed.disastrOSTrap s).log (installed.disastrOSTrap s).result := by
  have hentry := hasEntry_iff h
  rw [trap_inRange hr h.1 h.2]
  cases hv : Kernel.syscallVector (s.syscallNum r) with
  | none =>
      constructor
      · exact List.forall_mem_singleton.2 h
      · rfl
      · exact fun hno => absurd h hno
      · exact fun _ => ⟨rfl, rfl⟩
      · intro handler hhandler
        rw [hentry, hv] at hhandler
        cases hhandler
  | some handler =>
      constructor
      · exact List.forall_mem_cons.2 ⟨h, List.forall_mem_singleton.2 trivial⟩
      · rfl
      · exact fun hno => absurd h hno
      · intro hnone
        rw [hentry, hv] at hnone
        cases hnone
      · intro handler' hhandler
        rw [hentry, hv] at hhandler
        obtain rfl := Option.some.inj hhandler
        exact ⟨rfl, rfl⟩

/-- A number outside of the tables, other than the one just behind them, is refused by the trap. -/
theorem trap_refused (hr : s.running = some r) (h : ¬ InSyscallTables (s.syscallNum r))
    (hmax : s.syscallNum r ≠ dsosMaxSyscalls) :
    TrapsInTables s r (installed.disastrOSTrap s).log (installed.disastrOSTrap s).result := by
  rw [trap_outOfRange hr (lt_or_lt_of_not_inTables h hmax)]
  constructor
  · exact List.forall_mem_nil _
  · rfl
  · exact fun _ => ⟨rfl, rfl⟩
  · exact fun hnone => absurd hnone.inTables h
  · exact fun _ hhandler => absurd hhandler.inTables h

/-- The trap stays inside the tables if and only if the number is not one too large. -/
theorem trapsInTables_iff (hr : s.running = some r) :
    TrapsInTables s r (installed.disastrOSTrap s).log s.disastrOSTrap ↔
      s.syscallNum r ≠ dsosMaxSyscalls := by
  rw [← result_disastrOSTrap]
  constructor
  · intro h hmax
    have hbad := h.inBounds (.vector dsosMaxSyscalls)
    rw [trap_maxSyscalls hr hmax] at hbad
    exact not_inTables_max (hbad List.mem_cons_self)
  · intro hmax
    by_cases h : InSyscallTables (s.syscallNum r)
    · exact trap_entry hr h
    · exact trap_refused hr h hmax

/-! ## The syscall -/

/-- The trap finds the arguments that the process passed. -/
theorem enterTrap_args {i : Nat} (hi : i < Kernel.syscallNumarg num) :
    (s.enterTrap r num args).syscallArgs r i = args i := by
  rw [Kernel.enterTrap, Kernel.withArgs_syscallArgs, Model.storeArgs_apply, if_pos hi]

theorem numarg_passed {n : Int} (h : tableGet installed.numarg Fault.outOfBounds num = .ok n)
    {i : Nat} (hi : i < n) : (s.enterTrap r num args).syscallArgs r i = args i := by
  obtain ⟨h0, h1⟩ : InSyscallTables num := bounds_of_tableGet h
  rw [numarg_get h0 h1] at h
  obtain rfl := Except.ok.inj h
  exact enterTrap_args (Int.ofNat_lt.1 hi)

/-- The table holds the number of arguments that the call passes. -/
theorem numarg_complete {c : Syscall} (hc : c.num = num) :
    tableGet installed.numarg Fault.outOfBounds num = .ok (c.args.length : Int) := by
  obtain ⟨h0, h1⟩ := c.num_range
  rw [← hc, numarg_get h0 h1, Model.syscallNumarg_eq]

theorem setRetvalue_handed (hr : s.running = some r) (v : Int) :
    (s.setRetvalue r v).running.map (s.setRetvalue r v).syscallRetvalue = some v := by
  have hr' : (s.setRetvalue r v).running = some r := hr
  rw [hr', Option.map_some]
  exact congrArg some (Function.update_self ..)

/-- The syscall with the number of an entry. -/
theorem syscall_entry (hr : s.running = some r) (h : InSyscallTables num) :
    SyscallInTables s r num args (installed.disastrOSSyscall s num args).log
      (installed.disastrOSSyscall s num args).result := by
  have hnum : (s.enterTrap r num args).syscallNum r = num := Function.update_self ..
  have hrun : (s.enterTrap r num args).running = some r := hr
  have htrap := trap_entry hrun (hnum.symm ▸ h)
  have hnone := htrap.notImplemented
  have hhandled := htrap.handled
  rw [hnum] at hnone hhandled
  rw [syscall_inRange hr h.1 h.2]
  constructor
  · refine List.forall_mem_append.2 ⟨List.forall_mem_cons.2 ⟨h, ?_⟩, htrap.inBounds⟩
    refine List.forall_mem_map.2 fun i hi => ?_
    exact lt_of_lt_of_le (List.mem_range.1 hi) (numarg_le num)
  · rw [Access.stores_entered, htrap.stores, List.append_nil, List.length_range]
    exact numarg_le num
  · exact fun hno => absurd h hno
  · intro hentry
    obtain ⟨hresult, hlog⟩ := hnone hentry
    refine ⟨(Access.runs_entered ..).trans hlog,
      (s.enterTrap r num args).setRetvalue r dsosESyscallNotImplemented, ?_, rfl, rfl⟩
    rw [hresult, Except.map, setRetvalue_handed hrun]
  · intro handler hentry
    obtain ⟨hresult, hlog⟩ := hhandled handler hentry
    exact ⟨(Access.runs_entered ..).trans hlog, congrArg (Except.map _) hresult⟩
  · exact fun n hn i hi => numarg_passed hn hi
  · exact fun c hc => numarg_complete hc

/-- A number outside of the tables, other than the one just behind them, is refused at once. -/
theorem syscall_refused (hr : s.running = some r) (h : ¬ InSyscallTables num)
    (hmax : num ≠ dsosMaxSyscalls) :
    SyscallInTables s r num args (installed.disastrOSSyscall s num args).log
      (installed.disastrOSSyscall s num args).result := by
  rw [syscall_outOfRange hr (lt_or_lt_of_not_inTables h hmax)]
  constructor
  · exact List.forall_mem_nil _
  · exact Nat.zero_le _
  · exact fun _ => ⟨rfl, rfl⟩
  · exact fun hnone => absurd hnone.inTables h
  · exact fun _ hhandler => absurd hhandler.inTables h
  · exact fun n hn i hi => numarg_passed hn hi
  · exact fun c hc => numarg_complete hc

/-- The syscall stays inside the tables if and only if the number is not one too large. -/
theorem syscallInTables_iff (hr : s.running = some r) :
    SyscallInTables s r num args (installed.disastrOSSyscall s num args).log
      (s.disastrOSSyscall num args) ↔ num ≠ dsosMaxSyscalls := by
  rw [← result_disastrOSSyscall]
  constructor
  · rintro h rfl
    have hbad := h.inBounds (.numarg dsosMaxSyscalls)
    rw [syscall_maxSyscalls hr] at hbad
    exact not_inTables_max (hbad List.mem_cons_self)
  · intro hmax
    by_cases h : InSyscallTables num
    · exact syscall_entry hr h
    · exact syscall_refused hr h hmax

/-- The functions of the interface stay inside the tables. -/
theorem call_inTables (hr : s.running = some r) (c : Syscall) :
    SyscallInTables s r c.num (fun i => c.args.getD i 0)
      (installed.disastrOSSyscall s c.num fun i => c.args.getD i 0).log (s.call c) :=
  (syscallInTables_iff hr).2 c.num_range.2.ne

/-- A syscall stays inside the tables if and only if its number is not their length, and the trap by
itself does if and only if the number that it finds is not. -/
theorem syscall_tables_iff (hr : s.running = some r) (num : Int32) (args : Nat → Int) :
    (SyscallInTables s r num.toInt args (installed.disastrOSSyscall s num.toInt args).log
        (s.disastrOSSyscall num.toInt args) ↔ num.toInt ≠ dsosMaxSyscalls) ∧
      (TrapsInTables s r (installed.disastrOSTrap s).log s.disastrOSTrap ↔
        s.syscallNum r ≠ dsosMaxSyscalls) :=
  ⟨syscallInTables_iff hr, trapsInTables_iff hr⟩

/-- The last entry of the tables, which has no handler. -/
theorem syscall_tables_iff_last : ∃ (es : List (Event Kernel Action)) (s : Kernel),
    SystemRun es s ∧ s.running = some 0 ∧
      SyscallInTables s 0 31 (fun _ => 7) (installed.disastrOSSyscall s 31 fun _ => 7).log
        (s.disastrOSSyscall 31 fun _ => 7) ∧
      TrapsInTables s 0 (installed.disastrOSTrap s).log s.disastrOSTrap := by
  obtain ⟨es, s, hrun, hp⟩ := exists_of_executes [.syscall .preempt]
    (fun _ s => s.running = some 0 ∧ s.syscallNum 0 = 1) (by decide +kernel)
  obtain ⟨hr, hnum⟩ := of_decide_eq_true hp
  obtain ⟨hsyscall, htrap⟩ := syscall_tables_iff hr 31 fun _ => 7
  refine ⟨es, s, hrun, hr, hsyscall.2 (by decide), htrap.2 ?_⟩
  rw [hnum]
  decide

/-- The first process makes the syscall 32: the number of its arguments is read behind the end of
`syscall_numarg`. -/
theorem syscall_numarg_outOfBounds : ∃ s : Kernel, SystemRun [] s ∧ s.running = some 0 ∧
    (∀ args, s.disastrOSSyscall 32 args = .error .outOfBounds) ∧
    (∀ args, .numarg 32 ∈ (installed.disastrOSSyscall s 32 args).log) ∧
    ∀ args, ¬ SyscallInTables s 0 32 args (installed.disastrOSSyscall s 32 args).log
      (s.disastrOSSyscall 32 args) := by
  obtain ⟨s, hrun, hR⟩ := exists_start
  have hr : s.running = some 0 := hR.running_eq
  have hsyscall : ∀ args, installed.disastrOSSyscall s 32 args =
      ⟨[.numarg 32], .error .outOfBounds⟩ := fun _ => syscall_maxSyscalls hr
  have hmem : ∀ args, .numarg 32 ∈ (installed.disastrOSSyscall s 32 args).log := by
    intro args
    rw [hsyscall]
    exact List.mem_cons_self
  refine ⟨s, hrun, hr, fun args => ?_, hmem, fun args h => ?_⟩
  · rw [← result_disastrOSSyscall, hsyscall]
  · exact not_inTables_max (h.inBounds _ (hmem args))

end DisastrOS
