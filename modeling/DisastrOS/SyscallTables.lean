import DisastrOS.Library.Logged
import DisastrOS.Machine
import Mathlib.Data.Fintype.Basic
import Mathlib.Tactic.FinCases

/-!
# `disastrOS.c`: the tables of the syscalls

`disastrOS_syscall` and `disastrOS_trap` once more, with `syscall_vector` and `syscall_numarg` as
the arrays that `disastrOS_start` fills, and with a log of every access to an array and of every
call through the vector. The results are those of `Kernel.disastrOSSyscall` and
`Kernel.disastrOSTrap`.
-/

set_option autoImplicit false

namespace DisastrOS

open Logging

/-- `SyscallFunctionType`. -/
abbrev SyscallFunction := Kernel → Except Fault Kernel

/-- `syscall_vector` and `syscall_numarg`. -/
structure SyscallTables where
  vector : Vector (Option SyscallFunction) dsosMaxSyscalls.toNat
  numarg : Vector Int dsosMaxSyscalls.toNat

/-- What `disastrOS_syscall` and `disastrOS_trap` do with arrays and with the handlers. -/
inductive Access where
  /-- `syscall_numarg[i]` is read. -/
  | numarg (i : Int)
  /-- `running->syscall_args[i]` is written. -/
  | arg (i : Nat)
  /-- `syscall_vector[i]` is read. -/
  | vector (i : Int)
  /-- The handler is called in the state `s`. -/
  | run (handler : SyscallFunction) (s : Kernel)

namespace Kernel

/-- The state in which the `syscall_args` of the process `r` are `stored`. -/
def withArgs (s : Kernel) (r : Addr) (stored : Nat → Int) : Kernel :=
  { s with syscallArgs := Function.update s.syscallArgs r stored }

variable (s : Kernel) (r : Addr)

@[simp] theorem withArgs_syscallArgs (stored : Nat → Int) :
    (s.withArgs r stored).syscallArgs r = stored := Function.update_self ..

@[simp] theorem withArgs_withArgs (stored stored' : Nat → Int) :
    (s.withArgs r stored).withArgs r stored' = s.withArgs r stored' := by
  simp only [withArgs, Function.update_idem]

@[simp] theorem withArgs_self : s.withArgs r (s.syscallArgs r) = s := by
  simp only [withArgs, Function.update_eq_self]

/-- The state in which the trap finds the number and the arguments of a syscall. -/
def enterTrap (num : Int) (args : Nat → Int) : Kernel :=
  let s := s.withArgs r (storeArgs args (syscallNumarg num) (s.syscallArgs r))
  { s with syscallNum := Function.update s.syscallNum r num }

end Kernel

namespace SyscallTables

/-- `syscall_vector[num] = handler; syscall_numarg[num] = n;` -/
def install (t : SyscallTables) (num : Int) (handler : SyscallFunction) (n : Int) :
    SyscallTables where
  vector := t.vector.setIfInBounds num.toNat (some handler)
  numarg := t.numarg.setIfInBounds num.toNat n

/-- The tables after the loop of `disastrOS_start`; `syscall_numarg` is zero-initialised memory. -/
def cleared : SyscallTables where
  vector := Vector.replicate _ none
  numarg := Vector.replicate _ 0

/-- The tables that `disastrOS_start` leaves. -/
def installed : SyscallTables := cleared
  |>.install dsosCallPreempt Kernel.internalPreempt 0
  |>.install dsosCallFork Kernel.internalFork 0
  |>.install dsosCallSpawn Kernel.internalSpawn 2
  |>.install dsosCallWait Kernel.internalWait 2
  |>.install dsosCallExit Kernel.internalExit 1
  |>.install dsosCallSleep Kernel.internalSleep 1
  |>.install dsosCallOpenResource Kernel.internalOpenResource 3
  |>.install dsosCallCloseResource Kernel.internalCloseResource 2
  |>.install dsosCallDestroyResource Kernel.internalDestroyResource 1
  |>.install dsosCallShutdown Kernel.internalShutdown 0
  |>.install dsosCallMessageQueueRead Kernel.internalMessageQueueRead 3
  |>.install dsosCallMessageQueueWrite Kernel.internalMessageQueueWrite 3

/-- `running->syscall_args[i] = v;` -/
def storeArg (s : Kernel) (running : Addr) (i : Nat) (v : Int) : Logged Access Fault Kernel := do
  Logged.event (.arg i)
  if i < dsosMaxSyscallsArgs then
    return s.withArgs running (Function.update (s.syscallArgs running) i v)
  else
    Logged.lift (.error .outOfBounds)

/-- The loop of `disastrOS_syscall`; the `i`-th `va_arg` yields `args i`. -/
def storeArgs (running : Addr) (args : Nat → Int) : Nat → Kernel → Logged Access Fault Kernel
  | 0, s => return s
  | n + 1, s => do
      let s ← storeArgs running args n s
      storeArg s running n (args n)

/-- `disastrOS_trap`. -/
def disastrOSTrap (t : SyscallTables) (s : Kernel) : Logged Access Fault Kernel := do
  let running ← Logged.lift (deref s.running)
  let num := s.syscallNum running
  if num < 0 ∨ num > dsosMaxSyscalls then
    return s.setRetvalue running dsosESyscallOutOfRange
  else
    let mySyscall ← Logged.readTable t.vector .outOfBounds .vector num
    match mySyscall with
    | none => return s.setRetvalue running dsosESyscallNotImplemented
    | some mySyscall => do
        Logged.event (.run mySyscall s)
        Logged.lift (mySyscall s)

/-- `disastrOS_syscall` of the running process. -/
def disastrOSSyscall (t : SyscallTables) (s : Kernel) (num : Int) (args : Nat → Int) :
    Logged Access Fault (Kernel × Option Int) := do
  let running ← Logged.lift (assertNonNull s.running)
  if num < 0 ∨ num > dsosMaxSyscalls then
    return (s, some dsosESyscallOutOfRange)
  else
    let nargs ← Logged.readTable t.numarg .outOfBounds .numarg num
    let s ← storeArgs running args nargs.toNat s
    let s := { s with syscallNum := Function.update s.syscallNum running num }
    let s ← t.disastrOSTrap s
    return (s, s.running.map s.syscallRetvalue)

/-! ## The entries -/

variable {s : Kernel} {r : Addr} {num : Int} {args : Nat → Int}

theorem installed_get (i : Fin dsosMaxSyscalls.toNat) :
    installed.vector.get i = Kernel.syscallVector i ∧
      installed.numarg.get i = Kernel.syscallNumarg i := by
  change Fin 32 at i
  fin_cases i <;> exact ⟨rfl, rfl⟩

section Bounds

variable (h0 : 0 ≤ num) (h1 : num < dsosMaxSyscalls)
include h0 h1

theorem numarg_get : tableGet installed.numarg Fault.outOfBounds num =
    .ok (Kernel.syscallNumarg num : Int) := by
  have h : num < (dsosMaxSyscalls.toNat : Int) := h1
  rw [tableGet_of_bounds _ _ h0 h, (installed_get _).2]
  simp only [Int.toNat_of_nonneg h0]

theorem vector_get : tableGet installed.vector Fault.outOfBounds num =
    .ok (Kernel.syscallVector num) := by
  have h : num < (dsosMaxSyscalls.toNat : Int) := h1
  rw [tableGet_of_bounds _ _ h0 h, (installed_get _).1]
  simp only [Int.toNat_of_nonneg h0]

end Bounds

/-- No entry of `syscall_numarg` exceeds the length of `syscall_args`. -/
theorem numarg_le (num : Int) : Kernel.syscallNumarg num ≤ dsosMaxSyscallsArgs := by
  unfold Kernel.syscallNumarg
  split
  · decide
  · split
    · decide
    · split <;> decide

/-! ## The calls -/

/-- The loop over the arguments stays inside `syscall_args`. -/
theorem storeArgs_eq {n : Nat} (hn : n ≤ dsosMaxSyscallsArgs) : storeArgs r args n s =
    ⟨(List.range n).map .arg, .ok (s.withArgs r (Kernel.storeArgs args n (s.syscallArgs r)))⟩ := by
  induction n with
  | zero => rw [storeArgs, Kernel.storeArgs, Kernel.withArgs_self]; rfl
  | succ n ih =>
      rw [storeArgs, ih (Nat.le_of_succ_le hn), Logged.mk_ok_bind, storeArg, Logged.event_bind,
        if_pos (show n < dsosMaxSyscallsArgs from hn), Logged.pure_def, Kernel.withArgs_syscallArgs,
        Kernel.withArgs_withArgs, List.range_succ, List.map_append, Kernel.storeArgs]
      rfl

section Trap

variable (hr : s.running = some r)
include hr

theorem trap_outOfRange (hnum : s.syscallNum r < 0 ∨ dsosMaxSyscalls < s.syscallNum r) :
    installed.disastrOSTrap s = ⟨[], .ok (s.setRetvalue r dsosESyscallOutOfRange)⟩ := by
  rw [disastrOSTrap, hr, deref_some, Logged.lift_ok_bind, if_pos hnum]
  rfl

/-- The number that is one too large. -/
theorem trap_maxSyscalls (hnum : s.syscallNum r = dsosMaxSyscalls) :
    installed.disastrOSTrap s = ⟨[.vector dsosMaxSyscalls], .error .outOfBounds⟩ := by
  rw [disastrOSTrap, hr, deref_some, Logged.lift_ok_bind, hnum, if_neg (by decide),
    readTable_eq, tableGet_of_le _ _ (by decide)]
  rfl

/-- What the trap does with the number of an entry. -/
theorem trap_inRange (h0 : 0 ≤ s.syscallNum r) (h1 : s.syscallNum r < dsosMaxSyscalls) :
    installed.disastrOSTrap s =
      match Kernel.syscallVector (s.syscallNum r) with
      | none => ⟨[.vector (s.syscallNum r)],
          .ok (s.setRetvalue r dsosESyscallNotImplemented)⟩
      | some handler => ⟨[.vector (s.syscallNum r), .run handler s], handler s⟩ := by
  rw [disastrOSTrap, hr, deref_some, Logged.lift_ok_bind, if_neg (by omega), readTable_eq,
    vector_get h0 h1, Logged.mk_ok_bind]
  cases Kernel.syscallVector (s.syscallNum r) with
  | none => rfl
  | some handler => rfl

end Trap

section Syscall

variable (hr : s.running = some r)
include hr

theorem syscall_outOfRange (hnum : num < 0 ∨ dsosMaxSyscalls < num) :
    installed.disastrOSSyscall s num args = ⟨[], .ok (s, some dsosESyscallOutOfRange)⟩ := by
  rw [disastrOSSyscall, assertNonNull_eq_ok.2 hr, Logged.lift_ok_bind, if_pos hnum]
  rfl

/-- The number that is one too large is not stored. -/
theorem syscall_maxSyscalls : installed.disastrOSSyscall s dsosMaxSyscalls args =
    ⟨[.numarg dsosMaxSyscalls], .error .outOfBounds⟩ := by
  rw [disastrOSSyscall, assertNonNull_eq_ok.2 hr, Logged.lift_ok_bind, if_neg (by decide),
    readTable_eq, tableGet_of_le _ _ (by decide)]
  rfl

/-- A syscall with the number of an entry is the trap after the stores. -/
theorem syscall_inRange (h0 : 0 ≤ num) (h1 : num < dsosMaxSyscalls) :
    installed.disastrOSSyscall s num args =
      ⟨.numarg num :: (List.range (Kernel.syscallNumarg num)).map .arg ++
          (installed.disastrOSTrap (s.enterTrap r num args)).log,
        (installed.disastrOSTrap (s.enterTrap r num args)).result.map
          fun s => (s, s.running.map s.syscallRetvalue)⟩ := by
  rw [disastrOSSyscall, assertNonNull_eq_ok.2 hr, Logged.lift_ok_bind, if_neg (by omega),
    readTable_eq, numarg_get h0 h1, Logged.mk_ok_bind, Int.toNat_natCast,
    storeArgs_eq (numarg_le num), Logged.mk_ok_bind]
  rw [Logged.bind_pure_map]
  rfl

end Syscall

/-! ## The results -/

variable (s num args)

/-- The trap through the tables is the trap of `Kernel`. -/
theorem result_disastrOSTrap : (installed.disastrOSTrap s).result = s.disastrOSTrap := by
  cases hr : s.running with
  | none => rw [disastrOSTrap, Kernel.disastrOSTrap, hr]; rfl
  | some r =>
      rw [Kernel.disastrOSTrap, hr, deref_some, ok_bind]
      by_cases hrange : s.syscallNum r < 0 ∨ s.syscallNum r > dsosMaxSyscalls
      · rw [trap_outOfRange hr hrange, if_pos hrange]
        rfl
      by_cases hmax : s.syscallNum r = dsosMaxSyscalls
      · rw [trap_maxSyscalls hr hmax, if_neg hrange, if_pos hmax]
      · rw [trap_inRange hr (by omega) (by omega), if_neg hrange, if_neg hmax]
        cases Kernel.syscallVector (s.syscallNum r) with
        | none => rfl
        | some handler => rfl

/-- The syscall through the tables is the syscall of `Kernel`. -/
theorem result_disastrOSSyscall :
    (installed.disastrOSSyscall s num args).result = s.disastrOSSyscall num args := by
  cases hr : s.running with
  | none => rw [disastrOSSyscall, Kernel.disastrOSSyscall, hr]; rfl
  | some r =>
      rw [Kernel.disastrOSSyscall, assertNonNull_eq_ok.2 hr, ok_bind]
      by_cases hrange : num < 0 ∨ num > dsosMaxSyscalls
      · rw [syscall_outOfRange hr hrange, if_pos hrange]
        rfl
      by_cases hmax : num = dsosMaxSyscalls
      · subst hmax
        rw [syscall_maxSyscalls hr, if_neg hrange, if_pos rfl]
      · rw [syscall_inRange hr (by omega) (by omega), if_neg hrange, if_neg hmax,
          result_disastrOSTrap]
        change _ = (s.enterTrap r num args).disastrOSTrap >>= _
        cases (s.enterTrap r num args).disastrOSTrap with
        | error e => rfl
        | ok s => rfl

end SyscallTables

end DisastrOS
