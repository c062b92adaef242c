import DisastrOS.Machine

/-!
# Contexts, the main context and the log file

Every process executes code of its own in a context of its own. `Machine` adds to the kernel state
what the processor executes, the contexts saved in the PCBs and the log file. A process may be
interrupted between any two steps of its code, also in the middle of `disastrOS_syscall`; the trap
and the timer interrupt themselves run with the timer signal blocked or, for the interrupt, are
taken to be over before the next signal. A signal that is pending while they run is taken after
`setcontext` has loaded the whole context of the next process, and so between two of its steps.

The functions passed to `disastrOS_start` and `disastrOS_spawn` do not return. Since `uc_link` is
`&main_context`, a return would make the main context start a new `init` while a process still runs.
What is printed is left out.
-/

set_option autoImplicit false

namespace DisastrOS

/-! ## Code of the processes -/

/-- What the code of a process does next; `σ` stands for its registers and its stack. There is no
instruction that returns from the function of the process. -/
inductive Instruction (σ : Type) where
  | compute (next : σ)
  | load (address : Int) (next : UInt8 → σ)
  | loadInt (address : Int) (next : Int → σ)
  | store (address : Int) (value : UInt8) (next : σ)
  | getpid (next : Int → σ)
  | call (c : Syscall) (next : Int → σ)

/-- The code of all processes: `main` starts the function passed to `disastrOS_start`, `entry` a
function passed to `disastrOS_spawn` on its argument. -/
structure Code (σ : Type) where
  main : σ
  entry : Int → Int → σ
  fetch : σ → Instruction σ

/-- Where a process stands: in its own code, or in `disastrOS_syscall`, where it has stored the
first `i` arguments, is about to enter the trap, or is about to read the answer. -/
inductive Context (σ : Type) where
  | user (state : σ)
  | storing (c : Syscall) (i : Nat) (next : Int → σ)
  | calling (c : Syscall) (next : Int → σ)
  | returning (next : Int → σ)

/-! ## The log file -/

/-- The actions in the log file. -/
inductive LogAction where
  | start
  | timerOut
  | timerIn
  | syscallIn (num : Int)
  | syscallOut (num : Int)
  deriving DecidableEq

/-- A line of the log file. -/
structure LogEntry where
  time : Int
  pid : Int
  action : LogAction
  deriving DecidableEq

/-! ## The machine -/

/-- The kernel with the processor (`cpu`), the contexts saved in the PCBs and the log file, if there
is one. The processor holds a whole context or, while the main context runs, none. -/
structure Machine (σ : Type) where
  kernel : Kernel
  cpu : Option (Context σ)
  cpuState : Addr → Option (Context σ)
  logFile : Option (List LogEntry)

/-- `disastrOS_start` from `getcontext(&main_context)` on, where control also comes when the trap
returns. It would come here, too, if a process function returned, which none does. -/
def Kernel.resumeMain (s : Kernel) : Except Fault Kernel :=
  if s.shutdownNow then .error .exited
  else do
    let (s, pcb) ← s.pcbAlloc
    return { s with
      running := some pcb
      status := Function.update s.status pcb .running
      initPcb := some pcb }

/-- What the kernel can do next: a step of the system, or the restart by the main context. -/
inductive Move where
  | action (act : Action)
  | resume
  deriving DecidableEq

/-- `disastrOS_getpid`. -/
def Kernel.disastrOSGetpid (s : Kernel) : Int :=
  match s.running with
  | none => -1
  | some running => s.pid running

namespace Machine

variable {σ : Type}

/-- `if (log_file) fprintf(log_file, ..., disastrOS_time, running->pid, ...)`. -/
def log (m : Machine σ) (action : LogAction) : Except Fault (Machine σ) :=
  match m.logFile with
  | none => .ok m
  | some entries => do
      let running ← deref m.kernel.running
      let entry := ⟨m.kernel.time, m.kernel.pid running, action⟩
      return { m with logFile := some (entries ++ [entry]) }

/-- The part of `swapcontext` that saves the context of the running process. -/
def saveContext (m : Machine σ) (context : Context σ) : Except Fault (Machine σ) := do
  let running ← deref m.kernel.running
  return { m with cpuState := Function.update m.cpuState running (some context) }

/-- `setcontext(&running->cpu_state)`. A context that was never made cannot be resumed. A pending
signal is taken when the whole context is loaded. -/
def setContext (m : Machine σ) : Except Fault (Machine σ) := do
  let running ← deref m.kernel.running
  let context ← deref (m.cpuState running)
  return { m with cpu := some context }

/-- `timerHandler` and `timerInterrupt`. -/
def timerInterrupt (m : Machine σ) (context : Context σ) : Except Fault (Machine σ) := do
  let m ← m.saveContext context
  let m ← m.log .timerOut
  let kernel ← m.kernel.timerInterrupt
  let m ← { m with kernel }.log .timerIn
  m.setContext

/-- The contexts after the handler of the call stored in the PCB of `running`: `internal_spawn`
makes one for the new process, `internal_fork` does not. -/
def makeContext (code : Code σ) (s : Kernel) (running : Addr)
    (cpuState : Addr → Option (Context σ)) : Addr → Option (Context σ) :=
  match s.pcbAllocator.getBlock.1 with
  | none => cpuState
  | some newPcb =>
      if s.syscallNum running = dsosCallSpawn then
        Function.update cpuState newPcb (some
          (.user (code.entry (s.syscallArgs running 0) (s.syscallArgs running 1))))
      else cpuState

/-- `disastrOS_trap`. Without a running process it returns, and the main context resumes. -/
def disastrOSTrap (code : Code σ) (m : Machine σ) : Except Fault (Machine σ) := do
  let running ← deref m.kernel.running
  let num := m.kernel.syscallNum running
  let m ← m.log (.syscallIn num)
  let kernel ← m.kernel.disastrOSTrap
  let m := { m with kernel, cpuState := makeContext code m.kernel running m.cpuState }
  if kernel.shutdownNow then
    return { m with cpu := none }
  let m ← m.log (.syscallOut num)
  match kernel.running with
  | none => return { m with cpu := none }
  | some _ => m.setContext

/-- One step of the running process. -/
def execute (code : Code σ) (m : Machine σ) : Context σ → Except Fault (Machine σ)
  | .user state =>
      match code.fetch state with
      | .compute next => .ok { m with cpu := some (.user next) }
      | .load address next => .ok { m with cpu := some (.user (next (m.kernel.chars address))) }
      | .loadInt address next => .ok { m with cpu := some (.user (next (m.kernel.ints address))) }
      | .store address value next => .ok { m with
          kernel := { m.kernel with chars := Function.update m.kernel.chars address value }
          cpu := some (.user next) }
      | .getpid next => .ok { m with cpu := some (.user (next m.kernel.disastrOSGetpid)) }
      | .call c next => do
          let _ ← assertNonNull m.kernel.running
          if c.num < 0 ∨ c.num > dsosMaxSyscalls then
            return { m with cpu := some (.user (next dsosESyscallOutOfRange)) }
          return { m with cpu := some (.storing c 0 next) }
  | .storing c i next => do
      let running ← deref m.kernel.running
      if i < Kernel.syscallNumarg c.num then
        return { m with
          kernel := { m.kernel with
            syscallArgs := Function.update m.kernel.syscallArgs running
              (Function.update (m.kernel.syscallArgs running) i (c.args.getD i 0)) }
          cpu := some (.storing c (i + 1) next) }
      return { m with
        kernel := { m.kernel with
          syscallNum := Function.update m.kernel.syscallNum running c.num }
        cpu := some (.calling c next) }
  | .calling _ next => do
      let m ← m.saveContext (.returning next)
      m.disastrOSTrap code
  | .returning next => do
      let running ← deref m.kernel.running
      return { m with cpu := some (.user (next (m.kernel.syscallRetvalue running))) }

/-- The end of `disastrOS_start`: the first context is made, the log file opened and the first
process dispatched. -/
def launch (code : Code σ) (m : Machine σ) (logging : Bool) : Except Fault (Machine σ) := do
  let running ← deref m.kernel.running
  { m with
    cpuState := Function.update m.cpuState running (some (.user code.main))
    logFile := if logging then some [⟨m.kernel.time, -1, .start⟩] else none }.setContext

/-- `disastrOS_start`. -/
def disastrOSStart (code : Code σ) (chars : Int → UInt8) (ints : Int → Int) (logging : Bool) :
    Except Fault (Machine σ) := do
  let kernel ← Kernel.disastrOSStart chars ints
  let m : Machine σ := ⟨kernel, none, fun _ => none, none⟩
  m.launch code logging

/-- The main context resumes. -/
def resumeMain (code : Code σ) (m : Machine σ) : Except Fault (Machine σ) := do
  let kernel ← m.kernel.resumeMain
  { m with kernel }.launch code m.logFile.isSome

/-- One step of the machine. With `signal` the timer fires; without a running process its handler
uses a null pointer. -/
def step (code : Code σ) (m : Machine σ) (signal : Bool) : Except Fault (Machine σ) :=
  match m.cpu with
  | some context => if signal then m.timerInterrupt context else m.execute code context
  | none =>
      if m.kernel.shutdownNow then .error .exited
      else if signal then .error .nullPointer
      else m.resumeMain code

end Machine

end DisastrOS
