import DisastrOS.Syscalls

/-!
# `disastrOS.c`: start, traps and interrupts

`disastrOSStart` builds the initial state, `disastrOSSyscall` runs one syscall of the running
process and `timerInterrupt` one clock tick. `step` is the transition function of the system: a
step is a tick, a syscall through one of the interface functions, or a store of the running process
into its own memory.

What the main context does when `disastrOS_trap` returns to it, because no process is left to run,
is not a step here: `Kernel.resumeMain`, in `Contexts`, is that restart. Neither are the contexts in
the PCBs part of a step, so that the next process runs whether or not it has one.
-/

set_option autoImplicit false

namespace DisastrOS

open LinkedSequence

namespace Kernel

/-! ## Initial state -/

/-- A heap of zero-initialised links and heads. -/
def zeroHeap {ν ι : Type} : ListHeap ν ι :=
  ⟨fun _ => none, fun _ => none, fun _ => none, fun _ => none, fun _ => 0⟩

/-- The zero-initialised memory of the kernel. The memory of the processes is `chars` and `ints`. -/
def zeroed (chars : Int → UInt8) (ints : Int → Int) : Kernel where
  pid := fun _ => 0
  returnValue := fun _ => 0
  status := fun _ => .created
  signals := fun _ => 0
  signalsMask := fun _ => 0
  parent := fun _ => none
  timer := fun _ => none
  lastFd := fun _ => 0
  syscallNum := fun _ => 0
  syscallArgs := fun _ _ => 0
  syscallRetvalue := fun _ => 0
  ptrPcb := fun _ => 0
  awakeningTime := fun _ => 0
  timerPcb := fun _ => 0
  resourceId := fun _ => 0
  resourceType := fun _ => 0
  readingPid := fun _ => none
  writingPid := fun _ => none
  msgText := fun _ _ => 0
  msgLength := fun _ => 0
  desPcb := fun _ => 0
  desResource := fun _ => .standard 0
  desFd := fun _ => 0
  desPtr := fun _ => none
  desptrDescriptor := fun _ => 0
  initPcb := none
  running := none
  lastPid := 0
  time := 0
  shutdownNow := false
  chars := chars
  ints := ints
  procs := zeroHeap
  children := zeroHeap
  timerList := zeroHeap
  resourcesList := zeroHeap
  descriptors := zeroHeap
  descriptorsPtrs := zeroHeap
  msgs := zeroHeap
  pcbAllocator := .zero
  pcbPtrAllocator := .zero
  timerItemAllocator := .zero
  standardResourcesAllocator := .zero
  mqAllocator := .zero
  mAllocator := .zero
  descriptorAllocator := .zero
  descriptorPtrAllocator := .zero

/-- `PoolAllocator_init` with the assertion on its result; the buffer has `numBlocks` blocks of
`itemSize` bytes with their free list entries. -/
def initPool (a : PoolAllocator) (itemSize : Int) (numItems numBlocks : Nat) :
    Except Fault PoolAllocator :=
  match a.init itemSize numItems (numBlocks * (itemSize + 4)) with
  | (.success, a) => .ok a
  | (_, _) => .error .assertionFailed

/-- `PCB_init`, `Timer_init`, `Descriptor_init`, `mq_init` with `m_init`, and
`StandardResource_init`. The buffers of the descriptors and of the messages are larger than the
number of blocks the allocator is told to manage. -/
def initPools (s : Kernel) : Except Fault Kernel := do
  let pcbAllocator ← initPool s.pcbAllocator sizeofPCB maxNumProcesses maxNumProcesses
  let pcbPtrAllocator ← initPool s.pcbPtrAllocator sizeofPCBPtr maxNumProcesses maxNumProcesses
  let timerItemAllocator ←
    initPool s.timerItemAllocator sizeofTimerItem maxNumProcesses maxNumProcesses
  let descriptorAllocator ← initPool s.descriptorAllocator sizeofDescriptor maxNumProcesses
    (maxNumDescriptorsPerProcess * maxNumProcesses)
  let descriptorPtrAllocator ← initPool s.descriptorPtrAllocator sizeofDescriptorPtr
    maxNumProcesses (maxNumDescriptorsPerProcess * maxNumProcesses)
  let mqAllocator ← initPool s.mqAllocator sizeofMessageQueue maxNumResources maxNumResources
  let mAllocator ← initPool s.mAllocator sizeofMessage maxNumResources
    (mForMq.toNat * maxNumResources)
  let standardResourcesAllocator ←
    initPool s.standardResourcesAllocator sizeofStandardResource maxNumResources maxNumResources
  return { s with
    pcbAllocator, pcbPtrAllocator, timerItemAllocator, descriptorAllocator,
    descriptorPtrAllocator, mqAllocator, mAllocator, standardResourcesAllocator }

/-- `disastrOS_start`, up to the dispatch of the first process. -/
def disastrOSStart (chars : Int → UInt8) (ints : Int → Int) : Except Fault Kernel := do
  let s ← (zeroed chars ints).initPools
  let s := { s with
    initPcb := none
    running := none
    procs := ((s.procs.initHead .ready).initHead .waiting).initHead .zombie
    resourcesList := s.resourcesList.initHead ()
    timerList := s.timerList.initHead () }
  let (s, pcb) ← s.pcbAlloc
  return { s with
    running := some pcb
    status := Function.update s.status pcb .running
    initPcb := some pcb }

/-! ## Syscalls -/

/-- `syscall_vector`. -/
def syscallVector (num : Int) : Option (Kernel → Except Fault Kernel) :=
  if num = dsosCallPreempt then some internalPreempt
  else if num = dsosCallFork then some internalFork
  else if num = dsosCallSpawn then some internalSpawn
  else if num = dsosCallWait then some internalWait
  else if num = dsosCallExit then some internalExit
  else if num = dsosCallSleep then some internalSleep
  else if num = dsosCallOpenResource then some internalOpenResource
  else if num = dsosCallCloseResource then some internalCloseResource
  else if num = dsosCallDestroyResource then some internalDestroyResource
  else if num = dsosCallShutdown then some internalShutdown
  else if num = dsosCallMessageQueueRead then some internalMessageQueueRead
  else if num = dsosCallMessageQueueWrite then some internalMessageQueueWrite
  else none

/-- `syscall_numarg`. -/
def syscallNumarg (num : Int) : Nat :=
  if num = dsosCallSpawn ∨ num = dsosCallWait ∨ num = dsosCallCloseResource then 2
  else if num = dsosCallExit ∨ num = dsosCallSleep ∨ num = dsosCallDestroyResource then 1
  else if num = dsosCallOpenResource ∨ num = dsosCallMessageQueueRead ∨
      num = dsosCallMessageQueueWrite then 3
  else 0

/-- The loop of `disastrOS_syscall` that stores the first `n` arguments. -/
def storeArgs (args : Nat → Int) : Nat → (Nat → Int) → Nat → Int
  | 0, stored => stored
  | n + 1, stored => Function.update (storeArgs args n stored) n (args n)

/-- `disastrOS_trap`, up to `setcontext`; without a running process it returns to the main
context. -/
def disastrOSTrap (s : Kernel) : Except Fault Kernel := do
  let running ← deref s.running
  let num := s.syscallNum running
  if num < 0 ∨ num > dsosMaxSyscalls then
    return s.setRetvalue running dsosESyscallOutOfRange
  if num = dsosMaxSyscalls then
    Except.error .outOfBounds
  else
    match syscallVector num with
    | none => return s.setRetvalue running dsosESyscallNotImplemented
    | some mySyscall => mySyscall s

/-- `disastrOS_syscall` of the running process, up to the point where a process runs again. The
second component is the value handed to that process, if there is one. -/
def disastrOSSyscall (s : Kernel) (num : Int) (args : Nat → Int) :
    Except Fault (Kernel × Option Int) := do
  let running ← assertNonNull s.running
  if num < 0 ∨ num > dsosMaxSyscalls then
    return (s, some dsosESyscallOutOfRange)
  if num = dsosMaxSyscalls then
    Except.error .outOfBounds
  else
    let s := { s with
      syscallArgs := Function.update s.syscallArgs running
        (storeArgs args (syscallNumarg num) (s.syscallArgs running))
      syscallNum := Function.update s.syscallNum running num }
    let s ← s.disastrOSTrap
    return (s, s.running.map s.syscallRetvalue)

end Kernel

/-! ## The interface of the processes -/

/-- The calls of `disastrOS.h`, with their parameters; pointers are integers. -/
inductive Syscall where
  | preempt
  | fork
  | spawn (f args : Int)
  | wait (pid : Int32) (retval : Int)
  | exit (value : Int32)
  | sleep (cycles : Int32)
  | openResource (id type mode : Int32)
  | closeResource (fd mode : Int32)
  | destroyResource (id : Int32)
  | shutdown
  | mqRead (fd : Int32) (buf : Int) (length : Int32)
  | mqWrite (fd : Int32) (msg : Int) (length : Int32)
  deriving DecidableEq

namespace Syscall

/-- The number passed to `disastrOS_syscall`. -/
def num : Syscall → Int
  | preempt => dsosCallPreempt
  | fork => dsosCallFork
  | spawn .. => dsosCallSpawn
  | wait .. => dsosCallWait
  | exit .. => dsosCallExit
  | sleep .. => dsosCallSleep
  | openResource .. => dsosCallOpenResource
  | closeResource .. => dsosCallCloseResource
  | destroyResource .. => dsosCallDestroyResource
  | shutdown => dsosCallShutdown
  | mqRead .. => dsosCallMessageQueueRead
  | mqWrite .. => dsosCallMessageQueueWrite

/-- The arguments passed to `disastrOS_syscall`. -/
def args : Syscall → List Int
  | preempt => []
  | fork => []
  | spawn f a => [f, a]
  | wait pid retval => [pid.toInt, retval]
  | exit value => [value.toInt]
  | sleep cycles => [cycles.toInt]
  | openResource id type mode => [id.toInt, type.toInt, mode.toInt]
  | closeResource fd mode => [fd.toInt, mode.toInt]
  | destroyResource id => [id.toInt]
  | shutdown => []
  | mqRead fd buf length => [fd.toInt, buf, length.toInt]
  | mqWrite fd msg length => [fd.toInt, msg, length.toInt]

end Syscall

/-- What can happen next: a clock tick, a syscall of the running process, or a store of the running
process into its own memory. -/
inductive Action where
  | tick
  | syscall (c : Syscall)
  | store (address : Int) (value : UInt8)
  deriving DecidableEq

namespace Kernel

/-- A call of the running process; the value is the one handed to the process that runs next. -/
def call (s : Kernel) (c : Syscall) : Except Fault (Kernel × Option Int) :=
  s.disastrOSSyscall c.num fun i => c.args.getD i 0

/-- `timerHandler` and `timerInterrupt`. -/
def timerInterrupt (s : Kernel) : Except Fault Kernel := do
  let _ ← deref s.running
  let s ← { s with time := wrapInt (s.time + 1) }.internalSchedule
  let _ ← deref s.running
  return s

/-- One step of the system, other than a restart by the main context. After a shutdown the simulator
has exited. -/
def step (s : Kernel) (a : Action) : Except Fault Kernel :=
  if s.shutdownNow then
    .error .exited
  else
    match a with
    | .tick => s.timerInterrupt
    | .syscall c => do
        let (s, _) ← s.call c
        return s
    | .store address value => do
        let _ ← deref s.running
        return { s with chars := Function.update s.chars address value }

/-- A sequence of steps. -/
def runSteps : Kernel → List Action → Except Fault Kernel
  | s, [] => .ok s
  | s, a :: as => do
      let s ← s.step a
      runSteps s as

end Kernel

end DisastrOS
