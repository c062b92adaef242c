import DisastrOS.Constants
import DisastrOS.LinkedList
import DisastrOS.PoolAllocator

/-!
# The kernel state

The blocks of every pool are stored field by field: one map from block addresses for each field of
the C structure. The `ListItem` at the front of a block and the `ListHead`s inside blocks are kept
in a `ListHeap` for each kind of list, so `procs` holds the link fields of all PCBs and the heads
of the three process lists that share them.

The saved processor contexts, the stacks, the log file and the printing functions are not modelled.
A process that is dispatched may run any code, and a step of the kernel is one timer interrupt or
one syscall. So a child that `fork` creates runs here like one that `spawn` creates, although it has
no context of its own; `Machine`, in `Contexts`, has the contexts and the log file.

The printing functions change nothing, but they can fail: `print_mq` takes every resource for a
queue and follows its `writing_pid` and `reading_pid`. The kernel calls them only when all processes
sleep.
-/

set_option autoImplicit false

namespace DisastrOS

open LinkedSequence

/-- `ProcessStatus`. -/
inductive ProcessStatus where
  | invalid
  | created
  | running
  | ready
  | waiting
  | suspended
  | zombie
  deriving DecidableEq, Repr

/-- The global lists of PCBs. -/
inductive ProcList where
  | ready
  | waiting
  | zombie
  deriving DecidableEq, Repr

/-- A `Resource*`: resources live in the buffers of two pools, one for each resource type. -/
inductive ResourceRef where
  | standard (block : Addr)
  | mq (block : Addr)
  deriving DecidableEq, Repr

/-- Fields of `struct PCB`. -/
structure PCBs where
  pid : Addr → Int
  returnValue : Addr → Int
  status : Addr → ProcessStatus
  signals : Addr → BitVec 32
  signalsMask : Addr → BitVec 32
  parent : Addr → Option Addr
  timer : Addr → Option Addr
  lastFd : Addr → Int
  syscallNum : Addr → Int
  syscallArgs : Addr → Nat → Int
  syscallRetvalue : Addr → Int

/-- The test of `internal_exit`: `parent` is blocked in a `wait` for the process with this pid. -/
def PCBs.awaits (s : PCBs) (parent : Addr) (pid : Int) : Bool :=
  s.status parent = .waiting ∧ s.syscallNum parent = dsosCallWait ∧
    (s.syscallArgs parent 0 = 0 ∨ s.syscallArgs parent 0 = pid)

/-- Fields of `struct PCBPtr` and of `TimerItem`. -/
structure ProcessItems where
  ptrPcb : Addr → Addr
  awakeningTime : Addr → Int
  timerPcb : Addr → Addr

/-- Fields of `Resource`, `MessageQueue` and `Message`. -/
structure Resources where
  resourceId : ResourceRef → Int
  resourceType : ResourceRef → Int
  readingPid : Addr → Option Addr
  writingPid : Addr → Option Addr
  msgText : Addr → Nat → UInt8
  msgLength : Addr → Int

/-- Fields of `struct Descriptor` and `struct DescriptorPtr`. -/
structure Descriptors where
  desPcb : Addr → Addr
  desResource : Addr → ResourceRef
  desFd : Addr → Int
  desPtr : Addr → Option Addr
  desptrDescriptor : Addr → Addr

/-- Global variables. -/
structure Globals where
  initPcb : Option Addr
  running : Option Addr
  lastPid : Int
  time : Int
  shutdownNow : Bool

/-- Memory of the processes: their `char` and their `int` objects. -/
structure UserMemory where
  chars : Int → UInt8
  ints : Int → Int

/-- Everything but the links and the allocators. -/
structure Data extends PCBs, ProcessItems, Resources, Descriptors, Globals, UserMemory

/-- Link fields and heads of all lists. The list of timers and the list of resources are single;
`children` and `descriptors` have a head in every PCB, `descriptorsPtrs` one in every resource and
`msgs` one in every message queue. -/
structure Heaps where
  procs : ListHeap Addr ProcList
  children : ListHeap Addr Addr
  timerList : ListHeap Addr Unit
  resourcesList : ListHeap ResourceRef Unit
  descriptors : ListHeap Addr Addr
  descriptorsPtrs : ListHeap Addr ResourceRef
  msgs : ListHeap Addr Addr

/-- The allocators. -/
structure Pools where
  pcbAllocator : PoolAllocator
  pcbPtrAllocator : PoolAllocator
  timerItemAllocator : PoolAllocator
  standardResourcesAllocator : PoolAllocator
  mqAllocator : PoolAllocator
  mAllocator : PoolAllocator
  descriptorAllocator : PoolAllocator
  descriptorPtrAllocator : PoolAllocator

/-- The kernel state. -/
structure Kernel extends Data, Heaps, Pools

namespace Kernel

/-- Answer `v` to the syscall of process `p`. -/
def setRetvalue (s : Kernel) (p : Addr) (v : Int) : Kernel :=
  { s with syscallRetvalue := Function.update s.syscallRetvalue p v }

/-- `if (result) *result = v;` -/
def storeInt (s : Kernel) (result v : Int) : Kernel :=
  if result ≠ 0 then { s with ints := Function.update s.ints result v } else s

theorem storeInt_eq (s : Kernel) (result v : Int) : s.storeInt result v =
    { s with ints := if result ≠ 0 then Function.update s.ints result v else s.ints } := by
  unfold storeInt
  split <;> rfl

end Kernel

end DisastrOS
