import DisastrOS.Objects

/-!
# The syscall handlers

The functions `internal_...`, each on the state in which the arguments of the call are stored in the
PCB of the running process.
-/

set_option autoImplicit false

namespace DisastrOS

open LinkedSequence

namespace Kernel

/-! ## Scheduling: `disastrOS_schedule.c`, `disastrOS_preempt.c`, `disastrOS_sleep.c` -/

/-- The wake-up loop of `internal_schedule`: every elapsed timer moves its process from the waiting
list to the ready list, behind the process woken before it. -/
def wakeElapsed : Nat → Kernel → Option Addr → Except Fault Kernel
  | 0, _, _ => .error .endlessLoop
  | n + 1, s, previous =>
      match s.timerListCurrent s.time with
      | none => .ok s
      | some elapsed => do
          let pcb := s.timerPcb elapsed
          let (procs, _) ← listDetach s.procs .waiting (some pcb)
          let s := { s with
            procs
            status := Function.update s.status pcb .ready
            timer := Function.update s.timer pcb none }
          let (procs, _) ← listInsert s.procs .ready previous (some pcb)
          let s ← { s with procs }.timerListRemoveCurrent
          wakeElapsed n s (some pcb)

/-- `internal_schedule`. -/
def internalSchedule (s : Kernel) : Except Fault Kernel := do
  let s ← wakeElapsed loopBound s none
  match s.procs.first .ready with
  | none => return s
  | some first =>
      let (procs, next) ← listDetach s.procs .ready (some first)
      let running ← deref s.running
      let s := { s with procs, status := Function.update s.status running .ready }
      let (procs, _) ← listInsert s.procs .ready (s.procs.last .ready) (some running)
      return { s with
        procs
        status := Function.update s.status next .running
        running := some next }

/-- `internal_preempt`. -/
def internalPreempt (s : Kernel) : Except Fault Kernel := s.internalSchedule

/-- `internal_sleep`. -/
def internalSleep (s : Kernel) : Except Fault Kernel := do
  let running ← deref s.running
  if (s.timer running).isSome then
    return s.setRetvalue running dsosESleep
  let cyclesToSleep := wrapInt (s.syscallArgs running 0)
  let wakeTime := wrapInt (s.time + cyclesToSleep)
  let (s, newTimer) ← s.timerListAdd wakeTime running
  if newTimer.isNone then
    return s.setRetvalue running dsosESleep
  let s := { s with status := Function.update s.status running .waiting }
  let (procs, _) ← listInsert s.procs .waiting (s.procs.last .waiting) (some running)
  let s := { s with procs }
  match s.procs.first .ready with
  | some first =>
      let (procs, next) ← listDetach s.procs .ready (some first)
      return { s with procs, running := some next }
  | none => return { s with running := none }

/-! ## Processes: `disastrOS_spawn.c`, `disastrOS_fork.c`, `disastrOS_wait.c` -/

/-- The common part of `internal_spawn` and `internal_fork`. The allocation functions never return
null, so the branches that answer `DSOS_ESPAWN` are dead. -/
def createProcess (s : Kernel) : Except Fault Kernel := do
  let running ← deref s.running
  let (s, newPcb) ← s.pcbAlloc
  let s := { s with
    status := Function.update s.status newPcb .ready
    parent := Function.update s.parent newPcb (some running) }
  let (s, newPcbPtr) ← s.pcbPtrAlloc newPcb
  let (children, _) ← listInsert s.children running (s.children.last running) (some newPcbPtr)
  let (procs, _) ← listInsert s.procs .ready (s.procs.last .ready) (some newPcb)
  return { s with children, procs }.setRetvalue running (s.pid newPcb)

/-- `internal_spawn`; the saved context of the new process is not modelled. -/
def internalSpawn (s : Kernel) : Except Fault Kernel := s.createProcess

/-- `internal_fork`. -/
def internalFork (s : Kernel) : Except Fault Kernel := s.createProcess

/-- The scan of `internal_wait`. It returns the entry at which the loop stops, which is the last
one when no entry matches. -/
def waitScan (s : Kernel) (pidToWait : Int) :
    Nat → Option Addr → Option Addr → Except Fault (Option Addr)
  | 0, _, _ => .error .endlessLoop
  | _ + 1, awaited, none => .ok awaited
  | n + 1, _, some aux =>
      if pidToWait = 0 ∧ s.status (s.ptrPcb aux) = .zombie then .ok (some aux)
      else if pidToWait ≠ 0 ∧ s.pid (s.ptrPcb aux) = pidToWait then .ok (some aux)
      else waitScan s pidToWait n (some aux) (s.children.next aux)

/-- `internal_wait`. -/
def internalWait (s : Kernel) : Except Fault Kernel := do
  let running ← deref s.running
  let pidToWait := wrapInt (s.syscallArgs running 0)
  let result := s.syscallArgs running 1
  if (s.children.first running).isNone then
    return s.setRetvalue running dsosEWait
  let awaitedPcbPtr ← s.waitScan pidToWait loopBound none (s.children.first running)
  if 0 < pidToWait ∧ awaitedPcbPtr.isNone then
    return s.setRetvalue running dsosEWait
  match awaitedPcbPtr.filter fun e => s.status (s.ptrPcb e) = .zombie with
  | some e =>
      let awaitedPcb := s.ptrPcb e
      let (children, _) ← listDetach s.children running (some e)
      let s := { s with children }.pcbPtrFree e
      let (procs, _) ← listDetach s.procs .zombie (some awaitedPcb)
      let s := { s with procs }.setRetvalue running (s.pid awaitedPcb)
      let s := s.storeInt result (s.returnValue awaitedPcb)
      return s.pcbFree awaitedPcb
  | none =>
      let s := { s with status := Function.update s.status running .waiting }
      let (procs, _) ← listInsert s.procs .waiting (s.procs.last .waiting) (some running)
      let (procs, next) ← listDetach procs .ready (procs.first .ready)
      return { s with procs, running := some next }

/-! ## Termination: `disastrOS_exit.c`, `disastrOS_shutdown.c` -/

/-- The loop of `internal_exit` that hands the children of `running` over to `init`. -/
def reparentChildren (running init : Addr) : Nat → Kernel → Except Fault Kernel
  | 0, _ => .error .endlessLoop
  | n + 1, s =>
      match s.children.first running with
      | none => .ok s
      | some first => do
          let (children, item) ← listDetach s.children running (some first)
          let (children, _) ← listInsert children init (children.last init) (some item)
          let pcb := s.ptrPcb item
          reparentChildren running init n
            { s with
              children
              signals := Function.update s.signals pcb
                (s.signals pcb ||| (dsosSighup &&& s.signalsMask pcb)) }

/-- The loop of `internal_exit` that removes the timers of `running`. -/
def releaseTimers (running : Addr) : Nat → Kernel → Option Addr → Except Fault Kernel
  | 0, _, _ => .error .endlessLoop
  | _ + 1, s, none => .ok s
  | n + 1, s, some timer =>
      let aux := s.timerList.next timer
      if s.timerPcb timer = running then do
        let (timerList, _) ← listDetach s.timerList () (some timer)
        releaseTimers running n ({ s with timerList }.timerItemFree timer) aux
      else
        releaseTimers running n s aux

/-- The loop of `internal_exit` that releases the descriptors of `running`. -/
def releaseDescriptors (running : Addr) : Nat → Kernel → Except Fault Kernel
  | 0, _ => .error .endlessLoop
  | n + 1, s =>
      match s.descriptors.first running with
      | none => .ok s
      | some des => do
          let (descriptors, _) ← listDetach s.descriptors running (some des)
          let s := { s with descriptors }
          let (descriptorsPtrs, desptr) ←
            listDetach s.descriptorsPtrs (s.desResource des) (s.desPtr des)
          releaseDescriptors running n
            (({ s with descriptorsPtrs }.descriptorPtrFree desptr).descriptorFree des)

/-- The branch of `internal_exit` that wakes `parent`; `running` is in the list of zombies. -/
def wakeParent (s : Kernel) (running parent : Addr) : Except Fault Kernel := do
  let (procs, parent) ← listDetach s.procs .waiting (some parent)
  let s := { s with procs, status := Function.update s.status parent .running }
  let selfInParent ← s.pcbPtrByPID parent (s.pid running)
  let (children, _) ← listDetach s.children parent selfInParent
  let s := { s with children }.setRetvalue parent (s.pid running)
  let s := s.storeInt (s.syscallArgs parent 1) (s.returnValue running)
  let s ← releaseTimers running loopBound s (s.timerList.first ())
  let s ← releaseDescriptors running loopBound s
  let (procs, suppressedItem) ← listDetach s.procs .zombie (some running)
  let s := { s with procs }.pcbFree suppressedItem
  return { s with running := some parent }

/-- The branch of `internal_exit` that dispatches the next process. -/
def dispatchNext (s : Kernel) : Except Fault Kernel := do
  let (procs, next) ← listDetach s.procs .ready (s.procs.first .ready)
  return { s with
    procs
    status := Function.update s.status next .running
    running := some next }

/-- `internal_exit`. -/
def internalExit (s : Kernel) : Except Fault Kernel := do
  let running ← deref s.running
  let s := { s with
    returnValue := Function.update s.returnValue running (wrapInt (s.syscallArgs running 0)) }
  let init ← assertNonNull s.initPcb
  let s ← reparentChildren running init loopBound s
  let s := { s with status := Function.update s.status running .zombie }
  let (procs, _) ← listInsert s.procs .zombie (s.procs.last .zombie) (some running)
  let s := { s with procs }
  let parent ← deref (s.parent running)
  let s := { s with
    signals := Function.update s.signals parent
      (s.signals parent ||| (dsosSigchld &&& s.signalsMask parent)) }
  if s.awaits parent (s.pid running) then s.wakeParent running parent else s.dispatchNext

/-- `internal_shutdown`: control returns to the main context, which calls `exit`. -/
def internalShutdown (s : Kernel) : Except Fault Kernel := .ok { s with shutdownNow := true }

/-! ## Resources: `disastrOS_open_resource.c`, `disastrOS_close_resource.c`,
`disastrOS_destroy_resource.c` -/

/-- The call of `Resource_open` in `internal_openResource`, with its guard. -/
def openMode (s : Kernel) (res : ResourceRef) (mode : Int) : Except Fault (Kernel × Int) :=
  if s.resourceType res > standardResourceType ∧ mode ≠ dsosCreate then s.resourceOpen res mode
  else .ok (s, 1)

/-- The end of `internal_openResource`: the new descriptor for `res`. -/
def openDescriptor (s : Kernel) (running : Addr) (res : ResourceRef) : Except Fault Kernel :=
  match s.descriptorAlloc (s.lastFd running) res running with
  | (s, none) => .ok (s.setRetvalue running dsosEResourceNoFd)
  | (s, some des) => do
      let s := { s with
        lastFd := Function.update s.lastFd running (wrapInt (s.lastFd running + 1)) }
      let (s, desptr) := s.descriptorPtrAlloc des
      let (descriptors, _) ←
        listInsert s.descriptors running (s.descriptors.last running) (some des)
      let s := { s with descriptors, desPtr := Function.update s.desPtr des desptr }
      let (descriptorsPtrs, _) ←
        listInsert s.descriptorsPtrs res (s.descriptorsPtrs.last res) desptr
      return { s with descriptorsPtrs }.setRetvalue running (s.desFd des)

/-- `internal_openResource` from the point where the resource has been created or looked up. -/
def openFound (s : Kernel) (running : Addr) (res : Option ResourceRef) (type mode : Int) :
    Except Fault Kernel :=
  match res.filter fun r => s.resourceType r = type with
  | none => .ok (s.setRetvalue running dsosEResourceOpen)
  | some res =>
      if mode = dsosExcl ∧ s.descriptorsPtrs.size res ≠ 0 then
        .ok (s.setRetvalue running dsosEResourceNoExcl)
      else do
        let (s, result) ← s.openMode res mode
        if result = 0 then
          return s.setRetvalue running dsosEResourceOpen
        s.openDescriptor running res

/-- `internal_openResource`. -/
def internalOpenResource (s : Kernel) : Except Fault Kernel := do
  let running ← deref s.running
  let id := wrapInt (s.syscallArgs running 0)
  let type := wrapInt (s.syscallArgs running 1)
  let mode := wrapInt (s.syscallArgs running 2)
  let res ← s.resourceListById id
  if mode = dsosCreate then
    if res.isSome then
      return s.setRetvalue running dsosEResourceCreate
    let (s, res) ← s.resourceAlloc id type
    let (resourcesList, _) ← listInsert s.resourcesList () (s.resourcesList.last ()) res
    { s with resourcesList }.openFound running res type mode
  else
    s.openFound running res type mode

/-- The call of `Resource_release` in `internal_closeResource`, with its guard. -/
def closeMode (s : Kernel) (res : ResourceRef) (mode : Int) : Except Fault (Kernel × Int) :=
  if s.resourceType res > standardResourceType then s.resourceRelease res mode else .ok (s, 1)

/-- `internal_closeResource`. -/
def internalCloseResource (s : Kernel) : Except Fault Kernel := do
  let running ← deref s.running
  let fd := wrapInt (s.syscallArgs running 0)
  let mode := wrapInt (s.syscallArgs running 1)
  match ← s.descriptorListByFd running fd with
  | none => return s.setRetvalue running dsosEResourceClose
  | some des =>
      let (descriptors, des) ← listDetach s.descriptors running (some des)
      let s := { s with descriptors }
      let res := s.desResource des
      let (s, result) ← s.closeMode res mode
      if result = 0 then
        return s.setRetvalue running dsosEResourceClose
      let (descriptorsPtrs, desptr) ← listDetach s.descriptorsPtrs res (s.desPtr des)
      let s := ({ s with descriptorsPtrs }.descriptorFree des).descriptorPtrFree desptr
      return s.setRetvalue running 0

/-- `internal_destroyResource`. -/
def internalDestroyResource (s : Kernel) : Except Fault Kernel := do
  let running ← deref s.running
  let id := wrapInt (s.syscallArgs running 0)
  match ← s.resourceListById id with
  | none => return s.setRetvalue running dsosEResourceClose
  | some res =>
      if s.descriptorsPtrs.size res ≠ 0 then
        return s.setRetvalue running dsosEResourceInUse
      let (resourcesList, res) ← listDetach s.resourcesList () (some res)
      let (s, _) ← { s with resourcesList }.resourceFree res
      return s.setRetvalue running 0

/-! ## Messages: `disastrOS_message_queue_read.c`, `disastrOS_message_queue_write.c` -/

/-- `(MessageQueue*)resource`; a standard resource is too short for that. -/
def messageQueueOf : ResourceRef → Except Fault Addr
  | .standard _ => .error .outOfBounds
  | .mq q => .ok q

/-- `internal_message_queue_read`. -/
def internalMessageQueueRead (s : Kernel) : Except Fault Kernel := do
  let running ← deref s.running
  let fd := wrapInt (s.syscallArgs running 0)
  let msgPtr := s.syscallArgs running 1
  let length := wrapInt (s.syscallArgs running 2)
  match ← s.descriptorListByFd running fd with
  | none => return s.setRetvalue running dsosResourceNotFound
  | some d =>
      let resource := s.desResource d
      if s.resourceType resource ≠ messageQueueType then
        return s.setRetvalue running dsosEResourceTypeWrong
      let mq ← messageQueueOf resource
      if s.msgs.size mq = 0 then
        if (s.writingPid mq).isSome then
          return s.setRetvalue running dsosWaitingForMessage
        else
          return s.setRetvalue running dsosMessageQueueEmpty
      let m ← deref (s.msgs.first mq)
      if s.msgLength m > length then
        return s.setRetvalue running dsosMessageLengthNotValid
      if 0 < s.msgLength m ∧ msgPtr = 0 then
        Except.error .nullPointer
      else
        let s := { s with
          chars := copyOut (s.msgText m) msgPtr (s.msgLength m).toNat s.chars }.setRetvalue
            running (s.msgLength m)
        let (msgs, m) ← listDetach s.msgs mq (some m)
        match { s with msgs }.mFree m with
        | (.success, s) => return s
        | (_, _) => Except.error .assertionFailed

/-- `internal_message_queue_write`. A full queue sets `return_value`, not `syscall_retvalue`. -/
def internalMessageQueueWrite (s : Kernel) : Except Fault Kernel := do
  let running ← deref s.running
  let fd := wrapInt (s.syscallArgs running 0)
  let msgPtr := s.syscallArgs running 1
  let length := wrapInt (s.syscallArgs running 2)
  if length < 0 ∨ length > messageStringMaxLength then
    return s.setRetvalue running dsosMessageLengthNotValid
  match ← s.descriptorListByFd running fd with
  | none => return s.setRetvalue running dsosResourceNotFound
  | some d =>
      let resource := s.desResource d
      if s.resourceType resource ≠ messageQueueType then
        return s.setRetvalue running dsosEResourceTypeWrong
      let mq ← messageQueueOf resource
      if s.msgs.size mq = mForMq then
        return { s with
          returnValue := Function.update s.returnValue running dsosMessageQueueFull }
      let (s, m) ← s.mAlloc msgPtr length
      let (msgs, _) ← listInsert s.msgs mq (s.msgs.last mq) m
      return { s with msgs }.setRetvalue running length

end Kernel

end DisastrOS
