import DisastrOS.Kernel

/-!
# Kernel objects

Allocation, release and lookup of PCBs, PCB pointers, timers, resources, message queues, messages
and descriptors: `disastrOS_pcb.c`, `disastrOS_timer.c`, `disastrOS_resource.c`,
`disastrOS_resource_OS.c`, `disastrOS_message_queue.c` and `disastrOS_descriptor.c`.
-/

set_option autoImplicit false

namespace DisastrOS

open LinkedSequence

namespace Kernel

/-! ## PCBs -/

/-- `PCB_alloc`. The block is used before its address is tested, so an empty pool is a fault. -/
def pcbAlloc (s : Kernel) : Except Fault (Kernel × Addr) := do
  let (block, pool) := s.pcbAllocator.getBlock
  let pcb ← deref block
  return ({ s with
    pcbAllocator := pool
    procs := s.procs.clearItem pcb
    pid := Function.update s.pid pcb s.lastPid
    lastPid := wrapInt (s.lastPid + 1)
    returnValue := Function.update s.returnValue pcb 0
    lastFd := Function.update s.lastFd pcb 0
    signals := Function.update s.signals pcb 0
    signalsMask := Function.update s.signalsMask pcb 0xFFFFFFFF
    status := Function.update s.status pcb .invalid
    descriptors := s.descriptors.initHead pcb
    parent := Function.update s.parent pcb none
    timer := Function.update s.timer pcb none
    children := s.children.initHead pcb }, pcb)

/-- `PCB_free`. -/
def pcbFree (s : Kernel) (pcb : Addr) : Kernel :=
  { s with pcbAllocator := (s.pcbAllocator.releaseBlock pcb).2 }

/-- `PCBPtr_alloc`. An empty pool is a fault, as in `pcbAlloc`. -/
def pcbPtrAlloc (s : Kernel) (pcb : Addr) : Except Fault (Kernel × Addr) := do
  let (block, pool) := s.pcbPtrAllocator.getBlock
  let pcbPtr ← deref block
  return ({ s with
    pcbPtrAllocator := pool
    children := s.children.clearItem pcbPtr
    ptrPcb := Function.update s.ptrPcb pcbPtr pcb }, pcbPtr)

/-- `PCBPtr_free`. -/
def pcbPtrFree (s : Kernel) (pcbPtr : Addr) : Kernel :=
  { s with pcbPtrAllocator := (s.pcbPtrAllocator.releaseBlock pcbPtr).2 }

/-- `PCBPtr_byPID` on the children list of `parent`. -/
def pcbPtrByPID (s : Kernel) (parent : Addr) (pid : Int) : Except Fault (Option Addr) :=
  listSearch s.children.next (fun e => s.pid (s.ptrPcb e) = pid) loopBound
    (s.children.first parent)

/-! ## Timers -/

/-- `TimerItem_alloc`. -/
def timerItemAlloc (s : Kernel) (awakeningTime : Int) (pcb : Addr) : Kernel × Option Addr :=
  match s.timerItemAllocator.getBlock with
  | (none, pool) => ({ s with timerItemAllocator := pool }, none)
  | (some item, pool) =>
      ({ s with
        timerItemAllocator := pool
        timerList := s.timerList.clearItem item
        timerPcb := Function.update s.timerPcb item pcb
        awakeningTime := Function.update s.awakeningTime item awakeningTime }, some item)

/-- `TimerItem_free`. -/
def timerItemFree (s : Kernel) (item : Addr) : Kernel :=
  { s with timerItemAllocator := (s.timerItemAllocator.releaseBlock item).2 }

/-- The scan of `TimerList_add`: the last item before the first one with a later awakening time. -/
def timerListPrevious (s : Kernel) (awakeningTime : Int) :
    Nat → Option Addr → Option Addr → Except Fault (Option Addr)
  | 0, _, _ => .error .endlessLoop
  | _ + 1, previous, none => .ok previous
  | n + 1, previous, some aux =>
      if awakeningTime < s.awakeningTime aux then .ok previous
      else timerListPrevious s awakeningTime n (some aux) (s.timerList.next aux)

/-- `TimerList_add` on the list of timers. -/
def timerListAdd (s : Kernel) (awakeningTime : Int) (pcb : Addr) :
    Except Fault (Kernel × Option Addr) := do
  let previous ← s.timerListPrevious awakeningTime loopBound none (s.timerList.first ())
  match s.timerItemAlloc awakeningTime pcb with
  | (s, none) => return (s, none)
  | (s, some item) =>
      let (timerList, _) ← listInsert s.timerList () previous (some item)
      return ({ s with timerList }, some item)

/-- `TimerList_current`: the first timer, if it has elapsed. -/
def timerListCurrent (s : Kernel) (currentTime : Int) : Option Addr :=
  match s.timerList.first () with
  | none => none
  | some item => if s.awakeningTime item ≤ currentTime then some item else none

/-- `TimerList_removeCurrent`. -/
def timerListRemoveCurrent (s : Kernel) : Except Fault Kernel := do
  let (timerList, item) ← listDetach s.timerList () (s.timerList.first ())
  return { s with timerList }.timerItemFree item

/-! ## Messages -/

/-- `for (i = 0; i < n; i++) dst[i] = src[i];` from the memory of a process. -/
def copyIn (chars : Int → UInt8) (src : Int) : Nat → (Nat → UInt8) → Nat → UInt8
  | 0, dst => dst
  | n + 1, dst => Function.update (copyIn chars src n dst) n (chars (src + n))

/-- `for (i = 0; i < n; i++) dst[i] = src[i];` into the memory of a process. -/
def copyOut (text : Nat → UInt8) (dst : Int) : Nat → (Int → UInt8) → Int → UInt8
  | 0, chars => chars
  | n + 1, chars => Function.update (copyOut text dst n chars) (dst + n) (text n)

/-- `m_alloc`. The link fields of the block keep the values of its previous use. -/
def mAlloc (s : Kernel) (msg length : Int) : Except Fault (Kernel × Option Addr) :=
  match s.mAllocator.getBlock with
  | (none, pool) => .ok ({ s with mAllocator := pool }, none)
  | (some m, pool) =>
      if length > messageStringMaxLength then
        .ok ({ s with mAllocator := pool }, none)
      else if 0 < length ∧ msg = 0 then
        .error .nullPointer
      else
        .ok ({ s with
          mAllocator := pool
          msgText := Function.update s.msgText m (copyIn s.chars msg length.toNat (s.msgText m))
          msgLength := Function.update s.msgLength m length }, some m)

/-- `m_free`. -/
def mFree (s : Kernel) (m : Addr) : PoolAllocatorResult × Kernel :=
  ((s.mAllocator.releaseBlock m).1, { s with mAllocator := (s.mAllocator.releaseBlock m).2 })

/-! ## Message queues and standard resources -/

/-- `mq_alloc`. Only the list of messages is initialised. -/
def mqAlloc (s : Kernel) : Kernel × Option ResourceRef :=
  match s.mqAllocator.getBlock with
  | (none, pool) => ({ s with mqAllocator := pool }, none)
  | (some q, pool) => ({ s with mqAllocator := pool, msgs := s.msgs.initHead q }, some (.mq q))

/-- The loop of `mq_free`: releases every message, without unlinking it. -/
def mqFreeMessages : Nat → Kernel → Option Addr → Except Fault Kernel
  | 0, _, _ => .error .endlessLoop
  | _ + 1, s, none => .ok s
  | n + 1, s, some m =>
      let (result, s) := s.mFree m
      if result = .success then mqFreeMessages n s (s.msgs.next m) else .error .assertionFailed

/-- `mq_free`. A standard resource has no list of messages to read. -/
def mqFree (s : Kernel) : ResourceRef → Except Fault (Kernel × Int)
  | .standard _ => .error .outOfBounds
  | .mq q => do
      let s ← mqFreeMessages loopBound s (s.msgs.first q)
      let (result, pool) := s.mqAllocator.releaseBlock q
      return ({ s with mqAllocator := pool }, result.toInt)

/-- `sr_alloc`. -/
def srAlloc (s : Kernel) : Kernel × Option ResourceRef :=
  ({ s with standardResourcesAllocator := s.standardResourcesAllocator.getBlock.2 },
    s.standardResourcesAllocator.getBlock.1.map .standard)

/-- `sr_free`. A block of another buffer is refused by the allocator; it lies out of range, or not at
a multiple of the item size. -/
def srFree (s : Kernel) : ResourceRef → Kernel × Int
  | .standard r =>
      let (result, pool) := s.standardResourcesAllocator.releaseBlock r
      ({ s with standardResourcesAllocator := pool }, result.toInt)
  | .mq _ => (s, PoolAllocatorResult.outOfRange.toInt)

/-- `mq_set_mode`: registers the running process as reader or writer, unless there is one. The
result is that of the C function. -/
def mqSetMode (s : Kernel) (r : ResourceRef) (mode : Int) : Except Fault (Kernel × Int) :=
  if s.resourceType r ≠ messageQueueType then
    .ok (s, 0)
  else
    match r with
    | .standard _ => .error .outOfBounds
    | .mq q =>
        if mode = dsosRead then
          if (s.readingPid q).isSome then
            .ok (s, 0)
          else do
            let running ← deref s.running
            let (s, ptr) ← s.pcbPtrAlloc running
            return ({ s with readingPid := Function.update s.readingPid q (some ptr) }, 1)
        else if mode = dsosWrite then
          if (s.writingPid q).isSome then
            .ok (s, 0)
          else do
            let running ← deref s.running
            let (s, ptr) ← s.pcbPtrAlloc running
            return ({ s with writingPid := Function.update s.writingPid q (some ptr) }, 1)
        else
          .ok (s, 1)

/-- `mq_delete_mode`: drops the registration for `mode`, whoever holds it. -/
def mqDeleteMode (s : Kernel) (r : ResourceRef) (mode : Int) : Except Fault (Kernel × Int) :=
  if s.resourceType r ≠ messageQueueType then
    .ok (s, 0)
  else
    match r with
    | .standard _ => .error .outOfBounds
    | .mq q =>
        if mode = dsosRead then
          .ok ({ s with readingPid := Function.update s.readingPid q none }, 1)
        else if mode = dsosWrite then
          .ok ({ s with writingPid := Function.update s.writingPid q none }, 1)
        else
          .ok (s, 1)

/-! ## Resources -/

/-- `(*alloc_func[type])()`. -/
def allocFunc (s : Kernel) (type : Int) : Except Fault (Kernel × Option ResourceRef) :=
  if type = standardResourceType then .ok s.srAlloc
  else if type = messageQueueType then .ok s.mqAlloc
  else .error .outOfBounds

/-- `(*dealloc_func[r->type])(r)`. -/
def deallocFunc (s : Kernel) (r : ResourceRef) : Except Fault (Kernel × Int) :=
  if s.resourceType r = standardResourceType then .ok (s.srFree r)
  else if s.resourceType r = messageQueueType then s.mqFree r
  else .error .outOfBounds

/-- `Resource_alloc`. -/
def resourceAlloc (s : Kernel) (id type : Int) : Except Fault (Kernel × Option ResourceRef) :=
  if wrapInt (type + 1) > maxTypeResources then
    .ok (s, none)
  else do
    match ← s.allocFunc type with
    | (s, none) => return (s, none)
    | (s, some r) =>
        return ({ s with
          resourcesList := s.resourcesList.clearItem r
          resourceId := Function.update s.resourceId r id
          resourceType := Function.update s.resourceType r type
          descriptorsPtrs := s.descriptorsPtrs.initHead r }, some r)

/-- `Resource_open`; the table `set_mode` has an entry for message queues only. -/
def resourceOpen (s : Kernel) (r : ResourceRef) (mode : Int) : Except Fault (Kernel × Int) :=
  if s.resourceType r > standardResourceType then
    if s.resourceType r = messageQueueType then s.mqSetMode r mode else .error .outOfBounds
  else
    .ok (s, 0)

/-- `Resource_release`; the table `delete_mode` has an entry for message queues only. -/
def resourceRelease (s : Kernel) (r : ResourceRef) (mode : Int) : Except Fault (Kernel × Int) :=
  if s.resourceType r > standardResourceType then
    if s.resourceType r = messageQueueType then s.mqDeleteMode r mode else .error .outOfBounds
  else
    .ok (s, 0)

/-- `Resource_free`. -/
def resourceFree (s : Kernel) (r : ResourceRef) : Except Fault (Kernel × Int) :=
  if wrapInt (s.resourceType r + 1) > maxTypeResources then
    .ok (s, dsosEResourceTypeNotExisting)
  else if (s.descriptorsPtrs.first r).isSome ∨ (s.descriptorsPtrs.last r).isSome then
    .error .assertionFailed
  else
    s.deallocFunc r

/-- `ResourceList_byId` on the list of resources. -/
def resourceListById (s : Kernel) (id : Int) : Except Fault (Option ResourceRef) :=
  listSearch s.resourcesList.next (fun r => s.resourceId r = id) loopBound
    (s.resourcesList.first ())

/-! ## Descriptors -/

/-- `Descriptor_alloc`. -/
def descriptorAlloc (s : Kernel) (fd : Int) (res : ResourceRef) (pcb : Addr) :
    Kernel × Option Addr :=
  match s.descriptorAllocator.getBlock with
  | (none, pool) => ({ s with descriptorAllocator := pool }, none)
  | (some d, pool) =>
      ({ s with
        descriptorAllocator := pool
        descriptors := s.descriptors.clearItem d
        desFd := Function.update s.desFd d fd
        desResource := Function.update s.desResource d res
        desPcb := Function.update s.desPcb d pcb }, some d)

/-- `Descriptor_free`. -/
def descriptorFree (s : Kernel) (d : Addr) : Kernel :=
  { s with descriptorAllocator := (s.descriptorAllocator.releaseBlock d).2 }

/-- `DescriptorList_byFd` on the descriptor list of `pcb`. -/
def descriptorListByFd (s : Kernel) (pcb : Addr) (fd : Int) : Except Fault (Option Addr) :=
  listSearch s.descriptors.next (fun d => s.desFd d = fd) loopBound (s.descriptors.first pcb)

/-- `DescriptorPtr_alloc`. -/
def descriptorPtrAlloc (s : Kernel) (descriptor : Addr) : Kernel × Option Addr :=
  match s.descriptorPtrAllocator.getBlock with
  | (none, pool) => ({ s with descriptorPtrAllocator := pool }, none)
  | (some e, pool) =>
      ({ s with
        descriptorPtrAllocator := pool
        descriptorsPtrs := s.descriptorsPtrs.clearItem e
        desptrDescriptor := Function.update s.desptrDescriptor e descriptor }, some e)

/-- `DescriptorPtr_free`. -/
def descriptorPtrFree (s : Kernel) (e : Addr) : Kernel :=
  { s with descriptorPtrAllocator := (s.descriptorPtrAllocator.releaseBlock e).2 }

end Kernel

end DisastrOS
