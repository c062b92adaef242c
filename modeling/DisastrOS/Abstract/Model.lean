import DisastrOS.Machine

/-!
# The abstract system

The abstract system replaces the linked lists of the kernel by sequences and the free lists of the
allocators by the sequences of the free blocks; the contents of the blocks and the global variables
are those of the kernel. Each operation of the kernel is a transition on such states. A transition
of the abstract system has no pointers left to go wrong: lists are read and changed as sequences.
-/

set_option autoImplicit false

namespace DisastrOS

/-- The lists of the kernel as sequences of block addresses. -/
structure Sequences where
  procs : ProcList → List Addr
  children : Addr → List Addr
  timerList : List Addr
  resourcesList : List ResourceRef
  descriptors : Addr → List Addr
  descriptorsPtrs : ResourceRef → List Addr
  msgs : Addr → List Addr

/-- The free blocks of every pool, in the order in which they are handed out. -/
structure FreeBlocks where
  freePcbs : List Addr
  freePcbPtrs : List Addr
  freeTimers : List Addr
  freeStandard : List Addr
  freeMqs : List Addr
  freeMs : List Addr
  freeDescriptors : List Addr
  freeDescriptorPtrs : List Addr

/-- The abstract state. -/
structure Model extends Data, Sequences, FreeBlocks

namespace Model

/-- Answer `v` to the syscall of process `p`. -/
def answer (a : Model) (p : Addr) (v : Int) : Model :=
  { a with syscallRetvalue := Function.update a.syscallRetvalue p v }

@[simp] theorem answer_retvalue (a : Model) (p : Addr) (v : Int) :
    (a.answer p v).syscallRetvalue p = v := Function.update_self ..

/-- Store `v` through the result pointer, unless that is null. -/
def storeInt (a : Model) (result v : Int) : Model :=
  if result ≠ 0 then { a with ints := Function.update a.ints result v } else a

/-! ## Scheduling -/

/-- The timer `t` at the head of the list elapses: its process goes from the waiting list into the
ready list, behind the processes `woken` before it and in front of `rest`. -/
def wake (a : Model) (woken : List Addr) (t : Addr) (ts rest : List Addr) : Model :=
  { a with
    timerList := ts
    freeTimers := t :: a.freeTimers
    status := Function.update a.status (a.timerPcb t) .ready
    timer := Function.update a.timer (a.timerPcb t) none
    procs := Function.update
      (Function.update a.procs .waiting ((a.procs .waiting).erase (a.timerPcb t)))
      .ready (woken ++ a.timerPcb t :: rest) }

/-- All timers that have elapsed wake their processes; `woken` are those at the front of the ready
list so far. -/
inductive Wakes : List Addr → Model → Model → Prop where
  | stop {woken : List Addr} {a : Model} :
      (∀ t ∈ a.timerList.head?, a.time < a.awakeningTime t) → Wakes woken a a
  | wake {woken : List Addr} {a a' : Model} {t : Addr} {ts rest : List Addr} :
      a.timerList = t :: ts → a.awakeningTime t ≤ a.time → a.procs .ready = woken ++ rest →
      Wakes (woken ++ [a.timerPcb t]) (a.wake woken t ts rest) a' → Wakes woken a a'

/-- The running process `r` goes to the tail of the ready list, its head `next` runs. -/
def rotate (a : Model) (r next : Addr) (rest : List Addr) : Model :=
  { a with
    procs := Function.update a.procs .ready (rest ++ [r])
    status := Function.update (Function.update a.status r .ready) next .running
    running := some next }

/-- The transition of the scheduler. -/
inductive ScheduleStep (a : Model) : Model → Prop where
  | idle {a₁ : Model} : Wakes [] a a₁ → a₁.procs .ready = [] → ScheduleStep a a₁
  | switch {a₁ : Model} {r next : Addr} {rest : List Addr} :
      Wakes [] a a₁ → a₁.running = some r → a₁.procs .ready = next :: rest →
      ScheduleStep a (a₁.rotate r next rest)

/-- The running process blocks on a new timer `t`, placed between `as` and `bs`. -/
def sleep (a : Model) (r t : Addr) (ts as bs : List Addr) (wakeTime : Int) : Model :=
  { a with
    freeTimers := ts
    timerList := as ++ t :: bs
    timerPcb := Function.update a.timerPcb t r
    awakeningTime := Function.update a.awakeningTime t wakeTime
    status := Function.update a.status r .waiting
    procs := Function.update a.procs .waiting (a.procs .waiting ++ [r]) }

/-- The transitions of `sleep`. -/
inductive SleepStep (a : Model) (r : Addr) : Model → Prop where
  | refused : ((a.timer r).isSome ∨ a.freeTimers = []) → SleepStep a r (a.answer r dsosESleep)
  | switch {t next : Addr} {ts as bs rest : List Addr} {wakeTime : Int} :
      wakeTime = wrapInt (a.time + wrapInt (a.syscallArgs r 0)) → a.freeTimers = t :: ts →
      a.timerList = as ++ bs → as = a.timerList.takeWhile (fun u => a.awakeningTime u ≤ wakeTime) →
      a.procs .ready = next :: rest →
      SleepStep a r { a.sleep r t ts as bs wakeTime with
        procs := Function.update (a.sleep r t ts as bs wakeTime).procs .ready rest
        running := some next }
  | idle {t : Addr} {ts as bs : List Addr} {wakeTime : Int} :
      wakeTime = wrapInt (a.time + wrapInt (a.syscallArgs r 0)) → a.freeTimers = t :: ts →
      a.timerList = as ++ bs → as = a.timerList.takeWhile (fun u => a.awakeningTime u ≤ wakeTime) →
      a.procs .ready = [] →
      SleepStep a r { a.sleep r t ts as bs wakeTime with running := none }

/-! ## Processes -/

/-- A new process in the block `x`, child of `r` through the entry `e`. -/
def create (a : Model) (r x e : Addr) (xs es : List Addr) : Model :=
  { a with
    freePcbs := xs
    freePcbPtrs := es
    pid := Function.update a.pid x a.lastPid
    lastPid := wrapInt (a.lastPid + 1)
    returnValue := Function.update a.returnValue x 0
    lastFd := Function.update a.lastFd x 0
    signals := Function.update a.signals x 0
    signalsMask := Function.update a.signalsMask x 0xFFFFFFFF
    status := Function.update a.status x .ready
    parent := Function.update a.parent x (some r)
    timer := Function.update a.timer x none
    ptrPcb := Function.update a.ptrPcb e x
    descriptors := Function.update a.descriptors x []
    children := Function.update (Function.update a.children x []) r (a.children r ++ [e])
    procs := Function.update a.procs .ready (a.procs .ready ++ [x])
    syscallRetvalue := Function.update a.syscallRetvalue r a.lastPid }

/-- The transition of `spawn` and `fork`. -/
inductive CreateStep (a : Model) (r : Addr) : Model → Prop where
  | created {x e : Addr} {xs es : List Addr} :
      a.freePcbs = x :: xs → a.freePcbPtrs = e :: es → CreateStep a r (a.create r x e xs es)

/-- The entry at which the scan of `wait` stops: the first match, or else the last entry. -/
def awaited (a : Model) (r : Addr) (pidToWait : Int) : Option Addr :=
  ((a.children r).find? fun e =>
    (pidToWait = 0 ∧ a.status (a.ptrPcb e) = .zombie) ∨
      (pidToWait ≠ 0 ∧ a.pid (a.ptrPcb e) = pidToWait)).or (a.children r).getLast?

/-- The running process `r` collects the zombie of its children entry `e`. -/
def reap (a : Model) (r e : Addr) : Model :=
  { (a.answer r (a.pid (a.ptrPcb e))).storeInt (a.syscallArgs r 1)
      (a.returnValue (a.ptrPcb e)) with
    children := Function.update a.children r ((a.children r).erase e)
    freePcbPtrs := e :: a.freePcbPtrs
    procs := Function.update a.procs .zombie ((a.procs .zombie).erase (a.ptrPcb e))
    freePcbs := if a.ptrPcb e ∈ a.freePcbs then a.freePcbs else a.ptrPcb e :: a.freePcbs }

/-- The running process `r` blocks and `next` runs. -/
def block (a : Model) (r next : Addr) (rest : List Addr) : Model :=
  { a with
    status := Function.update a.status r .waiting
    procs := Function.update
      (Function.update a.procs .waiting (a.procs .waiting ++ [r])) .ready rest
    running := some next }

/-- The transitions of `wait`. -/
inductive WaitStep (a : Model) (r : Addr) : Model → Prop where
  | noChildren : a.children r = [] → WaitStep a r (a.answer r dsosEWait)
  | reap {e : Addr} : a.awaited r (wrapInt (a.syscallArgs r 0)) = some e →
      a.status (a.ptrPcb e) = .zombie → WaitStep a r (a.reap r e)
  | block {e next : Addr} {rest : List Addr} :
      a.awaited r (wrapInt (a.syscallArgs r 0)) = some e → a.status (a.ptrPcb e) ≠ .zombie →
      a.procs .ready = next :: rest → WaitStep a r (a.block r next rest)

/-! ## Termination -/

/-- `DSOS_SIGHUP` is sent to the process of every entry. -/
def hangUp (ptrPcb : Addr → Addr) (mask : Addr → BitVec 32) :
    List Addr → (Addr → BitVec 32) → Addr → BitVec 32
  | [], signals => signals
  | e :: es, signals =>
      hangUp ptrPcb mask es (Function.update signals (ptrPcb e)
        (signals (ptrPcb e) ||| (dsosSighup &&& mask (ptrPcb e))))

/-- The part of `exit` that both branches share: the exit value is stored, the children go to
`init` with a signal, `parent` gets its own signal, and `r` becomes a zombie. -/
def leave (a : Model) (r init parent : Addr) : Model :=
  let signals := hangUp a.ptrPcb a.signalsMask (a.children r) a.signals
  { a with
    returnValue := Function.update a.returnValue r (wrapInt (a.syscallArgs r 0))
    children := Function.update
      (Function.update a.children init (a.children init ++ a.children r)) r []
    signals := Function.update signals parent
      (signals parent ||| (dsosSigchld &&& a.signalsMask parent))
    status := Function.update a.status r .zombie
    procs := Function.update a.procs .zombie (a.procs .zombie ++ [r]) }

/-- Descriptor `d` of process `p` is closed: it leaves the list of `p` and its entry leaves the
list of the resource. -/
def dropDescriptor (a : Model) (p d : Addr) : Model :=
  { a with
    descriptors := Function.update a.descriptors p ((a.descriptors p).erase d)
    descriptorsPtrs := Function.update a.descriptorsPtrs (a.desResource d)
      ((a.descriptorsPtrs (a.desResource d)).erase ((a.desPtr d).getD 0))
    freeDescriptors := d :: a.freeDescriptors
    freeDescriptorPtrs := (a.desPtr d).getD 0 :: a.freeDescriptorPtrs }

/-- Process `p` closes the descriptors `ds`, one after the other. -/
def dropDescriptors (p : Addr) : List Addr → Model → Model
  | [], a => a
  | d :: ds, a => dropDescriptors p ds (a.dropDescriptor p d)

/-- `r` has left and its `parent` awaits it: the parent gets the answer and leaves the waiting
list, and its entry `e` for `r` is gone. -/
def deliver (a : Model) (r parent e : Addr) : Model :=
  { (a.answer parent (a.pid r)).storeInt (a.syscallArgs parent 1) (a.returnValue r) with
    status := Function.update a.status parent .running
    children := Function.update a.children parent ((a.children parent).erase e)
    procs := Function.update a.procs .waiting ((a.procs .waiting).erase parent) }

/-- After `deliver` the descriptors of `r` are closed, `r` is freed and the parent runs. -/
def handOver (a : Model) (r parent e : Addr) : Model :=
  let a₁ := dropDescriptors r (a.descriptors r) (a.deliver r parent e)
  { a₁ with
    procs := Function.update a₁.procs .zombie ((a₁.procs .zombie).erase r)
    freePcbs := r :: a₁.freePcbs
    running := some parent }

/-- Another process has left and `next` runs. -/
def retire (a : Model) (next : Addr) (rest : List Addr) : Model :=
  { a with
    procs := Function.update a.procs .ready rest
    status := Function.update a.status next .running
    running := some next }

/-- The transitions of `exit`. -/
inductive ExitStep (a : Model) (r : Addr) : Model → Prop where
  | wakeParent {init parent e : Addr} : a.initPcb = some init → r ≠ init →
      a.parent r = some parent → a.awaits parent (a.pid r) →
      ((a.leave r init parent).children parent).find?
        (fun e => a.pid (a.ptrPcb e) = a.pid r) = some e →
      ExitStep a r ((a.leave r init parent).handOver r parent e)
  | retire {init parent next : Addr} {rest : List Addr} : a.initPcb = some init → r ≠ init →
      a.parent r = some parent → ¬ a.awaits parent (a.pid r) →
      a.procs .ready = next :: rest →
      ExitStep a r ((a.leave r init parent).retire next rest)

/-- `exit` of `r` does not complete: `r` is `init`, or its parent awaits it and has no entry with its
pid, or nobody awaits it and no process is ready. -/
def ExitStuck (a : Model) (r : Addr) : Prop :=
  a.initPcb = some r ∨ ∀ parent ∈ a.parent r,
    if a.awaits parent (a.pid r) then
      ∀ e ∈ a.children parent ++ if a.initPcb = some parent then a.children r else [],
        a.pid (a.ptrPcb e) ≠ a.pid r
    else a.procs .ready = []

/-! ## Resources -/

/-- A new resource `r` with the next free block of its pool. -/
inductive AddResource (a : Model) (id type : Int) : ResourceRef → Model → Prop where
  | standard {b : Addr} {bs : List Addr} : type = standardResourceType → a.freeStandard = b :: bs →
      AddResource a id type (.standard b)
        { a with
          freeStandard := bs
          resourceId := Function.update a.resourceId (.standard b) id
          resourceType := Function.update a.resourceType (.standard b) type
          descriptorsPtrs := Function.update a.descriptorsPtrs (.standard b) []
          resourcesList := a.resourcesList ++ [.standard b] }
  | mq {b : Addr} {bs : List Addr} : type = messageQueueType → a.freeMqs = b :: bs →
      AddResource a id type (.mq b)
        { a with
          freeMqs := bs
          msgs := Function.update a.msgs b []
          resourceId := Function.update a.resourceId (.mq b) id
          resourceType := Function.update a.resourceType (.mq b) type
          descriptorsPtrs := Function.update a.descriptorsPtrs (.mq b) []
          resourcesList := a.resourcesList ++ [.mq b] }

/-- Process `r` registers with resource `res` for the opening mode. -/
inductive Register (a : Model) (r : Addr) (res : ResourceRef) (mode : Int) : Model → Prop where
  | none : (∀ q, res = .mq q → mode ≠ dsosRead ∧ mode ≠ dsosWrite) → Register a r res mode a
  | reading {q e : Addr} {es : List Addr} : res = .mq q → mode = dsosRead →
      a.readingPid q = .none → a.freePcbPtrs = e :: es →
      Register a r res mode
        { a with
          freePcbPtrs := es
          ptrPcb := Function.update a.ptrPcb e r
          readingPid := Function.update a.readingPid q (some e) }
  | writing {q e : Addr} {es : List Addr} : res = .mq q → mode = dsosWrite →
      a.writingPid q = .none → a.freePcbPtrs = e :: es →
      Register a r res mode
        { a with
          freePcbPtrs := es
          ptrPcb := Function.update a.ptrPcb e r
          writingPid := Function.update a.writingPid q (some e) }

/-- The registration of resource `res` for `mode` is taken. -/
def Taken (a : Model) (res : ResourceRef) (mode : Int) : Prop :=
  ∃ q, res = .mq q ∧
    ((mode = dsosRead ∧ a.readingPid q ≠ none) ∨ (mode = dsosWrite ∧ a.writingPid q ≠ none))

/-- The registration of resource `res` for `mode` is free, and takes an entry. -/
def NeedsEntry (a : Model) (res : ResourceRef) (mode : Int) : Prop :=
  ∃ q, res = .mq q ∧
    ((mode = dsosRead ∧ a.readingPid q = none) ∨ (mode = dsosWrite ∧ a.writingPid q = none))

/-- Process `r` gets the descriptor `d` for resource `res`, with the entry `e`. -/
def attach (a : Model) (r : Addr) (res : ResourceRef) (d e : Addr) (ds es : List Addr) : Model :=
  { a with
    freeDescriptors := ds
    freeDescriptorPtrs := es
    desFd := Function.update a.desFd d (a.lastFd r)
    desResource := Function.update a.desResource d res
    desPcb := Function.update a.desPcb d r
    desPtr := Function.update a.desPtr d (some e)
    desptrDescriptor := Function.update a.desptrDescriptor e d
    lastFd := Function.update a.lastFd r (wrapInt (a.lastFd r + 1))
    descriptors := Function.update a.descriptors r (a.descriptors r ++ [d])
    descriptorsPtrs := Function.update a.descriptorsPtrs res (a.descriptorsPtrs res ++ [e])
    syscallRetvalue := Function.update a.syscallRetvalue r (a.lastFd r) }

/-- Opening a resource that exists. -/
inductive OpenFound (a : Model) (r : Addr) (res : ResourceRef) (mode : Int) : Model → Prop where
  | notExclusive : mode = dsosExcl → a.descriptorsPtrs res ≠ [] →
      OpenFound a r res mode (a.answer r dsosEResourceNoExcl)
  | taken : Taken a res mode → OpenFound a r res mode (a.answer r dsosEResourceOpen)
  | noDescriptor {a₁ : Model} : (mode = dsosExcl → a.descriptorsPtrs res = []) →
      Register a r res mode a₁ → a₁.freeDescriptors = [] →
      OpenFound a r res mode (a₁.answer r dsosEResourceNoFd)
  | opened {a₁ : Model} {d e : Addr} {ds es : List Addr} :
      (mode = dsosExcl → a.descriptorsPtrs res = []) → Register a r res mode a₁ →
      a₁.freeDescriptors = d :: ds → a₁.freeDescriptorPtrs = e :: es →
      OpenFound a r res mode (a₁.attach r res d e ds es)

/-- The resource with this id. -/
def resourceById (a : Model) (id : Int) : Option ResourceRef :=
  a.resourcesList.find? fun r => a.resourceId r = id

/-- The transitions of `openResource`. -/
inductive OpenStep (a : Model) (r : Addr) (id type mode : Int) : Model → Prop where
  | alreadyExists : mode = dsosCreate → a.resourceById id ≠ none →
      OpenStep a r id type mode (a.answer r dsosEResourceCreate)
  | created {a₁ a₂ : Model} {res : ResourceRef} : mode = dsosCreate → a.resourceById id = none →
      AddResource a id type res a₁ → OpenFound a₁ r res mode a₂ →
      OpenStep a r id type mode a₂
  | unavailable : mode ≠ dsosCreate → (∀ res ∈ a.resourceById id, a.resourceType res ≠ type) →
      OpenStep a r id type mode (a.answer r dsosEResourceOpen)
  | found {a₂ : Model} {res : ResourceRef} : mode ≠ dsosCreate → a.resourceById id = some res →
      a.resourceType res = type → OpenFound a r res mode a₂ → OpenStep a r id type mode a₂

/-- There is a block for a new resource of this type. -/
def CanAdd (a : Model) (type : Int) : Prop :=
  (type = standardResourceType ∧ a.freeStandard ≠ []) ∨
    (type = messageQueueType ∧ a.freeMqs ≠ [])

/-- `openResource` runs into an empty pool or leaves a table. -/
def OpenStuck (a : Model) (id type mode : Int) : Prop :=
  (mode = dsosCreate ∧ a.resourceById id = none ∧ ¬ a.CanAdd type) ∨
    (mode ≠ dsosCreate ∧ a.freePcbPtrs = [] ∧ ∃ res ∈ a.resourceById id,
      a.resourceType res = type ∧ a.NeedsEntry res mode)

/-- The registration of resource `res` for `mode` is dropped. -/
def unregister (a : Model) (res : ResourceRef) (mode : Int) : Model :=
  match res with
  | .standard _ => a
  | .mq q =>
      if mode = dsosRead then { a with readingPid := Function.update a.readingPid q none }
      else if mode = dsosWrite then { a with writingPid := Function.update a.writingPid q none }
      else a

/-- The descriptor of process `p` with this number. -/
def descriptorByFd (a : Model) (p : Addr) (fd : Int) : Option Addr :=
  (a.descriptors p).find? fun d => a.desFd d = fd

/-- The transitions of `closeResource`. -/
inductive CloseStep (a : Model) (r : Addr) (fd mode : Int) : Model → Prop where
  | notFound : a.descriptorByFd r fd = none → CloseStep a r fd mode (a.answer r dsosEResourceClose)
  | closed {d : Addr} : a.descriptorByFd r fd = some d →
      CloseStep a r fd mode (((a.unregister (a.desResource d) mode).dropDescriptor r d).answer r 0)

/-- Resource `res` is removed; a message queue takes its messages with it. -/
def removeResource (a : Model) (res : ResourceRef) : Model :=
  match res with
  | .standard b =>
      { a with
        resourcesList := a.resourcesList.erase (.standard b)
        freeStandard := b :: a.freeStandard }
  | .mq q =>
      { a with
        resourcesList := a.resourcesList.erase (.mq q)
        freeMs := (a.msgs q).reverse ++ a.freeMs
        msgs := Function.update a.msgs q []
        freeMqs := q :: a.freeMqs }

/-- The transitions of `destroyResource`. -/
inductive DestroyStep (a : Model) (r : Addr) (id : Int) : Model → Prop where
  | notFound : a.resourceById id = none → DestroyStep a r id (a.answer r dsosEResourceClose)
  | inUse {res : ResourceRef} : a.resourceById id = some res → a.descriptorsPtrs res ≠ [] →
      DestroyStep a r id (a.answer r dsosEResourceInUse)
  | destroyed {res : ResourceRef} : a.resourceById id = some res → a.descriptorsPtrs res = [] →
      DestroyStep a r id ((a.removeResource res).answer r 0)

/-! ## Messages -/

/-- The message queue behind descriptor number `fd` of process `p`. -/
def queueByFd (a : Model) (p : Addr) (fd : Int) : Option Addr :=
  match (a.descriptorByFd p fd).map a.desResource with
  | some (.mq q) => some q
  | _ => none

/-- The transitions of `mq_read`. -/
inductive ReadStep (a : Model) (r : Addr) (fd buf length : Int) : Model → Prop where
  | notFound : a.descriptorByFd r fd = none →
      ReadStep a r fd buf length (a.answer r dsosResourceNotFound)
  | wrongType {d : Addr} : a.descriptorByFd r fd = some d → a.queueByFd r fd = none →
      ReadStep a r fd buf length (a.answer r dsosEResourceTypeWrong)
  | waiting {q : Addr} : a.queueByFd r fd = some q → a.msgs q = [] → a.writingPid q ≠ none →
      ReadStep a r fd buf length (a.answer r dsosWaitingForMessage)
  | empty {q : Addr} : a.queueByFd r fd = some q → a.msgs q = [] → a.writingPid q = none →
      ReadStep a r fd buf length (a.answer r dsosMessageQueueEmpty)
  | tooLong {q m : Addr} {ms : List Addr} : a.queueByFd r fd = some q → a.msgs q = m :: ms →
      length < a.msgLength m →
      ReadStep a r fd buf length (a.answer r dsosMessageLengthNotValid)
  | read {q m : Addr} {ms : List Addr} : a.queueByFd r fd = some q → a.msgs q = m :: ms →
      a.msgLength m ≤ length →
      ReadStep a r fd buf length
        { a.answer r (a.msgLength m) with
          chars := Kernel.copyOut (a.msgText m) buf (a.msgLength m).toNat a.chars
          msgs := Function.update a.msgs q ms
          freeMs := m :: a.freeMs }

/-- The message block `m` is filled. -/
def fillMessage (a : Model) (m : Addr) (ms : List Addr) (msg length : Int) : Model :=
  { a with
    freeMs := ms
    msgText := Function.update a.msgText m (Kernel.copyIn a.chars msg length.toNat (a.msgText m))
    msgLength := Function.update a.msgLength m length }

/-- The transitions of `mq_write`; `clean` tells which message blocks have null link fields. -/
inductive WriteStep (clean : Addr → Prop) (a : Model) (r : Addr) (fd msg length : Int) :
    Model → Prop where
  | badLength : (length < 0 ∨ messageStringMaxLength < length) →
      WriteStep clean a r fd msg length (a.answer r dsosMessageLengthNotValid)
  | notFound : 0 ≤ length → length ≤ messageStringMaxLength → a.descriptorByFd r fd = none →
      WriteStep clean a r fd msg length (a.answer r dsosResourceNotFound)
  | wrongType {d : Addr} : 0 ≤ length → length ≤ messageStringMaxLength →
      a.descriptorByFd r fd = some d → a.queueByFd r fd = none →
      WriteStep clean a r fd msg length (a.answer r dsosEResourceTypeWrong)
  | full {q : Addr} : 0 ≤ length → length ≤ messageStringMaxLength → a.queueByFd r fd = some q →
      ((a.msgs q).length : Int) = mForMq →
      WriteStep clean a r fd msg length
        { a with returnValue := Function.update a.returnValue r dsosMessageQueueFull }
  | linked {q m : Addr} {ms : List Addr} : 0 ≤ length → length ≤ messageStringMaxLength →
      a.queueByFd r fd = some q → ((a.msgs q).length : Int) ≠ mForMq → a.freeMs = m :: ms →
      clean m →
      WriteStep clean a r fd msg length
        { (a.fillMessage m ms msg length).answer r length with
          msgs := Function.update a.msgs q (a.msgs q ++ [m]) }
  | refused {q m : Addr} {ms : List Addr} : 0 ≤ length → length ≤ messageStringMaxLength →
      a.queueByFd r fd = some q → ((a.msgs q).length : Int) ≠ mForMq → a.freeMs = m :: ms →
      ¬ clean m →
      WriteStep clean a r fd msg length ((a.fillMessage m ms msg length).answer r length)

/-- `mq_read` does not complete: there is a message that fits, and the buffer is a null pointer. -/
def ReadStuck (a : Model) (r : Addr) (fd buf length : Int) : Prop :=
  ∃ q ∈ a.queueByFd r fd, ∃ m ∈ (a.msgs q).head?,
    a.msgLength m ≤ length ∧ 0 < a.msgLength m ∧ buf = 0

/-- `mq_write` does not complete: the queue has room, and the pool has no block for the message or
the message is a null pointer. -/
def WriteStuck (a : Model) (r : Addr) (fd msg length : Int) : Prop :=
  0 ≤ length ∧ length ≤ messageStringMaxLength ∧ ∃ q ∈ a.queueByFd r fd,
    ((a.msgs q).length : Int) ≠ mForMq ∧ (a.freeMs = [] ∨ (0 < length ∧ msg = 0))

/-! ## The system -/

/-- The state in which the handler of a syscall of `r` starts. -/
def enter (a : Model) (r : Addr) (c : Syscall) : Model :=
  { a with
    syscallArgs := Function.update a.syscallArgs r
      (Kernel.storeArgs (fun i => c.args.getD i 0) (Kernel.syscallNumarg c.num) (a.syscallArgs r))
    syscallNum := Function.update a.syscallNum r c.num }

/-- The handler of the syscall `c` of process `r`. -/
inductive HandlerStep (clean : Addr → Prop) (a : Model) (r : Addr) : Syscall → Model → Prop where
  | preempt {a' : Model} : ScheduleStep a a' → HandlerStep clean a r .preempt a'
  | fork {a' : Model} : CreateStep a r a' → HandlerStep clean a r .fork a'
  | spawn {f x : Int} {a' : Model} : CreateStep a r a' → HandlerStep clean a r (.spawn f x) a'
  | wait {pid : Int32} {retval : Int} {a' : Model} : WaitStep a r a' →
      HandlerStep clean a r (.wait pid retval) a'
  | exit {value : Int32} {a' : Model} : ExitStep a r a' → HandlerStep clean a r (.exit value) a'
  | sleep {cycles : Int32} {a' : Model} : SleepStep a r a' →
      HandlerStep clean a r (.sleep cycles) a'
  | openResource {id type mode : Int32} {a' : Model} :
      OpenStep a r id.toInt type.toInt mode.toInt a' →
      HandlerStep clean a r (.openResource id type mode) a'
  | closeResource {fd mode : Int32} {a' : Model} : CloseStep a r fd.toInt mode.toInt a' →
      HandlerStep clean a r (.closeResource fd mode) a'
  | destroyResource {id : Int32} {a' : Model} : DestroyStep a r id.toInt a' →
      HandlerStep clean a r (.destroyResource id) a'
  | shutdown : HandlerStep clean a r .shutdown { a with shutdownNow := true }
  | mqRead {fd length : Int32} {buf : Int} {a' : Model} :
      ReadStep a r fd.toInt buf length.toInt a' →
      HandlerStep clean a r (.mqRead fd buf length) a'
  | mqWrite {fd length : Int32} {msg : Int} {a' : Model} :
      WriteStep clean a r fd.toInt msg length.toInt a' →
      HandlerStep clean a r (.mqWrite fd msg length) a'

/-- The transitions of the system. -/
inductive Step (clean : Addr → Prop) (a : Model) : Action → Model → Prop where
  | tick {r : Addr} {a' : Model} : a.running = some r →
      ScheduleStep { a with time := wrapInt (a.time + 1) } a' → Step clean a .tick a'
  | syscall {r : Addr} {c : Syscall} {a' : Model} : a.running = some r →
      HandlerStep clean (a.enter r c) r c a' → Step clean a (.syscall c) a'
  | store {r : Addr} {address : Int} {value : UInt8} : a.running = some r →
      Step clean a (.store address value)
        { a with chars := Function.update a.chars address value }

end Model

end DisastrOS
