import DisastrOS.Abstract.Sessions
import DisastrOS.Properties.Registrations
import DisastrOS.Properties.WriteAnswer

/-!
# `disastrOS_test_mq.c`: the writer and the reader

The writer opens the queue for writing, writes its messages and closes the queue. The reader opens
it for reading, reads until the answer is that the queue is empty, and closes it. `Programs.next` is
what an event does to the progress of the two programs. Between their calls the programs may be
interrupted, sleep, give up the processor and change their memory.
-/

set_option autoImplicit false

namespace DisastrOS

open Runs Model

/-- The action is none of the calls of the two programs, but may stand between them. -/
def Action.pauses : Action → Bool
  | .tick | .store .. | .syscall .preempt | .syscall (.sleep _) => true
  | _ => false

/-- How far the writer is; `todo` are the messages that it still has to write. -/
inductive WriterState where
  | opening
  | writing (fd : Int) (todo : List Message)
  | closed
  deriving DecidableEq

/-- How far the reader is; it closes the queue after the answer that the queue is empty. -/
inductive ReaderState where
  | opening
  | reading (fd : Int)
  | closing (fd : Int)
  | closed
  deriving DecidableEq

def WriterState.stage : WriterState → Stage
  | .opening => .before
  | .writing fd _ => .during fd
  | .closed => .after

def ReaderState.stage : ReaderState → Stage
  | .opening => .before
  | .reading fd | .closing fd => .during fd
  | .closed => .after

/-- The reader has got the answer that the queue is empty. -/
def ReaderState.drained : ReaderState → Bool
  | .opening | .reading _ => false
  | .closing _ | .closed => true

/-- The states of the two programs and what the reader has received. -/
structure Progress where
  writer : WriterState
  reader : ReaderState
  received : List Message
  deriving DecidableEq

/-- Both programs have finished. -/
def Progress.Done (t : Progress) : Prop := t.writer = .closed ∧ t.reader = .closed

instance (t : Progress) : Decidable t.Done :=
  inferInstanceAs (Decidable (t.writer = .closed ∧ t.reader = .closed))

/-- The event is a call on the queue or one that opens or destroys it. -/
def Touches (e : Event Kernel Action) (q : Addr) (id : Int32) : Bool :=
  match e.act, e.pre.running with
  | .syscall (.openResource id' _ _), _ => id' = id
  | .syscall (.destroyResource id'), _ => id' = id
  | .syscall (.closeResource fd _), some r => e.pre.queueByFd r fd.toInt = some q
  | .syscall (.mqRead fd _ _), some r => e.pre.queueByFd r fd.toInt = some q
  | .syscall (.mqWrite fd _ _), some r => e.pre.queueByFd r fd.toInt = some q
  | _, _ => false

/-- The processes `writer` and `reader` use the queue `queue` with this id to transfer `messages`.
-/
structure Programs where
  queue : Addr
  id : Int32
  writer : Addr
  reader : Addr
  messages : List Message
  different : writer ≠ reader
  valid : ∀ m ∈ messages, 0 ≤ m.2 ∧ m.2 ≤ messageStringMaxLength

namespace Programs

variable (x : Programs)

/-- Neither program has started. -/
def start : Progress := ⟨.opening, .opening, []⟩

/-- The messages that the writer still has to write. -/
def todo (t : Progress) : List Message :=
  match t.writer with
  | .opening => x.messages
  | .writing _ todo => todo
  | .closed => []

/-- An event of the writer, as in `write_childFunction`: a message stays the next one to write if
the answer is that the queue is full. -/
def writerNext (t : Progress) (e : Event Kernel Action) : Option Progress :=
  let answer := e.post.syscallRetvalue x.writer
  if e.act.pauses then some t
  else
    match t.writer, e.act with
    | .opening, .syscall (.openResource id type mode) =>
        if id = x.id ∧ type.toInt = messageQueueType ∧ mode.toInt = dsosWrite ∧ 0 ≤ answer then
          some { t with writer := .writing answer x.messages }
        else none
    | .writing fd (m :: todo), .syscall (.mqWrite fd' msg length) =>
        if fd'.toInt = fd ∧ m = (e.pre.bytes msg length.toInt, length.toInt) then
          some { t with
            writer := .writing fd (if answer = dsosMessageQueueFull then m :: todo else todo) }
        else none
    | .writing fd [], .syscall (.closeResource fd' mode) =>
        if fd'.toInt = fd ∧ mode.toInt = dsosWrite then some { t with writer := .closed } else none
    | _, _ => none

/-- An event of the reader, as in `read_childFunction`. -/
def readerNext (t : Progress) (e : Event Kernel Action) : Option Progress :=
  let answer := e.post.syscallRetvalue x.reader
  if e.act.pauses then some t
  else
    match t.reader, e.act with
    | .opening, .syscall (.openResource id type mode) =>
        if id = x.id ∧ type.toInt = messageQueueType ∧ mode.toInt = dsosRead ∧ 0 ≤ answer then
          some { t with reader := .reading answer }
        else none
    | .reading fd, .syscall (.mqRead fd' _ length) =>
        if fd'.toInt = fd ∧ length.toInt = messageStringMaxLength then
          some { t with
            reader := if answer = dsosMessageQueueEmpty then .closing fd else .reading fd
            received := t.received ++ (DisastrOS.received x.queue e).toList }
        else none
    | .closing fd, .syscall (.closeResource fd' mode) =>
        if fd'.toInt = fd ∧ mode.toInt = dsosRead then some { t with reader := .closed } else none
    | _, _ => none

/-- The progress after one more event, if that event belongs to the programs: nobody but the two
processes touches the queue, and they do so while their programs run. -/
def next (t : Progress) (e : Event Kernel Action) : Option Progress :=
  if e.pre.running = some x.writer ∧ t.writer ≠ .closed then x.writerNext t e
  else if e.pre.running = some x.reader ∧ t.reader ≠ .closed then x.readerNext t e
  else if Touches e x.queue x.id then none
  else some t

/-- The progress of the programs after the events. -/
def follow (es : List (Event Kernel Action)) : Option Progress := es.foldlM x.next start

/-- The state in which the programs start: the queue exists and is empty, and the two processes have
no descriptors. -/
structure Ready (s : Kernel) : Prop where
  live : s.Live x.queue
  id : s.resourceId (.mq x.queue) = x.id.toInt
  empty : s.contents x.queue = []
  writer : s.descriptorsOf x.writer = []
  reader : s.descriptorsOf x.reader = []

/-- What can go wrong in an event: the reader finds the queue empty and without a writer because the
writer has not opened it yet; the queue is full, and the answer of the last syscall of the writer is
another one; the next message block has stale links. -/
def Safe (t : Progress) (e : Event Kernel Action) : Prop :=
  match e.act, e.pre.running with
  | .syscall (.mqRead fd _ _), some r =>
      e.pre.queueByFd r fd.toInt = some x.queue → t.writer = .opening →
        e.pre.contents x.queue = [] → e.pre.writingPid x.queue = none → x.messages = []
  | .syscall (.mqWrite fd _ _), some r =>
      e.pre.queueByFd r fd.toInt = some x.queue →
        if ((e.pre.messagesOf x.queue).length : Int) = mForMq then
          e.pre.syscallRetvalue r = dsosMessageQueueFull
        else ∀ m, e.pre.mAllocator.getBlock.1 = some m → e.pre.msgs.Unlinked m
  | _, _ => True

end Programs

/-! ## The events of the programs -/

/-- What the events that belong to the programs do to the progress. -/
inductive Turn (x : Programs) (t : Progress) (e : Event Kernel Action) : Progress → Prop where
  | idle : Touches e x.queue x.id = false →
      (e.act.onDescriptors → e.pre.running = some x.writer → t.writer = .closed) →
      (e.act.onDescriptors → e.pre.running = some x.reader → t.reader = .closed) → Turn x t e t
  | opensWriting {type mode : Int32} : e.pre.running = some x.writer → t.writer = .opening →
      e.act = .syscall (.openResource x.id type mode) → mode.toInt = dsosWrite →
      0 ≤ e.post.syscallRetvalue x.writer →
      Turn x t e { t with writer := .writing (e.post.syscallRetvalue x.writer) x.messages }
  | writes {fd : Int32} {length : Int32} {msg : Int} {m : Message} {todo : List Message} :
      e.pre.running = some x.writer → t.writer = .writing fd.toInt (m :: todo) →
      e.act = .syscall (.mqWrite fd msg length) →
      m = (e.pre.bytes msg length.toInt, length.toInt) →
      Turn x t e { t with
        writer := .writing fd.toInt
          (if e.post.syscallRetvalue x.writer = dsosMessageQueueFull then m :: todo else todo) }
  | closesWriting {fd mode : Int32} : e.pre.running = some x.writer →
      t.writer = .writing fd.toInt [] → e.act = .syscall (.closeResource fd mode) →
      mode.toInt = dsosWrite → Turn x t e { t with writer := .closed }
  | opensReading {type mode : Int32} : e.pre.running = some x.reader → t.reader = .opening →
      e.act = .syscall (.openResource x.id type mode) → mode.toInt = dsosRead →
      0 ≤ e.post.syscallRetvalue x.reader →
      Turn x t e { t with reader := .reading (e.post.syscallRetvalue x.reader) }
  | reads {fd : Int32} {length : Int32} {buf : Int} : e.pre.running = some x.reader →
      t.reader = .reading fd.toInt → e.act = .syscall (.mqRead fd buf length) →
      Turn x t e { t with
        reader := if e.post.syscallRetvalue x.reader = dsosMessageQueueEmpty
          then .closing fd.toInt else .reading fd.toInt
        received := t.received ++ (received x.queue e).toList }
  | closesReading {fd mode : Int32} : e.pre.running = some x.reader →
      t.reader = .closing fd.toInt → e.act = .syscall (.closeResource fd mode) →
      mode.toInt = dsosRead → Turn x t e { t with reader := .closed }

variable {x : Programs} {t t' : Progress} {e : Event Kernel Action}

/-- A pause changes nothing for the programs. -/
theorem Turn.pause (h : e.act.pauses) : Turn x t e t := by
  have hquiet : Touches e x.queue x.id = false ∧ e.act.onDescriptors = false := by
    obtain ⟨pre, act, post⟩ := e
    cases act with
    | tick => exact ⟨rfl, rfl⟩
    | store _ _ => exact ⟨rfl, rfl⟩
    | syscall c => cases c <;> first | exact ⟨rfl, rfl⟩ | cases h
  exact .idle hquiet.1 (fun hd => by simp [hquiet.2] at hd) fun hd => by simp [hquiet.2] at hd

theorem Programs.writerNext_turn (hrun : e.pre.running = some x.writer)
    (h : x.writerNext t e = some t') : Turn x t e t' := by
  unfold writerNext at h
  by_cases hpause : e.act.pauses
  · rw [if_pos hpause] at h
    exact Option.some.inj h ▸ .pause hpause
  · rw [if_neg hpause] at h
    split at h
    · rename_i hw hact
      split at h
      · rename_i hguard
        obtain ⟨rfl, -, hmode, hpos⟩ := hguard
        exact Option.some.inj h ▸ .opensWriting hrun hw hact hmode hpos
      · cases h
    · rename_i hw hact
      split at h
      · rename_i hguard
        obtain ⟨rfl, hm⟩ := hguard
        exact Option.some.inj h ▸ .writes hrun hw hact hm
      · cases h
    · rename_i hw hact
      split at h
      · rename_i hguard
        obtain ⟨rfl, hmode⟩ := hguard
        exact Option.some.inj h ▸ .closesWriting hrun hw hact hmode
      · cases h
    · cases h

theorem Programs.readerNext_turn (hrun : e.pre.running = some x.reader)
    (h : x.readerNext t e = some t') : Turn x t e t' := by
  unfold readerNext at h
  by_cases hpause : e.act.pauses
  · rw [if_pos hpause] at h
    exact Option.some.inj h ▸ .pause hpause
  · rw [if_neg hpause] at h
    split at h
    · rename_i hr hact
      split at h
      · rename_i hguard
        obtain ⟨rfl, -, hmode, hpos⟩ := hguard
        exact Option.some.inj h ▸ .opensReading hrun hr hact hmode hpos
      · cases h
    · rename_i hr hact
      split at h
      · rename_i hguard
        obtain ⟨rfl, -⟩ := hguard
        exact Option.some.inj h ▸ .reads hrun hr hact
      · cases h
    · rename_i hr hact
      split at h
      · rename_i hguard
        obtain ⟨rfl, hmode⟩ := hguard
        exact Option.some.inj h ▸ .closesReading hrun hr hact hmode
      · cases h
    · cases h

/-- An event that belongs to the programs is one of theirs or leaves them alone. -/
theorem Programs.next_turn (h : x.next t e = some t') : Turn x t e t' := by
  unfold next at h
  split at h
  · rename_i hguard
    exact writerNext_turn hguard.1 h
  · rename_i hwriter
    split at h
    · rename_i hguard
      exact readerNext_turn hguard.1 h
    · rename_i hreader
      split at h
      · cases h
      · rename_i htouch
        refine Option.some.inj h ▸ .idle (by simpa using htouch) (fun _ hrun => ?_) fun _ hrun => ?_
        · simpa [hrun] using hwriter
        · simpa [hrun] using hreader

end DisastrOS
