import DisastrOS.Library.Runs
import DisastrOS.Machine

/-!
# The example program

`disastrOS_test_mq.c` creates two message queues, a writer and a reader for each of them and a
process that only prints, waits for the writers and readers, and shuts the system down. The code of
a process is given by the calls that it makes, one after the other: what it does next depends on the
call that it has made last, on the answer to it and on its variables. What it prints and the two
counters, which are only printed, are left out, although printing the queues can fail when the timer
fires in between.
-/

set_option autoImplicit false

namespace DisastrOS

open Runs

/-- The addresses of the functions and variables that occur in calls. Each process has the buffer
`message` on a stack of its own. -/
structure Layout where
  sleeperFunction : Int
  readChildFunction : Int
  writeChildFunction : Int
  resources : Int
  retval : Int
  message : Addr → Int
  sleeper_ne_read : sleeperFunction ≠ readChildFunction
  sleeper_ne_write : sleeperFunction ≠ writeChildFunction
  read_ne_write : readChildFunction ≠ writeChildFunction
  message_ne_null : ∀ p, message p ≠ 0

/-- `resources + i`. -/
def Layout.resource (L : Layout) (i : Nat) : Int := L.resources + 4 * i

/-! ## Points of the code -/

/-- The last call of `initFunction`. -/
inductive InitPoint where
  | started
  | spawnedSleeper
  | opened (i : Nat)
  | spawnedWriter (i : Nat)
  | spawnedReader (i : Nat)
  | waiting (alive : Nat)
  | destroying (i : Nat)
  | shutdown
  deriving DecidableEq

/-- The last call of `write_childFunction`, with its variables. -/
inductive WriterPoint where
  | started
  | opened
  | writing (fd i : Int)
  | sleeping (fd i : Int)
  | closing
  | exited
  deriving DecidableEq

/-- The last call of `read_childFunction`, with its variables. -/
inductive ReaderPoint where
  | started
  | opened
  | reading (fd : Int)
  | sleeping (fd : Int)
  | closing
  | exited
  deriving DecidableEq

/-- The code that a process executes, the pointer that it has been started with, and how far it is.
-/
inductive Process where
  | init (pt : InitPoint)
  | sleeper
  | writer (args : Int) (pt : WriterPoint)
  | reader (args : Int) (pt : ReaderPoint)
  deriving DecidableEq

/-- What a process does when it goes on: its next call, with the `int` objects in memory, or a
failed assertion, or nothing but printing. -/
inductive Outcome where
  | call (c : Syscall) (next : Process) (memory : Int → Int)
  | abort
  | idle

/-! ## The functions -/

section Functions

variable (L : Layout) (memory : Int → Int)

/-- `initFunction`, after the call `pt` with this answer. -/
def initFunction (answer : Int) : InitPoint → Outcome
  | .started => .call (.spawn L.sleeperFunction 0) (.init .spawnedSleeper) memory
  | .spawnedSleeper =>
      .call (.openResource 0 (.ofInt messageQueueType) (.ofInt dsosCreate)) (.init (.opened 0))
        memory
  | .opened i =>
      if answer < 0 then .abort
      else
        let memory := Function.update memory (L.resource i) answer
        if i = 0 then
          .call (.openResource 1 (.ofInt messageQueueType) (.ofInt dsosCreate)) (.init (.opened 1))
            memory
        else .call (.spawn L.writeChildFunction (L.resource 0)) (.init (.spawnedWriter 0)) memory
  | .spawnedWriter i =>
      .call (.spawn L.readChildFunction (L.resource i)) (.init (.spawnedReader i)) memory
  | .spawnedReader i =>
      if i + 1 < 2 then
        .call (.spawn L.writeChildFunction (L.resource (i + 1))) (.init (.spawnedWriter (i + 1)))
          memory
      else .call (.wait 0 L.retval) (.init (.waiting 4)) memory
  | .waiting alive =>
      -- `alive` counts the children that were alive when the call was made
      if 0 ≤ answer ∧ 0 < alive - 1 then
        .call (.wait 0 L.retval) (.init (.waiting (alive - 1))) memory
      else .call (.destroyResource (.ofInt (memory (L.resource 0)))) (.init (.destroying 0)) memory
  | .destroying i =>
      if i + 1 < 2 then
        .call (.destroyResource (.ofInt (memory (L.resource (i + 1)))))
          (.init (.destroying (i + 1))) memory
      else .call .shutdown (.init .shutdown) memory
  | .shutdown => .idle

/-- `write_childFunction` of the process `self` with the argument `args`. The answers that no case
of the `switch` names count a message as written. -/
def writeChildFunction (self : Addr) (args pid answer : Int) : WriterPoint → Outcome
  | .started =>
      .call (.openResource (.ofInt (memory args)) (.ofInt messageQueueType) (.ofInt dsosWrite))
        (.writer args .opened) memory
  | .opened =>
      if answer < 0 then .abort
      else .call (.mqWrite (.ofInt answer) (L.message self) (.ofInt messageStringMaxLength))
        (.writer args (.writing answer 0)) memory
  | .writing fd i =>
      if answer = dsosResourceNotFound ∨ answer = dsosEResourceTypeWrong then
        -- `i = M_FOR_MQ` ends the loop
        .call (.closeResource (.ofInt fd) (.ofInt dsosWrite)) (.writer args .closing) memory
      else
        .call (.sleep (.ofInt ((20 - pid) * 3)))
          (.writer args (.sleeping fd (if answer = dsosMessageQueueFull then i - 1 else i))) memory
  | .sleeping fd i =>
      if i + 1 < 10 then
        .call (.mqWrite (.ofInt fd) (L.message self) (.ofInt messageStringMaxLength))
          (.writer args (.writing fd (i + 1))) memory
      else
        .call (.closeResource (.ofInt fd) (.ofInt dsosWrite)) (.writer args .closing) memory
  | .closing =>
      if answer < 0 then .abort
      else .call (.exit (.ofInt (pid + 1))) (.writer args .exited) memory
  | .exited => .idle

/-- `read_childFunction` of the process `self` with the argument `args`. All answers but one make it
sleep and try again. -/
def readChildFunction (self : Addr) (args pid answer : Int) : ReaderPoint → Outcome
  | .started =>
      .call (.openResource (.ofInt (memory args)) (.ofInt messageQueueType) (.ofInt dsosRead))
        (.reader args .opened) memory
  | .opened =>
      if answer < 0 then .abort
      else .call (.mqRead (.ofInt answer) (L.message self) (.ofInt messageStringMaxLength))
        (.reader args (.reading answer)) memory
  | .reading fd =>
      if answer = dsosMessageQueueEmpty then
        .call (.closeResource (.ofInt fd) (.ofInt dsosRead)) (.reader args .closing) memory
      else .call (.sleep (.ofInt ((20 - pid) * 3))) (.reader args (.sleeping fd)) memory
  | .sleeping fd =>
      .call (.mqRead (.ofInt fd) (L.message self) (.ofInt messageStringMaxLength))
        (.reader args (.reading fd)) memory
  | .closing =>
      if answer < 0 then .abort
      else .call (.exit (.ofInt (pid + 1))) (.reader args .exited) memory
  | .exited => .idle

/-- How a process goes on with the answer to its last call. `sleeperFunction` prints for ever. -/
def Process.resume (self : Addr) (pid answer : Int) : Process → Outcome
  | .init pt => initFunction L memory answer pt
  | .sleeper => .idle
  | .writer args pt => writeChildFunction L memory self args pid answer pt
  | .reader args pt => readChildFunction L memory self args pid answer pt

/-- The process that `disastrOS_spawn` starts. -/
def Layout.entry (f args : Int) : Option Process :=
  if f = L.sleeperFunction then some .sleeper
  else if f = L.writeChildFunction then some (.writer args .started)
  else if f = L.readChildFunction then some (.reader args .started)
  else none

end Functions

/-! ## The program -/

/-- The `int` objects of the program and the code that each process executes. -/
structure TestMq where
  memory : Int → Int
  process : Addr → Option Process

namespace TestMq

/-- The first process starts with `initFunction`. -/
def start : TestMq where
  memory _ := 0
  process p := if p = 0 then some (.init .started) else none

/-- How the process `p` goes on in the state `s` of the kernel. -/
def outcome (L : Layout) (t : TestMq) (s : Kernel) (p : Addr) : Outcome :=
  match t.process p with
  | none => .idle
  | some x => x.resume L t.memory p (s.pid p) (s.syscallRetvalue p)

/-- The processes after a call in the state `s`: `spawn` has started a new one. -/
def started (L : Layout) (s : Kernel) (c : Syscall) (process : Addr → Option Process) :
    Addr → Option Process :=
  match c, s.pcbAllocator.getBlock.1 with
  | .spawn f args, some b => Function.update process b (L.entry f args)
  | _, _ => process

/-- The program after one more event, if the event is one of the program: the running process makes
no other call than its next one. -/
def next (L : Layout) (t : TestMq) (e : Event Kernel Action) : Option TestMq :=
  match e.act with
  | .syscall c => do
      let r ← e.pre.running
      match t.outcome L e.pre r with
      | .call c' x memory =>
          if c = c' then
            some ⟨memory, started L e.pre c (Function.update t.process r (some x))⟩
          else none
      | _ => none
  | _ => some t

/-- The program after the events of a run. -/
def follow (L : Layout) (es : List (Event Kernel Action)) : Option TestMq :=
  es.foldlM (next L) start

end TestMq

end DisastrOS
