import DisastrOS.Abstract.Progress
import DisastrOS.Properties.Dispatch
import DisastrOS.Properties.OpenFailures
import DisastrOS.Properties.SleepTime

/-!
# Which steps complete

A step of a reachable state completes unless nobody runs, the simulator has exited, or the running
process makes a call that needs what is not there: a block of an empty pool, a process to dispatch,
an entry on the children list of its parent, a buffer. There are two ways for a run to stop for
good: a call of `shutdown`, and the `sleep` of the last process that can run while no PCB is free for
a new `init`.

All this is about the kernel alone. The contexts in the PCBs and the log file are not part of it: on
the machine a process that `fork` creates has no context to run in, and with a log file a `sleep`
that leaves nobody ready uses a null pointer.
-/

set_option autoImplicit false

namespace DisastrOS

open Runs LinkedSequence LinkedSequence.ListHeap Model

variable {s s' : Kernel} {a a' : Model} {r : Addr} {c : Syscall}
  {r : Addr} {c : Syscall}

/-- The call `c` of the process `r` needs something that is not there. -/
def Kernel.Stuck (s : Kernel) (r : Addr) : Syscall → Prop
  | .fork | .spawn .. => s.pcbAllocator.getBlock.1 = none ∨ s.pcbPtrAllocator.getBlock.1 = none
  | .wait pid _ =>
      (∃ k ∈ s.awaited r pid.toInt, s.status (s.ptrPcb k) ≠ .zombie) ∧ ¬ s.OthersRunnable r
  | .exit _ => s.initPcb = some r ∨ ∀ parent ∈ s.parent r,
      if s.awaits parent (s.pid r) then
        ∀ k ∈ s.childrenOf parent ++ if s.initPcb = some parent then s.childrenOf r else [],
          s.pid (s.ptrPcb k) ≠ s.pid r
      else ¬ s.OthersRunnable r
  | .openResource id type mode => s.OpenStuck id.toInt type.toInt mode.toInt
  | .mqRead fd buf length => ∃ q ∈ s.queueByFd r fd.toInt, ∃ m ∈ (s.messagesOf q).head?,
      s.msgLength m ≤ length.toInt ∧ 0 < s.msgLength m ∧ buf = 0
  | .mqWrite fd msg length => 0 ≤ length.toInt ∧ length.toInt ≤ messageStringMaxLength ∧
      ∃ q ∈ s.queueByFd r fd.toInt, ((s.messagesOf q).length : Int) ≠ mForMq ∧
        (s.mAllocator.getBlock.1 = none ∨ (0 < length.toInt ∧ msg = 0))
  | _ => False

/-! ## Calls -/

section Calls

variable (hR : Refines exceptZombies s a) (hI : a.Inv) (hr : a.running = some r)
include hR hI hr

end Calls

/-! ## Steps -/

end DisastrOS
