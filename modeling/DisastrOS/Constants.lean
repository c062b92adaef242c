import DisastrOS.Basic

/-!
# `disastrOS_constants.h`

Sizes, error codes, syscall numbers and opening modes, under the names of the macros. The
`sizeof...` values are those of the structures on a 64-bit machine.
-/

set_option autoImplicit false

namespace DisastrOS

def maxNumProcesses : Nat := 1024
def maxNumResources : Nat := 1024
def maxNumDescriptorsPerProcess : Nat := 32
def maxTypeResources : Int := 2
def standardResourceType : Int := 0
def messageQueueType : Int := 1

/-- `M_FOR_MQ`: messages one queue may hold. -/
def mForMq : Int := 128

def messageStringMaxLength : Int := 128

def dsosSigchld : BitVec 32 := 0x1
def dsosSighup : BitVec 32 := 0x2

/-! ## Error codes -/

def dsosESyscallNotImplemented : Int := -2
def dsosESyscallOutOfRange : Int := -3
def dsosEWait : Int := -5
def dsosESpawn : Int := -6
def dsosESleep : Int := -7
def dsosEResourceCreate : Int := -8
def dsosEResourceOpen : Int := -9
def dsosEResourceNoExcl : Int := -10
def dsosEResourceNoFd : Int := -11
def dsosEResourceClose : Int := -12
def dsosEResourceInUse : Int := -13
def dsosEResourceTypeNotExisting : Int := -14
def dsosEResourceTypeWrong : Int := -15
def dsosMessageLengthNotValid : Int := -17
def dsosMessageQueueFull : Int := -18
def dsosMessageQueueEmpty : Int := -19
def dsosResourceNotFound : Int := -20
def dsosWaitingForMessage : Int := -22

/-! ## Syscall numbers -/

def dsosMaxSyscalls : Int := 32
def dsosMaxSyscallsArgs : Nat := 8
def dsosCallPreempt : Int := 1
def dsosCallFork : Int := 2
def dsosCallWait : Int := 3
def dsosCallExit : Int := 4
def dsosCallSpawn : Int := 5
def dsosCallSleep : Int := 6
def dsosCallOpenResource : Int := 7
def dsosCallCloseResource : Int := 8
def dsosCallDestroyResource : Int := 9
def dsosCallShutdown : Int := 10
def dsosCallMessageQueueWrite : Int := 11
def dsosCallMessageQueueRead : Int := 12

/-! ## Opening modes -/

def dsosCreate : Int := 1
def dsosRead : Int := 2
def dsosWrite : Int := 3
def dsosExcl : Int := 4

/-! ## Block sizes -/

def sizeofPCB : Int := 17544
def sizeofPCBPtr : Int := 24
def sizeofTimerItem : Int := 32
def sizeofStandardResource : Int := 48
def sizeofMessageQueue : Int := 88
def sizeofMessage : Int := 152
def sizeofDescriptor : Int := 48
def sizeofDescriptorPtr : Int := 24

end DisastrOS
