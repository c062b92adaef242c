import DisastrOS.Properties.Delivery
import DisastrOS.Properties.Wakeup
import DisastrOS.Properties.Parents
import DisastrOS.Properties.Descriptors
import DisastrOS.Properties.Release
import DisastrOS.Properties.Registrations
import DisastrOS.Properties.HandOff
import DisastrOS.Properties.ProcessTable
import DisastrOS.Properties.ProcessTree
import DisastrOS.Properties.WriteAnswer
import DisastrOS.Properties.ListOperations
import DisastrOS.Properties.Allocation
import DisastrOS.Properties.Sleepers
import DisastrOS.Properties.TimerOrder
import DisastrOS.Properties.Statuses
import DisastrOS.Properties.MessageBlocks
import DisastrOS.Properties.Capacity
import DisastrOS.Properties.PcbPtrs
import DisastrOS.Properties.FreshQueues
import DisastrOS.Properties.EmptyAnswer
import DisastrOS.Properties.WaitForPid
import DisastrOS.Properties.OpenFailures
import DisastrOS.Properties.CloseDestroy
import DisastrOS.Properties.CloseOpen
import DisastrOS.Properties.Handles
import DisastrOS.Properties.Dispatch
import DisastrOS.Properties.Creation
import DisastrOS.Properties.Reparenting
import DisastrOS.Properties.SleepTime
import DisastrOS.Properties.DescriptorCapacity
import DisastrOS.Properties.SyscallTables
import DisastrOS.Properties.Fairness
import DisastrOS.Properties.Restart
import DisastrOS.Properties.Preemption
import DisastrOS.Properties.Progress
import DisastrOS.Properties.Contexts
import DisastrOS.Properties.LogFile
import DisastrOS.TestMq
import DisastrOS.Abstract.Blocks
import DisastrOS.Abstract.OneParent
import DisastrOS.Abstract.Clients
import DisastrOS.Properties.Cast
import DisastrOS.Properties.Crew
import DisastrOS.Properties.CrewCalls
import DisastrOS.Properties.CrewInit
import DisastrOS.Properties.ExampleProgram
import DisastrOS.Properties.ExampleMessages
