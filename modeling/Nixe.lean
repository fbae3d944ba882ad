import Nixe.SchedulerAnswers
import Nixe.PriorityWaitOrder
import Nixe.PriorityInheritance
import Nixe.MutexHandoff
import Nixe.SessionRuns
import Nixe.AddressResolution
import Nixe.MethodSpans
import Nixe.MmeCache
import Nixe.NpdmPolicy
import Nixe.NcaIntegrityBinding
import Nixe.NczReads
import Nixe.ExecutionGate
import Nixe.Conflicts
import Nixe.AliasCoverage
import Nixe.HostFilesystem
import Nixe.A64AddSub
import Nixe.DisplaySlots
import Nixe.VirtualTime
import Nixe.HandleTable
import Nixe.ShaderImmediate
import Nixe.ShaderFunnel
import Nixe.ShaderXmad
import Nixe.InvalidationLog
