import GenieSdk.Analysis.BufQueueDelivery
import GenieSdk.Analysis.KFifoBytes
import GenieSdk.Analysis.MmComplete
import GenieSdk.Analysis.MmRealloc
import GenieSdk.Analysis.MblkAccounts
import GenieSdk.Analysis.MutexCounts
import GenieSdk.Analysis.DelRefused
import GenieSdk.Analysis.PriorityWalk
import GenieSdk.Analysis.EventFlags
import GenieSdk.Analysis.Semaphores
import GenieSdk.Analysis.TickOrder
import GenieSdk.Analysis.TicklessTime
import GenieSdk.Analysis.WorkCancel
import GenieSdk.Analysis.VfsNames
import GenieSdk.Analysis.LoopDispatch
import GenieSdk.Analysis.LoopCalls
import GenieSdk.Analysis.KvGcWakeup
import GenieSdk.Analysis.StorageOverFlash
import GenieSdk.Analysis.SessionKey
import GenieSdk.Analysis.AisHeader
import GenieSdk.Analysis.OtaStream
import GenieSdk.Analysis.TransportDelay
import GenieSdk.Analysis.TidWindow
import GenieSdk.Analysis.TimerRemoval
import GenieSdk.Analysis.TimerOverdue
import GenieSdk.Analysis.SigIndicate
import GenieSdk.Analysis.SigBinding
import GenieSdk.Analysis.TransitionSteps
import GenieSdk.Analysis.LpmWindow
import GenieSdk.Analysis.BinFrames
import GenieSdk.Analysis.AtLines
import GenieSdk.Analysis.MeshNonces
import GenieSdk.Analysis.SeqReservation
import GenieSdk.Analysis.DecodeCaches
import GenieSdk.Analysis.SegCompletion
import GenieSdk.Analysis.Reassembly
import GenieSdk.Analysis.FriendSubs
import GenieSdk.Analysis.FriendModels
import GenieSdk.Analysis.FriendDelivery
import GenieSdk.Analysis.ProvLink
import GenieSdk.Analysis.AccessMessages
import GenieSdk.Analysis.ProxyLink
import GenieSdk.Analysis.ProxyFilter
import GenieSdk.Analysis.NetFlood
