import DsaTest.Protocol.State
import DsaTest.Protocol.Move
import DsaTest.Protocol.Phase
import DsaTest.Protocol.Entries
import DsaTest.Protocol.Invariant
import DsaTest.Protocol.Counts
import DsaTest.Protocol.Completion
import DsaTest.Protocol.Failure
import DsaTest.Protocol.Pool
import DsaTest.Protocol.Scan
import DsaTest.Lib.Fair
import DsaTest.Protocol.Parties
import DsaTest.Protocol.Rank
import DsaTest.Protocol.Returns
import DsaTest.Protocol.Memory
import DsaTest.Protocol.Unload
import DsaTest.Descriptor
import DsaTest.Lib.Walk
import DsaTest.Submit
import DsaTest.Paths
import DsaTest.Tasks
import DsaTest.Lib.Lockstep
import DsaTest.Scatter
import DsaTest.SingleDevice
import DsaTest.Bytes
import DsaTest.DataPath
import DsaTest.Init
import DsaTest.BatchDevice
import DsaTest.Limits
import DsaTest.Chunks
import DsaTest.Pass
import DsaTest.InFlight
import DsaTest.Release
import DsaTest.Protocol.Recycle
import DsaTest.Retry
import DsaTest.Basecodes
import DsaTest.Userspace
import DsaTest.Lib.Attempts
import DsaTest.RetryLimits
import DsaTest.Lib.CInt
import DsaTest.PageLoop
import DsaTest.Lib.CString
import DsaTest.SelfCheck
import DsaTest.BatchContents
import DsaTest.Cover
import DsaTest.Cleanup
import DsaTest.Pasid
import DsaTest.MapWq
import DsaTest.ToUserspace
import DsaTest.Lib.Memmove
import DsaTest.Lib.Pieces
import DsaTest.Dto.Start
import DsaTest.Dto.Offload
import DsaTest.Dto.Copy
import DsaTest.Dto.Memmove
import DsaTest.Dto.Memset
import DsaTest.Dto.Memcmp
import DsaTest.Driver.Irq
import DsaTest.Driver.Ledger
import DsaTest.Driver.Once
import DsaTest.Driver.CommandReturns
import DsaTest.Driver.EventLogRuns
