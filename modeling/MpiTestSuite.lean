import MpiTestSuite.Coll.Allgather
import MpiTestSuite.Coll.Alltoall
import MpiTestSuite.Coll.Extrema
import MpiTestSuite.Coll.Scan
import MpiTestSuite.Coll.Scatterv
import MpiTestSuite.Io.Strided
import MpiTestSuite.Io.TurnRuns
import MpiTestSuite.OneSided.PostRuns
import MpiTestSuite.OneSided.WindowRuns
import MpiTestSuite.P2P.AnySourceRuns
import MpiTestSuite.P2P.Cancel
import MpiTestSuite.P2P.CrossTalk
import MpiTestSuite.P2P.Graph
import MpiTestSuite.P2P.MainRuns
import MpiTestSuite.P2P.Persistent
import MpiTestSuite.P2P.Probes
import MpiTestSuite.P2P.Sendrecv
import MpiTestSuite.P2P.TagHash
import MpiTestSuite.Schedule.Mappings
import MpiTestSuite.Selection.Capacity
import MpiTestSuite.Selection.Names
import MpiTestSuite.Threaded.Bsend
import MpiTestSuite.Threaded.CommDup
import MpiTestSuite.Threaded.Isend
import MpiTestSuite.Threaded.PartitionedCheck
import MpiTestSuite.Threaded.PartitionedManyToOne
import MpiTestSuite.Threaded.PartitionedRing
import MpiTestSuite.Threaded.Persistent
import MpiTestSuite.Threads.Partial
import MpiTestSuite.Threads.Requests
import MpiTestSuite.Threads.Shutdown
import MpiTestSuite.Threads.Signals
import MpiTestSuite.Types.Clamping
