import DistributedCaching.Cache.FIFOPolicy
import DistributedCaching.Cache.LruReference
import DistributedCaching.Cache.SSDStoreLaws
import DistributedCaching.Cache.SSDStoreRefinement
import DistributedCaching.Consistency.LastWriteWins
import DistributedCaching.Consistency.StrongConsistency
import DistributedCaching.Coordination.HeartbeatManager
import DistributedCaching.Coordination.Paxos
import DistributedCaching.Coordination.PaxosSafety
import DistributedCaching.Distributed.Failover
import DistributedCaching.Distributed.MasterSlaveReplication
import DistributedCaching.Distributed.RangePartitioning
import DistributedCaching.FaultTolerance.CrashRecovery
import DistributedCaching.FaultTolerance.InMemoryCache
import DistributedCaching.FaultTolerance.LogRoundTrip
import DistributedCaching.Int32
import DistributedCaching.Security.APIKeyAuth
