import ZeppelinMeta.Store
import ZeppelinMeta.NodesTable
import ZeppelinMeta.PartitionsTable
import ZeppelinMeta.Reorganize
import ZeppelinMeta.Server
import ZeppelinMeta.Outcomes
import ZeppelinMeta.Run
import ZeppelinMeta.Nodes
import ZeppelinMeta.Placement
import ZeppelinMeta.Masters
import ZeppelinMeta.Failures
import ZeppelinMeta.Recovery
import ZeppelinMeta.Leader
import ZeppelinMeta.Lifecycle
import ZeppelinMeta.Liveness
import ZeppelinMeta.Cluster
import ZeppelinMeta.Spreading
import ZeppelinMeta.Distribution
import ZeppelinMeta.Failover
import ZeppelinMeta.Passes
import ZeppelinMeta.Hosts
import ZeppelinMeta.Shutdown
import ZeppelinMeta.QueryRate
