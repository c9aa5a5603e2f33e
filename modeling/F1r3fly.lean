import F1r3fly.RSpace.History.RadixHistoryMap
import F1r3fly.RSpace.ReplaySimulation
import F1r3fly.RSpace.History.CheckpointKeys
import F1r3fly.RSpace.Locks
import F1r3fly.RSpace.SoftCheckpoint
import F1r3fly.Casper.Merging.OptimalRejection
import F1r3fly.Casper.Merging.DeployAccounting
import F1r3fly.Casper.Merging.AbortedMerges
import F1r3fly.Casper.ParentsMergeScope
import F1r3fly.BlockStorage.CasperBuffer
import F1r3fly.RSpace.History.RadixNodeBuffer
import F1r3fly.RSpace.History.RadixExportPages
import F1r3fly.BlockStorage.LatestMessages
import F1r3fly.Casper.Util.FairRoundRobinDispatcher
import F1r3fly.Casper.Api.TruthfulStatus
import F1r3fly.Casper.NeglectedEquivocation
import F1r3fly.Casper.RepeatedDeploys
import F1r3fly.Casper.SynchronyConstraintChecker
import F1r3fly.Casper.Finality.FinalizedBlock
import F1r3fly.Casper.Rholang.ReplayedCost
import F1r3fly.Rholang.Accounting.StorageRefunds
import F1r3fly.Casper.Rholang.DeployPayments
import F1r3fly.Models.WireFormat
import F1r3fly.Casper.Engine.BlockDownload
import F1r3fly.RSpace.Merger.CombinedLogs
import F1r3fly.Comm.Discovery.PeerTable
import F1r3fly.Rholang.Slices
import F1r3fly.Rholang.Peeks
