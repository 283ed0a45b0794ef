import Minicask.Raft.Progress
import Minicask.Raft.SnapshotPieces
import Minicask.Raft.MangledFrames
import Minicask.Raft.ForwardedReads
import Minicask.Replicated.Fold
import Minicask.Raft.StorageCrashes
import Minicask.Raft.RefusedAppends
import Minicask.Raft.FlippedBits
import Minicask.Store.CutCompactions
import Minicask.Store.FailedWrites
import Minicask.Raft.FrameSizes
import Minicask.Store.DamagedRecords
import Minicask.Store.HintedOpens
import Minicask.Store.SoundHints
import Minicask.Store.SoundOpens
import Minicask.Store.HintHistories
import Minicask.ClusterNode.Proposals
import Minicask.Server.Resp
import Minicask.Server.RoundTrips
import Minicask.Server.Dispatch
import Minicask.Server.Replies
import Minicask.Raft.PreVotes
import Minicask.ClusterNode.AddressBook
import Minicask.ClusterNode.Senders
import Minicask.Server.Bound
import Minicask.Totals
import Minicask.Store.Space
import Minicask.Replicated.Restarts
import Minicask.Patterns
import Minicask.Server.Globs
import Minicask.Rankings
import Minicask.Raft.CommitPoint
import Minicask.Store.RecordLengths
import Minicask.Replicated.FlippedRecords
import Minicask.Server.CutCommands
import Minicask.Store.FrozenViews
import Minicask.Replicated.CanonicalSnapshots
import Minicask.Replicated.RestoredExactly
import Minicask.Store.LongRecords
import Minicask.Raft.KnownTerms
import Minicask.Raft.Rewinding
import Minicask.Raft.Replacing
import Minicask.ClusterNode.Answers
import Minicask.CrcBits
import Minicask.NumberedLogs
import Minicask.Raft.Batches
import Minicask.Store.Tiles
import Minicask.Replicated.Durability
import Minicask.Replicated.Recovery
import Minicask.Store.FailedCompactions
import Minicask.Raft.Validity
import Minicask.Replicated.AppliedIndex
import Minicask.Replicated.FleetReads
import Minicask.Paces
import Minicask.Server.Acknowledged
import Minicask.ClusterNode.Commands
import Minicask.ClusterNode.Linearizable
import Minicask.ClusterNode.OneKeyspace
import Minicask.Raft.Questions
import Minicask.Replicated.NumberedReads
