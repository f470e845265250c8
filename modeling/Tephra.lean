import Tephra.LittleEndian
import Tephra.ByteImage
import Tephra.FrameChain
import Tephra.FallibleOps
import Tephra.Histories
import Tephra.RecordFraming
import Tephra.SegmentRecover
import Tephra.SegmentReader
import Tephra.SegmentIteration
import Tephra.SegmentWriter
import Tephra.BatchWriting
import Tephra.BatchRollback
import Tephra.BatchChain
import Tephra.CutBatch
import Tephra.WovenRecords
import Tephra.SegmentHeader
import Tephra.SegmentSet
import Tephra.LogShelves
import Tephra.LogAppending
import Tephra.LogRollover
import Tephra.Crc32
import Tephra.CrashHistory
import Tephra.FailedAppending
import Tephra.FaultHistory
import Tephra.RolloverHistory
import Tephra.AscendingLists
import Tephra.Positions
import Tephra.DenseIds
import Tephra.Events
import Tephra.IndexSearch
import Tephra.ChunkedColumns
import Tephra.ActiveTail
import Tephra.TailContents
import Tephra.Postings
import Tephra.SegmentSource
import Tephra.LogScan
import Tephra.ReadPlan
import Tephra.ReadOracle
import Tephra.PlannedReads
import Tephra.Subscriptions
import Tephra.Parties
import Tephra.SubscriberWakes
import Tephra.Semaphore
import Tephra.ReadPool
import Tephra.AppendBudget
import Tephra.EgressLanes
import Tephra.ClientRequests
import Tephra.WriteQueue
import Tephra.EventCodec
import Tephra.Protobuf
import Tephra.WireMessages
import Tephra.ReadResponses
import Tephra.IndexRecovery
import Tephra.SharedTail
import Tephra.SharedReads
import Tephra.RecordPeeking
import Tephra.SegmentScan
import Tephra.Sidecars
import Tephra.RecordArray
import Tephra.IndexHeader
import Tephra.SortedMaps
import Tephra.SealedIndex
import Tephra.ReadAnswers
import Tephra.SubscriptionMarkers
import Tephra.CancelTable
import Tephra.EventDecoding
import Tephra.WireVocabulary
import Tephra.FrameReading
import Tephra.FrameDelivery
import Tephra.ClientBudget
import Tephra.RoutedResponses
import Tephra.EmbeddedResults
import Tephra.EmbeddedShutdown
import Tephra.WrittenHistory
import Tephra.IndexSet
import Tephra.HighMarks
import Tephra.TagTips
import Tephra.IndexReopening
import Tephra.AppendConditions
import Tephra.FailingCalls
import Tephra.RewoundWriter
import Tephra.RecordParsing
import Tephra.LiveReading
import Tephra.OpenedLogs
import Tephra.AlteredSegments
import Tephra.ReverseScan
import Tephra.Pagination
import Tephra.SizedAppending
import Tephra.CommitRounds
import Tephra.UsableConfigs
import Tephra.CanonicalEvents
import Tephra.PostingRegions
import Tephra.IndexLayout
import Tephra.ReadEstimates
import Tephra.BlockingClient
import Tephra.BlockingRuns
import Tephra.ConnDeadlines
import Tephra.DeadlineTraces
import Tephra.ControlRuns
import Tephra.WriterContent
import Tephra.WriterSessions
import Tephra.HeaderPatches
import Tephra.HeaderReplacing
import Tephra.CommitSeam
import Tephra.AppendOutcomes
import Tephra.StagedConflicts
import Tephra.SnapshotAlignment
import Tephra.ReopenedReads
import Tephra.Leb128
import Tephra.TagWalk
import Tephra.Varints
import Tephra.SemaphoreThreads
import Tephra.ConditionalLogs
import Tephra.StoreAnswers
import Tephra.ClientDecisions
import Tephra.ServerLifecycle
import Tephra.Progress
import Tephra.TeardownEnds
import Tephra.StoreFiles
import Tephra.DurableStore
import Tephra.HelloGate
import Tephra.RemoteReads
import Tephra.RemoteSubscriptions
import Tephra.StoreReads
import Tephra.IndexFiles
import Tephra.Followers
import Tephra.AsciiText
import Tephra.FileNames
