import Saci.Consensus.StateMachine
import Saci.Consensus.Invariant
import Saci.Consensus.Refinement
import Saci.Consensus.Scan
import Saci.Consensus.Exclusivity
import Saci.Consensus.Claiming
import Saci.Consensus.Attempts
import Saci.Consensus.Checkpoints
import Saci.Consensus.Lease
import Saci.Consensus.Pending
import Saci.Consensus.Snapshot
import Saci.Consensus.Poison
import Saci.Consensus.Reopened
import Saci.Consensus.Transparency
import Saci.Consensus.Divergence
import Saci.Consensus.CrashReplay
import Saci.Core.Dataset
import Saci.Core.Ipc
import Saci.Distributed.Runner
import Saci.Distributed.Conclusion
import Saci.Distributed.Chain
import Saci.Consensus.Transport
import Saci.Consensus.SnapshotTransfer
import Saci.Consensus.SnapshotCodec
import Saci.Consensus.SnapshotRoundTrip
import Saci.Consensus.SnapshotPostcard
import Saci.Core.Scheduler
import Saci.Core.SchedulerTicks
import Saci.Core.Dag
import Saci.Core.Write
import Saci.Core.Execution
import Saci.Core.StagePlan
import Saci.Core.StageOrder
import Saci.Core.ApplyWriteSet
import Saci.Core.RowRanges
import Saci.Core.Answers
import Saci.Core.StageModes
import Saci.Core.StageWays
import Saci.Core.WindowedSystem
import Saci.Core.WindowFates
import Saci.Service.FlowConfig
import Saci.Service.Flow
import Saci.Service.FlowSearch
import Saci.Service.Windowing
import Saci.Connectors.Redb
import Saci.Connectors.RedbQueue
import Saci.Connectors.RedbQueueLaw
import Saci.Service.DeadLetter
import Saci.Service.DeadLetterQueue
import Saci.Service.DeadLetterConservation
import Saci.Service.DeadLetterFates
import Saci.Service.DeadLetterSchedule
import Saci.Service.Lifecycle
import Saci.Service.Supervisor
import Saci.Service.LifecycleAnswers
import Saci.Service.LifecycleStates
import Saci.Service.Validation
import Saci.Service.NodeTurns
import Saci.Service.Standalone
import Saci.Service.Stream
import Saci.Service.Rechunking
import Saci.Service.NodeRegistry
import Saci.Service.FinishedSources
import Saci.Service.FinishLaw
import Saci.Service.StreamFinish
import Saci.Service.ValidGraph
import Saci.Connectors.Kafka
import Saci.Connectors.KafkaDelivery
import Saci.Connectors.PostgresSink
import Saci.Connectors.PostgresSinkLaw
import Saci.Connectors.Pgoutput
import Saci.Connectors.PostgresLogical
import Saci.Connectors.PostgresLogicalDecode
import Saci.Connectors.PostgresLogicalSlot
import Saci.Connectors.PostgresTypes
import Saci.Connectors.PostgresLogicalProgress
import Saci.Connectors.PostgresCursor
import Saci.Connectors.PostgresCursorOutbox
import Saci.Connectors.Gtid
import Saci.Connectors.BinlogHistory
import Saci.Connectors.BinlogCycle
import Saci.Connectors.BinlogTimeline
import Saci.Core.WindowAtomicity
import Saci.Core.DatasetRows
import Saci.Core.WindowAccumulation
import Saci.Connectors.FileSink
import Saci.Connectors.FileSinkLaw
import Saci.Connectors.S3Sink
import Saci.Connectors.S3SinkLaw
import Saci.Connectors.MariadbEncode
import Saci.Connectors.MariadbSink
import Saci.Connectors.MariadbSinkLaw
import Saci.Connectors.MariadbDedupe
import Saci.Connectors.MariadbApply
import Saci.Connectors.NatsSource
import Saci.Connectors.NatsSourceLaw
import Saci.Sdk.GoArrowIpc
import Saci.Sdk.GoColumns
import Saci.Sdk.GoBounds
import Saci.Sdk.GoProcessor
import Saci.Connectors.KafkaCompaction
import Saci.Config.Substitution
import Saci.Service.WorkflowOrder
import Saci.Connectors.HttpFraming
import Saci.Connectors.HttpFramingLaw
import Saci.Core.WindowLateness
import Saci.Service.FlowReports
import Saci.Service.Healing
import Saci.Service.HealingLaw
import Saci.Core.DatasetCache
import Saci.Core.DatasetRepresentation
import Saci.Core.DatasetSteps
import Saci.Core.IpcReads
import Saci.Core.DatasetRuns
import Saci.Core.IpcRoundTrip
import Saci.Service.FlowDescent
import Saci.Core.Pipeline
import Saci.Core.PlanFreshness
import Saci.Core.SchedulerStages
import Saci.Core.WindowGeometry
import Saci.Core.WindowBounds
import Saci.Core.SessionChains
import Saci.Core.DatasetCompaction
import Saci.Core.DatasetForward
import Saci.Core.AccumulatorFrame
import Saci.Connectors.SaciWire
import Saci.Connectors.SaciWireLaw
import Saci.Config.Kdl
import Saci.Config.KdlPlaces
import Saci.Config.KdlLaw
import Saci.Core.RowTiling
import Saci.Consensus.SnapshotChecksum
import Saci.Core.SchemaFingerprint
import Saci.Core.AppendRange
import Saci.Core.WindowInstants
import Saci.Connectors.PgoutputLaw
import Saci.Core.KeyHash
import Saci.Connectors.TursoTypes
import Saci.Connectors.TursoDecimalLaw
import Saci.Connectors.PostgresNumeric
import Saci.Connectors.PostgresNumericLaw
import Saci.Connectors.GtidText
import Saci.Connectors.GtidMembers
import Saci.Connectors.GtidRoundTrip
import Saci.Connectors.GtidLaw
import Saci.Consensus.LogStore
import Saci.Connectors.SaciLink
import Saci.Connectors.SaciLinkLaw
import Saci.Consensus.PeerPool
