import Rindexer.Lib.Transition
import Rindexer.Reorg.Window
import Rindexer.Database.Rollback
import Rindexer.Manifest
import Rindexer.Reorg.Task
import Rindexer.Reorg.Persistence
import Rindexer.Reorg.Repair
import Rindexer.Reorg.Coordinator
import Rindexer.Reorg.Detection
import Rindexer.Reorg.Runs
import Rindexer.Database.Cursors
import Rindexer.Indexer.Start
import Rindexer.Indexer.Coverage
import Rindexer.Indexer.SharedCoordinator
import Rindexer.Indexer.Stream
import Rindexer.Indexer.InFlight
import Rindexer.Indexer.Recovery
import Rindexer.Reorg.Isolation
import Rindexer.Reorg.Effect
import Rindexer.Reorg.Restart
import Rindexer.Indexer.Historical
import Rindexer.Indexer.ReorderBuffer
import Rindexer.Indexer.Parallel
import Rindexer.Indexer.Live
import Rindexer.Indexer.NativeTransfer
import Rindexer.Tables.Rows
import Rindexer.Tables.Processing
import Rindexer.Tables.Checkpoint
import Rindexer.Indexer.Callbacks
import Rindexer.Tables.Statements
import Rindexer.Tables.Accumulate
import Rindexer.Lib.Grid
import Rindexer.Tables.Effects
import Rindexer.Tables.Coalescing
import Rindexer.Tables.Commuting
import Rindexer.Tables.Batching
import Rindexer.Tables.Transparency
import Rindexer.Filter.Ast
import Rindexer.Filter.Parsing
import Rindexer.Filter.Operands
import Rindexer.Filter.Completeness
import Rindexer.Filter.RoundTrip
import Rindexer.Indexer.Dependency
import Rindexer.Database.Clickhouse
import Rindexer.Indexer.DetailKey
import Rindexer.Indexer.DetailLogs
import Rindexer.Database.Names
import Rindexer.Database.TableNames
import Rindexer.Database.NameAgreement
import Rindexer.Indexer.LastSynced
import Rindexer.Indexer.SyncAgreement
import Rindexer.Streams.Clients
import Rindexer.Streams.MessageId
import Rindexer.Streams.Separation
import Rindexer.Streams.Buffering
import Rindexer.Streams.Finality
import Rindexer.Indexer.Handoff
import Rindexer.Indexer.Registration
import Rindexer.Indexer.Attachment
import Rindexer.Indexer.HandOut
import Rindexer.Indexer.Protection
import Rindexer.Indexer.Layers
import Rindexer.Indexer.LayerOrder
import Rindexer.Indexer.LayerDelivery
import Rindexer.Factory.Recording
import Rindexer.Factory.Cache
import Rindexer.Factory.Children
import Rindexer.Tables.CallCache
import Rindexer.Indexer.CronSync
import Rindexer.Indexer.LogProvider
import Rindexer.Indexer.Hypersync
import Rindexer.Database.CreateTable
import Rindexer.Manifest.Validation
import Rindexer.Tables.Constraints
import Rindexer.Manifest.Contract
import Rindexer.Manifest.Signature
import Rindexer.Database.Ddl
import Rindexer.Database.EventTables
import Rindexer.Database.Setup
import Rindexer.Database.DropEachRun
import Rindexer.Indexer.Decoding
import Rindexer.Database.KeyOrder
import Rindexer.Database.SchemaSync
import Rindexer.Database.ColumnTypes
import Rindexer.Database.Fixpoint
import Rindexer.Database.ManifestSync
import Rindexer.Indexer.Announcements
import Rindexer.Reorg.Journal
import Rindexer.Reorg.JournalKeys
import Rindexer.Filter.Evaluation
import Rindexer.Filter.Readers
import Rindexer.Filter.Numbers
import Rindexer.Filter.TextEquality
import Rindexer.Filter.Legacy
import Rindexer.Filter.LegacyMeaning
import Rindexer.Indexer.Dispatching
import Rindexer.Database.BulkInsert
import Rindexer.Reorg.ForkPoint
import Rindexer.Reorg.Spans
import Rindexer.Indexer.Merging
import Rindexer.Indexer.TopicUnion
import Rindexer.Indexer.BloomSkip
import Rindexer.Tables.SequenceOrder
import Rindexer.Lib.Splitter
import Rindexer.Tables.CallText
import Rindexer.Tables.CallScans
import Rindexer.Tables.ReturnFields
import Rindexer.Tables.CallSyntax
import Rindexer.Tables.CallPatterns
import Rindexer.Tables.ViewCallText
import Rindexer.Tables.CallReading
import Rindexer.Extraction.Values
import Rindexer.Extraction.Wrappers
import Rindexer.Extraction.Arithmetic
import Rindexer.Lib.Reading
import Rindexer.Extraction.Columns
import Rindexer.Extraction.Templates
import Rindexer.Extraction.Paths
import Rindexer.Extraction.Iteration
import Rindexer.Extraction.PathAgreement
import Rindexer.ViewCalls.Execution
import Rindexer.ViewCalls.Prefetch
import Rindexer.Blockclock.Encoder
import Rindexer.Blockclock.Lookup
import Rindexer.Blockclock.Pointwise
import Rindexer.Blockclock.RoundTrip
import Rindexer.Blockclock.Attaching
import Rindexer.Blockclock.BatchOrder
import Rindexer.Lib.Bytes
import Rindexer.SqlTypes.Numeric
import Rindexer.SqlTypes.Values
import Rindexer.SqlTypes.Wrappers
import Rindexer.SqlTypes.Encoding
import Rindexer.SqlTypes.TypeTexts
import Rindexer.SqlTypes.Storing
import Rindexer.SqlTypes.Reading
import Rindexer.SqlTypes.Integers
import Rindexer.SqlTypes.Leaves
import Rindexer.SqlTypes.Flattening
import Rindexer.SqlTypes.Conversion
import Rindexer.SqlTypes.RawValues
import Rindexer.SqlTypes.Rows
import Rindexer.SqlTypes.RenderedRows
import Rindexer.SqlTypes.JsonRows
import Rindexer.SqlTypes.TupleArrays
import Rindexer.SqlTypes.Arrays
import Rindexer.Extraction.Exactness
import Rindexer.Lib.Grouping
import Rindexer.Streams.Chunking
import Rindexer.HotReload.Diff
import Rindexer.Manifest.ParamTypes
import Rindexer.SqlTypes.ParameterPaths
import Rindexer.HotReload.Completeness
import Rindexer.HotReload.Missed
import Rindexer.Indexer.RangeProgress
import Rindexer.Lib.Highest
import Rindexer.Reorg.WindowSize
import Rindexer.Indexer.LogParsing
import Rindexer.AdaptiveConcurrency
import Rindexer.Database.RelationshipRuns
import Rindexer.Indexer.Dispatcher
import Rindexer.Indexer.FetchDelivery
