import MiniSql.Text
import MiniSql.JsonQuote
import MiniSql.Lib.Separated
import MiniSql.Lib.Threads
import MiniSql.Lib.Prog
import MiniSql.Lib.Sections
import MiniSql.Lib.Ring
import MiniSql.Lib.Block
import MiniSql.Lib.History
import MiniSql.Lib.ReleaseAcquire
import MiniSql.Lib.Json
import MiniSql.Lib.Scan
import MiniSql.Lib.LinkedCells
import MiniSql.Index.BPTree
import MiniSql.Index.Invariant
import MiniSql.Index.FiniteMap
import MiniSql.Index.LeafChain
import MiniSql.Index.NodeFailures
import MiniSql.Index.FailedInsert
import MiniSql.Index.Shape
import MiniSql.Storage.Csv
import MiniSql.Storage.Codec
import MiniSql.Storage.TableFile
import MiniSql.Storage.Trim
import MiniSql.Storage.NumberText
import MiniSql.Storage.CutLine
import MiniSql.Storage.OpenRead
import MiniSql.Storage.AppendedRow
import MiniSql.Storage.FaultyFile
import MiniSql.Storage.Schema
import MiniSql.Storage.SchemaLines
import MiniSql.Storage.SchemaText
import MiniSql.Index.DbContext
import MiniSql.Index.TableInvariant
import MiniSql.Index.Reload
import MiniSql.Query.Parser
import MiniSql.Query.Tokens
import MiniSql.Query.Grammar
import MiniSql.Query.Spacing
import MiniSql.Query.Executor
import MiniSql.Query.Reachable
import MiniSql.Query.PlainTable
import MiniSql.Query.KeyValues
import MiniSql.Query.Durability
import MiniSql.Query.Autoincrement
import MiniSql.Query.Restart
import MiniSql.Query.FaultyInsert
import MiniSql.Query.AllOrNothing
import MiniSql.Server.SqlService
import MiniSql.Server.RequestHandler
import MiniSql.Server.LockChoice
import MiniSql.Server.ClassifiedText
import MiniSql.Server.DbGuard
import MiniSql.Server.Work
import MiniSql.Server.WorkAlone
import MiniSql.Server.WorkShared
import MiniSql.Server.Requests
import MiniSql.Server.Workers
import MiniSql.Server.Serializable
import MiniSql.Server.FirstAccess
import MiniSql.Server.LoadsAlone
import MiniSql.Server.LoadRuns
import MiniSql.Server.JobQueue
import MiniSql.Server.QueueThreads
import MiniSql.Server.WakeUps
import MiniSql.Server.ThreadPool
import MiniSql.Server.JobLedger
import MiniSql.Server.ExactlyOnce
import MiniSql.Server.WriterPreference
import MiniSql.Server.WeakGuard
import MiniSql.Server.SelectAgreement
import MiniSql.Server.IndexedSelect
import MiniSql.Server.ResponseEffect
import MiniSql.Server.JsonPayload
import MiniSql.Server.JsonBuffer
import MiniSql.Server.HttpProtocol
import MiniSql.Server.SocketServer
import MiniSql.Server.Framing
import MiniSql.Server.ReceiveMemory
import MiniSql.Server.ReceiveBounds
import MiniSql.Server.ReadRuns
import MiniSql.Server.HeaderLength
import MiniSql.Server.DeclaredLength
import MiniSql.Server.ReceivePipeline
import MiniSql.Server.PacketBoundaries
import MiniSql.Server.OneResponse
import MiniSql.Server.Connections
import MiniSql.Query.Derivations
import MiniSql.Query.StatementText
import MiniSql.Runtime.Script
import MiniSql.Runtime.Scanning
import MiniSql.Runtime.StatementByStatement
import MiniSql.Query.Padding
import MiniSql.Runtime.Comments
import MiniSql.Query.ValuePosition
import MiniSql.Runtime.Parameters
import MiniSql.Lib.Fair
import MiniSql.Server.GuardProgress
import MiniSql.Lib.Cells
import MiniSql.Index.NodeHeap
import MiniSql.Index.NodeLeaf
import MiniSql.Server.WholeServer
import MiniSql.Index.NodeBranch
import MiniSql.Index.NodeRecursion
import MiniSql.Index.PointerTree
import MiniSql.Index.IndexRuns
import MiniSql.Lib.Isolation
import MiniSql.Query.TableIsolation
import MiniSql.Index.Depth
import MiniSql.Query.CanonicalText
import MiniSql.Server.Exchange
import MiniSql.Lib.Alloc
import MiniSql.Query.ParserMemory
import MiniSql.Query.ParsedMemory
import MiniSql.Storage.RowMemory
import MiniSql.Storage.SchemaMemory
import MiniSql.Storage.SchemaFileMemory
import MiniSql.Index.TableMemory
import MiniSql.Index.LoadDefined
import MiniSql.Query.SafeQueries
