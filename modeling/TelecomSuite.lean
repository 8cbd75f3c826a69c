import TelecomSuite.Lib.Transition
import TelecomSuite.Lib.Accounting
import TelecomSuite.Lib.Fallible
import TelecomSuite.Lib.FixedWidth
import TelecomSuite.Lib.Resumption
import TelecomSuite.Lib.Unwinding
import TelecomSuite.Lib.Ring
import TelecomSuite.Lib.LuaPattern
import TelecomSuite.Lib.TextSearch
import TelecomSuite.Lib.Quoted
import TelecomSuite.Lib.Buffers
import TelecomSuite.Lib.SelfDelimiting
import TelecomSuite.Lib.Linked
import TelecomSuite.Lib.Versions
import TelecomSuite.Lib.LeaderQueue
import TelecomSuite.Dagw.Message
import TelecomSuite.Dagw.ExecSql
import TelecomSuite.Dagw.Service
import TelecomSuite.Dagw.Routing
import TelecomSuite.Dagw.Frame
import TelecomSuite.Dagw.Responses
import TelecomSuite.Dagw.Stop
import TelecomSuite.Dagw.Handles
import TelecomSuite.Dagw.Startup
import TelecomSuite.Dagw.Reconnect
import TelecomSuite.Dagw.Connected
import TelecomSuite.Dagw.Trace
import TelecomSuite.Dagw.Retry
import TelecomSuite.Dagw.RowLimit
import TelecomSuite.Dagw.Results
import TelecomSuite.Dagw.View
import TelecomSuite.Dagw.Apart
import TelecomSuite.Dagw.HttpServer
import TelecomSuite.Dagw.FlowAnswers
import TelecomSuite.CallOut.Calendar
import TelecomSuite.CallOut.Script
import TelecomSuite.CallOut.Marks
import TelecomSuite.CallOut.Coverage
import TelecomSuite.CallOut.Loss
import TelecomSuite.CallOut.FileNames
import TelecomSuite.CallOut.Midnight
import TelecomSuite.Export.BillProcess
import TelecomSuite.Export.HandleLine
import TelecomSuite.Export.LuaExec
import TelecomSuite.Export.Delivery
import TelecomSuite.Export.FtpClient
import TelecomSuite.Export.Download
import TelecomSuite.Export.Rounds
import TelecomSuite.Export.Scan
import TelecomSuite.Convert.Config
import TelecomSuite.Convert.SqlText
import TelecomSuite.Convert.Split
import TelecomSuite.Convert.Literal
import TelecomSuite.Convert.Buffers
import TelecomSuite.Convert.Worker
import TelecomSuite.Convert.Database
import TelecomSuite.Convert.System
import TelecomSuite.Convert.Backup
import TelecomSuite.Convert.Completeness
import TelecomSuite.Convert.Batches
import TelecomSuite.Convert.Sessions
import TelecomSuite.Convert.Queue
import TelecomSuite.Convert.Peer
import TelecomSuite.Convert.Placement
import TelecomSuite.LevelDb.Coding
import TelecomSuite.LevelDb.Crc32c
import TelecomSuite.LevelDb.LogFormat
import TelecomSuite.LevelDb.LogReader
import TelecomSuite.LevelDb.LogContents
import TelecomSuite.LevelDb.LogRoundTrip
import TelecomSuite.LevelDb.SkipList
import TelecomSuite.LevelDb.DbFormat
import TelecomSuite.LevelDb.MemTable
import TelecomSuite.LevelDb.WriteBatch
import TelecomSuite.LevelDb.Recovery
import TelecomSuite.LevelDb.WriteQueue
import TelecomSuite.LevelDb.GroupCommit
import TelecomSuite.LevelDb.Grouped
import TelecomSuite.LevelDb.Committed
import TelecomSuite.LevelDb.Snapshots
import TelecomSuite.LevelDb.Progress
import TelecomSuite.LevelDb.LogFiles
import TelecomSuite.LevelDb.Durability
import TelecomSuite.Lib.Iterators
import TelecomSuite.LevelDb.Merger
import TelecomSuite.LevelDb.InternalIterator
import TelecomSuite.LevelDb.DBIter
import TelecomSuite.LevelDb.Iteration
