import Hpssix.Base.CText
import Hpssix.Base.Trace
import Hpssix.Base.Rel
import Hpssix.Base.Cursor
import Hpssix.Base.Lite
import Hpssix.Base.Fate
import Hpssix.Base.Txn
import Hpssix.Base.Forest
import Hpssix.Base.Doubling
import Hpssix.Base.Sql
import Hpssix.Base.SqlLexer
import Hpssix.Base.EscapeString
import Hpssix.Base.Select
import Hpssix.Base.Csv
import Hpssix.Base.Decimal
import Hpssix.Base.Pieces
import Hpssix.Base.Scanf
import Hpssix.Base.Reader
import Hpssix.Base.ScanFloat
import Hpssix.Base.Literal
import Hpssix.Base.SqlWhere
import Hpssix.Base.Double
import Hpssix.Base.Stores
import Hpssix.Base.Keyed
import Hpssix.Base.FileTree
import Hpssix.Workdata
import Hpssix.Extractor
import Hpssix.Mdb
import Hpssix.Hpss
import Hpssix.Db2Scan
import Hpssix.Scanner
import Hpssix.World
import Hpssix.Watermark
import Hpssix.DeletionWindow
import Hpssix.CopyStream
import Hpssix.Schema
import Hpssix.PathExport
import Hpssix.Builder
import Hpssix.Index
import Hpssix.PathFreshness
import Hpssix.TagFreshness
import Hpssix.BuilderRun
import Hpssix.SearchCond
import Hpssix.TagSearch
import Hpssix.Service
import Hpssix.Daemon
import Hpssix.RecordedRounds
import Hpssix.Alarm
import Hpssix.DataDir
import Hpssix.Replay
import Hpssix.PathBatches
import Hpssix.ColumnRanges
import Hpssix.FattrSearch
import Hpssix.ExtFilter
import Hpssix.XattrPipeline
import Hpssix.XattrCollect
import Hpssix.SearchStatement
import Hpssix.UserText
import Hpssix.TagKeys
import Hpssix.FileFilter
import Hpssix.CountSearch
import Hpssix.History
import Hpssix.RecordDurability
import Hpssix.DispatchErrors
import Hpssix.ExtractorRun
import Hpssix.KeyDictionary
import Hpssix.ScannerSurvival
import Hpssix.FattrLine
import Hpssix.ParseOp
import Hpssix.ParseDatetime
import Hpssix.NumericOperands
import Hpssix.FattrQuery
import Hpssix.SearchBuffers
import Hpssix.ExtfilterLoad
import Hpssix.TagList
import Hpssix.DoExtract
import Hpssix.MetaLookup
import Hpssix.Protocol
import Hpssix.RunCalls
import Hpssix.WorkerExclusion
import Hpssix.UndividedRounds
import Hpssix.ExtractorThreads
import Hpssix.Records
import Hpssix.AttrFreshness
import Hpssix.TagResult
import Hpssix.SearchResult
import Hpssix.MdbFile
import Hpssix.Pidfile
import Hpssix.RunOrder
import Hpssix.TagCommands
import Hpssix.WorkDirectories
import Hpssix.LiveRuns
import Hpssix.SysConf
import Hpssix.SearchMain
