import Tabulark.Lib.Utf8
import Tabulark.Lib.Interleave
import Tabulark.Model
import Tabulark.Resource
import Tabulark.Cursor
import Tabulark.Csv.Growth
import Tabulark.Csv.StrictRead
import Tabulark.Arrow.Framing
import Tabulark.Arrow.Publication
import Tabulark.Arrow.FileRange
import Tabulark.Arrow.Runtime
import Tabulark.Excel.SparseReader
import Tabulark.Excel.Interleaved
import Tabulark.Source.HttpSnapshot
import Tabulark.View.Reads
import Tabulark.Engine.Convergence
import Tabulark.Engine.Isolation
import Tabulark.Engine.RangeCache
import Tabulark.Source.Broker
import Tabulark.Parquet.Coverage
import Tabulark.Parquet.HybridRleStream
import Tabulark.Parquet.CompactExact
import Tabulark.Csv.Accounting
import Tabulark.Parquet.PlanExact
import Tabulark.TypedExact
import Tabulark.Excel.IndexedExact
import Tabulark.Source.ReadLimiters
import Tabulark.Engine.Retention
import Tabulark.Engine.RpcOnce
import Tabulark.Excel.HandleRuns
import Tabulark.View.Selection
import Tabulark.View.AdaptiveReads
import Tabulark.View.SelectionPaint
import Tabulark.View.Ellipsis
import Tabulark.Preview.YamlExact
import Tabulark.Preview.TextSearch
import Tabulark.Preview.Engine
import Tabulark.Document.Ends
import Tabulark.Preview.ImageExact
import Tabulark.Engine.RangeAdmission
import Tabulark.Engine.OrphanEvents
import Tabulark.Arrow.FileOpen
import Tabulark.Parquet.Operations
import Tabulark.Resumable
import Tabulark.View.Reveal
import Tabulark.View.MoveActive
import Tabulark.Zstd.Bulk
import Tabulark.Zstd.Frame
import Tabulark.Source.SharedPermits
