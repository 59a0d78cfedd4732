import Lmcas.Lib.Iteration
import Lmcas.Lib.CString
import Lmcas.Lib.Getopt
import Lmcas.Lib.GetoptEnd
import Lmcas.Lib.GetoptCalls
import Lmcas.Lib.OptionLoop
import Lmcas.Lib.GetoptOrder
import Lmcas.Lib.OrderedLoop
import Lmcas.Lib.OrderedNeck
import Lmcas.Lib.TwoRuns
import Lmcas.Lib.Neck
import Lmcas.Lib.NeckLoop
import Lmcas.Lib.Fallible
import Lmcas.System
import Lmcas.Echo
import Lmcas.Kill
import Lmcas.KillSignals
import Lmcas.KillSpecialise
import Lmcas.Realpath
import Lmcas.Date
import Lmcas.DateSpecialise
import Lmcas.Benchmark
import Lmcas.Pipeline
import Lmcas.UniqLines
import Lmcas.Uniq
import Lmcas.SortKeys
import Lmcas.SortTables
import Lmcas.Sort
import Lmcas.SortSpecialise
import Lmcas.SortWorlds
import Lmcas.Wc
import Lmcas.Id
import Lmcas.Du
import Lmcas.Configuration
import Lmcas.EchoSpecialise
import Lmcas.Head
import Lmcas.Fmt
import Lmcas.Fold
import Lmcas.ObsoleteOptions
import Lmcas.Lib.PyString
import Lmcas.Measure
import Lmcas.MeasureReport
import Lmcas.Lib.Shell
import Lmcas.Parameters
import Lmcas.Verification
import Lmcas.Readelf
import Lmcas.ReadelfNeck
import Lmcas.Lib.Segment
import Lmcas.Lib.StableSort
import Lmcas.SortLines
import Lmcas.SortThreads
import Lmcas.SortProgress
import Lmcas.SortMerge
import Lmcas.Lib.Lines
import Lmcas.SortBuffer
import Lmcas.SortFiles
import Lmcas.SortCheck
import Lmcas.Lib.Comparison
import Lmcas.SortFields
import Lmcas.SortCompare
import Lmcas.SortMonths
import Lmcas.SortRun
import Lmcas.Lib.Decoding
import Lmcas.Basenc
import Lmcas.BasencStream
import Lmcas.BasencRoundTrip
import Lmcas.HeadBytes
import Lmcas.HeadFile
import Lmcas.Comm
import Lmcas.WcCounts
