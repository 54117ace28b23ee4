import TestInfra.Lib.Dict
import TestInfra.Lib.Crc32
import TestInfra.Lib.DrawLoop
import TestInfra.Lib.Fuel
import TestInfra.Lib.InOrder
import TestInfra.Lib.Interleave
import TestInfra.Lib.Json
import TestInfra.Lib.MixedRadix
import TestInfra.Lib.PyText
import TestInfra.Lib.PyInt
import TestInfra.Lib.JsonText
import TestInfra.Lib.JsonPath
import TestInfra.Lib.Raises
import TestInfra.Lib.Regex
import TestInfra.Lib.Socket
import TestInfra.Lib.SplitOn
import TestInfra.Lib.Struct
import TestInfra.Lib.TwoQueue
import TestInfra.Lib.Utf8
import TestInfra.Lib.Like
import TestInfra.Lib.Percent
import TestInfra.KVStore.Partition
import TestInfra.KVStore.KeyStatus
import TestInfra.KVStore.Merge
import TestInfra.KVStore.Basic
import TestInfra.KVStore.Collections
import TestInfra.KVStore.Locking
import TestInfra.KVStore.View
import TestInfra.KVStore.Eager
import TestInfra.KVStore.Expired
import TestInfra.Tasks.Future
import TestInfra.Tasks.Sticky
import TestInfra.Tasks.Values
import TestInfra.Tasks.Generator
import TestInfra.Tasks.Loading
import TestInfra.Tasks.Release
import TestInfra.Tasks.Throughput
import TestInfra.Tasks.ThroughputAgree
import TestInfra.Tasks.ThroughputFailure
import TestInfra.Tasks.Validate
import TestInfra.Tasks.ValidateRelease
import TestInfra.Tasks.ValidateRun
import TestInfra.Tasks.BatchedValidateRun
import TestInfra.Tasks.Unlocked
import TestInfra.Tasks.ErrorAtomic
import TestInfra.Tasks.Workload
import TestInfra.Tasks.TaskManager
import TestInfra.Tasks.TaskManagerQueues
import TestInfra.Tasks.TaskManagerGraceful
import TestInfra.Tasks.TaskManagerForced
import TestInfra.Wire.Request
import TestInfra.Wire.CollectionId
import TestInfra.Wire.CollectionKey
import TestInfra.Wire.Receive
import TestInfra.Wire.GetMulti
import TestInfra.Wire.KeyHash
import TestInfra.Wire.SetMulti
import TestInfra.DocGen.DocumentGenerator
import TestInfra.DocGen.Loaders
import TestInfra.DynVm.Reserved
import TestInfra.DynVm.GetServers
import TestInfra.DynVm.Reservations
import TestInfra.DynVm.Admission
import TestInfra.DynVm.Xen
import TestInfra.DynVm.Names
import TestInfra.DynVm.Orphans
import TestInfra.DynVm.Footprint
import TestInfra.DynVm.Expiry
import TestInfra.ServerManager.GetServers
import TestInfra.ServerManager.ReleaseServers
import TestInfra.ServerManager.Dockers
import TestInfra.Dispatcher.Main
import TestInfra.Dispatcher.Steps
import TestInfra.Dispatcher.Launched
import TestInfra.Dispatcher.Accounting
import TestInfra.Dispatcher.Running
import TestInfra.Dispatcher.MixedBuild
import TestInfra.Dispatcher.PopulateIni
import TestInfra.Dispatcher.JobParams
import TestInfra.Rerun.FindRerunJob
import TestInfra.Rerun.MergeXmls
import TestInfra.Rerun.ShouldDispatch
import TestInfra.JenkinsLog.Parser
import TestInfra.JenkinsLog.Chunks
import TestInfra.JenkinsLog.Runs
import TestInfra.JenkinsLog.RunAnalyzer
import TestInfra.Reports.Merge
import TestInfra.Reports.FilterFields
import TestInfra.TestInput.Params
import TestInfra.Subdoc.Paths
import TestInfra.Subdoc.Operations
import TestInfra.Subdoc.Sequence
import TestInfra.Subdoc.Concurrent
import TestInfra.LoadRunner.Indexes
import TestInfra.LoadRunner.LoadPlan
import TestInfra.LoadRunner.LoadThread
import TestInfra.LoadRunner.Bookkeeping
import TestInfra.LoadRunner.Faults
import TestInfra.LoadRunner.Agree
import TestInfra.SystemEvents.EventHelper
import TestInfra.SystemEvents.Validate
import TestInfra.Backup.Info
import TestInfra.SystemEvents.Duplicates
import TestInfra.SystemEvents.Ordered
import TestInfra.SystemEvents.Parallel
import TestInfra.SystemEvents.Unordered
import TestInfra.Lib.FirstBest
import TestInfra.DataAnalysis.Csv
import TestInfra.DataAnalysis.Compare
import TestInfra.TestInput.Groups
import TestInfra.TestInput.Ini
import TestInfra.TestInput.Precedence
import TestInfra.Backup.Lines
import TestInfra.Vector.Compare
import TestInfra.BucketHelper.KeysExist
import TestInfra.QueryHelper.SetOperators
import TestInfra.QueryHelper.RewriteKeeps
import TestInfra.QueryHelper.InLists
import TestInfra.DocGen.Values
import TestInfra.Lib.Find
import TestInfra.Lib.PyList
import TestInfra.Lib.Replace
import TestInfra.QueryHelper.CharField
import TestInfra.QueryHelper.Aliases
import TestInfra.Stats.Percentile
import TestInfra.Stats.OpsStats
import TestInfra.Lib.StableSort
import TestInfra.Lib.Cut
import TestInfra.Tuq.OrderClause
import TestInfra.Tuq.OrderResults
import TestInfra.Tuq.OrderQuery
import TestInfra.Tuq.Directions
import TestInfra.Lib.Places
import TestInfra.Tuq.TypeArgs
import TestInfra.Tuq.GenerateQuery
import TestInfra.Lib.Parens
import TestInfra.QueryHelper.Position
import TestInfra.QueryHelper.PositionCalls
import TestInfra.Lib.Runs
import TestInfra.ServerManager.Calls
import TestInfra.ServerManager.Exclusive
import TestInfra.Tasks.QuietBatch
import TestInfra.Tasks.LoadThenValidate
import TestInfra.Wire.Session
import TestInfra.Wire.Stats
import TestInfra.Lib.Grouping
import TestInfra.Reports.XUnit
import TestInfra.Reports.TestRunner
import TestInfra.Reports.Summary
