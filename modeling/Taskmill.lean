import Taskmill.Acyclicity
import Taskmill.Blocked.Operations
import Taskmill.Blocked.Runs
import Taskmill.Cascade
import Taskmill.Dangling.System
import Taskmill.Dangling.Runs
import Taskmill.Coalescing
import Taskmill.Completion
import Taskmill.Stale
import Taskmill.Batch
import Taskmill.Untimed
import Taskmill.BatchRefinement
import Taskmill.Resolution
import Taskmill.Fates
import Taskmill.Rows
import Taskmill.PauseBits
import Taskmill.Dispatchers
import Taskmill.Scheduler.Memory
import Taskmill.Scheduler.Bits
import Taskmill.Scheduler.Claims
import Taskmill.Scheduler.Control
import Taskmill.Scheduler.PreemptionFlag
import Taskmill.Scheduler.Groups
import Taskmill.Scheduler.GroupPause
import Taskmill.Scheduler.GroupResume
import Taskmill.Scheduler.ModulePause
import Taskmill.Scheduler.Preemption
import Taskmill.Survival
import Taskmill.Scheduler.Parents
import Taskmill.Scheduler.WaitingParents
import Taskmill.Scheduler.FinalizeOnce
import Taskmill.Scheduler.FastDispatch
import Taskmill.Scheduler.Admission
import Taskmill.Scheduler.SlowDispatch
import Taskmill.Scheduler.Spawn
import Taskmill.Scheduler.Tokens
import Taskmill.Scheduler.Entries
import Taskmill.Scheduler.Slots
import Taskmill.Scheduler.Leaks
import Taskmill.Scheduler.SubmitLeader
import Taskmill.WellFormed
import Taskmill.PauseSets
import Taskmill.Requeue
import Taskmill.Logs
import Taskmill.Scheduler.Retries
import Taskmill.Scheduler.RetryCounts
import Taskmill.Scheduler.RetryRuns
import Taskmill.Tags
import Taskmill.Flags
import Taskmill.DedupKeys
import Taskmill.RecurringPause
import Taskmill.PauseClock
import Taskmill.ChildSpawning
import Taskmill.Scheduler.Cancel
import Taskmill.Scheduler.Descendants
import Taskmill.Scheduler.ModuleScope
import Taskmill.Scheduler.RunLoop
import Taskmill.Scheduler.Limits
import Taskmill.Scheduler.Fair
import Taskmill.Scheduler.Allocation
import Taskmill.Apportion.Deal
import Taskmill.Scheduler.WorkConserving
import Taskmill.Scheduler.Proportion
import Taskmill.Scheduler.DemandOrder
import Taskmill.Scheduler.Caps
import Taskmill.BatchSubmission
import Taskmill.FailureClosure
import Taskmill.DispatchExpiry
import Taskmill.Supersede
import Taskmill.Recovery
import Taskmill.DispatchQueries
import Taskmill.Metering.Bucket
import Taskmill.Scheduler.RateLimit
import Taskmill.Scheduler.TokenAccounting
import Taskmill.Scheduler.FairDispatch
import Taskmill.Scheduler.Finalizers
import Taskmill.ChildDeadlines
import Taskmill.FirstAttempt
import Taskmill.Scheduler.ChildFailures
import Taskmill.Recurring
import Taskmill.Endings
import Taskmill.Scheduler.TagPrefixes
import Taskmill.Metering.Rounding
import Taskmill.RetryDelays
import Taskmill.Retention
import Taskmill.Origins
import Taskmill.RecomputedKeys
import Taskmill.StoredDurations
import Taskmill.Scheduler.DispatchAgreement
import Taskmill.Starvation
import Taskmill.TagQueries
import Taskmill.Scheduler.BulkCancel
import Taskmill.Scheduler.TimedPause
import Taskmill.StatusDiagram
