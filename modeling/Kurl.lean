import Kurl.Lib.Table
import Kurl.Lib.HashMap
import Kurl.Lib.Sql
import Kurl.Lib.Machine
import Kurl.Lib.Simulation
import Kurl.Lib.Progress
import Kurl.Lib.Count
import Kurl.Lib.Int64
import Kurl.Lib.Calendar
import Kurl.Lib.Decimal
import Kurl.Lib.Command
import Kurl.Lib.RangeInclusive
import Kurl.Lib.Duration
import Kurl.Lib.Separators
import Kurl.Time
import Kurl.DateText
import Kurl.Wire
import Kurl.InstantText
import Kurl.Postgres
import Kurl.Common.Retry
import Kurl.Common.Backoff
import Kurl.Common.Connections
import Kurl.Common.DatabaseUrl
import Kurl.Common.Config
import Kurl.Core.Service
import Kurl.Core.CacheCoherence
import Kurl.Core.CacheExpiry
import Kurl.Core.Shutdown
import Kurl.Core.Progress
import Kurl.Core.CreateLink
import Kurl.Core.Handlers
import Kurl.Core.GeneratedCodes
import Kurl.Redis
import Kurl.RedisStats
import Kurl.Analytics.EventConsumer
import Kurl.Analytics.ExactlyOnce
import Kurl.Analytics.DrainPending
import Kurl.Analytics.RecordClickErrors
import Kurl.Analytics.Recorded
import Kurl.Analytics.Snapshot
import Kurl.Analytics.ParseDailyCounts
import Kurl.Analytics.MergeSnapshot
import Kurl.Analytics.MergeSpec
import Kurl.Analytics.MergeJoin
import Kurl.Analytics.MergeStep
import Kurl.Analytics.MergeAccount
import Kurl.Analytics.MergeWrapping
import Kurl.Analytics.MergeOutcome
import Kurl.Analytics.MergeLastClick
import Kurl.Analytics.MergeArrays
import Kurl.Analytics.CreateRace
import Kurl.Analytics.TwoMerges
import Kurl.Analytics.Persistence
import Kurl.Analytics.CaptureSnapshot
import Kurl.Analytics.FlushIsolation
import Kurl.Analytics.CaptureRecorded
import Kurl.Analytics.Spelling
import Kurl.Analytics.SpelledCapture
import Kurl.Analytics.EventOutcome
import Kurl.Analytics.FlushRetry
import Kurl.Analytics.Rehydrate
import Kurl.Analytics.Cleanup
import Kurl.Analytics.LinkStats
import Kurl.Analytics.StatsWindow
import Kurl.Analytics.Writer
import Kurl.Analytics.RunInner
import Kurl.Analytics.Instances
import Kurl.Analytics.OneWriter
import Kurl.Analytics.CountBounds
import Kurl.Analytics.FlushExact
import Kurl.Analytics.ConsumerShutdown
import Kurl.Analytics.StatsGrow
import Kurl.Analytics.TotalClicks
import Kurl.Analytics.RedisWipe
import Kurl.Analytics.LinkAccount
import Kurl.Analytics.LastClicked
import Kurl.Analytics.NewLinks
import Kurl.Gateway.CoreClient
import Kurl.Gateway.Freshness
import Kurl.Gateway.ClickEvents
import Kurl.Gateway.Progress
import Kurl.Gateway.Shutdown
import Kurl.Gateway.Create
import Kurl.Gateway.Expiration
import Kurl.Gateway.Stats
import Kurl.ClickFlow
import Kurl.CatchUp
import Kurl.Lib.Past
import Kurl.LinkFlow
import Kurl.RedirectAnswers
