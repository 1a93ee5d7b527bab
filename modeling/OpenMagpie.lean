import OpenMagpie.Auth.CliTokens
import OpenMagpie.Auth.Credentials
import OpenMagpie.Auth.DeviceSessions
import OpenMagpie.Auth.Tokens
import OpenMagpie.Bridge.Api
import OpenMagpie.Bridge.Server
import OpenMagpie.Bridge.Session
import OpenMagpie.Cli.ColumnPaths
import OpenMagpie.Cli.Columns
import OpenMagpie.Cli.Session
import OpenMagpie.Common.Locks
import OpenMagpie.Common.SafeHttp
import OpenMagpie.Common.Ssrf
import OpenMagpie.Common.Unions
import OpenMagpie.Engine.OpenAICompat
import OpenMagpie.Engine.OverBridge
import OpenMagpie.Engine.Prompts
import OpenMagpie.Feeds.Catchup
import OpenMagpie.Feeds.Connector
import OpenMagpie.Feeds.Containment
import OpenMagpie.Feeds.Counting
import OpenMagpie.Feeds.EventFilters
import OpenMagpie.Feeds.GitHub
import OpenMagpie.Feeds.HackerNews
import OpenMagpie.Feeds.ItemStreams
import OpenMagpie.Feeds.Items
import OpenMagpie.Feeds.Policy
import OpenMagpie.Feeds.PollRun
import OpenMagpie.Feeds.Polling
import OpenMagpie.Feeds.Radar
import OpenMagpie.Feeds.Reddit
import OpenMagpie.Feeds.RedditBatch
import OpenMagpie.Feeds.SourceSet
import OpenMagpie.Feeds.Ties
import OpenMagpie.Feeds.UrlBudget
import OpenMagpie.Feeds.WalkContainment
import OpenMagpie.Lib.Assoc
import OpenMagpie.Lib.Batched
import OpenMagpie.Lib.Codes
import OpenMagpie.Lib.Datetime
import OpenMagpie.Lib.Dumps
import OpenMagpie.Lib.Except
import OpenMagpie.Lib.Fence
import OpenMagpie.Lib.Fresh
import OpenMagpie.Lib.HeldSet
import OpenMagpie.Lib.Interleave
import OpenMagpie.Lib.Ipaddress
import OpenMagpie.Lib.Js
import OpenMagpie.Lib.JsAscii
import OpenMagpie.Lib.JsJson
import OpenMagpie.Lib.JsNumber
import OpenMagpie.Lib.JsRoundTrip
import OpenMagpie.Lib.JsUnits
import OpenMagpie.Lib.Json
import OpenMagpie.Lib.Keyset
import OpenMagpie.Lib.Newest
import OpenMagpie.Lib.Pager
import OpenMagpie.Lib.Projection
import OpenMagpie.Lib.Python
import OpenMagpie.Lib.Renumber
import OpenMagpie.Lib.Scroll
import OpenMagpie.Lib.Split
import OpenMagpie.Lib.Statements
import OpenMagpie.Lib.Table
import OpenMagpie.Lib.Text
import OpenMagpie.Lib.Trace
import OpenMagpie.Lib.Url
import OpenMagpie.Links.ClickStats
import OpenMagpie.Links.ShortLinks
import OpenMagpie.Mailer.Outbound
import OpenMagpie.Waitlist.Signups
import OpenMagpie.Watches.Actions
import OpenMagpie.Watches.Attempts
import OpenMagpie.Watches.Backfill
import OpenMagpie.Watches.BackfillPass
import OpenMagpie.Watches.Candidates
import OpenMagpie.Watches.Chain
import OpenMagpie.Watches.Closing
import OpenMagpie.Watches.Config
import OpenMagpie.Watches.Create
import OpenMagpie.Watches.Delete
import OpenMagpie.Watches.DeleteOnce
import OpenMagpie.Watches.Delivery
import OpenMagpie.Watches.Digest
import OpenMagpie.Watches.DigestQueue
import OpenMagpie.Watches.Dispatch
import OpenMagpie.Watches.Drain
import OpenMagpie.Watches.DrainFlush
import OpenMagpie.Watches.DrainPool
import OpenMagpie.Watches.Edit
import OpenMagpie.Watches.EditOrder
import OpenMagpie.Watches.EngineActions
import OpenMagpie.Watches.Export
import OpenMagpie.Watches.External
import OpenMagpie.Watches.Fencing
import OpenMagpie.Watches.Flush
import OpenMagpie.Watches.FlushAdvance
import OpenMagpie.Watches.FlushRun
import OpenMagpie.Watches.FlushTotal
import OpenMagpie.Watches.Kinds
import OpenMagpie.Watches.Lifecycle
import OpenMagpie.Watches.Models
import OpenMagpie.Watches.Orphan
import OpenMagpie.Watches.Owners
import OpenMagpie.Watches.Partition
import OpenMagpie.Watches.Pending
import OpenMagpie.Watches.Preview
import OpenMagpie.Watches.Provenance
import OpenMagpie.Watches.ReplaceChain
import OpenMagpie.Watches.RoundTrip
import OpenMagpie.Watches.Rows
import OpenMagpie.Watches.RunWindows
import OpenMagpie.Watches.RunWire
import OpenMagpie.Watches.Runs
import OpenMagpie.Watches.Secrets
import OpenMagpie.Watches.Service
import OpenMagpie.Watches.Settlement
import OpenMagpie.Watches.Slices
import OpenMagpie.Watches.Stale
import OpenMagpie.Watches.Successor
import OpenMagpie.Watches.System
import OpenMagpie.Watches.Targets
import OpenMagpie.Watches.Tenants
import OpenMagpie.Watches.Trigger
import OpenMagpie.Watches.Watermark
import OpenMagpie.Watches.Webhook
import OpenMagpie.Watches.WindowBounds
import OpenMagpie.Watches.WindowRows
import OpenMagpie.Watches.World
