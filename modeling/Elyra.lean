import Elyra.Framework.Asking
import Elyra.Framework.Backlog
import Elyra.Framework.Calendar
import Elyra.Framework.Collected
import Elyra.Framework.Dict
import Elyra.Framework.Digits
import Elyra.Framework.Effects
import Elyra.Framework.Faults
import Elyra.Framework.FirstMatch
import Elyra.Framework.Framed
import Elyra.Framework.Gaps
import Elyra.Framework.Groups
import Elyra.Framework.Interference
import Elyra.Framework.IsoText
import Elyra.Framework.Json.Lines
import Elyra.Framework.Json.Parse
import Elyra.Framework.Json.RoundTrip
import Elyra.Framework.Json.Tape
import Elyra.Framework.Json.Torn
import Elyra.Framework.Lines
import Elyra.Framework.Linked
import Elyra.Framework.Outbox
import Elyra.Framework.Packing
import Elyra.Framework.Program
import Elyra.Framework.Python
import Elyra.Framework.Quota
import Elyra.Framework.Replace
import Elyra.Framework.Run
import Elyra.Framework.Sorted
import Elyra.Framework.Text
import Elyra.Framework.TopRanked
import Elyra.Framework.TwoOrders
import Elyra.Goals.Ledger
import Elyra.Goals.LedgerKept
import Elyra.Goals.Store
import Elyra.Identity.Grants
import Elyra.Identity.GrantsConserved
import Elyra.Identity.GrantsRun
import Elyra.Identity.ProfileHeld
import Elyra.Identity.ProfileKept
import Elyra.Identity.ProfileStore
import Elyra.Instrument.FinalizeTotal
import Elyra.Instrument.GrokBuild
import Elyra.Instrument.MeteredOnce
import Elyra.Instrument.Metering
import Elyra.Instrument.Reaper
import Elyra.Instrument.Result
import Elyra.Instrument.UsageBridge
import Elyra.Ladder.CallBooks
import Elyra.Ladder.CallsCounted
import Elyra.Ladder.Cascade
import Elyra.Ladder.ClosedHours
import Elyra.Ladder.GapHonesty
import Elyra.Ladder.GapSpans
import Elyra.Ladder.Rebuild
import Elyra.Ladder.RebuildBudget
import Elyra.Ladder.Refresh
import Elyra.Ladder.RefreshSpec
import Elyra.Ladder.SourcePack
import Elyra.Ladder.Summary
import Elyra.Ladder.WindowTiling
import Elyra.Llm.FreshAccess
import Elyra.Llm.FreshAccessTotal
import Elyra.Llm.HygieneHolds
import Elyra.Llm.OAuthRefresh
import Elyra.Llm.ReasoningHygiene
import Elyra.Llm.Usage
import Elyra.Llm.UsageLedger
import Elyra.Llm.UsageLoad
import Elyra.Loop.Blocks
import Elyra.Loop.DoLoop
import Elyra.Loop.FreeText
import Elyra.Loop.Messages
import Elyra.Loop.OuterMeal
import Elyra.Loop.Policies
import Elyra.Loop.ToolChain
import Elyra.Loop.ToolResults
import Elyra.Media.Bindings
import Elyra.Media.Store
import Elyra.Memory.Atoms
import Elyra.Memory.BackstopItem
import Elyra.Memory.BackstopRun
import Elyra.Memory.EdgeBackends
import Elyra.Memory.EdgeBudget
import Elyra.Memory.EdgeBudgetHolds
import Elyra.Memory.EdgeIndex
import Elyra.Memory.EdgeLog
import Elyra.Memory.EdgeRetarget
import Elyra.Memory.EdgeStores
import Elyra.Memory.Edges
import Elyra.Memory.EmbedderGate
import Elyra.Memory.EncodeDrainer
import Elyra.Memory.EncodeOwner
import Elyra.Memory.EncodeQueue
import Elyra.Memory.EncodeRace
import Elyra.Memory.EpisodicFits
import Elyra.Memory.EpisodicItems
import Elyra.Memory.EpisodicKept
import Elyra.Memory.EpisodicSelect
import Elyra.Memory.EpisodicSelected
import Elyra.Memory.FailedPut
import Elyra.Memory.FailedPutRun
import Elyra.Memory.FailingPuts
import Elyra.Memory.GlassTail
import Elyra.Memory.GraphNeighbors
import Elyra.Memory.KeepTray
import Elyra.Memory.KeepTrayHolds
import Elyra.Memory.KeepTrayRun
import Elyra.Memory.LanceMigration
import Elyra.Memory.LanceSearch
import Elyra.Memory.LanceStore
import Elyra.Memory.LanceVectors
import Elyra.Memory.LanceVectorsRun
import Elyra.Memory.MealTokens
import Elyra.Memory.MemoryStore
import Elyra.Memory.MigrationSafe
import Elyra.Memory.NeighborsListed
import Elyra.Memory.NeighborsSound
import Elyra.Memory.Parcel
import Elyra.Memory.ParcelFailure
import Elyra.Memory.ParcelFamily
import Elyra.Memory.ParcelRoundTrip
import Elyra.Memory.PendingBackstop
import Elyra.Memory.Promote
import Elyra.Memory.PromoteBlind
import Elyra.Memory.PutSpec
import Elyra.Memory.RangeExact
import Elyra.Memory.RangeQueries
import Elyra.Memory.RecentBuffer
import Elyra.Memory.RetargetBooks
import Elyra.Memory.RetargetLog
import Elyra.Memory.StoreCalls
import Elyra.Memory.StoreCores
import Elyra.Memory.TipIndex
import Elyra.Memory.TipsExact
import Elyra.Memory.Traverse
import Elyra.Memory.TraverseBounds
import Elyra.Memory.VectorSearch
import Elyra.Memory.VectorSearchExact
import Elyra.Memory.VectorSearchRun
import Elyra.Memory.VectorSearchSpec
import Elyra.Memory.Weave
import Elyra.Memory.Windows
import Elyra.Moment.Durable
import Elyra.Moment.Lifecycle
import Elyra.Moment.Refines
import Elyra.Moment.Store
import Elyra.Presence.BandOrder
import Elyra.Presence.ContinueBound
import Elyra.Presence.ContinueChain
import Elyra.Presence.Continuous
import Elyra.Presence.CrashRecovery
import Elyra.Presence.ExactlyOnce
import Elyra.Presence.InputDelivery
import Elyra.Presence.Invariant
import Elyra.Presence.Lifecycle
import Elyra.Presence.Moves
import Elyra.Presence.PendingCount
import Elyra.Presence.PoisonFold
import Elyra.Presence.Priority
import Elyra.Presence.Queue
import Elyra.Presence.Refinement
import Elyra.Presence.TimerEffects
import Elyra.Presence.TimerFiles
import Elyra.Presence.TimerFiring
import Elyra.Presence.TimerRows
import Elyra.Presence.TimerService
import Elyra.Presence.TimerWrites
import Elyra.Presence.TimersOnce
import Elyra.Presence.TornAppend
import Elyra.Presence.UserInput
import Elyra.Presence.WaitReplies
import Elyra.Presence.WaitResolved
import Elyra.Presence.WaitRun
import Elyra.Presence.Worker
import Elyra.Sandbox.Ensure
import Elyra.Sandbox.EnsureHolds
import Elyra.Sandbox.EnsureRuns
import Elyra.Sandbox.Isolation
import Elyra.Sandbox.Lifecycle
import Elyra.Sandbox.SearchReplace
import Elyra.Secrets.Isolation
import Elyra.Secrets.Redaction
import Elyra.Secrets.Store
import Elyra.Skills.Frontmatter
import Elyra.Skills.Packages
import Elyra.Skills.RoundTrip
import Elyra.Tools.Curated
import Elyra.Tools.CuratedText
import Elyra.Tools.KeptLines
import Elyra.Tools.PackageHash
import Elyra.Tools.PipUpdate
import Elyra.Tools.RenameSwap
import Elyra.Tools.Requirements
import Elyra.Tools.Verify
