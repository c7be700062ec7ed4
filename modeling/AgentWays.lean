import AgentWays.Lib.StepMachine
import AgentWays.Keepwarm.Basic
import AgentWays.Keepwarm.Step
import AgentWays.Keepwarm.StepSpec
import AgentWays.Keepwarm.WindowRuns
import AgentWays.Keepwarm.Config
import AgentWays.Keepwarm.Policy
import AgentWays.Keepwarm.PolicySpec
import AgentWays.Keepwarm.Bounded
import AgentWays.Keepwarm.WindowSpec
import AgentWays.Keepwarm.Stretch
import AgentWays.Keepwarm.PingSpec
import AgentWays.Keepwarm.OperatorWindow
import AgentWays.Keepwarm.Shared
import AgentWays.Lib.KeyMap
import AgentWays.Lib.Json
import AgentWays.Lib.TextSpec
import AgentWays.Lib.Cutoff
import AgentWays.Settings.Entries
import AgentWays.Settings.Merge
import AgentWays.Settings.Audit
import AgentWays.Settings.MergeSpec
import AgentWays.Settings.AuditSpec
import AgentWays.Settings.SelfAudit
import AgentWays.Settings.Withdraw
import AgentWays.Settings.Converge
import AgentWays.Attend.Signal
import AgentWays.Attend.SignalSpec
import AgentWays.Attend.ColdStart
import AgentWays.Attend.PlanSpec
import AgentWays.Attend.Drain
import AgentWays.Attend.DrainSpec
import AgentWays.Attend.DrainRuns
import AgentWays.Attend.StateFile
import AgentWays.Attend.StateFileSpec
import AgentWays.Attend.StateRuns
import AgentWays.Attend.Peers
import AgentWays.Attend.PeersSpec
import AgentWays.Attend.Tick
import AgentWays.Attend.TickSpec
import AgentWays.Attend.TickRuns
import AgentWays.Lib.Utf16
import AgentWays.Lib.JsText
import AgentWays.Lib.JsTextSpec
import AgentWays.Attend.ModLine
import AgentWays.Attend.ModHook
import AgentWays.Attend.ModLineSpec
import AgentWays.Lib.Framing
import AgentWays.Attend.DrainFrame
import AgentWays.Attend.ModFrame
import AgentWays.Groups.Yaml
import AgentWays.Groups.YamlSpec
import AgentWays.Groups.Store
import AgentWays.Groups.StoreSpec
import AgentWays.Groups.SweepSpec
import AgentWays.Groups.Invariant
import AgentWays.Groups.Leftover
import AgentWays.Presence.Enrollment
import AgentWays.Presence.OptOut
import AgentWays.Presence.OptOutRuns
import AgentWays.Presence.Carry
import AgentWays.Presence.CarryRuns
import AgentWays.Presence.CarryAgain
import AgentWays.Lib.Pointers
import AgentWays.Instances.Registry
import AgentWays.Instances.Chains
import AgentWays.Instances.RegistrySpec
import AgentWays.Instances.RegistryFile
import AgentWays.Instances.RegistryFileSpec
import AgentWays.Instances.RegistryRuns
import AgentWays.Instances.KeepsName
import AgentWays.Lib.Words
import AgentWays.Reflow.Detect
import AgentWays.Reflow.Flatten
import AgentWays.Reflow.UnitsSpec
import AgentWays.Reflow.FlattenSpec
import AgentWays.Reflow.Runs
import AgentWays.Reflow.KeepsWords
import AgentWays.Lib.Interleave
import AgentWays.Tombstones.Marks
import AgentWays.Tombstones.MarksSpec
import AgentWays.Tombstones.Reliance
import AgentWays.Tombstones.TakeBack
import AgentWays.Judge.Jobs
import AgentWays.Judge.JobsSpec
import AgentWays.Judge.Reliance
import AgentWays.Judge.Handoff
import AgentWays.Fmt.When
import AgentWays.EventLog.Lines
import AgentWays.EventLog.Maintenance
import AgentWays.EventLog.MaintenanceSpec
import AgentWays.EventLog.NoLoss
import AgentWays.Lib.Interner
import AgentWays.Decisions.Turns
import AgentWays.Decisions.Book
import AgentWays.Decisions.BookSpec
import AgentWays.Decisions.Grouping
import AgentWays.Decisions.Session
import AgentWays.Decisions.NoInterference
import AgentWays.Sessions.Slug
import AgentWays.Sessions.AttendKey
import AgentWays.Engage.Engagement
import AgentWays.Engage.WayScored
import AgentWays.Engage.OncePerWindow
import AgentWays.Lib.Serial
import AgentWays.Writer.LockFile
import AgentWays.Writer.Exclusion
import AgentWays.Projects.Rewrite
import AgentWays.Projects.Swap
import AgentWays.Projects.KeepsLines
import AgentWays.Lib.Clusters
import AgentWays.Lib.Utf8
import AgentWays.Tui.Wrap
import AgentWays.Tui.Input
import AgentWays.Tui.RestsBetween
import AgentWays.Lib.Upsert
import AgentWays.Projects.Merge
import AgentWays.Projects.MergeKeeps
import AgentWays.Attend.NewestReach
import AgentWays.Keepwarm.WindowText
import AgentWays.Keepwarm.WindowGrammar
import AgentWays.Keepwarm.Recheck
import AgentWays.Keepwarm.AnsweredPoll
import AgentWays.Keepwarm.LeftAlone
import AgentWays.Lib.IndexMap
import AgentWays.YamlEdit.Value
import AgentWays.YamlEdit.Path
import AgentWays.YamlEdit.Lines
import AgentWays.YamlEdit.Doc
import AgentWays.YamlEdit.Removal
import AgentWays.YamlEdit.SetsValue
import AgentWays.YamlEdit.KeepsLines
import AgentWays.Lib.Paging
import AgentWays.Attend.Inbox
import AgentWays.Attend.Reply
import AgentWays.Attend.ReplyRoom
import AgentWays.Lib.Calendar
import AgentWays.Fmt.Civil
import AgentWays.Lib.Decimal
import AgentWays.Fmt.Stamp
import AgentWays.Tui.Wraps
import AgentWays.Tui.LaidRows
import AgentWays.Reflow.FirstWindow
import AgentWays.Reflow.CheckedDetect
import AgentWays.Lib.Forest
import AgentWays.Scan.Order
import AgentWays.Scan.OrderSpec
import AgentWays.Scan.Reduce
import AgentWays.Scan.Sentences
import AgentWays.Scan.ReduceSpec
import AgentWays.Lib.Inclusive
import AgentWays.Projects.Relocate
import AgentWays.Lib.Marked
import AgentWays.Scan.Queued
import AgentWays.Scan.QueuedSpec
import AgentWays.Lib.Windows
import AgentWays.EventLog.LogFile
import AgentWays.EventLog.LogFileSpec
import AgentWays.Show.Budget
import AgentWays.Show.Room
import AgentWays.EventLog.TurnScan
import AgentWays.Tui.Spots
import AgentWays.Tui.Drawn
import AgentWays.Tui.Clicks
import AgentWays.Lib.SortDedup
import AgentWays.Chat.Route
import AgentWays.Chat.RouteSpec
import AgentWays.Chat.Pending
import AgentWays.Chat.PendingSpec
import AgentWays.Chat.Books
import AgentWays.Chat.PaneSpec
import AgentWays.Chat.KeptFiles
import AgentWays.Lib.SegPattern
import AgentWays.Lib.TopRanked
import AgentWays.Settings.Toggles
import AgentWays.Settings.TogglesSpec
import AgentWays.Scan.Gate
import AgentWays.Scan.GateSpec
import AgentWays.Scan.Admission
import AgentWays.Lib.Spans
import AgentWays.Command.Lexer
import AgentWays.Command.Laminar
import AgentWays.Command.LexerSpec
import AgentWays.Command.LexerRuns
import AgentWays.Command.Segments
import AgentWays.Command.SegmentsSpec
import AgentWays.Command.ParseSpec
import AgentWays.Membership.Move
import AgentWays.Membership.MoveSpec
import AgentWays.Membership.MoveRuns
