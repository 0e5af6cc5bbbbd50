import SignalKBackup.Lib.Machine
import SignalKBackup.Uplink.State
import SignalKBackup.Uplink.Reporter
import SignalKBackup.Uplink.SingleFlight
import SignalKBackup.Uplink.Ledger
import SignalKBackup.Uplink.Delivery
import SignalKBackup.Uplink.Dedup
import SignalKBackup.Uplink.Waiting
import SignalKBackup.Lib.Letters
import SignalKBackup.Lib.Regex
import SignalKBackup.Config.ImageTag
import SignalKBackup.Config.Semver
import SignalKBackup.ServerUpdate
import SignalKBackup.Config.ResolveAutoTag
import SignalKBackup.Lib.FileTree
import SignalKBackup.Lib.PosixPath
import SignalKBackup.Restore.Target
import SignalKBackup.Restore.Run
import SignalKBackup.Restore.Rollback
import SignalKBackup.Restore.Route
import SignalKBackup.Restore.Consent
import SignalKBackup.Export.IsoWeek
import SignalKBackup.Export.Questdb
import SignalKBackup.Export.Coverage
import SignalKBackup.Export.Closed
import SignalKBackup.Plugin.Install
import SignalKBackup.Plugin.Lifecycle
import SignalKBackup.Plugin.Rollback
import SignalKBackup.Plugin.Steps
import SignalKBackup.Plugin.Superseded
import SignalKBackup.Plugin.Updating
import SignalKBackup.Plugin.HostRestore
import SignalKBackup.Deltas.Emitter
import SignalKBackup.Deltas.Alarms
import SignalKBackup.Deltas.Overdue
import SignalKBackup.Deltas.Restarts
import SignalKBackup.Restore.SingleFlight
import SignalKBackup.Plugin.Justified
import SignalKBackup.Plugin.Connected
import SignalKBackup.Plugin.Emitter
import SignalKBackup.Plugin.Ready
import SignalKBackup.Plugin.Rearm
import SignalKBackup.Config.Precedence
import SignalKBackup.Plugin.Versions
import SignalKBackup.Plugin.Steady
import SignalKBackup.Plugin.Durable
import SignalKBackup.Deltas.Stream
import SignalKBackup.Plugin.Stopped
import SignalKBackup.Config.Standard
import SignalKBackup.Export.Iso8601
import SignalKBackup.Export.Wellformed
import SignalKBackup.Restore.Placement
import SignalKBackup.Restore.Extract
import SignalKBackup.Restore.RoundTrip
import SignalKBackup.Lib.Utf8
import SignalKBackup.Lib.FileSystem
import SignalKBackup.Staging.Routes
import SignalKBackup.Staging.Listing
import SignalKBackup.Lib.Program
import SignalKBackup.Export.Disk
import SignalKBackup.Export.Exporters
import SignalKBackup.Export.Atomic
import SignalKBackup.Export.Scheduler
import SignalKBackup.Export.Places
import SignalKBackup.Export.Confined
import SignalKBackup.Lib.Triple
import SignalKBackup.Export.LastGood
import SignalKBackup.Export.ConfigRoute
import SignalKBackup.Deltas.Chunks
import SignalKBackup.Lib.Fields
import SignalKBackup.Proxy.Headers
import SignalKBackup.Lib.Json
import SignalKBackup.Proxy.Bodies
import SignalKBackup.Webapp.Exclusions
import SignalKBackup.Lib.Calling
import SignalKBackup.Export.Apart
import SignalKBackup.Export.Shown
import SignalKBackup.Export.TableCycles
import SignalKBackup.Export.Round
import SignalKBackup.Export.Recovery
import SignalKBackup.Export.Sections
import SignalKBackup.Export.Unmixed
import SignalKBackup.Deltas.Sessions
import SignalKBackup.Restore.Outside
import SignalKBackup.Restore.Report
import SignalKBackup.Export.Fresh
import SignalKBackup.Lib.Timed
import SignalKBackup.Client.Request
import SignalKBackup.Client.Ready
import SignalKBackup.Client.Idle
import SignalKBackup.Webapp.Agreed
import SignalKBackup.Webapp.Browser
import SignalKBackup.Webapp.HostPath
import SignalKBackup.Webapp.Retention
import SignalKBackup.Webapp.ConnectFlow
import SignalKBackup.Errors
