import Fraisier.Effect.Program
import Fraisier.Effect.Logic
import Fraisier.Effect.Parallel
import Fraisier.Effect.Local
import Fraisier.Effect.Pool
import Fraisier.Effect.Conditions
import Fraisier.Effect.History
import Fraisier.Effect.Schedule
import Fraisier.Data.Json
import Fraisier.Data.Text
import Fraisier.Saga.Redact
import Fraisier.Saga.StateStore
import Fraisier.Saga.Engine
import Fraisier.Saga.Execution
import Fraisier.Saga.Course
import Fraisier.Saga.StoreFaults
import Fraisier.Saga.Rule
import Fraisier.Saga.Trail
import Fraisier.Saga.Locks
import Fraisier.Saga.Exclusion
import Fraisier.Saga.Backends
import Fraisier.Saga.BackendsAgree
import Fraisier.Core.Adapters
import Fraisier.Core.Axes
import Fraisier.Core.Policy
import Fraisier.Core.Ledger
import Fraisier.Core.Rehearsal
import Fraisier.Core.MultiHost
import Fraisier.Core.Fleet
import Fraisier.Core.Rollout
import Fraisier.Core.Launch
import Fraisier.Core.FleetSteps
import Fraisier.Core.FleetBatches
import Fraisier.Core.FleetRun
import Fraisier.Core.FleetOutcome
import Fraisier.Core.SingleHost
import Fraisier.Core.HostRun
import Fraisier.Core.HostLedger
import Fraisier.Core.HostOrder
import Fraisier.Core.PolicyAdmission
import Fraisier.Core.RiskContract
import Fraisier.Core.LedgerCalls
import Fraisier.Core.LedgerRace
import Fraisier.Core.Tools
import Fraisier.Core.Drill
import Fraisier.Core.DrillTarget
import Fraisier.Core.LiveRevision
import Fraisier.Core.ToolRevision
import Fraisier.Core.BlueGreen
import Fraisier.Core.BlueGreenFleets
import Fraisier.Core.BlueGreenOrder
import Fraisier.Db.Restore
import Fraisier.Db.Refresh
import Fraisier.Db.RefreshSafety
import Fraisier.Cli.Preview
import Fraisier.Cli.PreviewAgreement
import Fraisier.Cli.Refresh
import Fraisier.Cli.RefreshUnits
import Fraisier.Ipc.Client
import Fraisier.Ipc.VersionGate
import Fraisier.Scaffold.Install
import Fraisier.Scaffold.Owners
import Fraisier.Sync.Push
import Fraisier.Sync.Operators
import Fraisier.Db.Archive
import Fraisier.Db.ArchiveRace
import Fraisier.Data.Links
import Fraisier.Data.Paths
import Fraisier.Db.Retention
import Fraisier.Cli.Prune
import Fraisier.Config.Stack
import Fraisier.Cli.Stack
import Fraisier.Cli.StackOrder
import Fraisier.Db.RetentionPlan
import Fraisier.Db.ValidFloor
import Fraisier.Data.Utf8
import Fraisier.Data.Decimal
import Fraisier.Db.Calendar
import Fraisier.Db.Stamp
import Fraisier.Db.ArchiveNames
import Fraisier.Db.StampTime
import Fraisier.Config.Deploy
import Fraisier.Db.ArchiveOwners
import Fraisier.Db.Marker
import Fraisier.Db.SchemaGrants
import Fraisier.Data.Lines
import Fraisier.Db.SplitListing
import Fraisier.Data.Percent
import Fraisier.Db.Connection
import Fraisier.Data.Dependencies
import Fraisier.Config.DeployOrder
import Fraisier.Core.DrillTeardown
import Fraisier.Db.Throwaway
import Fraisier.Db.ThrowawaySafety
import Fraisier.Artifact.Sources
import Fraisier.Artifact.Checksums
import Fraisier.Data.Split
import Fraisier.Db.Dsn
import Fraisier.Core.PreflightArgs
import Fraisier.Core.PreflightReport
import Fraisier.Core.PoolCapacity
import Fraisier.Lb.Nginx
import Fraisier.Lb.NginxFaults
import Fraisier.Data.Blocks
import Fraisier.Data.Words
import Fraisier.Lb.NginxLayout
import Fraisier.Data.Escapes
import Fraisier.Data.UrlText
import Fraisier.Db.UrlParts
import Fraisier.Db.DsnRoundTrip
import Fraisier.Lb.NginxLines
import Fraisier.Lb.NginxRuns
import Fraisier.Data.Glob
import Fraisier.Db.RetentionGlob
import Fraisier.SelfUpgrade.Swap
import Fraisier.SelfUpgrade.Apply
import Fraisier.SelfUpgrade.BinDir
import Fraisier.Artifact.Adapters
import Fraisier.Artifact.StagingDisk
import Fraisier.Artifact.StagingRuns
import Fraisier.SelfUpgrade.UpgradeRuns
import Fraisier.SelfUpgrade.Reports
import Fraisier.SelfUpgrade.Promises
import Fraisier.SelfUpgrade.KeptPromises
import Fraisier.Data.Shell
import Fraisier.Ipc.RemoteShell
import Fraisier.Ipc.Framing
import Fraisier.Ipc.Frames
import Fraisier.Data.HeaderLines
import Fraisier.Webhook.Sign
import Fraisier.Webhook.Server
import Fraisier.Webhook.Chunks
import Fraisier.Webhook.Authorization
import Fraisier.Data.Toml
import Fraisier.Ship.Version
import Fraisier.Data.DiskFiles
import Fraisier.Saga.CrashWrites
import Fraisier.Saga.CrashTolerance
import Fraisier.Db.ThrowawayName
import Fraisier.Data.Conninfo
import Fraisier.Data.Sql
import Fraisier.Db.Statements
import Fraisier.Effect.Link
import Fraisier.Data.JsonText
import Fraisier.Data.JsonMaps
import Fraisier.Artifact.Active
import Fraisier.Ipc.Server
import Fraisier.Ipc.Transparency
import Fraisier.Ship.Workflow
import Fraisier.Ship.Clones
import Fraisier.Ship.Rising
import Fraisier.Ship.Releases
import Fraisier.Data.Cutting
import Fraisier.Effect.Killed
import Fraisier.Cli.FailureRecord
import Fraisier.Cli.Alert
import Fraisier.Cli.Activations
import Fraisier.Cli.AlertRuns
