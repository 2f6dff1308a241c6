import WazabiAgent.Lib.Program
import WazabiAgent.Lib.Transition
import WazabiAgent.Lib.Decimal
import WazabiAgent.Plugin.SupervisorManifest
import WazabiAgent.Spool.Writer
import WazabiAgent.Spool.Conservation
import WazabiAgent.Spool.Shutdown
import WazabiAgent.Spool.Discipline
import WazabiAgent.Spool.Visibility
import WazabiAgent.Spool.RotationOrder
import WazabiAgent.Spool.Restart
import WazabiAgent.Spool.Recovery
import WazabiAgent.Spool.FaithfulLog
import WazabiAgent.Spool.Age
import WazabiAgent.Agent.Pump
import WazabiAgent.Agent.Teardown
import WazabiAgent.Control.Isolation
import WazabiAgent.Control.IsolationSafety
import WazabiAgent.Control.Commands
import WazabiAgent.Control.SyncAtomicity
import WazabiAgent.Control.SyncReport
import WazabiAgent.Shipper.Run
import WazabiAgent.Shipper.Pipeline
import WazabiAgent.Shipper.Delivery
import WazabiAgent.Config.Overrides
import WazabiAgent.Control.SyncRestart
import WazabiAgent.Config.Enrollment
import WazabiAgent.Plugin.Handshake
import WazabiAgent.Plugin.Session
import WazabiAgent.Plugin.EmitEvent
import WazabiAgent.Agent.Ingestion
import WazabiAgent.Plugin.Assignment
import WazabiAgent.Plugin.EnrollOnce
import WazabiAgent.Plugin.RevokeRetry
import WazabiAgent.Plugin.UpdateSafety
import WazabiAgent.Plugin.PackageIsolation
import WazabiAgent.Plugin.Framing
import WazabiAgent.Plugin.Reload
import WazabiAgent.Plugin.Admission
import WazabiAgent.Ipc.Bounds
import WazabiAgent.Ipc.RoundTrip
import WazabiAgent.Control.Alerts
import WazabiAgent.Polling.ServiceEvents
import WazabiAgent.Polling.TaskEvents
import WazabiAgent.Lib.Utf8
import WazabiAgent.Lib.Lookup
import WazabiAgent.Etw.ScriptContent
import WazabiAgent.Plugin.SessionCount
import WazabiAgent.Plugin.Fleet
import WazabiAgent.Plugin.OneProcess
import WazabiAgent.Plugin.AllJoined
import WazabiAgent.Plugin.RevokeCleanup
import WazabiAgent.Plugin.AllOrNothing
import WazabiAgent.Control.WayBack
import WazabiAgent.Control.Convergence
import WazabiAgent.Detection.HotReload
import WazabiAgent.Detection.ReloadOrder
import WazabiAgent.Lib.PipedProcess
import WazabiAgent.Lib.Utf8Lossy
import WazabiAgent.Control.Children
import WazabiAgent.Control.Quarantine
import WazabiAgent.Lib.WinNormal
import WazabiAgent.Plugin.PackagePaths
import WazabiAgent.Lib.Checked
import WazabiAgent.Lib.Fips180
import WazabiAgent.Control.Sha256
import WazabiAgent.Lib.Gregorian
import WazabiAgent.Plugin.Timestamp
import WazabiAgent.Lib.XmlText
import WazabiAgent.Plugin.DataFields
import WazabiAgent.Plugin.EnrichmentFrame
import WazabiAgent.Lib.Significant
import WazabiAgent.Detection.Scalars
import WazabiAgent.Polling.ServiceDiff
import WazabiAgent.Polling.LastingChange
import WazabiAgent.Control.TemplateRules
import WazabiAgent.Control.RulesFile
import WazabiAgent.Ipc.RegistryPreview
import WazabiAgent.Lib.Base64
import WazabiAgent.Shipper.Base64
import WazabiAgent.Shipper.Backoff
import WazabiAgent.Spool.SizeCap
import WazabiAgent.Shipper.Credentials
import WazabiAgent.Shipper.Endpoints
import WazabiAgent.Lib.Reader
import WazabiAgent.Control.CappedRead
import WazabiAgent.Shipper.ExactlyOnce
import WazabiAgent.Lib.Turns
import WazabiAgent.Plugin.InFlight
import WazabiAgent.Lib.JsonRead
import WazabiAgent.Lib.Replay
import WazabiAgent.Polling.Mirror
import WazabiAgent.Etw.Providers
import WazabiAgent.Agent.Lines
import WazabiAgent.Control.ScanNow
import WazabiAgent.Lib.Memo
import WazabiAgent.Agent.UserCache
import WazabiAgent.Control.UpdateAgent
import WazabiAgent.Agent.EndToEnd
import WazabiAgent.Lib.Ownership
import WazabiAgent.Agent.SystemCalls
import WazabiAgent.Agent.Handles
import WazabiAgent.Lib.Contract
import WazabiAgent.Plugin.HandshakeCalls
import WazabiAgent.Plugin.SessionCalls
import WazabiAgent.Polling.ServiceCalls
import WazabiAgent.Lib.TaggedLog
import WazabiAgent.Agent.SessionLines
