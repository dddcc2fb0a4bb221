import AstraVeil.Kernel.AstraSu
import AstraVeil.Kernel.Confinement
import AstraVeil.Kernel.CapabilityNames
import AstraVeil.Spoof.EnvShield
import AstraVeil.Kernel.PolicyHistory
import AstraVeil.Rust.TokenLifetime
import AstraVeil.Rust.HexDecode
import AstraVeil.Rust.Sandbox
import AstraVeil.Modules.TrustAcrossRestarts
import AstraVeil.Modules.Lifecycle
import AstraVeil.Modules.RecordedPermissions
import AstraVeil.Modules.UnpackLimits
import AstraVeil.Modules.DeclaredRisk
import AstraVeil.Modules.AvMSigner
import AstraVeil.Modules.RejectedModules
import AstraVeil.Modules.DeveloperKeyStore
import AstraVeil.Modules.RuntimePath
import AstraVeil.Daemon.Attenuation
import AstraVeil.Daemon.Cascade
import AstraVeil.Daemon.HandlerTotality
import AstraVeil.Daemon.JsonEscape
import AstraVeil.Daemon.PermissionTruth
import AstraVeil.Daemon.BusAccess
import AstraVeil.Daemon.RateLimit
import AstraVeil.Daemon.SocketServer
import AstraVeil.Daemon.LeaseTracker
import AstraVeil.Daemon.ModuleRunner
import AstraVeil.Core.AuditChain
import AstraVeil.Core.AuditImport
import AstraVeil.Core.ResponsePairing
import AstraVeil.Core.ConnectionLifecycle
import AstraVeil.Core.CronParsing
import AstraVeil.Core.VersionComparator
import AstraVeil.Core.SnapshotRetention
import AstraVeil.Core.LeaseExpiry
import AstraVeil.Core.ActiveCount
import AstraVeil.Core.FailClosed
import AstraVeil.Core.PermissionHistory
import AstraVeil.Providers.ModuleListing
import AstraVeil.Providers.ProviderSelector
import AstraVeil.Providers.Watchdog
import AstraVeil.App.Terminal
import AstraVeil.App.CommandAudit
import AstraVeil.App.ShellFlow
import AstraVeil.App.MagiskSu
import AstraVeil.App.ExecutionRouter
