import SmartDns.Ports.TextLoading
import SmartDns.Ports.DispatcherLimiter
import SmartDns.Ports.ReplyCorrespondence
import SmartDns.Ports.ResponseCodes
import SmartDns.Ports.ResponseStorage
import SmartDns.Ports.EntryLifetime
import SmartDns.Ports.LayerRegistration
import SmartDns.Ports.MappedClients
import SmartDns.Ports.NegativeAnswers
import SmartDns.Ports.LogRotation
import SmartDns.Ports.Reloads
import SmartDns.Ports.AddressRaces
import SmartDns.Ports.IgnoreMarkers
import SmartDns.Ports.UpstreamGroups
import SmartDns.Ports.PrefetchCoverage
import SmartDns.Ports.CacheReload
import SmartDns.Ports.PrefetchRaces
import SmartDns.Ports.Dns64Prefix
import SmartDns.Ports.ReplyBounds
import SmartDns.Ports.DualStackChoice
import SmartDns.Ports.AddressFilters
import SmartDns.Ports.IpStrategies
import SmartDns.Ports.CircuitBreaker
import SmartDns.Ports.ListenerDedup
import SmartDns.Ports.BootstrapMemo
import SmartDns.Ports.ShellEscape
import SmartDns.Ports.AuditWriter
import SmartDns.Ports.MapUpdates
import SmartDns.Ports.IpRanges
import SmartDns.Ports.LocalDomain
import SmartDns.Ports.LeaseFiles
