import DnsRelay.Shared.CacheTtl
import DnsRelay.Shared.ChainedCache
import DnsRelay.Shared.Ageing
import DnsRelay.Shared.Bounds
import DnsRelay.Shared.NetGuardLinux
import DnsRelay.Shared.NetGuardMacos
import DnsRelay.Shared.HostsList
import DnsRelay.Shared.Wildcard
import DnsRelay.Relay.SingleFlight
import DnsRelay.Relay.FlightCode
import DnsRelay.Relay.Client
import DnsRelay.Relay.UdpDelivery
import DnsRelay.Relay.UdpAllocation
import DnsRelay.Relay.AppsScript
import DnsRelay.Relay.ReloadSafety
import DnsRelay.Relay.Forwarded
import DnsRelay.Relay.LookupName
import DnsRelay.Relay.RedirectReply
import DnsRelay.Relay.Doq
import DnsRelay.Relay.HedgeRun
import DnsRelay.Relay.HistoryFilter
import DnsRelay.Relay.HistoryText
import DnsRelay.Relay.HistorySafety
import DnsRelay.Relay.Candidates
import DnsRelay.Relay.FailedWindow
import DnsRelay.Relay.Reflection
import DnsRelay.Relay.ResolverList
import DnsRelay.Proxy.ObfsHop
import DnsRelay.Proxy.Handler
import DnsRelay.Worker.Sinkhole
import DnsRelay.Worker.Subnet
import DnsRelay.Worker.EdgeCache
import DnsRelay.Admin.Apply
import DnsRelay.Admin.Install
import DnsRelay.Gui.ConfigRoundTrip
import DnsRelay.Gui.Secrets
import DnsRelay.Gui.RedirectRules
import DnsRelay.Gui.ConfigFields
import DnsRelay.Relay.Service
import DnsRelay.Admin.MailboxSafety
import DnsRelay.Admin.LifecycleSafety
import DnsRelay.Worker.Fetch
import DnsRelay.Gui.SessionSafety
import DnsRelay.Gui.Requests
