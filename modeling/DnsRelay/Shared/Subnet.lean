import DnsRelay.Lib.Addr
import DnsRelay.Shared.Edns

/-!
# The network of a client

Answers may depend on where the client is.  `effectiveIpv4Subnet` finds the /24
network that a query is resolved for: a configured one, that of the client when
its address is public, or the one a relay has seen.
-/

namespace DnsRelay

open Lib

/-- `is_public_ipv4`. -/
def isPublicIpv4 (address : Ipv4Addr) : Bool :=
  !(address.isUnspecified || address.isPrivate || address.isLoopback || address.isLinkLocal ||
    address.isBroadcast || address.isDocumentation || address.isMulticast ||
    decide (address.a = 0) ||
    (decide (address.a = 100) && decide (address.b &&& 0xC0 = 0x40)) ||
    (decide (address.a = 192) && decide (address.b = 0)) ||
    (decide (address.a = 198) && decide (address.b &&& 0xFE = 18)) ||
    decide (240 ≤ address.a))

/-- `parse_public_ipv4_subnet`. -/
def parsePublicIpv4Subnet (value : Str) : Option Ipv4Subnet := do
  let (address, length) ← splitOnce '/' value
  if length ≠ "24".toList then none
  let address ← parseIpv4Addr address
  if address.d = 0 && isPublicIpv4 address then some ⟨address.a, address.b, address.c⟩ else none

/-- `public_ipv4_subnet`. -/
def publicIpv4Subnet (addr : SocketAddr) : Option Ipv4Subnet :=
  match addr.ip with
  | .v6 _ => none
  | .v4 address =>
      if isPublicIpv4 address then some ⟨address.a, address.b, address.c⟩ else none

/-- `effective_ipv4_subnet`. -/
def effectiveIpv4Subnet (overrideSubnet : Option Ipv4Subnet) (clientAddr : SocketAddr)
    (discovered : Option Ipv4Subnet) : Option Ipv4Subnet :=
  (overrideSubnet <|> publicIpv4Subnet clientAddr) <|> discovered

example : publicIpv4Subnet (.v4 ⟨8, 8, 4, 4⟩ 53) = some ⟨8, 8, 4⟩ := by decide

example : publicIpv4Subnet (.v4 ⟨100, 64, 0, 1⟩ 53) = none := by decide

end DnsRelay
