import DnsRelay.Lib.Addr
import DnsRelay.Lib.Bytes

/-!
# Packets made locally

The lookup query for a domain, and the three replies that answer a query
without asking anyone: NXDOMAIN for a dropped name, SERVFAIL for a failed
lookup, and a list of addresses for a redirected name.  The replies reuse the
bytes of the query.
-/

namespace DnsRelay

open Lib

/-- One label of a query name.  The length byte wraps at 256. -/
def encodeLabel (label : Str) : Bytes :=
  UInt8.ofNat (utf8 label).length :: utf8 label

/-- `build_lookup_query`, for the transaction identifier that the random
generator supplies. -/
def buildLookupQuery (txid : UInt8 × UInt8) (domain : Str) : Bytes :=
  [txid.1, txid.2, 0x01, 0x00, 0x00, 0x01, 0x00, 0x00, 0x00, 0x00, 0x00, 0x00] ++
    ((trimEndMatches '.' domain).splitOn '.').flatMap encodeLabel ++
    [0x00, 0x00, 0x01, 0x00, 0x01]

/-- The query with the flags of a recursive reply and a response code. -/
def craftReply (rcode : UInt8) (payload : Bytes) : Option Bytes :=
  if payload.length < 12 then none else some (overwrite payload 2 [0x81, 0x80 + rcode])

/-- `craft_nxdomain_response`. -/
def craftNxdomainResponse (payload : Bytes) : Option Bytes := craftReply 3 payload

/-- `craft_servfail_response`. -/
def craftServfailResponse (payload : Bytes) : Option Bytes := craftReply 2 payload

/-- One answer of a redirect: the question's name, type and class, sixty
seconds and an address. -/
def redirectAnswer (qtype qclass : Bytes) (ip : Ipv4Addr) : Bytes :=
  [0xC0, 0x0C] ++ qtype ++ qclass ++ [0x00, 0x00, 0x00, 0x3C] ++ [0x00, 0x04] ++
    [ip.a, ip.b, ip.c, ip.d]

/-- `craft_redirect_response`.  Texts that are no IPv4 address are skipped, and
the number of answers wraps at 65536. -/
def craftRedirectResponse (payload : Bytes) (qnameEnd : Nat) (ipsStr : List Str) : Option Bytes :=
  if payload.length < 12 ∨ payload.length < qnameEnd + 4 then none
  else
    let resp := overwrite payload 2 [0x81, 0x80]
    let qtype := slice resp qnameEnd (qnameEnd + 2)
    let qclass := slice resp (qnameEnd + 2) (qnameEnd + 4)
    let ips := ipsStr.filterMap parseIpv4Addr
    if ips.isEmpty then none
    else
      let resp := overwrite resp 6 (toBe16 (ips.length % 65536))
      some (resp.take (qnameEnd + 4) ++ ips.flatMap (redirectAnswer qtype qclass) ++
        resp.drop (qnameEnd + 4))

end DnsRelay
