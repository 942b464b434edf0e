import DnsRelay.Lib.HashSet
import DnsRelay.Lib.Shell

/-!
# What the network guard reads

The network guard looks at the output of system tools to find out whether a VPN
is up, which interface has the default route and which service is the primary
one.  The outputs are texts, and these are the functions that search them.
-/

namespace DnsRelay.NetGuard

open Lib

/-- `VPN_IFACE_PREFIXES`. -/
def vpnIfacePrefixes : List Str :=
  ["utun".toList, "ipsec".toList, "ppp".toList, "tun".toList, "tap".toList]

def isVpn (name : Str) : Bool := vpnIfacePrefixes.any fun p => startsWith name p

/-- `str::contains` with a text. -/
def contains : Str → Str → Bool
  | [], pat => pat.isEmpty
  | c :: s, pat => startsWith (c :: s) pat || contains s pat

/-- `str::split` with a pattern of two different characters. -/
def splitPair (a b : Char) : Str → List Str
  | [] => [[]]
  | [c] => [[c]]
  | c :: d :: s =>
      if c = a ∧ d = b then [] :: splitPair a b s
      else
        match splitPair a b (d :: s) with
        | [] => [[c]]
        | part :: parts => (c :: part) :: parts

/-! ## Linux -/

/-- The name of the interface that a line of `ip link show` is about, if it is a
VPN that is up. -/
def vpnOfLine (line : Str) : Option Str :=
  match (splitPair ':' ' ' line)[1]? with
  | none => none
  | some rest =>
      let name := trim (rest.takeWhile (· ≠ ':'))
      let isUp := contains line "UP,".toList || contains line ",UP".toList ||
        contains line "<UP>".toList
      if isVpn name && isUp then some name else none

/-- The first VPN interface in the output of `ip link show`. -/
def vpnInterface (text : Str) : Option Str := (lines text).findSome? vpnOfLine

/-- The word behind the first `dev`. -/
def wordAfterDev : List Str → Option Str
  | [] => none
  | tok :: parts => if tok = "dev".toList then parts.head? else wordAfterDev parts

/-- The interface in the output of `ip route show default`. -/
def defaultRouteIface (text : Str) : Option Str := wordAfterDev (splitWhitespace text)

example : vpnInterface ("1: lo: <LOOPBACK,UP,LOWER_UP> mtu 65536\n" ++
    "7: tun0: <POINTOPOINT,UP,LOWER_UP> mtu 1500\n").toList = some "tun0".toList := by
  decide

example : defaultRouteIface "default via 192.168.1.1 dev eth0 proto dhcp".toList =
    some "eth0".toList := by decide

/-! ## macOS -/

/-- The loop over the lines of `ifconfig`: the interface of the last line that
was not indented is a VPN, and is up. -/
def vpnUp : List Str → Bool → Bool → Bool
  | [], _, _ => false
  | line :: rest, currentIfaceIsVpn, currentIfaceUp =>
      if line ≠ [] ∧ (line.head?.any isWhitespace) = false then
        vpnUp rest (isVpn (line.takeWhile (· ≠ ':')))
          (contains line "<UP,".toList || contains line ",UP,".toList ||
            contains line ",UP>".toList)
      else if currentIfaceIsVpn && currentIfaceUp &&
          startsWith (line.dropWhile isWhitespace) "inet ".toList then true
      else vpnUp rest currentIfaceIsVpn currentIfaceUp

/-- A VPN interface that is up and has an address is in the output of
`ifconfig`. -/
def vpnConnected (text : Str) : Bool := vpnUp (lines text) false false

/-- The primary service in the output of `scutil`. -/
def primaryService (text : Str) : Option Str :=
  ((lines text).findSome? fun l => stripPrefix (trim l) "PrimaryService : ".toList).map trim

/-- The services in the output of `networksetup -listallnetworkservices`.  The
first line is no service, and the disabled ones have a star. -/
def networkServices (text : Str) : List Str :=
  (((lines text).drop 1).map trim).filter fun service =>
    !(service.isEmpty || startsWith service "*".toList)

example : vpnConnected "utun4: flags=8051<UP,POINTOPOINT>\n\tinet 10.8.0.2\n".toList = true := by
  decide +kernel

example : primaryService "  PrimaryInterface : en0\n  PrimaryService : 3A-9C\n".toList =
    some "3A-9C".toList := by decide +kernel

end DnsRelay.NetGuard
