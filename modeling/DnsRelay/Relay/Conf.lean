import DnsRelay.Lib.Text

/-!
# Configuration and its validation

The part of `Conf` that decides how queries leave the process, and
`Conf::validate`.  With `secure_only` a configuration needs an authenticated
path: a resolver reached by DoH or DoQ, or an enabled relay.  Relay addresses
must be `https://` then, and a relay whose address is looked up at start needs
an authenticated resolver to look it up with.

`Conf.validate_ok` says what an accepted configuration has.
-/

namespace DnsRelay

open Lib

/-! ## Errors -/

/-- `DohError`, with the text of the client library's errors. -/
inductive DohError where
  | timeout
  | request (text : Str)
  | status (code : Nat)
  | body (text : Str)
deriving DecidableEq, Repr

/-- `Error`, with the text of the operating system's errors. -/
inductive Error where
  | io (text : Str)
  | config (text : Str)
  | invalidResolver (resolver : Str)
  | doh (error : DohError)
  | udpTimeout
  | upstreamUnreachable
  | noHealthyResolvers
  | resolveTimeout
  | other (text : Str)
  | relayErr (text : Str)
deriving DecidableEq, Repr

/-! ## Records -/

inductive RelayTransport where
  | direct
  | googleChained
deriving DecidableEq, Repr

structure Relay where
  relayKey : Str
  relayUrl : Str
  transport : RelayTransport
deriving DecidableEq, Repr

structure RelayConf where
  enable : Bool
  resolveManual : Bool
  relayTimeoutSec : Nat
  relayInstances : List Relay
deriving DecidableEq, Repr

structure ResolverSearchingConf where
  enable : Bool
  resolverSource : List Str
  ipv4 : Bool
  doh : Bool
deriving DecidableEq, Repr

structure Conf where
  dropList : List Str
  redirectList : List (Str × Str)
  resolvers : List Str
  secureOnly : Bool
  resolverSearching : ResolverSearchingConf
  relayConf : RelayConf
deriving DecidableEq, Repr

/-! ## Validation -/

/-- A check that fails with an error, and what follows it. -/
theorem check_eq_ok {ε α : Type} {c : Prop} [Decidable c] {e : ε} {rest : Except ε α} {a : α} :
    (if c then .error e else rest) = .ok a ↔ ¬c ∧ rest = .ok a := by
  by_cases h : c
  · simp [h]
  · simp [h]

def https : Str := "https://".toList

def quic : Str := "quic://".toList

/-- `is_secure_resolver`. -/
def isSecureResolver (resolver : Str) : Bool :=
  startsWith resolver https || startsWith resolver quic

namespace Conf

/-- `has_secure_resolver`. -/
def hasSecureResolver (conf : Conf) : Bool := conf.resolvers.any isSecureResolver

/-- `Conf::validate`. -/
def validate (conf : Conf) : Except Error Unit :=
  if !conf.secureOnly then .ok ()
  else if conf.relayConf.enable &&
      conf.relayConf.relayInstances.any (fun relay => !startsWith relay.relayUrl https) then
    .error (.config "secure relay URLs must use https://".toList)
  else if conf.relayConf.enable && conf.relayConf.resolveManual && !conf.hasSecureResolver then
    .error (.config "secure manual relay bootstrap requires an authenticated resolver".toList)
  else if !conf.hasSecureResolver &&
      !(conf.relayConf.enable && !conf.relayConf.relayInstances.isEmpty) then
    .error (.config "secure_only requires an authenticated resolver or relay".toList)
  else .ok ()

structure Secured (conf : Conf) : Prop where
  /-- Relays are reached by `https://`. -/
  relays : conf.relayConf.enable = true →
    ∀ relay ∈ conf.relayConf.relayInstances, startsWith relay.relayUrl https = true
  bootstrap : conf.relayConf.enable = true → conf.relayConf.resolveManual = true →
    conf.hasSecureResolver = true
  path : conf.hasSecureResolver = true ∨
    conf.relayConf.enable = true ∧ conf.relayConf.relayInstances ≠ []

theorem validate_ok {conf : Conf} (hsecure : conf.secureOnly = true) :
    conf.validate = .ok () ↔ conf.Secured := by
  have hchecks : conf.validate = .ok () ↔
      (conf.relayConf.enable && conf.relayConf.relayInstances.any
        (fun relay => !startsWith relay.relayUrl https)) = false ∧
      (conf.relayConf.enable && conf.relayConf.resolveManual && !conf.hasSecureResolver) = false ∧
      (!conf.hasSecureResolver &&
        !(conf.relayConf.enable && !conf.relayConf.relayInstances.isEmpty)) = false := by
    simp only [validate, hsecure, Bool.not_true, Bool.false_eq_true, if_false, check_eq_ok,
      Bool.not_eq_true, and_true]
  rw [hchecks]
  constructor
  · rintro ⟨hurls, hboot, hpath⟩
    refine ⟨fun he => ?_, fun he hm => ?_, ?_⟩
    · simpa [he] using hurls
    · simpa [he, hm] using hboot
    · cases hs : conf.hasSecureResolver with
      | true => exact .inl rfl
      | false => exact .inr (by simpa [hs] using hpath)
  · intro h
    refine ⟨?_, ?_, ?_⟩
    · cases he : conf.relayConf.enable with
      | false => rfl
      | true => simpa using h.relays he
    · cases he : conf.relayConf.enable with
      | false => rfl
      | true =>
          cases hm : conf.relayConf.resolveManual with
          | false => rfl
          | true => rw [h.bootstrap he hm]; rfl
    · rcases h.path with hs | ⟨he, hne⟩
      · rw [hs]; rfl
      · simp [he, hne]

end Conf

end DnsRelay
