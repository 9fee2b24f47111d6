import Eggfetch.Transition.Runs
import Eggfetch.Text.Bytes

/-! TLS policies of `tls.rs` and the tokens that stand for them in the route caches. -/
namespace Eggfetch.Routing
open Text Transition

inductive TrustStore where
  | nativeWithWebPkiFallback
  | nativeOnly
  | webPkiOnly
  | custom (certs : List Str)
  deriving DecidableEq

structure ClientIdentity where
  certChain : List Str
  privateKeyDer : Str
  keyLabel : Str
  deriving DecidableEq

inductive TlsVersion where
  | tls12
  | tls13
  deriving DecidableEq

/-- `cryptoProvider` names a provider of the process. -/
structure TlsConfigBuilder where
  trustStore : TrustStore := .nativeWithWebPkiFallback
  customCaRoots : List Str := []
  additionalCaRoots : List Str := []
  cryptoProvider : Option Nat := none
  clientIdentity : Option ClientIdentity := none
  verifyHostname : Bool := true
  verifyCertificate : Bool := true
  minVersion : Option TlsVersion := none
  maxVersion : Option TlsVersion := none
  sniEnabled : Bool := true
  deriving DecidableEq

structure TlsConfig extends TlsConfigBuilder where
  policyToken : Nat
  deriving DecidableEq

def TlsConfig.connectionIdentity (config : TlsConfig) : Nat := config.policyToken

/-- The counter of the process and every configuration made with it; clones are one entry. -/
structure Mint where
  next : Nat := 1
  configs : List TlsConfig := []

inductive MintAction where
  | build (builder : TlsConfigBuilder)
  | dangerAcceptInvalidCerts (config : TlsConfig) (accept : Bool)

namespace Mint

/-- The counter is a `u64`. -/
def tokenMax : Nat := 2 ^ 64

/-- `mint_tls_policy_token`: zero is passed over when the counter wraps. -/
def mintTlsPolicyToken (m : Mint) : Nat × Nat :=
  if m.next = 0 then (1, 2) else (m.next, (m.next + 1) % tokenMax)

def add (m : Mint) (builder : TlsConfigBuilder) : Mint :=
  { next := m.mintTlsPolicyToken.2
    configs := ⟨builder, m.mintTlsPolicyToken.1⟩ :: m.configs }

def step (m : Mint) : MintAction → Option Mint
  | .build builder => some (m.add builder)
  | .dangerAcceptInvalidCerts config accept =>
    if config ∈ m.configs then
      some (m.add { config.toTlsConfigBuilder with verifyCertificate := !accept, verifyHostname := !accept })
    else none

end Mint
end Eggfetch.Routing
