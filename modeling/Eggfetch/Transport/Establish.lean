import Eggfetch.Pipeline.Request
import Eggfetch.Polling.Timed
import Eggfetch.Transition.Runs

/-! How long a new connection may take. Some connectors keep the connect timeout they were built
with, others are given the one of the request, and HTTP/3 shares it among the addresses. -/
namespace Eggfetch.Transport
open Polling Transition
open Pipeline (Duration Timeout)

inductive TimeoutPhase
  | pool
  | connect
  | proxyConnect
  | proxyTls
  | write
  | read
  | total
deriving DecidableEq

def TimeoutPhase.isConnect : TimeoutPhase → Bool
  | .connect | .proxyConnect | .proxyTls => true
  | _ => false

inductive Failure (E : Type)
  | peer (e : E)
  | noAddresses
  | timeout (phase : TimeoutPhase)

abbrev Established (E : Type) := Except (Failure E) Unit

/-- What the steps of an attempt are answered when they are polled. -/
structure Peers (E : Type) where
  /-- DNS, TCP and TLS, or whatever the connector does in one future. -/
  connect : Nat → Poll (Except E Unit)
  proxyConnect : Nat → Poll (Except E Unit)
  proxyTls : Nat → Poll (Except E Unit)
  connectWrite : Nat → Poll (Except E Unit)
  connectRead : Nat → Poll (Except E Unit)
  originTls : Nat → Poll (Except E Unit)
  resolve : Nat → Poll (Except E Unit)
  attempts : List (Nat → Poll (Except E Unit))
  routeDial : Nat → Poll (Except E Unit)
  quic : Nat → Poll (Except E Unit)
  h3Init : Nat → Poll (Except E Unit)

variable {E : Type}

/-- The answer of a step that can still go on as far as this stage knows. -/
def stageAnswer (answer : Poll (Except E Unit)) : Poll (Except (Established E) Unit) :=
  match answer with
  | .pending => .pending
  | .ready (.ok ()) => .ready (.ok ())
  | .ready (.error e) => .ready (.error (.error (.peer e)))

/-- The families of clients that Hyper pools connections for. -/
inductive Family
  | standard
  | direct
  | uds
  | custom
  | sni
  | customSni
  | resolved
  | socks
  | forward
  | connect
deriving DecidableEq

/-- The connect timeout is part of `ForwardRouteKey` and `ConnectRouteKey`. -/
def Family.keyed : Family → Bool
  | .forward | .connect => true
  | _ => false

/-- How many clients a cache holds; `none` for the clients that live as long as `ClientInner`. -/
def Family.maxEntries : Family → Option Nat
  | .standard | .direct | .uds | .custom => none
  | .sni | .customSni => some 256
  | .resolved | .socks | .forward | .connect => some 64

/-- `now` is a reading of the clock. -/
def effectiveTimeout (now : Nat) (deadline : Option Nat) (configured : Option Duration) :
    Except (Failure E) (Option Duration) :=
  match deadline with
  | some deadline =>
    if now < deadline then .ok (some (configured.elim (deadline - now) (min · (deadline - now))))
    else .error (.timeout .total)
  | none => .ok configured

structure ProxyRequestContext where
  deadline : Option Nat
  connectTimeout : Option Duration
  proxyConnectTimeout : Option Duration
  proxyTlsTimeout : Option Duration
  writeTimeout : Option Duration
  readTimeout : Option Duration

def phaseStage (phase : TimeoutPhase) (deadline : Option Nat) (configured : Option Duration)
    (answer : Nat → Poll (Except E Unit)) : Future.Stage (Established E) where
  expiry now :=
    match effectiveTimeout now deadline configured with
    | .ok limit => .ok (limit.map (now + ·))
    | .error e => .error (.error e)
  expired := .error (.timeout phase)
  answer n := stageAnswer (answer n)

def connectToProxy (proxyTls : Bool) (ctx : ProxyRequestContext) (peers : Peers E) : List (Future.Stage (Established E)) :=
  phaseStage .proxyConnect ctx.deadline ctx.proxyConnectTimeout peers.proxyConnect ::
    if proxyTls then [phaseStage .proxyTls ctx.deadline ctx.proxyTlsTimeout peers.proxyTls] else []

def establishHttpsTunnel (proxyTls : Bool) (ctx : ProxyRequestContext) (peers : Peers E) :
    List (Future.Stage (Established E)) :=
  connectToProxy proxyTls ctx peers ++
    [phaseStage .write ctx.deadline ctx.writeTimeout peers.connectWrite,
      phaseStage .read ctx.deadline ctx.readTimeout peers.connectRead,
      phaseStage .connect ctx.deadline ctx.connectTimeout peers.originTls]

/-- The route connector that was built with `connectTimeout`. -/
def connector (family : Family) (proxyTls : Bool) (connectTimeout : Option Duration) (peers : Peers E) :
    List (Future.Stage (Established E)) :=
  match family with
  | .forward => connectToProxy proxyTls ⟨none, none, connectTimeout, connectTimeout, none, none⟩ peers
  | .connect => establishHttpsTunnel proxyTls ⟨none, connectTimeout, connectTimeout, connectTimeout, none, none⟩ peers
  | _ => [phaseStage .connect none none peers.connect]

/-- `build_hyper_client` puts `ConnectTimeout` around the route connector. -/
def hyperConnection (family : Family) (proxyTls : Bool) (connectTimeout : Option Duration) (peers : Peers E) :
    Future (Established E) :=
  (Future.stages (.ok ()) (connector family proxyTls connectTimeout peers)).timeout connectTimeout
    (.error (.timeout .connect))

/-- The step under way, and when it runs out of time if it has begun. -/
inductive H3Stage (E : Type)
  | resolving (begun : Option (Option Nat))
  | attempting (rest : List (Nat → Poll (Except E Unit))) (begun : Option (Option Nat)) (lastErr : Option (Failure E))
  | dialing (begun : Option (Option Nat))
  | handshaking (begun : Option (Option Nat))
  | initializing (begun : Option (Option Nat))

namespace H3Stage
variable (deadline : Option Nat) (now n : Nat)

def remaining (begun : Option (Option Nat)) (answer : Poll (Except E Unit)) (next : Established E ⊕ H3Stage E)
    (stay : Option (Option Nat) → H3Stage E) : Established E ⊕ H3Stage E :=
  let expiry := begun.getD (deadline.map (max now ·))
  match answer with
  | .ready (.ok ()) => next
  | .ready (.error e) => .inl (.error (.peer e))
  | .pending => if expiry.any (· ≤ now) then .inl (.error (.timeout .connect)) else .inr (stay (some expiry))

/-- `establish_h3_sender` -/
def pollInit (peers : Peers E) (begun : Option (Option Nat)) : Established E ⊕ H3Stage E :=
  remaining deadline now begun (peers.h3Init n) (.inl (.ok ())) .initializing

/-- `connect_with_fallback`: each address has a share of what is left. -/
def pollAttempts (peers : Peers E) :
    List (Nat → Poll (Except E Unit)) → Option (Option Nat) → Option (Failure E) → Established E ⊕ H3Stage E
  | [], _, lastErr => .inl (.error (lastErr.getD .noAddresses))
  | answer :: rest, begun, lastErr =>
    let share := deadline.map fun d => (d - now) / (rest.length + 1)
    if begun.isNone ∧ (deadline.any (· ≤ now) ∨ share = some 0) then .inl (.error (lastErr.getD (.timeout .connect)))
    else
      let expiry := begun.getD (share.map (now + ·))
      match answer n with
      | .ready (.ok ()) => pollInit deadline now n peers none
      | .ready (.error e) => pollAttempts peers rest none (some (.peer e))
      | .pending =>
        if expiry.any (· ≤ now) then pollAttempts peers rest none (some (.timeout .connect))
        else .inr (.attempting (answer :: rest) (some expiry) lastErr)

def pollHandshake (peers : Peers E) (begun : Option (Option Nat)) : Established E ⊕ H3Stage E :=
  remaining deadline now begun (peers.quic n) (pollInit deadline now n peers none) .handshaking

def poll (peers : Peers E) : H3Stage E → Established E ⊕ H3Stage E
  | .resolving begun =>
    remaining deadline now begun (peers.resolve n)
      (if peers.attempts = [] then .inl (.error .noAddresses) else pollAttempts deadline now n peers peers.attempts none none)
      .resolving
  | .attempting rest begun lastErr => pollAttempts deadline now n peers rest begun lastErr
  | .dialing begun =>
    remaining deadline now begun (peers.routeDial n) (pollHandshake deadline now n peers none) .dialing
  | .handshaking begun => pollHandshake deadline now n peers begun
  | .initializing begun => pollInit deadline now n peers begun

end H3Stage

/-- The session of an origin, asked for at `started`; `routed` when a datagram dialer is configured. -/
def h3Session (routed : Bool) (connectTimeout : Option Duration) (started : Nat) (peers : Peers E) :
    Future (Established E) where
  State := H3Stage E
  init := if routed then .dialing none else .resolving none
  poll now n s := s.poll (connectTimeout.map (started + ·)) now n peers

/-- How a request that needs a new connection gets it. -/
inductive Connection
  | hyper (family : Family) (proxyTls : Bool)
  /-- `send_https_connect_request_once`, for the requests that `connect_client` refuses. -/
  | tunnel (proxyTls : Bool)
  | http3 (routed : Bool)

/-- `identity` is what the key of the route holds besides the connect timeout. -/
structure Request (κ : Type) where
  connection : Connection
  identity : κ
  timeout : Option Timeout

structure ClientKey (κ : Type) where
  identity : κ
  connectTimeout : Option Duration
deriving DecidableEq

/-- The cached clients of each family, by the connect timeout they were built with. -/
abbrev RouteCaches (κ : Type) := Family → List (ClientKey κ × Option Duration)

variable {κ : Type} [DecidableEq κ]

/-- `Timeout` of the hop -/
def hopTimeout (client request : Option Timeout) : Timeout :=
  match client with
  | some client => client.merge request
  | none => request.getD {}

def builtWith (client : Option Timeout) (family : Family) (hop : Timeout) : Option Duration :=
  if family.keyed then hop.connect else client.bind (·.connect)

def clientKey (family : Family) (identity : κ) (hop : Timeout) : ClientKey κ :=
  ⟨identity, if family.keyed then hop.connect else none⟩

def clientTimeout (client : Option Timeout) (caches : RouteCaches κ) (family : Family) (identity : κ) (hop : Timeout) :
    Option Duration :=
  if family.maxEntries.isSome then
    ((caches family).lookup (clientKey family identity hop)).getD (builtWith client family hop)
  else builtWith client family hop

def insertCached (maxEntries victim : Nat) (entries : List (ClientKey κ × Option Duration)) (key : ClientKey κ)
    (built : Option Duration) : List (ClientKey κ × Option Duration) :=
  (key, built) :: if maxEntries ≤ entries.length then entries.eraseIdx victim else entries

/-- A request is dispatched; `victim` is the entry that is dropped if there must be one. -/
def RouteCaches.step (client : Option Timeout) (caches : RouteCaches κ) (action : Request κ × Nat) :
    Option (RouteCaches κ) :=
  let (request, victim) := action
  match request.connection with
  | .hyper family _ =>
    let hop := hopTimeout client request.timeout
    let key := clientKey family request.identity hop
    match family.maxEntries with
    | none => some caches
    | some maxEntries =>
      match (caches family).lookup key with
      | some _ => some caches
      | none =>
        some (Function.update caches family
          (insertCached maxEntries victim (caches family) key (builtWith client family hop)))
  | _ => some caches

/-- The new connection of a request, first polled at `started`; `deadline` is that of the request. -/
def Request.establish (client : Option Timeout) (caches : RouteCaches κ) (request : Request κ) (deadline : Option Nat)
    (started : Nat) (peers : Peers E) : Future (Established E) :=
  let hop := hopTimeout client request.timeout
  match request.connection with
  | .hyper family proxyTls =>
    hyperConnection family proxyTls (clientTimeout client caches family request.identity hop) peers
  | .tunnel proxyTls =>
    Future.stages (.ok ()) (establishHttpsTunnel proxyTls
      ⟨deadline, hop.connect, hop.connect, hop.connect, hop.write, hop.read⟩ peers)
  | .http3 routed => h3Session routed hop.connect started peers

def Request.addresses (request : Request κ) (peers : Peers E) : Nat :=
  match request.connection with
  | .http3 _ => max 1 peers.attempts.length
  | _ => 1

/-- An attempt is bounded by `effective`, and by nothing else than the deadline of its request. -/
structure Bounded (effective deadline : Option Nat) (addresses : Nat) (clock : Nat → Nat) (t : Future (Established E)) :
    Prop where
  /-- Every poll from the end of the budget on ends the attempt. -/
  own : ∀ d ∈ effective, ∀ n, clock 0 + d ≤ clock n → t.Over clock n
  named : ∀ d ∈ effective, ∀ n phase, clock 0 + d ≤ clock n → t.EndsAt clock n (.error (.timeout phase)) →
    phase.isConnect = true ∨ ∃ x ∈ deadline, x ≤ clock n
  /-- A connect timeout comes when less than a nanosecond is left for each address. -/
  only : ∀ n phase, phase.isConnect = true → t.EndsAt clock n (.error (.timeout phase)) →
    (∃ d ∈ effective, clock 0 + d < clock n + addresses) ∨ ∃ x ∈ deadline, x ≤ clock n

/-- The attempt keeps the connect timeout of its request whatever the peers answer and whenever it is polled. -/
def Request.KeepsConnect (E : Type) (client : Option Timeout) (caches : RouteCaches κ) (request : Request κ) : Prop :=
  ∀ (peers : Peers E) (deadline : Option Nat) (clock : Nat → Nat), Monotone clock →
    Bounded (hopTimeout client request.timeout).connect deadline (request.addresses peers) clock
      (request.establish client caches deadline (clock 0) peers)

end Eggfetch.Transport
