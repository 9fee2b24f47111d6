import Eggfetch.Proxy.Socks
import Eggfetch.Routing.Addresses

/-! The direct TCP connector with socket options (`direct_connector.rs`) and its counters (`metrics.rs`): resolution,
the loop over the candidate addresses, and the TLS handshake. What the system answers is a parameter. -/
namespace Eggfetch.Transport.Direct
open Text
open Routing (IpAddr SocketAddr)
open Proxy (parseIpAddr)

inductive SocketOptionKind
  | tcpNoDelay
  | keepAlive
  | receiveBuffer
  | sendBuffer
  deriving DecidableEq

structure SocketOption where
  level : Int
  option : Int
  value : Str
  kind : Option SocketOptionKind

structure DirectConnectorConfig where
  localAddress : Option SocketAddr
  socketOptions : List SocketOption

/-- An `std::io::Error`: whether its kind is `ConnectionRefused`, and its text. -/
structure IoError where
  refused : Bool
  text : Str
  deriving DecidableEq

inductive ConnectFailureKind
  | dns
  | connectionRefused
  | connect
  deriving DecidableEq

/-- The boxed errors of a call. -/
inductive Error
  | connect (message : Str)
  | tls (message : Str)
  | direct (kind : ConnectFailureKind) (message : Str) (source : Option IoError)
  deriving DecidableEq

inductive ServerName
  | ipAddress (ip : IpAddr)
  | dnsName (name : Str)
  deriving DecidableEq

structure Uri where
  scheme : Option Str
  host : Option Str
  port : Option Nat

/-- What the system does with the socket of one candidate; `set` applies an option with the first four bytes of its value. -/
structure Trial where
  create : Except Str Unit
  set : SocketOptionKind → Str → Except Str Unit
  bind : Except IoError Unit
  connect : Except IoError Unit

/-- The system in one call; `trial i` is for the candidate at place `i`. -/
structure World where
  resolve : Str → Nat → Except IoError (List SocketAddr)
  trial : Nat → Trial
  setNodelay : Except Str Unit
  tryFrom : Str → Except Str ServerName
  handshake : ServerName → Except Str Unit

structure DirectConnector where
  config : DirectConnectorConfig
  tls : Bool
  sniHostname : Option Str
  resolvedAddresses : Option (List SocketAddr)
  /-- The `tls-rustls` feature. -/
  tlsRustls : Bool

structure TransportMetrics where
  directConnectorAttempts : Nat := 0
  directConnectorSuccesses : Nat := 0
  directConnectorFailures : Nat := 0
  directDnsAttempts : Nat := 0
  directDnsFailures : Nat := 0
  directTlsAttempts : Nat := 0
  directTlsFailures : Nat := 0

namespace TransportMetrics

def recordDirectAttempt (m : TransportMetrics) : TransportMetrics :=
  { m with directConnectorAttempts := m.directConnectorAttempts + 1 }

def recordDirectSuccess (m : TransportMetrics) : TransportMetrics :=
  { m with directConnectorSuccesses := m.directConnectorSuccesses + 1 }

def recordDirectFailure (m : TransportMetrics) : TransportMetrics :=
  { m with directConnectorFailures := m.directConnectorFailures + 1 }

def recordDirectDnsAttempt (m : TransportMetrics) : TransportMetrics := { m with directDnsAttempts := m.directDnsAttempts + 1 }

def recordDirectDnsFailure (m : TransportMetrics) : TransportMetrics := { m with directDnsFailures := m.directDnsFailures + 1 }

def recordDirectTlsAttempt (m : TransportMetrics) : TransportMetrics := { m with directTlsAttempts := m.directTlsAttempts + 1 }

def recordDirectTlsFailure (m : TransportMetrics) : TransportMetrics := { m with directTlsFailures := m.directTlsFailures + 1 }

end TransportMetrics

def isIpv4 : SocketAddr → Bool
  | .v4 _ _ => true
  | .v6 _ _ _ _ => false

def stripBrackets (host : Str) : Str :=
  match host with
  | 0x5b :: rest => if rest.getLast? = some 0x5d then rest.dropLast else host
  | _ => host

def tlsServerName (tryFrom : Str → Except Str ServerName) (host : Str) : Except Str ServerName :=
  match parseIpAddr (stripBrackets host) with
  | some ip => .ok (.ipAddress ip)
  | none => tryFrom host

def classifyTcpFailures (attempted refused : Nat) : ConnectFailureKind :=
  if 0 < attempted ∧ attempted = refused then .connectionRefused else .connect

/-- `{}` of a number. -/
def numberText (n : Nat) : Str := utf8 (toString n)

def optionName : SocketOptionKind → Str
  | .tcpNoDelay => utf8 "TCP_NODELAY"
  | .keepAlive => utf8 "SO_KEEPALIVE"
  | .receiveBuffer => utf8 "SO_RCVBUF"
  | .sendBuffer => utf8 "SO_SNDBUF"

def applySocketOption (set : SocketOptionKind → Str → Except Str Unit) (opt : SocketOption) : Except Error Unit :=
  if opt.value.length < 4 then
    .error (.connect (utf8 "socket option value too short: expected at least 4 bytes, got " ++ numberText opt.value.length))
  else
    match opt.kind with
    | some kind =>
      match set kind (opt.value.take 4) with
      | .ok () => .ok ()
      | .error e => .error (.connect (utf8 "failed to set " ++ optionName kind ++ utf8 ": " ++ e))
    | none =>
      .error (.connect (utf8 "unsupported socket option: level=" ++ utf8 (toString opt.level) ++ utf8 ", option=" ++
        utf8 (toString opt.option)))

def prepare (config : DirectConnectorConfig) (t : Trial) : Except Error Unit :=
  match t.create with
  | .error e => .error (.connect (utf8 "failed to create socket: " ++ e))
  | .ok () => config.socketOptions.forM (applySocketOption t.set)

/-- `lookup_host` of a host and a port: a literal without brackets stands for itself, and every other text is resolved. -/
def lookupHost (resolve : Str → Nat → Except IoError (List SocketAddr)) (host : Str) (port : Nat) :
    Except IoError (List SocketAddr) :=
  match parseIpAddr host with
  | some (.v4 ip) => .ok [.v4 ip port]
  | some (.v6 ip) => .ok [.v6 ip port 0 0]
  | none => resolve host port

/-- What became of a candidate: its socket could not be prepared, or bound, or connected. -/
inductive Answer
  | unprepared (e : Error)
  | unbound (e : IoError)
  | failed (e : IoError)
  | connected
  deriving DecidableEq

def answer (config : DirectConnectorConfig) (t : Trial) : Answer :=
  match prepare config t with
  | .error e => .unprepared e
  | .ok () =>
    match (if config.localAddress.isSome then t.bind else .ok ()) with
    | .error e => .unbound e
    | .ok () =>
      match t.connect with
      | .error e => .failed e
      | .ok () => .connected

/-- The loop's variables, and the candidates that were tried, each with its place. -/
structure Dial where
  attempted : Nat := 0
  refused : Nat := 0
  lastError : Option (Str × IoError) := none
  tried : List (Nat × SocketAddr × Answer) := []

inductive LoopEnd
  | aborted (e : Error)
  | connected
  | exhausted

/-- The candidates from place `i` on. -/
def dialFrom (config : DirectConnectorConfig) (trial : Nat → Trial) : Nat → Dial → List SocketAddr → Dial × LoopEnd
  | _, d, [] => (d, .exhausted)
  | i, d, addr :: rest =>
    if config.localAddress.any (isIpv4 · != isIpv4 addr) then dialFrom config trial (i + 1) d rest
    else
      let tried := d.tried ++ [(i, addr, answer config (trial i))]
      match answer config (trial i) with
      | .unprepared e => ({ d with tried := tried }, .aborted e)
      | .unbound e =>
        dialFrom config trial (i + 1)
          { d with attempted := d.attempted + 1, lastError := some (e.text, e), tried := tried } rest
      | .connected => ({ d with attempted := d.attempted + 1, tried := tried }, .connected)
      | .failed e =>
        dialFrom config trial (i + 1)
          { attempted := d.attempted + 1, refused := if e.refused then d.refused + 1 else d.refused
            lastError := some (addr.text ++ utf8 ": " ++ e.text, e), tried := tried } rest

/-- What a call leaves: the counters, if there are any, the candidates tried, and its result. -/
structure Outcome where
  metrics : Option TransportMetrics
  tried : List (Nat × SocketAddr × Answer)
  result : Except Error Unit

namespace DirectConnector

def upgrade (c : DirectConnector) (w : World) (host : Str) (isHttps : Bool) (metrics : Option TransportMetrics) :
    Option TransportMetrics × Except Error Unit :=
  let hasNodelay := c.config.socketOptions.any (·.kind = some .tcpNoDelay)
  match (if hasNodelay then .ok () else w.setNodelay) with
  | .error e => (metrics, .error (.connect (utf8 "failed to set TCP_NODELAY: " ++ e)))
  | .ok () =>
    if isHttps = false then (metrics, .ok ())
    else if c.tlsRustls = false then
      (metrics, .error (.tls (utf8 "HTTPS requested but the tls-rustls feature is disabled")))
    else if c.tls = false then (metrics, .error (.connect (utf8 "HTTPS requested but TLS connector not configured")))
    else
      let tlsHost := c.sniHostname.getD host
      match tlsServerName w.tryFrom tlsHost with
      | .error e => (metrics, .error (.tls (utf8 "invalid server name '" ++ tlsHost ++ utf8 "': " ++ e)))
      | .ok serverName =>
        let metrics := metrics.map (·.recordDirectTlsAttempt)
        match w.handshake serverName with
        | .ok () => (metrics, .ok ())
        | .error e => (metrics.map (·.recordDirectTlsFailure), .error (.tls (utf8 "TLS handshake failed: " ++ e)))

def port (dst : Uri) : Nat := dst.port.getD (if dst.scheme = some (utf8 "https") then 443 else 80)

/-- The candidates: the pinned addresses, or what the host stands for. -/
def addresses (c : DirectConnector) (w : World) (dst : Uri) (host : Str) : Except IoError (List SocketAddr) :=
  match c.resolvedAddresses with
  | some addresses => .ok addresses
  | none => lookupHost w.resolve host (port dst)

def call (c : DirectConnector) (w : World) (dst : Uri) (metrics : Option TransportMetrics) : Outcome :=
  let metrics := metrics.map (·.recordDirectAttempt)
  let metrics := if c.resolvedAddresses.isNone then metrics.map (·.recordDirectDnsAttempt) else metrics
  match dst.host with
  | none => ⟨metrics, [], .error (.connect (utf8 "no hostname in URI"))⟩
  | some host =>
    let isHttps := dst.scheme = some (utf8 "https")
    match c.addresses w dst host with
    | .error e =>
      ⟨(metrics.map (·.recordDirectDnsFailure)).map (·.recordDirectFailure), [],
        .error (.direct .dns (utf8 "DNS resolution failed for " ++ host ++ utf8 ": " ++ e.text) (some e))⟩
    | .ok addresses =>
      match dialFrom c.config w.trial 0 {} addresses with
      | (d, .aborted e) => ⟨metrics, d.tried, .error e⟩
      | (d, .exhausted) =>
        let lastMessage := (d.lastError.map Prod.fst).getD (utf8 "no compatible addresses")
        ⟨metrics.map (·.recordDirectFailure), d.tried,
          .error (.direct (classifyTcpFailures d.attempted d.refused)
            (utf8 "TCP connect to " ++ host ++ utf8 ":" ++ numberText (port dst) ++ utf8 " failed: " ++ lastMessage)
            (d.lastError.map Prod.snd))⟩
      | (d, .connected) =>
        let (metrics, result) := c.upgrade w host isHttps (metrics.map (·.recordDirectSuccess))
        ⟨metrics, d.tried, result⟩

end DirectConnector

def compatible (config : DirectConnectorConfig) (addr : SocketAddr) : Bool :=
  config.localAddress.all (isIpv4 · == isIpv4 addr)

/-- The candidates whose family is that of the local address, in order, with their places and what would become of each. -/
def offers (config : DirectConnectorConfig) (trial : Nat → Trial) (i : Nat) (addresses : List SocketAddr) :
    List (Nat × SocketAddr × Answer) :=
  ((addresses.zipIdx i).filter fun p => compatible config p.1).map fun p => (p.2, p.1, answer config (trial p.2))

/-- The elements up to the first that satisfies `p`, and it too. -/
def through {α : Type} (p : α → Bool) : List α → List α
  | [] => []
  | x :: rest => if p x then [x] else x :: through p rest

namespace Answer

def isUnprepared : Answer → Bool
  | unprepared _ => true
  | _ => false

def isConnected : Answer → Bool
  | connected => true
  | _ => false

def isRefused : Answer → Bool
  | failed e => e.refused
  | _ => false

def isDecisive (a : Answer) : Bool := a.isUnprepared || a.isConnected

end Answer

section
variable {config : DirectConnectorConfig} {trial : Nat → Trial} {α : Type} {p q : α → Bool}

private theorem offers_cons (i : Nat) (addr : SocketAddr) (rest : List SocketAddr) : offers config trial i (addr :: rest) =
    if compatible config addr then (i, addr, answer config (trial i)) :: offers config trial (i + 1) rest
    else offers config trial (i + 1) rest := by
  rw [offers, List.zipIdx_cons, List.filter_cons]
  split <;> rfl

private theorem incompatible_iff (addr : SocketAddr) :
    config.localAddress.any (isIpv4 · != isIpv4 addr) = !compatible config addr := by
  rw [compatible]
  cases config.localAddress <;> rfl

/-- How the loop ends, from the first candidate that decides. -/
def endOf : Option (Nat × SocketAddr × Answer) → LoopEnd
  | some (_, _, .unprepared e) => .aborted e
  | some (_, _, .connected) => .connected
  | _ => .exhausted

/-- The loop tries the candidates up to the first that decides, and counts the refusals among them. -/
theorem dialFrom_offers (i : Nat) (d : Dial) (addresses : List SocketAddr) :
    (dialFrom config trial i d addresses).1.tried =
        d.tried ++ through (·.2.2.isDecisive) (offers config trial i addresses) ∧
      (dialFrom config trial i d addresses).1.attempted = d.attempted +
        (through (·.2.2.isDecisive) (offers config trial i addresses)).countP (!·.2.2.isUnprepared) ∧
      (dialFrom config trial i d addresses).1.refused = d.refused +
        (through (·.2.2.isDecisive) (offers config trial i addresses)).countP (·.2.2.isRefused) ∧
      (dialFrom config trial i d addresses).2 = endOf ((offers config trial i addresses).find? (·.2.2.isDecisive)) := by
  induction addresses generalizing i d with
  | nil => exact ⟨(List.append_nil _).symm, rfl, rfl, rfl⟩
  | cons addr rest ih =>
    rw [dialFrom, incompatible_iff, offers_cons]
    cases hCompatible : compatible config addr with
    | false =>
      rw [Bool.not_false, if_pos rfl, if_neg Bool.false_ne_true]
      exact ih (i + 1) d
    | true =>
      rw [Bool.not_true, if_neg Bool.false_ne_true, if_pos rfl, through, List.find?_cons]
      cases hAnswer : answer config (trial i) with
      | unprepared e => exact ⟨rfl, rfl, rfl, rfl⟩
      | connected => exact ⟨rfl, rfl, rfl, rfl⟩
      | unbound e =>
        obtain ⟨hTried, hAttempted, hRefused, hEnd⟩ := ih (i + 1)
          { d with attempted := d.attempted + 1, lastError := some (e.text, e), tried := d.tried ++ [(i, addr, .unbound e)] }
        have hGoesOn : ¬ (Answer.unbound e).isDecisive = true := Bool.false_ne_true
        have hPrepared : (!(Answer.unbound e).isUnprepared) = true := rfl
        have hNotRefused : ¬ (Answer.unbound e).isRefused = true := Bool.false_ne_true
        refine ⟨?_, ?_, ?_, hEnd⟩
        · exact hTried.trans (by rw [if_neg hGoesOn, List.append_assoc]; rfl)
        · exact hAttempted.trans (by rw [if_neg hGoesOn, List.countP_cons, if_pos hPrepared]; dsimp only; omega)
        · exact hRefused.trans (by rw [if_neg hGoesOn, List.countP_cons, if_neg hNotRefused]; rfl)
      | failed e =>
        obtain ⟨hTried, hAttempted, hRefused, hEnd⟩ := ih (i + 1)
          { attempted := d.attempted + 1, refused := if e.refused then d.refused + 1 else d.refused
            lastError := some (addr.text ++ utf8 ": " ++ e.text, e), tried := d.tried ++ [(i, addr, .failed e)] }
        have hGoesOn : ¬ (Answer.failed e).isDecisive = true := Bool.false_ne_true
        have hPrepared : (!(Answer.failed e).isUnprepared) = true := rfl
        have hKind : (Answer.failed e).isRefused = e.refused := rfl
        refine ⟨?_, ?_, ?_, hEnd⟩
        · exact hTried.trans (by rw [if_neg hGoesOn, List.append_assoc]; rfl)
        · exact hAttempted.trans (by rw [if_neg hGoesOn, List.countP_cons, if_pos hPrepared]; dsimp only; omega)
        · refine hRefused.trans ?_
          rw [if_neg hGoesOn, List.countP_cons, hKind]
          dsimp only
          split <;> omega

/-- No candidate whose socket cannot be prepared comes before the first success. -/
def Prepared (offered : List (Nat × SocketAddr × Answer)) : Prop :=
  ∀ before x after, offered = before ++ x :: after → x.2.2.isUnprepared = true → ∃ y ∈ before, y.2.2.isConnected = true

theorem prepared_iff (offered : List (Nat × SocketAddr × Answer)) :
    Prepared offered ↔ ∀ x, offered.find? (·.2.2.isDecisive) = some x → x.2.2.isUnprepared = false := by
  constructor
  · intro h x hFound
    obtain ⟨hDecisive, before, after, hSplit, hBefore⟩ := List.find?_eq_some_iff_append.mp hFound
    refine Bool.eq_false_iff.mpr fun hUnprepared => ?_
    obtain ⟨y, hy, hConnected⟩ := h before x after hSplit hUnprepared
    have hNot := hBefore y hy
    rw [Answer.isDecisive, hConnected, Bool.or_true] at hNot
    cases hNot
  · intro h before x after hSplit hUnprepared
    by_contra hNone
    have hBefore : before.find? (·.2.2.isDecisive) = none ∨ ∃ z, before.find? (·.2.2.isDecisive) = some z := by
      cases before.find? (·.2.2.isDecisive) with
      | none => exact Or.inl rfl
      | some z => exact Or.inr ⟨z, rfl⟩
    rcases hBefore with hFound | ⟨z, hFound⟩
    · have hDecisive : x.2.2.isDecisive = true := by rw [Answer.isDecisive, hUnprepared, Bool.true_or]
      have hNot := h x (by rw [hSplit, List.find?_append, hFound, Option.none_or, List.find?_cons, hDecisive])
      rw [hUnprepared] at hNot
      cases hNot
    · have hNot := h z (by rw [hSplit, List.find?_append, hFound, Option.some_or])
      have hDecisive := List.find?_some hFound
      rw [Answer.isDecisive, hNot, Bool.false_or] at hDecisive
      exact hNone ⟨z, List.mem_of_find?_eq_some hFound, hDecisive⟩

end

/-- A call that has returned. -/
structure Call where
  connector : DirectConnector
  world : World
  dst : Uri

namespace Call

def run (m : TransportMetrics) (call : Call) : TransportMetrics :=
  (call.connector.call call.world call.dst (some m)).metrics.getD m

/-- There is a host, and the loop comes to no candidate whose socket cannot be prepared. -/
def Counted (call : Call) : Prop :=
  ∃ host, call.dst.host = some host ∧ ∀ addresses, call.connector.addresses call.world call.dst host = .ok addresses →
    Prepared (offers call.connector.config call.world.trial 0 addresses)

end Call

/-- The law of the counters. -/
structure Balanced (m : TransportMetrics) : Prop where
  attempts : m.directConnectorAttempts = m.directConnectorSuccesses + m.directConnectorFailures
  dns : m.directDnsFailures ≤ m.directDnsAttempts ∧ m.directDnsAttempts ≤ m.directConnectorAttempts
  tls : m.directTlsFailures ≤ m.directTlsAttempts ∧ m.directTlsAttempts ≤ m.directConnectorSuccesses

/-- What one call adds: an attempt, and one outcome at most; failures only with their attempts. -/
structure Adds (m m' : TransportMetrics) (outcomes : Nat) : Prop where
  attempts : m'.directConnectorAttempts = m.directConnectorAttempts + 1
  outcome : m'.directConnectorSuccesses + m'.directConnectorFailures =
    m.directConnectorSuccesses + m.directConnectorFailures + outcomes
  dns : ∃ attempted failed, failed ≤ attempted ∧ attempted ≤ 1 ∧ m'.directDnsAttempts = m.directDnsAttempts + attempted ∧
    m'.directDnsFailures = m.directDnsFailures + failed
  tls : ∃ succeeded attempted failed, failed ≤ attempted ∧ attempted ≤ succeeded ∧
    m'.directConnectorSuccesses = m.directConnectorSuccesses + succeeded ∧
    m'.directTlsAttempts = m.directTlsAttempts + attempted ∧ m'.directTlsFailures = m.directTlsFailures + failed

section
variable {c : DirectConnector} {w : World} {dst : Uri} {m : TransportMetrics} {host : Str}

private theorem upgrade_metrics (isHttps : Bool) : ∃ attempted failed, failed ≤ attempted ∧ attempted ≤ 1 ∧
    (c.upgrade w host isHttps (some m)).1 = some { m with
      directTlsAttempts := m.directTlsAttempts + attempted
      directTlsFailures := m.directTlsFailures + failed } := by
  have hNone : ∃ attempted failed, failed ≤ attempted ∧ attempted ≤ 1 ∧ some m = some { m with
      directTlsAttempts := m.directTlsAttempts + attempted
      directTlsFailures := m.directTlsFailures + failed } := ⟨0, 0, Nat.le_refl _, Nat.zero_le _, rfl⟩
  rw [DirectConnector.upgrade]
  split
  · exact hNone
  split
  · exact hNone
  split
  · exact hNone
  split
  · exact hNone
  dsimp only
  split
  · exact hNone
  split
  · exact ⟨1, 0, Nat.zero_le _, Nat.le_refl _, rfl⟩
  · exact ⟨1, 1, Nat.le_refl _, Nat.le_refl _, rfl⟩

def started (c : DirectConnector) (m : TransportMetrics) : TransportMetrics :=
  { m with
    directConnectorAttempts := m.directConnectorAttempts + 1
    directDnsAttempts := m.directDnsAttempts + if c.resolvedAddresses.isNone then 1 else 0 }

private theorem started_eq (c : DirectConnector) (m : TransportMetrics) :
    (if c.resolvedAddresses.isNone then ((some m).map (·.recordDirectAttempt)).map (·.recordDirectDnsAttempt)
      else (some m).map (·.recordDirectAttempt)) = some (started c m) := by
  rw [started]
  split <;> rfl

private theorem endOf_cases (offered : List (Nat × SocketAddr × Answer)) :
    (endOf (offered.find? (·.2.2.isDecisive)) = .exhausted ∧ offered.find? (·.2.2.isDecisive) = none) ∨
    (∃ x e, endOf (offered.find? (·.2.2.isDecisive)) = .aborted e ∧ offered.find? (·.2.2.isDecisive) = some x ∧
      x.2.2 = .unprepared e) ∨
    ∃ x, endOf (offered.find? (·.2.2.isDecisive)) = .connected ∧ offered.find? (·.2.2.isDecisive) = some x ∧
      x.2.2 = .connected := by
  cases hFound : offered.find? (·.2.2.isDecisive) with
  | none => exact Or.inl ⟨rfl, rfl⟩
  | some x =>
    obtain ⟨i, addr, a⟩ := x
    have hDecisive := List.find?_some hFound
    cases a with
    | unprepared e => exact Or.inr (Or.inl ⟨_, e, rfl, rfl, rfl⟩)
    | connected => exact Or.inr (Or.inr ⟨_, rfl, rfl, rfl⟩)
    | unbound e => cases hDecisive
    | failed e =>
      have hNot : (Answer.failed e).isDecisive = false := rfl
      rw [hNot] at hDecisive
      cases hDecisive

private theorem counted_iff {addresses : List SocketAddr} (hHost : dst.host = some host)
    (hAddresses : c.addresses w dst host = .ok addresses) :
    Call.Counted ⟨c, w, dst⟩ ↔ Prepared (offers c.config w.trial 0 addresses) := by
  constructor
  · rintro ⟨host', hHost', hPrepared⟩
    have hHost' : dst.host = some host' := hHost'
    rw [hHost] at hHost'
    obtain rfl := Option.some.inj hHost'
    exact hPrepared addresses hAddresses
  · refine fun hPrepared => ⟨host, hHost, fun addresses' hAddresses' => ?_⟩
    have hAddresses' : c.addresses w dst host = .ok addresses' := hAddresses'
    rw [hAddresses] at hAddresses'
    obtain rfl := Except.ok.inj hAddresses'
    exact hPrepared

theorem call_adds (c : DirectConnector) (w : World) (dst : Uri) (m : TransportMetrics) :
    ∃ m' n, (c.call w dst (some m)).metrics = some m' ∧ Adds m m' n ∧
      (Call.Counted ⟨c, w, dst⟩ ∧ n = 1 ∨ ¬ Call.Counted ⟨c, w, dst⟩ ∧ n = 0) := by
  have hDns : (if c.resolvedAddresses.isNone then 1 else 0) ≤ 1 := by split <;> decide
  rw [DirectConnector.call, started_eq]
  cases hHost : dst.host with
  | none =>
    refine ⟨started c m, 0, rfl, ⟨rfl, rfl, ⟨_, 0, Nat.zero_le _, hDns, rfl, rfl⟩,
      ⟨0, 0, 0, Nat.le_refl _, Nat.le_refl _, rfl, rfl, rfl⟩⟩,
      Or.inr ⟨?_, rfl⟩⟩
    rintro ⟨host, hSome, -⟩
    have hSome : dst.host = some host := hSome
    rw [hHost] at hSome
    cases hSome
  | some host =>
    cases hAddresses : c.addresses w dst host with
    | error e =>
      have hUnpinned : c.resolvedAddresses = none := by
        cases hPinned : c.resolvedAddresses with
        | none => rfl
        | some addresses =>
          rw [DirectConnector.addresses, hPinned] at hAddresses
          cases hAddresses
      refine ⟨((started c m).recordDirectDnsFailure).recordDirectFailure, 1, ?_,
        ⟨rfl, ?_, ⟨1, 1, Nat.le_refl _, Nat.le_refl _, ?_, rfl⟩,
        ⟨0, 0, 0, Nat.le_refl _, Nat.le_refl _, rfl, rfl, rfl⟩⟩, Or.inl ⟨⟨host, hHost, ?_⟩, rfl⟩⟩
      · simp only [hAddresses]
        rfl
      · exact (Nat.add_assoc _ _ _).symm
      · rw [TransportMetrics.recordDirectFailure, TransportMetrics.recordDirectDnsFailure, started, hUnpinned]
        rfl
      · intro addresses hOk
        have hOk : c.addresses w dst host = .ok addresses := hOk
        rw [hAddresses] at hOk
        cases hOk
    | ok addresses =>
      obtain ⟨-, -, -, hEnd⟩ := @dialFrom_offers c.config w.trial 0 {} addresses
      simp only [hAddresses]
      generalize dialFrom c.config w.trial 0 {} addresses = dialed at hEnd
      obtain ⟨d, loopEnd⟩ := dialed
      rw [counted_iff hHost hAddresses, prepared_iff]
      rcases endOf_cases (offers c.config w.trial 0 addresses) with
        ⟨hIs, hFound⟩ | ⟨x, e, hIs, hFound, hAnswer⟩ | ⟨x, hIs, hFound, hAnswer⟩
      · rw [hIs] at hEnd
        subst hEnd
        refine ⟨(started c m).recordDirectFailure, 1, rfl,
          ⟨rfl, (Nat.add_assoc _ _ _).symm, ⟨_, 0, Nat.zero_le _, hDns, rfl, rfl⟩,
          ⟨0, 0, 0, Nat.le_refl _, Nat.le_refl _, rfl, rfl, rfl⟩⟩, Or.inl ⟨?_, rfl⟩⟩
        intro x hx
        rw [hFound] at hx
        cases hx
      · rw [hIs] at hEnd
        subst hEnd
        refine ⟨started c m, 0, rfl, ⟨rfl, rfl, ⟨_, 0, Nat.zero_le _, hDns, rfl, rfl⟩,
          ⟨0, 0, 0, Nat.le_refl _, Nat.le_refl _, rfl, rfl, rfl⟩⟩, Or.inr ⟨fun hPrepared => ?_, rfl⟩⟩
        have hNot := hPrepared x hFound
        rw [hAnswer] at hNot
        cases hNot
      · rw [hIs] at hEnd
        subst hEnd
        obtain ⟨attempted, failed, hFailed, hAttempted, hUpgrade⟩ :=
          @upgrade_metrics c w (started c m).recordDirectSuccess host (decide (dst.scheme = some (utf8 "https")))
        dsimp only
        refine ⟨_, 1, hUpgrade, ⟨rfl, ?_, ⟨_, 0, Nat.zero_le _, hDns, rfl, rfl⟩,
          ⟨1, attempted, failed, hFailed, hAttempted, rfl, rfl, rfl⟩⟩,
          Or.inl ⟨?_, rfl⟩⟩
        · exact Nat.add_right_comm _ _ _
        · intro y hy
          rw [hFound] at hy
          obtain rfl := Option.some.inj hy
          rw [hAnswer]
          rfl

theorem Adds.balanced {m m' : TransportMetrics} {n k : Nat} (h : Adds m m' n)
    (hAttempts : m.directConnectorAttempts = m.directConnectorSuccesses + m.directConnectorFailures + k) (hn : n ≤ 1) :
    m'.directConnectorAttempts = m'.directConnectorSuccesses + m'.directConnectorFailures + (k + (1 - n)) := by
  have hAttempted := h.attempts
  have hOutcome := h.outcome
  omega

/-- The parts of the law that hold whatever happens. -/
structure Bounded (m : TransportMetrics) : Prop where
  dns : m.directDnsFailures ≤ m.directDnsAttempts ∧ m.directDnsAttempts ≤ m.directConnectorAttempts
  tls : m.directTlsFailures ≤ m.directTlsAttempts ∧ m.directTlsAttempts ≤ m.directConnectorSuccesses

theorem Adds.keepsBounds {m m' : TransportMetrics} {n : Nat} (h : Adds m m' n) (hBounded : Bounded m) : Bounded m' := by
  obtain ⟨⟨hDnsFailed, hDns⟩, hTlsFailed, hTls⟩ := hBounded
  have hAttempted := h.attempts
  obtain ⟨attempted, failed, hLess, hOne, hAttempts, hFailures⟩ := h.dns
  obtain ⟨succeeded, handshakes, broken, hBroken, hHandshakes, hSuccesses, hTlsAttempts, hTlsFailures⟩ := h.tls
  exact ⟨⟨by omega, by omega⟩, by omega, by omega⟩

private theorem run_unaccounted (calls : List Call) (m : TransportMetrics) (k : Nat) (hBounded : Bounded m)
    (hAttempts : m.directConnectorAttempts = m.directConnectorSuccesses + m.directConnectorFailures + k) :
    ∃ lost, Bounded (calls.foldl Call.run m) ∧
      (calls.foldl Call.run m).directConnectorAttempts =
        (calls.foldl Call.run m).directConnectorSuccesses + (calls.foldl Call.run m).directConnectorFailures + (k + lost) ∧
      (lost = 0 ↔ ∀ call ∈ calls, call.Counted) := by
  induction calls generalizing m k with
  | nil => exact ⟨0, hBounded, hAttempts, iff_of_true rfl (List.forall_mem_nil _)⟩
  | cons call calls ih =>
    obtain ⟨m', n, hMetrics, hAdds, hCounted⟩ := call_adds call.connector call.world call.dst m
    have hRun : Call.run m call = m' := by
      rw [Call.run, hMetrics]
      rfl
    have hn : n ≤ 1 := by rcases hCounted with ⟨-, rfl⟩ | ⟨-, rfl⟩ <;> decide
    obtain ⟨lost, hBound, hBalance, hAll⟩ := ih m' (k + (1 - n)) (hAdds.keepsBounds hBounded) (hAdds.balanced hAttempts hn)
    refine ⟨1 - n + lost, ?_, ?_, ?_⟩
    · rw [List.foldl_cons, hRun]
      exact hBound
    · rw [List.foldl_cons, hRun, hBalance]
      omega
    · rw [List.forall_mem_cons, ← hAll]
      rcases hCounted with ⟨hYes, rfl⟩ | ⟨hNo, rfl⟩
      · exact ⟨fun hLost => ⟨hYes, by omega⟩, fun h => by omega⟩
      · exact iff_of_false (by omega) fun h => hNo h.1

/-- After a sequence of calls the counters add up exactly if each of them had a host and came to no candidate whose socket
could not be prepared. -/
theorem counters_balanced_iff (calls : List Call) : Balanced (calls.foldl Call.run {}) ↔ ∀ call ∈ calls, call.Counted := by
  obtain ⟨lost, hBounded, hAttempts, hAll⟩ :=
    run_unaccounted calls {} 0 ⟨⟨Nat.le_refl 0, Nat.le_refl 0⟩, Nat.le_refl 0, Nat.le_refl 0⟩ rfl
  rw [← hAll]
  constructor
  · intro h
    have hExact := h.attempts
    omega
  · rintro rfl
    exact ⟨by omega, hBounded.dns, hBounded.tls⟩

/-- A call whose only candidate gets a socket option that the connector does not support. -/
def unsupportedOption : Call where
  connector :=
    { config := { localAddress := none, socketOptions := [{ level := 1, option := 2, value := [1, 0, 0, 0], kind := none }] }
      tls := false, sniHostname := none, resolvedAddresses := some [.v4 0x7f000001 80], tlsRustls := true }
  world :=
    { resolve := fun _ _ => .ok [], trial := fun _ => ⟨.ok (), fun _ _ => .ok (), .ok (), .ok ()⟩, setNodelay := .ok ()
      tryFrom := fun name => .ok (.dnsName name), handshake := fun _ => .ok () }
  dst := { scheme := some (utf8 "http"), host := some (utf8 "localhost"), port := none }

/-- The attempt of that call is neither a success nor a failure. -/
theorem not_counters_balanced : ¬ ∀ calls : List Call, Balanced (calls.foldl Call.run {}) := by
  intro h
  have hAttempts := (h [unsupportedOption]).attempts
  exact absurd hAttempts (by decide)

end

end Eggfetch.Transport.Direct
