import Eggfetch.Proxy.Attempts
import Eggfetch.Proxy.SocksTunnel

/-! The addresses of one destination, tried in turn through a proxy: the SOCKS5 handshake and the
`CONNECT` loop of `transport/connect.rs`. -/
namespace Eggfetch.Proxy
open Text Http Attempts
open Routing (IpAddr SocketAddr ResolvedTarget)

abbrev Connect := Except SocksError Socket

def establishSocksProxyConnection (auth : Option ProxyAuth) (connection : Connect) : Connect :=
  match connection with
  | .error e => .error e
  | .ok socket =>
    match establish auth socket with
    | .error e _ => .error e
    | .ok _ socket => .ok socket

def connectIp (ip : IpAddr) (port : UInt16) (socket : Socket) : Except TargetAttemptError Socket :=
  match sendConnectIp ip port socket with
  | .error e _ => .error e
  | .ok _ socket => .ok socket

def handshakeWithIp (auth : Option ProxyAuth) (connection : Connect) (ip : IpAddr) (port : UInt16) :
    Except TargetAttemptError Socket :=
  match establishSocksProxyConnection auth connection with
  | .error e => .error (.terminal e)
  | .ok socket => connectIp ip port socket

/-- Both loops: `len` addresses in all, of which some are left from number `index` on. -/
def socksLoop {α : Type} (empty : SocksError) (attempt : Nat → α → Except TargetAttemptError Socket) (len : Nat) :
    Nat → List α → Option SocksError → List (α × Except TargetAttemptError Socket) × Except SocksError Socket
  | _, [], lastErr => ([], .error (lastErr.getD empty))
  | index, target :: rest, _ =>
    let outcome := attempt index target
    match outcome with
    | .ok stream => ([(target, outcome)], .ok stream)
    | .error (.retryable e) =>
      if index + 1 < len then
        let (tried, result) := socksLoop empty attempt len (index + 1) rest (some e)
        ((target, outcome) :: tried, result)
      else ([(target, outcome)], .error e)
    | .error (.terminal e) => ([(target, outcome)], .error e)

def emptyTargets : SocksError := .connect (utf8 "empty SOCKS target set")

section
variable (resolver : Str → Lookup) (auth : Option ProxyAuth) (connections : Nat → Connect)

/-- The addresses that the caller pins; the loop leaves by `?` when there is no connection. -/
def pinnedLoop (targets : List (IpAddr × UInt16)) :
    List ((IpAddr × UInt16) × Except TargetAttemptError Socket) × Except SocksError Socket :=
  socksLoop emptyTargets (fun index target => handshakeWithIp auth (connections index) target.1 target.2) targets.length 0
    targets none

def resolvedLoop (host : Str) (port : UInt16) (addrs : List IpAddr) :
    List (IpAddr × Except TargetAttemptError Socket) × Except SocksError Socket :=
  socksLoop (.connect (utf8 "DNS resolution failed for SOCKS destination " ++ host))
    (fun index ip => handshakeWithIp auth (connections index) ip port) addrs.length 0 addrs none

/-- The attempt that leaves the host to `send_connect`. -/
def singleAttempt (remoteDns : Bool) (host : Str) (port : UInt16) : Except SocksError Socket :=
  match establishSocksProxyConnection auth (connections 0) with
  | .error e => .error e
  | .ok socket =>
    match sendConnect resolver remoteDns host port socket with
    | .error e _ => .error e
    | .ok _ socket => .ok socket

/-- `connections` are the connections to the proxy in the order in which they are opened. -/
def socks5Handshake (host : Str) (port : UInt16) (remoteDns : Bool) (pinned : Option (List (IpAddr × UInt16))) :
    Except SocksError Socket :=
  match pinned with
  | some [] => .error emptyTargets
  | some (target :: more) => (pinnedLoop auth connections (target :: more)).2
  | none =>
    if remoteDns = false ∧ parseIpAddr host = none then
      match resolveDestIps resolver host with
      | .ok addrs =>
        if 1 < addrs.length then (resolvedLoop auth connections host port addrs).2
        else singleAttempt resolver auth connections remoteDns host port
      | .error _ => singleAttempt resolver auth connections remoteDns host port
    else singleAttempt resolver auth connections remoteDns host port

end

def TargetAttemptError.mayRetry : TargetAttemptError → Bool
  | retryable _ => true
  | terminal _ => false

section replies

def Terminal {α : Type} (x : Socks TargetAttemptError α) : Prop :=
  ∀ socket e between, x socket = .error e between → e.mayRetry = false

variable {α β : Type}

private theorem Terminal.pure (a : α) : Terminal (Pure.pure a) := by
  intro _ _ _ h
  cases h

private theorem Terminal.throw (e : SocksError) : Terminal (MonadExcept.throw (TargetAttemptError.terminal e) : Socks _ α) := by
  rintro _ _ _ ⟨⟩
  rfl

private theorem Terminal.bind {x : Socks TargetAttemptError α} {f : α → Socks TargetAttemptError β} (hFirst : Terminal x)
    (hSecond : ∀ a, Terminal (f a)) : Terminal (x >>= f) := by
  intro socket e between h
  cases hX : x socket with
  | ok a after =>
    rw [bind_eq hX] at h
    exact hSecond a after e between h
  | error first after =>
    rw [bind_error hX] at h
    cases h
    exact hFirst socket e between hX

private theorem terminal_readReply (n : Nat) (phase : String) : Terminal (readReply n phase) := by
  intro socket e between h
  rw [readReply, EStateM.adaptExcept] at h
  split at h
  · cases h
    rfl
  · cases h

private theorem terminal_readBoundAddress (atyp : UInt8) : Terminal (readBoundAddress atyp) := by
  unfold readBoundAddress
  split_ifs
  · exact (terminal_readReply _ _).bind fun _ => .pure _
  · exact (terminal_readReply _ _).bind fun _ => .pure _
  · exact (terminal_readReply _ _).bind fun _ => (terminal_readReply _ _).bind fun _ => .pure _
  · exact .throw _

private theorem mayRetry_replyError (code : UInt8) : (replyError code).mayRetry = true ↔ code ∈ [0x03, 0x04, 0x05] := by
  unfold replyError replyMessage
  split_ifs <;> simp_all [TargetAttemptError.mayRetry]

/-- The network or the host is unreachable from the proxy, or refuses its connection. -/
structure BlamesTarget (incoming : Str) : Prop where
  header : 4 ≤ incoming.length
  version : incoming.headD 0 = socks5Version
  code : incoming.getD 1 0 ∈ [0x03, 0x04, 0x05]

private theorem readReply_header {socket : Socket} (h : 4 ≤ socket.incoming.length) (phase : String) :
    readReply 4 phase socket = .ok (socket.incoming.take 4) { socket with incoming := socket.incoming.drop 4 } := by
  rw [readReply, EStateM.adaptExcept, readExact, if_pos h]

private theorem readReply_short {socket : Socket} (h : ¬4 ≤ socket.incoming.length) (phase : String) :
    readReply 4 phase socket = .error (.terminal (socket.ending.error phase)) { socket with incoming := [] } := by
  rw [readReply, EStateM.adaptExcept, readExact, if_neg h]

private theorem parseConnectReplyForTarget_mayRetry (socket : Socket) :
    (∃ e between, parseConnectReplyForTarget socket = .error (.retryable e) between) ↔ BlamesTarget socket.incoming := by
  by_cases hHeader : 4 ≤ socket.incoming.length
  · obtain ⟨version, code, reserved, atyp, rest, hIncoming⟩ : ∃ version code reserved atyp rest,
        socket.incoming = version :: code :: reserved :: atyp :: rest := by
      generalize socket.incoming = incoming at hHeader ⊢
      rcases incoming with _ | ⟨version, _ | ⟨code, _ | ⟨reserved, _ | ⟨atyp, rest⟩⟩⟩⟩
      iterate 4 exact absurd hHeader (by simp)
      exact ⟨version, code, reserved, atyp, rest, rfl⟩
    have hParse : parseConnectReplyForTarget socket =
        (if version ≠ socks5Version then
          throw (.terminal (.proxyConnect (utf8 "SOCKS5 reply has invalid version: " ++ byteText version)))
        else if code ≠ repSuccess then throw (replyError code)
        else readBoundAddress atyp) { socket with incoming := rest } := by
      rw [parseConnectReplyForTarget, bind_eq (readReply_header hHeader _), hIncoming]
      rfl
    have hBlames : BlamesTarget socket.incoming ↔ version = socks5Version ∧ code ∈ [0x03, 0x04, 0x05] := by
      rw [hIncoming]
      exact ⟨fun h => ⟨h.version, h.code⟩, fun ⟨hVersion, hCode⟩ => ⟨Nat.le_add_left 4 _, hVersion, hCode⟩⟩
    rw [hParse, hBlames]
    by_cases hVersion : version = socks5Version
    · rw [if_neg (not_not.mpr hVersion), and_iff_right hVersion, ← mayRetry_replyError]
      by_cases hCode : code = repSuccess
      · rw [if_neg (not_not.mpr hCode), hCode]
        constructor
        · rintro ⟨e, between, h⟩
          cases terminal_readBoundAddress atyp _ _ _ h
        · exact fun h => absurd h (by decide)
      · rw [if_pos hCode]
        cases replyError code with
        | retryable e => exact iff_of_true ⟨e, _, rfl⟩ rfl
        | terminal e =>
          refine iff_of_false ?_ Bool.false_ne_true
          rintro ⟨_, _, ⟨⟩⟩
    · rw [if_pos hVersion]
      refine iff_of_false ?_ fun h => hVersion h.1
      rintro ⟨_, _, ⟨⟩⟩
  · have hShort : parseConnectReplyForTarget socket = _ := bind_error (readReply_short hHeader _)
    rw [hShort]
    refine iff_of_false ?_ fun h => hHeader h.header
    rintro ⟨_, _, ⟨⟩⟩

private theorem connectIp_mayRetry (ip : IpAddr) (port : UInt16) (socket : Socket) :
    (∃ e, connectIp ip port socket = .error (.retryable e)) ↔ BlamesTarget socket.incoming := by
  rw [← parseConnectReplyForTarget_mayRetry { socket with sent := socket.sent ++ ipRequest ip port }]
  have hSend : sendConnectIp ip port socket =
    parseConnectReplyForTarget { socket with sent := socket.sent ++ ipRequest ip port } := bind_eq rfl
  rw [connectIp, hSend]
  cases parseConnectReplyForTarget { socket with sent := socket.sent ++ ipRequest ip port } with
  | ok a after =>
    constructor
    · rintro ⟨_, ⟨⟩⟩
    · rintro ⟨_, _, ⟨⟩⟩
  | error e after =>
    constructor
    · rintro ⟨e, ⟨⟩⟩
      exact ⟨e, after, rfl⟩
    · rintro ⟨e, _, ⟨⟩⟩
      exact ⟨e, rfl⟩

/-- A handshake that fails goes on to the next address exactly where the reply of the proxy blames this one. -/
theorem handshakeWithIp_mayRetry (auth : Option ProxyAuth) (connection : Connect) (ip : IpAddr) (port : UInt16) :
    (∃ e, handshakeWithIp auth connection ip port = .error (.retryable e)) ↔
      ∃ socket, establishSocksProxyConnection auth connection = .ok socket ∧ BlamesTarget socket.incoming := by
  rw [handshakeWithIp]
  cases hProxy : establishSocksProxyConnection auth connection with
  | error e =>
    constructor
    · rintro ⟨_, ⟨⟩⟩
    · rintro ⟨_, ⟨⟩, _⟩
  | ok socket =>
    refine (connectIp_mayRetry ip port socket).trans ⟨fun h => ⟨socket, rfl, h⟩, ?_⟩
    rintro ⟨_, ⟨⟩, h⟩
    exact h

end replies

section socks
variable {α : Type} {empty : SocksError} {attempt : Nat → α → Except TargetAttemptError Socket} {target : α} {rest : List α}
  {index len : Nat} {stream : Socket} {e : SocksError} (lastErr : Option SocksError)

theorem socksLoop_ok (h : attempt index target = .ok stream) :
    socksLoop empty attempt len index (target :: rest) lastErr = ([(target, .ok stream)], .ok stream) := by
  rw [socksLoop, h]

theorem socksLoop_terminal (h : attempt index target = .error (.terminal e)) :
    socksLoop empty attempt len index (target :: rest) lastErr = ([(target, .error (.terminal e))], .error e) := by
  rw [socksLoop, h]

theorem socksLoop_last (h : attempt index target = .error (.retryable e)) (hLast : ¬index + 1 < len) :
    socksLoop empty attempt len index (target :: rest) lastErr = ([(target, .error (.retryable e))], .error e) := by
  rw [socksLoop, h]
  exact if_neg hLast

private theorem socksLoop_next (h : attempt index target = .error (.retryable e)) (hMore : index + 1 < len) :
    socksLoop empty attempt len index (target :: rest) lastErr =
      ((target, .error (.retryable e)) :: (socksLoop empty attempt len (index + 1) rest (some e)).1,
        (socksLoop empty attempt len (index + 1) rest (some e)).2) := by
  rw [socksLoop, h]
  exact if_pos hMore

theorem socksLoop_one (empty : SocksError) (attempt : Nat → α → Except TargetAttemptError Socket) (target : α) :
    (socksLoop empty attempt 1 0 [target] none).2 = (attempt 0 target).mapError TargetAttemptError.intoError := by
  cases hOutcome : attempt 0 target with
  | ok stream => rw [socksLoop_ok none hOutcome]; rfl
  | error e =>
    cases e with
    | retryable e => rw [socksLoop_last none hOutcome (lt_irrefl _)]; rfl
    | terminal e => rw [socksLoop_terminal none hOutcome]; rfl

private theorem socksLoop_fallsBack (h : index + (rest.length + 1) = len) :
    ∃ last, FallsBack TargetAttemptError.mayRetry attempt index (target :: rest)
        (socksLoop empty attempt len index (target :: rest) lastErr).1 last ∧
      (socksLoop empty attempt len index (target :: rest) lastErr).2 = last.mapError TargetAttemptError.intoError := by
  induction rest generalizing index target lastErr with
  | nil =>
    have hLast : ¬index + 1 < len := by
      rw [List.length_nil] at h
      omega
    cases hOutcome : attempt index target with
    | ok stream =>
      rw [socksLoop_ok lastErr hOutcome]
      exact ⟨_, .last hOutcome, rfl⟩
    | error e =>
      cases e with
      | retryable e =>
        rw [socksLoop_last lastErr hOutcome hLast]
        exact ⟨_, .last hOutcome, rfl⟩
      | terminal e =>
        rw [socksLoop_terminal lastErr hOutcome]
        exact ⟨_, .last hOutcome, rfl⟩
  | cons following rest ih =>
    have hMore : index + 1 < len := by
      rw [List.length_cons] at h
      omega
    cases hOutcome : attempt index target with
    | ok stream =>
      rw [socksLoop_ok lastErr hOutcome]
      refine ⟨_, .stop hOutcome ?_, rfl⟩
      intro e hError
      cases hError
    | error e =>
      cases e with
      | retryable e =>
        rw [socksLoop_next lastErr hOutcome hMore]
        have hRest : index + 1 + (rest.length + 1) = len := by
          rw [List.length_cons] at h
          omega
        obtain ⟨last, hFalls, hResult⟩ := ih (some e) hRest
        exact ⟨last, hFalls.next hOutcome rfl, hResult⟩
      | terminal e =>
        rw [socksLoop_terminal lastErr hOutcome]
        refine ⟨_, .stop hOutcome ?_, rfl⟩
        rintro _ ⟨⟩
        rfl

end socks

/-- A run of attempts at addresses, and what the handshake makes of the last one. -/
def SocksRun {α : Type} (attempt : Nat → α → Except TargetAttemptError Socket) (targets : List α)
    (run : List (α × Except TargetAttemptError Socket) × Except SocksError Socket) : Prop :=
  ∃ last, FallsBack TargetAttemptError.mayRetry attempt 0 targets run.1 last ∧
    run.2 = last.mapError TargetAttemptError.intoError

section handshake
variable {resolver : Str → Lookup} {auth : Option ProxyAuth} {connections : Nat → Connect} {host : Str} {port : UInt16}

theorem socksLoop_run {α : Type} (empty : SocksError) (attempt : Nat → α → Except TargetAttemptError Socket) (target : α)
    (rest : List α) :
    SocksRun attempt (target :: rest) (socksLoop empty attempt (target :: rest).length 0 (target :: rest) none) :=
  socksLoop_fallsBack none (Nat.zero_add _)

private theorem sendConnect_resolved {ip : IpAddr} (hName : parseIpAddr host = none) (h : resolveDestIp resolver host = .ok ip) :
    sendConnect resolver false host port = (sendConnectIp ip port).adaptExcept TargetAttemptError.intoError := by
  have hRequest : connectRequest resolver false host port = .ok (ipRequest ip port) := by
    rw [connectRequest, hName, h]
    rfl
  rw [sendConnect, hRequest]
  rfl

private theorem singleAttempt_resolved {ip : IpAddr} (hName : parseIpAddr host = none)
    (h : resolveDestIps resolver host = .ok [ip]) :
    singleAttempt resolver auth connections false host port =
      (handshakeWithIp auth (connections 0) ip port).mapError TargetAttemptError.intoError := by
  have hIp : resolveDestIp resolver host = .ok ip := by rw [resolveDestIp, h]
  unfold singleAttempt handshakeWithIp
  cases hProxy : establishSocksProxyConnection auth (connections 0) with
  | error e => rfl
  | ok socket =>
    dsimp only
    rw [sendConnect_resolved hName hIp, connectIp, EStateM.adaptExcept]
    cases sendConnectIp ip port socket <;> rfl

theorem resolveDestIps_ne_nil {addrs : List IpAddr} (h : resolveDestIps resolver host = .ok addrs) : addrs ≠ [] := by
  unfold resolveDestIps at h
  split at h
  · cases h
    exact List.cons_ne_nil _ _
  · cases h
    exact List.cons_ne_nil _ _
  · split at h
    · cases h
    · cases h
    · cases h
    · cases h
      exact List.cons_ne_nil _ _

private theorem resolvedLoop_one (ip : IpAddr) :
    (resolvedLoop auth connections host port [ip]).2 =
      (handshakeWithIp auth (connections 0) ip port).mapError TargetAttemptError.intoError :=
  socksLoop_one _ _ ip

private theorem socks5Handshake_resolved {addrs : List IpAddr} (hName : parseIpAddr host = none)
    (h : resolveDestIps resolver host = .ok addrs) :
    socks5Handshake resolver auth connections host port false none = (resolvedLoop auth connections host port addrs).2 := by
  rw [socks5Handshake, if_pos ⟨rfl, hName⟩, h]
  dsimp only
  split_ifs with hMany
  · rfl
  · have hSome := List.length_pos_iff.mpr (resolveDestIps_ne_nil h)
    obtain ⟨ip, rfl⟩ := List.length_eq_one_iff.mp (by omega : addrs.length = 1)
    rw [singleAttempt_resolved hName h, resolvedLoop_one]

end handshake

/-- The errors of a tunnel and of the request in it. -/
inductive ConnectError where
  | proxyConnectRejected (status : Nat) (body : Str)
  | bodyNotReplayableForRetry
  | connect (message : Str)
  | tls (message : Str)
  | timeout
  | proxy (error : Error)

/-- The errors of writing a request and of reading the response, which come after the tunnel. -/
inductive ExchangeError where
  | timeout
  | proxy (error : Error)

def ExchangeError.toError : ExchangeError → ConnectError
  | timeout => .timeout
  | proxy error => .proxy error

/-- What an attempt meets: `establish_https_tunnel`, then the origin. -/
structure Origin (R : Type) where
  tunnel : Except ConnectError Unit
  exchange : RequestBody → Except ExchangeError R

/-- What became of an attempt, and the body that an origin was sent. -/
structure ConnectAttempt (R : Type) where
  outcome : Except ConnectError R
  transmitted : Option RequestBody

variable {R : Type}

/-- `send_https_connect_request_once` -/
def Origin.sendOnce (origin : Origin R) (body : RequestBody) : ConnectAttempt R :=
  match origin.tunnel with
  | .error e => ⟨.error e, none⟩
  | .ok () =>
    match origin.exchange body with
    | .error e => ⟨.error e.toError, some body⟩
    | .ok response => ⟨.ok response, some body⟩

def RequestBody.tryCloneForRetry : RequestBody → Except ConnectError RequestBody
  | empty => .ok empty
  | bytes data => .ok (bytes data)
  | stream _ _ => .error .bodyNotReplayableForRetry

def targetFailureMayRetry : ConnectError → Bool
  | .proxyConnectRejected status _ => status = 502 || status = 504
  | _ => false

def attemptBody (last index : Nat) (body : Option RequestBody) : Except ConnectError (RequestBody × Option RequestBody) :=
  if index = last then
    match body with
    | none => .error (.connect (utf8 "missing request body for CONNECT attempt"))
    | some body => .ok (body, none)
  else
    match body with
    | none => .error (.connect (utf8 "missing request body for CONNECT retry"))
    | some body => body.tryCloneForRetry.map (·, some body)

/-- The loop of `send_https_connect_request`, from target number `index` on. -/
def connectLoop {α : Type} (origins : Nat → α → Origin R) (last : Nat) :
    Nat → List α → Option RequestBody → Option ConnectError → List (α × ConnectAttempt R) × Except ConnectError R
  | _, [], _, lastError => ([], .error (lastError.getD (.connect (utf8 "no CONNECT targets attempted"))))
  | index, target :: rest, body, _ =>
    match attemptBody last index body with
    | .error e => ([], .error e)
    | .ok (attempted, kept) =>
      let attempt := (origins index target).sendOnce attempted
      match attempt.outcome with
      | .ok response => ([(target, attempt)], .ok response)
      | .error error =>
        if index < last ∧ targetFailureMayRetry error = true then
          let (tried, result) := connectLoop origins last (index + 1) rest kept (some error)
          ((target, attempt) :: tried, result)
        else ([(target, attempt)], .error error)

/-- The targets of `send_https_connect_request`: the pinned addresses, or the host of the URL. -/
def connectTargets (proxiedTarget : Option ResolvedTarget) : List (Option SocketAddr) :=
  match proxiedTarget with
  | some target => target.addresses.map some
  | none => [none]

section connect
variable {α : Type} {origins : Nat → α → Origin R} {target : α} {rest : List α} {body : RequestBody} {index last : Nat}

def RequestBody.Replayable (body : RequestBody) : Prop := body.tryCloneForRetry = .ok body

theorem Origin.sendOnce_retry {origin : Origin R} {e : ConnectError} (h : (origin.sendOnce body).outcome = .error e)
    (hRetry : targetFailureMayRetry e = true) : (origin.sendOnce body).transmitted = none := by
  unfold Origin.sendOnce at h ⊢
  cases hTunnel : origin.tunnel with
  | error e => rfl
  | ok _ =>
    rw [hTunnel] at h
    dsimp only at h
    cases hExchange : origin.exchange body with
    | ok response =>
      rw [hExchange] at h
      cases h
    | error failure =>
      rw [hExchange] at h
      cases h
      cases failure <;> cases hRetry

def HasBody (last index : Nat) (body : RequestBody) : Prop := index = last ∨ body.Replayable

variable (body) in
theorem attemptBody_ok (h : HasBody last index body) :
    ∃ kept, attemptBody last index (some body) = .ok (body, kept) ∧ (index ≠ last → kept = some body) := by
  unfold attemptBody
  split_ifs with hLast
  · exact ⟨none, rfl, fun hNe => absurd hLast hNe⟩
  · have hClone : body.tryCloneForRetry = .ok body := h.resolve_left hLast
    dsimp only
    rw [hClone]
    exact ⟨some body, rfl, fun _ => rfl⟩

variable (lastError : Option ConnectError)

theorem connectLoop_ok {kept : Option RequestBody} {response : R} (hBody : attemptBody last index (some body) = .ok (body, kept))
    (h : ((origins index target).sendOnce body).outcome = .ok response) :
    connectLoop origins last index (target :: rest) (some body) lastError =
      ([(target, (origins index target).sendOnce body)], .ok response) := by
  rw [connectLoop, hBody]
  dsimp only
  rw [h]

theorem connectLoop_stop {kept : Option RequestBody} {error : ConnectError}
    (hBody : attemptBody last index (some body) = .ok (body, kept))
    (h : ((origins index target).sendOnce body).outcome = .error error)
    (hStop : ¬(index < last ∧ targetFailureMayRetry error = true)) :
    connectLoop origins last index (target :: rest) (some body) lastError =
      ([(target, (origins index target).sendOnce body)], .error error) := by
  rw [connectLoop, hBody]
  dsimp only
  rw [h]
  exact if_neg hStop

theorem connectLoop_next {kept : Option RequestBody} {error : ConnectError}
    (hBody : attemptBody last index (some body) = .ok (body, kept))
    (h : ((origins index target).sendOnce body).outcome = .error error)
    (hNext : index < last ∧ targetFailureMayRetry error = true) :
    connectLoop origins last index (target :: rest) (some body) lastError =
      ((target, (origins index target).sendOnce body) :: (connectLoop origins last (index + 1) rest kept (some error)).1,
        (connectLoop origins last (index + 1) rest kept (some error)).2) := by
  rw [connectLoop, hBody]
  dsimp only
  rw [h]
  exact if_pos hNext

end connect

/-- What the loop owes to the caller: its attempts fall back in order, and one origin at most has the body. -/
structure ConnectRun {α : Type} (origins : Nat → α → Origin R) (body : RequestBody) (start : Nat) (targets : List α)
    (run : List (α × ConnectAttempt R) × Except ConnectError R) : Prop where
  falls : FallsBack targetFailureMayRetry (fun index target => ((origins index target).sendOnce body).outcome) start targets
    (run.1.map fun tried => (tried.1, tried.2.outcome)) run.2
  once : (run.1.filter fun tried => tried.2.transmitted.isSome).length ≤ 1

section connectRun
variable {α : Type} {origins : Nat → α → Origin R} {body : RequestBody} {index : Nat} {target : α} {rest : List α}
  {result : Except ConnectError R} {run : List (α × ConnectAttempt R) × Except ConnectError R}

theorem ConnectRun.one (hOutcome : ((origins index target).sendOnce body).outcome = result)
    (h : rest ≠ [] → ∀ e, result = .error e → targetFailureMayRetry e = false) :
    ConnectRun origins body index (target :: rest) ([(target, (origins index target).sendOnce body)], result) where
  falls := by
    rw [List.map_singleton, hOutcome]
    exact FallsBack.one hOutcome h
  once := List.length_filter_le _ _

private theorem ConnectRun.next {e : ConnectError} (hOutcome : ((origins index target).sendOnce body).outcome = .error e)
    (hRetry : targetFailureMayRetry e = true) (h : ConnectRun origins body (index + 1) rest run) :
    ConnectRun origins body index (target :: rest) ((target, (origins index target).sendOnce body) :: run.1, run.2) where
  falls := by
    rw [List.map_cons, hOutcome]
    exact h.falls.next hOutcome hRetry
  once := by
    rw [List.filter_cons, Origin.sendOnce_retry hOutcome hRetry]
    exact h.once

theorem connectLoop_run {last : Nat} (hLast : index + rest.length = last) (hBody : rest = [] ∨ body.Replayable)
    (lastError : Option ConnectError) :
    ConnectRun origins body index (target :: rest) (connectLoop origins last index (target :: rest) (some body) lastError) := by
  induction rest generalizing index target lastError with
  | nil =>
    have hAt : HasBody last index body := .inl hLast
    obtain ⟨kept, hAttempt, -⟩ := attemptBody_ok body hAt
    cases hOutcome : ((origins index target).sendOnce body).outcome with
    | ok response =>
      rw [connectLoop_ok lastError hAttempt hOutcome]
      exact .one hOutcome fun hNe => absurd rfl hNe
    | error e =>
      have hStop : ¬(index < last ∧ targetFailureMayRetry e = true) := by
        rw [List.length_nil] at hLast
        omega
      rw [connectLoop_stop lastError hAttempt hOutcome hStop]
      exact .one hOutcome fun hNe => absurd rfl hNe
  | cons following rest ih =>
    have hReplayable := hBody.resolve_left (List.cons_ne_nil _ _)
    have hMore : index < last := by
      rw [List.length_cons] at hLast
      omega
    have hHas : HasBody last index body := .inr hReplayable
    obtain ⟨kept, hAttempt, hKept⟩ := attemptBody_ok body hHas
    obtain rfl := hKept hMore.ne
    cases hOutcome : ((origins index target).sendOnce body).outcome with
    | ok response =>
      rw [connectLoop_ok lastError hAttempt hOutcome]
      refine .one hOutcome ?_
      rintro - e ⟨⟩
    | error e =>
      by_cases hRetry : targetFailureMayRetry e = true
      · rw [connectLoop_next lastError hAttempt hOutcome ⟨hMore, hRetry⟩]
        refine .next hOutcome hRetry (ih ?_ (.inr hReplayable) _)
        rw [List.length_cons] at hLast
        omega
      · rw [connectLoop_stop lastError hAttempt hOutcome fun h => hRetry h.2]
        refine .one hOutcome ?_
        rintro - _ ⟨⟩
        exact Bool.eq_false_iff.mpr hRetry

private theorem connectLoop_oneShot {last : Nat} (h : index ≠ last) (hBody : ¬body.Replayable) (lastError : Option ConnectError) :
    connectLoop origins last index (target :: rest) (some body) lastError = ([], .error .bodyNotReplayableForRetry) := by
  have hClone : body.tryCloneForRetry = .error .bodyNotReplayableForRetry := by
    cases body with
    | empty | bytes => exact absurd rfl hBody
    | stream => rfl
  have hAttempt : attemptBody last index (some body) = .error .bodyNotReplayableForRetry := by
    rw [attemptBody, if_neg h, hClone]
    rfl
  rw [connectLoop, hAttempt]

end connectRun

/-- The handshakes fall back over the pinned addresses, and over the resolved ones. -/
structure SocksFallsBack (resolver : Str → Lookup) (auth : Option ProxyAuth) (connections : Nat → Connect) (host : Str)
    (port : UInt16) (pinned : List (IpAddr × UInt16)) : Prop where
  pinned : SocksRun (fun index target => handshakeWithIp auth (connections index) target.1 target.2) pinned
      (pinnedLoop auth connections pinned) ∧
    ∀ remoteDns, socks5Handshake resolver auth connections host port remoteDns (some pinned) =
      (pinnedLoop auth connections pinned).2
  resolved : ∀ addrs, parseIpAddr host = none → resolveDestIps resolver host = .ok addrs →
    SocksRun (fun index ip => handshakeWithIp auth (connections index) ip port) addrs
        (resolvedLoop auth connections host port addrs) ∧
      socks5Handshake resolver auth connections host port false none = (resolvedLoop auth connections host port addrs).2

private theorem socksFallsBack (resolver : Str → Lookup) (auth : Option ProxyAuth) (connections : Nat → Connect) (host : Str)
    (port : UInt16) (target : IpAddr × UInt16) (more : List (IpAddr × UInt16)) :
    SocksFallsBack resolver auth connections host port (target :: more) where
  pinned := ⟨socksLoop_run _ _ target more, fun _ => rfl⟩
  resolved := by
    intro addrs hName h
    obtain ⟨ip, rest, rfl⟩ := List.exists_cons_of_ne_nil (resolveDestIps_ne_nil h)
    exact ⟨socksLoop_run _ _ ip rest, socks5Handshake_resolved hName h⟩

/-- `send_https_connect_request` over all its targets. -/
def sendToTargets (origins : Nat → Option SocketAddr → Origin R) (proxiedTarget : Option ResolvedTarget) (body : RequestBody) :
    List (Option SocketAddr × ConnectAttempt R) × Except ConnectError R :=
  let targets := connectTargets proxiedTarget
  connectLoop origins (targets.length - 1) 0 targets (some body) none

/-- What both loops owe to the caller. -/
structure FallbacksHold (resolver : Str → Lookup) (auth : Option ProxyAuth) (connections : Nat → Connect) (host : Str)
    (port : UInt16) (pinned : List (IpAddr × UInt16)) (origins : Nat → Option SocketAddr → Origin R)
    (proxiedTarget : Option ResolvedTarget) (body : RequestBody) : Prop where
  socks : SocksFallsBack resolver auth connections host port pinned
  connect : ConnectRun origins body 0 (connectTargets proxiedTarget) (sendToTargets origins proxiedTarget body)

/-- Both loops fall back over their addresses, unless a one-shot body meets several targets of a `CONNECT`. -/
theorem fallbacksHold_iff (resolver : Str → Lookup) (auth : Option ProxyAuth) (connections : Nat → Connect) (host : Str)
    (port : UInt16) (target : IpAddr × UInt16) (more : List (IpAddr × UInt16)) (origins : Nat → Option SocketAddr → Origin R)
    (proxiedTarget : Option ResolvedTarget) (body : RequestBody) :
    FallbacksHold resolver auth connections host port (target :: more) origins proxiedTarget body ↔
      body.Replayable ∨ (connectTargets proxiedTarget).length ≤ 1 := by
  have hSome : connectTargets proxiedTarget ≠ [] := by
    cases proxiedTarget with
    | none => exact List.cons_ne_nil _ _
    | some target => exact fun h => target.nonempty (List.map_eq_nil_iff.mp h)
  obtain ⟨first, rest, hTargets⟩ := List.exists_cons_of_ne_nil hSome
  constructor
  · intro h
    by_contra hNot
    obtain ⟨hOneShot, hMany⟩ := not_or.mp hNot
    have hFirst : 0 ≠ (first :: rest).length - 1 := by
      rw [hTargets] at hMany
      omega
    have hFalls := h.connect.falls
    rw [sendToTargets, hTargets, connectLoop_oneShot hFirst hOneShot none] at hFalls
    exact hFalls.some rfl
  · intro h
    refine ⟨socksFallsBack _ _ _ _ _ _ _, ?_⟩
    rw [sendToTargets, hTargets]
    refine connectLoop_run (by rw [List.length_cons]; omega) ?_ none
    rcases h with hReplayable | hOne
    · exact .inr hReplayable
    · rw [hTargets, List.length_cons] at hOne
      exact .inl (List.length_eq_zero_iff.mp (by omega))

/-- A one-shot body and two targets. -/
theorem not_fallbacksHold :
    ¬∀ resolver auth connections host port target more (origins : Nat → Option SocketAddr → Origin Unit) proxiedTarget body,
      FallbacksHold resolver auth connections host port (target :: more) origins proxiedTarget body := by
  intro hAll
  have hHolds := hAll (fun _ => .timeout) none (fun _ => .error .timeout) [] 443 (.v4 0, 443) [] (fun _ _ =>
    ⟨.error .timeout, fun _ => .ok ()⟩)
    (some ⟨[.v4 1 443, .v4 2 443], List.cons_ne_nil _ _⟩) (.stream none [])
  exact hHolds.connect.falls.some rfl

end Eggfetch.Proxy
