import Eggfetch.Polling.Source
import Eggfetch.Text.Bytes

/-! Upgraded streams and the bytes read ahead of them (`network_stream.rs`). -/
namespace Eggfetch.Transport
open Polling Text

inductive TransportKind where
  | tcp
  | unix
  | tls
  | tlsUnix
  | quic
  deriving DecidableEq

structure TlsInfo where
  alpnProtocol : Option Str
  tlsVersion : Option Str
  cipherSuite : Option Str
  serverName : Option Str

structure ConnectionMetadata where
  localAddr : Option Str
  peerAddr : Option Str
  transportKind : TransportKind
  tlsInfo : Option TlsInfo

/-- A transport by the bytes that are still to be read from it: from a socket, inside a TLS session, or from an opaque adapter. -/
inductive UpgradedStreamInner where
  | tcp (rest : Str)
  | tls (rest : Str)
  | adapter (rest : Str)

namespace UpgradedStreamInner

def rest : UpgradedStreamInner → Str
  | .tcp rest => rest
  | .tls rest => rest
  | .adapter rest => rest

def setRest (rest : Str) : UpgradedStreamInner → UpgradedStreamInner
  | .tcp _ => .tcp rest
  | .tls _ => .tls rest
  | .adapter _ => .adapter rest

end UpgradedStreamInner

structure UpgradedStream where
  inner : UpgradedStreamInner
  metadata : ConnectionMetadata
  leadingData : Str

/-- What the transport does at a poll: it has up to `n` bytes, none of them at the end. -/
inductive Grant (E : Type) where
  | pending
  | bytes (n : Nat)
  | failed (e : E)

variable {E : Type}

def UpgradedStreamInner.pollRead (grant : Grant E) (room : Nat) (inner : UpgradedStreamInner) :
    Poll (Except E Str) × UpgradedStreamInner :=
  match grant with
  | .pending => (.pending, inner)
  | .failed e => (.ready (.error e), inner)
  | .bytes n => (.ready (.ok (inner.rest.take (min n room))), inner.setRest (inner.rest.drop (min n room)))

/-- A completed handshake. -/
structure TlsSession where
  plaintext : Str
  info : TlsInfo
  localAddr : Option Str
  peerAddr : Option Str

/-- The server names and the handshakes of `rustls`. A handshake reads from the socket. -/
structure TlsConnector where
  tlsServerName : Str → Except Str Str
  connect : Str → Str → Except Str TlsSession

namespace UpgradedStream

def takeLeadingData (me : UpgradedStream) : Str × UpgradedStream := (me.leadingData, { me with leadingData := [] })

def pollRead (grant : Grant E) (room : Nat) (me : UpgradedStream) : Poll (Except E Str) × UpgradedStream :=
  if me.leadingData ≠ [] then
    let available := min me.leadingData.length room
    (.ready (.ok (me.leadingData.take available)), { me with leadingData := me.leadingData.drop available })
  else
    let (answer, inner) := me.inner.pollRead grant room
    (answer, { me with inner := inner })

/-- One poll of the future that `read` returns. -/
def read (grant : Grant E) (maxBytes : Nat) (me : UpgradedStream) : Poll (Except E Str) × UpgradedStream :=
  if me.leadingData ≠ [] then
    let available := min me.leadingData.length maxBytes
    (.ready (.ok (me.leadingData.take available)), { me with leadingData := me.leadingData.drop available })
  else me.pollRead grant maxBytes

def startTls (connector : TlsConnector) (serverName : Str) (me : UpgradedStream) : Except Str UpgradedStream :=
  match me.inner with
  | .tls _ => .error (utf8 "stream is already TLS-wrapped")
  | .adapter _ =>
    .error (utf8 "cannot start TLS on an opaque adapter stream; use a concrete TcpStream-backed UpgradedStream")
  | .tcp tcp =>
    match connector.tlsServerName serverName with
    | .error e => .error (utf8 "invalid server name '" ++ serverName ++ utf8 "': " ++ e)
    | .ok sn =>
      match connector.connect sn tcp with
      | .error e => .error (utf8 "TLS handshake failed: " ++ e)
      | .ok session =>
        .ok { inner := .tls session.plaintext
              metadata :=
                { localAddr := session.localAddr
                  peerAddr := session.peerAddr
                  transportKind := .tls
                  tlsInfo := some { session.info with serverName := some serverName } }
              leadingData := me.leadingData }

end UpgradedStream

/-- What an owner of the stream does with it. -/
inductive StreamOp (E : Type) where
  | read (maxBytes : Nat) (grant : Grant E)
  | pollRead (room : Nat) (grant : Grant E)
  | takeLeadingData

def bytesOf : Poll (Except E Str) → Str
  | .ready (.ok bytes) => bytes
  | .ready (.error _) => []
  | .pending => []

namespace UpgradedStream

def step (me : UpgradedStream) : StreamOp E → Str × UpgradedStream
  | .read maxBytes grant => ((me.read grant maxBytes).map bytesOf id)
  | .pollRead room grant => ((me.pollRead grant room).map bytesOf id)
  | .takeLeadingData => me.takeLeadingData

def run (me : UpgradedStream) : List (StreamOp E) → Str × UpgradedStream
  | [] => ([], me)
  | op :: ops => ((me.step op).1 ++ ((me.step op).2.run ops).1, ((me.step op).2.run ops).2)

def content (me : UpgradedStream) : Str := me.leadingData ++ me.inner.rest

variable {me me' tls tls' : UpgradedStream} {connector : TlsConnector} {serverName : Str}

theorem pollRead_content (grant : Grant E) (room : Nat) (me : UpgradedStream) :
    bytesOf (me.pollRead grant room).1 ++ (me.pollRead grant room).2.content = me.content := by
  rw [pollRead]
  split
  · rw [bytesOf, content, content, ← List.append_assoc, List.take_append_drop]
  case isFalse hLeading =>
    rw [not_not] at hLeading
    cases grant with
    | pending => rfl
    | failed e => rfl
    | bytes n =>
      cases hInner : me.inner <;>
        simp only [UpgradedStreamInner.pollRead, bytesOf, content, hLeading, hInner, UpgradedStreamInner.rest,
          UpgradedStreamInner.setRest, List.nil_append, List.take_append_drop]

theorem read_eq_pollRead (grant : Grant E) (maxBytes : Nat) (me : UpgradedStream) :
    me.read grant maxBytes = me.pollRead grant maxBytes := by
  rw [read, pollRead]
  split <;> rfl

theorem step_content (me : UpgradedStream) (op : StreamOp E) : (me.step op).1 ++ (me.step op).2.content = me.content := by
  cases op with
  | read maxBytes grant =>
    rw [step, read_eq_pollRead]
    exact pollRead_content grant maxBytes me
  | pollRead room grant => exact pollRead_content grant room me
  | takeLeadingData => rfl

private theorem run_content (me : UpgradedStream) (ops : List (StreamOp E)) :
    (me.run ops).1 ++ (me.run ops).2.content = me.content := by
  induction ops generalizing me with
  | nil => rfl
  | cons op ops ih => rw [run, List.append_assoc, ih, step_content]

private theorem run_congr (hInner : me.inner = me'.inner) (hLeading : me.leadingData = me'.leadingData)
    (ops : List (StreamOp E)) :
    (me.run ops).1 = (me'.run ops).1 := by
  induction ops generalizing me me' with
  | nil => rfl
  | cons op ops ih =>
    have hStep : (me.step op).1 = (me'.step op).1 ∧ (me.step op).2.inner = (me'.step op).2.inner ∧
        (me.step op).2.leadingData = (me'.step op).2.leadingData := by
      have hPoll (grant : Grant E) (room : Nat) : (me.pollRead grant room).1 = (me'.pollRead grant room).1 ∧
          (me.pollRead grant room).2.inner = (me'.pollRead grant room).2.inner ∧
          (me.pollRead grant room).2.leadingData = (me'.pollRead grant room).2.leadingData := by
        rw [pollRead, pollRead, hInner, hLeading]
        split
        · exact ⟨rfl, rfl, rfl⟩
        · exact ⟨rfl, rfl, rfl⟩
      cases op with
      | read maxBytes grant =>
        rw [step, step, read_eq_pollRead, read_eq_pollRead]
        exact ⟨congrArg bytesOf (hPoll grant maxBytes).1, (hPoll grant maxBytes).2⟩
      | pollRead room grant => exact ⟨congrArg bytesOf (hPoll grant room).1, (hPoll grant room).2⟩
      | takeLeadingData => exact ⟨hLeading, hInner, rfl⟩
    rw [run, run, hStep.1, ih hStep.2.1 hStep.2.2]

private theorem startTls_ok (h : me.startTls connector serverName = .ok tls) :
    ∃ socket sn session, me.inner = .tcp socket ∧ connector.tlsServerName serverName = .ok sn ∧
      connector.connect sn socket = .ok session ∧ tls.inner = .tls session.plaintext ∧ tls.leadingData = me.leadingData := by
  rw [startTls] at h
  cases hInner : me.inner with
  | tls rest =>
    rw [hInner] at h
    cases h
  | adapter rest =>
    rw [hInner] at h
    cases h
  | tcp socket =>
    rw [hInner] at h
    cases hName : connector.tlsServerName serverName with
    | error e =>
      simp only [hName] at h
      cases h
    | ok sn =>
      cases hSession : connector.connect sn socket with
      | error e =>
        simp only [hName, hSession] at h
        cases h
      | ok session =>
        simp only [hName, hSession, Except.ok.injEq] at h
        subst h
        exact ⟨socket, sn, session, rfl, rfl, hSession, rfl, rfl⟩

end UpgradedStream

/-- What a session delivers is decided by its records, whatever has been put onto the socket before them. -/
def TlsIntegrity (connector : TlsConnector) : Prop :=
  ∀ sn injected injected' records session session', connector.connect sn (injected ++ records) = .ok session →
    connector.connect sn (injected' ++ records) = .ok session' → session.plaintext = session'.plaintext

/-- Before the handshake the leading data and then the socket is read, and after it what is left of the leading data and then
the session; so where none is left, bytes injected before the handshake change nothing. -/
theorem upgradedStream_reads {connector : TlsConnector} (hIntegrity : TlsIntegrity connector) (serverName : Str)
    (me me' : UpgradedStream) (before before' after : List (StreamOp E)) :
    (me.run before).1 ++ (me.run before).2.content = me.content ∧
    (∀ tls, (me.run before).2.startTls connector serverName = .ok tls →
      ∃ socket sn session, (me.run before).2.inner = .tcp socket ∧ connector.connect sn socket = .ok session ∧
        (tls.run after).1 ++ (tls.run after).2.content = (me.run before).2.leadingData ++ session.plaintext) ∧
    ∀ injected injected' records tls tls',
      (me.run before).2.inner = .tcp (injected ++ records) → (me'.run before').2.inner = .tcp (injected' ++ records) →
      (me.run before).2.leadingData = [] → (me'.run before').2.leadingData = [] →
      (me.run before).2.startTls connector serverName = .ok tls → (me'.run before').2.startTls connector serverName = .ok tls' →
      (tls.run after).1 = (tls'.run after).1 := by
  refine ⟨UpgradedStream.run_content me before, ?_, ?_⟩
  · intro tls hTls
    obtain ⟨socket, sn, session, hSocket, -, hSession, hInner, hLeading⟩ := UpgradedStream.startTls_ok hTls
    refine ⟨socket, sn, session, hSocket, hSession, ?_⟩
    rw [UpgradedStream.run_content, UpgradedStream.content, hInner, hLeading, UpgradedStreamInner.rest]
  · intro injected injected' records tls tls' hSocket hSocket' hDrained hDrained' hTls hTls'
    obtain ⟨socket, sn, session, hSame, hName, hSession, hInner, hLeading⟩ := UpgradedStream.startTls_ok hTls
    obtain ⟨socket', sn', session', hSame', hName', hSession', hInner', hLeading'⟩ := UpgradedStream.startTls_ok hTls'
    obtain rfl := UpgradedStreamInner.tcp.inj (hSocket.symm.trans hSame)
    obtain rfl := UpgradedStreamInner.tcp.inj (hSocket'.symm.trans hSame')
    obtain rfl := Except.ok.inj (hName.symm.trans hName')
    have hPlain := hIntegrity sn injected injected' records session session' hSession hSession'
    refine UpgradedStream.run_congr ?_ ?_ after
    · rw [hInner, hInner', hPlain]
    · rw [hLeading, hLeading', hDrained, hDrained']

/-- A connector for the one session `Thi`, which delivers `hi`. -/
def sampleConnector : TlsConnector where
  tlsServerName name := if name = [] then .error (utf8 "invalid dns name") else .ok name
  connect _ socket :=
    if socket = utf8 "Thi" then .ok ⟨utf8 "hi", ⟨none, none, none, none⟩, none, none⟩ else .error (utf8 "unexpected message")

theorem sampleConnector_integrity : TlsIntegrity sampleConnector := by
  intro sn injected injected' records session session' h h'
  have hPlain {socket : Str} {session : TlsSession} (h : sampleConnector.connect sn socket = .ok session) :
      session.plaintext = utf8 "hi" := by
    simp only [sampleConnector] at h
    split at h
    · obtain rfl := Except.ok.inj h
      rfl
    · cases h
  rw [hPlain h, hPlain h']

/-- A socket with the session `Thi`, and what was read ahead of it. -/
def readAhead (leadingData : Str) : UpgradedStream where
  inner := .tcp (utf8 "Thi")
  metadata := ⟨none, none, .tcp, none⟩
  leadingData := leadingData

/-- With `x` read ahead and taken, and with nothing read ahead, the session reads the same. -/
theorem upgradedStream_reads_example :
    ((readAhead (utf8 "x")).run (E := Empty) [.takeLeadingData]).1 = utf8 "x" ∧
    ∀ tls tls', ((readAhead (utf8 "x")).run (E := Empty) [.takeLeadingData]).2.startTls sampleConnector (utf8 "a") = .ok tls →
      ((readAhead []).run (E := Empty) []).2.startTls sampleConnector (utf8 "a") = .ok tls' →
      (tls.run (E := Empty) [.read 2 (.bytes 2)]).1 = (tls'.run (E := Empty) [.read 2 (.bytes 2)]).1 := by
  have hReads := upgradedStream_reads (E := Empty) sampleConnector_integrity (utf8 "a") (readAhead (utf8 "x")) (readAhead [])
    [.takeLeadingData] [] [.read 2 (.bytes 2)]
  exact ⟨by decide, fun tls tls' => hReads.2.2 [] [] (utf8 "Thi") tls tls' rfl rfl rfl rfl⟩

/-- What was read ahead is read as if it came from the session. -/
theorem readAhead_crosses : ¬ ∀ (connector : TlsConnector), TlsIntegrity connector →
    ∀ (serverName : Str) (me me' tls tls' : UpgradedStream)
    (ops : List (StreamOp Empty)), me.inner = me'.inner → me.startTls connector serverName = .ok tls →
    me'.startTls connector serverName = .ok tls' → (tls.run ops).1 = (tls'.run ops).1 := by
  intro h
  have hSame := h sampleConnector sampleConnector_integrity (utf8 "a") (readAhead (utf8 "x")) (readAhead [])
    _ _ [.read 2 (.bytes 2)] rfl rfl rfl
  exact absurd hSame (by decide)

end Eggfetch.Transport
