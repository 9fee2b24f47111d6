import Eggfetch.Proxy.Socks

/-! What a SOCKS5 handshake writes and which replies it accepts, from RFC 1928 and RFC 1929. -/
namespace Eggfetch.Proxy
open Text Http
open Routing (IpAddr openBracket closeBracket)

section programs
variable {ε ε' α β : Type}

/-- A program succeeds on the replies `P` and on no others, and has then written `out`. -/
structure Reads (x : Socks ε α) (P : Str → α → Prop) (out : Str) : Prop where
  ok : ∀ {socket reply rest a}, P reply a → socket.incoming = reply ++ rest →
    x socket = .ok a { socket with incoming := rest, sent := socket.sent ++ out }
  only : ∀ {socket socket' a}, x socket = .ok a socket' → ∃ reply, P reply a ∧ socket.incoming = reply ++ socket'.incoming

def left : EStateM.Result ε Socket α → Socket
  | .ok _ socket => socket
  | .error _ socket => socket

def Quiet (x : Socks ε α) : Prop := ∀ socket, (left (x socket)).sent = socket.sent

theorem bind_ok {x : Socks ε α} {f : α → Socks ε β} {socket socket' : Socket} {b : β} :
    (x >>= f) socket = .ok b socket' ↔ ∃ a between, x socket = .ok a between ∧ f a between = .ok b socket' := by
  change EStateM.bind x f socket = _ ↔ _
  unfold EStateM.bind
  cases hFirst : x socket with
  | ok a between =>
    constructor
    · exact fun h => ⟨a, between, rfl, h⟩
    · rintro ⟨_, _, hSame, h⟩
      cases hSame
      exact h
  | error e between =>
    constructor
    · intro h
      cases h
    · rintro ⟨_, _, hSame, -⟩
      cases hSame

theorem bind_eq {x : Socks ε α} {f : α → Socks ε β} {socket between : Socket} {a : α} (h : x socket = .ok a between) :
    (x >>= f) socket = f a between := by
  change EStateM.bind x f socket = _
  rw [EStateM.bind, h]

theorem bind_error {x : Socks ε α} {f : α → Socks ε β} {socket between : Socket} {e : ε} (h : x socket = .error e between) :
    (x >>= f) socket = .error e between := by
  change EStateM.bind x f socket = _
  rw [EStateM.bind, h]

theorem Reads.bind {x : Socks ε α} {f : α → Socks ε β} {P : Str → α → Prop} {Q : α → Str → β → Prop} {out out' : Str}
    (hFirst : Reads x P out) (hSecond : ∀ reply a, P reply a → Reads (f a) (Q a) out') :
    Reads (x >>= f) (fun reply b => ∃ first second a, reply = first ++ second ∧ P first a ∧ Q a second b) (out ++ out') := by
  constructor
  · rintro socket reply rest b ⟨first, second, a, rfl, hP, hQ⟩ hIncoming
    rw [List.append_assoc] at hIncoming
    rw [bind_eq (hFirst.ok hP hIncoming), (hSecond first a hP).ok hQ rfl, List.append_assoc]
  · intro socket socket' b h
    obtain ⟨a, between, hX, hF⟩ := bind_ok.mp h
    obtain ⟨first, hP, hIncoming⟩ := hFirst.only hX
    obtain ⟨second, hQ, hBetween⟩ := (hSecond first a hP).only hF
    exact ⟨first ++ second, ⟨first, second, a, rfl, hP, hQ⟩, by rw [hIncoming, hBetween, List.append_assoc]⟩

theorem Reads.congr {x : Socks ε α} {P Q : Str → α → Prop} {out out' : Str} (h : Reads x P out) (hOut : out = out')
    (hSame : ∀ reply a, P reply a ↔ Q reply a) : Reads x Q out' where
  ok := fun hQ hIncoming => hOut ▸ h.ok ((hSame _ _).mpr hQ) hIncoming
  only := fun hX => (h.only hX).imp fun _ hReply => hReply.imp_left (hSame _ _).mp

theorem Reads.pure (a : α) : Reads (ε := ε) (Pure.pure a) (fun reply b => reply = [] ∧ b = a) [] := by
  constructor
  · rintro socket reply rest b ⟨rfl, rfl⟩ hIncoming
    have hRest : socket.incoming = rest := hIncoming
    rw [← hRest, List.append_nil]
    rfl
  · intro socket socket' b h
    cases h
    exact ⟨[], ⟨rfl, rfl⟩, rfl⟩

theorem Reads.throw (e : ε) (out : Str) : Reads (MonadExcept.throw e : Socks ε α) (fun _ _ => False) out where
  ok := fun hFalse _ => hFalse.elim
  only := by
    intro socket socket' a h
    cases h

/-- A check that has to fail. -/
theorem Reads.unless {x : Socks ε α} {P : Str → α → Prop} {out : Str} (c : Prop) [Decidable c] (e : ε) (h : Reads x P out) :
    Reads (if c then MonadExcept.throw e else x) (fun reply a => ¬c ∧ P reply a) out := by
  split_ifs with hc
  · exact (Reads.throw e out).congr rfl fun _ _ => ⟨False.elim, fun hBoth => hBoth.1 hc⟩
  · exact h.congr rfl fun _ _ => ⟨fun hP => ⟨hc, hP⟩, And.right⟩

private theorem Reads.when {x : Socks ε α} {P : Str → α → Prop} {out : Str} (c : Prop) [Decidable c] (e : ε) (h : Reads x P out) :
    Reads (if c then x else MonadExcept.throw e) (fun reply a => c ∧ P reply a) out := by
  split_ifs with hc
  · exact h.congr rfl fun _ _ => ⟨fun hP => ⟨hc, hP⟩, And.right⟩
  · exact (Reads.throw e out).congr rfl fun _ _ => ⟨False.elim, fun hBoth => hc hBoth.1⟩

theorem Reads.adaptExcept {x : Socks ε α} {P : Str → α → Prop} {out : Str} (h : Reads x P out) (g : ε → ε') :
    Reads (x.adaptExcept g) P out := by
  constructor
  · intro socket reply rest a hP hIncoming
    rw [EStateM.adaptExcept, h.ok hP hIncoming]
  · intro socket socket' a hX
    rw [EStateM.adaptExcept] at hX
    cases hFirst : x socket with
    | ok b between =>
      rw [hFirst] at hX
      cases hX
      exact h.only hFirst
    | error e between =>
      rw [hFirst] at hX
      cases hX

theorem reads_writeAll (data : Str) : Reads (writeAll (ε := ε) data) (fun reply _ => reply = []) data := by
  constructor
  · rintro socket reply rest a rfl hIncoming
    have hRest : socket.incoming = rest := hIncoming
    rw [← hRest]
    rfl
  · intro socket socket' a h
    cases h
    exact ⟨[], rfl, rfl⟩

theorem reads_readExact (n : Nat) (phase : String) :
    Reads (readExact n phase) (fun reply data => reply = data ∧ data.length = n) [] := by
  constructor
  · rintro socket reply rest data ⟨rfl, rfl⟩ hIncoming
    rw [readExact, hIncoming, if_pos (by rw [List.length_append]; exact Nat.le_add_right _ _), List.take_left, List.drop_left,
      List.append_nil]
  · intro socket socket' data h
    unfold readExact at h
    split_ifs at h with hEnough
    cases h
    exact ⟨_, ⟨rfl, List.length_take_of_le hEnough⟩, (List.take_append_drop n _).symm⟩

theorem Quiet.bind {x : Socks ε α} {f : α → Socks ε β} (hFirst : Quiet x) (hSecond : ∀ a, Quiet (f a)) : Quiet (x >>= f) := by
  intro socket
  have hSent := hFirst socket
  cases hX : x socket with
  | ok a between =>
    rw [hX] at hSent
    rw [bind_eq hX, hSecond a]
    exact hSent
  | error e between =>
    rw [hX] at hSent
    rw [bind_error hX]
    exact hSent

theorem Quiet.pure (a : α) : Quiet (ε := ε) (Pure.pure a) := fun _ => rfl

theorem Quiet.throw (e : ε) : Quiet (MonadExcept.throw e : Socks ε α) := fun _ => rfl

theorem Quiet.adaptExcept {x : Socks ε α} (h : Quiet x) (g : ε → ε') : Quiet (x.adaptExcept g) := by
  intro socket
  have hSent := h socket
  rw [EStateM.adaptExcept]
  cases hX : x socket <;> rw [hX] at hSent <;> exact hSent

theorem quiet_readExact (n : Nat) (phase : String) : Quiet (readExact n phase) := by
  intro socket
  unfold readExact
  split_ifs <;> rfl

end programs

def hello : Option ProxyAuth → Str
  | none => [socks5Version, 1, methodNoAuth]
  | some (.basic username password) => [socks5Version, 1, methodUsernamePassword] ++ authRequest username password

def accepted : Option ProxyAuth → Str
  | none => [socks5Version, methodNoAuth]
  | some _ => [socks5Version, methodUsernamePassword, subnegVersion, 0]

def Fits : Option ProxyAuth → Prop
  | none => True
  | some (.basic username password) => username.length ≤ maxCredentialLen ∧ password.length ≤ maxCredentialLen

def BoundAddress (atyp : UInt8) (address : Str) : Prop :=
  atyp = atypIpv4 ∧ address.length = 4 ∨ atyp = atypIpv6 ∧ address.length = 16 ∨
    atyp = atypDomain ∧ ∃ name, name.length ≤ 255 ∧ address = UInt8.ofNat name.length :: name

theorem boundAddress_ipv4 {address : Str} : BoundAddress atypIpv4 address ↔ address.length = 4 := by
  simp [BoundAddress, atypIpv4, atypIpv6, atypDomain]

theorem boundAddress_ipv6 {address : Str} : BoundAddress atypIpv6 address ↔ address.length = 16 := by
  simp [BoundAddress, atypIpv4, atypIpv6, atypDomain]

theorem boundAddress_domain {address : Str} :
    BoundAddress atypDomain address ↔ ∃ name : Str, name.length ≤ 255 ∧ address = UInt8.ofNat name.length :: name := by
  simp [BoundAddress, atypIpv4, atypIpv6, atypDomain]

def SuccessReply (reply : Str) : Prop :=
  ∃ reserved atyp address port, BoundAddress atyp address ∧ port.length = 2 ∧
    reply = [socks5Version, repSuccess, reserved, atyp] ++ address ++ port

theorem length_two {data : Str} (h : data.length = 2) : data = [data.headD 0, data.getLastD 0] := by
  obtain ⟨a, b, rfl⟩ := List.length_eq_two.mp h
  rfl

theorem reads_negotiateMethod (auth : Option ProxyAuth) :
    Reads (negotiateMethod auth) (fun reply selected => reply = [socks5Version, expectedMethod auth] ∧
      selected = expectedMethod auth)
      [socks5Version, 1, expectedMethod auth] := by
  have hAcceptable : expectedMethod auth ≠ methodNoAcceptable := by
    unfold expectedMethod
    split_ifs <;> decide
  unfold negotiateMethod
  refine Reads.congr ((reads_writeAll _).bind fun _ _ _ => (reads_readExact 2 _).bind fun _ response _ =>
    Reads.unless _ _ (Reads.unless _ _ (Reads.when _ _ (Reads.pure _)))) rfl ?_
  intro reply selected
  constructor
  · rintro ⟨_, _, _, rfl, rfl, response, _, _, rfl, ⟨rfl, hTwo⟩, hVersion, -, hSelected, rfl, rfl⟩
    rw [not_not] at hVersion
    refine ⟨?_, hSelected⟩
    rw [List.nil_append, List.append_nil, length_two hTwo, hVersion, hSelected]
  · rintro ⟨rfl, rfl⟩
    exact ⟨[], [socks5Version, expectedMethod auth], (), rfl, rfl, _, [], [socks5Version, expectedMethod auth], rfl, ⟨rfl, rfl⟩,
      fun h => h rfl, hAcceptable, rfl, rfl, rfl⟩

private theorem reads_authenticate {username password : Str} (h : Fits (some (.basic username password))) :
    Reads (authenticate (.basic username password)) (fun reply _ =>
      reply = [subnegVersion, 0]) (authRequest username password) := by
  rw [authenticate, if_neg (Nat.not_lt.mpr h.1), if_neg (Nat.not_lt.mpr h.2)]
  refine Reads.congr ((reads_writeAll _).bind fun _ _ _ => (reads_readExact 2 _).bind fun _ response _ =>
    Reads.unless _ _ (Reads.unless _ _ (Reads.pure _))) (List.append_nil _) ?_
  intro reply _
  constructor
  · rintro ⟨_, _, _, rfl, rfl, response, _, _, rfl, ⟨rfl, hTwo⟩, hVersion, hStatus, rfl, -⟩
    rw [not_not] at hVersion hStatus
    rw [List.nil_append, List.append_nil, length_two hTwo, hVersion, hStatus]
  · rintro rfl
    exact ⟨[], [subnegVersion, 0], (), rfl, rfl, _, [], [subnegVersion, 0], rfl, ⟨rfl, rfl⟩, fun h => h rfl, fun h => h rfl,
      rfl, rfl⟩

/-- The proxy is left ready for the command. -/
theorem reads_establish {auth : Option ProxyAuth} (h : Fits auth) :
    Reads (establish auth) (fun reply _ => reply = accepted auth) (hello auth) := by
  cases auth with
  | none =>
    unfold establish
    refine Reads.congr ((reads_negotiateMethod none).bind fun _ selected _ => Reads.unless _ _ (Reads.pure _)) rfl ?_
    intro reply _
    constructor
    · rintro ⟨_, _, _, rfl, ⟨rfl, -⟩, -, rfl, -⟩
      rfl
    · rintro rfl
      exact ⟨_, [], methodNoAuth, rfl, ⟨rfl, rfl⟩, by decide, rfl, rfl⟩
  | some auth =>
    obtain ⟨username, password⟩ := auth
    have hSecond : ∀ reply selected, reply = [socks5Version, methodUsernamePassword] ∧ selected = methodUsernamePassword →
        Reads (if selected = methodUsernamePassword then authenticate (.basic username password) else return ())
          (fun reply _ => reply = [subnegVersion, 0]) (authRequest username password) := by
      rintro _ _ ⟨-, rfl⟩
      exact reads_authenticate h
    refine Reads.congr ((reads_negotiateMethod (some (.basic username password))).bind hSecond) rfl ?_
    intro reply _
    constructor
    · rintro ⟨_, _, _, rfl, ⟨rfl, -⟩, rfl⟩
      rfl
    · rintro rfl
      exact ⟨_, [subnegVersion, 0], methodUsernamePassword, rfl, ⟨rfl, rfl⟩, rfl⟩

theorem reads_readReply (n : Nat) (phase : String) :
    Reads (readReply n phase) (fun reply data => reply = data ∧ data.length = n) [] :=
  (reads_readExact n phase).adaptExcept _

/-- An address of fixed size, and its port. -/
theorem reads_fixed (n : Nat) (phase : String) :
    Reads (do let _ ← readReply (n + 2) phase) (fun reply _ => ∃ address port, address.length = n ∧ port.length = 2 ∧
      reply = address ++ port) [] := by
  refine Reads.congr ((reads_readReply (n + 2) phase).bind fun _ _ _ => Reads.pure _) rfl ?_
  intro reply _
  constructor
  · rintro ⟨data, _, _, rfl, ⟨rfl, hLength⟩, rfl, -⟩
    refine ⟨data.take n, data.drop n, ?_, ?_, ?_⟩
    · rw [List.length_take, hLength]
      omega
    · rw [List.length_drop, hLength]
      omega
    · rw [List.take_append_drop, List.append_nil]
  · rintro ⟨address, port, rfl, hPort, rfl⟩
    exact ⟨address ++ port, [], address ++ port, by rw [List.append_nil], ⟨rfl, by rw [List.length_append, hPort]⟩, rfl, rfl⟩

private theorem reads_domain :
    Reads (do
        let domainLen ← readReply 1 "SOCKS5 bound domain length"
        let _ ← readReply ((domainLen.headD 0).toNat + 2) "SOCKS5 bound domain address")
      (fun reply _ => ∃ address port, BoundAddress atypDomain address ∧ port.length = 2 ∧ reply = address ++ port) [] := by
  refine Reads.congr ((reads_readReply 1 _).bind fun _ domainLen _ => reads_fixed (domainLen.headD 0).toNat _) rfl ?_
  intro reply _
  constructor
  · rintro ⟨domainLen, _, _, rfl, ⟨rfl, hOne⟩, name, port, hName, hPort, rfl⟩
    obtain ⟨len, rfl⟩ := List.length_eq_one_iff.mp hOne
    have hLen : name.length = len.toNat := hName
    refine ⟨len :: name, port, boundAddress_domain.mpr ⟨name, ?_, ?_⟩, hPort, rfl⟩
    · rw [hLen]
      exact Nat.le_of_lt_succ len.toNat_lt
    · rw [hLen, UInt8.ofNat_toNat]
  · rintro ⟨address, port, hAddress, hPort, rfl⟩
    obtain ⟨name, hName, rfl⟩ := boundAddress_domain.mp hAddress
    refine ⟨[UInt8.ofNat name.length], name ++ port, [UInt8.ofNat name.length], rfl, ⟨rfl, rfl⟩, name, port, ?_, hPort, rfl⟩
    change name.length = (UInt8.ofNat name.length).toNat
    rw [UInt8.toNat_ofNat', Nat.mod_eq_of_lt (Nat.lt_succ_of_le hName)]

private theorem reads_readBoundAddress (atyp : UInt8) :
    Reads (readBoundAddress atyp) (fun reply _ => ∃ address port, BoundAddress atyp address ∧ port.length = 2 ∧
      reply = address ++ port) [] := by
  unfold readBoundAddress
  split_ifs with hIpv4 hIpv6 hDomain
  · subst hIpv4
    simp only [boundAddress_ipv4]
    exact reads_fixed 4 _
  · subst hIpv6
    simp only [boundAddress_ipv6]
    exact reads_fixed 16 _
  · subst hDomain
    exact reads_domain
  · refine (Reads.throw _ _).congr rfl ?_
    intro reply _
    constructor
    · exact False.elim
    · rintro ⟨_, _, hAddress | hAddress | hAddress, -⟩
      · exact hIpv4 hAddress.1
      · exact hIpv6 hAddress.1
      · exact hDomain hAddress.1

theorem reads_parseConnectReplyForTarget : Reads parseConnectReplyForTarget (fun reply _ => SuccessReply reply) [] := by
  unfold parseConnectReplyForTarget
  refine Reads.congr ((reads_readReply 4 _).bind fun _ header _ => Reads.unless _ _ (Reads.unless _ _
    (reads_readBoundAddress (header.getD 3 0)))) rfl ?_
  intro reply _
  constructor
  · rintro ⟨header, _, _, rfl, ⟨rfl, hFour⟩, hVersion, hCode, address, port, hAddress, hPort, rfl⟩
    obtain ⟨version, code, reserved, atyp, rfl⟩ := List.length_eq_four.mp hFour
    obtain rfl : version = socks5Version := not_not.mp hVersion
    obtain rfl : code = repSuccess := not_not.mp hCode
    exact ⟨reserved, atyp, address, port, hAddress, hPort, by rw [List.append_assoc]⟩
  · rintro ⟨reserved, atyp, address, port, hAddress, hPort, rfl⟩
    exact ⟨[socks5Version, repSuccess, reserved, atyp], address ++ port, _, List.append_assoc _ _ _, ⟨rfl, rfl⟩,
      fun h => h rfl, fun h => h rfl, address, port, hAddress, hPort, rfl⟩

theorem quiet_readReply (n : Nat) (phase : String) : Quiet (readReply n phase) := (quiet_readExact n phase).adaptExcept _

private theorem quiet_readBoundAddress (atyp : UInt8) : Quiet (readBoundAddress atyp) := by
  unfold readBoundAddress
  split_ifs
  · exact (quiet_readReply _ _).bind fun _ => Quiet.pure _
  · exact (quiet_readReply _ _).bind fun _ => Quiet.pure _
  · exact (quiet_readReply _ _).bind fun _ => (quiet_readReply _ _).bind fun _ => Quiet.pure _
  · exact Quiet.throw _

private theorem quiet_parseConnectReplyForTarget : Quiet parseConnectReplyForTarget := by
  refine (quiet_readReply _ _).bind ?_
  intro header
  dsimp only
  split_ifs
  · exact Quiet.throw _
  · exact Quiet.throw _
  · exact quiet_readBoundAddress _

inductive Destination where
  | ip (address : IpAddr)
  | domain (name : Str)
  deriving DecidableEq

def decodeConnect (request : Str) : Option (Destination × Nat) :=
  if request.take 3 = [socks5Version, cmdConnect, 0] then
    let body := request.drop 4
    if request[3]? = some atypIpv4 ∧ body.length = 4 + 2 then
      some (.ip (.v4 (BitVec.ofNat 32 (ofBeBytes (body.take 4)))), ofBeBytes (body.drop 4))
    else if request[3]? = some atypIpv6 ∧ body.length = 16 + 2 then
      some (.ip (.v6 (BitVec.ofNat 128 (ofBeBytes (body.take 16)))), ofBeBytes (body.drop 16))
    else if request[3]? = some atypDomain ∧ body.length = 1 + (body.headD 0).toNat + 2 then
      some (.domain (body.tail.take (body.headD 0).toNat), ofBeBytes (body.drop (1 + (body.headD 0).toNat)))
    else none
  else none

/-- The host of a destination URL as `http::Uri` keeps it. -/
inductive UrlHost where
  | name (text : Str) (noLiteral : parseIpv4Addr text = none) (noColon : Ip.separator ∉ text) (noBracket : openBracket ∉ text)
  | ipv4 (text : Str) (ip : BitVec 32) (literal : parseIpv4Addr text = some ip)
  | ipv6 (text : Str) (ip : BitVec 128) (literal : parseIpv6Addr text = some ip)

namespace UrlHost

def text : UrlHost → Str
  | name text _ _ _ => text
  | ipv4 text _ _ => text
  | ipv6 text _ _ => openBracket :: text ++ [closeBracket]

def destination : UrlHost → Destination
  | name text _ _ _ => .domain text
  | ipv4 _ ip _ => .ip (.v4 ip)
  | ipv6 _ ip _ => .ip (.v6 ip)

def isIpv6 : UrlHost → Bool
  | ipv6 _ _ _ => true
  | _ => false

def isLiteral : UrlHost → Bool
  | name _ _ _ _ => false
  | _ => true

def tooLong : UrlHost → Prop
  | name text _ _ _ => maxDomainLen < text.length
  | _ => False

end UrlHost

theorem ofBeBytes_port (port : UInt16) : ofBeBytes (toBeBytes 2 port.toNat) = port.toNat :=
  ofBeBytes_toBeBytes port.toNat_lt

theorem decodeConnect_ipRequest (ip : IpAddr) (port : UInt16) :
    decodeConnect (ipRequest ip port) = some (.ip ip, port.toNat) := by
  have hCommand : (ipRequest ip port).take 3 = [socks5Version, cmdConnect, 0] := rfl
  cases ip with
  | v4 ip =>
    have hBody : (ipRequest (.v4 ip) port).drop 4 = toBeBytes 4 ip.toNat ++ toBeBytes 2 port.toNat := rfl
    have hLength : (toBeBytes 4 ip.toNat ++ toBeBytes 2 port.toNat).length = 4 + 2 := by
      rw [List.length_append, length_toBeBytes, length_toBeBytes]
    have hAtyp : (ipRequest (.v4 ip) port)[3]? = some atypIpv4 := rfl
    unfold decodeConnect
    rw [if_pos hCommand, hBody, hAtyp]
    dsimp only
    rw [if_pos ⟨rfl, hLength⟩, List.take_left' (length_toBeBytes 4 _), List.drop_left' (length_toBeBytes 4 _), ofBeBytes_port,
      ofBeBytes_toBeBytes ip.isLt, BitVec.ofNat_toNat, BitVec.setWidth_eq]
  | v6 ip =>
    have hBody : (ipRequest (.v6 ip) port).drop 4 = toBeBytes 16 ip.toNat ++ toBeBytes 2 port.toNat := rfl
    have hLength : (toBeBytes 16 ip.toNat ++ toBeBytes 2 port.toNat).length = 16 + 2 := by
      rw [List.length_append, length_toBeBytes, length_toBeBytes]
    have hAtyp : (ipRequest (.v6 ip) port)[3]? = some atypIpv6 := rfl
    have hOther : some atypIpv6 ≠ some atypIpv4 := by decide
    unfold decodeConnect
    rw [if_pos hCommand, hBody, hAtyp]
    dsimp only
    rw [if_neg fun h => hOther h.1, if_pos ⟨rfl, hLength⟩, List.take_left' (length_toBeBytes 16 _),
      List.drop_left' (length_toBeBytes 16 _), ofBeBytes_port, ofBeBytes_toBeBytes ip.isLt, BitVec.ofNat_toNat,
      BitVec.setWidth_eq]

theorem decodeConnect_domainRequest {host : Str} (h : host.length ≤ maxDomainLen) (port : UInt16) :
    decodeConnect (domainRequest host port) = some (.domain host, port.toNat) := by
  have hLess : host.length < 2 ^ 8 := Nat.lt_succ_of_le h
  have hLen : (UInt8.ofNat host.length).toNat = host.length := by rw [UInt8.toNat_ofNat', Nat.mod_eq_of_lt hLess]
  have hBody : (domainRequest host port).drop 4 = UInt8.ofNat host.length :: (host ++ toBeBytes 2 port.toNat) := rfl
  have hLength : (UInt8.ofNat host.length :: (host ++ toBeBytes 2 port.toNat)).length = 1 + host.length + 2 := by
    rw [List.length_cons, List.length_append, length_toBeBytes]
    omega
  have hCommand : (domainRequest host port).take 3 = [socks5Version, cmdConnect, 0] := rfl
  have hAtyp : (domainRequest host port)[3]? = some atypDomain := rfl
  have hNotIpv4 : some atypDomain ≠ some atypIpv4 := by decide
  have hNotIpv6 : some atypDomain ≠ some atypIpv6 := by decide
  unfold decodeConnect
  rw [if_pos hCommand, hBody, hAtyp]
  dsimp only
  rw [if_neg fun h => hNotIpv4 h.1, if_neg fun h => hNotIpv6 h.1, List.headD_cons, hLen, if_pos ⟨rfl, hLength⟩, List.tail_cons,
    List.take_left,
    Nat.add_comm 1 host.length, List.drop_succ_cons, List.drop_left, ofBeBytes_port]

section tunnel
variable {resolver : Str → Lookup} {auth : Option ProxyAuth} {remoteDns : Bool} {host : Str} {port : UInt16} {request : Str}

/-- The handshake succeeds on the replies that the proxy owes, and has then asked for the destination. -/
theorem reads_tunnel (hFits : Fits auth) (h : connectRequest resolver remoteDns host port = .ok request) :
    Reads (tunnel resolver auth remoteDns host port)
      (fun reply _ => ∃ last, SuccessReply last ∧ reply = accepted auth ++ last) (hello auth ++ request) := by
  have hSend : Reads (sendConnect resolver remoteDns host port) (fun reply _ => SuccessReply reply) request := by
    rw [sendConnect, h]
    refine Reads.congr ((reads_writeAll request).bind fun _ _ _ => reads_parseConnectReplyForTarget.adaptExcept _)
      (List.append_nil _) ?_
    intro reply _
    constructor
    · rintro ⟨_, _, _, rfl, rfl, hReply⟩
      exact hReply
    · exact fun hReply => ⟨[], reply, (), rfl, rfl, hReply⟩
  refine Reads.congr ((reads_establish hFits).bind fun _ _ _ => hSend) rfl ?_
  intro reply _
  constructor
  · rintro ⟨_, last, _, rfl, rfl, hLast⟩
    exact ⟨last, hLast, rfl⟩
  · rintro ⟨last, hLast, rfl⟩
    exact ⟨_, last, (), rfl, rfl, hLast⟩

/-- Whatever the proxy replies to it, the request was written behind what came before. -/
theorem sent_tunnel (hFits : Fits auth) (h : connectRequest resolver remoteDns host port = .ok request) {socket : Socket}
    {more : Str} (hIncoming : socket.incoming = accepted auth ++ more) :
    (left (tunnel resolver auth remoteDns host port socket)).sent = socket.sent ++ hello auth ++ request := by
  rw [tunnel, bind_eq ((reads_establish hFits).ok (a := ()) rfl hIncoming), sendConnect, h]
  exact quiet_parseConnectReplyForTarget.adaptExcept _ _

private theorem connectRequest_remote (h : parseIpAddr host = none)
    (hRequest : connectRequest resolver true host port = .ok request) :
    request = domainRequest host port ∧ host.length ≤ maxDomainLen := by
  rw [connectRequest, h] at hRequest
  dsimp only at hRequest
  rw [if_pos rfl] at hRequest
  split_ifs at hRequest with hLong
  exact ⟨(Except.ok.inj hRequest).symm, Nat.not_lt.mp hLong⟩

theorem connectRequest_ne_nil (h : connectRequest resolver remoteDns host port = .ok request) : request ≠ [] := by
  unfold connectRequest at h
  cases hParse : parseIpAddr host with
  | some ip =>
    rw [hParse] at h
    cases h
    exact List.cons_ne_nil _ _
  | none =>
    rw [hParse] at h
    dsimp only at h
    split_ifs at h
    · cases h
      exact List.cons_ne_nil _ _
    · cases hResolve : resolveDestIp resolver host with
      | error e =>
        rw [hResolve] at h
        cases h
      | ok ip =>
        rw [hResolve] at h
        cases h
        exact List.cons_ne_nil _ _

theorem tunnel_error (hFits : Fits auth) {e : SocksError} (h : connectRequest resolver remoteDns host port = .error e)
    {socket : Socket} {more : Str} (hIncoming : socket.incoming = accepted auth ++ more) :
    tunnel resolver auth remoteDns host port socket =
      .error e { socket with incoming := more, sent := socket.sent ++ hello auth } := by
  rw [tunnel, bind_eq ((reads_establish hFits).ok (a := ()) rfl hIncoming), sendConnect, h]
  rfl

variable (resolver remoteDns host port) in
private theorem tunnel_of_not_fits (hFits : ¬Fits auth) {socket : Socket} {more : Str}
    (hIncoming : socket.incoming = accepted auth ++ more) :
    ∃ e socket', tunnel resolver auth remoteDns host port socket = .error e socket' ∧
      socket'.sent = socket.sent ++ [socks5Version, 1, methodUsernamePassword] := by
  cases auth with
  | none => exact absurd trivial hFits
  | some auth =>
    obtain ⟨username, password⟩ := auth
    have hMethod : socket.incoming = [socks5Version, methodUsernamePassword] ++ ([subnegVersion, 0] ++ more) := hIncoming
    have hNegotiated := (reads_negotiateMethod (some (.basic username password))).ok ⟨rfl, rfl⟩ hMethod
    have hRefused : ∀ socket, ∃ e, authenticate (.basic username password) socket = .error e socket := by
      intro socket
      rw [authenticate]
      by_cases hUsername : maxCredentialLen < username.length
      · exact ⟨_, by rw [if_pos hUsername]; rfl⟩
      · by_cases hPassword : maxCredentialLen < password.length
        · exact ⟨_, by rw [if_neg hUsername, if_pos hPassword]; rfl⟩
        · exact absurd ⟨Nat.not_lt.mp hUsername, Nat.not_lt.mp hPassword⟩ hFits
    let asked : Socket := { socket with
      incoming := [subnegVersion, 0] ++ more
      sent := socket.sent ++ [socks5Version, 1, methodUsernamePassword] }
    obtain ⟨e, hError⟩ := hRefused asked
    have hEstablish : establish (some (.basic username password)) socket = .error e asked := by
      rw [establish, bind_eq hNegotiated]
      exact hError
    exact ⟨e, asked, bind_error hEstablish, rfl⟩

end tunnel

/-- A tunnel asks for what it is for, and takes only what answers it. -/
structure Tunnels (resolver : Str → Lookup) (auth : Option ProxyAuth) (remoteDns : Bool) (host : UrlHost) (port : UInt16) :
    Prop where
  asks : ¬host.tooLong → ∀ socket more, socket.incoming = accepted auth ++ more →
    ∃ request, (left (tunnel resolver auth remoteDns host.text port socket)).sent = socket.sent ++ hello auth ++ request ∧
      decodeConnect request = some (host.destination, port.toNat)
  rejects : host.tooLong → ∀ socket more, socket.incoming = accepted auth ++ more →
    (left (tunnel resolver auth remoteDns host.text port socket)).sent = socket.sent ++ hello auth
  accepts : ∀ socket rest,
    (∃ socket', tunnel resolver auth remoteDns host.text port socket = .ok () socket' ∧ socket'.incoming = rest) ↔
      ¬host.tooLong ∧ ∃ last, SuccessReply last ∧ socket.incoming = accepted auth ++ last ++ rest

/-- The credentials fit, and the proxy gets the name, or the literal, that the host is. -/
def AsksByHost (resolver : Str → Lookup) (auth : Option ProxyAuth) (remoteDns : Bool) (host : UrlHost) : Prop :=
  Fits auth ∧
    if remoteDns then host.isIpv6 = false
    else host.isLiteral = true ∨ host.tooLong ∧ ∀ ip, resolveDestIp resolver host.text ≠ .ok ip

namespace UrlHost
variable {resolver : Str → Lookup} {host : UrlHost} {port : UInt16}

theorem parseIpAddr_name {text : Str} (noLiteral : parseIpv4Addr text = none) (noColon : Ip.separator ∉ text) :
    parseIpAddr text = none := by
  rw [parseIpAddr, noLiteral, parseIpv6Addr_colon noColon]
  rfl

theorem parse_bracketed (text : Str) :
    parseIpv4Addr (openBracket :: text) = none ∧ parseIpv6Addr (openBracket :: text) = none :=
  ⟨parseIpv4Addr_none (by decide), parseIpv6Addr_none (by decide) (by decide) (by decide)⟩

/-- A literal in brackets is no literal to the standard library. -/
theorem parseIpAddr_bracketed (text : Str) : parseIpAddr (openBracket :: text) = none := by
  rw [parseIpAddr, (parse_bracketed text).1, (parse_bracketed text).2]
  rfl

theorem bracketed_text (text : Str) : bracketed (openBracket :: text ++ [closeBracket]) = parseIpv6Addr text := by
  have hLast : (openBracket :: text ++ [closeBracket]).getLast? = some closeBracket := by
    rw [List.cons_append, ← List.cons_append, List.getLast?_concat]
  rw [bracketed, if_pos ⟨rfl, hLast⟩, List.cons_append, List.tail_cons, List.dropLast_concat]

variable (resolver) in
theorem resolveDestIp_bracketed {text : Str} {ip : BitVec 128} (literal : parseIpv6Addr text = some ip) :
    resolveDestIp resolver (openBracket :: text ++ [closeBracket]) = .ok (.v6 ip) := by
  have hParse := parse_bracketed (text ++ [closeBracket])
  have hLookup : lookupHost resolver (openBracket :: text ++ [closeBracket]) = .found [.v6 ip] := by
    rw [lookupHost, bracketed_text, literal]
  rw [resolveDestIp, resolveDestIps]
  simp only [List.cons_append] at hLookup ⊢
  simp only [hParse.1, hParse.2, hLookup]

variable (port) in
private theorem connectRequest_of_asksByHost {auth : Option ProxyAuth} {remoteDns : Bool}
    (h : AsksByHost resolver auth remoteDns host) :
    ¬host.tooLong ∧ (∃ request, connectRequest resolver remoteDns host.text port = .ok request ∧
        decodeConnect request = some (host.destination, port.toNat)) ∨
      host.tooLong ∧ ∃ e, connectRequest resolver remoteDns host.text port = .error e := by
  obtain ⟨-, hHost⟩ := h
  cases host with
  | ipv4 text ip literal =>
    refine .inl ⟨id, ipRequest (.v4 ip) port, ?_, decodeConnect_ipRequest _ _⟩
    simp only [connectRequest, UrlHost.text, parseIpAddr, literal, Option.map_some, Option.some_or]
  | ipv6 text ip literal =>
    cases remoteDns with
    | true => cases hHost
    | false =>
      refine .inl ⟨id, ipRequest (.v6 ip) port, ?_, decodeConnect_ipRequest _ _⟩
      have hResolve := resolveDestIp_bracketed resolver literal
      have hParse := parseIpAddr_bracketed (text ++ [closeBracket])
      simp only [connectRequest, UrlHost.text, List.cons_append] at hResolve ⊢
      rw [hParse, hResolve]
      rfl
  | name text noLiteral noColon noBracket =>
    have hParse := parseIpAddr_name noLiteral noColon
    simp only [connectRequest, UrlHost.text, hParse]
    cases remoteDns with
    | true =>
      by_cases hLong : maxDomainLen < text.length
      · exact .inr ⟨hLong, _, if_pos hLong⟩
      · exact .inl ⟨hLong, _, if_neg hLong, decodeConnect_domainRequest (Nat.not_lt.mp hLong) port⟩
    | false =>
      obtain hLiteral | ⟨hLong, hUnresolved⟩ := hHost
      · cases hLiteral
      · refine .inr ⟨hLong, ?_⟩
        cases hResolve : resolveDestIp resolver text with
        | ok ip => exact absurd hResolve (hUnresolved ip)
        | error e => exact ⟨e, rfl⟩

end UrlHost

theorem decodeConnect_nil : decodeConnect [] = none := by decide

section
variable {resolver : Str → Lookup} {auth : Option ProxyAuth} {remoteDns : Bool} {host : UrlHost} {port : UInt16}

private theorem hello_length (auth : Option ProxyAuth) (h : ¬Fits auth) : 3 < (hello auth).length := by
  cases auth with
  | none => exact absurd trivial h
  | some auth =>
    obtain ⟨username, password⟩ := auth
    simp only [hello, authRequest, List.length_append, List.length_cons]
    omega

/-- A connection on which the proxy accepts the client and goes away. -/
def accepting (auth : Option ProxyAuth) : Socket := ⟨accepted auth, .eof, []⟩

theorem Tunnels.fits (h : Tunnels resolver auth remoteDns host port) : Fits auth := by
  by_contra hFits
  have hIncoming : (accepting auth).incoming = accepted auth ++ [] := (List.append_nil _).symm
  obtain ⟨e, socket', hError, hSent⟩ :=
    tunnel_of_not_fits resolver remoteDns host.text port hFits hIncoming
  have hLength := hello_length auth hFits
  by_cases hLong : host.tooLong
  · have hHello := h.rejects hLong _ _ hIncoming
    rw [hError] at hHello
    have hSame := congrArg List.length (hSent.symm.trans hHello)
    rw [List.length_append, List.length_append] at hSame
    simp only [List.length_cons, List.length_nil] at hSame
    omega
  · obtain ⟨request, hHello, -⟩ := h.asks hLong _ _ hIncoming
    rw [hError] at hHello
    have hSame := congrArg List.length (hSent.symm.trans hHello)
    rw [List.length_append, List.length_append, List.length_append] at hSame
    simp only [List.length_cons, List.length_nil] at hSame
    omega

/-- The request of a tunnel to its own destination. -/
theorem Tunnels.request (h : Tunnels resolver auth remoteDns host port) :
    ¬host.tooLong ∧ (∃ request, connectRequest resolver remoteDns host.text port = .ok request ∧
        decodeConnect request = some (host.destination, port.toNat)) ∨
      host.tooLong ∧ ∃ e, connectRequest resolver remoteDns host.text port = .error e := by
  have hIncoming : (accepting auth).incoming = accepted auth ++ [] := (List.append_nil _).symm
  by_cases hLong : host.tooLong
  · refine .inr ⟨hLong, ?_⟩
    cases hRequest : connectRequest resolver remoteDns host.text port with
    | error e => exact ⟨e, rfl⟩
    | ok request =>
      have hHello := h.rejects hLong _ _ hIncoming
      rw [sent_tunnel h.fits hRequest hIncoming] at hHello
      exact absurd (List.append_right_eq_self.mp hHello) (connectRequest_ne_nil hRequest)
  · refine .inl ⟨hLong, ?_⟩
    obtain ⟨request, hHello, hDecode⟩ := h.asks hLong _ _ hIncoming
    cases hRequest : connectRequest resolver remoteDns host.text port with
    | error e =>
      rw [tunnel_error h.fits hRequest hIncoming] at hHello
      obtain rfl : request = [] := List.append_right_eq_self.mp hHello.symm
      rw [decodeConnect_nil] at hDecode
      cases hDecode
    | ok written =>
      rw [sent_tunnel h.fits hRequest hIncoming] at hHello
      obtain rfl := List.append_cancel_left hHello
      exact ⟨written, rfl, hDecode⟩

/-- What the request has to be, and what it is. -/
theorem asksByHost_of_request (hFits : Fits auth)
    (h : ¬host.tooLong ∧ (∃ request, connectRequest resolver remoteDns host.text port = .ok request ∧
        decodeConnect request = some (host.destination, port.toNat)) ∨
      host.tooLong ∧ ∃ e, connectRequest resolver remoteDns host.text port = .error e) :
    AsksByHost resolver auth remoteDns host := by
  refine ⟨hFits, ?_⟩
  cases host with
  | ipv4 text ip literal =>
    cases remoteDns
    · exact .inl rfl
    · rfl
  | ipv6 text ip literal =>
    cases remoteDns with
    | false => exact .inl rfl
    | true =>
      exfalso
      obtain ⟨-, request, hRequest, hDecode⟩ | ⟨hLong, -⟩ := h
      · have hParse := UrlHost.parseIpAddr_bracketed (text ++ [closeBracket])
        obtain ⟨rfl, hShort⟩ := connectRequest_remote hParse hRequest
        rw [decodeConnect_domainRequest hShort] at hDecode
        cases hDecode
      · exact hLong
  | name text noLiteral noColon noBracket =>
    cases remoteDns with
    | true => rfl
    | false =>
      refine .inr ?_
      have hParse := UrlHost.parseIpAddr_name noLiteral noColon
      simp only [connectRequest, UrlHost.text, hParse, Bool.false_eq_true, if_false] at h
      obtain ⟨-, request, hRequest, hDecode⟩ | ⟨hLong, e, hError⟩ := h
      · exfalso
        cases hResolve : resolveDestIp resolver text with
        | error e =>
          rw [hResolve] at hRequest
          cases hRequest
        | ok ip =>
          rw [hResolve] at hRequest
          cases hRequest
          rw [decodeConnect_ipRequest] at hDecode
          cases hDecode
      · refine ⟨hLong, ?_⟩
        intro ip hResolve
        rw [UrlHost.text] at hResolve
        rw [hResolve] at hError
        cases hError

end

/-- A tunnel asks for the destination, and takes exactly the replies that the proxy owes, when the proxy
gets the host as it is: a name, or a literal that is not in brackets. -/
theorem tunnels_iff (resolver : Str → Lookup) (auth : Option ProxyAuth) (remoteDns : Bool) (host : UrlHost) (port : UInt16) :
    Tunnels resolver auth remoteDns host port ↔ AsksByHost resolver auth remoteDns host := by
  constructor
  · exact fun h => asksByHost_of_request h.fits h.request
  · intro h
    have hFits := h.1
    obtain ⟨hShort, request, hRequest, hDecode⟩ | ⟨hLong, e, hError⟩ := UrlHost.connectRequest_of_asksByHost port h
    · have hReads := reads_tunnel hFits hRequest
      refine ⟨?_, fun hLong => absurd hLong hShort, ?_⟩
      · exact fun _ socket more hIncoming => ⟨request, sent_tunnel hFits hRequest hIncoming, hDecode⟩
      · intro socket rest
        constructor
        · rintro ⟨socket', hOk, rfl⟩
          obtain ⟨reply, ⟨last, hLast, rfl⟩, hIncoming⟩ := hReads.only hOk
          exact ⟨hShort, last, hLast, hIncoming⟩
        · rintro ⟨-, last, hLast, hIncoming⟩
          exact ⟨_, hReads.ok (a := ()) ⟨last, hLast, rfl⟩ hIncoming, rfl⟩
    · refine ⟨fun hShort => absurd hLong hShort, ?_, ?_⟩
      · intro _ socket more hIncoming
        rw [tunnel_error hFits hError hIncoming]
        rfl
      · intro socket rest
        constructor
        · rintro ⟨socket', hOk, -⟩
          obtain ⟨_, between, -, hSend⟩ := bind_ok.mp hOk
          rw [sendConnect, hError] at hSend
          cases hSend
        · exact fun hShort => absurd hLong hShort.1

/-- `[::1]` goes to the proxy as a name. -/
theorem not_tunnels : ¬∀ resolver auth remoteDns host port, Tunnels resolver auth remoteDns host port := by
  intro hAll
  have hTunnels := hAll (fun _ => .timeout) none true (.ipv6 (utf8 "::1") 1 (by decide)) 443
  have hAsks := asksByHost_of_request hTunnels.fits hTunnels.request
  exact Bool.noConfusion hAsks.2

end Eggfetch.Proxy
