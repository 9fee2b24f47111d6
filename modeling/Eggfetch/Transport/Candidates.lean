import Eggfetch.Transport.DirectConnector
import Eggfetch.Text.Ip

/-! Which candidates the direct connector dials, and when it reports a refusal. -/
namespace Eggfetch.Transport.Direct
open Text
open Routing (IpAddr SocketAddr openBracket closeBracket)
open Proxy (parseIpAddr)

def inBrackets (host : Str) : Option Str :=
  match host with
  | 0x5b :: rest => if rest.getLast? = some 0x5d then some rest.dropLast else none
  | _ => none

/-- The IP address that a host is a literal of; an IPv6 literal may be in brackets. -/
def literalIp (host : Str) : Option IpAddr :=
  (parseIpAddr host).or (((inBrackets host).bind parseIpv6Addr).map .v6)

def socketAddr (port : Nat) : IpAddr → SocketAddr
  | .v4 ip => .v4 ip port
  | .v6 ip => .v6 ip port 0 0

/-- The result is a `ConnectionRefused`. -/
def reportsRefused : Except Error Unit → Bool
  | .error (.direct .connectionRefused _ _) => true
  | _ => false

/-- The candidates that a call tried to connect to: it counts those whose socket could be prepared. -/
def attempts (outcome : Outcome) : List (Nat × SocketAddr × Answer) := outcome.tried.filter (!·.2.2.isUnprepared)

/-- The law of one call. -/
structure Dials (c : DirectConnector) (w : World) (dst : Uri) : Prop where
  literal : ∀ host ip, dst.host = some host → c.resolvedAddresses = none → literalIp host = some ip →
    tlsServerName w.tryFrom host = .ok (.ipAddress ip) ∧
      c.addresses w dst host = .ok [socketAddr (DirectConnector.port dst) ip]
  order : ∀ metrics host addresses, dst.host = some host → c.addresses w dst host = .ok addresses →
    attempts (c.call w dst metrics) = through (·.2.2.isConnected) (offers c.config w.trial 0 addresses)
  outside : ∀ metrics, (∀ host addresses, dst.host = some host → c.addresses w dst host ≠ .ok addresses) →
    attempts (c.call w dst metrics) = []
  refused : ∀ metrics, reportsRefused (c.call w dst metrics).result = true ↔
    attempts (c.call w dst metrics) ≠ [] ∧ ∀ x ∈ attempts (c.call w dst metrics), x.2.2.isRefused = true

/-- A literal in brackets is resolved to itself if nothing is pinned. -/
def ResolvesBrackets (c : DirectConnector) (w : World) (dst : Uri) : Prop :=
  ∀ host ip, dst.host = some host → c.resolvedAddresses = none → (inBrackets host).bind parseIpv6Addr = some ip →
    w.resolve host (DirectConnector.port dst) = .ok [.v6 ip (DirectConnector.port dst) 0 0]

/-- The loop comes to no candidate whose socket cannot be prepared. -/
def PreparesAll (c : DirectConnector) (w : World) (dst : Uri) : Prop :=
  ∀ host addresses, dst.host = some host → c.addresses w dst host = .ok addresses →
    Prepared (offers c.config w.trial 0 addresses)

section
variable {c : DirectConnector} {w : World} {dst : Uri} {host : Str} {α : Type} {p : α → Bool}

private theorem inBrackets_eq_some {text : Str} (h : inBrackets host = some text) :
    host = openBracket :: (text ++ [closeBracket]) := by
  unfold inBrackets at h
  split at h
  · split at h
    · rename_i rest hLast
      obtain rfl := Option.some.inj h
      have hSplit := List.dropLast_append_getLast? _ hLast
      exact congrArg (openBracket :: ·) hSplit.symm
    · cases h
  · cases h

private theorem stripBrackets_eq (host : Str) : stripBrackets host = (inBrackets host).getD host := by
  unfold stripBrackets
  split
  · rename_i rest
    have hIn : inBrackets (0x5b :: rest) = if rest.getLast? = some 0x5d then some rest.dropLast else none := rfl
    rw [hIn]
    split <;> rfl
  · rename_i hOther
    unfold inBrackets
    split
    · exact (hOther _ rfl).elim
    · rfl

/-- A literal in brackets is no literal to the standard library. -/
theorem parseIpAddr_inBrackets {text : Str} (h : inBrackets host = some text) : parseIpAddr host = none := by
  rw [inBrackets_eq_some h, parseIpAddr, parseIpv4Addr_none (by decide), parseIpv6Addr_none (by decide) (by decide) (by decide)]
  rfl

private theorem tlsServerName_literal {tryFrom : Str → Except Str ServerName} {ip : IpAddr} (h : literalIp host = some ip) :
    tlsServerName tryFrom host = .ok (.ipAddress ip) := by
  rw [tlsServerName, stripBrackets_eq]
  rw [literalIp] at h
  cases hText : inBrackets host with
  | none =>
    rw [hText, Option.bind_none, Option.map_none, Option.or_none] at h
    rw [Option.getD_none, h]
  | some text =>
    rw [hText, parseIpAddr_inBrackets hText, Option.none_or, Option.bind_some] at h
    obtain ⟨bits, hBits, rfl⟩ := Option.map_eq_some_iff.mp h
    have hColon : Ip.separator ∈ text := by
      by_contra hNone
      rw [parseIpv6Addr_colon hNone] at hBits
      cases hBits
    rw [Option.getD_some, parseIpAddr, parseIpv4Addr_colon hColon, hBits]
    rfl

private theorem literal_iff : (∀ host ip, dst.host = some host → c.resolvedAddresses = none → literalIp host = some ip →
      tlsServerName w.tryFrom host = .ok (.ipAddress ip) ∧
        c.addresses w dst host = .ok [socketAddr (DirectConnector.port dst) ip]) ↔ ResolvesBrackets c w dst := by
  constructor
  · intro h host ip hHost hUnpinned hBits
    obtain ⟨text, hText, hText'⟩ := Option.bind_eq_some_iff.mp hBits
    have hLiteral : literalIp host = some (.v6 ip) := by
      rw [literalIp, parseIpAddr_inBrackets hText, hBits]
      rfl
    have hAddresses := (h host _ hHost hUnpinned hLiteral).2
    rw [DirectConnector.addresses, hUnpinned, lookupHost, parseIpAddr_inBrackets hText] at hAddresses
    exact hAddresses
  · intro h host ip hHost hUnpinned hLiteral
    refine ⟨tlsServerName_literal hLiteral, ?_⟩
    rw [DirectConnector.addresses, hUnpinned, lookupHost]
    rw [literalIp] at hLiteral
    cases hParsed : parseIpAddr host with
    | some parsed =>
      rw [hParsed, Option.some_or] at hLiteral
      obtain rfl := Option.some.inj hLiteral
      cases parsed <;> rfl
    | none =>
      rw [hParsed, Option.none_or] at hLiteral
      obtain ⟨bits, hBits, rfl⟩ := Option.map_eq_some_iff.mp hLiteral
      exact h host bits hHost hUnpinned hBits

section
variable {offered : List (Nat × SocketAddr × Answer)}

private theorem filter_through_iff : (through (·.2.2.isDecisive) offered).filter (!·.2.2.isUnprepared) =
    through (·.2.2.isConnected) offered ↔ Prepared offered := by
  rw [prepared_iff]
  induction offered with
  | nil => exact iff_of_true rfl fun x hx => nomatch hx
  | cons x rest ih =>
    obtain ⟨i, addr, a⟩ := x
    rw [through, through, List.find?_cons]
    cases a with
    | unprepared e =>
      refine iff_of_false (fun h => ?_) fun h => ?_
      · exact List.noConfusion rfl (heq_of_eq h)
      · cases h _ rfl
    | connected =>
      refine iff_of_true rfl fun y hy => ?_
      obtain rfl := Option.some.inj hy
      rfl
    | unbound e => exact (List.cons_inj_right _).trans ih
    | failed e => exact (List.cons_inj_right _).trans ih

theorem connected_of_found {x : Nat × SocketAddr × Answer} (hPrepared : Prepared offered)
    (hFound : offered.find? (·.2.2.isDecisive) = some x) : x.2.2 = .connected := by
  have hNot := (prepared_iff offered).mp hPrepared x hFound
  have hDecisive := List.find?_some hFound
  obtain ⟨i, addr, a⟩ := x
  cases a with
  | connected => rfl
  | unprepared e => cases hNot
  | unbound e => cases hDecisive
  | failed e => exact absurd hDecisive Bool.false_ne_true

private theorem mem_through {x : α} {l : List α} (h : l.find? p = some x) : x ∈ through p l := by
  induction l with
  | nil => cases h
  | cons y rest ih =>
    rw [List.find?_cons] at h
    rw [through]
    cases hy : p y with
    | true =>
      rw [hy] at h
      obtain rfl := Option.some.inj h
      exact List.mem_cons_self
    | false =>
      rw [hy] at h
      exact List.mem_cons_of_mem y (ih h)

/-- If nothing decides, every candidate was tried and none connected. -/
theorem through_of_undecided (h : offered.find? (·.2.2.isDecisive) = none) :
    through (·.2.2.isDecisive) offered = offered ∧ ∀ x ∈ offered, x.2.2.isUnprepared = false := by
  induction offered with
  | nil => exact ⟨rfl, fun x hx => absurd hx List.not_mem_nil⟩
  | cons x rest ih =>
    have hNot := List.find?_eq_none.mp h
    have hx := hNot x List.mem_cons_self
    obtain ⟨hRest, hPrepared⟩ := ih (List.find?_eq_none.mpr fun y hy => hNot y (List.mem_cons_of_mem x hy))
    refine ⟨by rw [through, if_neg hx, hRest], List.forall_mem_cons.mpr ⟨?_, hPrepared⟩⟩
    cases hUnprepared : x.2.2.isUnprepared with
    | false => rfl
    | true => exact absurd (by rw [Answer.isDecisive, hUnprepared, Bool.true_or]) hx

end

private theorem upgrade_refused (isHttps : Bool) (metrics : Option TransportMetrics) :
    reportsRefused (c.upgrade w host isHttps metrics).2 = false := by
  rw [DirectConnector.upgrade]
  split
  · rfl
  split
  · rfl
  split
  · rfl
  split
  · rfl
  dsimp only
  split
  · rfl
  split <;> rfl

private theorem classifyTcpFailures_eq (attempted refused : Nat) :
    classifyTcpFailures attempted refused = .connectionRefused ↔ 0 < attempted ∧ refused = attempted := by
  rw [classifyTcpFailures, @eq_comm _ refused]
  split
  · rename_i h
    exact iff_of_true rfl h
  · rename_i h
    exact iff_of_false (fun hKind => nomatch hKind) h

section
variable {addresses : List SocketAddr} (metrics : Option TransportMetrics) (hHost : dst.host = some host)
  (hAddresses : c.addresses w dst host = .ok addresses)
include hHost hAddresses

theorem call_tried : (c.call w dst metrics).tried = through (·.2.2.isDecisive) (offers c.config w.trial 0 addresses) := by
  obtain ⟨hTried, -, -, -⟩ := @dialFrom_offers c.config w.trial 0 {} addresses
  rw [List.nil_append] at hTried
  rw [← hTried, DirectConnector.call]
  simp only [hHost, hAddresses]
  generalize dialFrom c.config w.trial 0 {} addresses = dialed
  obtain ⟨d, loopEnd⟩ := dialed
  cases loopEnd <;> rfl

private theorem call_connected {x : Nat × SocketAddr × Answer}
    (hFound : (offers c.config w.trial 0 addresses).find? (·.2.2.isDecisive) = some x) (hConnected : x.2.2 = .connected) :
    reportsRefused (c.call w dst metrics).result = false := by
  obtain ⟨-, -, -, hEnd⟩ := @dialFrom_offers c.config w.trial 0 {} addresses
  have hIs : endOf (some x) = .connected := by
    obtain ⟨i, addr, a⟩ := x
    obtain rfl : a = .connected := hConnected
    rfl
  rw [hFound, hIs] at hEnd
  rw [DirectConnector.call]
  simp only [hHost, hAddresses]
  generalize dialFrom c.config w.trial 0 {} addresses = dialed at hEnd
  obtain ⟨d, loopEnd⟩ := dialed
  obtain rfl : loopEnd = .connected := hEnd
  exact upgrade_refused _ _

private theorem call_undecided (hNone : (offers c.config w.trial 0 addresses).find? (·.2.2.isDecisive) = none) :
    reportsRefused (c.call w dst metrics).result = true ↔
      offers c.config w.trial 0 addresses ≠ [] ∧ ∀ x ∈ offers c.config w.trial 0 addresses, x.2.2.isRefused = true := by
  obtain ⟨-, hAttempted, hRefused, hEnd⟩ := @dialFrom_offers c.config w.trial 0 {} addresses
  obtain ⟨hAll, hPrepared⟩ := through_of_undecided hNone
  rw [hAll, Nat.zero_add] at hAttempted hRefused
  rw [hNone] at hEnd
  have hLength : (offers c.config w.trial 0 addresses).countP (!·.2.2.isUnprepared) =
    (offers c.config w.trial 0 addresses).length :=
    List.countP_eq_length.mpr fun x hx => by rw [hPrepared x hx, Bool.not_false]
  rw [← List.length_pos_iff, ← List.countP_eq_length, ← hLength, ← hAttempted, ← hRefused, DirectConnector.call]
  simp only [hHost, hAddresses]
  generalize dialFrom c.config w.trial 0 {} addresses = dialed at hEnd
  obtain ⟨d, loopEnd⟩ := dialed
  obtain rfl : loopEnd = .exhausted := hEnd
  rw [← classifyTcpFailures_eq]
  dsimp only
  generalize classifyTcpFailures d.attempted d.refused = kind
  cases kind with
  | connectionRefused => exact iff_of_true rfl rfl
  | dns => exact iff_of_false Bool.false_ne_true (by decide)
  | connect => exact iff_of_false Bool.false_ne_true (by decide)

end

private theorem call_without_addresses (metrics : Option TransportMetrics)
    (hNone : ∀ host addresses, dst.host = some host → c.addresses w dst host ≠ .ok addresses) :
    (c.call w dst metrics).tried = [] ∧ reportsRefused (c.call w dst metrics).result = false := by
  rw [DirectConnector.call]
  cases hHost : dst.host with
  | none => exact ⟨rfl, rfl⟩
  | some host =>
    cases hAddresses : c.addresses w dst host with
    | ok addresses => exact absurd hAddresses (hNone host addresses hHost)
    | error e =>
      simp only [hAddresses]
      exact ⟨trivial, rfl⟩

/-- The connector dials as it should exactly if a literal in brackets is resolved to itself, or the addresses are pinned, and
no candidate whose socket cannot be prepared comes before the first success. -/
theorem dials_iff (c : DirectConnector) (w : World) (dst : Uri) :
    Dials c w dst ↔ ResolvesBrackets c w dst ∧ PreparesAll c w dst := by
  constructor
  · intro h
    refine ⟨literal_iff.mp h.literal, fun host addresses hHost hAddresses => ?_⟩
    have hOrder := h.order none host addresses hHost hAddresses
    rw [attempts, call_tried none hHost hAddresses] at hOrder
    exact filter_through_iff.mp hOrder
  · rintro ⟨hBrackets, hPrepares⟩
    have hOrder : ∀ metrics host addresses, dst.host = some host → c.addresses w dst host = .ok addresses →
        attempts (c.call w dst metrics) = through (·.2.2.isConnected) (offers c.config w.trial 0 addresses) := by
      intro metrics host addresses hHost hAddresses
      rw [attempts, call_tried metrics hHost hAddresses]
      exact filter_through_iff.mpr (hPrepares host addresses hHost hAddresses)
    refine ⟨literal_iff.mpr hBrackets, hOrder, ?_, fun metrics => ?_⟩
    · intro metrics hNone
      rw [attempts, (call_without_addresses metrics hNone).1]
      rfl
    · by_cases hSome : ∃ host addresses, dst.host = some host ∧ c.addresses w dst host = .ok addresses
      · obtain ⟨host, addresses, hHost, hAddresses⟩ := hSome
        have hPrepared := hPrepares host addresses hHost hAddresses
        rw [hOrder metrics host addresses hHost hAddresses]
        cases hFound : (offers c.config w.trial 0 addresses).find? (·.2.2.isDecisive) with
        | none =>
          rw [← filter_through_iff.mpr hPrepared, (through_of_undecided hFound).1,
            List.filter_eq_self.mpr fun x hx => by rw [(through_of_undecided hFound).2 x hx, Bool.not_false]]
          exact call_undecided metrics hHost hAddresses hFound
        | some x =>
          have hConnected := connected_of_found hPrepared hFound
          refine iff_of_false ?_ fun hAll => ?_
          · rw [call_connected metrics hHost hAddresses hFound hConnected]
            exact Bool.false_ne_true
          · have hTried := filter_through_iff.mpr hPrepared
            have hMem : x ∈ through (·.2.2.isConnected) (offers c.config w.trial 0 addresses) := by
              rw [← hTried]
              exact List.mem_filter.mpr ⟨mem_through hFound, by rw [hConnected]; rfl⟩
            have hRefused := hAll.2 x hMem
            rw [hConnected] at hRefused
            cases hRefused
      · have hNone : ∀ host addresses, dst.host = some host → c.addresses w dst host ≠ .ok addresses :=
          fun host addresses hHost hAddresses => hSome ⟨host, addresses, hHost, hAddresses⟩
        obtain ⟨hTried, hRefused⟩ := call_without_addresses metrics hNone
        rw [hRefused, attempts, hTried]
        exact iff_of_false Bool.false_ne_true fun h => h.1 rfl

/-- The IPv6 loopback address in brackets is resolved as a name, which it is not. -/
theorem not_dials : ¬ ∀ (c : DirectConnector) (w : World) (dst : Uri), Dials c w dst := by
  intro h
  have hLiteral := (h { config := { localAddress := none, socketOptions := [] }, tls := true, sniHostname := none
                        resolvedAddresses := none, tlsRustls := true }
    { resolve := fun _ _ => .error ⟨false, utf8 "failed to lookup address information: Name or service not known"⟩
      trial := fun _ => ⟨.ok (), fun _ _ => .ok (), .ok (), .ok ()⟩, setNodelay := .ok ()
      tryFrom := fun name => .ok (.dnsName name), handshake := fun _ => .ok () }
    { scheme := some (utf8 "https"), host := some (utf8 "[::1]"), port := none }).literal (utf8 "[::1]") (.v6 1) rfl rfl
      (by decide)
  have hAddresses := hLiteral.2
  rw [DirectConnector.addresses, lookupHost, parseIpAddr_inBrackets (by decide : inBrackets (utf8 "[::1]") = some (utf8 "::1"))]
    at hAddresses
  cases hAddresses

end

end Eggfetch.Transport.Direct
