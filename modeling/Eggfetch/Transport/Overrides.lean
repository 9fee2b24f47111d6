import Eggfetch.Transport.ConnectTimeout
import Eggfetch.Transport.SharedBudget

/-! Requests that change the connect timeout of their client. -/
namespace Eggfetch.Transport
open Polling Transition
open Pipeline (Duration Timeout)

variable {E : Type} {κ : Type} {effective deadline : Option Nat} {clock : Nat → Nat}

private theorem tunnelStage_keeps {phase : TimeoutPhase} {configured : Option Duration} {start : Nat}
    (h : phase.isConnect = true → configured = none) (answer : Nat → Poll (Except E Unit)) :
    (phaseStage phase deadline configured answer).Keeps
      (fun r now => ∀ phase, phase.isConnect = true → r = .error (.timeout phase) → ∃ x ∈ deadline, x ≤ now) start where
  answer := by
    intro n r hAnswer now phase' _ hPhase
    obtain ⟨e, rfl⟩ := stageAnswer_error hAnswer
    cases hPhase
  refused := by
    intro began r hRefused phase' hConnect hPhase
    subst hPhase
    cases hLimit : effectiveTimeout (E := E) began deadline configured with
    | ok limit => simp [phaseStage, hLimit] at hRefused
    | error failure =>
      have hFailure : failure = .timeout phase' := by simpa [phaseStage, hLimit] using hRefused
      have hTotal : failure = .timeout .total := by
        cases deadline with
        | none => cases hLimit
        | some x =>
          simp only [effectiveTimeout] at hLimit
          split_ifs at hLimit
          exact (Except.error.inj hLimit).symm
      rw [hTotal] at hFailure
      injection hFailure with hFailure
      rw [← hFailure] at hConnect
      cases hConnect
  expired := by
    intro began _ x hExpiry now hNow phase' hConnect hPhase
    injection hPhase with hPhase
    injection hPhase with hPhase
    subst hPhase
    rw [h hConnect] at hExpiry
    cases deadline with
    | none => simp [phaseStage, effectiveTimeout] at hExpiry
    | some limit =>
      refine ⟨limit, rfl, ?_⟩
      simp only [phaseStage, effectiveTimeout] at hExpiry
      split_ifs at hExpiry with hLeft
      have hx : began + (limit - began) = x := Option.some.inj (Except.ok.inj hExpiry)
      omega

theorem mem_establishHttpsTunnel {proxyTls : Bool} {ctx : ProxyRequestContext} {peers : Peers E}
    {stage : Future.Stage (Established E)} (h : stage ∈ establishHttpsTunnel proxyTls ctx peers) :
    stage = phaseStage .proxyConnect ctx.deadline ctx.proxyConnectTimeout peers.proxyConnect ∨
      stage = phaseStage .proxyTls ctx.deadline ctx.proxyTlsTimeout peers.proxyTls ∨
      stage = phaseStage .write ctx.deadline ctx.writeTimeout peers.connectWrite ∨
      stage = phaseStage .read ctx.deadline ctx.readTimeout peers.connectRead ∨
      stage = phaseStage .connect ctx.deadline ctx.connectTimeout peers.originTls := by
  rw [establishHttpsTunnel, connectToProxy] at h
  cases proxyTls with
  | true => simpa using h
  | false =>
    simp only [Bool.false_eq_true, if_false, List.cons_append, List.nil_append, List.mem_cons, List.not_mem_nil,
      or_false] at h
    obtain h | h := h
    · exact .inl h
    · exact .inr (.inr h)

variable {write read : Option Duration}

private theorem tunnel_bounded (hClock : Monotone clock) (proxyTls : Bool) (peers : Peers E) :
    Bounded none deadline 1 clock
      (Future.stages (.ok ()) (establishHttpsTunnel proxyTls ⟨deadline, none, none, none, write, read⟩ peers)) := by
  refine ⟨by simp, by simp, ?_⟩
  · intro n phase hPhase hEnds
    refine .inr (Future.stages_endsAt (A := fun r now =>
      ∀ phase, phase.isConnect = true → r = .error (.timeout phase) → ∃ x ∈ deadline, x ≤ now) hClock ?_ ?_ hEnds phase
        hPhase rfl)
    · intro now phase _ h
      cases h
    · intro stage hStage
      obtain rfl | rfl | rfl | rfl | rfl := mem_establishHttpsTunnel hStage
      · exact tunnelStage_keeps (fun _ => rfl) _
      · exact tunnelStage_keeps (fun _ => rfl) _
      · exact tunnelStage_keeps (by simp [TimeoutPhase.isConnect]) _
      · exact tunnelStage_keeps (by simp [TimeoutPhase.isConnect]) _
      · exact tunnelStage_keeps (fun _ => rfl) _

def silentPeers : Peers E :=
  ⟨fun _ => .pending, fun _ => .pending, fun _ => .pending, fun _ => .pending, fun _ => .pending, fun _ => .pending,
    fun _ => .pending, [], fun _ => .pending, fun _ => .pending, fun _ => .pending⟩

/-- A proxy that accepts at the second poll, and an origin that does not answer. -/
def slowProxy : Peers E :=
  { silentPeers with
    proxyConnect := fun n => if n = 0 then .pending else .ready (.ok ())
    proxyTls := fun _ => .ready (.ok ())
    connectWrite := fun _ => .ready (.ok ())
    connectRead := fun _ => .ready (.ok ()) }

def deafProxy : Peers E :=
  { silentPeers with
    proxyConnect := fun _ => .ready (.ok ())
    proxyTls := fun _ => .ready (.ok ()) }

private theorem slowProxy_overruns {d : Nat} (hPos : 0 < d) (proxyTls : Bool) :
    ¬(Future.stages (.ok ()) (establishHttpsTunnel proxyTls ⟨none, some d, some d, some d, write, read⟩
      (slowProxy (E := E)))).Over (fun n => if n = 0 then 0 else d) 1 := by
  cases proxyTls <;>
    simp [Future.Over, Future.after, Future.stages, Future.pollStages, establishHttpsTunnel, connectToProxy, phaseStage,
      effectiveTimeout, slowProxy, silentPeers, stageAnswer, hPos.ne']

variable (write read) in
private theorem deafProxy_overruns (proxyTls : Bool) :
    let tunnel := Future.stages (.ok ()) (establishHttpsTunnel proxyTls ⟨none, some 0, some 0, some 0, write, read⟩
      (deafProxy (E := E)))
    ¬tunnel.Over (fun _ => 0) 0 ∨ tunnel.EndsAt (fun _ => 0) 0 (.error (.timeout .write)) := by
  by_cases hWrite : write = some 0
  · refine .inr ⟨_, rfl, ?_⟩
    cases proxyTls <;>
      simp [Future.stages, Future.pollStages, establishHttpsTunnel, connectToProxy, phaseStage, effectiveTimeout, deafProxy,
        silentPeers, stageAnswer, hWrite]
  · refine .inl ?_
    cases proxyTls <;> cases write <;>
      simp_all [Future.Over, Future.after, Future.stages, Future.pollStages, establishHttpsTunnel, connectToProxy, phaseStage,
        effectiveTimeout, deafProxy, silentPeers, stageAnswer]

variable (write read) in
theorem not_tunnel_bounded (d : Nat) (proxyTls : Bool) :
    ∃ (peers : Peers E) (clock : Nat → Nat), Monotone clock ∧ ¬Bounded (some d) none 1 clock
      (Future.stages (.ok ()) (establishHttpsTunnel proxyTls ⟨none, some d, some d, some d, write, read⟩ peers)) := by
  obtain rfl | hPos := Nat.eq_zero_or_pos d
  · refine ⟨deafProxy, fun _ => 0, monotone_const, ?_⟩
    intro hBounded
    obtain hGoesOn | hWrite := deafProxy_overruns (E := E) write read proxyTls
    · exact hGoesOn (hBounded.own 0 rfl 0 le_rfl)
    · obtain hPhase | ⟨x, hx, -⟩ := hBounded.named 0 rfl 0 .write le_rfl hWrite
      · cases hPhase
      · cases hx
  · refine ⟨slowProxy, fun n => if n = 0 then 0 else d, ?_, ?_⟩
    · intro m n hLe
      simp only
      split_ifs <;> omega
    · intro hBounded
      exact slowProxy_overruns hPos proxyTls (hBounded.own d rfl 1 (by simp))

private theorem connector_of_not_keyed {family : Family} (h : family.keyed = false) (proxyTls : Bool) (built : Option Duration)
    (peers : Peers E) : connector family proxyTls built peers = [phaseStage .connect none none peers.connect] := by
  cases family with
  | forward | connect => cases h
  | standard | direct | uds | custom | sni | customSni | resolved | socks => rfl

variable (clock) in
private theorem not_endsAt_connector {family : Family} (h : family.keyed = false) (proxyTls : Bool) (built : Option Duration)
    (n : Nat) (r : Established E) :
    ¬(Future.stages (.ok ()) (connector family proxyTls built (silentPeers (E := E)))).EndsAt clock n r := by
  rw [connector_of_not_keyed h]
  exact Future.not_endsAt_stages (fun _ => rfl) (fun _ => rfl) n r

private theorem eq_of_bounded {family : Family} (h : family.keyed = false) {proxyTls : Bool} {built : Option Duration}
    (hBounded : Bounded effective none 1 id (hyperConnection family proxyTls built (silentPeers (E := E)))) :
    built = effective := by
  have hNever := not_endsAt_connector (E := E) id h proxyTls built
  -- the attempt goes on for as long as the timer that it was built with
  have hGoesOn : ∀ n, (∀ d ∈ built, n < d) → ¬(hyperConnection family proxyTls built (silentPeers (E := E))).Over id n := by
    intro n hLeft
    refine Future.timeout_after_of_never _ hNever ?_
    intro d hd m hm
    have hLess := lt_of_le_of_lt (Nat.lt_succ_iff.mp hm) (hLeft d hd)
    simpa using hLess
  cases built with
  | none =>
    cases effective with
    | none => rfl
    | some d => exact absurd (hBounded.own d rfl d (by simp)) (hGoesOn d (by simp))
  | some c =>
    have hEnds : (hyperConnection family proxyTls (some c) (silentPeers (E := E))).EndsAt id c (.error (.timeout .connect)) := by
      refine Future.timeout_ends_of_never hNever rfl ?_ (by simp)
      intro m hm
      simpa using hm
    obtain ⟨d, hd, hLe⟩ | ⟨x, hx, -⟩ := hBounded.only c .connect rfl hEnds
    · obtain hEq | hLess := eq_or_lt_of_le (show d ≤ c by simp only [id] at hLe; omega)
      · rw [← hEq]
        exact hd.symm
      · have hOver := hBounded.own d hd d (by simp)
        refine absurd hOver (hGoesOn d ?_)
        intro x hx
        obtain rfl := Option.some.inj hx
        exact hLess
    · cases hx

/-- The connector of the request has the timeout that the request asks for. -/
def Request.HasOwnConnect (client : Option Timeout) (request : Request κ) : Prop :=
  let hop := hopTimeout client request.timeout
  match request.connection with
  | .hyper family _ => family.keyed = true ∨ client.bind (·.connect) = hop.connect
  | .tunnel _ => hop.connect = none
  | .http3 _ => True

variable [DecidableEq κ]

theorem hyper_keepsConnect_iff {client : Option Timeout} {caches : RouteCaches κ} (h : BuiltAsKeyed client caches)
    (family : Family) (proxyTls : Bool) (identity : κ) (timeout : Option Timeout) :
    Request.KeepsConnect E client caches ⟨.hyper family proxyTls, identity, timeout⟩ ↔
      family.keyed = true ∨ client.bind (·.connect) = (hopTimeout client timeout).connect := by
  have hBuilt := clientTimeout_eq h family identity (hopTimeout client timeout)
  have hConnection : ∀ deadline start (peers : Peers E),
      Request.establish client caches ⟨.hyper family proxyTls, identity, timeout⟩ deadline start peers =
        hyperConnection family proxyTls (builtWith client family (hopTimeout client timeout)) peers := by
    intro deadline start peers
    rw [← hBuilt]
    rfl
  constructor
  · intro hKeeps
    by_cases hKeyed : family.keyed = true
    · exact .inl hKeyed
    · have hBounded := hKeeps silentPeers none id monotone_id
      rw [hConnection] at hBounded
      have hEq := eq_of_bounded (Bool.not_eq_true _ ▸ hKeyed) hBounded
      rw [builtWith, if_neg hKeyed] at hEq
      exact .inr hEq
  · intro hOwn peers deadline clock hClock
    have hEq : builtWith client family (hopTimeout client timeout) = (hopTimeout client timeout).connect := by
      rw [builtWith]
      split_ifs with hKeyed
      · rfl
      · exact hOwn.resolve_left hKeyed
    rw [hConnection, hEq]
    exact hyperConnection_bounded hClock family proxyTls peers

/-- After any sequence of requests, the timeout of a request bounds its connection exactly when
its connector has it. -/
theorem keepsConnect_iff {client : Option Timeout} {caches : RouteCaches κ}
    (h : Reachable (RouteCaches.step client) (fun _ => []) caches) (request : Request κ) :
    request.KeepsConnect E client caches ↔ request.HasOwnConnect client := by
  obtain ⟨connection, identity, timeout⟩ := request
  cases connection with
  | hyper family proxyTls => exact hyper_keepsConnect_iff (builtAsKeyed_reachable h) family proxyTls identity timeout
  | tunnel proxyTls =>
    constructor
    · intro hKeeps
      cases hConnect : (hopTimeout client timeout).connect with
      | none => exact hConnect
      | some d =>
        obtain ⟨peers, clock, hClock, hNot⟩ := not_tunnel_bounded (E := E) (hopTimeout client timeout).write
          (hopTimeout client timeout).read d proxyTls
        have hBounded := hKeeps peers none clock hClock
        simp only [Request.establish, Request.addresses, hConnect] at hBounded
        exact absurd hBounded hNot
    · intro hNone peers deadline clock hClock
      have hConnect : (hopTimeout client timeout).connect = none := hNone
      simp only [Request.establish, Request.addresses, hConnect]
      exact tunnel_bounded hClock proxyTls peers
  | http3 routed =>
    refine iff_of_true ?_ trivial
    intro peers deadline clock hClock
    exact h3Session_bounded hClock (by simp [Request.addresses]) (by simp [Request.addresses]) routed

/-- A request that asks for another timeout than the one the SOCKS client was built with by the request before it. -/
theorem keepsConnect_iff_second_request :
    Request.KeepsConnect Unit (some { connect := some 5 })
        (Function.update (fun _ => []) .socks [(⟨"https://example.com", none⟩, some 5)])
        ⟨.hyper .socks false, "https://example.com", some { connect := some 1 }⟩ ↔
      Request.HasOwnConnect (some { connect := some 5 })
        (⟨.hyper .socks false, "https://example.com", some { connect := some 1 }⟩ : Request String) := by
  apply keepsConnect_iff
  exact Reaches.start.step (a := (⟨.hyper .socks false, "https://example.com", none⟩, 0)) trivial rfl

/-- Some request waits for its connection longer than its own timeout. -/
theorem not_keepsConnect : ¬∀ (client : Option Timeout) (caches : RouteCaches String),
    Reachable (RouteCaches.step client) (fun _ => []) caches →
      ∀ request : Request String, request.KeepsConnect Unit client caches := by
  intro h
  have hKeeps := h none (fun _ => []) Reaches.start
    ⟨.hyper .standard false, "https://example.com", some { connect := some 1 }⟩
  have hBuilt : BuiltAsKeyed none (fun _ => [] : RouteCaches String) := builtAsKeyed_reachable Reaches.start
  obtain hKeyed | hEq := (hyper_keepsConnect_iff hBuilt _ _ _ _).mp hKeeps
  · cases hKeyed
  · cases hEq

end Eggfetch.Transport
