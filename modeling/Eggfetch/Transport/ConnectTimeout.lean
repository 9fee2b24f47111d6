import Eggfetch.Transport.Establish

/-! Which requests keep their own connect timeout. -/
namespace Eggfetch.Transport
open Polling Transition
open Pipeline (Duration Timeout)

variable {E : Type} {κ : Type}

/-- Every cached client has the timeout that its key or the client configuration tells. -/
def BuiltAsKeyed (client : Option Timeout) (caches : RouteCaches κ) : Prop :=
  ∀ family, ∀ entry ∈ caches family,
    entry.2 = if family.keyed then entry.1.connectTimeout else client.bind (·.connect)

section caches
variable {client : Option Timeout} {caches caches' : RouteCaches κ}

private theorem mem_insertCached {maxEntries victim : Nat} {entries : List (ClientKey κ × Option Duration)} {key : ClientKey κ}
    {built : Option Duration} {entry : ClientKey κ × Option Duration}
    (h : entry ∈ insertCached maxEntries victim entries key built) : entry = (key, built) ∨ entry ∈ entries := by
  rw [insertCached] at h
  obtain rfl | h := List.mem_cons.mp h
  · exact .inl rfl
  · split_ifs at h
    · exact .inr (List.mem_of_mem_eraseIdx h)
    · exact .inr h

variable [DecidableEq κ]

private theorem builtAsKeyed_step (h : BuiltAsKeyed client caches) {action : Request κ × Nat}
    (hStep : caches.step client action = some caches') : BuiltAsKeyed client caches' := by
  obtain ⟨⟨connection, identity, timeout⟩, victim⟩ := action
  simp only [RouteCaches.step] at hStep
  cases connection with
  | tunnel | http3 =>
    obtain rfl := Option.some.inj hStep
    exact h
  | hyper family proxyTls =>
    simp only at hStep
    cases hMax : family.maxEntries with
    | none =>
      rw [hMax] at hStep
      obtain rfl := Option.some.inj hStep
      exact h
    | some maxEntries =>
      rw [hMax] at hStep
      cases hLookup : (caches family).lookup (clientKey family identity (hopTimeout client timeout)) with
      | some built =>
        rw [hLookup] at hStep
        obtain rfl := Option.some.inj hStep
        exact h
      | none =>
        rw [hLookup] at hStep
        obtain rfl := Option.some.inj hStep
        intro other entry hEntry
        by_cases hFamily : other = family
        · subst hFamily
          rw [Function.update_self] at hEntry
          obtain rfl | hOld := mem_insertCached hEntry
          · simp only [builtWith, clientKey]
            split_ifs <;> rfl
          · exact h other entry hOld
        · rw [Function.update_of_ne hFamily] at hEntry
          exact h other entry hEntry

theorem builtAsKeyed_reachable (h : Reachable (RouteCaches.step client) (fun _ => []) caches) :
    BuiltAsKeyed client caches := by
  apply h.invariant
  · intro family entry hEntry
    cases hEntry
  · intro _ _ _ _ hInv _ hStep
    exact builtAsKeyed_step hInv hStep

/-- An earlier request has no say in the timeout that a connector has. -/
theorem clientTimeout_eq (h : BuiltAsKeyed client caches) (family : Family) (identity : κ) (hop : Timeout) :
    clientTimeout client caches family identity hop = builtWith client family hop := by
  rw [clientTimeout]
  split_ifs
  · cases hLookup : (caches family).lookup (clientKey family identity hop) with
    | none => rfl
    | some built =>
      obtain ⟨before, after, hEntries, -⟩ := List.lookup_eq_some_iff.mp hLookup
      have hBuilt : built = if family.keyed then (clientKey family identity hop).connectTimeout else client.bind (·.connect) :=
        h family (clientKey family identity hop, built) (by rw [hEntries]; simp)
      rw [Option.getD_some, hBuilt, builtWith, clientKey]
      split_ifs <;> rfl
  · rfl

end caches

section bounded
variable {effective deadline : Option Nat} {clock : Nat → Nat} {peers : Peers E} {family : Family} {proxyTls : Bool}

theorem stageAnswer_error {answer : Poll (Except E Unit)} {r : Established E} (h : stageAnswer answer = .ready (.error r)) :
    ∃ e, r = .error (.peer e) := by
  cases answer with
  | pending => cases h
  | ready result =>
    cases result with
    | ok => cases h
    | error e =>
      injection h with h
      injection h with h
      exact ⟨e, h.symm⟩

/-- A timeout of the connect phases once the budget has run out. -/
def ConnectElapsed (effective : Option Nat) (start : Nat) (r : Established E) (now : Nat) : Prop :=
  ∀ phase, r = .error (.timeout phase) → phase.isConnect = true ∧ ∃ d ∈ effective, start + d ≤ now

theorem phaseStage_keeps {phase : TimeoutPhase} {configured : Option Duration} {start : Nat}
    (h : ∀ x ∈ configured, phase.isConnect = true ∧ x ∈ effective) (answer : Nat → Poll (Except E Unit)) :
    (phaseStage phase none configured answer).Keeps (ConnectElapsed effective start) start where
  answer := by
    intro n r hAnswer now phase hPhase
    obtain ⟨e, rfl⟩ := stageAnswer_error hAnswer
    cases hPhase
  refused := by
    intro began r hRefused
    cases hRefused
  expired := by
    intro began hBegan x hExpiry now hNow phase' hPhase
    cases configured with
    | none => cases hExpiry
    | some d =>
      obtain ⟨hConnect, hEffective⟩ := h d rfl
      obtain rfl : began + d = x := Option.some.inj (Except.ok.inj hExpiry)
      cases hPhase
      exact ⟨hConnect, d, hEffective, by omega⟩

private theorem connector_keeps (family : Family) (proxyTls : Bool) (peers : Peers E) (start : Nat) :
    ∀ stage ∈ connector family proxyTls effective peers, stage.Keeps (ConnectElapsed effective start) start := by
  have hProxy : ∀ phase : TimeoutPhase, phase.isConnect = true →
      ∀ answer : Nat → Poll (Except E Unit),
        (phaseStage phase none effective answer).Keeps (ConnectElapsed effective start) start := by
    intro phase hPhase answer
    exact phaseStage_keeps (fun x hx => ⟨hPhase, hx⟩) answer
  have hFree : ∀ phase : TimeoutPhase, ∀ answer : Nat → Poll (Except E Unit),
      (phaseStage phase none none answer).Keeps (ConnectElapsed effective start) start := by
    intro phase answer
    exact phaseStage_keeps (by simp) answer
  have hToProxy : ∀ stage ∈ connectToProxy proxyTls ⟨none, effective, effective, effective, none, none⟩ peers,
      stage.Keeps (ConnectElapsed effective start) start := by
    intro stage hStage
    rw [connectToProxy] at hStage
    obtain rfl | hStage := List.mem_cons.mp hStage
    · exact hProxy .proxyConnect rfl _
    · split_ifs at hStage
      · obtain rfl := List.mem_singleton.mp hStage
        exact hProxy .proxyTls rfl _
      · cases hStage
  intro stage hStage
  cases family with
  | forward => exact hToProxy stage hStage
  | connect =>
    rw [connector, establishHttpsTunnel] at hStage
    obtain hStage | hStage := List.mem_append.mp hStage
    · exact hToProxy stage hStage
    · simp only [List.mem_cons, List.not_mem_nil, or_false] at hStage
      obtain rfl | rfl | rfl := hStage
      · exact hFree .write _
      · exact hFree .read _
      · exact hProxy .connect rfl _
  | standard | direct | uds | custom | sni | customSni | resolved | socks =>
    obtain rfl := List.mem_singleton.mp hStage
    exact hFree .connect _

theorem hyperConnection_elapsed (hClock : Monotone clock) (family : Family) (proxyTls : Bool) (peers : Peers E) {n : Nat}
    {r : Established E} (h : (hyperConnection family proxyTls effective peers).EndsAt clock n r) :
    ConnectElapsed effective (clock 0) r (clock n) := by
  obtain hInner | ⟨rfl, d, hd, hElapsed⟩ := Future.timeout_endsAt h
  · refine Future.stages_endsAt hClock ?_ (connector_keeps family proxyTls peers (clock 0)) hInner
    intro now phase hPhase
    cases hPhase
  · intro phase hPhase
    cases hPhase
    exact ⟨rfl, d, hd, hElapsed⟩

theorem hyperConnection_bounded (hClock : Monotone clock) (family : Family) (proxyTls : Bool) (peers : Peers E) :
    Bounded effective deadline 1 clock (hyperConnection family proxyTls effective peers) := by
  have hEnds : ∀ n r, (hyperConnection family proxyTls effective peers).EndsAt clock n r →
      ConnectElapsed effective (clock 0) r (clock n) := by
    intro n r h
    exact hyperConnection_elapsed hClock family proxyTls peers h
  refine ⟨?_, ?_, ?_⟩
  · intro d hd n hElapsed
    exact Future.timeout_over hd hElapsed
  · intro d _ n phase _ h
    exact .inl (hEnds n _ h phase rfl).1
  · intro n phase _ h
    obtain ⟨d, hd, hElapsed⟩ := (hEnds n _ h phase rfl).2
    exact .inl ⟨d, hd, by omega⟩

end bounded
end Eggfetch.Transport
