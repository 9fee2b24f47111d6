import Eggfetch.Transport.Establish

/-! The connect budget that the addresses of an HTTP/3 origin share. -/
namespace Eggfetch.Transport
open Polling

namespace H3Stage
variable {E : Type} {budget : Option Nat} {addresses now n : Nat} {peers : Peers E}

/-- A timeout is a connect timeout, with less than one unit left for each address. -/
def Exhausted (budget : Option Nat) (addresses now : Nat) (r : Established E) : Prop :=
  ∀ phase, r = .error (.timeout phase) → phase = .connect ∧ ∃ d ∈ budget, d < now + addresses

/-- A step that has begun runs out of time when the budget does. -/
def Begun (budget : Option Nat) (begun : Option (Option Nat)) : Prop := ∀ expiry ∈ begun, expiry = budget

/-- The attempts that are left, the first of which may have begun. -/
structure Attempts (budget : Option Nat) (addresses now : Nat) (rest : List (Nat → Poll (Except E Unit)))
    (begun : Option (Option Nat)) (lastErr : Option (Failure E)) : Prop where
  length : rest.length ≤ addresses
  unbounded : ∀ expiry ∈ begun, budget = none → expiry = none
  share : ∀ expiry ∈ begun, ∀ d ∈ budget, ∃ x ∈ expiry, x ≤ d ∧ (rest.length = 1 → x = d)
  lastErr : ∀ phase, lastErr = some (.timeout phase) → phase = .connect ∧ ∃ d ∈ budget, rest = [] → d ≤ now

def Within (budget : Option Nat) (addresses now : Nat) : H3Stage E → Prop
  | .attempting rest begun lastErr => Attempts budget addresses now rest begun lastErr
  | .resolving begun | .dialing begun | .handshaking begun | .initializing begun => Begun budget begun

/-- What a poll comes to. -/
structure Polled (budget : Option Nat) (addresses now : Nat) (result : Established E ⊕ H3Stage E) : Prop where
  ends : ∀ r, result = .inl r → Exhausted budget addresses now r
  goesOn : ∀ s, result = .inr s → Within budget addresses now s ∧ ∀ d ∈ budget, now < d

theorem polled_error {failure : Failure E} (h : Exhausted budget addresses now (.error failure)) :
    Polled budget addresses now (.inl (.error failure)) where
  ends := by
    intro r hr
    obtain rfl := Sum.inl.inj hr
    exact h
  goesOn := by
    intro s hs
    cases hs

theorem exhausted_peer (e : E) : Exhausted budget addresses now (.error (.peer e)) := by
  intro phase hPhase
  cases hPhase

theorem within_later {now' : Nat} (hNow : now ≤ now') {s : H3Stage E} (h : Within budget addresses now s) :
    Within budget addresses now' s := by
  cases s with
  | attempting rest begun lastErr =>
    refine ⟨h.length, h.unbounded, h.share, ?_⟩
    intro phase hPhase
    obtain ⟨hConnect, d, hd, hEmpty⟩ := h.lastErr phase hPhase
    exact ⟨hConnect, d, hd, fun hRest => (hEmpty hRest).trans hNow⟩
  | resolving | dialing | handshaking | initializing => exact h

theorem exhausted_timeout (hAddresses : 0 < addresses) {d : Nat} (h : d ∈ budget) (hElapsed : d ≤ now) :
    Exhausted budget addresses now (.error (.timeout .connect) : Established E) := by
  intro phase hPhase
  cases hPhase
  exact ⟨rfl, d, h, by omega⟩

theorem remaining_polled (hAddresses : 0 < addresses) {begun : Option (Option Nat)} (hBegun : Begun budget begun)
    {answer : Poll (Except E Unit)} {next : Established E ⊕ H3Stage E} (hNext : Polled budget addresses now next)
    {stay : Option (Option Nat) → H3Stage E} (hStay : ∀ b, Begun budget b → Within budget addresses now (stay b)) :
    Polled budget addresses now (remaining budget now begun answer next stay) := by
  cases answer with
  | ready result =>
    cases result with
    | ok => exact hNext
    | error e => exact polled_error (exhausted_peer e)
  | pending =>
    -- a step that begins after the budget has run out ends at once
    have hExpiry : begun.getD (budget.map (max now ·)) = budget ∨
        ∃ d ∈ budget, d ≤ now ∧ begun.getD (budget.map (max now ·)) = some now := by
      cases begun with
      | some expiry => exact .inl (hBegun expiry rfl)
      | none =>
        cases budget with
        | none => exact .inl rfl
        | some d =>
          obtain hElapsed | hLeft := le_or_gt d now
          · exact .inr ⟨d, rfl, hElapsed, by simp [hElapsed]⟩
          · exact .inl (by simp [hLeft.le])
    rw [remaining]
    obtain hExpiry | ⟨d, hd, hElapsed, hExpiry⟩ := hExpiry
    · simp only [hExpiry]
      split_ifs with hOver
      · obtain ⟨d, hd, hElapsed⟩ := (Option.any_eq_true _ _).mp hOver
        exact polled_error (exhausted_timeout hAddresses hd (by simpa using hElapsed))
      · refine ⟨by simp, ?_⟩
        intro s hs
        obtain rfl := Sum.inr.inj hs
        refine ⟨hStay _ fun expiry hBudget => (Option.some.inj hBudget).symm, ?_⟩
        intro d hd
        rw [Option.mem_def.mp hd] at hOver
        simpa using hOver
    · simp only [hExpiry, Option.any_some, le_refl, decide_true, if_true]
      exact polled_error (exhausted_timeout hAddresses hd hElapsed)

theorem begun_none : Begun budget none := by
  intro expiry h
  cases h

theorem pollInit_polled (hAddresses : 0 < addresses) {begun : Option (Option Nat)} (hBegun : Begun budget begun) :
    Polled budget addresses now (pollInit budget now n peers begun) := by
  apply remaining_polled hAddresses hBegun
  · refine ⟨?_, by simp⟩
    intro r hr phase hPhase
    obtain rfl := Sum.inl.inj hr
    cases hPhase
  · intro b hb
    exact hb

theorem pollHandshake_polled (hAddresses : 0 < addresses) {begun : Option (Option Nat)} (hBegun : Begun budget begun) :
    Polled budget addresses now (pollHandshake budget now n peers begun) :=
  remaining_polled hAddresses hBegun (pollInit_polled hAddresses begun_none) fun _ hb => hb

private theorem attempt_expiry {answer : Nat → Poll (Except E Unit)} {rest : List (Nat → Poll (Except E Unit))}
    {begun : Option (Option Nat)} {lastErr : Option (Failure E)}
    (h : Attempts budget addresses now (answer :: rest) begun lastErr)
    (hShare : ¬(begun.isNone ∧ (budget.any (· ≤ now) ∨ budget.map (fun d => (d - now) / (rest.length + 1)) = some 0))) :
    let expiry := begun.getD ((budget.map fun d => (d - now) / (rest.length + 1)).map (now + ·))
    (budget = none → expiry = none) ∧ ∀ d ∈ budget, ∃ x ∈ expiry, x ≤ d ∧ (rest = [] → x = d) := by
  intro expiry
  cases begun with
  | some bound =>
    refine ⟨h.unbounded bound rfl, ?_⟩
    intro d hd
    obtain ⟨x, hx, hLe, hLast⟩ := h.share bound rfl d hd
    exact ⟨x, hx, hLe, fun hRest => hLast (by rw [hRest]; rfl)⟩
  | none =>
    refine ⟨?_, ?_⟩
    · rintro rfl
      rfl
    · rintro d hd
      obtain rfl := Option.mem_def.mp hd
      have hLeft : now < d := by
        by_contra hElapsed
        exact hShare ⟨rfl, .inl (by simpa using hElapsed)⟩
      have := Nat.div_le_self (d - now) (rest.length + 1)
      refine ⟨now + (d - now) / (rest.length + 1), rfl, by omega, ?_⟩
      rintro rfl
      rw [List.length_nil, Nat.zero_add, Nat.div_one]
      omega

private theorem pollAttempts_polled (hAddresses : 0 < addresses) {rest : List (Nat → Poll (Except E Unit))}
    {begun : Option (Option Nat)} {lastErr : Option (Failure E)} (h : Attempts budget addresses now rest begun lastErr) :
    Polled budget addresses now (pollAttempts budget now n peers rest begun lastErr) := by
  induction rest generalizing begun lastErr with
  | nil =>
    apply polled_error
    intro phase hPhase
    cases lastErr with
    | none => cases hPhase
    | some failure =>
      obtain ⟨hConnect, d, hd, hElapsed⟩ := h.lastErr phase (congrArg some (Except.error.inj hPhase))
      have := hElapsed rfl
      exact ⟨hConnect, d, hd, by omega⟩
  | cons answer rest ih =>
    have hLength : rest.length + 1 ≤ addresses := h.length
    have hFresh : ∀ failure, (∀ phase, failure = .timeout phase → phase = .connect ∧ ∃ d ∈ budget, rest = [] → d ≤ now) →
        Polled budget addresses now (pollAttempts budget now n peers rest none (some failure)) := by
      intro failure hFailure
      refine ih ⟨by omega, by simp, by simp, ?_⟩
      intro phase hPhase
      exact hFailure phase (Option.some.inj hPhase)
    have hPhases : ∀ failure ∈ lastErr, ∀ phase, failure = .timeout phase → phase = .connect := by
      intro failure hLast phase hPhase
      exact (h.lastErr phase (by rw [Option.mem_def.mp hLast, hPhase])).1
    rw [pollAttempts]
    by_cases hNoShare : begun.isNone ∧ (budget.any (· ≤ now) ∨ budget.map (fun d => (d - now) / (rest.length + 1)) = some 0)
    · -- less than one unit is left for each address
      rw [if_pos hNoShare]
      apply polled_error
      intro phase hPhase
      refine ⟨?_, ?_⟩
      · cases lastErr with
        | none =>
          cases hPhase
          rfl
        | some failure => exact hPhases failure rfl phase (Except.error.inj hPhase)
      · cases budget with
        | none => simp at hNoShare
        | some d =>
          refine ⟨d, rfl, ?_⟩
          obtain ⟨_, hElapsed | hShare⟩ := hNoShare
          · have : d ≤ now := by simpa using hElapsed
            omega
          · have : d - now < rest.length + 1 := by
              rw [Option.map_some, Option.some_inj, Nat.div_eq_zero_iff] at hShare
              omega
            omega
    · rw [if_neg hNoShare]
      obtain ⟨hUnbounded, hShare⟩ := attempt_expiry h hNoShare
      cases hAnswer : answer n with
      | ready result =>
        cases result with
        | ok => exact pollInit_polled hAddresses begun_none
        | error e =>
          apply hFresh
          intro phase hPhase
          cases hPhase
      | pending =>
        simp only
        split_ifs with hOver
        · apply hFresh
          intro phase hPhase
          cases hPhase
          refine ⟨rfl, ?_⟩
          cases budget with
          | none =>
            rw [hUnbounded rfl] at hOver
            cases hOver
          | some d =>
            obtain ⟨x, hx, -, hLast⟩ := hShare d rfl
            rw [Option.mem_def.mp hx, Option.any_some, decide_eq_true_iff] at hOver
            refine ⟨d, rfl, fun hRest => ?_⟩
            rw [← hLast hRest]
            exact hOver
        · refine ⟨by simp, ?_⟩
          intro s hs
          obtain rfl := Sum.inr.inj hs
          refine ⟨⟨hLength, ?_, ?_, ?_⟩, ?_⟩
          · intro expiry hExpiry hBudget
            obtain rfl := Option.some.inj hExpiry
            exact hUnbounded hBudget
          · intro expiry hExpiry d hd
            obtain rfl := Option.some.inj hExpiry
            obtain ⟨x, hx, hLe, hLast⟩ := hShare d hd
            exact ⟨x, hx, hLe, fun hOne => hLast (List.length_eq_zero_iff.mp (by simpa using hOne))⟩
          · intro phase hPhase
            obtain ⟨hConnect, d, hd, -⟩ := h.lastErr phase hPhase
            exact ⟨hConnect, d, hd, fun hEmpty => absurd hEmpty (List.cons_ne_nil _ _)⟩
          · intro d hd
            obtain ⟨x, hx, hLe, -⟩ := hShare d hd
            rw [Option.mem_def.mp hx] at hOver
            have : now < x := by simpa using hOver
            omega

/-- Every poll keeps the stages within the budget. -/
theorem poll_polled (hAddresses : 0 < addresses) (hPeers : peers.attempts.length ≤ addresses) {s : H3Stage E}
    (h : Within budget addresses now s) : Polled budget addresses now (s.poll budget now n peers) := by
  cases s with
  | resolving begun =>
    refine remaining_polled hAddresses h ?_ fun _ hb => hb
    split_ifs
    · apply polled_error
      intro phase hPhase
      cases hPhase
    · exact pollAttempts_polled hAddresses ⟨hPeers, by simp, by simp, by simp⟩
  | attempting rest begun lastErr => exact pollAttempts_polled hAddresses h
  | dialing begun => exact remaining_polled hAddresses h (pollHandshake_polled hAddresses begun_none) fun _ hb => hb
  | handshaking begun => exact pollHandshake_polled hAddresses h
  | initializing begun => exact pollInit_polled hAddresses h

end H3Stage

section session
variable {E : Type} {effective deadline : Option Nat} {clock : Nat → Nat} {addresses : Nat} {peers : Peers E}

private theorem h3Session_within (hClock : Monotone clock) (hAddresses : 0 < addresses)
    (hPeers : peers.attempts.length ≤ addresses)
    (routed : Bool) (n : Nat) (s : H3Stage E) (h : (h3Session routed effective (clock 0) peers).after clock n = some s) :
    H3Stage.Within (effective.map (clock 0 + ·)) addresses (clock n) s := by
  refine Future.invariant (t := h3Session routed effective (clock 0) peers)
    (P := fun n s => H3Stage.Within (effective.map (clock 0 + ·)) addresses (clock n) s) ?_ ?_ n s h
  · cases routed
    · exact H3Stage.begun_none
    · exact H3Stage.begun_none
  · intro n s next hWithin hPoll
    exact H3Stage.within_later (hClock (Nat.le_succ n))
      ((H3Stage.poll_polled hAddresses hPeers hWithin).goesOn next hPoll).1

theorem h3Session_bounded (hClock : Monotone clock) (hAddresses : 0 < addresses)
    (hPeers : peers.attempts.length ≤ addresses) (routed : Bool) :
    Bounded effective deadline addresses clock (h3Session routed effective (clock 0) peers) := by
  have hEnds : ∀ n phase, (h3Session routed effective (clock 0) peers).EndsAt clock n (.error (.timeout phase)) →
      phase = .connect ∧ ∃ d ∈ effective, clock 0 + d < clock n + addresses := by
    rintro n phase ⟨s, hs, hPoll⟩
    have hWithin := h3Session_within hClock hAddresses hPeers routed n s hs
    obtain ⟨hConnect, x, hx, hLess⟩ := (H3Stage.poll_polled hAddresses hPeers hWithin).ends _ hPoll phase rfl
    obtain ⟨d, hd, rfl⟩ := Option.mem_map.mp hx
    exact ⟨hConnect, d, hd, hLess⟩
  refine ⟨?_, ?_, ?_⟩
  · intro d hd n hElapsed
    apply Future.over_of_ends
    intro s hs next hPoll
    have hWithin := h3Session_within hClock hAddresses hPeers routed n s hs
    have hLeft := ((H3Stage.poll_polled hAddresses hPeers hWithin).goesOn next hPoll).2 (clock 0 + d)
      (Option.mem_map_of_mem _ hd)
    omega
  · intro d _ n phase _ h
    refine .inl ?_
    rw [(hEnds n phase h).1]
    rfl
  · intro n phase _ h
    exact .inl (hEnds n phase h).2

end session
end Eggfetch.Transport
