import Mathlib.Algebra.Ring.Nat
import Mathlib.Data.List.Basic

/-! How `connect_with_fallback` shares a connect budget among the addresses of an origin: each
attempt has what is left, divided by the addresses that are left. -/
namespace Eggfetch.Http3

def u32Max : Nat := 2 ^ 32 - 1

variable {Addr Conn E : Type}

inductive ConnectError (E : Type) where
  | peer (e : E)
  | timeout
  | noAddresses
  deriving DecidableEq

/-- A QUIC handshake: how long it takes, and how it ends. -/
structure Connecting (Conn E : Type) where
  duration : Nat
  answer : Except E Conn

def connectSingle (connecting : Connecting Conn E) (remaining : Option Nat) : Nat × Except (ConnectError E) Conn :=
  match remaining with
  | some budget =>
    if connecting.duration ≤ budget then (connecting.duration, connecting.answer.mapError .peer) else (budget, .error .timeout)
  | none => (connecting.duration, connecting.answer.mapError .peer)

/-- `remaining / addrs_left`, in the width of the divisor. -/
def share (remaining addrsLeft : Nat) : Nat := remaining / max 1 (min addrsLeft u32Max)

structure DialAttempt (Addr : Type) where
  addr : Addr
  budget : Option Nat
  took : Nat
  deriving DecidableEq

structure Outcome (Addr Conn E : Type) where
  attempts : List (DialAttempt Addr)
  result : Except (ConnectError E) Conn

section
variable (connecting : Nat → Connecting Conn E) (deadline : Option Nat) (len : Nat)

/-- The loop from address `idx` on. -/
def connectFrom : (idx now : Nat) → (lastErr : Option (ConnectError E)) → List Addr → Outcome Addr Conn E
  | _, _, lastErr, [] => ⟨[], .error (lastErr.getD .noAddresses)⟩
  | idx, now, lastErr, addr :: rest =>
    let remaining := deadline.map fun d => share (d - now) (len - idx)
    if deadline.any (· ≤ now) ∨ remaining = some 0 then ⟨[], .error (lastErr.getD .timeout)⟩
    else
      match connectSingle (connecting idx) remaining with
      | (took, .ok conn) => ⟨[⟨addr, remaining, took⟩], .ok conn⟩
      | (took, .error e) =>
        let next := connectFrom (idx + 1) (now + took) (some e) rest
        { next with attempts := ⟨addr, remaining, took⟩ :: next.attempts }

end

/-- At `now`; `connecting i` is the handshake with the address `i`. -/
def connectWithFallback (connecting : Nat → Connecting Conn E) (deadline : Option Nat) (now : Nat) (addrs : List Addr) :
    Outcome Addr Conn E :=
  connectFrom connecting deadline addrs.length 0 now none addrs

def Outcome.spent (outcome : Outcome Addr Conn E) (attempts : Nat) : Nat :=
  ((outcome.attempts.take attempts).map DialAttempt.took).sum

/-- The addresses come in order, within the budget, with fair shares of it, and none is left out before it is spent. -/
structure SharesFairly (addrs : List Addr) (budget : Nat) (outcome : Outcome Addr Conn E) : Prop where
  inOrder : outcome.attempts.map DialAttempt.addr <+: addrs
  within : outcome.spent outcome.attempts.length ≤ budget
  share : ∀ i attempt, outcome.attempts[i]? = some attempt →
    ∃ b, attempt.budget = some b ∧ (budget - outcome.spent i) / (addrs.length - i) ≤ b
  fair : ∀ attempt ∈ outcome.attempts, ∃ b, attempt.budget = some b ∧ budget / addrs.length ≤ b
  skips : (∃ e, outcome.result = .error e) → outcome.attempts.length < addrs.length →
    budget - outcome.spent outcome.attempts.length = 0

/-- What the code does: a share that is rounded to nothing ends the loop, and the divisor has 32 bits. -/
structure SharesOut (addrs : List Addr) (budget : Nat) (outcome : Outcome Addr Conn E) : Prop where
  inOrder : outcome.attempts.map DialAttempt.addr <+: addrs
  within : outcome.spent outcome.attempts.length ≤ budget
  share : ∀ i attempt, outcome.attempts[i]? = some attempt →
    ∃ b, attempt.budget = some b ∧ (budget - outcome.spent i) / (addrs.length - i) ≤ b
  fair : addrs.length ≤ u32Max → ∀ attempt ∈ outcome.attempts, ∃ b, attempt.budget = some b ∧ budget / addrs.length ≤ b
  skips : (∃ e, outcome.result = .error e) → outcome.attempts.length < addrs.length →
    budget - outcome.spent outcome.attempts.length < addrs.length - outcome.attempts.length

section
variable {r q n b : Nat}

theorem le_share (h : 0 < n) : r / n ≤ share r n := by
  apply Nat.div_le_div_left
  · omega
  · omega

theorem share_le (r n : Nat) : share r n ≤ r := Nat.div_le_self _ _

theorem share_eq (hPos : 0 < n) (hWidth : n ≤ u32Max) : share r n = r / n := by
  have hDivisor : max 1 (min n u32Max) = n := by omega
  rw [share, hDivisor]

theorem lt_of_share_eq_zero (hPos : 0 < n) (h : share r n = 0) : r < n := by
  have hLess := (Nat.div_eq_zero_iff.mp h).resolve_left (by omega)
  omega

private theorem fair_rest (hFair : q * (n + 1) ≤ r) (hTook : b ≤ r / (n + 1)) : q * n ≤ r - b := by
  have hShare : q ≤ r / (n + 1) := (Nat.le_div_iff_mul_le (Nat.succ_pos n)).mpr hFair
  have hParts : r / (n + 1) * n + r / (n + 1) ≤ r := by
    have hDiv := Nat.div_mul_le_self r (n + 1)
    rwa [Nat.mul_add, Nat.mul_one] at hDiv
  have hMul : q * n ≤ r / (n + 1) * n := Nat.mul_le_mul_right n hShare
  omega

end

section
variable {connecting : Nat → Connecting Conn E} {d len idx now i r : Nat} {lastErr : Option (ConnectError E)} {addr : Addr}
  {rest : List Addr} {next : Outcome Addr Conn E}

private theorem connectSingle_took {c : Connecting Conn E} {b : Nat} : (connectSingle c (some b)).1 ≤ b := by
  rw [connectSingle]
  split_ifs with hInTime
  · exact hInTime
  · exact Nat.le_refl b

private theorem connectFrom_cons (connecting : Nat → Connecting Conn E) (d len idx now : Nat)
    (lastErr : Option (ConnectError E)) (addr : Addr)
    (rest : List Addr) :
    (∃ e, connectFrom connecting (some d) len idx now lastErr (addr :: rest) = ⟨[], .error e⟩ ∧
      (d ≤ now ∨ share (d - now) (len - idx) = 0)) ∨
    (now < d ∧ ∃ took ≤ share (d - now) (len - idx),
      (∃ conn, connectFrom connecting (some d) len idx now lastErr (addr :: rest) =
        ⟨[⟨addr, some (share (d - now) (len - idx)), took⟩], .ok conn⟩) ∨
      ∃ e next, next = connectFrom connecting (some d) len (idx + 1) (now + took) (some e) rest ∧
        connectFrom connecting (some d) len idx now lastErr (addr :: rest) =
          ⟨⟨addr, some (share (d - now) (len - idx)), took⟩ :: next.attempts, next.result⟩) := by
  rw [connectFrom]
  simp only [Option.map_some, Option.any_some, decide_eq_true_eq, Option.some.injEq]
  split_ifs with hStop
  · exact .inl ⟨_, rfl, hStop⟩
  · refine .inr ⟨by omega, (connectSingle (connecting idx) (some (share (d - now) (len - idx)))).1, connectSingle_took, ?_⟩
    cases hSingle : connectSingle (connecting idx) (some (share (d - now) (len - idx))) with
    | mk took result =>
      cases result with
      | ok conn => exact .inl ⟨conn, rfl⟩
      | error e => exact .inr ⟨e, _, rfl, rfl⟩

/-- What the loop does from an address on, with `r` left; `q` is a share that all of them can have. -/
structure SharesRest (rest : List Addr) (r len : Nat) (outcome : Outcome Addr Conn E) : Prop where
  inOrder : outcome.attempts.map DialAttempt.addr <+: rest
  within : outcome.spent outcome.attempts.length ≤ r
  share : ∀ i attempt, outcome.attempts[i]? = some attempt →
    ∃ b, attempt.budget = some b ∧ (r - outcome.spent i) / (rest.length - i) ≤ b
  fair : len ≤ u32Max → ∀ q, q * rest.length ≤ r → ∀ attempt ∈ outcome.attempts, ∃ b, attempt.budget = some b ∧ q ≤ b
  skips : (∃ e, outcome.result = .error e) → outcome.attempts.length < rest.length →
    r - outcome.spent outcome.attempts.length < rest.length - outcome.attempts.length

private theorem spent_cons {budget : Option Nat} {took : Nat} {result : Except (ConnectError E) Conn} :
    (Outcome.mk (⟨addr, budget, took⟩ :: next.attempts) result).spent (i + 1) = took + next.spent i := by
  rw [Outcome.spent, Outcome.spent, List.take_succ_cons, List.map_cons, List.sum_cons]

theorem SharesRest.stop {e : ConnectError E} (h : r < (addr :: rest).length) :
    SharesRest (addr :: rest) r len (⟨[], .error e⟩ : Outcome Addr Conn E) where
  inOrder := List.nil_prefix
  within := Nat.zero_le r
  share i attempt hAttempt := by cases hAttempt
  fair _ _ _ attempt hAttempt := by cases hAttempt
  skips _ _ := h

theorem SharesRest.conn {took : Nat} {conn : Conn} (hLeft : rest.length < len) (hTook : took ≤ Http3.share r (rest.length + 1)) :
    SharesRest (addr :: rest) r len
      (⟨[⟨addr, some (Http3.share r (rest.length + 1)), took⟩], .ok conn⟩ : Outcome Addr Conn E) where
  inOrder := List.prefix_append [addr] rest
  within := by
    have hOne : took + 0 ≤ r := Nat.le_trans hTook (share_le r _)
    exact hOne
  share i attempt hAttempt := by
    cases i with
    | zero =>
      obtain rfl := Option.some.inj hAttempt
      exact ⟨_, rfl, le_share (Nat.succ_pos _)⟩
    | succ i => cases hAttempt
  fair hWidth q hFair attempt hAttempt := by
    obtain rfl := List.mem_singleton.mp hAttempt
    have hShare := share_eq (r := r) (Nat.succ_pos rest.length) (by omega)
    refine ⟨_, rfl, ?_⟩
    rw [hShare]
    exact (Nat.le_div_iff_mul_le (Nat.succ_pos _)).mpr hFair
  skips h := by
    obtain ⟨e, hError⟩ := h
    cases hError

private theorem SharesRest.failed {took : Nat} (hLeft : rest.length < len) (hTook : took ≤ Http3.share r (rest.length + 1))
    (h : SharesRest rest (r - took) len next) :
    SharesRest (addr :: rest) r len
      ⟨⟨addr, some (Http3.share r (rest.length + 1)), took⟩ :: next.attempts, next.result⟩ where
  inOrder := (List.prefix_cons_inj addr).mpr h.inOrder
  within := by
    have hWithin := h.within
    have hWhole := share_le r (rest.length + 1)
    rw [List.length_cons, spent_cons]
    omega
  share i attempt hAttempt := by
    cases i with
    | zero =>
      obtain rfl := Option.some.inj hAttempt
      exact ⟨_, rfl, le_share (Nat.succ_pos _)⟩
    | succ i =>
      obtain ⟨b, hBudget, hShare⟩ := h.share i attempt hAttempt
      rw [spent_cons, List.length_cons, Nat.add_sub_add_right, ← Nat.sub_sub]
      exact ⟨b, hBudget, hShare⟩
  fair hWidth q hFair attempt hAttempt := by
    have hShare := share_eq (r := r) (Nat.succ_pos rest.length) (by omega)
    rcases List.mem_cons.mp hAttempt with rfl | hAttempt
    · refine ⟨_, rfl, ?_⟩
      rw [hShare]
      exact (Nat.le_div_iff_mul_le (Nat.succ_pos _)).mpr hFair
    · rw [hShare] at hTook
      exact h.fair hWidth q (fair_rest hFair hTook) attempt hAttempt
  skips hError hLess := by
    have hSkips := h.skips hError (Nat.lt_of_succ_lt_succ hLess)
    rw [List.length_cons, List.length_cons, spent_cons]
    omega

private theorem connectFrom_sharesRest (connecting : Nat → Connecting Conn E) (d len idx now : Nat)
    (lastErr : Option (ConnectError E)) (rest : List Addr) (hLen : len = idx + rest.length) :
    SharesRest rest (d - now) len (connectFrom connecting (some d) len idx now lastErr rest) := by
  induction rest generalizing idx now lastErr with
  | nil =>
    refine ⟨List.nil_prefix, Nat.zero_le _, fun i attempt hAttempt => ?_, fun _ _ _ attempt hAttempt => ?_, fun _ hLess => ?_⟩
    · cases hAttempt
    · cases hAttempt
    · exact absurd hLess (Nat.not_lt_zero _)
  | cons addr rest ih =>
    have hLeft : len - idx = rest.length + 1 := by
      rw [hLen, List.length_cons]
      omega
    rcases connectFrom_cons connecting d len idx now lastErr addr rest with
      ⟨e, hStop, hWhy⟩ | ⟨hNow, took, hTook, ⟨conn, hConn⟩ | ⟨e, next, rfl, hNext⟩⟩
    · rw [hStop]
      refine .stop ?_
      rw [List.length_cons]
      rcases hWhy with hOver | hNone
      · omega
      · rw [hLeft] at hNone
        exact lt_of_share_eq_zero (Nat.succ_pos _) hNone
    · rw [hLeft] at hConn hTook
      rw [hConn]
      exact .conn (by omega) hTook
    · rw [hLeft] at hNext hTook
      rw [hNext]
      refine .failed (by omega) hTook ?_
      have hRest := ih (idx + 1) (now + took) (some e) (by rw [hLen, List.length_cons]; omega)
      rwa [← Nat.sub_sub] at hRest

private theorem connectFrom_stalls (hNow : now < d) (hSome : share (d - now) (len - idx) ≠ 0)
    (hStalls : share (d - now) (len - idx) < (connecting idx).duration) :
    connectFrom connecting (some d) len idx now lastErr (addr :: rest) =
      ⟨⟨addr, some (share (d - now) (len - idx)), share (d - now) (len - idx)⟩ ::
          (connectFrom connecting (some d) len (idx + 1) (now + share (d - now) (len - idx)) (some .timeout) rest).attempts,
        (connectFrom connecting (some d) len (idx + 1) (now + share (d - now) (len - idx)) (some .timeout) rest).result⟩ := by
  have hSingle : connectSingle (connecting idx) (some (share (d - now) (len - idx))) =
      (share (d - now) (len - idx), .error .timeout) := if_neg (Nat.not_le.mpr hStalls)
  have hGoes : ¬((some d).any (· ≤ now) = true ∨ (some d).map (fun d => share (d - now) (len - idx)) = some 0) := by
    simp only [Option.any_some, decide_eq_true_eq, Option.map_some, Option.some.injEq]
    omega
  rw [connectFrom, if_neg hGoes, Option.map_some, hSingle]

/-- However long the attempts take, each has its share of the budget. -/
theorem connectWithFallback_sharesOut (connecting : Nat → Connecting Conn E) (now budget : Nat) (addrs : List Addr) :
    SharesOut addrs budget (connectWithFallback connecting (some (now + budget)) now addrs) := by
  have hRest := connectFrom_sharesRest connecting (now + budget) addrs.length 0 now none addrs (Nat.zero_add _).symm
  rw [Nat.add_sub_cancel_left] at hRest
  refine ⟨hRest.inOrder, hRest.within, hRest.share, fun hWidth => ?_, hRest.skips⟩
  exact hRest.fair hWidth _ (Nat.div_mul_le_self budget addrs.length)

end

/-- Of two addresses neither is tried in the last nanosecond, and the second of `2 ^ 32` has less than its share. -/
theorem not_sharesFairly :
    (¬ ∀ (connecting : Nat → Connecting Unit Unit) now budget (addrs : List Nat), addrs ≠ [] →
      SharesFairly addrs budget (connectWithFallback connecting (some (now + budget)) now addrs)) ∧
    ¬ ∀ (connecting : Nat → Connecting Unit Unit) now budget (addrs : List Nat),
      ∀ attempt ∈ (connectWithFallback connecting (some (now + budget)) now addrs).attempts,
        ∃ b, attempt.budget = some b ∧ budget / addrs.length ≤ b := by
  refine ⟨fun hAll => ?_, fun hAll => ?_⟩
  · have hFair := hAll (fun _ => ⟨2, .ok ()⟩) 0 1 [1, 2] (List.cons_ne_nil _ _)
    have hLeft := hFair.skips ⟨.timeout, rfl⟩ (by decide)
    exact absurd hLeft (by decide)
  · obtain ⟨rest, hRest⟩ : ∃ rest : List Nat, rest.length = 4294967294 := ⟨List.replicate _ 0, List.length_replicate⟩
    have hLen : (0 :: 1 :: rest).length = 4294967296 := by rw [List.length_cons, List.length_cons, hRest]
    have hFirst : share (18446744069414584320 - 0) (4294967296 - 0) = 4294967296 := by decide
    have hSecond : share (18446744069414584320 - (0 + 4294967296)) (4294967296 - (0 + 1)) = 4294967294 := by decide
    have hShare := hAll (fun _ => ⟨18446744069414584320, .ok ()⟩) 0 18446744069414584320 (0 :: 1 :: rest)
      ⟨1, some 4294967294, 4294967294⟩
    rw [hLen, connectWithFallback, hLen, Nat.zero_add,
      connectFrom_stalls (by decide) (by rw [hFirst]; decide) (by rw [hFirst]; decide),
      hFirst, connectFrom_stalls (by decide) (by rw [hSecond]; decide) (by rw [hSecond]; decide), hSecond] at hShare
    obtain ⟨b, hBudget, hEnough⟩ := hShare (List.mem_cons_of_mem _ List.mem_cons_self)
    obtain rfl := Option.some.inj hBudget
    exact absurd hEnough (by decide)

end Eggfetch.Http3
