import Eggfetch.Transport.Completion
import Eggfetch.Transport.ConnectTimeout

/-! The wait for a response head under the read limit and the total limit. -/
namespace Eggfetch.Transport
open Polling Transition
open Pipeline (Duration)

variable {E : Type}

/-- What limits the sending of a request. `prepare` refuses a request that has no time left. -/
structure Limits where
  write : Option Duration
  read : Option Duration
  remainingTotal : Option Duration
  left : ∀ total ∈ remainingTotal, 0 < total

/-- Where `send_with_read_timeout` is. -/
inductive HeadWait
  | first
  | sending (started : Nat)
  | awaiting
  | reading (readDeadline : Nat)

section send
variable (send : Future (Established E)) (completion : Nat → Completion) (remainingTotal : Option Duration)

def awaitSend (wait : HeadWait) (now n : Nat) (s : send.State) : Established E ⊕ (HeadWait × send.State) :=
  match send.poll now n s with
  | .inl r => .inl r
  | .inr next => .inr (wait, next)

/-- The select of the send and the completion; whatever comes next is polled at once. -/
def pollSending (readTimeout : Duration) (started now n : Nat) (s : send.State) : Established E ⊕ (HeadWait × send.State) :=
  match send.poll now n s with
  | .inl r => .inl r
  | .inr next =>
    match completion n with
    | .waiting => .inr (.sending started, next)
    | .dropped => awaitSend send .awaiting now n next
    | .sent sentAt =>
      if remainingTotal.any (started + · ≤ sentAt + readTimeout) then awaitSend send .awaiting now n next
      else if sentAt + readTimeout ≤ now then .inl (.error (.timeout .read))
      else awaitSend send (.reading (sentAt + readTimeout)) now n next

def sendWithReadTimeout (readTimeout : Option Duration) : Future (Established E) where
  State := HeadWait × send.State
  init := (.first, send.init)
  poll now n s :=
    match readTimeout, s.1 with
    | some readTimeout, .first => pollSending send completion remainingTotal readTimeout now now n s.2
    | some readTimeout, .sending started => pollSending send completion remainingTotal readTimeout started now n s.2
    | some _, .reading readDeadline =>
      if readDeadline ≤ now then .inl (.error (.timeout .read)) else awaitSend send (.reading readDeadline) now n s.2
    | _, _ => awaitSend send .awaiting now n s.2

def sendWithTotalTimeout : Future (Established E) := send.timeout remainingTotal (.error (.timeout .total))

end send

/-- The future of the Hyper client, by what its polls answer. -/
def hyperFuture (hyper : Nat → Poll (Established E)) : Future (Established E) where
  State := Unit
  init := ()
  poll _ n _ :=
    match hyper n with
    | .ready r => .inl r
    | .pending => .inr ()

/-- A request on its way. Between two polls Hyper takes from the body what it likes to. -/
structure Exchange (body : SendBody E) (limits : Limits) where
  clock : Nat → Nat
  mono : Monotone clock
  acts : Nat → List (Nat × Take (body.intoHttpBody limits.write).Input)
  upload : Nat → Upload (body.intoHttpBody limits.write)
  start : upload 0 = { now := clock 0 }
  next : ∀ n, run (Upload.step body.declared) (upload n) (acts n) = some (upload (n + 1))
  timely : ∀ n, ∀ act ∈ acts n, clock n ≤ act.1 ∧ act.1 ≤ clock (n + 1)
  family : Family
  proxyTls : Bool
  connectTimeout : Option Duration
  peers : Peers E
  hyper : Nat → Poll (Established E)
  /-- Hyper has no timeouts: it passes on those of the body and of the connector. -/
  passes : ∀ n phase, hyper n = .ready (.error (.timeout phase)) → (upload n).failed = some (.timeout phase) ∨
    ∃ m ≤ n, (hyperConnection family proxyTls connectTimeout peers).EndsAt clock m (.error (.timeout phase))

namespace Exchange
variable {body : SendBody E} {limits : Limits}

def send (x : Exchange body limits) : Future (Established E) :=
  sendWithTotalTimeout
    (sendWithReadTimeout (hyperFuture x.hyper) (fun n => (x.upload n).body.completion) limits.remainingTotal limits.read)
    limits.remainingTotal

/-- The last byte of the body was taken at `t`. -/
def Taken (x : Exchange body limits) (n t : Nat) : Prop := (x.upload n).taken = some t

/-- The body has been waited for since `t`. -/
def WaitedSince (x : Exchange body limits) (n t : Nat) : Prop := (x.upload n).asked = some t

end Exchange

/-- The limits are kept, and a timeout names the limit that ran out. -/
structure Punctual (limits : Limits) (connectTimeout : Option Duration) (clock : Nat → Nat) (Taken WaitedSince : Nat → Nat → Prop)
    (Headless : Nat → Prop) (send : Future (Established E)) : Prop where
  /-- A send that has no head when the read limit is over ends with it, or with the total limit if that is not later. -/
  fails : ∀ r ∈ limits.read, ∀ n t, Taken n t → t + r ≤ clock n → Headless n → send.after clock n ≠ none →
    send.EndsAt clock n (.error (.timeout .read)) ∨
      send.EndsAt clock n (.error (.timeout .total)) ∧ ∃ total ∈ limits.remainingTotal, clock 0 + total ≤ t + r
  read : ∀ n, send.EndsAt clock n (.error (.timeout .read)) → ∃ r ∈ limits.read, ∃ t, Taken n t ∧ t + r ≤ clock n
  write : ∀ n, send.EndsAt clock n (.error (.timeout .write)) →
    ∃ w ∈ limits.write, ∃ since, WaitedSince n since ∧ since + w ≤ clock n
  total : ∀ n, send.EndsAt clock n (.error (.timeout .total)) → ∃ total ∈ limits.remainingTotal, clock 0 + total ≤ clock n
  connect : ∀ n phase, phase.isConnect = true → send.EndsAt clock n (.error (.timeout phase)) →
    ∃ c ∈ connectTimeout, clock 0 + c ≤ clock n
  pool : ∀ n, ¬send.EndsAt clock n (.error (.timeout .pool))

section wait
variable {hyper : Nat → Poll (Established E)} {completion : Nat → Completion} {read remainingTotal : Option Duration}
  {clock : Nat → Nat}

/-- What the wait has seen by the `n`-th poll. -/
def HeadWait.Seen (completion : Nat → Completion) (read remainingTotal : Option Duration) (start n : Nat) : HeadWait → Prop
  | .first => n = 0
  | .sending started => started = start
  | .awaiting => read = none ∨ (∃ m < n, completion m = .dropped) ∨
      ∃ m < n, ∃ t, completion m = .sent t ∧ ∃ r ∈ read, remainingTotal.any (start + · ≤ t + r) = true
  | .reading readDeadline =>
      ∃ m < n, ∃ t, completion m = .sent t ∧ ∃ r ∈ read, readDeadline = t + r ∧ remainingTotal.any (start + · ≤ t + r) = false

theorem awaitSend_inl {wait : HeadWait} {now n : Nat} {r : Established E}
    (h : awaitSend (hyperFuture hyper) wait now n () = .inl r) : hyper n = .ready r := by
  cases hHyper : hyper n with
  | pending => simp [awaitSend, hyperFuture, hHyper] at h
  | ready r' =>
    simp only [awaitSend, hyperFuture, hHyper] at h
    rw [Sum.inl.inj h]

theorem awaitSend_inr {wait wait' : HeadWait} {now n : Nat} {s : Unit}
    (h : awaitSend (hyperFuture hyper) wait now n () = .inr (wait', s)) : wait' = wait := by
  cases hHyper : hyper n with
  | pending =>
    simp only [awaitSend, hyperFuture, hHyper] at h
    exact (congrArg Prod.fst (Sum.inr.inj h)).symm
  | ready r => simp [awaitSend, hyperFuture, hHyper] at h

theorem awaitSend_pending {wait : HeadWait} {now n : Nat} (h : hyper n = .pending) :
    awaitSend (hyperFuture hyper) wait now n () = .inr (wait, ()) := by
  simp [awaitSend, hyperFuture, h]

section sending
variable {r started now n : Nat}

theorem pollSending_inl {result : Established E}
    (h : pollSending (hyperFuture hyper) completion remainingTotal r started now n () = .inl result) :
    hyper n = .ready result ∨ result = .error (.timeout .read) ∧
      ∃ t, completion n = .sent t ∧ t + r ≤ now ∧ remainingTotal.any (started + · ≤ t + r) = false := by
  cases hHyper : hyper n with
  | ready result' =>
    simp only [pollSending, hyperFuture, hHyper] at h
    rw [Sum.inl.inj h]
    exact .inl rfl
  | pending =>
    have hAwait : ∀ wait, awaitSend (hyperFuture hyper) wait now n () ≠ .inl result := by
      intro wait hAwait
      rw [awaitSend_inl hAwait] at hHyper
      cases hHyper
    simp only [pollSending, hyperFuture, hHyper] at h
    cases hCompletion : completion n with
    | waiting => simp [hCompletion] at h
    | dropped =>
      rw [hCompletion] at h
      exact absurd h (hAwait _)
    | sent t =>
      rw [hCompletion] at h
      simp only at h
      split_ifs at h with hTotal hElapsed
      · exact absurd h (hAwait _)
      · exact .inr ⟨(Sum.inl.inj h).symm, t, rfl, hElapsed, by simpa using hTotal⟩
      · exact absurd h (hAwait _)

private theorem pollSending_inr {wait : HeadWait} {s : Unit}
    (h : pollSending (hyperFuture hyper) completion remainingTotal r started now n () = .inr (wait, s)) (hRead : r ∈ read) :
    wait.Seen completion read remainingTotal started (n + 1) := by
  cases hHyper : hyper n with
  | ready result => simp [pollSending, hyperFuture, hHyper] at h
  | pending =>
    simp only [pollSending, hyperFuture, hHyper] at h
    cases hCompletion : completion n with
    | waiting =>
      rw [hCompletion] at h
      obtain rfl := congrArg Prod.fst (Sum.inr.inj h)
      rfl
    | dropped =>
      rw [hCompletion] at h
      obtain rfl := awaitSend_inr h
      exact .inr (.inl ⟨n, Nat.lt_succ_self n, hCompletion⟩)
    | sent t =>
      rw [hCompletion] at h
      simp only at h
      split_ifs at h with hTotal
      · obtain rfl := awaitSend_inr h
        exact .inr (.inr ⟨n, Nat.lt_succ_self n, t, hCompletion, r, hRead, hTotal⟩)
      · obtain rfl := awaitSend_inr h
        exact ⟨n, Nat.lt_succ_self n, t, hCompletion, r, hRead, rfl, by simpa using hTotal⟩

private theorem pollSending_sent {t : Nat} (hHyper : hyper n = .pending) (hCompletion : completion n = .sent t)
    (hElapsed : t + r ≤ now) :
    pollSending (hyperFuture hyper) completion remainingTotal r started now n () =
      if remainingTotal.any (started + · ≤ t + r) then .inr (.awaiting, ()) else .inl (.error (.timeout .read)) := by
  simp only [pollSending, hyperFuture, hHyper, hCompletion]
  split_ifs
  · exact awaitSend_pending hHyper
  · rfl

end sending

theorem headWait_seen (n : Nat) (s : HeadWait × Unit)
    (h : (sendWithReadTimeout (hyperFuture hyper) completion remainingTotal read).after clock n = some s) :
    s.1.Seen completion read remainingTotal (clock 0) n := by
  refine Future.invariant (t := sendWithReadTimeout (hyperFuture hyper) completion remainingTotal read)
    (P := fun n s => s.1.Seen completion read remainingTotal (clock 0) n) rfl ?_ n s h
  rintro n ⟨wait, s⟩ ⟨next, s'⟩ hSeen hPoll
  cases read with
  | none =>
    obtain rfl := awaitSend_inr hPoll
    exact .inl rfl
  | some r =>
    cases wait with
    | first =>
      obtain rfl : n = 0 := hSeen
      exact pollSending_inr hPoll rfl
    | sending started =>
      obtain rfl : started = clock 0 := hSeen
      exact pollSending_inr hPoll rfl
    | awaiting =>
      obtain rfl := awaitSend_inr hPoll
      obtain hNone | ⟨m, hm, hDropped⟩ | ⟨m, hm, hSent⟩ := hSeen
      · exact .inl hNone
      · exact .inr (.inl ⟨m, hm.trans (Nat.lt_succ_self n), hDropped⟩)
      · exact .inr (.inr ⟨m, hm.trans (Nat.lt_succ_self n), hSent⟩)
    | reading readDeadline =>
      simp only [sendWithReadTimeout] at hPoll
      split_ifs at hPoll
      obtain rfl := awaitSend_inr hPoll
      obtain ⟨m, hm, hSent⟩ := hSeen
      exact ⟨m, hm.trans (Nat.lt_succ_self n), hSent⟩

/-- The wait ends with what Hyper answers or with the read limit. -/
theorem headWait_endsAt {n : Nat} {result : Established E}
    (h : (sendWithReadTimeout (hyperFuture hyper) completion remainingTotal read).EndsAt clock n result) :
    hyper n = .ready result ∨ result = .error (.timeout .read) ∧ ∃ r ∈ read, ∃ m ≤ n, ∃ t,
      completion m = .sent t ∧ t + r ≤ clock n ∧ remainingTotal.any (clock 0 + · ≤ t + r) = false := by
  obtain ⟨⟨wait, s⟩, hAfter, hPoll⟩ := h
  have hSeen := headWait_seen n _ hAfter
  cases read with
  | none => exact .inl (awaitSend_inl hPoll)
  | some r =>
    have hSending : pollSending (hyperFuture hyper) completion remainingTotal r (clock 0) (clock n) n () = .inl result →
        hyper n = .ready result ∨ result = .error (.timeout .read) ∧ ∃ x ∈ some r, ∃ m ≤ n, ∃ t,
          completion m = .sent t ∧ t + x ≤ clock n ∧ remainingTotal.any (clock 0 + · ≤ t + x) = false := by
      intro hSending
      obtain hHyper | ⟨hRead, t, hSent⟩ := pollSending_inl hSending
      · exact .inl hHyper
      · exact .inr ⟨hRead, r, rfl, n, le_rfl, t, hSent⟩
    cases wait with
    | first =>
      obtain rfl : n = 0 := hSeen
      exact hSending hPoll
    | sending started =>
      obtain rfl : started = clock 0 := hSeen
      exact hSending hPoll
    | awaiting => exact .inl (awaitSend_inl hPoll)
    | reading readDeadline =>
      simp only [sendWithReadTimeout] at hPoll
      split_ifs at hPoll with hElapsed
      · obtain ⟨m, hm, t, hSent, x, hx, rfl, hTotal⟩ := hSeen
        exact .inr ⟨(Sum.inl.inj hPoll).symm, x, hx, m, hm.le, t, hSent, hElapsed, hTotal⟩
      · exact .inl (awaitSend_inl hPoll)

/-- When the read limit is over and Hyper has no answer, the wait ends unless the total limit is due. -/
theorem headWait_sent (hSettled : ∀ m n, m ≤ n → completion m ≠ .waiting → completion n = completion m) {n t : Nat}
    {r : Duration} (hRead : r ∈ read) (hHyper : hyper n = .pending) (hCompletion : completion n = .sent t)
    (hElapsed : t + r ≤ clock n) {s : HeadWait × Unit}
    (hAfter : (sendWithReadTimeout (hyperFuture hyper) completion remainingTotal read).after clock n = some s) :
    (sendWithReadTimeout (hyperFuture hyper) completion remainingTotal read).poll (clock n) n s =
      if remainingTotal.any (clock 0 + · ≤ t + r) then .inr (.awaiting, ()) else .inl (.error (.timeout .read)) := by
  have hSeen := headWait_seen n _ hAfter
  obtain rfl := Option.mem_def.mp hRead
  have hSame : ∀ m < n, ∀ earlier, completion m = .sent earlier → earlier = t := by
    intro m hm earlier hSent
    have hEq := hSettled m n hm.le (by rw [hSent]; exact Completion.noConfusion)
    rw [hSent, hCompletion] at hEq
    injection hEq with hEq
    exact hEq.symm
  obtain ⟨wait, s⟩ := s
  cases wait with
  | first =>
    obtain rfl : n = 0 := hSeen
    exact pollSending_sent hHyper hCompletion hElapsed
  | sending started =>
    obtain rfl : started = clock 0 := hSeen
    exact pollSending_sent hHyper hCompletion hElapsed
  | awaiting =>
    have hTotal : remainingTotal.any (clock 0 + · ≤ t + r) = true := by
      obtain hNone | ⟨m, hm, hDropped⟩ | ⟨m, hm, earlier, hSent, x, hx, hTotal⟩ := hSeen
      · cases hNone
      · have hEq := hSettled m n hm.le (by rw [hDropped]; exact Completion.noConfusion)
        rw [hDropped, hCompletion] at hEq
        cases hEq
      · obtain rfl := hSame m hm earlier hSent
        obtain rfl := Option.some.inj hx
        exact hTotal
    rw [if_pos hTotal]
    exact awaitSend_pending hHyper
  | reading readDeadline =>
    obtain ⟨m, hm, earlier, hSent, x, hx, rfl, hTotal⟩ := hSeen
    obtain rfl := hSame m hm earlier hSent
    obtain rfl := Option.some.inj hx
    rw [if_neg (by simp [hTotal])]
    simp only [sendWithReadTimeout]
    rw [if_pos hElapsed]

end wait

namespace Exchange
variable {body : SendBody E} {limits : Limits} (x : Exchange body limits)

/-- What every action keeps holds between the polls. -/
theorem upload_invariant {P : Upload (body.intoHttpBody limits.write) → Prop} (hStart : P { now := x.clock 0 })
    (hStep : ∀ u action u', P u → Upload.step body.declared u action = some u' → P u') (n : Nat) : P (x.upload n) := by
  induction n with
  | zero =>
    rw [x.start]
    exact hStart
  | succ n ih =>
    exact run_invariant P (x.next n) ih fun hu hStepped => hStep _ _ _ hu hStepped

theorem upload_timed (n : Nat) : Upload.Timed (x.clock 0) (x.upload n) := by
  refine x.upload_invariant ⟨le_rfl, by simp, by simp⟩ ?_ n
  intro u action u' hu hStep
  exact Upload.timed_step hu hStep

theorem upload_now (n : Nat) : (x.upload n).now ≤ x.clock n := by
  have hRun : ∀ (bound : Nat) (acts : List (Nat × Take (body.intoHttpBody limits.write).Input)) (u u' : Upload _),
      (∀ act ∈ acts, act.1 ≤ bound) → u.now ≤ bound → run (Upload.step body.declared) u acts = some u' → u'.now ≤ bound := by
    intro bound acts
    induction acts with
    | nil =>
      intro u u' _ hNow hRun
      obtain rfl := Option.some.inj hRun
      exact hNow
    | cons act rest ih =>
      intro u u' hActs _ hRun
      rw [run_cons] at hRun
      obtain ⟨v, hStep, hRest⟩ := Option.bind_eq_some_iff.mp hRun
      refine ih v u' (fun other hOther => hActs other (List.mem_cons_of_mem _ hOther)) ?_ hRest
      rw [Upload.step_now hStep]
      exact hActs act List.mem_cons_self
  induction n with
  | zero =>
    rw [x.start]
  | succ n ih =>
    exact hRun _ (x.acts n) _ _ (fun act hAct => (x.timely n act hAct).2) (ih.trans (x.mono (Nat.le_succ n))) (x.next n)

theorem upload_settled (m n : Nat) (hLe : m ≤ n) (h : (x.upload m).body.completion ≠ .waiting) :
    (x.upload n).body.completion = (x.upload m).body.completion := by
  induction n, hLe using Nat.le_induction with
  | base => rfl
  | succ n hLe ih =>
    refine run_invariant (fun u => u.body.completion = (x.upload m).body.completion) (x.next n) ih ?_
    intro u action u' hu hStep
    rw [Upload.completion_step (by rw [hu]; exact h) hStep]
    exact hu

private theorem hyper_timeout {n : Nat} {phase : TimeoutPhase} (h : x.hyper n = .ready (.error (.timeout phase))) :
    phase = .write ∧ (∃ w ∈ limits.write, ∃ since, x.WaitedSince n since ∧ since + w ≤ x.clock n) ∨
      phase.isConnect = true ∧ ∃ c ∈ x.connectTimeout, x.clock 0 + c ≤ x.clock n := by
  obtain hFailed | ⟨m, hm, hEnds⟩ := x.passes n phase h
  · obtain ⟨Waiting, hInit, hWaiting⟩ := body.timesWrites limits.write
    have hWaited := x.upload_invariant (P := Upload.WaitedFor limits.write Waiting) ⟨fun _ => hInit, by simp⟩
      (fun u action u' hu hStep => Upload.waitedFor_step hWaiting hu hStep) n
    obtain ⟨hWrite, w, hw, since, hSince, hElapsed⟩ := hWaited.failed phase hFailed
    exact .inl ⟨hWrite, w, hw, since, hSince, hElapsed.trans (x.upload_now n)⟩
  · have hElapsed := hyperConnection_elapsed x.mono x.family x.proxyTls x.peers hEnds phase rfl
    obtain ⟨hConnect, c, hc, hOver⟩ := hElapsed
    exact .inr ⟨hConnect, c, hc, hOver.trans (x.mono hm)⟩

theorem send_endsAt {n : Nat} {result : Established E} (h : x.send.EndsAt x.clock n result) :
    x.hyper n = .ready result ∨
      (result = .error (.timeout .read) ∧ ∃ r ∈ limits.read, ∃ m ≤ n, ∃ t, (x.upload m).body.completion = .sent t ∧
        t + r ≤ x.clock n ∧ limits.remainingTotal.any (x.clock 0 + · ≤ t + r) = false) ∨
      result = .error (.timeout .total) ∧ ∃ total ∈ limits.remainingTotal, x.clock 0 + total ≤ x.clock n := by
  obtain hInner | hTotal := Future.timeout_endsAt h
  · obtain hHyper | hRead := headWait_endsAt hInner
    · exact .inl hHyper
    · exact .inr (.inl hRead)
  · exact .inr (.inr hTotal)

theorem signalled (hSignals : body.SignalsEnd limits.write) (n : Nat) : Upload.Signalled body.declared (x.upload n) := by
  refine x.upload_invariant (.waiting rfl rfl rfl rfl (.inl ⟨rfl, rfl, rfl⟩)) ?_ n
  intro u action u' hu hStep
  exact Upload.signalled_step (SendBody.signalsEnd hSignals) hu hStep

private theorem total_endsAt {n total : Nat} (hTotal : total ∈ limits.remainingTotal) (hElapsed : x.clock 0 + total ≤ x.clock n)
    (hAfter : x.send.after x.clock n ≠ none) (hInner : ∀ result, ¬(sendWithReadTimeout (hyperFuture x.hyper)
      (fun n => (x.upload n).body.completion) limits.remainingTotal limits.read).EndsAt x.clock n result) :
    x.send.EndsAt x.clock n (.error (.timeout .total)) := by
  obtain ⟨result, hEnds⟩ := Future.exists_endsAt hAfter (Future.timeout_over hTotal hElapsed)
  obtain hInnerEnds | ⟨rfl, -⟩ := Future.timeout_endsAt hEnds
  · exact absurd hInnerEnds (hInner result)
  · exact hEnds

end Exchange

def Limits.ReadCounts (limits : Limits) : Prop := ∃ r ∈ limits.read, ∀ total ∈ limits.remainingTotal, r < total

namespace Exchange
variable {body : SendBody E} {limits : Limits} (x : Exchange body limits)

/-- Read limits that are waited for count. -/
theorem readCounts {r : Duration} (hRead : r ∈ limits.read) {t : Nat} (hStart : x.clock 0 ≤ t)
    (hTotal : limits.remainingTotal.any (x.clock 0 + · ≤ t + r) = false) : limits.ReadCounts := by
  refine ⟨r, hRead, ?_⟩
  intro total hLimit
  rw [Option.mem_def.mp hLimit, Option.any_some, decide_eq_false_iff_not, not_le] at hTotal
  exact Nat.lt_of_add_lt_add_left (lt_of_le_of_lt (Nat.add_le_add_right hStart r) hTotal)

theorem taken_of_sent (hSignals : body.SignalsEnd limits.write) {m n t : Nat} (hLe : m ≤ n)
    (hSent : (x.upload m).body.completion = .sent t) : x.Taken n t := by
  have hLater := x.upload_settled m n hLe (by rw [hSent]; exact Completion.noConfusion)
  rw [hSent] at hLater
  cases x.signalled hSignals n with
  | waiting hCompletion | lost hCompletion =>
    rw [hCompletion] at hLater
    cases hLater
  | sent t' hCompletion hTaken =>
    rw [hCompletion] at hLater
    injection hLater with hLater
    rw [Taken, hTaken, hLater]

theorem sent_of_taken (hSignals : body.SignalsEnd limits.write) {n t : Nat} (hTaken : x.Taken n t) :
    (x.upload n).body.completion = .sent t := by
  cases x.signalled hSignals n with
  | waiting _ _ hNone _ _ | lost _ hNone _ =>
    rw [Taken, hNone] at hTaken
    cases hTaken
  | sent t' hCompletion hTaken' =>
    rw [Taken, hTaken'] at hTaken
    rw [hCompletion, Option.some.inj hTaken]

theorem fails (h : limits.ReadCounts → body.SignalsEnd limits.write) {r : Duration} (hRead : r ∈ limits.read) {n t : Nat}
    (hTaken : x.Taken n t) (hElapsed : t + r ≤ x.clock n) (hHyper : x.hyper n = .pending)
    (hAfter : x.send.after x.clock n ≠ none) :
    x.send.EndsAt x.clock n (.error (.timeout .read)) ∨
      x.send.EndsAt x.clock n (.error (.timeout .total)) ∧ ∃ total ∈ limits.remainingTotal, x.clock 0 + total ≤ t + r := by
  have hStart : x.clock 0 ≤ t := (x.upload_timed n).taken t hTaken
  cases hTotal : limits.remainingTotal.any (x.clock 0 + · ≤ t + r) with
  | true =>
    obtain ⟨total, hLimit, hDue⟩ := (Option.any_eq_true _ _).mp hTotal
    have hDue : x.clock 0 + total ≤ t + r := by simpa using hDue
    refine .inr ⟨x.total_endsAt hLimit (hDue.trans hElapsed) hAfter ?_, total, hLimit, hDue⟩
    intro result hEnds
    obtain hReady | ⟨-, r', hr', m, hm, t', hSent, -, hNotDue⟩ := headWait_endsAt hEnds
    · rw [hHyper] at hReady
      cases hReady
    · -- the signal was the one of the last byte, and then the total limit is due
      obtain rfl : r' = r := Option.mem_unique hr' hRead
      have hCounts := x.readCounts hRead ((x.upload_timed m).sent t' hSent) hNotDue
      have hSame := x.taken_of_sent (h hCounts) hm hSent
      obtain rfl : t' = t := Option.some.inj (hSame.symm.trans hTaken)
      rw [hTotal] at hNotDue
      cases hNotDue
  | false =>
    have hSent := x.sent_of_taken (h (x.readCounts hRead hStart hTotal)) hTaken
    obtain ⟨s, hs⟩ := Option.ne_none_iff_exists'.mp hAfter
    have hPoll := headWait_sent x.upload_settled hRead hHyper hSent hElapsed (Future.timeout_after hs).1
    rw [hTotal, if_neg Bool.false_ne_true] at hPoll
    refine .inl ⟨s, hs, ?_⟩
    simp [send, sendWithTotalTimeout, Future.timeout, hPoll]

theorem punctual (h : limits.ReadCounts → body.SignalsEnd limits.write) :
    Punctual limits x.connectTimeout x.clock x.Taken x.WaitedSince (fun n => x.hyper n = .pending) x.send where
  fails r hRead n t hTaken hElapsed hHeadless hAfter := x.fails h hRead hTaken hElapsed hHeadless hAfter
  read := by
    intro n hEnds
    obtain hHyper | ⟨-, r, hRead, m, hm, t, hSent, hElapsed, hTotal⟩ | ⟨hTotal, -⟩ := x.send_endsAt hEnds
    · obtain ⟨hWrite, -⟩ | ⟨hConnect, -⟩ := x.hyper_timeout hHyper
      · cases hWrite
      · cases hConnect
    · have hCounts := x.readCounts hRead ((x.upload_timed m).sent t hSent) hTotal
      exact ⟨r, hRead, t, x.taken_of_sent (h hCounts) hm hSent, hElapsed⟩
    · cases hTotal
  write := by
    intro n hEnds
    obtain hHyper | ⟨hRead, -⟩ | ⟨hTotal, -⟩ := x.send_endsAt hEnds
    · obtain ⟨-, hWaited⟩ | ⟨hConnect, -⟩ := x.hyper_timeout hHyper
      · exact hWaited
      · cases hConnect
    · cases hRead
    · cases hTotal
  total := by
    intro n hEnds
    obtain hHyper | ⟨hRead, -⟩ | ⟨-, hTotal⟩ := x.send_endsAt hEnds
    · obtain ⟨hWrite, -⟩ | ⟨hConnect, -⟩ := x.hyper_timeout hHyper
      · cases hWrite
      · cases hConnect
    · cases hRead
    · exact hTotal
  connect := by
    intro n phase hPhase hEnds
    obtain hHyper | ⟨hRead, -⟩ | ⟨hTotal, -⟩ := x.send_endsAt hEnds
    · obtain ⟨rfl, -⟩ | ⟨-, hOver⟩ := x.hyper_timeout hHyper
      · cases hPhase
      · exact hOver
    · cases hRead
      cases hPhase
    · cases hTotal
      cases hPhase
  pool := by
    intro n hEnds
    obtain hHyper | ⟨hRead, -⟩ | ⟨hTotal, -⟩ := x.send_endsAt hEnds
    · obtain ⟨hWrite, -⟩ | ⟨hConnect, -⟩ := x.hyper_timeout hHyper
      · cases hWrite
      · cases hConnect
    · cases hRead
    · cases hTotal

end Exchange
end Eggfetch.Transport
