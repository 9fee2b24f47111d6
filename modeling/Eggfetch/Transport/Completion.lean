import Eggfetch.Transport.RequestBody

/-! When the completion of a request body is signalled. -/
namespace Eggfetch.Transport
open Polling Transition
open Pipeline (Duration)

variable {E : Type}

section signals
variable {σ : Type} (init : σ) (isEnd : σ → Bool) (waits : σ → σ → Prop) (frames : σ → Nat → σ → Prop)
  (declared : Option Nat)

/-- The body has delivered so many bytes and has not told its end. -/
inductive Open : σ → Nat → Prop
  | start : isEnd init = false → Upload.Reached declared 0 = false → Open init 0
  | wait {s s' : σ} {delivered : Nat} : Open s delivered → waits s s' → Open s' delivered
  | frame {s s' : σ} {delivered frame : Nat} : Open s delivered → frames s frame s' → isEnd s' = false →
      Upload.Reached declared (delivered + frame) = false → Open s' (delivered + frame)

/-- A body that has delivered what is declared reports the end of the stream. -/
structure SignalsEnd : Prop where
  start : Upload.Reached declared 0 = true → isEnd init = true
  frame : ∀ s delivered, Open init isEnd waits frames declared s delivered → ∀ frame s', frames s frame s' →
    Upload.Reached declared (delivered + frame) = true → isEnd s' = true

variable {init isEnd waits frames declared}

theorem Open.not_reached {s : σ} {delivered : Nat} (h : Open init isEnd waits frames declared s delivered) :
    Upload.Reached declared delivered = false := by
  induction h with
  | start _ hReached => exact hReached
  | wait _ _ ih => exact ih
  | frame _ _ _ hReached => exact hReached

theorem signalsEnd_of_undeclared (h : declared = none) : SignalsEnd init isEnd waits frames declared := by
  subst h
  refine ⟨?_, ?_⟩
  · intro hReached
    cases hReached
  · intro _ _ _ _ _ _ hReached
    cases hReached

end signals

def HttpBody.Waits (B : HttpBody E) (s s' : Nat × B.State) : Prop :=
  s.1 ≤ s'.1 ∧ ∃ input, B.pollFrame s'.1 input s.2 = (.pending, s'.2)

def HttpBody.Frames (B : HttpBody E) (s : Nat × B.State) (frame : Nat) (s' : Nat × B.State) : Prop :=
  s.1 ≤ s'.1 ∧ ∃ input, B.pollFrame s'.1 input s.2 = (.ready (some (.ok frame)), s'.2)

abbrev HttpBody.Open (B : HttpBody E) (declared : Option Nat) (s : Nat × B.State) (delivered : Nat) : Prop :=
  Transport.Open (0, B.init) (fun s => B.isEndStream s.2) B.Waits B.Frames declared s delivered

abbrev HttpBody.SignalsEnd (B : HttpBody E) (declared : Option Nat) : Prop :=
  Transport.SignalsEnd (0, B.init) (fun s => B.isEndStream s.2) B.Waits B.Frames declared

def NativeBody.Waits (body : NativeBody E) (write : Option Duration) (s s' : body.State) : Prop :=
  write ≠ some 0 ∧ ∃ input, body.pollFrame input s = (.pending, s')

def NativeBody.Frames (body : NativeBody E) (s : body.State) (frame : Nat) (s' : body.State) : Prop :=
  ∃ input, body.pollFrame input s = (.ready (some (.ok frame)), s')

abbrev NativeBody.SignalsEnd (body : NativeBody E) (write : Option Duration) (declared : Option Nat) : Prop :=
  Transport.SignalsEnd body.init body.isEndStream (body.Waits write) body.Frames declared

/-- The body of the request tells its end as soon as its `Content-Length` is delivered. -/
def SendBody.SignalsEnd (write : Option Duration) : SendBody E → Prop
  | .request (.stream (some _)) => False
  | .request _ => True
  | .native body declared => body.SignalsEnd write declared

namespace HyperRequestBody
variable {B : HttpBody E} {this : HyperRequestBody B.State} {now : Nat}

theorem markComplete_inner : (this.markComplete now).inner = this.inner := by
  rw [markComplete]
  split_ifs <;> rfl

/-- A sender that is still there sends. -/
theorem markComplete_waiting (hWaiting : this.completion = .waiting) (hComplete : this.complete = false) :
    (this.markComplete now).completion = .sent now := by
  rw [markComplete, hComplete, if_neg Bool.false_ne_true, hWaiting]
  rfl

theorem markComplete_of_ne (h : this.completion ≠ .waiting) : (this.markComplete now).completion = this.completion := by
  rw [markComplete]
  split_ifs
  · rfl
  · cases hCompletion : this.completion with
    | waiting => exact absurd hCompletion h
    | sent | dropped => simp [send]

theorem markComplete_sent {t : Nat} (h : (this.markComplete now).completion = .sent t) : this.completion = .sent t ∨ t = now := by
  rw [markComplete] at h
  split_ifs at h
  · exact .inl h
  · cases hCompletion : this.completion with
    | waiting =>
      rw [hCompletion] at h
      injection h with h
      exact .inr h.symm
    | sent | dropped =>
      rw [hCompletion] at h
      exact .inl h

/-- Only a waiting channel notices whether the body is marked complete. -/
theorem mark_of_ne (h : this.completion ≠ .waiting) (mark : Bool) :
    (if mark then this.markComplete now else this).completion = this.completion := by
  split_ifs
  · exact markComplete_of_ne h
  · rfl

theorem isEndStream_eq : this.isEndStream now =
    (B.isEndStream this.inner, if B.isEndStream this.inner then this.markComplete now else this) := by
  rw [isEndStream]
  split_ifs with h <;> simp [h]

end HyperRequestBody

namespace Upload
variable {B : HttpBody E} {declared : Option Nat} {u u' : Upload B} {start : Nat}

/-- The upload began at `start`. -/
structure Timed (start : Nat) (u : Upload B) : Prop where
  now : start ≤ u.now
  taken : ∀ t ∈ u.taken, start ≤ t
  sent : ∀ t, u.body.completion = .sent t → start ≤ t

/-- The signal of a body that tells its end comes with the last byte. -/
inductive Signalled (declared : Option Nat) (u : Upload B) : Prop
  | waiting (hCompletion : u.body.completion = .waiting) (hComplete : u.body.complete = false) (hTaken : u.taken = none)
      (hFailed : u.failed = none) (hOpen : u.inspected = false ∧ u.body.inner = B.init ∧ u.delivered = 0 ∨
        ∃ last ≤ u.now, B.Open declared (last, u.body.inner) u.delivered)
  | sent (t : Nat) (hCompletion : u.body.completion = .sent t) (hTaken : u.taken = some t)
  | lost (hCompletion : u.body.completion = .dropped) (hTaken : u.taken = none)
      (hLost : u.failed.isSome = true ∨ u.dropped = true)

theorem step_cases {now : Nat} {take : Take B.Input} (h : u.step declared (now, take) = some u') :
    u.now ≤ now ∧ u.dropped = false ∧ (
      u' = inspect declared now u ∨
      (∃ input, u.inspected = true ∧ u.finished declared = false ∧ u' = receive declared now input u) ∨
      u' = discard now u) := by
  simp only [step] at h
  by_cases hGuard : now < u.now ∨ u.dropped = true
  · rw [if_pos hGuard] at h
    cases h
  rw [if_neg hGuard] at h
  rw [not_or, not_lt, Bool.not_eq_true] at hGuard
  refine ⟨hGuard.1, hGuard.2, ?_⟩
  cases take with
  | isEndStream => exact .inl (Option.some.inj h).symm
  | drop => exact .inr (.inr (Option.some.inj h).symm)
  | pollFrame input =>
    simp only at h
    split_ifs at h with hOpen
    simp only [Bool.or_eq_true, Bool.not_eq_true', not_or, Bool.not_eq_false, Bool.not_eq_true] at hOpen
    exact .inr (.inl ⟨input, hOpen.1, hOpen.2, (Option.some.inj h).symm⟩)

section receive
variable {now : Nat} {input : B.Input} {inner : B.State}

theorem receive_pending (h : B.pollFrame now input u.body.inner = (.pending, inner)) :
    u.receive declared now input = { u with now, body := { u.body with inner }, asked := some (u.asked.getD now) } := by
  simp [receive, HyperRequestBody.pollFrame, h]

theorem receive_none (h : B.pollFrame now input u.body.inner = (.ready none, inner)) :
    u.receive declared now input = { u with
      now
      body := ({ u.body with inner } : HyperRequestBody B.State).markComplete now
      ended := true
      taken := u.taken.or (some now)
      asked := some (u.asked.getD now) } := by
  simp [receive, HyperRequestBody.pollFrame, h]

theorem receive_error {e : Failure E} (h : B.pollFrame now input u.body.inner = (.ready (some (.error e)), inner)) :
    u.receive declared now input = { u with
      now
      body := { u.body with inner, completion := HyperRequestBody.dropSender u.body.completion }
      failed := some e
      asked := some (u.asked.getD now) } := by
  simp [receive, HyperRequestBody.pollFrame, h]

theorem receive_frame {frame : Nat} (h : B.pollFrame now input u.body.inner = (.ready (some (.ok frame)), inner)) :
    u.receive declared now input = { u with
      now
      body := if B.isEndStream inner then ({ u.body with inner } : HyperRequestBody B.State).markComplete now
        else { u.body with inner }
      delivered := u.delivered + frame
      taken := if B.isEndStream inner || Reached declared (u.delivered + frame) then u.taken.or (some now) else u.taken
      asked := some now } := by
  cases hEnd : B.isEndStream inner <;>
    simp [receive, HyperRequestBody.pollFrame, h, hEnd, HyperRequestBody.markComplete_inner]

end receive

theorem or_some_eq {taken : Option Nat} {now t : Nat} (h : taken.or (some now) = some t) :
    taken = some t ∨ taken = none ∧ t = now := by
  cases taken with
  | none => exact .inr ⟨rfl, (Option.some.inj h).symm⟩
  | some first => exact .inl h

theorem timed_taken {now : Nat} (h : Timed start u) (hNow : u.now ≤ now) {t : Nat} (hTaken : u.taken.or (some now) = some t) :
    start ≤ t := by
  obtain hOld | ⟨-, rfl⟩ := or_some_eq hTaken
  · exact h.taken t hOld
  · exact h.now.trans hNow

theorem timed_step {action : Nat × Take B.Input} (h : Timed start u) (hStep : u.step declared action = some u') :
    Timed start u' := by
  obtain ⟨now, take⟩ := action
  obtain ⟨hNow, -, hCases⟩ := step_cases hStep
  have hLater : start ≤ now := h.now.trans hNow
  have hNew : ∀ t, u.taken.or (some now) = some t → start ≤ t := fun t ht => timed_taken h hNow ht
  have hMark : ∀ body : HyperRequestBody B.State, body.completion = u.body.completion →
      ∀ t, (body.markComplete now).completion = .sent t → start ≤ t := by
    intro body hBody t ht
    obtain hSent | rfl := HyperRequestBody.markComplete_sent ht
    · exact h.sent t (hBody ▸ hSent)
    · exact hLater
  have hDrop : ∀ t, HyperRequestBody.dropSender u.body.completion = .sent t → start ≤ t := by
    intro t ht
    cases hCompletion : u.body.completion with
    | waiting | dropped =>
      rw [hCompletion] at ht
      cases ht
    | sent t' =>
      rw [hCompletion] at ht
      exact h.sent t (hCompletion.trans ht)
  obtain rfl | ⟨input, -, -, rfl⟩ | rfl := hCases
  · refine ⟨hLater, ?_, ?_⟩
    · intro t ht
      simp only [inspect, Option.mem_def] at ht
      split_ifs at ht
      · exact hNew t ht
      · exact h.taken t ht
    · intro t ht
      simp only [inspect, HyperRequestBody.isEndStream_eq] at ht
      split_ifs at ht
      · exact hMark u.body rfl t ht
      · exact h.sent t ht
  · cases hPoll : B.pollFrame now input u.body.inner with
    | mk answer inner =>
      cases answer with
      | pending =>
        rw [receive_pending hPoll]
        exact ⟨hLater, h.taken, h.sent⟩
      | ready item =>
        cases item with
        | none =>
          rw [receive_none hPoll]
          exact ⟨hLater, hNew, hMark { u.body with inner } rfl⟩
        | some result =>
          cases result with
          | error e =>
            rw [receive_error hPoll]
            exact ⟨hLater, h.taken, hDrop⟩
          | ok frame =>
            rw [receive_frame hPoll]
            refine ⟨hLater, ?_, ?_⟩
            · intro t ht
              simp only [Option.mem_def] at ht
              split_ifs at ht
              · exact hNew t ht
              · exact h.taken t ht
            · intro t ht
              simp only at ht
              split_ifs at ht
              · exact hMark { u.body with inner } rfl t ht
              · exact h.sent t ht
  · exact ⟨hLater, h.taken, hDrop⟩

section signalled
variable (hSignals : B.SignalsEnd declared) {now : Nat}
include hSignals

theorem signalled_inspect (h : Signalled declared u) (hDropped : u.dropped = false) (hNow : u.now ≤ now) :
    Signalled declared (u.inspect declared now) := by
  cases h with
  | waiting hCompletion hComplete hTaken hFailed hOpen =>
    cases hEnd : B.isEndStream u.body.inner with
    | true =>
      refine .sent now ?_ ?_
      · simp [inspect, HyperRequestBody.isEndStream_eq, hEnd, HyperRequestBody.markComplete_waiting hCompletion hComplete]
      · simp [inspect, HyperRequestBody.isEndStream_eq, hEnd, hFailed, hTaken]
    | false =>
      have hOpen' : ∃ last ≤ now, B.Open declared (last, u.body.inner) u.delivered := by
        obtain ⟨-, hInit, hNone⟩ | ⟨last, hLast, hOpen⟩ := hOpen
        · rw [hInit] at hEnd ⊢
          rw [hNone]
          refine ⟨0, Nat.zero_le now, .start hEnd ?_⟩
          by_contra hReached
          have hInitEnd := hSignals.start (by simpa using hReached)
          rw [hInitEnd] at hEnd
          cases hEnd
        · exact ⟨last, hLast.trans hNow, hOpen⟩
      have hReached : Reached declared u.delivered = false := by
        obtain ⟨_, -, hOpen⟩ := hOpen'
        exact hOpen.not_reached
      refine .waiting ?_ ?_ ?_ hFailed (.inr ?_)
      · simpa [inspect, HyperRequestBody.isEndStream_eq, hEnd] using hCompletion
      · simpa [inspect, HyperRequestBody.isEndStream_eq, hEnd] using hComplete
      · simpa [inspect, HyperRequestBody.isEndStream_eq, hEnd, hReached] using hTaken
      · simpa [inspect, HyperRequestBody.isEndStream_eq, hEnd] using hOpen'
  | sent t hCompletion hTaken =>
    refine .sent t ?_ ?_
    · rw [inspect, HyperRequestBody.isEndStream_eq]
      have hNe : u.body.completion ≠ .waiting := by
        rw [hCompletion]
        exact Completion.noConfusion
      exact (HyperRequestBody.mark_of_ne hNe _).trans hCompletion
    · simp [inspect, hTaken]
  | lost hCompletion hTaken hLost =>
    have hFailed : u.failed.isSome = true := by
      rw [hDropped] at hLost
      exact hLost.resolve_right Bool.false_ne_true
    refine .lost ?_ ?_ (.inl hFailed)
    · rw [inspect, HyperRequestBody.isEndStream_eq]
      have hNe : u.body.completion ≠ .waiting := by
        rw [hCompletion]
        exact Completion.noConfusion
      exact (HyperRequestBody.mark_of_ne hNe _).trans hCompletion
    · simp [inspect, hTaken, Option.isNone_iff_eq_none, Option.isSome_iff_ne_none.mp hFailed]

theorem signalled_receive (h : Signalled declared u) (hDropped : u.dropped = false) (hInspected : u.inspected = true)
    (hOpen : u.finished declared = false) (hNow : u.now ≤ now) (input : B.Input) :
    Signalled declared (u.receive declared now input) := by
  have hFailed : u.failed = none := by
    simp only [finished, Bool.or_eq_false_iff] at hOpen
    simpa using hOpen.1.2
  cases hPoll : B.pollFrame now input u.body.inner with
  | mk answer inner =>
    cases h with
    | lost hCompletion hTaken hLost => simp [hFailed, hDropped] at hLost
    | sent t hCompletion hTaken =>
      have hNe : ({ u.body with inner } : HyperRequestBody B.State).completion ≠ .waiting := by
        simp [hCompletion]
      cases answer with
      | pending =>
        rw [receive_pending hPoll]
        exact .sent t hCompletion hTaken
      | ready item =>
        cases item with
        | none =>
          rw [receive_none hPoll]
          exact .sent t ((HyperRequestBody.markComplete_of_ne hNe).trans hCompletion) (by simp [hTaken])
        | some result =>
          cases result with
          | error e =>
            rw [receive_error hPoll]
            exact .sent t (by simp [hCompletion, HyperRequestBody.dropSender]) hTaken
          | ok frame =>
            rw [receive_frame hPoll]
            exact .sent t ((HyperRequestBody.mark_of_ne hNe _).trans hCompletion) (by simp [hTaken])
    | waiting hCompletion hComplete hTaken _ hBody =>
      obtain ⟨last, hLast, hOpen'⟩ := hBody.resolve_left (by simp [hInspected])
      have hLater : last ≤ now := hLast.trans hNow
      cases answer with
      | pending =>
        rw [receive_pending hPoll]
        exact .waiting hCompletion hComplete hTaken hFailed (.inr ⟨now, le_rfl, .wait hOpen' ⟨hLater, input, hPoll⟩⟩)
      | ready item =>
        cases item with
        | none =>
          rw [receive_none hPoll]
          refine .sent now (HyperRequestBody.markComplete_waiting ?_ ?_) ?_
          · exact hCompletion
          · exact hComplete
          · simp [hTaken]
        | some result =>
          cases result with
          | error e =>
            rw [receive_error hPoll]
            exact .lost (by simp [hCompletion, HyperRequestBody.dropSender]) hTaken (.inl rfl)
          | ok frame =>
            rw [receive_frame hPoll]
            have hFrames : B.Frames (last, u.body.inner) frame (now, inner) := ⟨hLater, input, hPoll⟩
            cases hEnd : B.isEndStream inner with
            | true =>
              refine .sent now (HyperRequestBody.markComplete_waiting ?_ ?_) ?_
              · exact hCompletion
              · exact hComplete
              · simp [hTaken]
            | false =>
              have hReached : Reached declared (u.delivered + frame) = false := by
                by_contra hReached
                have hTold := hSignals.frame _ _ hOpen' _ _ hFrames (by simpa using hReached)
                rw [hTold] at hEnd
                cases hEnd
              exact .waiting hCompletion hComplete (by simp [hReached, hTaken]) hFailed
                (.inr ⟨now, le_rfl, .frame hOpen' hFrames hEnd hReached⟩)

theorem signalled_step {action : Nat × Take B.Input} (h : Signalled declared u)
    (hStep : u.step declared action = some u') : Signalled declared u' := by
  obtain ⟨now, take⟩ := action
  obtain ⟨hNow, hDropped, hCases⟩ := step_cases hStep
  obtain rfl | ⟨input, hInspected, hOpen, rfl⟩ | rfl := hCases
  · exact signalled_inspect hSignals h hDropped hNow
  · exact signalled_receive hSignals h hDropped hInspected hOpen hNow input
  · cases h with
    | waiting hCompletion _ hTaken _ _ =>
      exact .lost (congrArg HyperRequestBody.dropSender hCompletion) hTaken (.inr rfl)
    | sent t hCompletion hTaken =>
      exact .sent t (congrArg HyperRequestBody.dropSender hCompletion) hTaken
    | lost hCompletion hTaken _ =>
      exact .lost (congrArg HyperRequestBody.dropSender hCompletion) hTaken (.inr rfl)

end signalled

theorem step_now {action : Nat × Take B.Input} (hStep : u.step declared action = some u') : u'.now = action.1 := by
  obtain ⟨now, take⟩ := action
  obtain ⟨-, -, hCases⟩ := step_cases hStep
  obtain rfl | ⟨input, -, -, rfl⟩ | rfl := hCases
  · rfl
  · cases hPoll : B.pollFrame now input u.body.inner with
    | mk answer inner =>
      cases answer with
      | pending => rw [receive_pending hPoll]
      | ready item =>
        cases item with
        | none => rw [receive_none hPoll]
        | some result =>
          cases result with
          | error e => rw [receive_error hPoll]
          | ok frame => rw [receive_frame hPoll]
  · rfl

/-- The channel says one thing only. -/
theorem completion_step {action : Nat × Take B.Input} (h : u.body.completion ≠ .waiting)
    (hStep : u.step declared action = some u') : u'.body.completion = u.body.completion := by
  obtain ⟨now, take⟩ := action
  obtain ⟨-, -, hCases⟩ := step_cases hStep
  have hDrop : HyperRequestBody.dropSender u.body.completion = u.body.completion := by
    cases hCompletion : u.body.completion with
    | waiting => exact absurd hCompletion h
    | sent | dropped => rfl
  obtain rfl | ⟨input, -, -, rfl⟩ | rfl := hCases
  · rw [inspect, HyperRequestBody.isEndStream_eq]
    exact HyperRequestBody.mark_of_ne h _
  · cases hPoll : B.pollFrame now input u.body.inner with
    | mk answer inner =>
      cases answer with
      | pending => rw [receive_pending hPoll]
      | ready item =>
        cases item with
        | none =>
          rw [receive_none hPoll]
          have hInner : ({ u.body with inner } : HyperRequestBody B.State).completion ≠ .waiting := h
          exact HyperRequestBody.markComplete_of_ne hInner
        | some result =>
          cases result with
          | error e =>
            rw [receive_error hPoll]
            exact hDrop
          | ok frame =>
            rw [receive_frame hPoll]
            have hInner : ({ u.body with inner } : HyperRequestBody B.State).completion ≠ .waiting := h
            exact HyperRequestBody.mark_of_ne hInner _
  · exact hDrop

end Upload

/-- The body fails with a write timeout only when its producer was waited for that long. -/
def HttpBody.TimesWrites (B : HttpBody E) (write : Option Duration) : Prop :=
  ∃ Waiting : B.State → Option Nat → Prop, Waiting B.init none ∧ ∀ now input s asked, Waiting s asked →
    (∀ s', B.pollFrame now input s = (.pending, s') → Waiting s' (some (asked.getD now))) ∧
    (∀ frame s', B.pollFrame now input s = (.ready (some (.ok frame)), s') → Waiting s' (some now)) ∧
    ∀ phase s', B.pollFrame now input s = (.ready (some (.error (.timeout phase))), s') →
      phase = .write ∧ ∃ w ∈ write, asked.getD now + w ≤ now

namespace Upload
variable {B : HttpBody E} {declared : Option Nat} {u u' : Upload B} {write : Option Duration}

/-- A body that failed with a timeout was waited for longer than its limit. -/
structure WaitedFor (write : Option Duration) (Waiting : B.State → Option Nat → Prop) (u : Upload B) : Prop where
  waiting : u.finished none = false → Waiting u.body.inner u.asked
  failed : ∀ phase, u.failed = some (.timeout phase) → phase = .write ∧ ∃ w ∈ write, ∃ since ∈ u.asked, since + w ≤ u.now

theorem waitedFor_step {Waiting : B.State → Option Nat → Prop}
    (hWaiting : ∀ now input s asked, Waiting s asked →
      (∀ s', B.pollFrame now input s = (.pending, s') → Waiting s' (some (asked.getD now))) ∧
      (∀ frame s', B.pollFrame now input s = (.ready (some (.ok frame)), s') → Waiting s' (some now)) ∧
      ∀ phase s', B.pollFrame now input s = (.ready (some (.error (.timeout phase))), s') →
        phase = .write ∧ ∃ w ∈ write, asked.getD now + w ≤ now)
    (h : WaitedFor write Waiting u) {action : Nat × Take B.Input} (hStep : u.step declared action = some u') :
    WaitedFor write Waiting u' := by
  obtain ⟨now, take⟩ := action
  obtain ⟨hNow, -, hCases⟩ := step_cases hStep
  have hFailed : ∀ phase, u.failed = some (.timeout phase) →
      phase = .write ∧ ∃ w ∈ write, ∃ since ∈ u.asked, since + w ≤ now := by
    intro phase hPhase
    obtain ⟨hWrite, w, hw, since, hSince, hElapsed⟩ := h.failed phase hPhase
    exact ⟨hWrite, w, hw, since, hSince, hElapsed.trans hNow⟩
  obtain rfl | ⟨input, -, hOpen, rfl⟩ | rfl := hCases
  · refine ⟨?_, hFailed⟩
    intro hFinished
    have hInner : (inspect declared now u).body.inner = u.body.inner := by
      simp only [inspect, HyperRequestBody.isEndStream_eq]
      split_ifs
      · exact HyperRequestBody.markComplete_inner
      · rfl
    rw [hInner]
    apply h.waiting
    simp only [finished, inspect, Reached, Option.any_none, Bool.or_false, Bool.or_eq_false_iff] at hFinished ⊢
    exact ⟨hFinished.1.1, hFinished.2⟩
  · have hEnded : u.ended = false ∧ u.failed = none := by
      simp only [finished, Bool.or_eq_false_iff] at hOpen
      exact ⟨hOpen.1.1, by simpa using hOpen.1.2⟩
    have hNext := hWaiting now input u.body.inner u.asked
      (h.waiting (by simp [finished, hEnded.1, hEnded.2, Reached]))
    cases hPoll : B.pollFrame now input u.body.inner with
    | mk answer inner =>
      cases answer with
      | pending =>
        rw [receive_pending hPoll]
        exact ⟨fun _ => hNext.1 inner hPoll, by simp [hEnded.2]⟩
      | ready item =>
        cases item with
        | none =>
          rw [receive_none hPoll]
          exact ⟨by simp [finished], by simp [hEnded.2]⟩
        | some result =>
          cases result with
          | error e =>
            rw [receive_error hPoll]
            refine ⟨by simp [finished], ?_⟩
            intro phase hPhase
            obtain rfl := Option.some.inj hPhase
            obtain ⟨hWrite, w, hw, hElapsed⟩ := hNext.2.2 phase inner hPoll
            exact ⟨hWrite, w, hw, _, rfl, hElapsed⟩
          | ok frame =>
            rw [receive_frame hPoll]
            refine ⟨fun _ => ?_, by simp [hEnded.2]⟩
            have hInner := hNext.2.1 frame inner hPoll
            cases hEnd : B.isEndStream inner with
            | true => simpa [hEnd, HyperRequestBody.markComplete_inner] using hInner
            | false => simpa [hEnd] using hInner
  · exact ⟨h.waiting, hFailed⟩

end Upload

private theorem peerItem_ne_timeout (item : Poll (Option (Except E Nat))) (phase : TimeoutPhase) :
    peerItem item ≠ .ready (some (.error (.timeout phase))) := by
  cases item with
  | pending => simp [peerItem]
  | ready item =>
    cases item with
    | none => simp [peerItem]
    | some result =>
      cases result with
      | ok | error => simp [peerItem]

/-- The timer of the stream that `duration` bounds runs from the last chunk. -/
structure WriteTimeoutStream.WaitingSince (duration : Duration) (me : WriteTimeoutStream) (asked : Option Nat) : Prop where
  timedOut : me.timedOut = false
  started : me.started = asked.isSome
  deadline : ∀ since ∈ asked, me.deadline = some (since + duration)

theorem WriteTimeoutStream.start_waitingSince {duration : Duration} {me : WriteTimeoutStream} {asked : Option Nat}
    (h : me.WaitingSince duration asked) (now : Nat) : (me.start duration now).WaitingSince duration (some (asked.getD now)) := by
  rw [start, h.started]
  cases asked with
  | none => exact ⟨h.timedOut, rfl, by simp⟩
  | some since => exact h

theorem streamBody_timesWrites (write : Option Duration) : (streamBody write : HttpBody E).TimesWrites write := by
  cases write with
  | none =>
    refine ⟨fun _ _ => True, trivial, ?_⟩
    intro now item me asked _
    refine ⟨fun _ _ => trivial, fun _ _ _ => trivial, ?_⟩
    intro phase s' hPoll
    exact absurd (congrArg Prod.fst hPoll) (peerItem_ne_timeout item phase)
  | some duration =>
    refine ⟨WriteTimeoutStream.WaitingSince duration, ⟨rfl, rfl, by simp⟩, ?_⟩
    intro now item me asked hWaiting
    have hStart := WriteTimeoutStream.start_waitingSince hWaiting now
    have hDeadline := hStart.deadline _ rfl
    have hNe := peerItem_ne_timeout item
    cases hItem : peerItem item with
    | pending =>
      by_cases hElapsed : asked.getD now + duration ≤ now
      · simp [streamBody, WriteTimeoutStream.pollNext, hWaiting.timedOut, hItem, hDeadline, hElapsed]
      · refine ⟨?_, ?_, ?_⟩ <;>
          simp [streamBody, WriteTimeoutStream.pollNext, hWaiting.timedOut, hItem, hDeadline, hElapsed, hStart]
    | ready answer =>
      cases answer with
      | none => simp [streamBody, WriteTimeoutStream.pollNext, hWaiting.timedOut, hItem]
      | some result =>
        cases result with
        | error e =>
          refine ⟨?_, ?_, ?_⟩
          · simp [streamBody, WriteTimeoutStream.pollNext, hWaiting.timedOut, hItem]
          · simp [streamBody, WriteTimeoutStream.pollNext, hWaiting.timedOut, hItem]
          · intro phase s' hPoll
            simp only [streamBody, WriteTimeoutStream.pollNext, hWaiting.timedOut, hItem] at hPoll
            exact absurd (hItem.trans (congrArg Prod.fst hPoll)) (hNe phase)
        | ok frame =>
          refine ⟨?_, ?_, ?_⟩
          · simp [streamBody, WriteTimeoutStream.pollNext, hWaiting.timedOut, hItem]
          · intro frame' s' hPoll
            simp only [streamBody, WriteTimeoutStream.pollNext, hWaiting.timedOut, hItem] at hPoll
            obtain rfl := congrArg Prod.snd hPoll
            exact ⟨hStart.timedOut, hStart.started, by simp [hDeadline]⟩
          · simp [streamBody, WriteTimeoutStream.pollNext, hWaiting.timedOut, hItem]

theorem fullBody_timesWrites (length : Nat) (write : Option Duration) : (fullBody length : HttpBody E).TimesWrites write := by
  refine ⟨fun _ _ => True, trivial, ?_⟩
  intro now input data asked _
  refine ⟨fun _ _ => trivial, fun _ _ _ => trivial, ?_⟩
  intro phase s' hPoll
  cases data with
  | none | some => cases hPoll

structure NativeRequestBody.WaitingSince {σ : Type} (write : Option Duration) (me : NativeRequestBody σ)
    (asked : Option Nat) : Prop where
  done : me.done = false
  started : me.started = (asked.isSome && write.isSome)
  timer : ∀ since ∈ asked, me.timer = write.map (since + ·)

theorem NativeRequestBody.start_waitingSince {σ : Type} {write : Option Duration} {me : NativeRequestBody σ}
    {asked : Option Nat} (h : me.WaitingSince write asked) (now : Nat) (inner : σ) :
    ({ me.start write now with inner } : NativeRequestBody σ).WaitingSince write (some (asked.getD now)) := by
  cases asked with
  | none => refine ⟨?_, ?_, ?_⟩ <;> simp [start, h.started, h.done]
  | some since =>
    have hTimer := h.timer since rfl
    cases write with
    | none => refine ⟨?_, ?_, ?_⟩ <;> simp [start, h.started, h.done]
    | some w => refine ⟨?_, ?_, ?_⟩ <;> simp [start, h.started, h.done, hTimer]

private theorem nativeBody_timesWrites (body : NativeBody E) (write : Option Duration) :
    (body.intoHttpBody write).TimesWrites write := by
  refine ⟨NativeRequestBody.WaitingSince write, ⟨rfl, rfl, by simp⟩, ?_⟩
  intro now input me asked hWaiting
  cases hItem : body.pollFrame input me.inner with
  | mk item inner =>
    have hStart := NativeRequestBody.start_waitingSince hWaiting now inner
    have hTimer : (me.start write now).timer = write.map (asked.getD now + ·) := hStart.timer _ rfl
    cases item with
    | pending =>
      by_cases hElapsed : (me.start write now).timer.any (· ≤ now) = true
      · refine ⟨?_, ?_, ?_⟩
        · simp [NativeBody.intoHttpBody, hWaiting.done, hItem, hElapsed]
        · simp [NativeBody.intoHttpBody, hWaiting.done, hItem, hElapsed]
        · intro phase s' hPoll
          simp only [NativeBody.intoHttpBody, hWaiting.done, hItem, hElapsed] at hPoll
          obtain rfl : TimeoutPhase.write = phase := by simpa using congrArg Prod.fst hPoll
          refine ⟨rfl, ?_⟩
          rw [hTimer] at hElapsed
          cases write with
          | none => cases hElapsed
          | some w => exact ⟨w, rfl, by simpa using hElapsed⟩
      · refine ⟨?_, ?_, ?_⟩
        · intro s' hPoll
          simp only [NativeBody.intoHttpBody, hWaiting.done, hItem, hElapsed] at hPoll
          obtain rfl := congrArg Prod.snd hPoll
          exact hStart
        · simp [NativeBody.intoHttpBody, hWaiting.done, hItem, hElapsed]
        · simp [NativeBody.intoHttpBody, hWaiting.done, hItem, hElapsed]
    | ready answer =>
      cases answer with
      | none => simp [NativeBody.intoHttpBody, hWaiting.done, hItem]
      | some result =>
        cases result with
        | error e => simp [NativeBody.intoHttpBody, hWaiting.done, hItem]
        | ok frame =>
          refine ⟨?_, ?_, ?_⟩
          · simp [NativeBody.intoHttpBody, hWaiting.done, hItem]
          · intro frame' s' hPoll
            simp only [NativeBody.intoHttpBody, hWaiting.done, hItem] at hPoll
            obtain rfl := congrArg Prod.snd hPoll
            exact ⟨hStart.done, hStart.started, by simp⟩
          · simp [NativeBody.intoHttpBody, hWaiting.done, hItem]

theorem SendBody.timesWrites (body : SendBody E) (write : Option Duration) : (body.intoHttpBody write).TimesWrites write := by
  cases body with
  | native body declared => exact nativeBody_timesWrites body write
  | request body =>
    cases body with
    | empty => exact fullBody_timesWrites 0 write
    | bytes length => exact fullBody_timesWrites length write
    | stream length => exact streamBody_timesWrites write

private theorem fullBody_signalsEnd (length : Nat) : (fullBody length : HttpBody E).SignalsEnd (some length) where
  start := by
    intro hReached
    have hNone : length = 0 := by simpa [Upload.Reached] using hReached
    simp [fullBody, hNone]
  frame := by
    rintro ⟨_, data⟩ _ _ frame ⟨now, s'⟩ ⟨_, input, hPoll⟩ _
    obtain rfl : none = s' := congrArg Prod.snd hPoll
    rfl

section native
variable {body : NativeBody E} {write : Option Duration} {now : Nat} {input : body.Input}
  {me me' : NativeRequestBody body.State}

private theorem nativeBody_pending (hDone : me.done = false)
    (h : (body.intoHttpBody write).pollFrame now input me = (.pending, me')) :
    ∃ inner, body.pollFrame input me.inner = (.pending, inner) ∧ me' = { me.start write now with inner } ∧
      (me.start write now).timer.any (· ≤ now) = false := by
  cases hItem : body.pollFrame input me.inner with
  | mk item inner =>
    simp only [NativeBody.intoHttpBody, hDone, hItem, Bool.false_eq_true, if_false] at h
    cases item with
    | ready answer =>
      cases answer with
      | none => cases h
      | some result =>
        cases result with
        | ok | error => cases h
    | pending =>
      simp only at h
      split_ifs at h with hTimer
      · cases congrArg Prod.fst h
      · exact ⟨inner, rfl, (congrArg Prod.snd h).symm, by simpa using hTimer⟩

theorem nativeBody_frame (hDone : me.done = false) {frame : Nat}
    (h : (body.intoHttpBody write).pollFrame now input me = (.ready (some (.ok frame)), me')) :
    ∃ inner, body.pollFrame input me.inner = (.ready (some (.ok frame)), inner) ∧
      me' = { me.start write now with inner, timer := write.map (now + ·) } := by
  cases hItem : body.pollFrame input me.inner with
  | mk item inner =>
    simp only [NativeBody.intoHttpBody, hDone, hItem, Bool.false_eq_true, if_false] at h
    cases item with
    | pending =>
      simp only at h
      split_ifs at h
      · cases congrArg Prod.fst h
      · cases congrArg Prod.fst h
    | ready answer =>
      cases answer with
      | none => cases h
      | some result =>
        cases result with
        | error => cases h
        | ok frame' =>
          obtain rfl : frame' = frame := by simpa using congrArg Prod.fst h
          exact ⟨inner, rfl, (congrArg Prod.snd h).symm⟩

end native

/-- A timer that is running with a limit of nothing has run out. -/
def NativeRequestBody.Running {σ : Type} (write : Option Duration) (now : Nat) (me : NativeRequestBody σ) : Prop :=
  me.started = true → ∃ w ∈ write, ∃ x ∈ me.timer, w = 0 → x ≤ now

theorem NativeRequestBody.start_running {σ : Type} {write : Option Duration} {last now : Nat} {me : NativeRequestBody σ}
    (h : me.Running write last) (hNow : last ≤ now) : (me.start write now).Running write now := by
  intro hStarted
  rw [start] at hStarted ⊢
  split_ifs at hStarted ⊢ with hOld
  · obtain ⟨w, hw, x, hx, hZero⟩ := h hOld
    exact ⟨w, hw, x, hx, fun hw => (hZero hw).trans hNow⟩
  · obtain ⟨w, hw⟩ := Option.isSome_iff_exists.mp hStarted
    exact ⟨w, hw, now + w, by simp [hw], by rintro rfl; exact le_rfl⟩

theorem NativeRequestBody.start_inner {σ : Type} {write : Option Duration} {now : Nat} {me : NativeRequestBody σ} :
    (me.start write now).inner = me.inner ∧ (me.start write now).done = me.done := by
  rw [start]
  split_ifs <;> exact ⟨rfl, rfl⟩

private theorem nativeBody_open {body : NativeBody E} {write : Option Duration} {declared : Option Nat}
    {s : Nat × NativeRequestBody body.State} {delivered : Nat} (h : (body.intoHttpBody write).Open declared s delivered) :
    Open body.init body.isEndStream (body.Waits write) body.Frames declared s.2.inner delivered ∧ s.2.done = false ∧
      s.2.Running write s.1 := by
  induction h with
  | start hEnd hReached => exact ⟨.start hEnd hReached, rfl, by simp [NativeRequestBody.Running, NativeBody.intoHttpBody]⟩
  | @wait s s' delivered _ hWaits ih =>
    obtain ⟨last, me⟩ := s
    obtain ⟨now, me'⟩ := s'
    obtain ⟨hNow, input, hPoll⟩ := hWaits
    obtain ⟨hOpen, hDone, hTimer⟩ := ih
    dsimp only at hNow hPoll hOpen hDone hTimer
    have hRunning := NativeRequestBody.start_running hTimer hNow
    obtain ⟨inner, hItem, rfl, hLeft⟩ := nativeBody_pending hDone hPoll
    refine ⟨.wait hOpen ⟨?_, input, hItem⟩, NativeRequestBody.start_inner.2.trans hDone, hRunning⟩
    rintro rfl
    have hStarted : (me.start (some 0) now).started = true := by
      rw [NativeRequestBody.start]
      split_ifs with hStarted
      · exact hStarted
      · rfl
    obtain ⟨w, hw, x, hx, hZero⟩ := hRunning hStarted
    obtain rfl := Option.some.inj hw
    rw [Option.mem_def.mp hx] at hLeft
    simp [hZero rfl] at hLeft
  | @frame s s' delivered frame _ hFrames hEnd hReached ih =>
    obtain ⟨last, me⟩ := s
    obtain ⟨now, me'⟩ := s'
    obtain ⟨hNow, input, hPoll⟩ := hFrames
    obtain ⟨hOpen, hDone, hTimer⟩ := ih
    dsimp only at hNow hPoll hOpen hDone hTimer
    have hRunning := NativeRequestBody.start_running hTimer hNow
    obtain ⟨inner, hItem, rfl⟩ := nativeBody_frame hDone hPoll
    have hInnerEnd : body.isEndStream inner = false := (Bool.or_eq_false_iff.mp hEnd).2
    refine ⟨.frame hOpen ⟨input, hItem⟩ hInnerEnd hReached, NativeRequestBody.start_inner.2.trans hDone, ?_⟩
    intro hStarted
    obtain ⟨w, hw, -⟩ := hRunning hStarted
    exact ⟨w, hw, now + w, by simp [Option.mem_def.mp hw], by rintro rfl; exact le_rfl⟩

private theorem nativeBody_signalsEnd {body : NativeBody E} {write : Option Duration} {declared : Option Nat}
    (h : body.SignalsEnd write declared) : (body.intoHttpBody write).SignalsEnd declared where
  start := h.start
  frame := by
    rintro ⟨last, me⟩ delivered hOpen frame ⟨now, me'⟩ ⟨hNow, input, hPoll⟩ hReached
    obtain ⟨hInner, hDone, -⟩ := nativeBody_open hOpen
    dsimp only at hNow hPoll hInner hDone
    obtain ⟨inner, hItem, rfl⟩ := nativeBody_frame hDone hPoll
    exact Bool.or_eq_true_iff.mpr (.inr (h.frame _ _ hInner _ _ ⟨input, hItem⟩ hReached))

theorem SendBody.signalsEnd {body : SendBody E} {write : Option Duration} (h : body.SignalsEnd write) :
    (body.intoHttpBody write).SignalsEnd body.declared := by
  cases body with
  | native body declared => exact nativeBody_signalsEnd h
  | request body =>
    cases body with
    | empty => exact fullBody_signalsEnd 0
    | bytes length => exact fullBody_signalsEnd length
    | stream length =>
      cases length with
      | none => exact signalsEnd_of_undeclared rfl
      | some length => exact h.elim

end Eggfetch.Transport
