import Eggfetch.Body.Timeout
import Mathlib.Data.List.Basic

/-! What both timed bodies keep of the timeout contract, and when they agree. -/
namespace Eggfetch.Body
open Polling
open Pipeline (Duration TimeoutPhase)

variable {E C : Type}

/-- The contract over a run of either body. -/
structure Contract (t : Timeouts) (ps : List (Polled E C)) : Prop where
  inTime : ∀ p ∈ ps, p.answer.isChunk = true → t.expired p.readings.after = false
  totalFirst : ∀ p ∈ ps, ∀ elapsed, p.answer = .ready (some (.error (.timeout .read elapsed))) →
    t.expired p.readings.after = false
  unpolled : (∀ p ∈ ps.head?, t.expired p.readings.start = true) → ∀ p ∈ ps, p.after.polled = 0
  restarts : ∀ p ∈ ps, p.before.started = true → ∀ d ∈ p.after.readDeadline,
    if p.answer.isChunk then t.read.map (saturatingTokioNowPlus t.instantMax p.readings.later) = some d
    else p.before.readDeadline = some d
  fused : ps.Pairwise fun p q => p.answer.isError = true → q.answer = .ready none ∧ q.after.polled = q.before.polled

/-- The inner body has given no error, and once it has ended it is polled before the deadline
and stays without chunks and errors. -/
def Quiet (t : Timeouts) (inner : Answers E C) (r : Readings) (s : TimedBody) : Prop :=
  (∀ i < s.polled, (inner i).isError = false) ∧
    ((∃ i < s.polled, (inner i).isEnd = true) →
      t.expired r.before = false ∧ (inner s.polled).isChunk = false ∧ (inner s.polled).isError = false)

/-- What an error or the end of the inner body may do to the state. -/
structure Settles (settle : TimedBody → TimedBody) : Prop where
  polled : ∀ s, (settle s).polled = s.polled
  started : ∀ s, (settle s).started = s.started
  sleeps : ∀ s, (settle s).readDeadline = none ∨
    ((settle s).readDeadline = s.readDeadline ∧ (settle s).totalSleep = s.totalSleep)

/-- The sleeps are those of the timeouts. -/
structure Armed (t : Timeouts) (s : TimedBody) : Prop where
  idle : s.started = false → s.readDeadline = none
  total : s.readDeadline.isSome → s.totalSleep = t.total.map ResponseDeadline.deadline
  read : s.readDeadline.isSome → t.read.isSome

namespace TimedBody
variable {settle : TimedBody → TimedBody} {t : Timeouts} {inner : Answers E C} {r : Readings} {s : TimedBody}

/-- The poll passes an error or the end of the inner body on. -/
structure Settled (t : Timeouts) (inner : Answers E C) (r : Readings) (s : TimedBody) : Prop where
  done : s.done = false
  start : s.started = true ∨ t.expired r.start = false
  before : t.expired r.before = false
  last : (inner s.polled).goesOn = false

/-- What one poll can do. -/
inductive Polls (settle : TimedBody → TimedBody) (t : Timeouts) (inner : Answers E C) (r : Readings) (s : TimedBody) :
    Poll (Option (Except (BodyError E) C)) → TimedBody → Prop
  | fused : s.done = true → Polls settle t inner r s (.ready none) s
  | expired {s' : TimedBody} : s.done = false → s'.done = true → s'.started = true →
      s'.readDeadline = none ∨ (s.started = false ∧ s'.readDeadline = s.readDeadline) →
      s'.polled = s.polled → Polls settle t inner r s (totalTimeout t r) s'
  | total {s' : TimedBody} : s.done = false → s'.done = true → s'.started = true → s'.readDeadline = none →
      s'.polled = s.polled + 1 → (inner s.polled).goesOn = true → Polls settle t inner r s (totalTimeout t r) s'
  | read {s' : TimedBody} : s.done = false → s'.done = true → s'.started = true → s'.readDeadline = none →
      s'.polled = s.polled + 1 → inner s.polled = .pending → (s.arm t r).readDeadline.isSome →
      (s.arm t r).totalSleep.any (· ≤ r.after) = false → Polls settle t inner r s (readTimeout t) s'
  | chunk {c : C} : s.done = false → inner s.polled = .ready (some (.ok c)) → t.expired r.after = false →
      Polls settle t inner r s (.ready (some (.ok c))) ((s.arm t r).next.restart t r)
  | error {e : E} : Settled t inner r s → inner s.polled = .ready (some (.error e)) →
      Polls settle t inner r s (.ready (some (.error (.inner e)))) (settle (s.arm t r).next)
  | finished : Settled t inner r s → inner s.polled = .ready none →
      Polls settle t inner r s (.ready none) (settle (s.arm t r).next)
  | pending : s.done = false → inner s.polled = .pending →
      Polls settle t inner r s .pending (s.arm t r).next

@[simp] theorem arm_polled : (s.arm t r).polled = s.polled := by
  rw [arm]
  split <;> rfl

@[simp] theorem arm_started : (s.arm t r).started = true := by
  rw [arm]
  split
  · assumption
  · rfl

@[simp] theorem arm_done : (s.arm t r).done = s.done := by
  rw [arm]
  split <;> rfl

theorem arm_of_started (h : s.started = true) : s.arm t r = s := by rw [arm, if_pos h]

theorem restart_fields (s : TimedBody) : (s.restart t r).polled = s.polled ∧ (s.restart t r).started = s.started ∧
    (s.restart t r).done = s.done ∧ (s.restart t r).totalSleep = s.totalSleep := by
  rw [restart.eq_def]
  split
  · exact ⟨rfl, rfl, rfl, rfl⟩
  · exact ⟨rfl, rfl, rfl, rfl⟩

theorem polls_cases (settle : TimedBody → TimedBody) (t : Timeouts) (inner : Answers E C) (r : Readings) (s : TimedBody) :
    Polls settle t inner r s (poll settle t inner r s).1 (poll settle t inner r s).2 := by
  rw [poll]
  split
  · exact .fused ‹_›
  · rename_i hdone
    rw [Bool.not_eq_true] at hdone
    split
    · rename_i hfirst
      rw [Bool.and_eq_true, Bool.not_eq_true'] at hfirst
      exact .expired hdone rfl rfl (.inr ⟨hfirst.1, rfl⟩) rfl
    · rename_i hfirst
      have hstart : s.started = true ∨ t.expired r.start = false := by
        cases hstarted : s.started with
        | true => exact .inl rfl
        | false => exact .inr (by simpa [hstarted] using hfirst)
      rw [pollInner]
      split
      · exact .expired hdone rfl arm_started (.inl rfl) arm_polled
      · rename_i hbefore
        rw [Bool.not_eq_true] at hbefore
        rw [arm_polled]
        split
        · rename_i c hc
          split
          · exact .total hdone rfl arm_started rfl (congrArg (· + 1) arm_polled) (by rw [hc]; rfl)
          · rename_i hafter
            rw [Bool.not_eq_true] at hafter
            exact .chunk hdone hc hafter
        · rename_i e he
          exact .error ⟨hdone, hstart, hbefore, by rw [he]; rfl⟩ he
        · rename_i hend
          exact .finished ⟨hdone, hstart, hbefore, by rw [hend]; rfl⟩ hend
        · rename_i hpending
          rw [pollTimers]
          split
          · exact .total hdone rfl arm_started rfl (congrArg (· + 1) arm_polled) (by rw [hpending]; rfl)
          · split
            · rename_i htotal hread
              exact .read hdone rfl arm_started rfl (congrArg (· + 1) arm_polled) hpending (by
                obtain ⟨d, hd, -⟩ := (Option.any_eq_true _ _).mp hread
                exact Option.isSome_iff_exists.mpr ⟨d, hd⟩) (Bool.not_eq_true _ ▸ htotal)
            · exact .pending hdone hpending

/-- A sleep for the read timeout was set with the total one beside it. -/
theorem armed_arm (h : Armed t s) : Armed t (s.arm t r) := by
  rw [arm]
  split
  · exact h
  · exact ⟨(by intro h; cases h), fun _ => rfl, fun hread => by rwa [Option.isSome_map] at hread⟩

theorem armed_of_none (h : s.readDeadline = none) : Armed t s := by
  refine ⟨fun _ => h, fun hsome => ?_, fun hsome => ?_⟩
  · rw [h] at hsome
    cases hsome
  · rw [h] at hsome
    cases hsome

theorem armed_settle (hsettle : Settles settle) (h : Armed t s) (hstarted : s.started = true) : Armed t (settle s) := by
  rcases hsettle.sleeps s with hnone | ⟨hread, htotal⟩
  · exact armed_of_none hnone
  · refine ⟨fun hidle => ?_, fun hsome => ?_, fun hsome => h.read (hread ▸ hsome)⟩
    · rw [hsettle.started, hstarted] at hidle
      cases hidle
    · rw [htotal]
      exact h.total (hread ▸ hsome)

theorem armed_restart (h : Armed t s) (hstarted : s.started = true) : Armed t (s.restart t r) := by
  rw [restart.eq_def]
  split
  · rename_i hold hread
    refine ⟨fun hidle => ?_, fun _ => h.total (Option.isSome_iff_exists.mpr ⟨_, hold⟩), fun _ => by rw [hread]; rfl⟩
    rw [show s.started = false from hidle] at hstarted
    cases hstarted
  · exact h

theorem armed_poll (hsettle : Settles settle) (h : Armed t s) : Armed t (poll settle t inner r s).2 := by
  have hnext : Armed t (s.arm t r).next := ⟨(armed_arm h).idle, (armed_arm h).total, (armed_arm h).read⟩
  have hcases := polls_cases settle t inner r s
  generalize poll settle t inner r s = q at hcases
  obtain ⟨answer, s'⟩ := q
  cases hcases with
  | fused _ => exact h
  | expired _ _ hstarted hread _ =>
    rcases hread with hread | ⟨hidle, hread⟩
    · exact armed_of_none hread
    · exact armed_of_none (hread.trans (h.idle hidle))
  | total _ _ _ hread _ _ => exact armed_of_none hread
  | read _ _ _ hread _ _ _ _ => exact armed_of_none hread
  | chunk _ _ _ =>
    exact armed_restart hnext arm_started
  | error _ _ => exact armed_settle hsettle hnext arm_started
  | finished _ _ => exact armed_settle hsettle hnext arm_started
  | pending _ _ => exact hnext

private theorem poll_inTime (h : (poll settle t inner r s).1.isChunk = true) : t.expired r.after = false := by
  have hcases := polls_cases settle t inner r s
  generalize poll settle t inner r s = q at hcases h
  obtain ⟨answer, s'⟩ := q
  cases hcases with
  | chunk _ _ hafter => exact hafter
  | _ => cases h

theorem poll_totalFirst (harmed : Armed t s) {elapsed : Duration}
    (h : (poll settle t inner r s).1 = .ready (some (.error (.timeout .read elapsed)))) : t.expired r.after = false := by
  have hcases := polls_cases settle t inner r s
  generalize poll settle t inner r s = q at hcases h
  obtain ⟨answer, s'⟩ := q
  cases hcases with
  | read _ _ _ _ _ _ hsome htotal =>
    rw [(armed_arm harmed).total hsome] at htotal
    rw [Timeouts.expired, ← htotal]
    cases t.total with
    | none => rfl
    | some d => rfl
  | _ => cases h

theorem restart_readDeadline {d : Instant} (h : (s.restart t r).readDeadline = some d)
    (hread : s.readDeadline.isSome → t.read.isSome) :
    t.read.map (saturatingTokioNowPlus t.instantMax r.later) = some d := by
  rw [restart.eq_def] at h
  split at h
  · rename_i hread
    rw [hread]
    exact h
  · rename_i hnone
    obtain ⟨read, hr⟩ := Option.isSome_iff_exists.mp (hread (Option.isSome_iff_exists.mpr ⟨d, h⟩))
    exact absurd hr (hnone d read h)

theorem poll_restarts (hsettle : Settles settle) (harmed : Armed t s) (hstarted : s.started = true) {d : Instant}
    (h : (poll settle t inner r s).2.readDeadline = some d) :
    if (poll settle t inner r s).1.isChunk then t.read.map (saturatingTokioNowPlus t.instantMax r.later) = some d
    else s.readDeadline = some d := by
  have hsettled (hd : (settle (s.arm t r).next).readDeadline = some d) : s.readDeadline = some d := by
    rw [arm_of_started hstarted] at hd
    rcases hsettle.sleeps s.next with hnone | ⟨hsame, -⟩
    · rw [hnone] at hd
      cases hd
    · exact hsame ▸ hd
  have hcases := polls_cases settle t inner r s
  generalize poll settle t inner r s = q at hcases h
  obtain ⟨answer, s'⟩ := q
  cases hcases with
  | fused _ => exact h
  | expired _ _ _ hread _ =>
    rcases hread with hread | ⟨hidle, -⟩
    · rw [show s'.readDeadline = some d from h] at hread
      cases hread
    · rw [hidle] at hstarted
      cases hstarted
  | total _ _ _ hread _ _ =>
    rw [show s'.readDeadline = some d from h] at hread
    cases hread
  | read _ _ _ hread _ _ _ _ =>
    rw [show s'.readDeadline = some d from h] at hread
    cases hread
  | chunk _ _ _ => exact restart_readDeadline h (by rw [arm_of_started hstarted]; exact harmed.read)
  | error _ _ => exact hsettled h
  | finished _ _ => exact hsettled h
  | pending _ _ =>
    rw [arm_of_started hstarted] at h
    exact h

private theorem poll_congr (settle settle' : TimedBody → TimedBody) (h : ¬ Settled t inner r s) :
    poll settle t inner r s = poll settle' t inner r s := by
  rw [poll, poll]
  split
  · rfl
  · rename_i hdone
    rw [Bool.not_eq_true] at hdone
    split
    · rfl
    · rename_i hfirst
      have hstart : s.started = true ∨ t.expired r.start = false := by
        cases hstarted : s.started with
        | true => exact .inl rfl
        | false => exact .inr (by simpa [hstarted] using hfirst)
      rw [pollInner, pollInner]
      split
      · rfl
      · rename_i hbefore
        rw [Bool.not_eq_true] at hbefore
        rw [arm_polled]
        have hlast (hnot : (inner s.polled).goesOn = false) : False := h ⟨hdone, hstart, hbefore, hnot⟩
        split
        · rfl
        · rename_i he
          exact absurd (by rw [he]; rfl) hlast
        · rename_i hend
          exact absurd (by rw [hend]; rfl) hlast
        · rfl

variable (settle) in
theorem poll_of_settled (h : Settled t inner r s) : poll settle t inner r s = (s.arm t r).pollInner settle t inner r ∧
    ¬ t.expired r.before = true := by
  refine ⟨?_, by rw [h.before]; exact Bool.false_ne_true⟩
  rw [poll, if_neg (by rw [h.done]; exact Bool.false_ne_true), if_neg]
  rw [Bool.and_eq_true, Bool.not_eq_true']
  rintro ⟨hidle, hexpired⟩
  rcases h.start with hstarted | hfresh
  · rw [hidle] at hstarted
    cases hstarted
  · rw [hfresh] at hexpired
    cases hexpired

theorem poll_of_error {e : E} (h : Settled t inner r s) (he : inner s.polled = .ready (some (.error e))) :
    poll settle t inner r s = (.ready (some (.error (.inner e))), settle (s.arm t r).next) := by
  obtain ⟨hpoll, hbefore⟩ := poll_of_settled settle h
  rw [hpoll, pollInner, if_neg hbefore, arm_polled, he]

theorem poll_of_end (h : Settled t inner r s) (hend : inner s.polled = .ready none) :
    poll settle t inner r s = (.ready none, settle (s.arm t r).next) := by
  obtain ⟨hpoll, hbefore⟩ := poll_of_settled settle h
  rw [hpoll, pollInner, if_neg hbefore, arm_polled, hend]

theorem poll_of_done (h : s.done = true) : poll settle t inner r s = (.ready none, s) := by rw [poll, if_pos h]

end TimedBody

section
variable {poll : Readings → TimedBody → Poll (Option (Except (BodyError E) C)) × TimedBody} {s : TimedBody}

/-- What every poll keeps and does holds along a run. -/
theorem forall_runPolls {I : TimedBody → Prop} {P : Polled E C → Prop} (hI : ∀ r s, I s → I (poll r s).2)
    (hP : ∀ r s, I s → P ⟨r, s, (poll r s).1, (poll r s).2⟩) (rs : List Readings) (hs : I s) :
    ∀ p ∈ runPolls poll s rs, P p := by
  induction rs generalizing s with
  | nil => exact fun _ hp => absurd hp List.not_mem_nil
  | cons r rs ih =>
    rintro p hp
    rcases List.mem_cons.mp hp with rfl | hp
    · exact hP r s hs
    · exact ih (hI r s hs) p hp

end

section
variable {settle : TimedBody → TimedBody} {t : Timeouts} {inner : Answers E C} {s : TimedBody} {rs : List Readings}

/-- A body that is done gives the end again and again. -/
theorem runPolls_of_done (h : s.done = true) :
    ∀ p ∈ runPolls (TimedBody.poll settle t inner) s rs, p.answer = .ready none ∧ p.before = s ∧ p.after = s := by
  refine forall_runPolls (I := (· = s)) (fun r s' hs' => ?_) (fun r s' hs' => ?_) rs rfl
  · rw [hs', TimedBody.poll_of_done h]
  · rw [hs', TimedBody.poll_of_done h]
    exact ⟨rfl, rfl, rfl⟩

private theorem armed_init (t : Timeouts) : Armed t {} := TimedBody.armed_of_none rfl

/-- Everything of the contract but the fuse. -/
theorem contract_of_fused (hsettle : Settles settle)
    (hfused : (runPolls (TimedBody.poll settle t inner) {} rs).Pairwise fun p q =>
      p.answer.isError = true → q.answer = .ready none ∧ q.after.polled = q.before.polled) :
    Contract t (runPolls (TimedBody.poll settle t inner) {} rs) where
  inTime := forall_runPolls (I := fun _ => True) (fun _ _ => id) (fun _ _ _ => TimedBody.poll_inTime) rs trivial
  totalFirst := forall_runPolls (I := Armed t) (fun _ _ => TimedBody.armed_poll hsettle)
    (fun _ _ harmed _ => TimedBody.poll_totalFirst harmed) rs (armed_init t)
  unpolled := by
    intro hfirst
    cases rs with
    | nil => exact fun _ hp => absurd hp List.not_mem_nil
    | cons r rs =>
      have hexpired : t.expired r.start = true := hfirst _ rfl
      have hpoll : TimedBody.poll settle t inner r {} = (totalTimeout t r, { started := true, done := true }) := by
        rw [TimedBody.poll, if_neg Bool.false_ne_true, if_pos (by rw [hexpired]; rfl)]
      rintro p hp
      rw [runPolls, hpoll] at hp
      rcases List.mem_cons.mp hp with rfl | hp
      · rfl
      · rw [(runPolls_of_done rfl p hp).2.2]
  restarts := forall_runPolls (I := Armed t) (fun _ _ => TimedBody.armed_poll hsettle)
    (fun _ _ harmed hstarted _ hd => TimedBody.poll_restarts hsettle harmed hstarted hd) rs (armed_init t)
  fused := hfused

end

theorem settles_native : Settles fun s : TimedBody => { s with done := true } :=
  ⟨fun _ => rfl, fun _ => rfl, fun _ => .inr ⟨rfl, rfl⟩⟩

theorem settles_stream : Settles fun s : TimedBody => { s with readDeadline := none, totalSleep := none } :=
  ⟨fun _ => rfl, fun _ => rfl, fun _ => .inl rfl⟩

section
variable {t : Timeouts} {inner : Answers E C} {r : Readings} {s : TimedBody} {rs : List Readings}

private theorem pollFrame_error_done (h : (pollFrame t inner r s).1.isError = true) : (pollFrame t inner r s).2.done = true := by
  have hcases := TimedBody.polls_cases (fun s => { s with done := true }) t inner r s
  rw [pollFrame] at h ⊢
  generalize TimedBody.poll _ t inner r s = q at hcases h
  obtain ⟨answer, s'⟩ := q
  cases hcases with
  | expired _ hdone _ _ _ => exact hdone
  | total _ hdone _ _ _ _ => exact hdone
  | read _ hdone _ _ _ _ _ _ => exact hdone
  | error _ _ => rfl
  | _ => cases h

private theorem native_fused (s : TimedBody) : (runPolls (pollFrame t inner) s rs).Pairwise fun p q =>
    p.answer.isError = true → q.answer = .ready none ∧ q.after.polled = q.before.polled := by
  induction rs generalizing s with
  | nil => exact List.Pairwise.nil
  | cons r rs ih =>
    refine List.Pairwise.cons (fun q hq herror => ?_) (ih _)
    obtain ⟨hanswer, hbefore, hafter⟩ := runPolls_of_done (pollFrame_error_done herror) q hq
    exact ⟨hanswer, by rw [hbefore, hafter]⟩

theorem native_contract : Contract t (runPolls (pollFrame t inner) {} rs) :=
  contract_of_fused settles_native (native_fused {})

def Flowing (inner : Answers E C) (s : TimedBody) : Prop := ∀ i < s.polled, (inner i).goesOn = true

private theorem flowing_next (h : Flowing inner s) (hgo : (inner s.polled).goesOn = true) {s' : TimedBody}
    (hpolled : s'.polled = s.polled + 1) : Flowing inner s' := by
  intro i hi
  rw [hpolled] at hi
  rcases Nat.lt_succ_iff_lt_or_eq.mp hi with hi | rfl
  · exact h i hi
  · exact hgo

theorem quiet_of_flowing (h : Flowing inner s) : Quiet t inner r s := by
  have hgo (i : Nat) (hi : i < s.polled) : (inner i).isError = false ∧ (inner i).isEnd = false := by
    simpa [Poll.goesOn] using h i hi
  refine ⟨fun i hi => (hgo i hi).1, ?_⟩
  rintro ⟨i, hi, hend⟩
  rw [(hgo i hi).2] at hend
  cases hend

private theorem pollNext_flowing (hs : s.done = false) (h : Flowing inner s) (hnot : ¬ TimedBody.Settled t inner r s) :
    Flowing inner (pollNext t inner r s).2 ∧
      ((pollNext t inner r s).2.done = true ∨
        ((pollNext t inner r s).2.done = false ∧ (pollNext t inner r s).1.isError = false)) := by
  have hcases := TimedBody.polls_cases (fun s => { s with readDeadline := none, totalSleep := none }) t inner r s
  rw [pollNext]
  generalize TimedBody.poll _ t inner r s = q at hcases
  obtain ⟨answer, s'⟩ := q
  cases hcases with
  | fused hdone =>
    rw [hs] at hdone
    cases hdone
  | expired _ hdone _ _ hpolled =>
    refine ⟨?_, .inl hdone⟩
    rw [Flowing, show s'.polled = s.polled from hpolled]
    exact h
  | total _ hdone _ _ hpolled hgo => exact ⟨flowing_next h hgo hpolled, .inl hdone⟩
  | read _ hdone _ _ hpolled hpending _ _ => exact ⟨flowing_next h (by rw [hpending]; rfl) hpolled, .inl hdone⟩
  | chunk _ hc _ =>
    obtain ⟨hpolled, -, hdone, -⟩ := TimedBody.restart_fields (t := t) (r := r) (s.arm t r).next
    refine ⟨flowing_next h (by rw [hc]; rfl) (hpolled.trans (congrArg (· + 1) TimedBody.arm_polled)), .inr ⟨?_, rfl⟩⟩
    exact hdone.trans (TimedBody.arm_done.trans hs)
  | error hsettled _ => exact absurd hsettled hnot
  | finished hsettled _ => exact absurd hsettled hnot
  | pending _ hpending =>
    refine ⟨flowing_next h (by rw [hpending]; rfl) (congrArg (· + 1) TimedBody.arm_polled), .inr ⟨?_, rfl⟩⟩
    exact TimedBody.arm_done.trans hs

/-- The stream after the end of the inner one: it has no sleeps and no fuse. -/
structure Ended (inner : Answers E C) (s : TimedBody) : Prop where
  done : s.done = false
  started : s.started = true
  read : s.readDeadline = none
  total : s.totalSleep = none
  noError : ∀ i < s.polled, (inner i).isError = false
  ended : ∃ i < s.polled, (inner i).isEnd = true

theorem quiet_of_ended (h : Ended inner s) : Quiet t inner r s ↔
    t.expired r.before = false ∧ (inner s.polled).isChunk = false ∧ (inner s.polled).isError = false :=
  ⟨fun hquiet => hquiet.2 h.ended, fun hquiet => ⟨h.noError, fun _ => hquiet⟩⟩

private theorem ended_next (h : Ended inner s) (hquiet : (inner s.polled).isError = false) : Ended inner s.next where
  done := h.done
  started := h.started
  read := h.read
  total := h.total
  noError := by
    intro i hi
    rcases Nat.lt_succ_iff_lt_or_eq.mp hi with hi | rfl
    · exact h.noError i hi
    · exact hquiet
  ended := by
    obtain ⟨i, hi, hend⟩ := h.ended
    exact ⟨i, Nat.lt_succ_of_lt hi, hend⟩

theorem pollNext_of_ended (h : Ended inner s) : pollNext t inner r s =
    TimedBody.pollInner (fun s => { s with readDeadline := none, totalSleep := none }) t inner r s := by
  rw [pollNext, TimedBody.poll, if_neg (by rw [h.done]; exact Bool.false_ne_true),
    if_neg (by rw [h.started]; exact Bool.false_ne_true), TimedBody.arm_of_started h.started]

theorem pollNext_quiet (h : Ended inner s) (hquiet : Quiet t inner r s) :
    (pollNext t inner r s).1.item = none ∧ Ended inner (pollNext t inner r s).2 := by
  obtain ⟨hbefore, hchunk, herror⟩ := (quiet_of_ended h).mp hquiet
  have hnext := ended_next h herror
  rw [pollNext_of_ended h, TimedBody.pollInner, if_neg (by rw [hbefore]; exact Bool.false_ne_true)]
  split
  · rename_i c hc
    rw [hc] at hchunk
    cases hchunk
  · rename_i e he
    rw [he] at herror
    cases herror
  · exact ⟨rfl, hnext.done, hnext.started, rfl, rfl, hnext.noError, hnext.ended⟩
  · rw [TimedBody.pollTimers, if_neg (by rw [hnext.total]; exact Bool.false_ne_true),
      if_neg (by rw [hnext.read]; exact Bool.false_ne_true)]
    exact ⟨rfl, hnext⟩

private theorem pollNext_not_quiet (h : Ended inner s) (hquiet : ¬ Quiet t inner r s) :
    (pollNext t inner r s).1.item ≠ none := by
  rw [pollNext_of_ended h, TimedBody.pollInner]
  split
  · exact (by intro h; cases h)
  · rename_i hbefore
    split
    · split
      · exact (by intro h; cases h)
      · exact (by intro h; cases h)
    · exact (by intro h; cases h)
    · rename_i hend
      exact absurd ((quiet_of_ended h).mpr ⟨by simpa using hbefore, by rw [hend]; exact ⟨rfl, rfl⟩⟩) hquiet
    · rename_i hpending
      exact absurd ((quiet_of_ended h).mpr ⟨by simpa using hbefore, by rw [hpending]; exact ⟨rfl, rfl⟩⟩) hquiet

theorem items_cons (p : Polled E C) (ps : List (Polled E C)) : items (p :: ps) = p.answer.item.toList ++ items ps := by
  rw [items, List.filterMap_cons]
  cases p.answer.item with
  | none => rfl
  | some item => rfl

def AllQuiet (t : Timeouts) (inner : Answers E C) (ps : List (Polled E C)) : Prop :=
  ∀ p ∈ ps, Quiet t inner p.readings p.before

theorem ended_items (h : Ended inner s) :
    items (runPolls (pollNext t inner) s rs) = [] ↔ AllQuiet t inner (runPolls (pollNext t inner) s rs) := by
  induction rs generalizing s with
  | nil => exact ⟨fun _ _ hp => absurd hp List.not_mem_nil, fun _ => rfl⟩
  | cons r rs ih =>
    rw [runPolls, items_cons, AllQuiet, List.forall_mem_cons, List.append_eq_nil_iff]
    by_cases hquiet : Quiet t inner r s
    · obtain ⟨hitem, hended⟩ := pollNext_quiet h hquiet
      rw [ih hended, hitem]
      exact ⟨fun hrest => ⟨hquiet, hrest.2⟩, fun hrest => ⟨rfl, hrest.2⟩⟩
    · have hitem := pollNext_not_quiet h hquiet
      refine ⟨fun hnone => ?_, fun hall => absurd hall.1 hquiet⟩
      rw [Option.toList_eq_nil_iff] at hnone
      exact absurd hnone.1 hitem

private theorem item_of_error {a : Poll (Option (Except (BodyError E) C))} (h : a.isError = true) : a.item ≠ none := by
  rcases a with _ | _ | _ | _
  · cases h
  · cases h
  · exact (by intro h; cases h)
  · cases h

def IsFused (ps : List (Polled E C)) : Prop :=
  ps.Pairwise fun p q => p.answer.isError = true → q.answer = .ready none ∧ q.after.polled = q.before.polled

theorem fused_of_items {ps : List (Polled E C)} (h : items ps = []) : IsFused ps := by
  have hnone (p : Polled E C) (hp : p ∈ ps) : p.answer.isError ≠ true := by
    intro herror
    obtain ⟨item, hitem⟩ := Option.ne_none_iff_exists'.mp (item_of_error herror)
    have hmem : item ∈ items ps := List.mem_filterMap.mpr ⟨p, hp, hitem⟩
    rw [h] at hmem
    cases hmem
  exact List.pairwise_of_forall_mem_list fun p hp _ _ herror => absurd herror (hnone p hp)

theorem done_items {settle : TimedBody → TimedBody} (hdone : s.done = true) :
    items (runPolls (TimedBody.poll settle t inner) s rs) = [] := by
  rw [items, List.filterMap_eq_nil_iff]
  intro p hp
  rw [(runPolls_of_done hdone p hp).1]
  rfl

theorem done_quiet {settle : TimedBody → TimedBody} (hdone : s.done = true) (hflow : Flowing inner s) :
    AllQuiet t inner (runPolls (TimedBody.poll settle t inner) s rs) := by
  intro p hp
  rw [(runPolls_of_done hdone p hp).2.1]
  exact quiet_of_flowing hflow

theorem isFused_cons {p : Polled E C} {ps : List (Polled E C)}
    (h : p.answer.isError = true → ∀ q ∈ ps, q.answer = .ready none ∧ q.after.polled = q.before.polled) :
    IsFused (p :: ps) ↔ IsFused ps :=
  ⟨fun hfused => (List.pairwise_cons.mp hfused).2,
    fun hfused => List.pairwise_cons.mpr ⟨fun q hq herror => h herror q hq, hfused⟩⟩

private theorem unfused_moves (hs : s.done = false) :
    ¬ ((pollNext t inner r s).1 = .ready none ∧ (pollNext t inner r s).2.polled = s.polled) := by
  have hcases := TimedBody.polls_cases (fun s => { s with readDeadline := none, totalSleep := none }) t inner r s
  rw [pollNext]
  generalize TimedBody.poll _ t inner r s = q at hcases
  obtain ⟨answer, s'⟩ := q
  rintro ⟨hanswer, hpolled⟩
  cases hcases with
  | fused hdone =>
    rw [hs] at hdone
    cases hdone
  | finished _ _ =>
    have hnext : (s.arm t r).next.polled = s.polled + 1 := congrArg (· + 1) TimedBody.arm_polled
    exact absurd (hnext.symm.trans hpolled) (Nat.succ_ne_self _)
  | _ => cases hanswer

variable (rs) in
private theorem after_error {e : E} (hs : TimedBody.Settled t inner r s) (he : inner s.polled = .ready (some (.error e))) :
    (IsFused (runPolls (pollNext t inner) s (r :: rs)) ↔ rs = []) ∧
      (AllQuiet t inner (runPolls (pollNext t inner) (pollNext t inner r s).2 rs) ↔ rs = []) := by
  have hpoll : pollNext t inner r s = (.ready (some (.error (.inner e))),
      { (s.arm t r).next with readDeadline := none, totalSleep := none }) := TimedBody.poll_of_error hs he
  cases rs with
  | nil =>
    exact ⟨iff_of_true (List.pairwise_singleton _ _) rfl, iff_of_true (fun _ hp => absurd hp List.not_mem_nil) rfl⟩
  | cons r' rs =>
    refine ⟨iff_of_false (fun hfused => ?_) (List.cons_ne_nil _ _), iff_of_false (fun hquiet => ?_) (List.cons_ne_nil _ _)⟩
    · rw [runPolls, runPolls, hpoll] at hfused
      have hfirst := (List.pairwise_cons.mp hfused).1 _ List.mem_cons_self rfl
      exact absurd hfirst (unfused_moves (TimedBody.arm_done.trans hs.done))
    · rw [runPolls, hpoll] at hquiet
      have hfirst := (hquiet _ List.mem_cons_self).1 s.polled
      rw [he] at hfirst
      have hlt : s.polled < (s.arm t r).next.polled := by
        rw [show (s.arm t r).next.polled = s.polled + 1 from congrArg (· + 1) TimedBody.arm_polled]
        exact Nat.lt_succ_self _
      cases hfirst hlt

private theorem ended_of_settled (hs : TimedBody.Settled t inner r s) (hflow : Flowing inner s)
    (hend : inner s.polled = .ready none) :
    Ended inner { (s.arm t r).next with readDeadline := none, totalSleep := none } where
  done := TimedBody.arm_done.trans hs.done
  started := TimedBody.arm_started
  read := rfl
  total := rfl
  noError := by
    intro i hi
    have hi : i < s.polled + 1 := by rwa [← TimedBody.arm_polled (t := t) (r := r)]
    rcases Nat.lt_succ_iff_lt_or_eq.mp hi with hi | rfl
    · have hgo := hflow i hi
      rw [Poll.goesOn, Bool.and_eq_true, Bool.not_eq_true'] at hgo
      exact hgo.1
    · rw [hend]
      rfl
  ended := by
    refine ⟨s.polled, ?_, by rw [hend]; rfl⟩
    show s.polled < (s.arm t r).polled + 1
    rw [TimedBody.arm_polled]
    exact Nat.lt_succ_self _

/-- From a flowing state the fuse of the stream and its agreement with the native body come
down to quiet polls. -/
theorem flowing_iff (hs : s.done = false) (hflow : Flowing inner s) :
    (IsFused (runPolls (pollNext t inner) s rs) ∧
        items (runPolls (pollNext t inner) s rs) = items (runPolls (pollFrame t inner) s rs)) ↔
      AllQuiet t inner (runPolls (pollNext t inner) s rs) := by
  induction rs generalizing s with
  | nil => exact ⟨fun _ _ hp => absurd hp List.not_mem_nil, fun _ => ⟨List.Pairwise.nil, rfl⟩⟩
  | cons r rs ih =>
    have hquiet : AllQuiet t inner (runPolls (pollNext t inner) s (r :: rs)) ↔
        AllQuiet t inner (runPolls (pollNext t inner) (pollNext t inner r s).2 rs) := by
      rw [runPolls, AllQuiet, List.forall_mem_cons]
      exact and_iff_right (quiet_of_flowing hflow)
    rw [hquiet]
    by_cases hsettled : TimedBody.Settled t inner r s
    · have hlast := hsettled.last
      rcases hinner : inner s.polled with _ | _ | e | c
      · rw [hinner] at hlast
        cases hlast
      · have hnext : pollNext t inner r s = (.ready none, _) := TimedBody.poll_of_end hsettled hinner
        have hframe : pollFrame t inner r s = (.ready none, _) := TimedBody.poll_of_end hsettled hinner
        have hnative : items (runPolls (pollFrame t inner) s (r :: rs)) = [] := by
          rw [runPolls, items_cons, hframe]
          exact done_items rfl
        have hended := ended_of_settled hsettled hflow hinner
        rw [hnative, runPolls, isFused_cons (by rw [hnext]; nofun), items_cons, hnext]
        exact ⟨fun h => (ended_items hended).mp h.2, fun h =>
          ⟨fused_of_items ((ended_items hended).mpr h), (ended_items hended).mpr h⟩⟩
      · obtain ⟨hfused, hrest⟩ := after_error rs hsettled hinner
        rw [hfused, hrest]
        refine ⟨And.left, fun hnil => ⟨hnil, ?_⟩⟩
        have hnext : pollNext t inner r s = (_, _) := TimedBody.poll_of_error hsettled hinner
        have hframe : pollFrame t inner r s = (_, _) := TimedBody.poll_of_error hsettled hinner
        rw [hnil]
        simp only [runPolls, items_cons, hnext, hframe]
      · rw [hinner] at hlast
        cases hlast
    · have hsame : pollFrame t inner r s = pollNext t inner r s := TimedBody.poll_congr _ _ hsettled
      obtain ⟨hflow', hnext⟩ := pollNext_flowing hs hflow hsettled
      rw [runPolls, runPolls, hsame, items_cons, items_cons, List.append_cancel_left_eq]
      rcases hnext with hdone | ⟨hdone, herror⟩
      · have hstream : items (runPolls (pollNext t inner) (pollNext t inner r s).2 rs) = [] := done_items hdone
        have hnative : items (runPolls (pollFrame t inner) (pollNext t inner r s).2 rs) = [] := done_items hdone
        have hhead : ∀ p ∈ runPolls (pollNext t inner) (pollNext t inner r s).2 rs,
            p.answer = .ready none ∧ p.before = (pollNext t inner r s).2 ∧ p.after = (pollNext t inner r s).2 :=
          runPolls_of_done hdone
        rw [isFused_cons fun _ q hq => ⟨(hhead q hq).1, by rw [(hhead q hq).2.1, (hhead q hq).2.2]⟩, hstream, hnative]
        exact ⟨fun _ => done_quiet hdone hflow', fun _ => ⟨fused_of_items hstream, rfl⟩⟩
      · rw [isFused_cons fun h => by rw [herror] at h; cases h]
        exact ih hdone hflow'

end

/-- The native body keeps the contract. The stream does, and gives the same chunks and errors,
exactly where every poll is quiet: it has no fuse after an error or the end of the inner one. -/
theorem body_timeouts_iff (t : Timeouts) (inner : Answers E C) (rs : List Readings) :
    Contract t (runPolls (pollNext t inner) {} rs) ∧ Contract t (runPolls (pollFrame t inner) {} rs) ∧
        items (runPolls (pollNext t inner) {} rs) = items (runPolls (pollFrame t inner) {} rs) ↔
      ∀ p ∈ runPolls (pollNext t inner) {} rs, Quiet t inner p.readings p.before := by
  have hflow : Flowing inner {} := fun i hi => absurd hi (Nat.not_lt_zero i)
  have hiff : _ ↔ AllQuiet t inner (runPolls (pollNext t inner) {} rs) := flowing_iff rfl hflow
  constructor
  · rintro ⟨hstream, -, hitems⟩
    exact hiff.mp ⟨hstream.fused, hitems⟩
  · intro hquiet
    obtain ⟨hfused, hitems⟩ := hiff.mpr hquiet
    exact ⟨contract_of_fused settles_stream hfused, native_contract, hitems⟩

def failing : Answers Unit Unit
  | 0 => .ready (some (.error ()))
  | _ => .ready (some (.ok ()))

def atOnce : Readings := ⟨0, 0, 0, 0, 0⟩

/-- After an error of the inner body the stream gives the next chunk of it. -/
theorem polled_after_error :
    ¬ ∀ (E C : Type) (t : Timeouts) (inner : Answers E C) (rs : List Readings),
      Contract t (runPolls (pollNext t inner) {} rs) ∧ Contract t (runPolls (pollFrame t inner) {} rs) ∧
        items (runPolls (pollNext t inner) {} rs) = items (runPolls (pollFrame t inner) {} rs) := by
  intro h
  have hfused := (h Unit Unit ⟨10 ^ 9, some 5, none⟩ failing [atOnce, atOnce]).1.fused
  have hfirst := (List.pairwise_cons.mp hfused).1 _ List.mem_cons_self rfl
  cases hfirst.1

end Eggfetch.Body
