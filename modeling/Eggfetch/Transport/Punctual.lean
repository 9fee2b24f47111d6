import Eggfetch.Transport.Overrides
import Eggfetch.Transport.ReadTimeout

/-! Which requests keep their limits and name them. -/
namespace Eggfetch.Transport
open Polling Transition
open Pipeline (Duration)

variable {E : Type} {limits : Limits}

section lost
variable {body : NativeBody E} {write : Option Duration} {declared : Option Nat}

/-- Nothing has been signalled of a body that is in the state `s`. -/
structure Unsignalled (s : body.State) (delivered : Nat) (u : Upload (body.intoHttpBody write)) : Prop where
  now : u.now = 0
  inspected : u.inspected = true
  delivered : u.delivered = delivered
  ended : u.ended = false
  failed : u.failed = none
  dropped : u.dropped = false
  taken : u.taken = none
  waiting : u.body.completion = .waiting
  inner : u.body.inner.inner = s
  done : u.body.inner.done = false
  timer : (u.body.inner.start write 0).timer = write.map (0 + ·)

theorem Unsignalled.step {s : body.State} {delivered : Nat} {u : Upload (body.intoHttpBody write)}
    (h : Unsignalled s delivered u) (hOpen : Upload.Reached declared delivered = false) (input : body.Input) :
    u.step declared (0, .pollFrame input) = some (u.receive declared 0 input) := by
  simp [Upload.step, h.now, h.dropped, h.inspected, Upload.finished, h.ended, h.failed, h.delivered, hOpen]

/-- A frame in time sets the timer anew. -/
theorem Unsignalled.frame {s s' : body.State} {delivered frame : Nat} {input : body.Input}
    {u : Upload (body.intoHttpBody write)} (h : Unsignalled s delivered u)
    (hPoll : body.pollFrame input s = (.ready (some (.ok frame)), s')) :
    (body.intoHttpBody write).pollFrame 0 input u.body.inner =
        (.ready (some (.ok frame)), { u.body.inner.start write 0 with inner := s', timer := write.map (0 + ·) }) ∧
      (body.intoHttpBody write).isEndStream { u.body.inner.start write 0 with inner := s', timer := write.map (0 + ·) } =
        body.isEndStream s' := by
  simp [NativeBody.intoHttpBody, NativeRequestBody.start_inner, h.done, h.inner, hPoll]

private theorem start_timer {σ : Type} {me : NativeRequestBody σ} (h : me.timer = write.map (0 + ·)) :
    (me.start write 0).timer = write.map (0 + ·) := by
  rw [NativeRequestBody.start]
  split_ifs
  · exact h
  · rfl

theorem run_concat {B : HttpBody E} {u u' u'' : Upload B} {acts : List (Nat × Take B.Input)} {act : Nat × Take B.Input}
    (h : run (Upload.step declared) u acts = some u') (hStep : u'.step declared act = some u'') :
    run (Upload.step declared) u (acts ++ [act]) = some u'' := by
  rw [run_append, h, Option.bind_some, run_cons, hStep, Option.bind_some, run_nil]

theorem forall_concat {ι : Type} {acts : List (Nat × ι)} {take : ι} (h : ∀ act ∈ acts, act.1 = 0) :
    ∀ act ∈ acts ++ [(0, take)], act.1 = 0 := by
  intro act hAct
  obtain hOld | hNew := List.mem_append.mp hAct
  · exact h act hOld
  · rw [List.mem_singleton.mp hNew]

private theorem exists_unsignalled {s : body.State} {delivered : Nat}
    (h : Open body.init body.isEndStream (body.Waits write) body.Frames declared s delivered) :
    ∃ acts : List (Nat × Take (body.intoHttpBody write).Input), (∀ act ∈ acts, act.1 = 0) ∧
      ∃ u, run (Upload.step declared) ({} : Upload (body.intoHttpBody write)) acts = some u ∧ Unsignalled s delivered u := by
  induction h with
  | start hEnd hReached =>
    have hInit : (body.intoHttpBody write).isEndStream (body.intoHttpBody write).init = false := hEnd
    refine ⟨[(0, .isEndStream)], by simp, Upload.inspect declared 0 {}, rfl, ?_⟩
    have hInspected : Upload.inspect declared 0 ({} : Upload (body.intoHttpBody write)) = { inspected := true } := by
      simp [Upload.inspect, HyperRequestBody.isEndStream_eq, hInit, hReached]
    rw [hInspected]
    exact ⟨rfl, rfl, rfl, rfl, rfl, rfl, rfl, rfl, rfl, rfl, rfl⟩
  | @wait s s' delivered hOpen hWaits ih =>
    obtain ⟨hWrite, input, hPoll⟩ := hWaits
    obtain ⟨acts, hActs, u, hRun, hU⟩ := ih
    refine ⟨acts ++ [(0, .pollFrame input)], forall_concat hActs, _, run_concat hRun (hU.step hOpen.not_reached input), ?_⟩
    have hWrapped : (body.intoHttpBody write).pollFrame 0 input u.body.inner =
        (.pending, { u.body.inner.start write 0 with inner := s' }) := by
      have hLeft : ¬(write.map (0 + ·)).any (· ≤ 0) = true := by
        cases write with
        | none => simp
        | some w => simpa using hWrite
      simp only [NativeBody.intoHttpBody, hU.done, hU.inner, hPoll, hU.timer, Bool.false_eq_true, if_false]
      rw [if_neg hLeft]
    rw [Upload.receive_pending hWrapped]
    exact ⟨rfl, hU.inspected, hU.delivered, hU.ended, hU.failed, hU.dropped, hU.taken, hU.waiting, rfl,
      NativeRequestBody.start_inner.2.trans hU.done, start_timer hU.timer⟩
  | @frame s s' delivered frame hOpen hFrames hEnd hReached ih =>
    obtain ⟨input, hPoll⟩ := hFrames
    obtain ⟨acts, hActs, u, hRun, hU⟩ := ih
    refine ⟨acts ++ [(0, .pollFrame input)], forall_concat hActs, _, run_concat hRun (hU.step hOpen.not_reached input), ?_⟩
    obtain ⟨hWrapped, hOpenEnd⟩ := hU.frame hPoll
    rw [hEnd] at hOpenEnd
    rw [Upload.receive_frame hWrapped, hOpenEnd, hU.delivered, hReached]
    refine ⟨rfl, hU.inspected, rfl, hU.ended, hU.failed, hU.dropped, hU.taken, hU.waiting, rfl,
      NativeRequestBody.start_inner.2.trans hU.done, start_timer rfl⟩

/-- All bytes are taken at the start, and the body is dropped without a signal. -/
def Lost {B : HttpBody E} (declared : Option Nat) : Prop :=
  ∃ acts : List (Nat × Take B.Input), (∀ act ∈ acts, act.1 = 0) ∧
    ∃ u, run (Upload.step declared) ({} : Upload B) acts = some u ∧ u.taken = some 0 ∧ u.body.completion = .dropped

/-- A body that Hyper has got all bytes of may be dropped. -/
theorem lost_of_taken {B : HttpBody E} (acts : List (Nat × Take B.Input)) (hActs : ∀ act ∈ acts, act.1 = 0) {u : Upload B}
    (hRun : run (Upload.step declared) ({} : Upload B) acts = some u) (hNow : u.now = 0) (hDropped : u.dropped = false)
    (hTaken : u.taken = some 0) (hWaiting : u.body.completion = .waiting) : Lost (B := B) declared := by
  refine ⟨acts ++ [(0, .drop)], forall_concat hActs, u.discard 0, run_concat hRun ?_, hTaken, ?_⟩
  · simp [Upload.step, hNow, hDropped]
  · exact congrArg HyperRequestBody.dropSender hWaiting

private theorem nativeBody_lost (h : ¬body.SignalsEnd write declared) : Lost (B := body.intoHttpBody write) declared := by
  by_cases hStart : Upload.Reached declared 0 = true → body.isEndStream body.init = true
  · have hFrame : ¬∀ s delivered, Open body.init body.isEndStream (body.Waits write) body.Frames declared s delivered →
        ∀ frame s', body.Frames s frame s' → Upload.Reached declared (delivered + frame) = true → body.isEndStream s' = true :=
      fun hFrame => h ⟨hStart, hFrame⟩
    simp only [not_forall] at hFrame
    obtain ⟨s, delivered, hOpen, frame, s', ⟨input, hPoll⟩, hReached, hEnd⟩ := hFrame
    obtain ⟨acts, hActs, u, hRun, hU⟩ := exists_unsignalled hOpen
    obtain ⟨hWrapped, hOpenEnd⟩ := hU.frame hPoll
    rw [Bool.eq_false_iff.mpr hEnd] at hOpenEnd
    refine lost_of_taken _ (forall_concat hActs) (run_concat hRun (hU.step hOpen.not_reached input)) ?_ ?_ ?_ ?_ <;>
      rw [Upload.receive_frame hWrapped, hOpenEnd, hU.delivered, hReached]
    · exact hU.dropped
    · simp [hU.taken]
    · exact hU.waiting
  · have hReached : Upload.Reached declared 0 = true := by
      by_contra hNot
      exact hStart fun hReached => absurd hReached hNot
    have hEnd : (body.intoHttpBody write).isEndStream (body.intoHttpBody write).init = false := by
      by_contra hInit
      exact hStart fun _ => by simpa [NativeBody.intoHttpBody] using hInit
    refine lost_of_taken [(0, .isEndStream)] (by simp) rfl ?_ ?_ ?_ ?_ <;>
      simp [Upload.inspect, HyperRequestBody.isEndStream_eq, hEnd, hReached]

private theorem streamBody_lost (length : Nat) : Lost (B := (streamBody write : HttpBody E)) (some length) := by
  cases length with
  | zero =>
    refine lost_of_taken [(0, .isEndStream)] (by simp) rfl ?_ ?_ ?_ ?_ <;>
      simp [Upload.inspect, HyperRequestBody.isEndStream_eq, streamBody, Upload.Reached]
  | succ length =>
    -- the one frame is all that is declared, and a stream does not report its end
    let frame : Poll (Option (Except E Nat)) := .ready (some (.ok (length + 1)))
    have hPoll : ∃ me, (streamBody write : HttpBody E).pollFrame 0 frame {} = (.ready (some (.ok (length + 1))), me) := by
      cases write with
      | none | some => exact ⟨_, rfl⟩
    obtain ⟨me, hPoll⟩ := hPoll
    let inspected : Upload (streamBody write : HttpBody E) := { inspected := true }
    have hInspected : Upload.inspect (some (length + 1)) 0 ({} : Upload (streamBody write : HttpBody E)) = inspected := by
      simp [Upload.inspect, HyperRequestBody.isEndStream_eq, streamBody, Upload.Reached, inspected]
    have hReceived : inspected.receive (some (length + 1)) 0 frame = _ := Upload.receive_frame hPoll
    refine lost_of_taken [(0, .isEndStream), (0, .pollFrame frame)] (by simp)
      (u := inspected.receive (some (length + 1)) 0 frame) ?_ ?_ ?_ ?_ ?_
    · rw [← hInspected]
      rfl
    · rw [hReceived]
    · rw [hReceived]
    · rw [hReceived]
      simp [Upload.Reached, inspected]
    · rw [hReceived]
      rfl

theorem SendBody.lost {body : SendBody E} (h : ¬body.SignalsEnd write) : Lost (B := body.intoHttpBody write) body.declared := by
  cases body with
  | native body declared => exact nativeBody_lost h
  | request body =>
    cases body with
    | empty | bytes => exact absurd trivial h
    | stream length =>
      cases length with
      | none => exact absurd trivial h
      | some length => exact streamBody_lost length

end lost

/-- A request whose peer is silent and whose body is all taken when it starts. -/
def stalled {body : SendBody E} {u : Upload (body.intoHttpBody limits.write)}
    {acts : List (Nat × Take (body.intoHttpBody limits.write).Input)} (r : Duration) (hActs : ∀ act ∈ acts, act.1 = 0)
    (hRun : run (Upload.step body.declared) {} acts = some u) : Exchange body limits where
  clock n := if n = 0 then 0 else r
  mono := by
    intro m n hLe
    simp only
    split_ifs <;> omega
  acts n := if n = 0 then acts else []
  upload n := if n = 0 then {} else u
  start := rfl
  next n := by
    cases n with
    | zero => exact hRun
    | succ n => rfl
  timely n act hAct := by
    cases n with
    | zero => simp [hActs act hAct]
    | succ n => cases hAct
  family := .standard
  proxyTls := false
  connectTimeout := none
  peers := silentPeers
  hyper _ := .pending
  passes n phase h := by cases h

private theorem not_punctual {body : SendBody E} (hCounts : limits.ReadCounts) (hSignals : ¬body.SignalsEnd limits.write) :
    ∃ x : Exchange body limits,
      ¬Punctual limits x.connectTimeout x.clock x.Taken x.WaitedSince (fun n => x.hyper n = .pending) x.send := by
  obtain ⟨r, hRead, hTotal⟩ := hCounts
  obtain ⟨acts, hActs, u, hRun, hTaken, hDropped⟩ := SendBody.lost hSignals
  let x := stalled r hActs hRun
  -- neither poll ends the send
  have hGoesOn : ∀ n, n ≤ 1 → ∀ result, ¬x.send.EndsAt x.clock n result := by
    intro n hn result hEnds
    obtain hHyper | ⟨-, _, _, m, hm, t, hSent, -⟩ | ⟨-, total, hLimit, hDue⟩ := x.send_endsAt hEnds
    · cases hHyper
    · obtain rfl | rfl := Nat.le_one_iff_eq_zero_or_eq_one.mp (hm.trans hn)
      · cases hSent
      · rw [show (x.upload 1).body.completion = .dropped from hDropped] at hSent
        cases hSent
    · have hLess := hTotal total hLimit
      have hClock : x.clock n ≤ r := by
        change (if n = 0 then 0 else r) ≤ r
        split_ifs
        · exact Nat.zero_le r
        · exact le_rfl
      have hStart : x.clock 0 = 0 := rfl
      rw [hStart, Nat.zero_add] at hDue
      exact absurd (hDue.trans hClock) (not_le.mpr hLess)
  have hAfter : x.send.after x.clock 1 ≠ none := by
    intro hOver
    obtain ⟨result, hEnds⟩ := Future.exists_endsAt (t := x.send) (by simp [Future.after]) hOver
    exact hGoesOn 0 (Nat.zero_le 1) result hEnds
  refine ⟨x, ?_⟩
  intro hPunctual
  obtain hEnds | ⟨hEnds, -⟩ := hPunctual.fails r hRead 1 0 hTaken (by simp [x, stalled]) rfl hAfter
  · exact hGoesOn 1 le_rfl _ hEnds
  · exact hGoesOn 1 le_rfl _ hEnds

/-- Over the routes of Hyper the limits are kept exactly when the end of the body is signalled or the read limit does not
count. -/
theorem exchange_punctual_iff (body : SendBody E) (limits : Limits) :
    (∀ x : Exchange body limits,
      Punctual limits x.connectTimeout x.clock x.Taken x.WaitedSince (fun n => x.hyper n = .pending) x.send) ↔
      (limits.ReadCounts → body.SignalsEnd limits.write) := by
  constructor
  · intro hAll hCounts
    by_contra hSignals
    obtain ⟨x, hNot⟩ := not_punctual hCounts hSignals
    exact hNot (hAll x)
  · intro h x
    exact x.punctual h

/-- A request on its way through `send_https_connect_request_once`. -/
structure TunnelRun (E : Type) (limits : Limits) where
  clock : Nat → Nat
  mono : Monotone clock
  proxyTls : Bool
  connectTimeout : Option Duration
  peers : Peers E
  /-- What `write_proxy_request` is answered. -/
  upload : Nat → Poll (Except E Unit)
  /-- Since when the body has been waited for once the request is being written. -/
  producer : Nat → Option Nat
  head : Nat → Poll (Except E Unit)

namespace TunnelRun
variable (x : TunnelRun E limits)

def deadline : Option Nat := limits.remainingTotal.map (x.clock 0 + ·)

def ctx : ProxyRequestContext :=
  ⟨x.deadline, x.connectTimeout, x.connectTimeout, x.connectTimeout, limits.write, limits.read⟩

def establish : List (Future.Stage (Established E)) := establishHttpsTunnel x.proxyTls x.ctx x.peers

def writing : List (Future.Stage (Established E)) := x.establish ++ [phaseStage .write x.deadline limits.write x.upload]

def send : Future (Established E) :=
  sendWithTotalTimeout (.stages (.ok ()) (x.writing ++ [phaseStage .read x.deadline limits.read x.head])) limits.remainingTotal

def Taken (n t : Nat) : Prop := ∃ m ≤ n, (Future.stages (.ok ()) x.writing).EndsAt x.clock m (.ok ()) ∧ t = x.clock m

def WaitedSince (n t : Nat) : Prop :=
  (∃ m ≤ n, (Future.stages (.ok ()) x.establish).EndsAt x.clock m (.ok ())) ∧ x.producer n = some t

theorem stages_keep (hWrite : limits.write = none) (hRead : limits.read = none) (hTotal : limits.remainingTotal = none) :
    ∀ stage ∈ x.writing ++ [phaseStage .read x.deadline limits.read x.head],
      stage.Keeps (ConnectElapsed x.connectTimeout (x.clock 0)) (x.clock 0) := by
  have hDeadline : x.deadline = none := by rw [deadline, hTotal]; rfl
  have hConnect : ∀ phase : TimeoutPhase, phase.isConnect = true → ∀ answer : Nat → Poll (Except E Unit),
      (phaseStage phase none x.connectTimeout answer).Keeps (ConnectElapsed x.connectTimeout (x.clock 0)) (x.clock 0) := by
    intro phase hPhase answer
    exact phaseStage_keeps (fun c hc => ⟨hPhase, hc⟩) answer
  have hFree : ∀ phase : TimeoutPhase, ∀ answer : Nat → Poll (Except E Unit),
      (phaseStage phase none none answer).Keeps (ConnectElapsed x.connectTimeout (x.clock 0)) (x.clock 0) := by
    intro phase answer
    exact phaseStage_keeps (by simp) answer
  intro stage hStage
  rw [writing, hDeadline, hWrite, hRead] at hStage
  obtain hStage | hStage := List.mem_append.mp hStage
  · obtain hStage | hStage := List.mem_append.mp hStage
    · rw [establish, ctx, hDeadline, hWrite, hRead] at hStage
      obtain rfl | rfl | rfl | rfl | rfl := mem_establishHttpsTunnel hStage
      · exact hConnect .proxyConnect rfl _
      · exact hConnect .proxyTls rfl _
      · exact hFree .write _
      · exact hFree .read _
      · exact hConnect .connect rfl _
    · obtain rfl := List.mem_singleton.mp hStage
      exact hFree .write _
  · obtain rfl := List.mem_singleton.mp hStage
    exact hFree .read _

private theorem punctual (hWrite : limits.write = none) (hRead : limits.read = none) (hTotal : limits.remainingTotal = none) :
    Punctual limits x.connectTimeout x.clock x.Taken x.WaitedSince (fun n => x.head n = .pending) x.send := by
  have hElapsed : ∀ n phase, x.send.EndsAt x.clock n (.error (.timeout phase)) →
      phase.isConnect = true ∧ ∃ c ∈ x.connectTimeout, x.clock 0 + c ≤ x.clock n := by
    intro n phase hEnds
    obtain hInner | ⟨-, total, hLimit, -⟩ := Future.timeout_endsAt hEnds
    · refine Future.stages_endsAt (A := ConnectElapsed x.connectTimeout (x.clock 0)) x.mono ?_
        (x.stages_keep hWrite hRead hTotal) hInner phase rfl
      intro now phase hPhase
      cases hPhase
    · rw [hTotal] at hLimit
      cases hLimit
  have hNot : ∀ n (phase : TimeoutPhase), phase.isConnect = false → ¬x.send.EndsAt x.clock n (.error (.timeout phase)) := by
    intro n phase hPhase hEnds
    rw [(hElapsed n phase hEnds).1] at hPhase
    cases hPhase
  refine ⟨?_, ?_, ?_, ?_, ?_, ?_⟩
  · intro r hr
    rw [hRead] at hr
    cases hr
  · intro n hEnds
    exact absurd hEnds (hNot n .read rfl)
  · intro n hEnds
    exact absurd hEnds (hNot n .write rfl)
  · intro n hEnds
    exact absurd hEnds (hNot n .total rfl)
  · intro n phase _ hEnds
    exact (hElapsed n phase hEnds).2
  · intro n hEnds
    exact hNot n .pool rfl hEnds

end TunnelRun

/-- A proxy that takes the request for a tunnel and does not answer, or does not even take it. -/
def stuckProxy (takes : Bool) : Peers E :=
  { silentPeers with
    proxyConnect := fun _ => .ready (.ok ())
    connectWrite := fun _ => if takes then .ready (.ok ()) else .pending }

def stuckTunnel (E : Type) (limits : Limits) (takes : Bool) : TunnelRun E limits :=
  ⟨id, monotone_id, false, none, stuckProxy takes, fun _ => .pending, fun _ => none, fun _ => .pending⟩

section stuck
variable (takes : Bool)

theorem stuckTunnel_stages (rest : List (Future.Stage (Established E))) :
    let deadline := (stuckTunnel E limits takes).deadline
    (stuckTunnel E limits takes).establish ++ rest =
      phaseStage .proxyConnect deadline none (stuckProxy takes).proxyConnect ::
        phaseStage .write deadline limits.write (stuckProxy takes).connectWrite ::
          phaseStage .read deadline limits.read (stuckProxy takes).connectRead ::
            phaseStage .connect deadline none (stuckProxy takes).originTls :: rest := rfl

/-- Time is left when the request is sent. -/
theorem stuckTunnel_expiry (limits : Limits) (phase : TimeoutPhase) (configured : Option Duration)
    (answer : Nat → Poll (Except E Unit)) :
    ∃ expiry, (phaseStage phase (stuckTunnel E limits takes).deadline configured answer).expiry 0 = .ok expiry ∧
      (configured.isSome = true ∨ limits.remainingTotal.isSome = true → expiry.isSome = true) ∧
      ∀ x ∈ expiry, ∀ total ∈ limits.remainingTotal, x ≤ total := by
  cases hTotal : limits.remainingTotal with
  | none => exact ⟨configured.map (0 + ·), by simp [phaseStage, TunnelRun.deadline, hTotal, effectiveTimeout], by simp, by simp⟩
  | some total =>
    have hLeft := limits.left total hTotal
    refine ⟨some (configured.elim total (min · total)), ?_, by simp, ?_⟩
    · simp [phaseStage, TunnelRun.deadline, stuckTunnel, hTotal, effectiveTimeout, hLeft]
    · cases configured <;> simp

variable (rest : List (Future.Stage (Established E)))

/-- The proxy never answers the request for a tunnel until the read limit or the total limit has run out. -/
theorem stuckTunnel_read (h : limits.read.isSome = true ∨ limits.remainingTotal.isSome = true) :
    ∃ stages x, (∀ total ∈ limits.remainingTotal, x ≤ total) ∧
    Future.Stuck (.ok ()) id ((stuckTunnel E limits true).establish ++ rest)
      (phaseStage .read (stuckTunnel E limits true).deadline limits.read (stuckProxy true).connectRead) stages x := by
  obtain ⟨connect, hConnect, -, -⟩ := stuckTunnel_expiry true limits .proxyConnect none (stuckProxy (E := E) true).proxyConnect
  obtain ⟨write, hWrite, -, -⟩ := stuckTunnel_expiry true limits .write limits.write (stuckProxy (E := E) true).connectWrite
  obtain ⟨read, hRead, hSome, hTotal⟩ := stuckTunnel_expiry true limits .read limits.read (stuckProxy (E := E) true).connectRead
  obtain ⟨x, rfl⟩ := Option.isSome_iff_exists.mp (hSome h)
  refine ⟨phaseStage .connect (stuckTunnel E limits true).deadline none (stuckProxy true).originTls :: rest, x, hTotal x rfl, ?_,
    fun _ => rfl, hRead⟩
  rw [stuckTunnel_stages]
  exact (Future.pollStages_ready hConnect rfl).trans (Future.pollStages_ready hWrite rfl)

private theorem stuckTunnel_write (h : limits.write.isSome = true) :
    ∃ stages x, (∀ total ∈ limits.remainingTotal, x ≤ total) ∧
    Future.Stuck (.ok ()) id ((stuckTunnel E limits false).establish ++ rest)
      (phaseStage .write (stuckTunnel E limits false).deadline limits.write (stuckProxy false).connectWrite) stages x := by
  obtain ⟨connect, hConnect, -, -⟩ := stuckTunnel_expiry false limits .proxyConnect none (stuckProxy (E := E) false).proxyConnect
  obtain ⟨write, hWrite, hSome, hTotal⟩ :=
    stuckTunnel_expiry false limits .write limits.write (stuckProxy (E := E) false).connectWrite
  obtain ⟨x, rfl⟩ := Option.isSome_iff_exists.mp (hSome (.inl h))
  refine ⟨phaseStage .read (stuckTunnel E limits false).deadline limits.read (stuckProxy false).connectRead ::
    phaseStage .connect (stuckTunnel E limits false).deadline none (stuckProxy false).originTls :: rest, x, hTotal x rfl, ?_,
    fun _ => rfl, hWrite⟩
  rw [stuckTunnel_stages]
  exact Future.pollStages_ready hConnect rfl

end stuck

private theorem stuckTunnel_endsAt {takes : Bool} {stage : Future.Stage (Established E)}
    {stages : List (Future.Stage (Established E))} {x : Nat}
    (hTotal : ∀ total ∈ limits.remainingTotal, x ≤ total)
    (hStuck : Future.Stuck (.ok ()) id ((stuckTunnel E limits takes).writing ++
      [phaseStage .read (stuckTunnel E limits takes).deadline limits.read (stuckTunnel E limits takes).head]) stage stages x) :
    (stuckTunnel E limits takes).send.EndsAt id x stage.expired := by
  refine Future.timeout_endsAt_of_endsAt (hStuck.endsAt (fun m hm => hm) le_rfl) ?_
  intro total hLimit m hm
  have hLe := hTotal total hLimit
  simp only [id]
  omega

private theorem tunnel_limits (hAll : ∀ x : TunnelRun E limits,
    Punctual limits x.connectTimeout x.clock x.Taken x.WaitedSince (fun n => x.head n = .pending) x.send) :
    limits.write = none ∧ limits.read = none ∧ limits.remainingTotal = none := by
  have hNoRead : ¬(limits.read.isSome = true ∨ limits.remainingTotal.isSome = true) := by
    intro h
    obtain ⟨stages, x, hTotal, hStuck⟩ := stuckTunnel_read (E := E) _ h
    rw [← List.append_assoc] at hStuck
    obtain ⟨r, -, t, ⟨m, -, hEnds, -⟩, -⟩ := (hAll (stuckTunnel E limits true)).read x (stuckTunnel_endsAt hTotal hStuck)
    -- the request is never written
    obtain ⟨stages, x, -, hStuck⟩ := stuckTunnel_read (E := E)
      [phaseStage .write (stuckTunnel E limits true).deadline limits.write (stuckTunnel E limits true).upload] h
    cases hStuck.eq_expired hEnds
  have hNoWrite : limits.write.isSome ≠ true := by
    intro h
    obtain ⟨stages, x, hTotal, hStuck⟩ := stuckTunnel_write (E := E) _ h
    rw [← List.append_assoc] at hStuck
    obtain ⟨w, -, since, ⟨⟨m, -, hEnds⟩, -⟩, -⟩ := (hAll (stuckTunnel E limits false)).write x (stuckTunnel_endsAt hTotal hStuck)
    obtain ⟨stages, x, -, hStuck⟩ := stuckTunnel_write (E := E) [] h
    rw [List.append_nil] at hStuck
    cases hStuck.eq_expired hEnds
  rw [not_or] at hNoRead
  exact ⟨by simpa using hNoWrite, by simpa using hNoRead.1, by simpa using hNoRead.2⟩

private theorem tunnel_punctual_iff (E : Type) (limits : Limits) :
    (∀ x : TunnelRun E limits,
      Punctual limits x.connectTimeout x.clock x.Taken x.WaitedSince (fun n => x.head n = .pending) x.send) ↔
      limits.write = none ∧ limits.read = none ∧ limits.remainingTotal = none :=
  ⟨tunnel_limits, fun ⟨hWrite, hRead, hTotal⟩ x => x.punctual hWrite hRead hTotal⟩

/-- Whether Hyper sends the request or `send_https_connect_request_once` does. -/
inductive SendRoute
  | hyper
  | tunnel

/-- Whatever the producer, the peers and Hyper do, the limits are kept and named rightly. -/
def SendRoute.KeepsLimits (body : SendBody E) (limits : Limits) : SendRoute → Prop
  | .hyper => ∀ x : Exchange body limits,
      Punctual limits x.connectTimeout x.clock x.Taken x.WaitedSince (fun n => x.hyper n = .pending) x.send
  | .tunnel => ∀ x : TunnelRun E limits,
      Punctual limits x.connectTimeout x.clock x.Taken x.WaitedSince (fun n => x.head n = .pending) x.send

def SendRoute.Suits (body : SendBody E) (limits : Limits) : SendRoute → Prop
  | .hyper => limits.ReadCounts → body.SignalsEnd limits.write
  | .tunnel => limits.write = none ∧ limits.read = none ∧ limits.remainingTotal = none

theorem keepsLimits_iff (route : SendRoute) (body : SendBody E) (limits : Limits) :
    route.KeepsLimits body limits ↔ route.Suits body limits := by
  cases route with
  | hyper => exact exchange_punctual_iff body limits
  | tunnel => exact tunnel_punctual_iff E limits

/-- A stream of one byte that says so waits for its response head for ever. -/
theorem not_keepsLimits : ¬∀ (route : SendRoute) (body : SendBody Unit) (limits : Limits), route.KeepsLimits body limits := by
  intro h
  have hHyper := h .hyper (.request (.stream (some 1))) ⟨none, some 1, none, by simp⟩
  have hSignals := (exchange_punctual_iff _ _).mp hHyper
  exact hSignals ⟨1, rfl, by simp⟩

end Eggfetch.Transport
