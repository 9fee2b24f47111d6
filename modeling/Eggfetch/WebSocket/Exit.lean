import Eggfetch.Transition.Fair
import Eggfetch.WebSocket.Session

/-! Leaving the context manager. `__exit__` closes the session and joins the background threads.
Every wait of theirs ends with the close flag but one: a `put` into a full queue waits for a
reader. -/
namespace Eggfetch.WebSocket
open Transition

/-- The code of a background thread neither reads the queue nor joins a thread. -/
def Code.Background : Code → Prop
  | .done | .whileOpen _ => True
  | .setShouldClose next | .closeStream next | .event _ next | .put _ next => next.Background
  | .connectionState next => ∀ state, (next state).Background
  | .send _ next => ∀ sent, (next sent).Background
  | .readStream next => ∀ result, (next result).Background
  | .receiveData next => ∀ taken, (next taken).Background
  | .wait _ next => ∀ result, (next result).Background
  | .pingId next => ∀ data, (next data).Background
  | .get _ | .join _ _ => False

def Code.Guarded : Code → Prop
  | .done | .whileOpen _ | .get _ | .setShouldClose _ => True
  | .closeStream next | .event _ next | .put _ next => next.Guarded
  | .connectionState next => ∀ state, (next state).Guarded
  | .send _ next => ∀ sent, (next sent).Guarded
  | .readStream next => ∀ result, (next result).Guarded
  | .receiveData next => ∀ taken, (next taken).Guarded
  | .wait _ next => ∀ result, (next result).Guarded
  | .pingId next => ∀ data, (next data).Guarded
  | .join _ _ => False

def Running.Background : Running → Prop
  | .ready code => code.Background
  | .writing _ next => ∀ sent, (next sent).Background

def Running.Guarded : Running → Prop
  | .ready code => code.Guarded
  | .writing _ next => ∀ sent, (next sent).Guarded

theorem Code.Background.guarded {code : Code} (h : code.Background) : code.Guarded := by
  induction code with
  | done | whileOpen loop | get timed | setShouldClose next ih => trivial
  | closeStream next ih | event event next ih | put item next ih => exact ih h
  | connectionState next ih | send event next ih | readStream next ih | receiveData next ih
  | wait callable next ih | pingId next ih => exact fun result => ih result (h result)
  | join thread next ih => exact absurd h id

section Methods
variable {next : Code}

theorem close_background (code : Nat) (reason : Option String) (h : next.Background) :
    (close code reason next).Background := by
  intro state
  unfold closeInState
  split
  · exact h
  · intro sent
    cases sent with
    | refused => trivial
    | written => exact h
    | streamError => exact h

theorem send_background (event : Outgoing) (h : next.Background) : (send event next).Background := by
  intro sent
  cases sent with
  | refused => trivial
  | written => exact h
  | streamError => exact close_background _ _ trivial

theorem ping_background (payload : List UInt8) (h : next.Background) :
    (ping payload next).Background := by
  unfold ping
  split
  · exact fun id => send_background _ h
  · exact send_background _ h

theorem streamFailed_background : streamFailed.Background := close_background _ _ trivial

private theorem handleMessage_background (maxBytes : Nat) (text : Bool) (data : List UInt8)
    (finished : Bool) (held : Fragments) {next : Fragments → Code}
    (h : ∀ held, (next held).Background) :
    (handleMessage maxBytes text data finished held next).Background := by
  unfold handleMessage
  split
  · exact close_background _ _ trivial
  · split
    · exact h _
    · exact h _

private theorem handleEvent_background (maxBytes : Nat) (held : Fragments) {next : Fragments → Code}
    (event : Incoming) (h : ∀ held, (next held).Background) :
    (handleEvent maxBytes held next event).Background := by
  cases event with
  | pong payload => exact h held
  | closeConnection code => exact h held
  | parseFailed code => exact h held
  | ping payload =>
    intro sent
    cases sent with
    | refused => trivial
    | written => exact h held
    | streamError => exact streamFailed_background
  | message text data finished => exact handleMessage_background maxBytes text data finished held h

private theorem handleEvents_background (maxBytes : Nat) (events : List Incoming) (held : Fragments) :
    (handleEvents maxBytes events held).Background := by
  induction events generalizing held with
  | nil => trivial
  | cons event rest ih => exact handleEvent_background maxBytes held event ih

theorem body_background (cfg : Config) (loop : Loop) : (body cfg loop).Background := by
  cases loop with
  | receive held =>
    intro result
    cases result with
    | shouldClose => trivial
    | endOfStream => exact streamFailed_background
    | streamError => exact streamFailed_background
    | data events =>
      intro taken
      cases taken with
      | false => trivial
      | true => exact handleEvents_background _ events held
  | keepalivePing =>
    intro result
    cases result with
    | shouldClose => trivial
    | result value =>
      cases value with
      | true => trivial
      | false =>
        refine ping_background [] ?_
        split
        · intro pong
          cases pong with
          | shouldClose => trivial
          | result value =>
            cases value with
            | true => trivial
            | false => exact close_background _ _ trivial
        · trivial

theorem method_guarded (cfg : Config) (method : Method) : (method.code cfg).Guarded := by
  have hDone : Code.done.Background := trivial
  cases method with
  | send event => exact (send_background event hDone).guarded
  | ping payload => exact (ping_background payload hDone).guarded
  | receive timed => trivial
  | close code reason => trivial
  | exit => trivial

end Methods

section Keeps
variable {W : Connection} {cfg : Config} {ended : Thread → Bool} {s s' : Shared} {choice : Choice}
  {r r' : Running}

theorem stepThread_background (h : stepThread W cfg ended s choice r = some (s', r'))
    (hr : r.Background) : r'.Background := by
  cases r with
  | writing frame next =>
    rcases writeFrame_eq h with ⟨-, -, rfl⟩ | ⟨n, -, rfl⟩
    · exact hr .written
    · exact hr .streamError
  | ready code =>
    cases stepThread_steps h with
    | setShouldClose | closeStream | event | put => exact hr
    | connectionState => exact hr _
    | refused => exact hr .refused
    | produced => exact hr
    | closed => trivial
    | opened => exact body_background cfg _
    | readStream result | wait result => exact hr result
    | receiveData => exact hr _
    | pingId data => exact hr data
    | get | timedOut | join => exact absurd hr id

private theorem stepThread_guarded (h : stepThread W cfg ended s choice r = some (s', r'))
    (hr : r.Guarded) : s'.shouldClose = true ∨ r'.Guarded := by
  cases r with
  | writing frame next =>
    rcases writeFrame_eq h with ⟨-, -, rfl⟩ | ⟨n, -, rfl⟩
    · exact .inr (hr .written)
    · exact .inr (hr .streamError)
  | ready code =>
    cases stepThread_steps h with
    | setShouldClose => exact .inl rfl
    | closeStream | event | put => exact .inr hr
    | connectionState => exact .inr (hr _)
    | refused => exact .inr (hr .refused)
    | produced => exact .inr hr
    | closed | get | timedOut => exact .inr trivial
    | opened => exact .inr (body_background cfg _).guarded
    | readStream result | wait result => exact .inr (hr result)
    | receiveData => exact .inr (hr _)
    | pingId data => exact .inr (hr data)
    | join => exact absurd hr id

theorem stepThread_shouldClose (h : stepThread W cfg ended s choice r = some (s', r'))
    (hClose : s.shouldClose = true) : s'.shouldClose = true := by
  cases r with
  | writing frame next =>
    rcases writeFrame_eq h with ⟨-, rfl, -⟩ | ⟨n, rfl, -⟩
    · exact hClose
    · exact hClose
  | ready code =>
    cases stepThread_steps h with
    | setShouldClose => rfl
    | connectionState | refused | produced | closeStream | closed | opened | readStream
    | receiveData | event | put | wait | pingId | get | timedOut | join => exact hClose

end Keeps
/-- The threads that `__exit__` joins. -/
def Thread.background : Thread → Bool
  | .receiver | .keepalive => true
  | .user _ => false

structure Sound (s : Session) : Prop where
  background : ∀ thread, thread.background = true → (s.threads thread).Background
  guarded : ∀ thread, s.shared.shouldClose = true ∨ (s.threads thread).Guarded

/-- `close` has returned to `__exit__`, which waits in a join. -/
def Exiting (s : Session) : Prop :=
  ∃ i thread next, s.threads (.user i) = .ready (.join thread next)

def Runs (thread : Thread) (action : Action) : Prop := ∃ choice, action = .run thread choice

/-- It stands at a `put`, and the queue has no room. -/
def Blocked (cfg : Config) (thread : Thread) (s : Session) : Prop :=
  ∃ item next, s.threads thread = .ready (.put item next) ∧ hasRoom cfg s.shared.events = false

def Live (W : Connection) (cfg : Config) (thread : Thread) (s : Session) : Prop :=
  s.ended thread = true ∨ Enabled (step W cfg) (Runs thread) s

/-- `r'` is what one step leaves of `r` once the flag is set. -/
def Follows (r' r : Running) : Prop :=
  ∃ W cfg ended s s' choice, s.shouldClose = true ∧
    stepThread W cfg ended s choice r = some (s', r')

section Sessions
variable {W : Connection} {cfg : Config} {s s' : Session} {action : Action} {thread : Thread}

private theorem sound_start : Sound (start cfg) where
  background thread h := by
    cases thread with
    | receiver => trivial
    | keepalive =>
      simp only [start, startThread]
      split
      · trivial
      · trivial
    | user i => cases h
  guarded thread := by
    right
    cases thread with
    | receiver => trivial
    | keepalive =>
      simp only [start, startThread]
      split
      · trivial
      · trivial
    | user i => trivial

theorem step_shouldClose (h : step W cfg s action = some s') (hClose : s.shared.shouldClose = true) :
    s'.shared.shouldClose = true := by
  cases action with
  | call i method =>
    obtain ⟨-, rfl⟩ := step_call h
    exact hClose
  | run thread choice =>
    obtain ⟨⟨shared, r'⟩, hResult, rfl⟩ := step_run h
    exact stepThread_shouldClose hResult hClose

theorem Sound.step (hSound : Sound s) (h : WebSocket.step W cfg s action = some s') : Sound s' := by
  cases action with
  | call i method =>
    obtain ⟨-, rfl⟩ := step_call h
    constructor
    · intro other hOther
      cases other with
      | receiver => exact hSound.background .receiver rfl
      | keepalive => exact hSound.background .keepalive rfl
      | user j => cases hOther
    · intro other
      by_cases hSame : other = .user i
      · rw [hSame, resume_self]
        exact .inr (method_guarded cfg method)
      · rw [resume_other s _ hSame]
        exact hSound.guarded other
  | run thread choice =>
    obtain ⟨⟨shared, r'⟩, hResult, rfl⟩ := step_run h
    constructor
    · intro other hOther
      by_cases hSame : other = thread
      · rw [hSame, resume_self]
        rw [hSame] at hOther
        exact stepThread_background hResult (hSound.background thread hOther)
      · rw [resume_other s _ hSame]
        exact hSound.background other hOther
    · intro other
      rcases hSound.guarded thread with hClose | hGuarded
      · exact .inl (stepThread_shouldClose hResult hClose)
      · rcases stepThread_guarded hResult hGuarded with hClose | hGuarded'
        · exact .inl hClose
        · by_cases hSame : other = thread
          · rw [hSame, resume_self]
            exact .inr hGuarded'
          · rw [resume_other s _ hSame]
            rcases hSound.guarded other with hClose | hOther
            · exact .inl (stepThread_shouldClose hResult hClose)
            · exact .inr hOther

theorem sound_of_reachable (h : Reachable (WebSocket.step W cfg) (start cfg) s) : Sound s :=
  h.invariant sound_start fun _ hSound _ hStep => hSound.step hStep

/-- The join comes after `close`, which sets the flag first. -/
theorem Sound.shouldClose (hSound : Sound s) (hExiting : Exiting s) :
    s.shared.shouldClose = true := by
  obtain ⟨i, thread, next, hJoin⟩ := hExiting
  rcases hSound.guarded (.user i) with hClose | hGuarded
  · exact hClose
  · rw [hJoin] at hGuarded
    exact absurd hGuarded id

private theorem enabled_runs {choice : Choice}
    (h : (stepThread W cfg s.ended s.shared choice (s.threads thread)).isSome = true) :
    Enabled (WebSocket.step W cfg) (Runs thread) s := by
  obtain ⟨result, hResult⟩ := Option.isSome_iff_exists.mp h
  exact ⟨.run thread choice, s.resume thread result, ⟨choice, rfl⟩, by simp [WebSocket.step, hResult]⟩

private theorem live_of_not_blocked (hClose : s.shared.shouldClose = true)
    (hBackground : (s.threads thread).Background) (hFree : ¬ Blocked cfg thread s) :
    Live W cfg thread s := by
  suffices hStep : ∃ choice, s.ended thread = true ∨
      (stepThread W cfg s.ended s.shared choice (s.threads thread)).isSome = true by
    obtain ⟨choice, hEnded | hStep⟩ := hStep
    · exact .inl hEnded
    · exact .inr (enabled_runs hStep)
  unfold Session.ended
  cases hThread : s.threads thread with
  | writing frame next => exact ⟨.fails 0, .inr rfl⟩
  | ready code =>
    rw [hThread] at hBackground
    cases code with
    | done => exact ⟨.go, .inl rfl⟩
    | setShouldClose | connectionState | closeStream | whileOpen | receiveData | event =>
      exact ⟨.go, .inr rfl⟩
    | send event next =>
      refine ⟨.bytes [], .inr ?_⟩
      cases hSend : W.send s.shared.connection event <;> simp [stepThread, stepCode, produce, hSend]
    | readStream next =>
      exact ⟨.read .shouldClose, .inr (by simp [stepThread, stepCode, waitRead, hClose])⟩
    | put item next =>
      have hRoom : hasRoom cfg s.shared.events = true := by
        by_contra hFull
        exact hFree ⟨item, next, hThread, by simpa using hFull⟩
      exact ⟨.go, .inr (by simp [stepThread, stepCode, onGo, hRoom])⟩
    | wait callable next =>
      refine ⟨.waited .shouldClose, .inr ?_⟩
      simp [stepThread, stepCode, waitFor, allowed, hClose]
    | pingId next => exact ⟨.bytes [], .inr rfl⟩
    | get timed => exact absurd hBackground id
    | join other next => exact absurd hBackground id

theorem not_live_of_blocked (hBlocked : Blocked cfg thread s) : ¬ Live W cfg thread s := by
  obtain ⟨item, next, hThread, hFull⟩ := hBlocked
  rintro (hEnded | ⟨action, s', ⟨choice, rfl⟩, hStep⟩)
  · rw [Session.ended, hThread] at hEnded
    cases hEnded
  · obtain ⟨⟨shared, r'⟩, hResult, -⟩ := step_run hStep
    rw [hThread] at hResult
    cases stepThread_steps hResult with
    | put hRoom =>
      rw [hFull] at hRoom
      cases hRoom

private theorem follows_wellFounded : WellFounded Follows := by
  have hWriting : ∀ {frame next}, (∀ sent, Acc Follows (.ready (next sent))) →
      Acc Follows (.writing frame next) := by
    intro frame next ih
    constructor
    rintro r' ⟨W, cfg, ended, s, s', choice, -, hStep⟩
    rcases writeFrame_eq hStep with ⟨-, -, rfl⟩ | ⟨n, -, rfl⟩
    · exact ih .written
    · exact ih .streamError
  have hDone : Acc Follows (.ready .done) := by
    constructor
    rintro r' ⟨W, cfg, ended, s, s', choice, -, hStep⟩
    cases hStep
  have hReady : ∀ code, Acc Follows (.ready code) := by
    intro code
    induction code with
    | done => exact hDone
    | setShouldClose _ ih | closeStream _ ih | event _ _ ih | put _ _ ih | join _ _ ih =>
      constructor
      rintro r' ⟨W, cfg, ended, s, s', choice, -, hStep⟩
      cases stepThread_steps hStep
      exact ih
    | connectionState _ ih | readStream _ ih | receiveData _ ih | wait _ _ ih | pingId _ ih =>
      constructor
      rintro r' ⟨W, cfg, ended, s, s', choice, -, hStep⟩
      cases stepThread_steps hStep
      exact ih _
    | send event next ih =>
      constructor
      rintro r' ⟨W, cfg, ended, s, s', choice, -, hStep⟩
      cases stepThread_steps hStep with
      | refused => exact ih .refused
      | produced => exact hWriting ih
    | whileOpen loop =>
      constructor
      rintro r' ⟨W, cfg, ended, s, s', choice, hClose, hStep⟩
      cases stepThread_steps hStep with
      | closed => exact hDone
      | opened hOpen =>
        rw [hClose] at hOpen
        cases hOpen
    | get timed =>
      constructor
      rintro r' ⟨W, cfg, ended, s, s', choice, -, hStep⟩
      cases stepThread_steps hStep with
      | get => exact hDone
      | timedOut => exact hDone
  constructor
  intro r
  cases r with
  | ready code => exact hReady code
  | writing frame next => exact hWriting fun sent => hReady (next sent)

private theorem step_other (h : step W cfg s action = some s') (hThread : thread.background = true)
    (hOther : ¬ Runs thread action) : s'.threads thread = s.threads thread := by
  cases action with
  | call i method =>
    obtain ⟨-, rfl⟩ := step_call h
    cases thread with
    | receiver | keepalive => rfl
    | user j => cases hThread
  | run other choice =>
    obtain ⟨result, -, rfl⟩ := step_run h
    refine resume_other s result ?_
    rintro rfl
    exact hOther ⟨choice, rfl⟩

private theorem step_follows (h : step W cfg s action = some s') (hClose : s.shared.shouldClose = true)
    (hMine : Runs thread action) : Follows (s'.threads thread) (s.threads thread) := by
  obtain ⟨choice, rfl⟩ := hMine
  obtain ⟨⟨shared, r'⟩, hResult, rfl⟩ := step_run h
  rw [resume_self]
  exact ⟨W, cfg, s.ended, s.shared, shared, choice, hClose, hResult⟩

end Sessions

/-- Once `close` has returned to `__exit__`, a background thread always has a step until it ends,
and ends, exactly in the runs in which it never stands at a full queue. -/
theorem join_returns_iff (W : Connection) (cfg : Config) (trace : Trace (step W cfg))
    (hReach : Reachable (step W cfg) (start cfg) (trace.state 0)) (hExiting : Exiting (trace.state 0))
    (thread : Thread) (hThread : thread.background = true) (hFair : trace.Fair (Runs thread)) :
    ((∀ n, Live W cfg thread (trace.state n)) ∧ ∃ n, (trace.state n).ended thread = true) ↔
      ∀ n, ¬ Blocked cfg thread (trace.state n) := by
  have hSound : ∀ n, Sound (trace.state n) := fun n => sound_of_reachable (trace.reachable hReach n)
  have hClose : ∀ n, (trace.state n).shared.shouldClose = true := fun n =>
    trace.always (fun hs hStep => step_shouldClose hStep hs) (Nat.zero_le n)
      ((hSound 0).shouldClose hExiting)
  constructor
  · rintro ⟨hLive, -⟩ n hBlocked
    exact not_live_of_blocked hBlocked (hLive n)
  · intro hFree
    have hLive : ∀ n, Live W cfg thread (trace.state n) := fun n =>
      live_of_not_blocked (hClose n) ((hSound n).background thread hThread) (hFree n)
    refine ⟨hLive, ?_⟩
    obtain ⟨n, -, hRest⟩ := trace.rests follows_wellFounded (fun s => s.threads thread)
      (fun hs hStep => step_shouldClose hStep hs)
      (fun hOther _ hStep => step_other hStep hThread hOther)
      (fun hMine hs hStep => step_follows hStep hs hMine) (hClose 0)
    obtain ⟨m, -, hStopped⟩ := hFair.disabled hRest
    exact ⟨m, (hLive m).resolve_right hStopped⟩

def smallConfig : Config := ⟨1, 65536, false, false⟩

/-- `__exit__` up to its first join. -/
def exiting : List Action :=
  [.call 0 .exit, .run (.user 0) .go, .run (.user 0) .go, .run (.user 0) (.bytes [136]),
    .run (.user 0) .go, .run (.user 0) .go]

/-- The receive thread waits for bytes when the user leaves, and ends with the flag. -/
theorem join_returns_waiting : ∃ trace : Trace (step wsproto smallConfig),
    Exiting (trace.state 0) ∧ (trace.state 0).ended .receiver = false ∧
      ∃ n, (trace.state n).ended .receiver = true := by
  obtain ⟨s, hRun, hJoin, hRead⟩ : ∃ s,
      run (step wsproto smallConfig) (start smallConfig) (.run .receiver .go :: exiting) = some s ∧
      s.threads (.user 0) = .ready (.join .receiver .done) ∧
      s.threads .receiver = .ready (.readStream (afterRead 65536 ⟨none, 0⟩)) := ⟨_, rfl, rfl, rfl⟩
  have hExiting : Exiting s := ⟨0, .receiver, .done, hJoin⟩
  have hReach : Reachable (step wsproto smallConfig) (start smallConfig) s := Reaches.start.run hRun
  have hClose : s.shared.shouldClose = true := (sound_of_reachable hReach).shouldClose hExiting
  have hStep : step wsproto smallConfig s (.run .receiver (.read .shouldClose)) =
      some (s.resume .receiver (s.shared, .ready .done)) := by
    simp [step, hRead, stepThread, stepCode, waitRead, hClose, afterRead]
  have hStopped : ¬ Enabled (step wsproto smallConfig) (Runs .receiver)
      (s.resume .receiver (s.shared, .ready .done)) := by
    rintro ⟨action, s', ⟨choice, rfl⟩, hNext⟩
    obtain ⟨result, hResult, -⟩ := step_run hNext
    rw [resume_self] at hResult
    cases hResult
  have hFree : ∀ n, ¬ Blocked smallConfig .receiver ((Trace.once hStep).state n) := by
    rintro n ⟨item, next, hPut, -⟩
    by_cases hn : n = 0
    · rw [hn, Trace.once_start, hRead] at hPut
      cases hPut
    · rw [Trace.once_later hStep hn, resume_self] at hPut
      cases hPut
  have hEnds := (join_returns_iff wsproto smallConfig (Trace.once hStep) hReach hExiting .receiver rfl
    (Trace.once_fair hStep hStopped)).mpr hFree
  have hRunning : s.ended .receiver = false := by
    rw [Session.ended, hRead]
    rfl
  exact ⟨Trace.once hStep, hExiting, hRunning, hEnds.2⟩

/-- The server sends two messages that nobody reads, and the user leaves. -/
def leavingUnread : List Action :=
  [.run .receiver .go,
    .run .receiver (.read (.data [.message true [97] true, .message true [98] true])),
    .run .receiver .go, .run .receiver .go, .run .receiver .go, .run .receiver .go] ++ exiting

/-- The receive thread waits at the full queue, `__exit__` waits for the receive thread, and no
thread has a step. -/
theorem not_join_returns :
    (∃ s, Reachable (step wsproto smallConfig) (start smallConfig) s ∧ Exiting s ∧
      s.ended .receiver = false ∧ ∀ thread choice, step wsproto smallConfig s (.run thread choice) = none) ∧
    ¬ ∀ (W : Connection) (cfg : Config) (s : Session), W.Lawful →
      Reachable (step W cfg) (start cfg) s → Exiting s → Live W cfg .receiver s := by
  obtain ⟨s, hRun, hJoin, hPut, hFull, hOthers⟩ : ∃ s,
      run (step wsproto smallConfig) (start smallConfig) leavingUnread = some s ∧
      s.threads (.user 0) = .ready (.join .receiver .done) ∧
      s.threads .receiver = .ready (.put (.message true [98]) (.whileOpen (.receive ⟨none, 0⟩))) ∧
      hasRoom smallConfig s.shared.events = false ∧
      ∀ thread, thread ≠ .receiver → thread ≠ .user 0 → s.threads thread = .ready .done := by
    refine ⟨_, rfl, rfl, rfl, rfl, ?_⟩
    intro thread hReceiver hUser
    cases thread with
    | receiver => exact absurd rfl hReceiver
    | keepalive => rfl
    | user i =>
      have hNe : i ≠ 0 := fun h => hUser (h ▸ rfl)
      simp [start, startThread, Session.resume, hNe]
  have hReach : Reachable (step wsproto smallConfig) (start smallConfig) s := Reaches.start.run hRun
  have hExiting : Exiting s := ⟨0, .receiver, .done, hJoin⟩
  have hBlocked : Blocked smallConfig .receiver s := ⟨_, _, hPut, hFull⟩
  have hRunning : s.ended .receiver = false := by rw [Session.ended, hPut]; rfl
  refine ⟨⟨s, hReach, hExiting, hRunning, ?_⟩, ?_⟩
  · intro thread choice
    by_cases hReceiver : thread = .receiver
    · simp [hReceiver, step, hPut, stepThread, stepCode, hFull]
    · by_cases hUser : thread = .user 0
      · simp [hUser, step, hJoin, stepThread, stepCode, hRunning]
      · simp [step, hOthers thread hReceiver hUser, stepThread, stepCode]
  · intro hAll
    exact not_live_of_blocked hBlocked (hAll wsproto smallConfig s wsproto_lawful hReach hExiting)

end Eggfetch.WebSocket
