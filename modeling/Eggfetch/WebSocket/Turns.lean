import Eggfetch.WebSocket.Owned

/-! Turns of the two peers. A write or a close that is due can be completed by the client alone,
unless the read worker holds the mutex of the stream while it waits for the server. -/
namespace Eggfetch.WebSocket
open Transition

/-- The read worker holds the mutex, and the server has sent nothing that is unread. -/
def AwaitsPeer (s : Locked) : Prop := s.worker = .reading ∧ s.inbound = []

def Running.Pending (r : Running) : Prop :=
  (∃ frame next, r = .writing frame next) ∨ ∃ next, r = .ready (.closeStream next)

/-- A write takes its frame unless the stream has failed before. -/
def attempt (s : Session) (thread : Thread) : Choice :=
  match s.threads thread with
  | .writing _ _ => if s.shared.torn = none then .go else .fails 0
  | .ready _ => .go

/-- Steps of the client alone bring the thread to its socket operation, and complete it. -/
def CanComplete (W : Connection) (cfg : Config) (server : Server) (s : Locked) (thread : Thread) :
    Prop :=
  ∃ s' s'', Reaches (Locked.step W cfg server) (fun _ action => action.client = true) s s' ∧
    s'.step W cfg server (.socket thread (attempt s'.session thread)) = some s''

/-- Steps that the holder of the mutex still takes before it releases it. -/
def Phase.toRelease : Phase → Nat
  | .writing | .closing => 2
  | .written | .shut => 1
  | .outside | .writeLocked | .unlocked => 0

def Worker.toRelease : Worker → Nat
  | .reading => 2
  | .read _ => 1
  | .idle | .submitted | .finished _ => 0

/-- Steps that the holder of the write lock still takes before it releases it. -/
def Phase.toUnlock : Phase → Nat
  | .writeLocked => 4
  | .writing => 3
  | .written => 2
  | .unlocked => 1
  | .outside | .closing | .shut => 0

/-- Steps of the thread itself up to its next socket operation. -/
def Phase.toSocket : Phase → Nat
  | .written => 4
  | .shut | .unlocked => 3
  | .outside => 2
  | .writeLocked => 1
  | .writing | .closing => 0

def Locked.streamSteps (s : Locked) : Nat :=
  match s.mutex with
  | none => 0
  | some (.thread thread) => (s.phase thread).toRelease
  | some .worker => s.worker.toRelease

def Locked.writeSteps (s : Locked) : Nat :=
  match s.writeLock with
  | none => 0
  | some thread => (s.phase thread).toUnlock

/-- The thread waits for the write lock, and its holder for the mutex. -/
def Locked.stepsLeft (s : Locked) (thread : Thread) : Nat :=
  100 * (s.phase thread).toSocket + 10 * s.writeSteps + s.streamSteps

private theorem toRelease_le (phase : Phase) : phase.toRelease ≤ 2 := by cases phase <;> decide

private theorem worker_toRelease_le (worker : Worker) : worker.toRelease ≤ 2 := by
  cases worker <;> simp [Worker.toRelease]

private theorem toUnlock_le (phase : Phase) : phase.toUnlock ≤ 4 := by cases phase <;> decide

private theorem streamSteps_le (s : Locked) : s.streamSteps ≤ 2 := by
  unfold Locked.streamSteps
  split
  · exact Nat.zero_le 2
  · exact toRelease_le _
  · exact worker_toRelease_le _

private theorem writeSteps_le (s : Locked) : s.writeSteps ≤ 4 := by
  unfold Locked.writeSteps
  split
  · exact Nat.zero_le 4
  · exact toUnlock_le _

/-- A step of the thread itself towards the socket counts for more than any other. -/
theorem stepsLeft_of_toSocket {s s' : Locked} {thread : Thread}
    (h : (s'.phase thread).toSocket < (s.phase thread).toSocket) :
    s'.stepsLeft thread < s.stepsLeft thread := by
  have hWrite := writeSteps_le s'
  have hStream := streamSteps_le s'
  unfold Locked.stepsLeft
  omega

section Progress
variable {W : Connection} {cfg : Config} {server : Server} {s s' : Locked} {thread : Thread}

theorem socket_of_writing (W : Connection) (cfg : Config) (server : Server) {frame : Frame}
    {next : Sent → Code} (hPhase : s.phase thread = .writing)
    (hFrame : s.session.threads thread = .writing frame next) :
    ∃ session, s.step W cfg server (.socket thread (attempt s.session thread)) =
      some { s.enter thread .written with session := session } ∧
      OnlyThread thread s.session session := by
  have hResult : ∃ session,
      step W cfg s.session (.run thread (attempt s.session thread)) = some session := by
    by_cases hTorn : s.session.shared.torn = none
    · simp [step, attempt, hFrame, stepThread, writeFrame, hTorn]
    · simp [step, attempt, hFrame, stepThread, writeFrame, hTorn]
  obtain ⟨session, hSession⟩ := hResult
  exact ⟨session, by simp [Locked.step, Locked.socket, hPhase, hSession], onlyThread_run hSession⟩

theorem socket_of_closing (W : Connection) (cfg : Config) (server : Server) {next : Code}
    (hPhase : s.phase thread = .closing)
    (hClose : s.session.threads thread = .ready (.closeStream next)) :
    ∃ session, s.step W cfg server (.socket thread (attempt s.session thread)) =
      some { s.enter thread .shut with session := session } ∧
      OnlyThread thread s.session session := by
  have hResult : ∃ session,
      step W cfg s.session (.run thread (attempt s.session thread)) = some session := by
    simp [step, attempt, hClose, stepThread, stepCode, onGo]
  obtain ⟨session, hSession⟩ := hResult
  exact ⟨session, by simp [Locked.step, Locked.socket, hPhase, hSession], onlyThread_run hSession⟩

/-- What the holder of the mutex does changes nothing for those that wait for it. -/
structure Releases (s s' : Locked) : Prop where
  stream : s'.streamSteps < s.streamSteps
  write : s'.writeSteps ≤ s.writeSteps
  phase : ∀ other, ¬ s.inStream (.thread other) → s'.phase other = s.phase other
  session : ∀ other, ¬ s.inStream (.thread other) → s'.session.threads other = s.session.threads other
  awaits : ¬ AwaitsPeer s'

private theorem writeSteps_mono (hLock : s'.writeLock = s.writeLock)
    (hPhase : ∀ other, (s'.phase other).toUnlock ≤ (s.phase other).toUnlock) :
    s'.writeSteps ≤ s.writeSteps := by
  unfold Locked.writeSteps
  rw [hLock]
  split
  · exact le_refl 0
  · exact hPhase _

private theorem Entered.releases {p : Phase} (h : Entered thread p s s') (hIn : s.inStream (.thread thread))
    (hLock : s'.writeLock = s.writeLock) (hInbound : s'.inbound = s.inbound)
    (hStream : s'.streamSteps < s.streamSteps) (hUnlock : p.toUnlock ≤ (s.phase thread).toUnlock)
    (hFree : ¬ AwaitsPeer s) : Releases s s' := by
  have hOther : ∀ {other}, ¬ s.inStream (.thread other) → other ≠ thread := by
    rintro other hOut rfl
    exact hOut hIn
  refine ⟨hStream, writeSteps_mono hLock fun other => ?_, fun other hOut => h.other (hOther hOut),
    fun other hOut => h.only other (hOther hOut), ?_⟩
  · by_cases hSame : other = thread
    · rw [hSame, h.self]
      exact hUnlock
    · rw [h.other hSame]
  · unfold AwaitsPeer
    rw [h.worker, hInbound]
    exact hFree

private theorem exists_release (hOwned : Owned s) (hFree : ¬ AwaitsPeer s) (hBusy : s.mutex ≠ none) :
    ∃ action s', action.client = true ∧ s.step W cfg server action = some s' ∧ Releases s s' := by
  obtain ⟨owner, hOwner⟩ := Option.ne_none_iff_exists'.mp hBusy
  have hIn := (hOwned.stream owner).mp hOwner
  cases owner with
  | worker =>
    rw [Locked.inStream] at hIn
    cases hWorker : s.worker with
    | reading =>
      cases hInbound : s.inbound with
      | nil => exact absurd ⟨hWorker, hInbound⟩ hFree
      | cons message rest =>
        refine ⟨.socketRead, { s with worker := .read message, inbound := rest }, rfl,
          by simp [Locked.step, Locked.socketRead, hWorker, hInbound], ?_⟩
        refine ⟨?_, le_refl _, fun _ _ => rfl, fun _ _ => rfl, ?_⟩
        · simp [Locked.streamSteps, hOwner, hWorker, Worker.toRelease]
        · rintro ⟨hReading, -⟩
          cases hReading
    | read result =>
      refine ⟨.unlockRead, { s with worker := .finished result, mutex := none }, rfl,
        by simp [Locked.step, Locked.unlockRead, hWorker], ?_⟩
      refine ⟨?_, le_refl _, fun _ _ => rfl, fun _ _ => rfl, ?_⟩
      · simp [Locked.streamSteps, hOwner, hWorker, Worker.toRelease]
      · rintro ⟨hReading, -⟩
        cases hReading
    | idle | submitted | finished =>
      rw [hWorker] at hIn
      cases hIn
  | thread thread =>
    have hPhaseIn := hIn
    rw [Locked.inStream] at hPhaseIn
    cases hPhase : s.phase thread with
    | writing =>
      obtain ⟨frame, next, hFrame⟩ := hOwned.frame thread (.inr hPhase)
      obtain ⟨session, hStep, hOnly⟩ := socket_of_writing W cfg server hPhase hFrame
      have hEntered : Entered thread .written s { s.enter thread .written with session := session } :=
        ⟨rfl, rfl, hOnly⟩
      refine ⟨_, _, rfl, hStep, hEntered.releases hIn rfl rfl ?_ (by rw [hPhase]; decide) hFree⟩
      simp [Locked.streamSteps, Locked.enter, hOwner, hPhase, Phase.toRelease]
    | closing =>
      obtain ⟨next, hClose⟩ := hOwned.close thread hPhase
      obtain ⟨session, hStep, hOnly⟩ := socket_of_closing W cfg server hPhase hClose
      have hEntered : Entered thread .shut s { s.enter thread .shut with session := session } :=
        ⟨rfl, rfl, hOnly⟩
      refine ⟨_, _, rfl, hStep, hEntered.releases hIn rfl rfl ?_ (by rw [hPhase]; decide) hFree⟩
      simp [Locked.streamSteps, Locked.enter, hOwner, hPhase, Phase.toRelease]
    | written =>
      have hEntered : Entered thread .unlocked s { s.enter thread .unlocked with mutex := none } :=
        ⟨rfl, rfl, fun _ _ => rfl⟩
      refine ⟨.unlockStream thread, _, rfl, by simp only [Locked.step, Locked.unlockStream, hPhase],
        hEntered.releases hIn rfl rfl ?_ (by rw [hPhase]; decide) hFree⟩
      simp [Locked.streamSteps, hOwner, hPhase, Phase.toRelease]
    | shut =>
      have hEntered : Entered thread .outside s { s.enter thread .outside with mutex := none } :=
        ⟨rfl, rfl, fun _ _ => rfl⟩
      refine ⟨.unlockStream thread, _, rfl, by simp only [Locked.step, Locked.unlockStream, hPhase],
        hEntered.releases hIn rfl rfl ?_ (by rw [hPhase]; decide) hFree⟩
      simp [Locked.streamSteps, hOwner, hPhase, Phase.toRelease]
    | outside | writeLocked | unlocked =>
      rw [hPhase] at hPhaseIn
      cases hPhaseIn

/-- While the thread waits outside the stream, a step of the holder of the mutex brings it nearer. -/
theorem Releases.stepsLeft_lt (h : Releases s s') (hOut : ¬ s.inStream (.thread thread)) :
    s'.stepsLeft thread < s.stepsLeft thread := by
  have hStream := h.stream
  have hWrite := h.write
  unfold Locked.stepsLeft
  rw [h.phase thread hOut]
  omega

def AtSocket (s : Locked) (thread : Thread) : Prop :=
  s.phase thread = .writing ∨ s.phase thread = .closing

/-- What is carried along on the way of the thread to the socket. -/
structure Waiting (r : Running) (thread : Thread) (s : Locked) : Prop where
  owned : Owned s
  running : s.session.threads thread = r
  pending : r.Pending
  free : ¬ AwaitsPeer s

theorem Waiting.next {r : Running} (h : Waiting r thread s) {action : LockAction}
    (hStep : s.step W cfg server action = some s')
    (hThread : s'.session.threads thread = s.session.threads thread) (hFree : ¬ AwaitsPeer s') :
    Waiting r thread s' :=
  ⟨h.owned.step hStep, hThread.trans h.running, h.pending, hFree⟩

private theorem Waiting.exists_down_of_free {r : Running} (h : Waiting r thread s) (hMutex : s.mutex = none) :
    ∃ action s', action.client = true ∧ s.step W cfg server action = some s' ∧
      Waiting r thread s' ∧ s'.stepsLeft thread < s.stepsLeft thread := by
  have hOut : ∀ other, ¬ s.inStream (.thread other) := by
    intro other hIn
    rw [h.owned.stream.owner_eq hIn] at hMutex
    cases hMutex
  have hThreadOut := hOut thread
  rw [Locked.inStream] at hThreadOut
  cases hPhase : s.phase thread with
  | writing | written | closing | shut =>
    rw [hPhase] at hThreadOut
    exact absurd rfl hThreadOut
  | unlocked =>
    have hStep : s.step W cfg server (.unlockWrite thread) =
        some { s.enter thread .outside with writeLock := none } := by
      simp only [Locked.step, Locked.unlockWrite, hPhase]
    refine ⟨_, _, rfl, hStep, h.next hStep rfl h.free, stepsLeft_of_toSocket ?_⟩
    simp [Locked.enter, hPhase, Phase.toSocket]
  | writeLocked =>
    have hStep : s.step W cfg server (.lockStream thread) =
        some { s.enter thread .writing with mutex := some (.thread thread) } := by
      simp only [Locked.step, Locked.lockStream, hMutex, hPhase, if_true]
    refine ⟨_, _, rfl, hStep, h.next hStep rfl h.free, stepsLeft_of_toSocket ?_⟩
    simp [Locked.enter, hPhase, Phase.toSocket]
  | outside =>
    have hRunning := h.running
    rcases h.pending with ⟨frame, next, rfl⟩ | ⟨next, rfl⟩
    · cases hLock : s.writeLock with
      | none =>
        have hStep : s.step W cfg server (.lockWrite thread) =
            some { s.enter thread .writeLocked with writeLock := some thread } := by
          simp only [Locked.step, Locked.lockWrite, hPhase, hRunning, hLock, if_true]
        refine ⟨_, _, rfl, hStep, h.next hStep rfl h.free, stepsLeft_of_toSocket ?_⟩
        simp [Locked.enter, hPhase, Phase.toSocket]
      | some owner =>
        -- Another thread has the write lock: it waits for the mutex, or is about to let go.
        have hIn : s.inWrite owner := (h.owned.write owner).mp hLock
        have hNe : thread ≠ owner := by
          rintro rfl
          rw [Locked.inWrite, hPhase] at hIn
          cases hIn
        have hOwnerOut := hOut owner
        rw [Locked.inWrite] at hIn
        rw [Locked.inStream] at hOwnerOut
        cases hOwner : s.phase owner with
        | outside | closing | shut =>
          rw [hOwner] at hIn
          cases hIn
        | writing | written =>
          rw [hOwner] at hOwnerOut
          exact absurd rfl hOwnerOut
        | writeLocked =>
          have hStep : s.step W cfg server (.lockStream owner) =
              some { s.enter owner .writing with mutex := some (.thread owner) } := by
            simp only [Locked.step, Locked.lockStream, hMutex, hOwner, if_true]
          refine ⟨_, _, rfl, hStep, h.next hStep rfl h.free, ?_⟩
          simp [Locked.stepsLeft, Locked.writeSteps, Locked.streamSteps, Locked.enter, hLock, hMutex,
            hOwner, hNe, Phase.toUnlock, Phase.toRelease]
        | unlocked =>
          have hStep : s.step W cfg server (.unlockWrite owner) =
              some { s.enter owner .outside with writeLock := none } := by
            simp only [Locked.step, Locked.unlockWrite, hOwner]
          refine ⟨_, _, rfl, hStep, h.next hStep rfl h.free, ?_⟩
          simp [Locked.stepsLeft, Locked.writeSteps, Locked.streamSteps, Locked.enter, hLock, hMutex,
            hOwner, hNe, Phase.toUnlock]
    · have hStep : s.step W cfg server (.lockStream thread) =
          some { s.enter thread .closing with mutex := some (.thread thread) } := by
        simp only [Locked.step, Locked.lockStream, hMutex, hPhase, hRunning, if_true]
      refine ⟨_, _, rfl, hStep, h.next hStep rfl h.free, stepsLeft_of_toSocket ?_⟩
      simp [Locked.enter, hPhase, Phase.toSocket]

private theorem Waiting.exists_down {r : Running} (h : Waiting r thread s) (hNot : ¬ AtSocket s thread) :
    ∃ action s', action.client = true ∧ s.step W cfg server action = some s' ∧
      Waiting r thread s' ∧ s'.stepsLeft thread < s.stepsLeft thread := by
  by_cases hIn : s.inStream (.thread thread)
  · rw [Locked.inStream] at hIn
    cases hPhase : s.phase thread with
    | writing => exact absurd (.inl hPhase) hNot
    | closing => exact absurd (.inr hPhase) hNot
    | outside | writeLocked | unlocked =>
      rw [hPhase] at hIn
      cases hIn
    | written =>
      have hStep : s.step W cfg server (.unlockStream thread) =
          some { s.enter thread .unlocked with mutex := none } := by
        simp only [Locked.step, Locked.unlockStream, hPhase]
      refine ⟨_, _, rfl, hStep, h.next hStep rfl h.free, stepsLeft_of_toSocket ?_⟩
      simp [Locked.enter, hPhase, Phase.toSocket]
    | shut =>
      have hStep : s.step W cfg server (.unlockStream thread) =
          some { s.enter thread .outside with mutex := none } := by
        simp only [Locked.step, Locked.unlockStream, hPhase]
      refine ⟨_, _, rfl, hStep, h.next hStep rfl h.free, stepsLeft_of_toSocket ?_⟩
      simp [Locked.enter, hPhase, Phase.toSocket]
  · by_cases hMutex : s.mutex = none
    · exact h.exists_down_of_free hMutex
    · obtain ⟨action, s', hClient, hStep, hReleases⟩ := exists_release h.owned h.free hMutex
      exact ⟨action, s', hClient, hStep, h.next hStep (hReleases.session thread hIn) hReleases.awaits,
        hReleases.stepsLeft_lt hIn⟩

theorem Waiting.reaches_socket {r : Running} (h : Waiting r thread s) :
    ∃ s', Reaches (Locked.step W cfg server) (fun _ action => action.client = true) s s' ∧
      Waiting r thread s' ∧ AtSocket s' thread :=
  exists_reaches_of_measure (fun s : Locked => s.stepsLeft thread) (fun h hNot => h.exists_down hNot) h

/-- The socket operation of a thread that is there is over after one step of its own. -/
theorem Waiting.socket {r : Running} (h : Waiting r thread s) (hAt : AtSocket s thread) :
    ∃ s', s.step W cfg server (.socket thread (attempt s.session thread)) = some s' ∧
      ¬ AwaitsPeer s' := by
  rcases hAt with hPhase | hPhase
  · obtain ⟨frame, next, hFrame⟩ := h.owned.frame thread (.inr hPhase)
    obtain ⟨session, hStep, -⟩ := socket_of_writing W cfg server hPhase hFrame
    exact ⟨_, hStep, h.free⟩
  · obtain ⟨next, hClose⟩ := h.owned.close thread hPhase
    obtain ⟨session, hStep, -⟩ := socket_of_closing W cfg server hPhase hClose
    exact ⟨_, hStep, h.free⟩

theorem Waiting.canComplete {r : Running} (h : Waiting r thread s) :
    CanComplete W cfg server s thread := by
  have hEnd : ∃ s', Reaches (Locked.step W cfg server) (fun _ action => action.client = true) s s' ∧
      Waiting r thread s' ∧ AtSocket s' thread := h.reaches_socket
  obtain ⟨s', hReach, hWaiting, hAt⟩ := hEnd
  obtain ⟨s'', hStep, -⟩ := hWaiting.socket hAt
  exact ⟨s', s'', hReach, hStep⟩

private theorem AwaitsPeer.step (h : AwaitsPeer s) (hOwned : Owned s) {action : LockAction}
    (hClient : action.client = true) (hStep : s.step W cfg server action = some s') : AwaitsPeer s' := by
  obtain ⟨hReading, hInbound⟩ := h
  have hIn : s.inStream .worker := by rw [Locked.inStream, hReading]; rfl
  have hMutex := hOwned.stream.owner_eq hIn
  cases action with
  | call i method =>
    simp only [Locked.step, Option.ite_none_right_eq_some] at hStep
    obtain ⟨session, -, rfl⟩ := Option.map_eq_some_iff.mp hStep.2
    exact ⟨hReading, hInbound⟩
  | run thread choice =>
    simp only [Locked.step, Option.ite_none_right_eq_some] at hStep
    obtain ⟨hWorker, hSame⟩ := runThread_worker hStep.2
    refine ⟨?_, hSame.trans hInbound⟩
    rcases hWorker with hWorker | ⟨result, hFinished⟩
    · rw [hWorker, hReading]
    · rw [hReading] at hFinished
      cases hFinished
  | lockWrite thread =>
    simp only [Locked.step, Option.ite_none_right_eq_some] at hStep
    obtain ⟨-, -, rfl⟩ := lockWrite_cases hStep.2
    exact ⟨hReading, hInbound⟩
  | lockStream thread =>
    obtain ⟨hFree, -⟩ := lockStream_cases hStep
    rw [hMutex] at hFree
    cases hFree
  | socket thread choice =>
    obtain ⟨session, -, ⟨-, rfl⟩ | ⟨-, rfl⟩⟩ := socket_cases hStep
    · exact ⟨hReading, hInbound⟩
    · exact ⟨hReading, hInbound⟩
  | unlockStream thread =>
    obtain ⟨-, rfl⟩ | ⟨-, rfl⟩ := unlockStream_cases hStep
    · exact ⟨hReading, hInbound⟩
    · exact ⟨hReading, hInbound⟩
  | unlockWrite thread =>
    obtain ⟨-, rfl⟩ := unlockWrite_cases hStep
    exact ⟨hReading, hInbound⟩
  | submitRead =>
    simp only [Locked.step, Option.ite_none_right_eq_some] at hStep
    obtain ⟨hIdle, -⟩ := submitRead_cases hStep.2
    rw [hReading] at hIdle
    cases hIdle
  | lockRead =>
    obtain ⟨hSubmitted, -, -⟩ := lockRead_cases hStep
    rw [hReading] at hSubmitted
    cases hSubmitted
  | socketRead =>
    obtain ⟨message, rest, -, hSome, -⟩ := socketRead_cases hStep
    rw [hInbound] at hSome
    cases hSome
  | unlockRead =>
    obtain ⟨result, hRead, -⟩ := unlockRead_cases hStep
    rw [hReading] at hRead
    cases hRead
  | serve message => cases hClient

theorem AwaitsPeer.reaches (h : AwaitsPeer s) (hOwned : Owned s)
    (hReach : Reaches (Locked.step W cfg server) (fun _ action => action.client = true) s s') :
    Owned s' ∧ AwaitsPeer s' := by
  induction hReach with
  | start => exact ⟨hOwned, h⟩
  | step _ hClient hStep ih => exact ⟨ih.1.step hStep, ih.2.step ih.1 hClient hStep⟩

theorem AwaitsPeer.not_canComplete (h : AwaitsPeer s) (hOwned : Owned s) :
    ¬ CanComplete W cfg server s thread := by
  rintro ⟨s', s'', hReach, hStep⟩
  obtain ⟨hOwned', hAwaits⟩ := h.reaches hOwned hReach
  have hWorker : s'.inStream .worker := by rw [Locked.inStream, hAwaits.1]; rfl
  have hThread : s'.inStream (.thread thread) := by
    obtain ⟨session, -, ⟨hPhase, -⟩ | ⟨hPhase, -⟩⟩ := socket_cases hStep
    · rw [Locked.inStream, hPhase]; rfl
    · rw [Locked.inStream, hPhase]; rfl
  cases hOwned'.stream.unique hWorker hThread

/-- The code of a send, a ping or a close, and of `__exit__` up to its joins. -/
def Code.Plain : Code → Prop
  | .done => True
  | .setShouldClose next | .closeStream next | .join _ next => next.Plain
  | .connectionState next => ∀ state, (next state).Plain
  | .send _ next => ∀ sent, (next sent).Plain
  | .pingId next => ∀ data, (next data).Plain
  | .whileOpen _ | .readStream _ | .receiveData _ | .event _ _ | .put _ _ | .wait _ _ | .get _ => False

def Running.Plain : Running → Prop
  | .ready code => code.Plain
  | .writing _ next => ∀ sent, (next sent).Plain

/-- The method has returned, or `close` has to `__exit__`. -/
def Returned (s : Locked) (thread : Thread) : Prop :=
  s.session.threads thread = .ready .done ∨ ∃ other next, s.session.threads thread = .ready (.join other next)

/-- A client run that ends in a state where nothing is held back. -/
def ClientRun (W : Connection) (cfg : Config) (server : Server) (s s' : Locked) : Prop :=
  Reaches (Locked.step W cfg server) (fun _ action => action.client = true) s s' ∧ Owned s' ∧
    ¬ AwaitsPeer s'

theorem ClientRun.refl (hOwned : Owned s) (hFree : ¬ AwaitsPeer s) : ClientRun W cfg server s s :=
  ⟨.start, hOwned, hFree⟩

theorem ClientRun.step {t : Locked} (h : ClientRun W cfg server s s') {action : LockAction}
    (hClient : action.client = true) (hStep : s'.step W cfg server action = some t)
    (hFree : ¬ AwaitsPeer t) : ClientRun W cfg server s t :=
  ⟨h.1.step hClient hStep, h.2.1.step hStep, hFree⟩

private theorem exists_outside {code : Code} (hOwned : Owned s) (hFree : ¬ AwaitsPeer s)
    (hCode : s.session.threads thread = .ready code) (hClose : ∀ next, code ≠ .closeStream next) :
    ∃ s', ClientRun W cfg server s s' ∧ s'.session = s.session ∧ s'.phase thread = .outside := by
  have hStart : ClientRun W cfg server s s := .refl hOwned hFree
  have hUnlocked : ∀ {t}, ClientRun W cfg server s t → t.session = s.session →
      t.phase thread = .unlocked →
      ∃ s', ClientRun W cfg server s s' ∧ s'.session = s.session ∧ s'.phase thread = .outside := by
    intro t hRun hSession hPhase
    have hStep : t.step W cfg server (.unlockWrite thread) =
        some { t.enter thread .outside with writeLock := none } := by
      simp only [Locked.step, Locked.unlockWrite, hPhase]
    exact ⟨_, hRun.step rfl hStep hRun.2.2, hSession, by simp [Locked.enter]⟩
  cases hPhase : s.phase thread with
  | outside => exact ⟨s, hStart, rfl, hPhase⟩
  | unlocked => exact hUnlocked hStart rfl hPhase
  | writeLocked =>
    obtain ⟨frame, next, hFrame⟩ := hOwned.frame thread (.inl hPhase)
    rw [hCode] at hFrame
    cases hFrame
  | writing =>
    obtain ⟨frame, next, hFrame⟩ := hOwned.frame thread (.inr hPhase)
    rw [hCode] at hFrame
    cases hFrame
  | closing =>
    obtain ⟨next, hNext⟩ := hOwned.close thread hPhase
    rw [hCode] at hNext
    exact absurd (Running.ready.inj hNext) (hClose next)
  | written =>
    have hStep : s.step W cfg server (.unlockStream thread) =
        some { s.enter thread .unlocked with mutex := none } := by
      simp only [Locked.step, Locked.unlockStream, hPhase]
    exact hUnlocked (hStart.step rfl hStep hFree) rfl (by simp [Locked.enter])
  | shut =>
    have hStep : s.step W cfg server (.unlockStream thread) =
        some { s.enter thread .outside with mutex := none } := by
      simp only [Locked.step, Locked.unlockStream, hPhase]
    exact ⟨_, hStart.step rfl hStep hFree, rfl, by simp [Locked.enter]⟩

private theorem exists_run {code : Code} {choice : Choice} {shared : Shared} {r' : Running}
    (hOwned : Owned s) (hFree : ¬ AwaitsPeer s) (hCode : s.session.threads thread = .ready code)
    (hClose : ∀ next, code ≠ .closeStream next) (hRead : ∀ next, code ≠ .readStream next)
    (hStep : stepCode W cfg s.session.ended s.session.shared choice code = some (shared, r')) :
    ∃ s', ClientRun W cfg server s s' ∧ s'.session.threads thread = r' := by
  obtain ⟨t, hRun, hSession, hOutside⟩ := exists_outside hOwned hFree hCode hClose
  have hThread : t.session.threads thread = .ready code := by rw [hSession, hCode]
  have hSessionStep : step W cfg t.session (.run thread choice) =
      some (t.session.resume thread (shared, r')) := by
    rw [← hSession] at hStep
    simp [step, hThread, stepThread, hStep]
  have hNext : t.step W cfg server (.run thread choice) =
      some { t with session := t.session.resume thread (shared, r') } := by
    cases code with
    | closeStream next => exact absurd rfl (hClose next)
    | readStream next => exact absurd rfl (hRead next)
    | done | setShouldClose | connectionState | send | whileOpen | receiveData | event | put | wait
    | pingId | get | join =>
      simp [Locked.step, Locked.runThread, hOutside, hThread, hSessionStep]
  exact ⟨_, hRun.step rfl hNext hRun.2.2, resume_self _ _ _⟩

private theorem Waiting.exists_socket {r : Running} (h : Waiting r thread s) :
    ∃ s', ClientRun W cfg server s s' ∧ ∃ ended shared shared' choice,
      stepThread W cfg ended shared choice r = some (shared', s'.session.threads thread) := by
  have hEnd : ∃ s', Reaches (Locked.step W cfg server) (fun _ action => action.client = true) s s' ∧
      Waiting r thread s' ∧ AtSocket s' thread := h.reaches_socket
  obtain ⟨t, hReach, hWaiting, hAt⟩ := hEnd
  have hSocket : ∃ s', t.step W cfg server (.socket thread (attempt t.session thread)) = some s' ∧
      ¬ AwaitsPeer s' := hWaiting.socket hAt
  obtain ⟨s', hStep, hFree⟩ := hSocket
  have hRun : ClientRun W cfg server s t := ⟨hReach, hWaiting.owned, hWaiting.free⟩
  obtain ⟨session, hSession, hNext⟩ := socket_cases hStep
  obtain ⟨⟨shared, r'⟩, hResult, hResume⟩ := step_run hSession
  have hThread : s'.session.threads thread = r' := by
    rcases hNext with ⟨-, rfl⟩ | ⟨-, rfl⟩
    · rw [hResume]
      exact resume_self _ _ _
    · rw [hResume]
      exact resume_self _ _ _
  rw [hWaiting.running] at hResult
  refine ⟨s', hRun.step rfl hStep hFree, t.session.ended, t.session.shared, shared,
    attempt t.session thread, ?_⟩
  rw [hThread]
  exact hResult

/-- Steps of the client alone bring the thread's method to its return. -/
def CanReturn (W : Connection) (cfg : Config) (server : Server) (s : Locked) (thread : Thread) : Prop :=
  ∃ s', ClientRun W cfg server s s' ∧ Returned s' thread

theorem CanReturn.of_run (hRun : ClientRun W cfg server s s')
    (h : CanReturn W cfg server s' thread) : CanReturn W cfg server s thread := by
  obtain ⟨t, hRest, hReturned⟩ := h
  exact ⟨t, ⟨hRun.1.trans hRest.1, hRest.2⟩, hReturned⟩

/-- A thread with this code can return from any state in which no read is in its way. -/
def Returns (W : Connection) (cfg : Config) (server : Server) (thread : Thread) (r : Running) : Prop :=
  ∀ s : Locked, Owned s → ¬ AwaitsPeer s → s.session.threads thread = r →
    CanReturn W cfg server s thread

private theorem returns_of_run {code : Code} (choice : Choice) (hClose : ∀ next, code ≠ .closeStream next)
    (hRead : ∀ next, code ≠ .readStream next)
    (hNext : ∀ ended shared, ∃ shared' r', stepCode W cfg ended shared choice code = some (shared', r') ∧
      Returns W cfg server thread r') : Returns W cfg server thread (.ready code) := by
  intro s hOwned hFree hCode
  obtain ⟨shared', r', hStep, hReturns⟩ := hNext s.session.ended s.session.shared
  obtain ⟨s', hRun, hThread⟩ := exists_run hOwned hFree hCode hClose hRead hStep
  exact .of_run hRun (hReturns s' hRun.2.1 hRun.2.2 hThread)

theorem returns_of_socket {r : Running} (hPending : r.Pending)
    (hNext : ∀ ended shared shared' choice r', stepThread W cfg ended shared choice r = some (shared', r') →
      Returns W cfg server thread r') : Returns W cfg server thread r := by
  intro s hOwned hFree hCode
  have hWaiting : Waiting r thread s := ⟨hOwned, hCode, hPending, hFree⟩
  obtain ⟨s', hRun, ended, shared, shared', choice, hStep⟩ := hWaiting.exists_socket
  exact .of_run hRun (hNext _ _ _ _ _ hStep s' hRun.2.1 hRun.2.2 rfl)

theorem returns_of_writing {frame : Frame} {next : Sent → Code}
    (h : ∀ sent, Returns W cfg server thread (.ready (next sent))) :
    Returns W cfg server thread (.writing frame next) := by
  refine returns_of_socket (.inl ⟨frame, next, rfl⟩) fun ended shared shared' choice r' hStep => ?_
  rcases writeFrame_eq hStep with ⟨-, -, rfl⟩ | ⟨n, -, rfl⟩
  · exact h .written
  · exact h .streamError

private theorem returns_of_plain {code : Code} (hPlain : code.Plain) :
    Returns W cfg server thread (.ready code) := by
  induction code with
  | done => exact fun s hOwned hFree hCode => ⟨s, .refl hOwned hFree, .inl hCode⟩
  | join other next ih =>
    exact fun s hOwned hFree hCode => ⟨s, .refl hOwned hFree, .inr ⟨other, next, hCode⟩⟩
  | setShouldClose next ih =>
    exact returns_of_run .go (by simp) (by simp) fun ended shared =>
      ⟨{ shared with shouldClose := true }, .ready next, rfl, ih hPlain⟩
  | connectionState next ih =>
    exact returns_of_run .go (by simp) (by simp) fun ended shared =>
      ⟨shared, .ready (next shared.connection), rfl, ih _ (hPlain _)⟩
  | pingId next ih =>
    exact returns_of_run (.bytes []) (by simp) (by simp) fun ended shared =>
      ⟨shared, .ready (next []), rfl, ih _ (hPlain _)⟩
  | closeStream next ih =>
    refine returns_of_socket (.inr ⟨next, rfl⟩) fun ended shared shared' choice r' hStep => ?_
    obtain ⟨-, rfl⟩ := onGo_eq hStep
    exact ih hPlain
  | send event next ih =>
    have hNext : ∀ sent, Returns W cfg server thread (.ready (next sent)) :=
      fun sent => ih sent (hPlain sent)
    refine returns_of_run (.bytes []) (by simp) (by simp) fun ended shared => ?_
    cases hSend : W.send shared.connection event with
    | none =>
      exact ⟨shared, .ready (next .refused), by simp [stepCode, produce, hSend], hNext .refused⟩
    | some state =>
      exact ⟨{ shared with connection := state, produced := shared.produced ++ [⟨event, []⟩] },
        .writing ⟨event, []⟩ next, by simp [stepCode, produce, hSend], returns_of_writing hNext⟩
  | whileOpen | readStream | receiveData | event | put | wait | get => exact absurd hPlain id

end Progress

section Methods
variable {next : Code}

theorem close_plain (code : Nat) (reason : Option String) (h : next.Plain) :
    (close code reason next).Plain := by
  intro state
  unfold closeInState
  split
  · exact h
  · intro sent
    cases sent with
    | refused => trivial
    | written => exact h
    | streamError => exact h

theorem send_plain (event : Outgoing) : (send event .done).Plain := by
  intro sent
  cases sent with
  | refused => trivial
  | written => trivial
  | streamError => exact close_plain _ _ trivial

private theorem ping_plain (payload : List UInt8) : (ping payload .done).Plain := by
  unfold ping
  split
  · exact fun id => send_plain (.ping id)
  · exact send_plain (.ping payload)

private theorem method_plain (cfg : Config) (method : Method) (h : ∀ timed, method ≠ .receive timed) :
    (method.code cfg).Plain := by
  cases method with
  | send event => exact send_plain event
  | ping payload => exact ping_plain payload
  | receive timed => exact absurd rfl (h timed)
  | close code reason => exact close_plain _ _ trivial
  | exit =>
    have hJoins : (Code.join .receiver
        (if cfg.keepaliveInterval then .join .keepalive .done else .done)).Plain := by
      unfold Code.Plain
      split
      · trivial
      · trivial
    exact close_plain _ _ hJoins

end Methods

section Runs
variable {W : Connection} {cfg : Config} {server : Server}

private theorem stepThread_plain {ended : Thread → Bool} {s s' : Shared} {choice : Choice} {r r' : Running}
    (h : stepThread W cfg ended s choice r = some (s', r')) (hPlain : r.Plain) : r'.Plain := by
  cases r with
  | writing frame next =>
    rcases writeFrame_eq h with ⟨-, -, rfl⟩ | ⟨n, -, rfl⟩
    · exact hPlain .written
    · exact hPlain .streamError
  | ready code =>
    cases stepThread_steps h with
    | setShouldClose | closeStream | produced | join => exact hPlain
    | connectionState | refused | pingId => exact hPlain _
    | closed | opened | readStream | receiveData | event | put | wait | get | timedOut =>
      exact absurd hPlain id

private theorem user_plain {s : Session} (hReach : Reachable (step W cfg) (start cfg) s) (i : Nat) :
    (s.threads (.user i)).Plain ∨ ∃ timed, s.threads (.user i) = .ready (.get timed) := by
  induction hReach with
  | start => exact .inl trivial
  | @step s s' action _ _ hStep ih =>
    cases action with
    | call j method =>
      obtain ⟨-, rfl⟩ := step_call hStep
      by_cases hSame : Thread.user i = .user j
      · rw [hSame, resume_self]
        by_cases hReceive : ∃ timed, method = .receive timed
        · obtain ⟨timed, rfl⟩ := hReceive
          exact .inr ⟨timed, rfl⟩
        · exact .inl (method_plain cfg method fun timed h => hReceive ⟨timed, h⟩)
      · rw [resume_other s _ hSame]
        exact ih
    | run thread choice =>
      obtain ⟨⟨shared, r'⟩, hResult, rfl⟩ := step_run hStep
      by_cases hSame : Thread.user i = thread
      · rw [hSame, resume_self]
        rw [hSame] at ih
        rcases ih with hPlain | ⟨timed, hGet⟩
        · exact .inl (stepThread_plain hResult hPlain)
        · rw [hGet] at hResult
          cases stepThread_steps hResult with
          | get => exact .inl trivial
          | timedOut => exact .inl trivial
      · rw [resume_other s _ hSame]
        exact ih

/-- In every state that the session over the native stream reaches, a frame or a close of the stream
that is due can be completed without the server exactly if the read worker does not hold the mutex
while it waits for the server; then every send, ping and close that is under way can return. -/
theorem completes_iff (W : Connection) (cfg : Config) (server : Server) {s : Locked}
    (hReach : Reachable (Locked.step W cfg server) (Locked.start cfg) s) :
    (∀ thread, (s.session.threads thread).Pending →
      (CanComplete W cfg server s thread ↔ ¬ AwaitsPeer s)) ∧
    (¬ AwaitsPeer s → ∀ i, (∀ timed, s.session.threads (.user i) ≠ .ready (.get timed)) →
      CanReturn W cfg server s (.user i)) := by
  have hOwned : Owned s := owned_of_reachable hReach
  refine ⟨fun thread hPending => ⟨fun hCan hAwaits => hAwaits.not_canComplete hOwned hCan, fun hFree => ?_⟩,
    fun hFree i hGet => ?_⟩
  · have hWaiting : Waiting (s.session.threads thread) thread s := ⟨hOwned, rfl, hPending, hFree⟩
    exact hWaiting.canComplete
  · have hPlain : (s.session.threads (.user i)).Plain :=
      (user_plain (session_reachable hReach) i).resolve_right fun ⟨timed, h⟩ => hGet timed h
    cases hThread : s.session.threads (.user i) with
    | ready code =>
      rw [hThread] at hPlain
      exact returns_of_plain hPlain s hOwned hFree hThread
    | writing frame next =>
      rw [hThread] at hPlain
      exact returns_of_writing (fun sent => returns_of_plain (hPlain sent)) s hOwned hFree hThread

end Runs
def talkConfig : Config := ⟨512, 65536, false, false⟩

def answering : Server := fun written _ message => !written.isEmpty && message = .data []

/-- The user sends a message before the read worker has the mutex. -/
def sendingFirst : List LockAction :=
  [.run .receiver .go, .submitRead, .call 0 (.send (.message true [97] true)),
    .run (.user 0) (.bytes [129, 97])]

theorem completes_sending : ∃ s,
    run (Locked.step wsproto talkConfig answering) (Locked.start talkConfig) sendingFirst = some s ∧
      CanComplete wsproto talkConfig answering s (.user 0) ∧
      CanReturn wsproto talkConfig answering s (.user 0) := by
  obtain ⟨s, hRun, hFrame, hWorker⟩ : ∃ s,
      run (Locked.step wsproto talkConfig answering) (Locked.start talkConfig) sendingFirst = some s ∧
      s.session.threads (.user 0) =
        .writing ⟨.message true [97] true, [129, 97]⟩ (afterSend .done) ∧
      s.worker = .submitted := ⟨_, rfl, rfl, rfl⟩
  have hFree : ¬ AwaitsPeer s := by
    rintro ⟨hReading, -⟩
    rw [hWorker] at hReading
    cases hReading
  have hBoth := completes_iff wsproto talkConfig answering (Reaches.start.run hRun)
  refine ⟨s, hRun, (hBoth.1 (.user 0) (.inl ⟨_, _, hFrame⟩)).mpr hFree, hBoth.2 hFree 0 ?_⟩
  intro timed hGet
  rw [hFrame] at hGet
  cases hGet

/-- The read worker has the mutex when the user sends the first message. -/
def readingFirst : List LockAction :=
  [.run .receiver .go, .submitRead, .lockRead, .call 0 (.send (.message true [97] true)),
    .run (.user 0) (.bytes [129, 97]), .lockWrite (.user 0)]

/-- The server waits for the message, the worker for the server, and the message for the worker:
no step is left to either peer. -/
theorem not_completes :
    (∃ s, Reachable (Locked.step wsproto talkConfig answering) (Locked.start talkConfig) s ∧
      (s.session.threads (.user 0)).Pending ∧ ∀ action, (∀ i method, action ≠ .call i method) →
        s.step wsproto talkConfig answering action = none) ∧
    ¬ ∀ (W : Connection) (cfg : Config) (server : Server) (s : Locked) (i : Nat), W.Lawful →
      Reachable (Locked.step W cfg server) (Locked.start cfg) s →
      (s.session.threads (.user i)).Pending → CanComplete W cfg server s (.user i) := by
  obtain ⟨s, hRun, hFrame, hRead, hOthers, hPhase, hOutside, hWorker, hMutex, hInbound, hWritten, hFlag⟩ :
      ∃ s, run (Locked.step wsproto talkConfig answering) (Locked.start talkConfig) readingFirst = some s ∧
      s.session.threads (.user 0) =
        .writing ⟨.message true [97] true, [129, 97]⟩ (afterSend .done) ∧
      s.session.threads .receiver = .ready (.readStream (afterRead 65536 ⟨none, 0⟩)) ∧
      (∀ thread, thread ≠ .receiver → thread ≠ .user 0 → s.session.threads thread = .ready .done) ∧
      s.phase (.user 0) = .writeLocked ∧ (∀ thread, thread ≠ .user 0 → s.phase thread = .outside) ∧
      s.worker = .reading ∧ s.mutex = some .worker ∧ s.inbound = [] ∧
      s.session.shared.written = [] ∧ s.session.shared.shouldClose = false := by
    refine ⟨_, rfl, rfl, rfl, ?_, rfl, ?_, rfl, rfl, rfl, rfl, rfl⟩
    · intro thread hReceiver hUser
      cases thread with
      | receiver => exact absurd rfl hReceiver
      | keepalive => rfl
      | user i =>
        have hNe : i ≠ 0 := fun h => hUser (h ▸ rfl)
        simp [Locked.start, start, startThread, Session.resume, Locked.enter, hNe]
    · intro thread hUser
      simp [Locked.start, Locked.enter, hUser]
  have hReach := Reaches.start.run hRun
  have hPending : (s.session.threads (.user 0)).Pending := .inl ⟨_, _, hFrame⟩
  have hPhases : ∀ thread, s.phase thread = .writeLocked ∨ s.phase thread = .outside := by
    intro thread
    by_cases hUser : thread = .user 0
    · exact .inl (hUser ▸ hPhase)
    · exact .inr (hOutside thread hUser)
  refine ⟨⟨s, hReach, hPending, ?_⟩, ?_⟩
  · intro action hCall
    cases action with
    | call i method => exact absurd rfl (hCall i method)
    | run thread choice =>
      by_cases hUser : thread = .user 0
      · simp [Locked.step, hUser, hPhase]
      · by_cases hReceiver : thread = .receiver
        · cases choice with
          | read result =>
            cases result <;> simp [Locked.step, Locked.runThread, step, stepThread, stepCode, waitRead,
              Worker.gives, hReceiver, hRead, hWorker, hFlag]
          | go | bytes | fails | waited | timeout =>
            simp [Locked.step, Locked.runThread, step, stepThread, stepCode, waitRead, hReceiver, hRead]
        · simp [Locked.step, Locked.runThread, step, stepThread, stepCode, hOthers thread hReceiver hUser]
    | lockWrite thread =>
      by_cases hUser : thread = .user 0
      · simp [Locked.step, hUser, hPhase]
      · by_cases hReceiver : thread = .receiver
        · simp [Locked.step, Locked.lockWrite, hReceiver, hRead]
        · simp [Locked.step, Locked.lockWrite, hOthers thread hReceiver hUser]
    | lockStream thread => simp [Locked.step, Locked.lockStream, hMutex]
    | socket thread choice =>
      rcases hPhases thread with hAt | hAt
      · simp [Locked.step, Locked.socket, hAt]
      · simp [Locked.step, Locked.socket, hAt]
    | unlockStream thread =>
      rcases hPhases thread with hAt | hAt
      · simp [Locked.step, Locked.unlockStream, hAt]
      · simp [Locked.step, Locked.unlockStream, hAt]
    | unlockWrite thread =>
      rcases hPhases thread with hAt | hAt
      · simp [Locked.step, Locked.unlockWrite, hAt]
      · simp [Locked.step, Locked.unlockWrite, hAt]
    | submitRead => simp [Locked.step, Locked.submitRead, hRead, hWorker]
    | lockRead => simp [Locked.step, Locked.lockRead, hWorker]
    | socketRead => simp [Locked.step, Locked.socketRead, hWorker, hInbound]
    | unlockRead => simp [Locked.step, Locked.unlockRead, hWorker]
    | serve message => simp [Locked.step, Locked.serve, answering, hWritten]
  · intro hAll
    have hAwaits : AwaitsPeer s := ⟨hWorker, hInbound⟩
    exact hAwaits.not_canComplete (owned_of_reachable hReach)
      (hAll wsproto talkConfig answering s 0 wsproto_lawful hReach hPending)

end Eggfetch.WebSocket
