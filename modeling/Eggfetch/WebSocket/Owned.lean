import Eggfetch.Transition.Lock
import Eggfetch.WebSocket.Locks

/-! Who holds the two locks of the session over the native stream, and that its runs are runs of
the session. -/
namespace Eggfetch.WebSocket
open Transition

def Locked.inStream (s : Locked) : Owner → Prop
  | .thread thread => (s.phase thread).inStream = true
  | .worker => s.worker.inStream = true

def Locked.inWrite (s : Locked) (thread : Thread) : Prop := (s.phase thread).inWrite = true

/-- The two locks are with the threads in their sections, which stand at a write or a close. -/
structure Owned (s : Locked) : Prop where
  stream : Held s.mutex s.inStream
  write : Held s.writeLock s.inWrite
  frame : ∀ thread, s.phase thread = .writeLocked ∨ s.phase thread = .writing →
    ∃ frame next, s.session.threads thread = .writing frame next
  close : ∀ thread, s.phase thread = .closing →
    ∃ next, s.session.threads thread = .ready (.closeStream next)

/-- A step of the session in which only this thread, or no thread, goes on. -/
def OnlyThread (thread : Thread) (s s' : Session) : Prop :=
  ∀ other, other ≠ thread → s'.threads other = s.threads other

section Steps
variable {W : Connection} {cfg : Config} {server : Server} {s s' : Locked} {thread : Thread}

theorem onlyThread_call {s s' : Session} {i : Nat} {method : Method}
    (h : step W cfg s (.call i method) = some s') : OnlyThread (.user i) s s' := by
  obtain ⟨-, rfl⟩ := step_call h
  exact fun other hOther => resume_other s _ hOther

theorem onlyThread_run {s s' : Session} {choice : Choice}
    (h : step W cfg s (.run thread choice) = some s') : OnlyThread thread s s' := by
  obtain ⟨result, -, rfl⟩ := step_run h
  exact fun other hOther => resume_other s _ hOther

section Enter
variable {p : Phase}

/-- One thread has entered a phase, and nobody else has moved. -/
structure Entered (thread : Thread) (p : Phase) (s s' : Locked) : Prop where
  phase : s'.phase = Function.update s.phase thread p
  worker : s'.worker = s.worker
  only : OnlyThread thread s.session s'.session

theorem Entered.self (h : Entered thread p s s') : s'.phase thread = p := by
  rw [h.phase, Function.update_self]

theorem Entered.other (h : Entered thread p s s') {other : Thread} (hOther : other ≠ thread) :
    s'.phase other = s.phase other := by
  rw [h.phase, Function.update_of_ne hOther]

theorem Entered.inStream_self (h : Entered thread p s s') :
    s'.inStream (.thread thread) ↔ p.inStream = true := by
  rw [Locked.inStream, h.self]

theorem Entered.inStream_other (h : Entered thread p s s') {o : Owner} (ho : o ≠ .thread thread) :
    s'.inStream o ↔ s.inStream o := by
  cases o with
  | worker => rw [Locked.inStream, Locked.inStream, h.worker]
  | thread other =>
    have hOther : other ≠ thread := fun hSame => ho (hSame ▸ rfl)
    rw [Locked.inStream, Locked.inStream, h.other hOther]

theorem Entered.stream_keep (h : Entered thread p s s') {mutex : Option Owner}
    (hHeld : Held mutex s.inStream) (hp : p.inStream = (s.phase thread).inStream) :
    Held mutex s'.inStream := by
  refine hHeld.keep fun o => ?_
  by_cases ho : o = .thread thread
  · rw [ho, h.inStream_self, hp]
    exact Iff.rfl
  · exact h.inStream_other ho

theorem Entered.stream_acquire (h : Entered thread p s s') (hHeld : Held none s.inStream)
    (hp : p.inStream = true) : Held (some (.thread thread)) s'.inStream :=
  hHeld.acquire (h.inStream_self.mpr hp) fun _ ho => h.inStream_other ho

theorem Entered.stream_release (h : Entered thread p s s')
    (hHeld : Held (some (.thread thread)) s.inStream) (hp : p.inStream = false) :
    Held none s'.inStream := by
  refine hHeld.release (fun hIn => ?_) fun _ ho => h.inStream_other ho
  rw [h.inStream_self, hp] at hIn
  cases hIn

theorem Entered.write_keep (h : Entered thread p s s') {lock : Option Thread}
    (hHeld : Held lock s.inWrite) (hp : p.inWrite = (s.phase thread).inWrite) :
    Held lock s'.inWrite := by
  refine hHeld.keep fun other => ?_
  by_cases hOther : other = thread
  · rw [Locked.inWrite, Locked.inWrite, hOther, h.self, hp]
  · rw [Locked.inWrite, Locked.inWrite, h.other hOther]

theorem Entered.write_acquire (h : Entered thread p s s') (hHeld : Held none s.inWrite)
    (hp : p.inWrite = true) : Held (some thread) s'.inWrite := by
  refine hHeld.acquire ?_ fun other hOther => ?_
  · rw [Locked.inWrite, h.self, hp]
  · rw [Locked.inWrite, Locked.inWrite, h.other hOther]

theorem Entered.write_release (h : Entered thread p s s') (hHeld : Held (some thread) s.inWrite)
    (hp : p.inWrite = false) : Held none s'.inWrite := by
  refine hHeld.release (fun hIn => ?_) fun other hOther => ?_
  · rw [Locked.inWrite, h.self, hp] at hIn
    cases hIn
  · rw [Locked.inWrite, Locked.inWrite, h.other hOther]

theorem Entered.owned (h : Entered thread p s s') (hOwned : Owned s)
    (hFrame : p = .writeLocked ∨ p = .writing →
      ∃ frame next, s'.session.threads thread = .writing frame next)
    (hClose : p = .closing → ∃ next, s'.session.threads thread = .ready (.closeStream next))
    (hStream : Held s'.mutex s'.inStream) (hWrite : Held s'.writeLock s'.inWrite) : Owned s' where
  stream := hStream
  write := hWrite
  frame other hOther := by
    by_cases hSame : other = thread
    · rw [hSame, h.self] at hOther
      rw [hSame]
      exact hFrame hOther
    · rw [h.other hSame] at hOther
      rw [h.only other hSame]
      exact hOwned.frame other hOther
  close other hOther := by
    by_cases hSame : other = thread
    · rw [hSame, h.self] at hOther
      rw [hSame]
      exact hClose hOther
    · rw [h.other hSame] at hOther
      rw [h.only other hSame]
      exact hOwned.close other hOther

end Enter

section Actions

theorem lockWrite_cases (hStep : s.lockWrite thread = some s') :
    s.writeLock = none ∧ (∃ frame next, s.session.threads thread = .writing frame next) ∧
      s' = { s.enter thread .writeLocked with writeLock := some thread } := by
  unfold Locked.lockWrite at hStep
  cases hThread : s.session.threads thread with
  | ready code =>
    rw [hThread] at hStep
    cases hStep
  | writing frame next =>
    simp only [hThread, Option.ite_none_right_eq_some, Option.some.injEq] at hStep
    exact ⟨hStep.1, ⟨frame, next, rfl⟩, hStep.2.symm⟩

theorem lockStream_cases (hStep : s.lockStream thread = some s') :
    s.mutex = none ∧
    ((s.phase thread = .writeLocked ∧
        s' = { s.enter thread .writing with mutex := some (.thread thread) }) ∨
      (s.phase thread = .outside ∧ (∃ next, s.session.threads thread = .ready (.closeStream next)) ∧
        s' = { s.enter thread .closing with mutex := some (.thread thread) })) := by
  unfold Locked.lockStream at hStep
  rw [Option.ite_none_right_eq_some] at hStep
  obtain ⟨hFree, hStep⟩ := hStep
  refine ⟨hFree, ?_⟩
  split at hStep
  next hPhase => exact .inl ⟨hPhase, (Option.some.inj hStep).symm⟩
  next next hPhase hThread => exact .inr ⟨hPhase, ⟨next, hThread⟩, (Option.some.inj hStep).symm⟩
  next => cases hStep

theorem socket_cases {choice : Choice} (hStep : s.socket W cfg thread choice = some s') :
    ∃ session, step W cfg s.session (.run thread choice) = some session ∧
      ((s.phase thread = .writing ∧ s' = { s.enter thread .written with session := session }) ∨
        (s.phase thread = .closing ∧ s' = { s.enter thread .shut with session := session })) := by
  unfold Locked.socket at hStep
  split at hStep
  next hPhase =>
    obtain ⟨session, hSession, hNext⟩ := Option.map_eq_some_iff.mp hStep
    exact ⟨session, hSession, .inl ⟨hPhase, hNext.symm⟩⟩
  next hPhase =>
    obtain ⟨session, hSession, hNext⟩ := Option.map_eq_some_iff.mp hStep
    exact ⟨session, hSession, .inr ⟨hPhase, hNext.symm⟩⟩
  next => cases hStep

theorem unlockStream_cases (hStep : s.unlockStream thread = some s') :
    (s.phase thread = .written ∧ s' = { s.enter thread .unlocked with mutex := none }) ∨
      (s.phase thread = .shut ∧ s' = { s.enter thread .outside with mutex := none }) := by
  unfold Locked.unlockStream at hStep
  split at hStep
  next hPhase => exact .inl ⟨hPhase, (Option.some.inj hStep).symm⟩
  next hPhase => exact .inr ⟨hPhase, (Option.some.inj hStep).symm⟩
  next => cases hStep

theorem unlockWrite_cases (hStep : s.unlockWrite thread = some s') :
    s.phase thread = .unlocked ∧ s' = { s.enter thread .outside with writeLock := none } := by
  unfold Locked.unlockWrite at hStep
  split at hStep
  next hPhase => exact ⟨hPhase, (Option.some.inj hStep).symm⟩
  next => cases hStep

theorem Owned.lockWrite (h : Owned s) (hOutside : s.phase thread = .outside)
    (hStep : s.lockWrite thread = some s') : Owned s' := by
  obtain ⟨hFree, hFrame, rfl⟩ := lockWrite_cases hStep
  have hEntered : Entered thread .writeLocked s
      { s.enter thread .writeLocked with writeLock := some thread } := ⟨rfl, rfl, fun _ _ => rfl⟩
  have hWrite := h.write
  rw [hFree] at hWrite
  refine hEntered.owned h (fun _ => hFrame) (fun hIn => ?_)
    (hEntered.stream_keep h.stream (by rw [hOutside]; rfl)) (hEntered.write_acquire hWrite rfl)
  cases hIn

theorem Owned.lockStream (h : Owned s) (hStep : s.lockStream thread = some s') : Owned s' := by
  obtain ⟨hFree, ⟨hPhase, rfl⟩ | ⟨hPhase, hClose, rfl⟩⟩ := lockStream_cases hStep
  · have hEntered : Entered thread .writing s
        { s.enter thread .writing with mutex := some (.thread thread) } := ⟨rfl, rfl, fun _ _ => rfl⟩
    have hStream := h.stream
    rw [hFree] at hStream
    refine hEntered.owned h (fun _ => h.frame thread (.inl hPhase)) (fun hIn => ?_)
      (hEntered.stream_acquire hStream rfl) (hEntered.write_keep h.write (by rw [hPhase]; rfl))
    cases hIn
  · have hEntered : Entered thread .closing s
        { s.enter thread .closing with mutex := some (.thread thread) } := ⟨rfl, rfl, fun _ _ => rfl⟩
    have hStream := h.stream
    rw [hFree] at hStream
    refine hEntered.owned h (fun hIn => ?_) (fun _ => hClose)
      (hEntered.stream_acquire hStream rfl) (hEntered.write_keep h.write (by rw [hPhase]; rfl))
    rcases hIn with hIn | hIn
    · cases hIn
    · cases hIn

/-- Phases at which a thread stands at no write or close need nothing of the session. -/
theorem Owned.leaves (h : Owned s) {p : Phase} (hEntered : Entered thread p s s')
    (hp : p = .written ∨ p = .shut ∨ p = .unlocked ∨ p = .outside)
    (hStream : Held s'.mutex s'.inStream) (hWrite : Held s'.writeLock s'.inWrite) : Owned s' := by
  refine hEntered.owned h (fun hIn => ?_) (fun hIn => ?_) hStream hWrite
  · rcases hp with rfl | rfl | rfl | rfl
    all_goals rcases hIn with hIn | hIn
    all_goals cases hIn
  · rcases hp with rfl | rfl | rfl | rfl
    all_goals cases hIn

theorem Owned.socket (h : Owned s) {choice : Choice}
    (hStep : s.socket W cfg thread choice = some s') : Owned s' := by
  obtain ⟨session, hSession, ⟨hPhase, rfl⟩ | ⟨hPhase, rfl⟩⟩ := socket_cases hStep
  · have hEntered : Entered thread .written s { s.enter thread .written with session := session } :=
      ⟨rfl, rfl, onlyThread_run hSession⟩
    exact h.leaves hEntered (.inl rfl) (hEntered.stream_keep h.stream (by rw [hPhase]; rfl))
      (hEntered.write_keep h.write (by rw [hPhase]; rfl))
  · have hEntered : Entered thread .shut s { s.enter thread .shut with session := session } :=
      ⟨rfl, rfl, onlyThread_run hSession⟩
    exact h.leaves hEntered (.inr (.inl rfl)) (hEntered.stream_keep h.stream (by rw [hPhase]; rfl))
      (hEntered.write_keep h.write (by rw [hPhase]; rfl))

theorem Owned.unlockStream (h : Owned s) (hStep : s.unlockStream thread = some s') : Owned s' := by
  have hOwner : s.inStream (.thread thread) → Held (some (.thread thread)) s.inStream := by
    intro hIn
    have hStream := h.stream
    rw [hStream.owner_eq hIn] at hStream
    exact hStream
  rcases unlockStream_cases hStep with ⟨hPhase, rfl⟩ | ⟨hPhase, rfl⟩
  · have hEntered : Entered thread .unlocked s { s.enter thread .unlocked with mutex := none } :=
      ⟨rfl, rfl, fun _ _ => rfl⟩
    have hIn : s.inStream (.thread thread) := by rw [Locked.inStream, hPhase]; rfl
    exact h.leaves hEntered (.inr (.inr (.inl rfl))) (hEntered.stream_release (hOwner hIn) rfl)
      (hEntered.write_keep h.write (by rw [hPhase]; rfl))
  · have hEntered : Entered thread .outside s { s.enter thread .outside with mutex := none } :=
      ⟨rfl, rfl, fun _ _ => rfl⟩
    have hIn : s.inStream (.thread thread) := by rw [Locked.inStream, hPhase]; rfl
    exact h.leaves hEntered (.inr (.inr (.inr rfl))) (hEntered.stream_release (hOwner hIn) rfl)
      (hEntered.write_keep h.write (by rw [hPhase]; rfl))

theorem Owned.unlockWrite (h : Owned s) (hStep : s.unlockWrite thread = some s') : Owned s' := by
  obtain ⟨hPhase, rfl⟩ := unlockWrite_cases hStep
  have hEntered : Entered thread .outside s { s.enter thread .outside with writeLock := none } :=
    ⟨rfl, rfl, fun _ _ => rfl⟩
  have hIn : s.inWrite thread := by rw [Locked.inWrite, hPhase]; rfl
  have hWrite := h.write
  rw [hWrite.owner_eq hIn] at hWrite
  exact h.leaves hEntered (.inr (.inr (.inr rfl)))
    (hEntered.stream_keep h.stream (by rw [hPhase]; rfl)) (hEntered.write_release hWrite rfl)

/-- A step of a thread that holds nothing, and goes on holding nothing. -/
theorem Owned.outside (h : Owned s) {session : Session} {worker : Worker}
    (hOnly : OnlyThread thread s.session session) (hOutside : s.phase thread = .outside)
    (hWorker : worker.inStream = s.worker.inStream) :
    Owned { s with session := session, worker := worker } where
  stream := by
    refine h.stream.keep fun o => ?_
    cases o with
    | thread other => exact Iff.rfl
    | worker => rw [Locked.inStream, Locked.inStream, hWorker]
  write := h.write
  frame other hOther := by
    have hNe : other ≠ thread := by
      rintro rfl
      rw [hOutside] at hOther
      rcases hOther with hIn | hIn
      · cases hIn
      · cases hIn
    rw [hOnly other hNe]
    exact h.frame other hOther
  close other hOther := by
    have hNe : other ≠ thread := by
      rintro rfl
      rw [hOutside] at hOther
      cases hOther
    rw [hOnly other hNe]
    exact h.close other hOther

private theorem gives_taken {worker : Worker} {choice : Choice} (h : worker.gives choice = true) :
    (worker.taken choice).inStream = worker.inStream := by
  cases choice with
  | read result =>
    cases result with
    | shouldClose => rfl
    | endOfStream | streamError | data =>
      have hWorker := of_decide_eq_true h
      rw [hWorker]
      rfl
  | go | bytes | fails | waited | timeout => rfl

/-- A step outside the stream leaves the worker alone, or takes the result of its finished read. -/
theorem runThread_worker {choice : Choice} (hStep : s.runThread W cfg thread choice = some s') :
    (s'.worker = s.worker ∨ ∃ result, s.worker = .finished result) ∧ s'.inbound = s.inbound := by
  unfold Locked.runThread at hStep
  split at hStep
  · cases hStep
  · cases hStep
  · rw [Option.ite_none_right_eq_some] at hStep
    obtain ⟨session, -, rfl⟩ := Option.map_eq_some_iff.mp hStep.2
    refine ⟨?_, rfl⟩
    cases choice with
    | read result =>
      cases result with
      | shouldClose => exact .inl rfl
      | endOfStream | streamError | data => exact .inr ⟨_, of_decide_eq_true hStep.1⟩
    | go | bytes | fails | waited | timeout => exact .inl rfl
  · obtain ⟨session, -, rfl⟩ := Option.map_eq_some_iff.mp hStep
    exact ⟨.inl rfl, rfl⟩

theorem Owned.runThread (h : Owned s) {choice : Choice} (hOutside : s.phase thread = .outside)
    (hStep : s.runThread W cfg thread choice = some s') : Owned s' := by
  unfold Locked.runThread at hStep
  split at hStep
  · cases hStep
  · cases hStep
  · rw [Option.ite_none_right_eq_some] at hStep
    obtain ⟨session, hSession, rfl⟩ := Option.map_eq_some_iff.mp hStep.2
    exact h.outside (onlyThread_run hSession) hOutside (gives_taken hStep.1)
  · obtain ⟨session, hSession, rfl⟩ := Option.map_eq_some_iff.mp hStep
    exact h.outside (onlyThread_run hSession) hOutside rfl

theorem submitRead_cases (hStep : s.submitRead = some s') :
    s.worker = .idle ∧ s' = { s with worker := .submitted } := by
  unfold Locked.submitRead at hStep
  split at hStep
  · rw [Option.ite_none_right_eq_some] at hStep
    exact ⟨hStep.1, (Option.some.inj hStep.2).symm⟩
  · cases hStep

theorem lockRead_cases (hStep : s.lockRead = some s') :
    s.worker = .submitted ∧ s.mutex = none ∧ s' = { s with worker := .reading, mutex := some .worker } := by
  unfold Locked.lockRead at hStep
  rw [Option.ite_none_right_eq_some] at hStep
  exact ⟨hStep.1.1, hStep.1.2, (Option.some.inj hStep.2).symm⟩

theorem socketRead_cases (hStep : s.socketRead = some s') :
    ∃ message rest, s.worker = .reading ∧ s.inbound = message :: rest ∧
      s' = { s with worker := .read message, inbound := rest } := by
  unfold Locked.socketRead at hStep
  split at hStep
  next message rest hWorker hInbound =>
    exact ⟨message, rest, hWorker, hInbound, (Option.some.inj hStep).symm⟩
  next => cases hStep

theorem unlockRead_cases (hStep : s.unlockRead = some s') :
    ∃ result, s.worker = .read result ∧ s' = { s with worker := .finished result, mutex := none } := by
  unfold Locked.unlockRead at hStep
  split at hStep
  next result hWorker => exact ⟨result, hWorker, (Option.some.inj hStep).symm⟩
  next => cases hStep

/-- The sections of the threads are not those of the worker. -/
theorem inStream_thread {worker : Worker} {mutex : Option Owner} {o : Owner} (ho : o ≠ .worker) :
    ({ s with worker := worker, mutex := mutex } : Locked).inStream o ↔ s.inStream o := by
  cases o with
  | thread thread => exact Iff.rfl
  | worker => exact absurd rfl ho

theorem Owned.submitRead (h : Owned s) (hStep : s.submitRead = some s') : Owned s' := by
  obtain ⟨hIdle, rfl⟩ := submitRead_cases hStep
  refine ⟨h.stream.keep fun o => ?_, h.write, h.frame, h.close⟩
  cases o with
  | thread thread => exact Iff.rfl
  | worker => rw [Locked.inStream, Locked.inStream, hIdle]; exact Iff.rfl

theorem Owned.lockRead (h : Owned s) (hStep : s.lockRead = some s') : Owned s' := by
  obtain ⟨-, hFree, rfl⟩ := lockRead_cases hStep
  have hStream := h.stream
  rw [hFree] at hStream
  exact ⟨hStream.acquire rfl fun o ho => inStream_thread ho, h.write, h.frame, h.close⟩

theorem Owned.socketRead (h : Owned s) (hStep : s.socketRead = some s') : Owned s' := by
  obtain ⟨message, rest, hReading, -, rfl⟩ := socketRead_cases hStep
  refine ⟨h.stream.keep fun o => ?_, h.write, h.frame, h.close⟩
  cases o with
  | thread thread => exact Iff.rfl
  | worker => rw [Locked.inStream, Locked.inStream, hReading]; exact Iff.rfl

theorem Owned.unlockRead (h : Owned s) (hStep : s.unlockRead = some s') : Owned s' := by
  obtain ⟨result, hRead, rfl⟩ := unlockRead_cases hStep
  have hIn : s.inStream .worker := by rw [Locked.inStream, hRead]; rfl
  have hStream := h.stream
  rw [hStream.owner_eq hIn] at hStream
  refine ⟨hStream.release (fun hStill => ?_) fun o ho => inStream_thread ho, h.write, h.frame, h.close⟩
  cases hStill

theorem Owned.step (h : Owned s) {action : LockAction}
    (hStep : s.step W cfg server action = some s') : Owned s' := by
  cases action with
  | call i method =>
    simp only [Locked.step, Option.ite_none_right_eq_some] at hStep
    obtain ⟨session, hSession, rfl⟩ := Option.map_eq_some_iff.mp hStep.2
    exact h.outside (onlyThread_call hSession) hStep.1 rfl
  | run thread choice =>
    simp only [Locked.step, Option.ite_none_right_eq_some] at hStep
    exact h.runThread hStep.1 hStep.2
  | lockWrite thread =>
    simp only [Locked.step, Option.ite_none_right_eq_some] at hStep
    exact h.lockWrite hStep.1 hStep.2
  | lockStream thread => exact h.lockStream hStep
  | socket thread choice => exact h.socket hStep
  | unlockStream thread => exact h.unlockStream hStep
  | unlockWrite thread => exact h.unlockWrite hStep
  | submitRead =>
    simp only [Locked.step, Option.ite_none_right_eq_some] at hStep
    exact h.submitRead hStep.2
  | lockRead => exact h.lockRead hStep
  | socketRead => exact h.socketRead hStep
  | unlockRead => exact h.unlockRead hStep
  | serve message =>
    simp only [Locked.step, Locked.serve, Option.ite_none_right_eq_some, Option.some.injEq] at hStep
    obtain ⟨-, rfl⟩ := hStep
    exact ⟨h.stream, h.write, h.frame, h.close⟩

end Actions

private theorem owned_start : Owned (Locked.start cfg) where
  stream o := by
    constructor
    · rintro ⟨⟩
    · intro hIn
      cases o with
      | thread thread => cases hIn
      | worker => cases hIn
  write thread := by
    constructor
    · rintro ⟨⟩
    · rintro ⟨⟩
  frame thread hIn := by
    rcases hIn with hIn | hIn
    · cases hIn
    · cases hIn
  close thread hIn := by cases hIn

theorem owned_of_reachable (h : Reachable (Locked.step W cfg server) (Locked.start cfg) s) : Owned s :=
  h.invariant owned_start fun _ hOwned _ hStep => hOwned.step hStep

private theorem session_of_step {action : LockAction} (hStep : s.step W cfg server action = some s') :
    s'.session = s.session ∨ ∃ sessionAction, step W cfg s.session sessionAction = some s'.session := by
  cases action with
  | call i method =>
    simp only [Locked.step, Option.ite_none_right_eq_some] at hStep
    obtain ⟨session, hSession, rfl⟩ := Option.map_eq_some_iff.mp hStep.2
    exact .inr ⟨_, hSession⟩
  | run thread choice =>
    simp only [Locked.step, Option.ite_none_right_eq_some] at hStep
    have hRun := hStep.2
    unfold Locked.runThread at hRun
    split at hRun
    · cases hRun
    · cases hRun
    · rw [Option.ite_none_right_eq_some] at hRun
      obtain ⟨session, hSession, rfl⟩ := Option.map_eq_some_iff.mp hRun.2
      exact .inr ⟨_, hSession⟩
    · obtain ⟨session, hSession, rfl⟩ := Option.map_eq_some_iff.mp hRun
      exact .inr ⟨_, hSession⟩
  | lockWrite thread =>
    simp only [Locked.step, Option.ite_none_right_eq_some] at hStep
    obtain ⟨-, -, rfl⟩ := lockWrite_cases hStep.2
    exact .inl rfl
  | lockStream thread =>
    obtain ⟨-, ⟨-, rfl⟩ | ⟨-, -, rfl⟩⟩ := lockStream_cases hStep
    · exact .inl rfl
    · exact .inl rfl
  | socket thread choice =>
    obtain ⟨session, hSession, ⟨-, rfl⟩ | ⟨-, rfl⟩⟩ := socket_cases hStep
    · exact .inr ⟨_, hSession⟩
    · exact .inr ⟨_, hSession⟩
  | unlockStream thread =>
    obtain ⟨-, rfl⟩ | ⟨-, rfl⟩ := unlockStream_cases hStep
    · exact .inl rfl
    · exact .inl rfl
  | unlockWrite thread =>
    obtain ⟨-, rfl⟩ := unlockWrite_cases hStep
    exact .inl rfl
  | submitRead =>
    simp only [Locked.step, Option.ite_none_right_eq_some] at hStep
    obtain ⟨-, rfl⟩ := submitRead_cases hStep.2
    exact .inl rfl
  | lockRead =>
    obtain ⟨-, -, rfl⟩ := lockRead_cases hStep
    exact .inl rfl
  | socketRead =>
    obtain ⟨message, rest, -, -, rfl⟩ := socketRead_cases hStep
    exact .inl rfl
  | unlockRead =>
    obtain ⟨result, -, rfl⟩ := unlockRead_cases hStep
    exact .inl rfl
  | serve message =>
    simp only [Locked.step, Locked.serve, Option.ite_none_right_eq_some, Option.some.injEq] at hStep
    obtain ⟨-, rfl⟩ := hStep
    exact .inl rfl

/-- A run over the locks is a run of the session. -/
theorem session_reachable (h : Reachable (Locked.step W cfg server) (Locked.start cfg) s) :
    Reachable (step W cfg) (start cfg) s.session := by
  induction h with
  | start => exact .start
  | step _ _ hStep ih =>
    rcases session_of_step hStep with hSame | ⟨action, hAction⟩
    · rw [hSame]
      exact ih
    · exact ih.step trivial hAction

end Steps
end Eggfetch.WebSocket
