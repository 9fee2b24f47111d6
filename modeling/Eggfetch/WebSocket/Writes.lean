import Mathlib.Data.List.Infix
import Eggfetch.WebSocket.Session

/-! The order of the frames on the wire. A frame is produced outside the write lock, and another
thread may produce and write its own before that frame is written. -/
namespace Eggfetch.WebSocket
open Transition

/-- The stream has taken the produced frames in their order, and nothing after a close frame. -/
structure InOrder (s : Session) : Prop where
  wire : s.shared.wire <+: s.shared.produced.flatMap Frame.bytes
  complete : s.shared.torn = none → (∀ thread, (s.threads thread).frame = none) →
    s.shared.wire = s.shared.produced.flatMap Frame.bytes
  frames : s.shared.written <+: s.shared.produced
  close_last : ∀ before frame after, s.shared.written = before ++ frame :: after →
    frame.event.closes = true → after = [] ∧ s.shared.torn = none

/-- `connection.send` finds no frame that another thread has still to write. The library answers a
second close frame of the server with one of its own, so there is none either. -/
def Alone (s : Session) : Action → Prop
  | .call _ _ => True
  | .run thread _ =>
      match s.threads thread with
      | .ready (.send _ _) => ∀ other, other ≠ thread → (s.threads other).frame = none
      | .ready (.event event _) =>
          s.shared.connection = .closed → ∀ code, event ≠ .closeConnection code
      | _ => True

/-- What a step does to the frames when it neither produces nor writes one. -/
structure SameFrames (W : Connection) (s s' : Shared) (code : Code) (r' : Running) : Prop where
  produced : s'.produced = s.produced
  written : s'.written = s.written
  torn : s'.torn = s.torn
  frame : r'.frame = none
  connection : s'.connection = s.connection ∨
    ∃ event next, code = .event event next ∧ s'.connection = W.yielded s.connection event

section Effects
variable {W : Connection} {cfg : Config} {ended : Thread → Bool} {s s' : Shared} {choice : Choice}
  {code : Code} {r' : Running}

private theorem stepCode_effect (h : stepCode W cfg ended s choice code = some (s', r')) :
    (∃ event next data state, code = .send event next ∧ W.send s.connection event = some state ∧
      s' = { s with connection := state, produced := s.produced ++ [⟨event, data⟩] } ∧
      r' = .writing ⟨event, data⟩ next) ∨
    SameFrames W s s' code r' := by
  cases stepCode_steps h with
  | produced data hSend => exact .inl ⟨_, _, data, _, rfl, hSend, rfl, rfl⟩
  | event => exact .inr ⟨rfl, rfl, rfl, rfl, .inr ⟨_, _, rfl, rfl⟩⟩
  | setShouldClose | connectionState | refused | closeStream | closed | opened | readStream
  | receiveData | put | wait | pingId | get | timedOut | join =>
    exact .inr ⟨rfl, rfl, rfl, rfl, .inl rfl⟩

end Effects

/-- What frames produced one at a time leave behind: all but the last are on the wire. -/
structure OneAtATime (s : Session) : Prop where
  one : ∀ {thread other frame frame'}, (s.threads thread).frame = some frame →
    (s.threads other).frame = some frame' → thread = other
  whole : s.shared.torn = none → (∀ thread, (s.threads thread).frame = none) →
    s.shared.produced = s.shared.written
  held : s.shared.torn = none → ∀ {thread frame}, (s.threads thread).frame = some frame →
    s.shared.produced = s.shared.written ++ [frame]
  failed : ∀ {bytes}, s.shared.torn = some bytes → ∃ frame rest,
    s.shared.produced = s.shared.written ++ frame :: rest ∧ bytes <+: frame.bytes
  ended : ∀ frame ∈ s.shared.produced, frame.event.closes = true → s.shared.connection.ended = true
  last : ∀ frame ∈ s.shared.produced.dropLast, frame.event.closes = false

theorem oneAtATime_start (cfg : Config) : OneAtATime (start cfg) where
  one {thread _ _ _} h _ := by cases thread <;> simp [start, startThread, Running.frame] at h
  whole _ _ := rfl
  held _ thread _ h := by cases thread <;> simp [start, startThread, Running.frame] at h
  failed h := by simp [start] at h
  ended _ h := by simp [start] at h
  last _ h := by simp [start] at h

section Steps
variable {W : Connection} {cfg : Config} {s s' : Session} {thread : Thread} {r' : Running}

private theorem frame_resume {shared : Shared} (hFrame : r'.frame = (s.threads thread).frame)
    (other : Thread) : ((s.resume thread (shared, r')).threads other).frame = (s.threads other).frame := by
  by_cases hOther : other = thread
  · rw [hOther, resume_self, hFrame]
  · rw [resume_other s _ hOther]

private theorem OneAtATime.same {shared : Shared} (h : OneAtATime s)
    (hFrame : r'.frame = (s.threads thread).frame) (hProduced : shared.produced = s.shared.produced)
    (hWritten : shared.written = s.shared.written) (hTorn : shared.torn = s.shared.torn)
    (hEnded : s.shared.connection.ended = true → shared.connection.ended = true) :
    OneAtATime (s.resume thread (shared, r')) where
  one hT hO := by
    rw [frame_resume hFrame] at hT hO
    exact h.one hT hO
  whole hNone hAll := by
    rw [resume_shared, hTorn] at hNone
    rw [resume_shared, hProduced, hWritten]
    exact h.whole hNone fun other => by rw [← frame_resume hFrame other]; exact hAll other
  held hNone other frame hSome := by
    rw [resume_shared, hTorn] at hNone
    rw [frame_resume hFrame] at hSome
    rw [resume_shared, hProduced, hWritten]
    exact h.held hNone hSome
  failed hSome := by
    rw [resume_shared, hTorn] at hSome
    rw [resume_shared, hProduced, hWritten]
    exact h.failed hSome
  ended frame hMem hCloses := by
    rw [resume_shared, hProduced] at hMem
    exact hEnded (h.ended frame hMem hCloses)
  last frame hMem := by
    rw [resume_shared, hProduced] at hMem
    exact h.last frame hMem

private theorem OneAtATime.produce (hW : W.Lawful) (h : OneAtATime s) {event : Outgoing}
    {next : Sent → Code} {data : List UInt8} {state : ConnectionState}
    (hAlone : ∀ other, (s.threads other).frame = none)
    (hSend : W.send s.shared.connection event = some state) :
    OneAtATime (s.resume thread ({ s.shared with
      connection := state, produced := s.shared.produced ++ [⟨event, data⟩] },
      .writing ⟨event, data⟩ next)) := by
  have hOpen : ∀ frame ∈ s.shared.produced, frame.event.closes = false := by
    intro frame hMem
    by_contra hCloses
    have hEnded := h.ended frame hMem (by simpa using hCloses)
    rw [hW.refuses event hEnded] at hSend
    cases hSend
  have hOnly : ∀ {other frame}, ((s.resume thread ({ s.shared with
      connection := state, produced := s.shared.produced ++ [⟨event, data⟩] },
      .writing ⟨event, data⟩ next)).threads other).frame = some frame →
      other = thread ∧ frame = ⟨event, data⟩ := by
    intro other frame hSome
    by_cases hOther : other = thread
    · rw [hOther, resume_self] at hSome
      exact ⟨hOther, (Option.some.inj hSome).symm⟩
    · rw [resume_other s _ hOther, hAlone] at hSome
      cases hSome
  constructor
  case one =>
    intro first second frame frame' hT hO
    rw [(hOnly hT).1, (hOnly hO).1]
  case whole =>
    intro _ hAll
    have := hAll thread
    rw [resume_self] at this
    cases this
  case held =>
    intro hNone other frame hSome
    rw [(hOnly hSome).2]
    simp only [resume_shared] at hNone ⊢
    rw [h.whole hNone hAlone]
  case failed =>
    intro bytes hSome
    obtain ⟨frame, rest, hProduced, hPrefix⟩ := h.failed hSome
    refine ⟨frame, rest ++ [⟨event, data⟩], ?_, hPrefix⟩
    simp [hProduced]
  case ended =>
    intro frame hMem hCloses
    simp only [resume_shared, List.mem_append, List.mem_singleton] at hMem ⊢
    rcases hMem with hMem | rfl
    · rw [hOpen frame hMem] at hCloses
      cases hCloses
    · cases event <;> simp [Outgoing.closes] at hCloses
      exact hW.close_ends hSend
  case last =>
    intro frame hMem
    rw [resume_shared, List.dropLast_concat] at hMem
    exact hOpen frame hMem

private theorem OneAtATime.write (h : OneAtATime s) {frame : Frame} {shared : Shared}
    (hHeld : (s.threads thread).frame = some frame) (hFrame : r'.frame = none)
    (hShared : (s.shared.torn = none ∧
        shared = { s.shared with written := s.shared.written ++ [frame] }) ∨
      ∃ n, shared = { s.shared with torn := some (s.shared.torn.getD (frame.bytes.take n)) }) :
    OneAtATime (s.resume thread (shared, r')) := by
  have hNobody : ∀ other, ((s.resume thread (shared, r')).threads other).frame = none := by
    intro other
    by_cases hOther : other = thread
    · rw [hOther, resume_self, hFrame]
    · rw [resume_other s _ hOther]
      by_contra hSome
      obtain ⟨frame', hFrame'⟩ := Option.ne_none_iff_exists'.mp hSome
      exact hOther (h.one hFrame' hHeld)
  constructor
  case one =>
    intro first _ _ _ hT _
    rw [hNobody first] at hT
    cases hT
  case held =>
    intro _ other _ hSome
    rw [hNobody other] at hSome
    cases hSome
  case whole =>
    intro hNone _
    rcases hShared with ⟨hTorn, rfl⟩ | ⟨n, rfl⟩
    · exact h.held hTorn hHeld
    · cases hNone
  case failed =>
    intro bytes hSome
    rcases hShared with ⟨hTorn, rfl⟩ | ⟨n, rfl⟩
    · rw [resume_shared, hTorn] at hSome
      cases hSome
    · obtain rfl : s.shared.torn.getD (frame.bytes.take n) = bytes := by simpa using hSome
      cases hTorn : s.shared.torn with
      | none => exact ⟨frame, [], h.held hTorn hHeld, List.take_prefix n frame.bytes⟩
      | some bytes => exact h.failed hTorn
  case ended =>
    rcases hShared with ⟨-, rfl⟩ | ⟨n, rfl⟩
    · exact h.ended
    · exact h.ended
  case last =>
    rcases hShared with ⟨-, rfl⟩ | ⟨n, rfl⟩
    · exact h.last
    · exact h.last

private theorem OneAtATime.step (hW : W.Lawful) (h : OneAtATime s) {action : Action}
    (hAlone : Alone s action) (hStep : WebSocket.step W cfg s action = some s') : OneAtATime s' := by
  cases action with
  | call i method =>
    obtain ⟨hEnded, rfl⟩ := step_call hStep
    have hNone : (s.threads (.user i)).frame = none := by
      unfold Session.ended at hEnded
      cases hThread : s.threads (.user i) <;> rw [hThread] at hEnded
      · rfl
      · cases hEnded
    exact h.same hNone.symm rfl rfl rfl id
  | run thread choice =>
    obtain ⟨⟨shared, r'⟩, hResult, rfl⟩ := step_run hStep
    cases hThread : s.threads thread with
    | writing frame next =>
      rw [hThread] at hResult
      have hHeld : (s.threads thread).frame = some frame := by rw [hThread]; rfl
      rcases writeFrame_eq hResult with ⟨hTorn, hShared, rfl⟩ | ⟨n, hShared, rfl⟩
      · exact h.write hHeld rfl (.inl ⟨hTorn, hShared⟩)
      · exact h.write hHeld rfl (.inr ⟨n, hShared⟩)
    | ready code =>
      rw [hThread] at hResult
      have hNone : (s.threads thread).frame = none := by rw [hThread]; rfl
      simp only [Alone, hThread] at hAlone
      rcases stepCode_effect hResult with ⟨event, next, data, state, rfl, hSend, rfl, rfl⟩ | hSame
      · refine h.produce hW (fun other => ?_) hSend
        by_cases hOther : other = thread
        · rw [hOther, hNone]
        · exact hAlone other hOther
      · refine h.same (hSame.frame.trans hNone.symm) hSame.produced hSame.written hSame.torn ?_
        intro hEnded
        rcases hSame.connection with hKept | ⟨event, next, rfl, hYielded⟩
        · rw [hKept, hEnded]
        · rw [hYielded]
          cases hState : s.shared.connection <;> rw [hState] at hEnded <;> try cases hEnded
          · exact hW.yielded_localClosing event
          · exact hW.yielded_closed event (hAlone hState)

theorem OneAtATime.frames (h : OneAtATime s) : s.shared.written <+: s.shared.produced := by
  cases hTorn : s.shared.torn with
  | some bytes =>
    obtain ⟨frame, rest, hProduced, -⟩ := h.failed hTorn
    exact ⟨frame :: rest, hProduced.symm⟩
  | none =>
    by_cases hNobody : ∀ thread, (s.threads thread).frame = none
    · rw [h.whole hTorn hNobody]
    · obtain ⟨thread, hSome⟩ := not_forall.mp hNobody
      obtain ⟨frame, hFrame⟩ := Option.ne_none_iff_exists'.mp hSome
      exact ⟨[frame], (h.held hTorn hFrame).symm⟩

theorem OneAtATime.wire (h : OneAtATime s) :
    s.shared.wire <+: s.shared.produced.flatMap Frame.bytes := by
  cases hTorn : s.shared.torn with
  | none =>
    obtain ⟨rest, hRest⟩ := h.frames
    exact ⟨rest.flatMap Frame.bytes, by simp [Shared.wire, hTorn, ← hRest]⟩
  | some bytes =>
    obtain ⟨frame, rest, hProduced, more, hMore⟩ := h.failed hTorn
    exact ⟨more ++ rest.flatMap Frame.bytes, by simp [Shared.wire, hTorn, hProduced, ← hMore]⟩

private theorem OneAtATime.close_last (h : OneAtATime s) {before after : List Frame} {frame : Frame}
    (hWritten : s.shared.written = before ++ frame :: after) (hCloses : frame.event.closes = true) :
    after = [] ∧ s.shared.torn = none := by
  have hEnd : ∀ rest, s.shared.produced = s.shared.written ++ rest → after ++ rest = [] := by
    intro rest hProduced
    by_contra hMore
    have hMem : frame ∈ s.shared.produced.dropLast := by
      rw [hProduced, hWritten, List.append_assoc, List.cons_append,
        List.dropLast_append_of_ne_nil (List.cons_ne_nil _ _), List.dropLast_cons_of_ne_nil hMore]
      simp
    rw [h.last frame hMem] at hCloses
    cases hCloses
  obtain ⟨rest, hRest⟩ := h.frames
  refine ⟨(List.append_eq_nil_iff.mp (hEnd rest hRest.symm)).1, ?_⟩
  cases hTorn : s.shared.torn with
  | none => rfl
  | some bytes =>
    obtain ⟨frame', rest, hProduced, -⟩ := h.failed hTorn
    have hNil := hEnd (frame' :: rest) hProduced
    simp at hNil

theorem OneAtATime.inOrder (h : OneAtATime s) : InOrder s where
  wire := h.wire
  complete hTorn hNobody := by simp [Shared.wire, hTorn, h.whole hTorn hNobody]
  frames := h.frames
  close_last _ _ _ hWritten hCloses := h.close_last hWritten hCloses

end Steps

/-- While no two threads stand between production and write, the wire has the frames in their
order and nothing after a close frame. -/
theorem inOrder_of_alone (W : Connection) (hW : W.Lawful) (cfg : Config) {s : Session}
    (hReach : Reaches (step W cfg) Alone (start cfg) s) : InOrder s := by
  have hInvariant : OneAtATime s :=
    hReach.invariant (oneAtATime_start cfg) fun _ h hAlone hStep => h.step hW hAlone hStep
  exact hInvariant.inOrder

def defaultConfig : Config := ⟨512, 65536, true, true⟩

def messageFrame (i : UInt8) : Frame := ⟨.message false [i] true, [130, i]⟩

def closeFrame : Frame := ⟨.closeConnection 1000 none, [136]⟩

/-- Two threads call `send` and produce in turn; then the second closes, and the first sends in vain. -/
def inTurn : List Action :=
  [.call 0 (.send (.message false [1] true)), .call 1 (.send (.message false [2] true)),
    .run (.user 0) (.bytes [130, 1]), .run (.user 0) .go, .run (.user 1) (.bytes [130, 2]), .run (.user 1) .go,
    .call 1 (.close 1000 none), .call 0 (.send (.message false [3] true)), .run (.user 1) .go, .run (.user 1) .go,
    .run (.user 1) (.bytes [136]), .run (.user 1) .go, .run (.user 0) (.bytes [130, 3])]

private theorem alone_of_nobody {s : Session} (h : ∀ other, (s.threads other).frame = none) {thread : Thread}
    {event : Outgoing} {next : Sent → Code} (hThread : s.threads thread = .ready (.send event next)) (choice : Choice) :
    Alone s (.run thread choice) := by
  rw [Alone, hThread]
  exact fun other _ => h other

theorem inOrder_of_alone_inTurn : ∃ s,
    run (step wsproto defaultConfig) (start defaultConfig) inTurn = some s ∧
      s.shared.written = [messageFrame 1, messageFrame 2, closeFrame] ∧ InOrder s := by
  have hAlong : Along (step wsproto defaultConfig) (fun s action _ => Alone s action)
      (start defaultConfig) inTurn := by
    refine along_cons.mpr ⟨_, rfl, trivial, along_cons.mpr ⟨_, rfl, trivial, along_cons.mpr ⟨_, rfl, ?_,
      along_cons.mpr ⟨_, rfl, trivial, along_cons.mpr ⟨_, rfl, ?_, along_cons.mpr ⟨_, rfl, trivial,
      along_cons.mpr ⟨_, rfl, trivial, along_cons.mpr ⟨_, rfl, trivial, along_cons.mpr ⟨_, rfl, trivial,
      along_cons.mpr ⟨_, rfl, trivial, along_cons.mpr ⟨_, rfl, ?_, along_cons.mpr ⟨_, rfl, trivial,
      along_cons.mpr ⟨_, rfl, ?_, trivial⟩⟩⟩⟩⟩⟩⟩⟩⟩⟩⟩⟩⟩
    · exact alone_of_nobody (fun | .receiver | .keepalive | .user 0 | .user 1 | .user (_ + 2) => rfl) rfl _
    · exact alone_of_nobody (fun | .receiver | .keepalive | .user 0 | .user 1 | .user (_ + 2) => rfl) rfl _
    · exact alone_of_nobody (fun | .receiver | .keepalive | .user 0 | .user 1 | .user (_ + 2) => rfl) rfl _
    · exact alone_of_nobody (fun | .receiver | .keepalive | .user 0 | .user 1 | .user (_ + 2) => rfl) rfl _
  exact ⟨_, rfl, rfl, inOrder_of_alone wsproto wsproto_lawful defaultConfig (Reaches.start.along hAlong rfl)⟩

/-- Both threads produce before either writes, and the second writes first. -/
def overtaking : List Action :=
  [.call 0 (.send (.message false [1] true)), .call 1 (.send (.message false [2] true)),
    .run (.user 0) (.bytes [130, 1]), .run (.user 1) (.bytes [130, 2]),
    .run (.user 1) .go, .run (.user 0) .go]

/-- A thread closes the session while another has a message to write. -/
def closing : List Action :=
  [.call 0 (.send (.message false [1] true)), .call 1 (.close 1000 none),
    .run (.user 0) (.bytes [130, 1]), .run (.user 1) .go, .run (.user 1) .go,
    .run (.user 1) (.bytes [136]), .run (.user 1) .go, .run (.user 0) .go]

private theorem run_overtaking :
    (run (step wsproto defaultConfig) (start defaultConfig) overtaking).map
      (fun s => (s.shared.produced, s.shared.written)) =
    some ([messageFrame 1, messageFrame 2], [messageFrame 2, messageFrame 1]) := rfl

private theorem run_closing :
    (run (step wsproto defaultConfig) (start defaultConfig) closing).map
      (fun s => (s.shared.produced, s.shared.written)) =
    some ([messageFrame 1, closeFrame], [closeFrame, messageFrame 1]) := rfl

/-- Two messages can change places on the wire, and a message can follow the close frame. -/
theorem not_inOrder :
    (∃ s, Reachable (step wsproto defaultConfig) (start defaultConfig) s ∧
      s.shared.produced = [messageFrame 1, messageFrame 2] ∧
      s.shared.written = [messageFrame 2, messageFrame 1]) ∧
    (∃ s, Reachable (step wsproto defaultConfig) (start defaultConfig) s ∧
      s.shared.written = [closeFrame, messageFrame 1]) ∧
    ¬ ∀ (W : Connection), W.Lawful → ∀ (cfg : Config) (s : Session),
      Reachable (step W cfg) (start cfg) s → InOrder s := by
  obtain ⟨s, hRun, hFrames⟩ := Option.map_eq_some_iff.mp run_overtaking
  obtain ⟨s', hRun', hFrames'⟩ := Option.map_eq_some_iff.mp run_closing
  obtain ⟨hProduced, hWritten⟩ := Prod.mk.inj hFrames
  have hReach := Reaches.start.run hRun
  refine ⟨⟨s, hReach, hProduced, hWritten⟩,
    ⟨s', Reaches.start.run hRun', (Prod.mk.inj hFrames').2⟩, ?_⟩
  intro hAll
  have hPrefix := (hAll wsproto wsproto_lawful defaultConfig s hReach).frames
  rw [hProduced, hWritten] at hPrefix
  exact absurd hPrefix (by decide)

end Eggfetch.WebSocket
