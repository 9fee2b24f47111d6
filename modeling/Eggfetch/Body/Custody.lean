import Eggfetch.Body.Lease

/-! The lease of a response body over every way of reading it. -/
namespace Eggfetch.Body
open Text Polling
open Compression (DecompressionLimit alreadyConsumed)

def chunk? {E C : Type} : Poll (Option (Except E C)) → Option C
  | .ready (some (.ok chunk)) => some chunk
  | _ => none

def chunkOf {E : Type} (a : Poll (Option (Except E Str))) : Str := (chunk? a).getD []

/-- The bytes of the first `n` answers of a stream. -/
def given {E : Type} (stream : Answers E Str) : Nat → Str
  | 0 => []
  | n + 1 => given stream n ++ chunkOf (stream n)

/-- The chunks of the first `n` answers. -/
def frames {E C : Type} (stream : Answers E C) (n : Nat) : List C := (List.range n).filterMap fun i => chunk? (stream i)

namespace Event

def bytes : Event → Str
  | answer a => chunkOf a
  | _ => []

def ends : Event → Bool
  | attempt unread failure => unread && failure.isSome
  | answer a => !a.goesOn
  | droppedReader => true
  | droppedBody unread => unread

def failure? : Event → Option (Option Compression.Error)
  | attempt _ failure => some failure
  | _ => none

def isFailure : Event → Bool
  | answer a => a.isError
  | _ => false

end Event

def yielded (log : List Event) : Str := log.flatMap Event.bytes

def attempts (log : List Event) : List (Option Compression.Error) := log.filterMap Event.failure?

def Custody.held (s : Custody) : Nat := count (s.body.bind ResponseBody.lease) + count (s.reader.bind Reader.lease)

section
variable (instantMax : Instant) (decompress : Stream → Str → DecompressionLimit → Except Compression.Error Stream)

/-- What the reader was given is what the selected stream gave, but for a chunk that a timeout
took the place of. -/
structure Reads (start : ResponseBody) (log : List Event) (rd : Reader) : Prop where
  stream : ∃ raw rd₀, start.takeStream instantMax decompress raw = .ok rd₀ ∧ rd.stream = rd₀.stream
  exact : ∃ withheld, yielded log ++ withheld = given rd.stream rd.timed.polled ∧ (withheld = [] ∨ rd.timed.done = true)
  stopped : rd.timed.done = true → log.any Event.isFailure = true
  plain : rd.timeouts = none → rd.timed.done = false
  ended : .answer (.ready none) ∈ log → log.any Event.isFailure = true ∨ ∃ i < rd.timed.polled, (rd.stream i).isEnd = true

/-- The lease is released once, with the first event that ends the use of the body; every later
try to read it is refused; no byte is lost or given twice. -/
structure Sound (start : ResponseBody) (s : Custody) : Prop where
  once : s.released + s.held = count start.lease
  released : s.log.any Event.ends = true → s.held = 0
  kept : s.log.any Event.ends = false → s.released = 0
  refused : ∀ failure ∈ (attempts s.log).drop (if start.unread then 1 else 0), failure = some alreadyConsumed
  bytes : ∀ rd ∈ s.reader, Reads instantMax decompress start s.log rd

/-- What a native body has given, and the lease it keeps until its first end or error. -/
structure NativeReads {E C : Type} (inner : Answers E C) (lease : Option Lease)
    (log : List (Poll (Option (Except (BodyError E) C)))) (s : NativeResponseBody) : Prop where
  lease : s.lease = if log.all Poll.goesOn then lease else none
  done : s.timed.done = !log.all Poll.goesOn
  exact : ∃ withheld, log.filterMap chunk? ++ withheld = frames inner s.timed.polled ∧
    (withheld = [] ∨ log.any Poll.isError = true)
  ended : .ready none ∈ log → log.any Poll.isError = true ∨ ∃ i < s.timed.polled, (inner i).isEnd = true
  fused : log.Pairwise fun a b => a.goesOn = false → b = .ready none

def Untouched (start : ResponseBody) (s : Custody) : Prop := ∀ body ∈ s.body, body.unread = true → s = { body := some start }

end

@[simp] theorem given_succ {E : Type} (stream : Answers E Str) (n : Nat) :
    given stream (n + 1) = given stream n ++ chunkOf (stream n) := rfl

@[simp] theorem yielded_append (log : List Event) (e : Event) : yielded (log ++ [e]) = yielded log ++ e.bytes := by
  rw [yielded, List.flatMap_append, List.flatMap_singleton]
  rfl

@[simp] theorem attempts_append (log : List Event) (e : Event) : attempts (log ++ [e]) = attempts log ++ e.failure?.toList := by
  rw [attempts, List.filterMap_append]
  cases h : e.failure? with
  | none => rw [List.filterMap_cons_none h]; rfl
  | some failure => rw [List.filterMap_cons_some h]; rfl

theorem any_append (p : Event → Bool) (log : List Event) (e : Event) : (log ++ [e]).any p = (log.any p || p e) := by
  rw [List.any_append, List.any_cons, List.any_nil, Bool.or_false]

theorem passOn_spec {E C : Type} (a : Poll (Option (Except E C))) :
    chunk? (passOn a) = chunk? a ∧ (passOn a).isError = a.isError ∧ (passOn a).isEnd = a.isEnd := by
  rcases a with _ | _ | _ | _
  · exact ⟨rfl, rfl, rfl⟩
  · exact ⟨rfl, rfl, rfl⟩
  · exact ⟨rfl, rfl, rfl⟩
  · exact ⟨rfl, rfl, rfl⟩

/-- What one poll can do to a timed body: it is fused, or stopped by a timeout, or passes an
answer of the inner body on; then it is done with the last answer if it settles so. -/
theorem TimedBody.poll_passes {E C : Type} (settle : TimedBody → TimedBody) {fuses : Bool}
    (hkept : ∀ s, (settle s).polled = s.polled) (hfuses : ∀ s, s.done = false → (settle s).done = fuses)
    (t : Timeouts) (inner : Answers E C) (r : Readings) (s : TimedBody) :
    (s.done = true ∧ TimedBody.poll settle t inner r s = (.ready none, s)) ∨
      (s.done = false ∧ (TimedBody.poll settle t inner r s).1.isError = true ∧
        (TimedBody.poll settle t inner r s).2.done = true ∧
        ((TimedBody.poll settle t inner r s).2.polled = s.polled ∨
          (TimedBody.poll settle t inner r s).2.polled = s.polled + 1)) ∨
      (s.done = false ∧ (TimedBody.poll settle t inner r s).1 = passOn (inner s.polled) ∧
        (TimedBody.poll settle t inner r s).2.polled = s.polled + 1 ∧
        (TimedBody.poll settle t inner r s).2.done = (!(inner s.polled).goesOn && fuses)) := by
  have hcases := TimedBody.polls_cases settle t inner r s
  generalize TimedBody.poll settle t inner r s = q at hcases
  obtain ⟨answer, s'⟩ := q
  have hpolled : (s.arm t r).next.polled = s.polled + 1 := congrArg (· + 1) TimedBody.arm_polled
  have hdone (h : s.done = false) : (s.arm t r).next.done = false := TimedBody.arm_done.trans h
  cases hcases with
  | fused h => exact .inl ⟨h, rfl⟩
  | expired h hstop _ _ hsame => exact .inr (.inl ⟨h, rfl, hstop, .inl hsame⟩)
  | total h hstop _ _ hnext _ => exact .inr (.inl ⟨h, rfl, hstop, .inr hnext⟩)
  | read h hstop _ _ hnext _ _ _ => exact .inr (.inl ⟨h, rfl, hstop, .inr hnext⟩)
  | chunk h hc _ =>
    obtain ⟨hrestart, -, hsame, -⟩ := TimedBody.restart_fields (t := t) (r := r) (s.arm t r).next
    exact .inr (.inr ⟨h, by rw [hc]; rfl, hrestart.trans hpolled, by rw [hc]; exact hsame.trans (hdone h)⟩)
  | error hsettled he =>
    exact .inr (.inr ⟨hsettled.done, by rw [he]; rfl, (hkept _).trans hpolled,
      by rw [he]; exact hfuses _ (hdone hsettled.done)⟩)
  | finished hsettled hend =>
    exact .inr (.inr ⟨hsettled.done, by rw [hend]; rfl, (hkept _).trans hpolled,
      by rw [hend]; exact hfuses _ (hdone hsettled.done)⟩)
  | pending h hpending => exact .inr (.inr ⟨h, by rw [hpending]; rfl, hpolled, by rw [hpending]; exact hdone h⟩)

namespace Reader
variable (rd : Reader) (r : Readings)

/-- What one poll can do to a reader. -/
theorem poll_cases (hplain : rd.timeouts = none → rd.timed.done = false) :
    (rd.timed.done = true ∧ (rd.pollTimed r).1 = .ready none ∧ (rd.pollTimed r).2 = rd.timed) ∨
      (rd.timeouts ≠ none ∧ rd.timed.done = false ∧ (rd.pollTimed r).1.isError = true ∧ (rd.pollTimed r).2.done = true ∧
        ((rd.pollTimed r).2.polled = rd.timed.polled ∨ (rd.pollTimed r).2.polled = rd.timed.polled + 1)) ∨
      (rd.timed.done = false ∧ (rd.pollTimed r).1 = passOn (rd.stream rd.timed.polled) ∧ (rd.pollTimed r).2.done = false ∧
        (rd.pollTimed r).2.polled = rd.timed.polled + 1) := by
  rw [pollTimed.eq_def]
  split
  · rename_i t ht
    rw [pollNext]
    rcases TimedBody.poll_passes (fun s => { s with readDeadline := none, totalSleep := none })
      (fun _ => rfl) (fun _ h => h) t rd.stream r rd.timed with
      ⟨hdone, hpoll⟩ | ⟨hdone, herror, hstop, hpolled⟩ | ⟨hdone, ha, hpolled, hgoing⟩
    · rw [hpoll]
      exact .inl ⟨hdone, rfl, rfl⟩
    · exact .inr (.inl ⟨by simp [ht], hdone, herror, hstop, hpolled⟩)
    · exact .inr (.inr ⟨hdone, ha, hgoing.trans (Bool.and_false _), hpolled⟩)
  · rename_i hnone
    exact .inr (.inr ⟨hplain hnone, rfl, hplain hnone, rfl⟩)

theorem poll_lease : count (rd.poll r).2.lease = if (rd.poll r).1.goesOn then count rd.lease else 0 := by
  rw [poll]
  dsimp only
  split
  · rfl
  · rfl

end Reader

section
variable {instantMax : Instant} {decompress : Stream → Str → DecompressionLimit → Except Compression.Error Stream}
  {start : ResponseBody} {s : Custody}

private theorem chunkOf_error {E : Type} {a : Poll (Option (Except E Str))} (h : a.isError = true) : chunkOf a = [] := by
  rcases a with _ | _ | _ | _
  · rfl
  · rfl
  · rfl
  · cases h

variable {log : List Event} {rd : Reader} {timed : TimedBody} {lease : Option Lease} {a : Answer}

private theorem reads_fused (h : Reads instantMax decompress start log rd) (hdone : rd.timed.done = true) :
    Reads instantMax decompress start (log ++ [Event.answer (.ready none)]) { rd with lease } := by
  have hfailed : (log ++ [Event.answer (.ready none)]).any Event.isFailure = true := by
    rw [any_append, h.stopped hdone, Bool.true_or]
  obtain ⟨withheld, hexact, -⟩ := h.exact
  refine ⟨h.stream, ⟨withheld, ?_, .inr hdone⟩, fun _ => hfailed, h.plain, fun _ => .inl hfailed⟩
  rw [yielded_append, ← hexact]
  exact congrArg (· ++ withheld) (List.append_nil _)

private theorem reads_stopped (h : Reads instantMax decompress start log rd) (hsome : rd.timeouts ≠ none)
    (hdone : rd.timed.done = false) (ha : a.isError = true) (hstop : timed.done = true)
    (hpolled : timed.polled = rd.timed.polled ∨ timed.polled = rd.timed.polled + 1) :
    Reads instantMax decompress start (log ++ [Event.answer a]) { rd with timed, lease } := by
  have hfailed : (log ++ [Event.answer a]).any Event.isFailure = true := by
    rw [any_append, Event.isFailure, ha, Bool.or_true]
  obtain ⟨withheld, hexact, hwithheld⟩ := h.exact
  have hnil : withheld = [] := hwithheld.resolve_right (by simp [hdone])
  rw [hnil, List.append_nil] at hexact
  have hyielded : yielded (log ++ [Event.answer a]) = given rd.stream rd.timed.polled := by
    rw [yielded_append, Event.bytes, chunkOf_error ha, List.append_nil, hexact]
  refine ⟨h.stream, ?_, fun _ => hfailed, fun hnone => absurd hnone hsome, fun _ => .inl hfailed⟩
  rcases hpolled with hpolled | hpolled
  · exact ⟨[], by rw [List.append_nil, hyielded, hpolled], .inl rfl⟩
  · exact ⟨chunkOf (rd.stream rd.timed.polled), by rw [hyielded, hpolled]; rfl, .inr hstop⟩

private theorem reads_passed (h : Reads instantMax decompress start log rd) (hdone : rd.timed.done = false)
    (hgoing : timed.done = false) (hpolled : timed.polled = rd.timed.polled + 1) :
    Reads instantMax decompress start (log ++ [Event.answer (passOn (rd.stream rd.timed.polled))])
      { rd with timed, lease } := by
  obtain ⟨hsame, -, hend⟩ := passOn_spec (rd.stream rd.timed.polled)
  have hchunk : chunkOf (passOn (rd.stream rd.timed.polled)) = chunkOf (rd.stream rd.timed.polled) :=
    congrArg (Option.getD · []) hsame
  obtain ⟨withheld, hexact, hwithheld⟩ := h.exact
  have hnil : withheld = [] := hwithheld.resolve_right (by simp [hdone])
  rw [hnil, List.append_nil] at hexact
  refine ⟨h.stream, ⟨[], ?_, .inl rfl⟩, fun hstop => ?_, fun _ => hgoing, fun hmem => ?_⟩
  · rw [List.append_nil, yielded_append, Event.bytes, hchunk, hexact, hpolled]
    rfl
  · rw [show timed.done = true from hstop] at hgoing
    cases hgoing
  · show _ ∨ ∃ i < timed.polled, _
    rw [hpolled]
    rcases List.mem_append.mp hmem with hold | hnew
    · rcases h.ended hold with hfailed | ⟨i, hi, hlast⟩
      · exact .inl (by rw [any_append, hfailed, Bool.true_or])
      · exact .inr ⟨i, Nat.lt_succ_of_lt hi, hlast⟩
    · refine .inr ⟨rd.timed.polled, Nat.lt_succ_self _, ?_⟩
      rw [← hend, ← Event.answer.inj (List.mem_singleton.mp hnew)]
      rfl

theorem reads_poll (h : Reads instantMax decompress start log rd) (r : Readings) :
    Reads instantMax decompress start (log ++ [Event.answer (rd.poll r).1]) (rd.poll r).2 := by
  rw [Reader.poll]
  dsimp only
  rcases rd.poll_cases r h.plain with ⟨hdone, ha, hs⟩ | ⟨hsome, hdone, ha, hstop, hpolled⟩ | ⟨hdone, ha, hgoing, hpolled⟩
  · rw [ha, hs]
    exact reads_fused h hdone
  · exact reads_stopped h hsome hdone ha hstop hpolled
  · rw [ha]
    exact reads_passed h hdone hgoing hpolled

theorem reads_other {e : Event} (he : ∀ a, e ≠ .answer a) (h : Reads instantMax decompress start log rd) :
    Reads instantMax decompress start (log ++ [e]) rd := by
  have hbytes : e.bytes = [] ∧ e.isFailure = false := by
    cases e with
    | answer a => exact absurd rfl (he a)
    | _ => exact ⟨rfl, rfl⟩
  have hfailed : (log ++ [e]).any Event.isFailure = log.any Event.isFailure := by rw [any_append, hbytes.2, Bool.or_false]
  refine ⟨h.stream, ?_, ?_, h.plain, fun hmem => ?_⟩
  · rw [yielded_append, hbytes.1, List.append_nil]
    exact h.exact
  · rw [hfailed]
    exact h.stopped
  · rw [hfailed]
    rcases List.mem_append.mp hmem with hold | hnew
    · exact h.ended hold
    · exact absurd (List.mem_singleton.mp hnew).symm (he _)

theorem takeStream_ok {raw : Bool} (h : start.takeStream instantMax decompress raw = .ok rd) :
    start.unread = true ∧ rd.lease = start.lease ∧ rd.timed = {} := by
  cases start with
  | buffered bytes =>
    cases h
    exact ⟨rfl, rfl, rfl⟩
  | streaming stream lease =>
    cases h
    exact ⟨rfl, rfl, rfl⟩
  | encodedStreaming stream lease ce limit =>
    rw [ResponseBody.takeStream] at h
    cases hselected : (if raw then .ok stream else decompress stream ce limit : Except Compression.Error Stream) with
    | error e =>
      rw [hselected] at h
      cases h
    | ok selected =>
      rw [hselected] at h
      cases h
      exact ⟨rfl, rfl, rfl⟩
  | consumed => cases h

theorem lease_of_read {body : ResponseBody} (h : body.unread = false) : body = .consumed := by
  cases body with
  | consumed => rfl
  | _ => cases h

private theorem touched (h : Untouched start s) (hs : s ≠ { body := some start }) : s.body.bind ResponseBody.lease = none := by
  cases hbody : s.body with
  | none => rfl
  | some body =>
    cases hunread : body.unread with
    | true => exact absurd (h body hbody hunread) hs
    | false => rw [lease_of_read hunread]; rfl

/-- What all states of a run keep. -/
structure Kept (instantMax : Instant) (decompress : Stream → Str → DecompressionLimit → Except Compression.Error Stream)
    (start : ResponseBody) (s : Custody) : Prop where
  sound : Sound instantMax decompress start s
  untouched : Untouched start s

theorem kept_start : Kept instantMax decompress start { body := some start } where
  sound :=
    { once := Nat.zero_add _
      released := (by intros; contradiction)
      kept := fun _ => rfl
      refused := fun _ h => absurd (List.mem_of_mem_drop h) List.not_mem_nil
      bytes := (by intros; contradiction) }
  untouched := fun _ _ _ => rfl

private theorem kept_refused (h : Kept instantMax decompress start s) (hbody : s.body = some .consumed) :
    Kept instantMax decompress start
      { s with body := some .consumed, log := s.log ++ [.attempt false (some alreadyConsumed)] } where
  sound :=
    { once := by
        have honce := h.sound.once
        rw [Custody.held, hbody] at honce
        exact honce
      released := by
        rw [any_append, Event.ends, Bool.false_and, Bool.or_false]
        have hreleased := h.sound.released
        rw [Custody.held, hbody] at hreleased
        exact hreleased
      kept := by
        rw [any_append, Event.ends, Bool.false_and, Bool.or_false]
        exact h.sound.kept
      refused := by
        intro failure hmem
        rw [attempts_append, List.drop_append] at hmem
        rcases List.mem_append.mp hmem with hold | hnew
        · exact h.sound.refused failure hold
        · exact List.mem_singleton.mp (List.mem_of_mem_drop hnew)
      bytes := fun rd hrd => reads_other (fun _ h => (by cases h)) (h.sound.bytes rd hrd) }
  untouched := by
    intro body hmem hunread
    rw [← Option.some.inj hmem] at hunread
    cases hunread

theorem refused_first (unread : start.unread = true) (failure : Option Compression.Error) :
    ∀ f ∈ (attempts [Event.attempt true failure]).drop (if start.unread then 1 else 0), f = some alreadyConsumed := by
  rw [unread]
  exact fun f hf => absurd hf List.not_mem_nil

private theorem kept_taken (raw : Bool) (hunread : start.unread = true) :
    Kept instantMax decompress start
      (Custody.takeStream instantMax decompress raw { body := some start } start) := by
  rw [Custody.takeStream, hunread]
  cases htaken : start.takeStream instantMax decompress raw with
  | error e =>
    refine ⟨⟨?_, fun _ => rfl, (by intros; contradiction), refused_first hunread _, (by intros; contradiction)⟩,
      fun body hbody hu => ?_⟩
    · exact Nat.zero_add _
    · rw [← Option.some.inj hbody] at hu
      cases hu
  | ok rd =>
    obtain ⟨-, hlease, htimed⟩ := takeStream_ok htaken
    refine ⟨⟨?_, (by intros; contradiction), fun _ => rfl, refused_first hunread _, fun rd' hrd' => ?_⟩, fun body hbody hu => ?_⟩
    · show 0 + (0 + count rd.lease) = count start.lease
      rw [hlease, Nat.zero_add, Nat.zero_add]
    · obtain rfl : rd = rd' := Option.some.inj hrd'
      refine ⟨⟨raw, rd, htaken, rfl⟩, ⟨[], ?_, .inl rfl⟩, ?_, ?_, ?_⟩
      · rw [htimed]
        rfl
      · rw [htimed]
        intros
        contradiction
      · rw [htimed]
        exact fun _ => rfl
      · exact fun hmem => absurd (List.mem_singleton.mp hmem) (by intro h; cases h)
    · rw [← Option.some.inj hbody] at hu
      cases hu

theorem kept_takeStream (raw : Bool) (h : Kept instantMax decompress start s) {body : ResponseBody} (hbody : s.body = some body) :
    Kept instantMax decompress start (s.takeStream instantMax decompress raw body) := by
  cases hunread : body.unread with
  | true =>
    have hs := h.untouched body hbody hunread
    obtain rfl : start = body := Option.some.inj (by rw [← hbody, hs])
    rw [hs]
    exact kept_taken raw hunread
  | false =>
    obtain rfl := lease_of_read hunread
    exact kept_refused h hbody

theorem kept_bytes (h : Kept instantMax decompress start s) {body : ResponseBody} (hbody : s.body = some body) :
    Kept instantMax decompress start (s.bytes instantMax decompress body) := by
  cases body with
  | buffered bytes =>
    have hs := h.untouched _ hbody rfl
    obtain rfl : start = .buffered bytes := Option.some.inj (by rw [← hbody, hs])
    have hunread : (ResponseBody.buffered bytes).unread = true := rfl
    rw [hs]
    refine ⟨⟨rfl, (by intros; contradiction), fun _ => rfl, refused_first hunread _, (by intros; contradiction)⟩,
      fun body hmem hu => ?_⟩
    rw [← Option.some.inj hmem] at hu
    cases hu
  | _ => exact kept_takeStream false h hbody

/-- With a reader handed out the body holds no lease. -/
theorem touched_of_reader (h : Kept instantMax decompress start s) (hrd : s.reader = some rd) :
    s.held = count rd.lease ∧ ∀ body ∈ s.body, body.unread = false := by
  have hne : s ≠ { body := some start } := by
    intro hs
    rw [hs] at hrd
    cases hrd
  refine ⟨?_, fun body hbody => ?_⟩
  · rw [Custody.held, touched h.untouched hne, hrd]
    exact Nat.zero_add _
  · cases hunread : body.unread with
    | true => exact absurd (h.untouched body hbody hunread) hne
    | false => rfl

private theorem kept_poll (h : Kept instantMax decompress start s) (hrd : s.reader = some rd) (r : Readings) :
    Kept instantMax decompress start
      { s with
        reader := some (rd.poll r).2
        released := s.released + (count rd.lease - count (rd.poll r).2.lease)
        log := s.log ++ [.answer (rd.poll r).1] } := by
  obtain ⟨hheld, hread⟩ := touched_of_reader h hrd
  have honce := h.sound.once
  rw [hheld] at honce
  have hlease := rd.poll_lease r
  have hbody : count (s.body.bind ResponseBody.lease) = 0 := by
    rw [Custody.held, hrd] at hheld
    exact Nat.add_eq_right.mp hheld
  have hattempts : attempts (s.log ++ [.answer (rd.poll r).1]) = attempts s.log := by
    rw [attempts_append]
    exact List.append_nil _
  refine ⟨⟨?_, fun hends => ?_, fun hopen => ?_, ?_, fun rd' hrd' => ?_⟩, fun body hmem hunread => ?_⟩
  · show s.released + (count rd.lease - count (rd.poll r).2.lease) +
      (count (s.body.bind ResponseBody.lease) + count (rd.poll r).2.lease) = _
    rw [hlease]
    split <;> omega
  · show count (s.body.bind ResponseBody.lease) + count (rd.poll r).2.lease = 0
    rw [any_append, Bool.or_eq_true] at hends
    rw [hbody, hlease, Nat.zero_add]
    rcases hends with hold | hnew
    · rw [← hheld, h.sound.released hold, ite_self]
    · rw [Event.ends, Bool.not_eq_true'] at hnew
      rw [hnew, if_neg Bool.false_ne_true]
  · rw [any_append, Bool.or_eq_false_iff, Event.ends, Bool.not_eq_false'] at hopen
    show s.released + (count rd.lease - count (rd.poll r).2.lease) = 0
    rw [hlease, if_pos hopen.2, Nat.sub_self, h.sound.kept hopen.1]
  · rw [hattempts]
    exact h.sound.refused
  · rw [← Option.some.inj hrd']
    exact reads_poll (h.sound.bytes rd hrd) r
  · rw [hread body hmem] at hunread
    cases hunread

private theorem kept_dropReader (h : Kept instantMax decompress start s) (hrd : s.reader = some rd) :
    Kept instantMax decompress start
      { s with reader := none, released := s.released + count rd.lease, log := s.log ++ [.droppedReader] } := by
  obtain ⟨hheld, hread⟩ := touched_of_reader h hrd
  have honce := h.sound.once
  rw [hheld] at honce
  have hbody : count (s.body.bind ResponseBody.lease) = 0 := by
    rw [Custody.held, hrd] at hheld
    exact Nat.add_eq_right.mp hheld
  refine ⟨⟨?_, fun _ => ?_, fun hopen => ?_, ?_, (by intros; contradiction)⟩, fun body hmem hunread => ?_⟩
  · show s.released + count rd.lease + (count (s.body.bind ResponseBody.lease) + 0) = _
    rw [hbody, honce]
    rfl
  · exact hbody
  · rw [any_append, Event.ends, Bool.or_true] at hopen
    cases hopen
  · rw [attempts_append]
    exact (List.append_nil (attempts s.log)).symm ▸ h.sound.refused
  · rw [hread body hmem] at hunread
    cases hunread

private theorem kept_dropBody (h : Kept instantMax decompress start s) {body : ResponseBody} (hbody : s.body = some body) :
    Kept instantMax decompress start
      { s with body := none, released := s.released + count body.lease, log := s.log ++ [.droppedBody body.unread] } := by
  have honce := h.sound.once
  rw [Custody.held, hbody] at honce
  have hattempts : attempts (s.log ++ [.droppedBody body.unread]) = attempts s.log := by
    rw [attempts_append]
    exact List.append_nil _
  refine ⟨⟨?_, fun hends => ?_, fun hopen => ?_, ?_, fun rd hrd => ?_⟩, (by intro _ h; cases h)⟩
  · show s.released + count body.lease + (0 + count (s.reader.bind Reader.lease)) = _
    rw [Nat.zero_add, Nat.add_assoc]
    exact honce
  · show 0 + count (s.reader.bind Reader.lease) = 0
    rw [any_append, Bool.or_eq_true] at hends
    rcases hends with hold | hunread
    · have hheld := h.sound.released hold
      rw [Custody.held] at hheld
      omega
    · rw [h.untouched body hbody hunread]
      rfl
  · rw [any_append, Bool.or_eq_false_iff] at hopen
    show s.released + count body.lease = 0
    rw [lease_of_read hopen.2, h.sound.kept hopen.1]
    rfl
  · rw [hattempts]
    exact h.sound.refused
  · exact reads_other (fun _ h => (by cases h)) (h.sound.bytes rd hrd)

private theorem kept_step (h : Kept instantMax decompress start s) (action : Action) :
    Kept instantMax decompress start (s.step instantMax decompress action) := by
  cases action with
  | takeStream raw =>
    rw [Custody.step]
    cases hbody : s.body with
    | none => exact h
    | some body => exact kept_takeStream raw h hbody
  | bytes =>
    rw [Custody.step]
    cases hbody : s.body with
    | none => exact h
    | some body => exact kept_bytes h hbody
  | poll r =>
    rw [Custody.step]
    cases hrd : s.reader with
    | none => exact h
    | some rd => exact kept_poll h hrd r
  | dropReader =>
    rw [Custody.step]
    cases hrd : s.reader with
    | none => exact h
    | some rd => exact kept_dropReader h hrd
  | dropBody =>
    rw [Custody.step]
    cases hbody : s.body with
    | none => exact h
    | some body => exact kept_dropBody h hbody

theorem kept_run (h : Kept instantMax decompress start s) (actions : List Action) :
    Kept instantMax decompress start (s.run instantMax decompress actions) := by
  induction actions generalizing s with
  | nil => exact h
  | cons action actions ih => exact ih (kept_step h action)

private theorem collect_ok {rs : List Readings} {buf bytes : Str} (hplain : rd.timeouts = none → rd.timed.done = false)
    (hdone : rd.timed.done = false) (hflow : ∀ i < rd.timed.polled, (rd.stream i).goesOn = true)
    (hbuf : buf = given rd.stream rd.timed.polled) (h : rd.collect rs buf = some (.ok bytes)) :
    ∃ n, (rd.stream n).isEnd = true ∧ (∀ i < n, (rd.stream i).goesOn = true) ∧ bytes = given rd.stream n := by
  induction rs generalizing rd buf with
  | nil => cases h
  | cons r rs ih =>
    rw [Reader.collect] at h
    have hanswer : (rd.poll r).1 = (rd.pollTimed r).1 := rfl
    rcases rd.poll_cases r hplain with ⟨hfused, -, -⟩ | ⟨-, -, herror, -, -⟩ | ⟨-, ha, hgoing, hpolled⟩
    · rw [hfused] at hdone
      cases hdone
    · rw [hanswer] at h
      split at h
      · rename_i hc
        rw [hc] at herror
        cases herror
      · cases h
      · rename_i hend
        rw [hend] at herror
        cases herror
      · rename_i hpending
        rw [hpending] at herror
        cases herror
    · have hnext (hgo : (rd.stream rd.timed.polled).goesOn = true) : ∀ i < (rd.poll r).2.timed.polled,
          ((rd.poll r).2.stream i).goesOn = true := by
        intro i hi
        rw [show (rd.poll r).2.timed.polled = rd.timed.polled + 1 from hpolled] at hi
        rcases Nat.lt_succ_iff_lt_or_eq.mp hi with hi | rfl
        · exact hflow i hi
        · exact hgo
      have hgiven : given (rd.poll r).2.stream (rd.poll r).2.timed.polled =
          given rd.stream rd.timed.polled ++ chunkOf (rd.stream rd.timed.polled) := by
        rw [show (rd.poll r).2.timed.polled = rd.timed.polled + 1 from hpolled]
        rfl
      rw [hanswer, ha] at h
      rcases hinner : rd.stream rd.timed.polled with _ | _ | e | chunk
      · rw [hinner] at h
        exact @ih (rd.poll r).2 buf (fun _ => hgoing) hgoing (hnext (by rw [hinner]; rfl))
          (by rw [hgiven, hinner, hbuf]; exact (List.append_nil _).symm) h
      · rw [hinner] at h
        exact ⟨rd.timed.polled, by rw [hinner]; rfl, hflow, by rw [← hbuf]; exact (Except.ok.inj (Option.some.inj h)).symm⟩
      · rw [hinner] at h
        cases h
      · rw [hinner] at h
        exact @ih (rd.poll r).2 (buf ++ chunk) (fun _ => hgoing) hgoing (hnext (by rw [hinner]; rfl))
          (by rw [hgiven, hinner, hbuf]; rfl) h

theorem bytes_ok {rs : List Readings} {bytes : Str} (h : start.bytes instantMax decompress rs = some (.ok bytes)) :
    start = .buffered bytes ∨ ∃ rd n, start.takeStream instantMax decompress false = .ok rd ∧ (rd.stream n).isEnd = true ∧
      (∀ i < n, (rd.stream i).goesOn = true) ∧ bytes = given rd.stream n := by
  rw [ResponseBody.bytes.eq_def] at h
  split at h
  · exact .inl (congrArg ResponseBody.buffered (Except.ok.inj (Option.some.inj h)))
  · split at h
    · rename_i rd hrd
      obtain ⟨-, -, htimed⟩ := takeStream_ok hrd
      obtain ⟨n, hend, hflow, hbytes⟩ := collect_ok (by rw [htimed]; exact fun _ => rfl) (by rw [htimed])
        (by rw [htimed]; exact fun i hi => absurd hi (Nat.not_lt_zero i)) (by rw [htimed]; rfl) h
      exact .inr ⟨rd, n, hrd, hend, hflow, hbytes⟩
    · cases h

end

private theorem Limited.pollNext_cases (max : Nat) (inner : Stream) (s : Limited) :
    (s.limitExceeded = true ∧ s.pollNext max inner = (.ready none, s)) ∨
      (s.limitExceeded = false ∧ (s.pollNext max inner).1 = .ready (some (.error .decodedBodyTooLarge)) ∧
        (s.pollNext max inner).2.limitExceeded = true ∧ (s.pollNext max inner).2.polled = s.polled + 1) ∨
      (s.limitExceeded = false ∧ (s.pollNext max inner).1 = inner s.polled ∧
        (s.pollNext max inner).2.limitExceeded = false ∧ (s.pollNext max inner).2.polled = s.polled + 1) := by
  rw [Limited.pollNext.eq_def]
  split
  · rename_i hexceeded
    exact .inl ⟨hexceeded, rfl⟩
  · rename_i hopen
    have hopen : s.limitExceeded = false := Bool.eq_false_of_not_eq_true hopen
    split
    · rename_i chunk hchunk
      dsimp only
      split
      · exact .inr (.inl ⟨hopen, rfl, rfl, rfl⟩)
      · exact .inr (.inr ⟨hopen, hchunk.symm, rfl, rfl⟩)
    · exact .inr (.inr ⟨hopen, rfl, hopen, rfl⟩)

private theorem limited_exact (max : Nat) (inner : Stream) (n : Nat) :
    (∃ withheld, given (limitedResponseStream max inner) n ++ withheld = given inner (Limited.after max inner n).polled ∧
      (withheld = [] ∨ (Limited.after max inner n).limitExceeded = true)) ∧
    ((Limited.after max inner n).limitExceeded = true →
      ∃ i < n, limitedResponseStream max inner i = .ready (some (.error .decodedBodyTooLarge))) := by
  induction n with
  | zero => exact ⟨⟨[], rfl, .inl rfl⟩, (by intros; contradiction)⟩
  | succ n ih =>
    obtain ⟨⟨withheld, hexact, hwithheld⟩, hexceeded⟩ := ih
    have hanswer : limitedResponseStream max inner n = ((Limited.after max inner n).pollNext max inner).1 := rfl
    have hafter : Limited.after max inner (n + 1) = ((Limited.after max inner n).pollNext max inner).2 := rfl
    rw [given_succ, hafter]
    rcases (Limited.after max inner n).pollNext_cases max inner with
      ⟨hstopped, hpoll⟩ | ⟨hopen, ha, hstops, hpolled⟩ | ⟨hopen, ha, hgoing, hpolled⟩
    · rw [hanswer, hpoll]
      obtain ⟨i, hi, herror⟩ := hexceeded hstopped
      exact ⟨⟨withheld, by rw [← hexact]; exact congrArg (· ++ withheld) (List.append_nil _), .inr hstopped⟩,
        fun _ => ⟨i, Nat.lt_succ_of_lt hi, herror⟩⟩
    · have hnil : withheld = [] := hwithheld.resolve_right (by simp [hopen])
      rw [hnil, List.append_nil] at hexact
      refine ⟨⟨chunkOf (inner (Limited.after max inner n).polled), ?_, .inr hstops⟩,
        fun _ => ⟨n, Nat.lt_succ_self n, hanswer.trans ha⟩⟩
      rw [hanswer, ha, hexact, hpolled]
      exact congrArg (· ++ _) (List.append_nil _)
    · have hnil : withheld = [] := hwithheld.resolve_right (by simp [hopen])
      rw [hnil, List.append_nil] at hexact
      refine ⟨⟨[], ?_, .inl rfl⟩, fun hstops => ?_⟩
      · rw [List.append_nil, hanswer, ha, hexact, hpolled]
        rfl
      · rw [hgoing] at hstops
        cases hstops

section
variable {E C : Type} {t : Timeouts} {inner : Answers E C} {lease : Option Lease}
  {log : List (Poll (Option (Except (BodyError E) C)))} {s : NativeResponseBody} {a : Poll (Option (Except (BodyError E) C))}

theorem passOn_goesOn (a : Poll (Option (Except E C))) : (passOn a).goesOn = a.goesOn := by
  obtain ⟨-, herror, hend⟩ := passOn_spec a
  rw [Poll.goesOn, Poll.goesOn, herror, hend]

theorem all_append_one (log : List (Poll (Option (Except (BodyError E) C)))) (a : Poll (Option (Except (BodyError E) C))) :
    (log ++ [a]).all Poll.goesOn = (log.all Poll.goesOn && a.goesOn) := by
  rw [List.all_append, List.all_cons, List.all_nil, Bool.and_true]

theorem any_append_one (log : List (Poll (Option (Except (BodyError E) C)))) (a : Poll (Option (Except (BodyError E) C))) :
    (log ++ [a]).any Poll.isError = (log.any Poll.isError || a.isError) := by
  rw [List.any_append, List.any_cons, List.any_nil, Bool.or_false]

theorem filterMap_append_one (log : List (Poll (Option (Except (BodyError E) C)))) (a : Poll (Option (Except (BodyError E) C))) :
    (log ++ [a]).filterMap chunk? = log.filterMap chunk? ++ (chunk? a).toList := by
  rw [List.filterMap_append]
  cases h : chunk? a with
  | none => rw [List.filterMap_cons_none h]; rfl
  | some c => rw [List.filterMap_cons_some h]; rfl

theorem frames_succ (n : Nat) : frames inner (n + 1) = frames inner n ++ (chunk? (inner n)).toList := by
  rw [frames, List.range_succ, List.filterMap_append]
  cases h : chunk? (inner n) with
  | none => rw [List.filterMap_cons_none (f := fun i => chunk? (inner i)) h]; rfl
  | some c => rw [List.filterMap_cons_some (f := fun i => chunk? (inner i)) h]; rfl

private theorem any_isError (h : log.all Poll.goesOn = true) : log.any Poll.isError = false := by
  rw [List.any_eq_false]
  intro a ha herror
  have hgoes := List.all_eq_true.mp h a ha
  rw [Poll.goesOn, herror] at hgoes
  cases hgoes

/-- Until it is done nothing is withheld. -/
theorem native_open (h : NativeReads inner lease log s) (hopen : s.timed.done = false) :
    log.all Poll.goesOn = true ∧ log.filterMap chunk? = frames inner s.timed.polled ∧ s.lease = lease := by
  have hgoing : log.all Poll.goesOn = true := by rw [← Bool.not_eq_false', ← h.done, hopen]
  obtain ⟨withheld, hexact, hwithheld⟩ := h.exact
  have hnil : withheld = [] := hwithheld.resolve_right (by rw [any_isError hgoing]; exact Bool.false_ne_true)
  rw [hnil, List.append_nil] at hexact
  exact ⟨hgoing, hexact, h.lease.trans (if_pos hgoing)⟩

theorem fused_append (h : NativeReads inner lease log s) (ha : s.timed.done = true → a = .ready none) :
    (log ++ [a]).Pairwise fun a b => a.goesOn = false → b = .ready none := by
  rw [List.pairwise_append]
  refine ⟨h.fused, List.pairwise_singleton _ _, fun b hb c hc hlast => ?_⟩
  rw [List.mem_singleton.mp hc]
  refine ha (h.done.trans ?_)
  rw [Bool.not_eq_true', List.all_eq_false]
  exact ⟨b, hb, by rw [hlast]; exact Bool.false_ne_true⟩

private theorem ended_of_done (h : NativeReads inner lease log s) (hlast : log.all Poll.goesOn = false) :
    log.any Poll.isError = true ∨ ∃ i < s.timed.polled, (inner i).isEnd = true := by
  obtain ⟨a, ha, hstops⟩ := List.all_eq_false.mp hlast
  rcases a with _ | _ | _ | _
  · exact absurd rfl hstops
  · exact h.ended ha
  · exact .inl (List.any_eq_true.mpr ⟨_, ha, rfl⟩)
  · exact absurd rfl hstops

variable {timed : TimedBody}

private theorem native_done (h : NativeReads inner lease log s) (hdone : s.timed.done = true) :
    NativeReads inner lease (log ++ [.ready none]) ⟨s.timed, none⟩ := by
  have hlast : log.all Poll.goesOn = false := by rw [← Bool.not_eq_true', ← h.done, hdone]
  obtain ⟨withheld, hexact, hwithheld⟩ := h.exact
  refine ⟨?_, ?_, ⟨withheld, ?_, ?_⟩, fun _ => ?_, fused_append h fun _ => rfl⟩
  · rw [all_append_one, hlast]
    rfl
  · rw [all_append_one, hlast]
    exact hdone
  · rw [filterMap_append_one, List.append_assoc, ← hexact]
    rfl
  · rw [any_append_one, Poll.isError.eq_def, Bool.or_false]
    exact hwithheld
  · rw [any_append_one, Poll.isError.eq_def, Bool.or_false]
    exact ended_of_done (s := s) h hlast

private theorem native_stopped (h : NativeReads inner lease log s) (hopen : s.timed.done = false) (ha : a.isError = true)
    (hstop : timed.done = true) (hpolled : timed.polled = s.timed.polled ∨ timed.polled = s.timed.polled + 1) :
    NativeReads inner lease (log ++ [a]) ⟨timed, none⟩ := by
  obtain ⟨-, hexact, -⟩ := native_open h hopen
  have hstops : a.goesOn = false := by
    rw [Poll.goesOn, ha]
    rfl
  have hfailed : (log ++ [a]).any Poll.isError = true := by rw [any_append_one, ha, Bool.or_true]
  have hnone : chunk? a = none := by
    rcases a with _ | _ | _ | _
    · rfl
    · rfl
    · rfl
    · cases ha
  refine ⟨?_, ?_, ?_, fun _ => .inl hfailed, fused_append h fun hdone => ?_⟩
  · rw [all_append_one, hstops, Bool.and_false]
    rfl
  · rw [all_append_one, hstops, Bool.and_false]
    exact hstop
  · rw [filterMap_append_one, hnone, hexact]
    rcases hpolled with hpolled | hpolled
    · exact ⟨[], by rw [hpolled, List.append_nil]; exact List.append_nil _, .inl rfl⟩
    · exact ⟨(chunk? (inner s.timed.polled)).toList, by rw [hpolled, frames_succ]; exact congrArg (· ++ _) (List.append_nil _),
        .inr hfailed⟩
  · rw [hopen] at hdone
    cases hdone

private theorem native_passed (h : NativeReads inner lease log s) (hopen : s.timed.done = false)
    (hpolled : timed.polled = s.timed.polled + 1) (hdone : timed.done = !(inner s.timed.polled).goesOn) :
    NativeReads inner lease (log ++ [passOn (inner s.timed.polled)]) ⟨timed, if timed.done then none else s.lease⟩ := by
  obtain ⟨hgoing, hexact, hlease⟩ := native_open h hopen
  obtain ⟨hsame, -, hend⟩ := passOn_spec (inner s.timed.polled)
  refine ⟨?_, ?_, ⟨[], ?_, .inl rfl⟩, fun hmem => ?_, fused_append h fun hstop => ?_⟩
  · rw [all_append_one, hgoing, Bool.true_and, passOn_goesOn, hlease, hdone]
    cases (inner s.timed.polled).goesOn with
    | true => rfl
    | false => rfl
  · rw [all_append_one, hgoing, Bool.true_and, passOn_goesOn]
    exact hdone
  · rw [List.append_nil, filterMap_append_one, hsame, hexact, hpolled, frames_succ]
  · rw [any_append_one]
    rcases List.mem_append.mp hmem with hold | hnew
    · rcases h.ended hold with hfailed | ⟨i, hi, hlast⟩
      · exact .inl (by rw [hfailed, Bool.true_or])
      · exact .inr ⟨i, by rw [hpolled]; exact Nat.lt_succ_of_lt hi, hlast⟩
    · refine .inr ⟨s.timed.polled, by rw [hpolled]; exact Nat.lt_succ_self _, ?_⟩
      rw [← hend, ← List.mem_singleton.mp hnew]
      rfl
  · rw [hopen] at hstop
    cases hstop

private theorem native_pollFrame (h : NativeReads inner lease log s) (r : Readings) :
    NativeReads inner lease (log ++ [(s.pollFrame t inner r).1]) (s.pollFrame t inner r).2 := by
  rw [NativeResponseBody.pollFrame, Body.pollFrame]
  rcases TimedBody.poll_passes (fun s => { s with done := true }) (fun _ => rfl) (fun _ _ => rfl) t inner r s.timed with
    ⟨hdone, hpoll⟩ | ⟨hopen, ha, hstop, hpolled⟩ | ⟨hopen, ha, hpolled, hdone⟩
  · rw [hpoll, hdone]
    exact native_done h hdone
  · rw [hstop]
    exact native_stopped h hopen ha hstop hpolled
  · rw [ha]
    rw [Bool.and_true] at hdone
    exact native_passed h hopen hpolled hdone

theorem native_run (h : NativeReads inner lease log s) (rs : List Readings) :
    NativeReads inner lease (log ++ (s.run t inner rs).1) (s.run t inner rs).2 := by
  induction rs generalizing log s with
  | nil =>
    rw [NativeResponseBody.run, List.append_nil]
    exact h
  | cons r rs ih =>
    have hrest := ih (native_pollFrame (t := t) h r)
    rw [List.append_assoc] at hrest
    exact hrest

end

theorem attachLease_count (lease : Lease) (body : ResponseBody) :
    (body.attachLease lease).2 + count (body.attachLease lease).1.lease = count body.lease + 1 := by
  cases body with
  | buffered bytes => rfl
  | streaming stream old => rfl
  | encodedStreaming stream old ce limit => rfl
  | consumed => rfl

private theorem limitDecodedSize_ok {max : Nat} {body limited : ResponseBody} (h : body.limitDecodedSize max = .ok limited) :
    limited.lease = body.lease ∧ limited.unread = body.unread := by
  rw [ResponseBody.limitDecodedSize.eq_def] at h
  split at h
  · split at h
    · cases h
    · cases h
      exact ⟨rfl, rfl⟩
  · cases h
    exact ⟨rfl, rfl⟩
  · cases h
    exact ⟨rfl, rfl⟩
  · cases h
    exact ⟨rfl, rfl⟩

private theorem limitDecodedSize_error {max : Nat} {body : ResponseBody} {e : Compression.Error}
    (h : body.limitDecodedSize max = .error e) : body.lease = none := by
  rw [ResponseBody.limitDecodedSize.eq_def] at h
  split at h
  · rfl
  · cases h
  · cases h
  · cases h

/-- A lease from where it is attached to where it is released, over the wrappers of a body. -/
structure LeaseContract (instantMax : Instant)
    (decompress : Stream → Str → DecompressionLimit → Except Compression.Error Stream) : Prop where
  attached : ∀ (lease : Lease) (body : ResponseBody),
    (body.attachLease lease).2 + count (body.attachLease lease).1.lease = count body.lease + 1
  limited : ∀ (max : Nat) (body limited : ResponseBody), body.limitDecodedSize max = .ok limited →
    limited.lease = body.lease ∧ limited.unread = body.unread
  refused : ∀ (max : Nat) (body : ResponseBody) (e : Compression.Error), body.limitDecodedSize max = .error e → body.lease = none
  limiter : ∀ max (inner : Stream) n,
    (∃ withheld, given (limitedResponseStream max inner) n ++ withheld = given inner (Limited.after max inner n).polled ∧
      (withheld = [] ∨ (Limited.after max inner n).limitExceeded = true)) ∧
    ((Limited.after max inner n).limitExceeded = true →
      ∃ i < n, limitedResponseStream max inner i = .ready (some (.error .decodedBodyTooLarge)))
  run : ∀ (body : ResponseBody) (actions : List Action),
    Sound instantMax decompress body (Custody.run instantMax decompress { body := some body } actions)
  whole : ∀ (body : ResponseBody) (rs : List Readings) (bytes : Str), body.bytes instantMax decompress rs = some (.ok bytes) →
    body = .buffered bytes ∨ ∃ rd n, body.takeStream instantMax decompress false = .ok rd ∧ (rd.stream n).isEnd = true ∧
      (∀ i < n, (rd.stream i).goesOn = true) ∧ bytes = given rd.stream n
  native : ∀ (E C : Type) (t : Timeouts) (inner : Answers E C) (lease : Option Lease) (rs : List Readings),
    NativeReads inner lease (NativeResponseBody.run t inner { lease } rs).1 (NativeResponseBody.run t inner { lease } rs).2

theorem leases_kept (instantMax : Instant)
    (decompress : Stream → Str → DecompressionLimit → Except Compression.Error Stream) :
    LeaseContract instantMax decompress where
  attached := attachLease_count
  limited _ _ _ := limitDecodedSize_ok
  refused _ _ _ := limitDecodedSize_error
  limiter := limited_exact
  run _ actions := (kept_run kept_start actions).sound
  whole _ _ _ := bytes_ok
  native _ _ _ inner lease rs :=
    have hstart : NativeReads inner lease [] { lease } :=
      ⟨rfl, rfl, ⟨[], rfl, .inl rfl⟩, fun h => absurd h List.not_mem_nil, .nil⟩
    native_run hstart rs

end Eggfetch.Body
