import Eggfetch.Streaming.Exact
import Eggfetch.Streaming.Iterators

/-! Runs of the iterators in which no message is taken out of turn. -/
namespace Eggfetch.Streaming.Iterators
open Text Transition

section
variable {E D ε : Type} (lib : EncodingRs E D)

private theorem flatten_pieces (fuel : Nat) (bytes : Str) : (pieces fuel bytes).flatten = bytes := by
  induction fuel generalizing bytes with
  | zero => rw [pieces, List.flatten_singleton]
  | succ fuel ih =>
    rw [pieces]
    split
    · rw [List.flatten_cons, ih, List.take_append_drop]
    · rw [List.flatten_singleton]

def failureMessages (failure : Option ε) : List (Except ε Str) := (failure.map Except.error).toList

private theorem byteMessages_items (isAsync : Bool) (body : Body ε) (h : body.failure.isSome = true → body.afterFailure = []) :
    ∃ oks : List Str, body.flatMap (byteMessages isAsync) = oks.map .ok ++ failureMessages body.failure ∧
      oks.flatten = body.content := by
  induction body with
  | nil => exact ⟨[], rfl, rfl⟩
  | cons item rest ih =>
    cases item with
    | error e =>
      obtain rfl : rest = [] := h rfl
      exact ⟨[], rfl, rfl⟩
    | ok chunk =>
      obtain ⟨oks, hOks, hFlat⟩ := ih h
      rw [List.flatMap_cons, hOks, Body.content, ← hFlat, byteMessages, Body.failure]
      cases isAsync with
      | true => exact ⟨chunk :: oks, rfl, List.flatten_cons⟩
      | false =>
        refine ⟨pieces chunk.length chunk ++ oks, ?_, ?_⟩
        · rw [List.map_append, List.append_assoc]
          rfl
        · rw [List.flatten_append, flatten_pieces]

private theorem textItems_eq (decoder : IncrementalDecoder D) (body : Body ε)
    (h : body.failure.isSome = true → (decoderAfter lib decoder body.chunks).finish lib = []) : ∃ oks : List Str,
    textItems lib decoder body = oks.map .ok ++ failureMessages body.failure := by
  induction body generalizing decoder with
  | nil =>
    by_cases hTail : decoder.finish lib = []
    · exact ⟨[], if_pos hTail⟩
    · exact ⟨[decoder.finish lib], if_neg hTail⟩
  | cons item rest ih =>
    cases item with
    | error e =>
      have hNone : textItems.tail lib decoder = ([] : List (Except ε Str)) := if_pos (h rfl)
      refine ⟨[], ?_⟩
      rw [textItems, hNone]
      rfl
    | ok chunk =>
      obtain ⟨oks, hOks⟩ := ih (decoder.decode lib chunk false).2 h
      refine ⟨(decoder.decode lib chunk false).1 :: oks, ?_⟩
      rw [textItems, hOks]
      rfl

private theorem lineItems_eq (decoder : IncrementalDecoder D) (lineBuffer : Str) (body : Body ε)
    (h : body.failure.isSome = true →
      (linesAfter lib decoder lineBuffer body.chunks).2 ++ (linesAfter lib decoder lineBuffer body.chunks).1.finish lib = []) :
    ∃ oks : List Str, lineItems lib decoder lineBuffer body = oks.map .ok ++ failureMessages body.failure := by
  induction body generalizing decoder lineBuffer with
  | nil => exact ⟨_, (List.append_nil _).symm⟩
  | cons item rest ih =>
    cases item with
    | error e =>
      have hTail : lineBuffer ++ decoder.finish lib = [] := h rfl
      refine ⟨[], ?_⟩
      rw [lineItems, lineItems.tail, hTail]
      rfl
    | ok chunk =>
      obtain ⟨oks, hOks⟩ := ih (decoder.decode lib chunk false).2 _ h
      refine ⟨(completeLines (lineBuffer ++ (decoder.decode lib chunk false).1)).1 ++ oks, ?_⟩
      rw [lineItems, hOks, List.map_append, List.append_assoc, Body.failure]

private theorem messages_eq {cfg : Config} {encodingName : Option Str} {body : Body ε}
    (h : OwesNothing lib cfg encodingName body) :
    ∃ oks : List Str, messages lib cfg encodingName body = oks.map .ok ++ failureMessages body.failure ∧
      (cfg.ofBytes = true → oks.flatten = body.content) := by
  obtain ⟨kind, isAsync, chunkSize⟩ := cfg
  cases kind with
  | bytes =>
    obtain ⟨oks, hOks, hFlat⟩ := byteMessages_items isAsync body h
    exact ⟨oks, hOks, fun _ => hFlat⟩
  | raw =>
    obtain ⟨oks, hOks, hFlat⟩ := byteMessages_items isAsync body h
    exact ⟨oks, hOks, fun _ => hFlat⟩
  | text =>
    obtain ⟨oks, hOks⟩ := textItems_eq lib (.new lib encodingName) body h
    exact ⟨oks, hOks, fun hBytes => nomatch hBytes⟩
  | lines =>
    obtain ⟨oks, hOks⟩ := lineItems_eq lib (.new lib encodingName) [] body h
    exact ⟨oks, hOks, fun hBytes => nomatch hBytes⟩

end

section
variable {ε : Type} {s s' : Iterator ε} {cfg : Config} {body : Body ε}

def NoneHolding (calls : List Call) : Prop := ∀ call ∈ calls, call.isHolding = false

theorem noneHolding_iff (calls : List Call) : calls.any Call.isHolding = false ↔ NoneHolding calls := by
  rw [List.any_eq_false, NoneHolding]
  exact forall₂_congr fun call _ => Bool.not_eq_true _ ▸ Iff.rfl

theorem NoneHolding.set {calls : List Call} (h : NoneHolding calls) (i : Nat) {call : Call} (hCall : call.isHolding = false) :
    NoneHolding (calls.set i call) := by
  intro other hOther
  rcases List.mem_or_eq_of_mem_set hOther with hMem | rfl
  · exact h other hMem
  · exact hCall

/-- The part of a chunk that is held back: in the slot, or with a call that has not returned. -/
inductive Held (s : Iterator ε) : Str → Prop
  | free : s.slot = none → NoneHolding s.calls → Held s []
  | slot {bytes : Str} : s.slot = some bytes → NoneHolding s.calls → Held s bytes
  | call {i : Nat} {late : Bool} {chunk rest : Str} : s.slot = none → s.calls[i]? = some (.holding late chunk rest) →
      NoneHolding (s.calls.set i .idle) → Held s (chunk ++ rest)

def Call.isLate : Call → Bool
  | .idle => false
  | .checked late | .holding late _ _ => late

/-- What holds when every message was taken in turn: the bytes returned, held back and queued are a prefix of
the body, an error is the last message, and behind it is nothing. -/
structure Inv (cfg : Config) (body : Body ε) (s : Iterator ε) : Prop where
  stream : ∃ (held : Str) (oks : List Str) (failure : Option ε), Held s held ∧
    s.queue ++ s.sends = oks.map .ok ++ failureMessages failure ∧
    (cfg.ofBytes = true → returned s.log ++ held ++ oks.flatten <+: body.content)
  sound : s.failed = false → ∃ oks : List Str, s.queue = oks.map .ok
  raised : s.raised = true → s.failed = true ∧ s.queue = [] ∧ s.sends = [] ∧ s.slot = none ∧ NoneHolding s.calls
  late : ∀ call ∈ s.calls, call.isLate = true → s.raised = true
  quiet : ∀ entry ∈ s.log, entry.1 = true → entry.2 = .stop

theorem Inv.lawful (h : Inv cfg body s) : Lawful cfg body s := by
  obtain ⟨held, oks, failure, -, -, hPrefix⟩ := h.stream
  refine ⟨fun hBytes => ?_, h.quiet⟩
  have hAll := hPrefix hBytes
  rw [List.append_assoc] at hAll
  exact (List.prefix_append _ _).trans hAll

theorem returned_append (log : List (Bool × Result ε)) (late : Bool) (result : Result ε) :
    returned (log ++ [(late, result)]) = returned log ++ returned [(late, result)] := by
  induction log with
  | nil => rfl
  | cons entry log ih =>
    obtain ⟨late', result'⟩ := entry
    cases result' with
    | data chunk =>
      rw [List.cons_append, returned, returned, ih, List.append_assoc]
    | error e => exact ih
    | stop => exact ih

theorem returned_data (log : List (Bool × Result ε)) (late : Bool) (chunk : Str) :
    returned (log ++ [(late, .data chunk)]) = returned log ++ chunk := by
  have hOne : returned [(late, (.data chunk : Result ε))] = chunk := List.append_nil chunk
  rw [returned_append, hOne]

theorem returned_end (log : List (Bool × Result ε)) (late : Bool) {result : Result ε} (h : ∀ chunk, result ≠ .data chunk) :
    returned (log ++ [(late, result)]) = returned log := by
  rw [returned_append]
  cases result with
  | data chunk => exact absurd rfl (h chunk)
  | error e => exact List.append_nil _
  | stop => exact List.append_nil _

/-- The first message of a stream: a chunk, or the failure with nothing behind it. -/
theorem stream_cons {m : Except ε Str} {rest : List (Except ε Str)} {oks : List Str} {failure : Option ε}
    (h : m :: rest = oks.map .ok ++ failureMessages failure) :
    (∃ bytes oks', m = .ok bytes ∧ oks = bytes :: oks' ∧ rest = oks'.map .ok ++ failureMessages failure) ∨
      ∃ e, m = .error e ∧ oks = [] ∧ rest = [] := by
  cases oks with
  | nil =>
    cases failure with
    | none => cases h
    | some e =>
      obtain ⟨rfl, rfl⟩ := List.cons.inj h
      exact Or.inr ⟨e, rfl, rfl, rfl⟩
  | cons bytes oks' =>
    obtain ⟨rfl, hRest⟩ := List.cons.inj h
    exact Or.inl ⟨bytes, oks', rfl, rfl, hRest⟩

private theorem stream_of_queue {queue sends : List (Except ε Str)} {oks : List Str} {failure : Option ε}
    (h : queue ++ sends = oks.map .ok ++ failureMessages failure) :
    ∃ qs failure', queue = qs.map .ok ++ failureMessages failure' ∧ qs <+: oks := by
  induction queue generalizing oks with
  | nil => exact ⟨[], none, rfl, List.nil_prefix⟩
  | cons m queue ih =>
    rcases stream_cons h with ⟨bytes, oks', rfl, rfl, hRest⟩ | ⟨e, rfl, -, hRest⟩
    · obtain ⟨qs, failure', rfl, hPrefix⟩ := ih hRest
      exact ⟨bytes :: qs, failure', rfl, List.cons_prefix_cons.mpr ⟨rfl, hPrefix⟩⟩
    · obtain ⟨rfl, -⟩ := List.append_eq_nil_iff.mp hRest
      exact ⟨[], some e, rfl, List.nil_prefix⟩

/-- An answer of a call that began before any error. -/
theorem quiet_concat {log : List (Bool × Result ε)} {late : Bool} {result : Result ε}
    (h : ∀ entry ∈ log, entry.1 = true → entry.2 = .stop) (hLate : late = true → result = .stop) :
    ∀ entry ∈ log ++ [(late, result)], entry.1 = true → entry.2 = .stop := by
  intro entry hEntry
  rcases List.mem_append.mp hEntry with hMem | hMem
  · exact h entry hMem
  · obtain rfl := List.mem_singleton.mp hMem
    exact hLate

theorem late_set {calls : List Call} {raised : Bool} (h : ∀ call ∈ calls, call.isLate = true → raised = true)
    (i : Nat) {call : Call}
    (hCall : call.isLate = true → raised = true) : ∀ other ∈ calls.set i call, other.isLate = true → raised = true := by
  intro other hOther
  rcases List.mem_or_eq_of_mem_set hOther with hMem | rfl
  · exact h other hMem
  · exact hCall

theorem Inv.send (h : Inv cfg body s) (hStep : s.step cfg .send = some s') : Inv cfg body s' := by
  rw [Iterator.step] at hStep
  split at hStep
  · cases hStep
  rename_i m rest hSends
  split at hStep
  · cases hStep
    obtain ⟨held, oks, failure, hHeld, hStream, hPrefix⟩ := h.stream
    refine ⟨⟨held, oks, failure, ?_, ?_, hPrefix⟩, fun hFailed => ?_, fun hRaised => ?_, h.late, h.quiet⟩
    · cases hHeld with
      | free hSlot hNone => exact .free hSlot hNone
      | slot hSlot hNone => exact .slot hSlot hNone
      | call hSlot hCall hNone => exact .call hSlot hCall hNone
    · rw [← hStream, hSends, List.append_assoc]
      rfl
    · obtain ⟨hSound, hOk⟩ := Bool.or_eq_false_iff.mp hFailed
      obtain ⟨qs, hQueue⟩ := h.sound hSound
      cases m with
      | ok bytes =>
        refine ⟨qs ++ [bytes], ?_⟩
        rw [hQueue, List.map_append]
        rfl
      | error e => cases hOk
    · obtain ⟨-, -, hNone, -⟩ := h.raised hRaised
      rw [hSends] at hNone
      cases hNone
  · cases hStep

theorem Inv.cancel {flush : List Str} (h : Inv cfg body s) (hStep : s.step cfg (.cancel flush) = some s') : Inv cfg body s' := by
  rw [Iterator.step] at hStep
  split at hStep
  · rename_i hOpen
    obtain ⟨-, hSound, hBytes⟩ := hOpen
    cases hStep
    obtain ⟨held, oks, failure, hHeld, hStream, hPrefix⟩ := h.stream
    have hHeld' : Held { s with sends := flush.map .ok } held := by
      cases hHeld with
      | free hSlot hNone => exact .free hSlot hNone
      | slot hSlot hNone => exact .slot hSlot hNone
      | call hSlot hCall hNone => exact .call hSlot hCall hNone
    cases hOfBytes : cfg.ofBytes with
    | true =>
      obtain rfl := hBytes hOfBytes
      obtain ⟨qs, failure', hQueue, more, rfl⟩ := stream_of_queue hStream
      refine ⟨⟨held, qs, failure', hHeld', (List.append_nil _).trans hQueue, fun _ => ?_⟩, h.sound, fun hRaised => ?_,
        h.late, h.quiet⟩
      · have hAll := hPrefix hOfBytes
        rw [List.flatten_append, ← List.append_assoc] at hAll
        exact (List.prefix_append _ _).trans hAll
      · obtain ⟨hFailed, hEmpty, -, hRest⟩ := h.raised hRaised
        exact ⟨hFailed, hEmpty, rfl, hRest⟩
    | false =>
      have hNotFailed := hSound hOfBytes
      obtain ⟨qs, hQueue⟩ := h.sound hNotFailed
      refine ⟨⟨held, qs ++ flush, none, hHeld', ?_, fun hBytes => ?_⟩, h.sound, fun hRaised => ?_, h.late, h.quiet⟩
      · have hNoFailure : failureMessages (none : Option ε) = [] := rfl
        rw [hQueue, hNoFailure, List.map_append, List.append_nil]
      · rw [hOfBytes] at hBytes
        cases hBytes
      · obtain ⟨hFailed, -⟩ := h.raised hRaised
        rw [hNotFailed] at hFailed
        cases hFailed
  · cases hStep

theorem Inv.close (h : Inv cfg body s) (hStep : s.step cfg .close = some s') : Inv cfg body s' := by
  rw [Iterator.step] at hStep
  split at hStep
  · cases hStep
    obtain ⟨held, oks, failure, hHeld, hStream, hPrefix⟩ := h.stream
    refine ⟨⟨held, oks, failure, ?_, hStream, hPrefix⟩, h.sound, h.raised, h.late, h.quiet⟩
    cases hHeld with
    | free hSlot hNone => exact .free hSlot hNone
    | slot hSlot hNone => exact .slot hSlot hNone
    | call hSlot hCall hNone => exact .call hSlot hCall hNone
  · cases hStep

theorem look_none (i : Nat) (h : s.slot = none) : s.look cfg i = { s with calls := s.calls.set i (.checked s.raised) } := by
  rw [Iterator.look, h]

theorem look_whole (i : Nat) {bytes : Str} (h : s.slot = some bytes) (hLimit : cfg.limit = none) :
    s.look cfg i = { s.returns i s.raised (.data bytes) with slot := if cfg.isAsync then some [] else none } := by
  rw [Iterator.look, h, hLimit]

theorem look_part (i : Nat) {bytes : Str} {size : Nat} (h : s.slot = some bytes) (hLimit : cfg.limit = some size) :
    s.look cfg i = { s.returns i s.raised (.data (bytes.take size)) with
      slot := if (bytes.drop size).isEmpty then none else some (bytes.drop size) } := by
  rw [Iterator.look, h, hLimit]

private theorem Held.of_slot {held bytes : Str} (h : Held s held) (hSlot : s.slot = some bytes) :
    held = bytes ∧ NoneHolding s.calls := by
  cases h with
  | free hNone _ =>
    rw [hSlot] at hNone
    cases hNone
  | slot hSome hCalls =>
    rw [hSlot] at hSome
    exact ⟨(Option.some.inj hSome).symm, hCalls⟩
  | call hNone _ _ =>
    rw [hSlot] at hNone
    cases hNone

private theorem Held.of_inTurn {held : Str} (h : Held s held) (hSlot : s.slot = none) (hCalls : NoneHolding s.calls) :
    held = [] := by
  cases h with
  | free _ _ => rfl
  | slot hSome _ =>
    rw [hSlot] at hSome
    cases hSome
  | call _ hCall _ => exact absurd (hCalls _ (List.mem_of_getElem? hCall)) Bool.noConfusion

/-- A call that holds nothing, before and after, leaves what is held back. -/
theorem Held.set {held : Str} {i : Nat} {before after : Call} (h : Held s held) (hSlot : s.slot = none)
    (hBefore : s.calls[i]? = some before)
    (hHolds : before.isHolding = false) (hAfter : after.isHolding = false) (hSame : s'.slot = none)
    (hCalls : s'.calls = s.calls.set i after) : Held s' held := by
  cases h with
  | free _ hNone => exact .free hSame (hCalls ▸ hNone.set i hAfter)
  | slot hSome _ =>
    rw [hSlot] at hSome
    cases hSome
  | @call j late chunk rest _ hCall hNone =>
    have hNe : i ≠ j := by
      rintro rfl
      rw [hBefore] at hCall
      cases hCall
      cases hHolds
    refine @Held.call ε s' j late chunk rest hSame ?_ ?_
    · rw [hCalls, List.getElem?_set_ne hNe, hCall]
    · rw [hCalls, List.set_comm _ _ hNe]
      exact hNone.set i hAfter

theorem Inv.begin {i : Nat} (h : Inv cfg body s) (hStep : s.step cfg (.begin i) = some s') : Inv cfg body s' := by
  rw [Iterator.step] at hStep
  split at hStep
  · rename_i hIdle
    obtain rfl := Option.some.inj hStep
    obtain ⟨held, oks, failure, hHeld, hStream, hPrefix⟩ := h.stream
    cases hSlot : s.slot with
    | none =>
      rw [look_none i hSlot]
      refine ⟨⟨held, oks, failure, hHeld.set hSlot hIdle rfl rfl hSlot rfl, hStream, hPrefix⟩, h.sound, fun hRaised => ?_,
        late_set h.late i id, h.quiet⟩
      obtain ⟨hFailed, hQueue, hSends, -, hNone⟩ := h.raised hRaised
      exact ⟨hFailed, hQueue, hSends, hSlot, hNone.set i rfl⟩
    | some bytes =>
      have hNotRaised : s.raised ≠ true := by
        intro hRaised
        obtain ⟨-, -, -, hNoSlot, -⟩ := h.raised hRaised
        rw [hSlot] at hNoSlot
        cases hNoSlot
      obtain ⟨rfl, hNone⟩ := hHeld.of_slot hSlot
      have hLate : ∀ call ∈ s.calls.set i .idle, call.isLate = true → s.raised = true :=
        late_set h.late i fun hLate => absurd hLate Bool.false_ne_true
      cases hLimit : cfg.limit with
      | none =>
        rw [look_whole i hSlot hLimit]
        refine ⟨⟨[], oks, failure, ?_, hStream, fun hBytes => ?_⟩, h.sound, fun hRaised => absurd hRaised hNotRaised, hLate,
          quiet_concat h.quiet fun hRaised => absurd hRaised hNotRaised⟩
        · cases hAsync : cfg.isAsync with
          | false => exact .free rfl (hNone.set i rfl)
          | true => exact .slot rfl (hNone.set i rfl)
        · dsimp only [Iterator.returns]
          rw [returned_data, List.append_nil]
          exact hPrefix hBytes
      | some size =>
        rw [look_part i hSlot hLimit]
        refine ⟨⟨held.drop size, oks, failure, ?_, hStream, fun hBytes => ?_⟩, h.sound, fun hRaised =>
          absurd hRaised hNotRaised, hLate,
          quiet_concat h.quiet fun hRaised => absurd hRaised hNotRaised⟩
        · cases hRest : (held.drop size).isEmpty with
          | true =>
            rw [List.isEmpty_iff.mp hRest]
            exact .free rfl (hNone.set i rfl)
          | false => exact .slot rfl (hNone.set i rfl)
        · dsimp only [Iterator.returns]
          rw [returned_data, List.append_assoc (returned s.log), List.take_append_drop]
          exact hPrefix hBytes
  · cases hStep

private theorem take_whole (i : Nat) (late : Bool) {bytes : Str} (h : ∀ size, cfg.limit = some size → bytes.length ≤ size) :
    s.take cfg i late (.ok bytes) = s.returns i late (.data bytes) := by
  rw [Iterator.take]
  cases hLimit : cfg.limit with
  | none => rfl
  | some size => exact if_neg (h size hLimit).not_gt

private theorem take_part (i : Nat) (late : Bool) {bytes : Str} {size : Nat} (hLimit : cfg.limit = some size)
    (hLong : size < bytes.length) :
    s.take cfg i late (.ok bytes) = { s with calls := s.calls.set i (.holding late (bytes.take size) (bytes.drop size)) } := by
  rw [Iterator.take, hLimit]
  exact if_pos hLong

private theorem Inv.take {i : Nat} {late : Bool} {m : Except ε Str} {rest : List (Except ε Str)} (h : Inv cfg body s)
    (hSlot : s.slot = none)
    (hNone : NoneHolding s.calls) (hCall : s.calls[i]? = some (.checked late)) (hQueue : s.queue = m :: rest) :
    Inv cfg body ({ s with queue := rest }.take cfg i late m) := by
  obtain ⟨held, oks, failure, hHeld, hStream, hPrefix⟩ := h.stream
  obtain rfl := hHeld.of_inTurn hSlot hNone
  have hNotRaised : s.raised ≠ true := by
    intro hRaised
    obtain ⟨-, hEmpty, -⟩ := h.raised hRaised
    rw [hQueue] at hEmpty
    cases hEmpty
  have hNotLate : late ≠ true := fun hLate => hNotRaised (h.late _ (List.mem_of_getElem? hCall) hLate)
  have hSoundRest : s.failed = false → ∃ oks : List Str, rest = oks.map .ok := by
    intro hFailed
    obtain ⟨qs, hQs⟩ := h.sound hFailed
    rw [hQueue] at hQs
    cases qs with
    | nil => cases hQs
    | cons _ qs => exact ⟨qs, (List.cons.inj hQs).2⟩
  have hIdle : ∀ {raised : Bool}, s.raised = raised → ∀ call ∈ s.calls.set i .idle, call.isLate = true → raised = true :=
    fun hSame => late_set (hSame ▸ h.late) i fun hLate => absurd hLate Bool.false_ne_true
  have hQuiet : ∀ result : Result ε, ∀ entry ∈ s.log ++ [(late, result)], entry.1 = true → entry.2 = .stop :=
    fun result => quiet_concat h.quiet fun hLate => absurd hLate hNotLate
  rw [hQueue, List.cons_append] at hStream
  rcases stream_cons hStream with ⟨bytes, oks', rfl, rfl, hRest⟩ | ⟨e, rfl, rfl, hRest⟩
  · have hMore : cfg.ofBytes = true → returned s.log ++ bytes ++ oks'.flatten <+: body.content := by
      intro hBytes
      have hAll := hPrefix hBytes
      rwa [List.append_nil, List.flatten_cons, ← List.append_assoc] at hAll
    by_cases hLong : ∃ size, cfg.limit = some size ∧ size < bytes.length
    · obtain ⟨size, hLimit, hLong⟩ := hLong
      rw [take_part i late hLimit hLong]
      refine ⟨⟨bytes.take size ++ bytes.drop size, oks', failure, ?_, hRest, ?_⟩, hSoundRest, fun hRaised =>
        absurd hRaised hNotRaised,
        late_set h.late i fun hLate => absurd hLate hNotLate, h.quiet⟩
      · refine @Held.call ε _ i late (bytes.take size) (bytes.drop size) hSlot ?_ ?_
        · exact List.getElem?_set_self (List.getElem?_eq_some_iff.mp hCall).1
        · dsimp only
          rw [List.set_set]
          exact hNone.set i rfl
      · rwa [List.take_append_drop]
    · have hShort : ∀ size, cfg.limit = some size → bytes.length ≤ size := fun size hLimit =>
        Nat.le_of_not_gt fun hOver => hLong ⟨size, hLimit, hOver⟩
      rw [take_whole i late hShort]
      refine ⟨⟨[], oks', failure, .free hSlot (hNone.set i rfl), hRest, fun hBytes => ?_⟩, hSoundRest,
        fun hRaised => absurd hRaised hNotRaised, hIdle rfl, hQuiet _⟩
      dsimp only [Iterator.returns]
      rw [returned_data, List.append_nil]
      exact hMore hBytes
  · obtain ⟨rfl, hSends⟩ := List.append_eq_nil_iff.mp hRest
    have hFailed : s.failed = true := by
      by_contra hSound
      obtain ⟨qs, hQs⟩ := h.sound (Bool.eq_false_iff.mpr hSound)
      rw [hQueue] at hQs
      cases qs with
      | nil => cases hQs
      | cons _ qs => cases (List.cons.inj hQs).1
    refine ⟨⟨[], [], none, .free hSlot (hNone.set i rfl), hSends, fun hBytes => ?_⟩, hSoundRest,
      fun _ => ⟨hFailed, rfl, hSends, hSlot, hNone.set i rfl⟩, fun _ _ _ => rfl, hQuiet _⟩
    dsimp only [Iterator.take, Iterator.returns]
    rw [returned_end _ _ fun _ hEq => by cases hEq]
    exact hPrefix hBytes

theorem Inv.receive {i : Nat} (h : Inv cfg body s) (hTurn : InTurn s (.receive i)) (hStep : s.step cfg (.receive i) = some s') :
    Inv cfg body s' := by
  obtain ⟨hSlot, hAny⟩ := hTurn
  have hNone := (noneHolding_iff s.calls).mp hAny
  rw [Iterator.step] at hStep
  split at hStep
  · rename_i late hCall
    split at hStep
    · cases hStep
    · split at hStep
      · rename_i m rest hQueue
        obtain rfl := Option.some.inj hStep
        exact h.take hSlot hNone hCall hQueue
      · split at hStep
        · obtain rfl := Option.some.inj hStep
          obtain ⟨held, oks, failure, hHeld, hStream, hPrefix⟩ := h.stream
          refine ⟨⟨held, oks, failure, hHeld.set hSlot hCall rfl rfl hSlot rfl, hStream, fun hBytes => ?_⟩, h.sound,
            fun hRaised => ?_,
            late_set h.late i fun hLate => absurd hLate Bool.false_ne_true, quiet_concat h.quiet fun _ => rfl⟩
          · dsimp only [Iterator.returns]
            rw [returned_end _ _ fun _ hEq => by cases hEq]
            exact hPrefix hBytes
          · obtain ⟨hFailed, hQueue, hSends, -, hCalls⟩ := h.raised hRaised
            exact ⟨hFailed, hQueue, hSends, hSlot, hCalls.set i rfl⟩
        · cases hStep
  · cases hStep

theorem Inv.store {i : Nat} (h : Inv cfg body s) (hStep : s.step cfg (.store i) = some s') : Inv cfg body s' := by
  rw [Iterator.step] at hStep
  split at hStep
  · rename_i late chunk rest hCall
    obtain rfl := Option.some.inj hStep
    obtain ⟨held, oks, failure, hHeld, hStream, hPrefix⟩ := h.stream
    have hMem := List.mem_of_getElem? hCall
    have hNotRaised : s.raised ≠ true := by
      intro hRaised
      obtain ⟨-, -, -, -, hNone⟩ := h.raised hRaised
      exact Bool.noConfusion (hNone _ hMem)
    have hNotLate : late ≠ true := fun hLate => hNotRaised (h.late _ hMem hLate)
    obtain ⟨rfl, hNone⟩ : held = chunk ++ rest ∧ NoneHolding (s.calls.set i .idle) := by
      cases hHeld with
      | free _ hNone => exact absurd (hNone _ hMem) Bool.noConfusion
      | slot _ hNone => exact absurd (hNone _ hMem) Bool.noConfusion
      | @call j late' chunk' rest' _ hCall' hNone =>
        have hSame : i = j := by
          by_contra hNe
          have hStays : (s.calls.set j .idle)[i]? = some (.holding late chunk rest) := by
            rw [List.getElem?_set_ne fun hEq => hNe hEq.symm, hCall]
          exact Bool.noConfusion (hNone _ (List.mem_of_getElem? hStays))
        subst hSame
        rw [hCall] at hCall'
        cases hCall'
        exact ⟨rfl, hNone⟩
    refine ⟨⟨rest, oks, failure, .slot rfl hNone, hStream, fun hBytes => ?_⟩, h.sound, fun hRaised => absurd hRaised hNotRaised,
      late_set h.late i fun hLate => absurd hLate Bool.false_ne_true, quiet_concat h.quiet fun hLate => absurd hLate hNotLate⟩
    dsimp only [Iterator.returns]
    rw [returned_data, List.append_assoc (returned s.log)]
    exact hPrefix hBytes
  · cases hStep

theorem Inv.step {action : Action} (h : Inv cfg body s) (hTurn : InTurn s action) (hStep : s.step cfg action = some s') :
    Inv cfg body s' := by
  cases action with
  | send => exact h.send hStep
  | cancel flush => exact h.cancel hStep
  | close => exact h.close hStep
  | begin i => exact h.begin hStep
  | receive i => exact h.receive hTurn hStep
  | store i => exact h.store hStep

end

section
variable {E D ε : Type} (lib : EncodingRs E D)

private theorem inv_start {cfg : Config} {encodingName : Option Str} {body : Body ε} (h : OwesNothing lib cfg encodingName body)
    (callers : Nat) :
    Inv cfg body (start lib cfg encodingName body callers) := by
  obtain ⟨oks, hOks, hFlat⟩ := messages_eq lib h
  have hIdle : ∀ call ∈ List.replicate callers Call.idle, call = .idle := fun call => List.eq_of_mem_replicate
  refine ⟨⟨[], oks, body.failure, .free rfl fun call hCall => hIdle call hCall ▸ rfl, hOks, fun hBytes => ?_⟩, fun _ => ⟨[], rfl⟩,
    fun hRaised => absurd hRaised Bool.false_ne_true, fun call hCall hLate => ?_, fun _ hEntry => absurd hEntry List.not_mem_nil⟩
  · rw [hFlat hBytes]
    exact List.prefix_rfl
  · rw [hIdle call hCall] at hLate
    cases hLate

/-- In every run in which each message is taken in turn, of a body that leaves nothing behind its failure, the
iterator is lawful; a chunk size of zero is refused only where there is no stream. -/
theorem iterators_lawful (cfg : Config) (encodingName : Option Str) (body : Body ε) (callers : Nat) :
    (∀ state, RefusesZero cfg state ↔ (cfg.chunkSize = some 0 → state ≠ .streaming)) ∧
      (OwesNothing lib cfg encodingName body → ∀ s,
        Reaches (Iterator.step cfg) InTurn (start lib cfg encodingName body callers) s → Lawful cfg body s) := by
  refine ⟨refusesZero_iff cfg, fun hOwes s hReach => ?_⟩
  have hInv : Inv cfg body s := hReach.invariant (inv_start lib hOwes callers) fun _ hInv hTurn hStep => hInv.step hTurn hStep
  exact hInv.lawful

end

def byByte : Config := ⟨.bytes, false, some 1⟩

def byLine : Config := ⟨.lines, false, none⟩

def twoChunks : Body Unit := [.ok [1, 2], .ok [3, 4]]

def halfLine : Body Unit := [.ok [97], .error ()]

def failsAgain : Body Unit := [.error (), .error ()]

private theorem owesNothing_twoChunks (encodingName : Option Str) : OwesNothing asciiRs byByte encodingName twoChunks :=
  fun hFailure => absurd hFailure Bool.false_ne_true

/-- One thread that reads a chunk in two parts. -/
theorem iterators_lawful_byByte : ∃ s, Reaches (Iterator.step byByte) InTurn (start asciiRs byByte none twoChunks 1) s ∧
    s.log = [(false, .data [1]), (false, .data [2])] ∧ Lawful byByte twoChunks s := by
  let acts : List Action := [.send, .begin 0, .receive 0, .store 0, .begin 0]
  have hAlong : Along (Iterator.step byByte) (fun s a _ => InTurn s a) (start asciiRs byByte none twoChunks 1) acts :=
    ⟨_, rfl, trivial, _, rfl, trivial, _, rfl, ⟨rfl, rfl⟩, _, rfl, trivial, _, rfl, trivial, trivial⟩
  have hReach := Reaches.start.along hAlong rfl
  exact ⟨_, hReach, rfl, (iterators_lawful asciiRs byByte none twoChunks 1).2 (owesNothing_twoChunks none) _ hReach⟩

/-- A chunk size of zero is taken with the stream, two calls that overlap lose the byte that one of them held
back, a line comes after the error, and an error after the error. -/
theorem not_iterators_lawful : ¬ RefusesZero ⟨.bytes, true, some 0⟩ .streaming ∧
    (∃ s, Reachable (Iterator.step byByte) (start asciiRs byByte none twoChunks 2) s ∧ ¬ Lawful byByte twoChunks s) ∧
    (∃ s, Reachable (Iterator.step byLine) (start asciiRs byLine none halfLine 1) s ∧ ¬ Lawful byLine halfLine s) ∧
    ∃ s, Reachable (Iterator.step byByte) (start asciiRs byByte none failsAgain 1) s ∧ ¬ Lawful byByte failsAgain s := by
  refine ⟨fun hRefuses => (refusesZero_iff _ _).mp hRefuses rfl rfl, ?_, ?_, ?_⟩
  · let acts : List Action := [.send, .send, .begin 0, .begin 1, .receive 0, .receive 1, .store 0, .store 1, .begin 0]
    have hRun : run (Iterator.step byByte) (start asciiRs byByte none twoChunks 2) acts = some _ := rfl
    refine ⟨_, Reaches.start.run hRun, fun hLawful => ?_⟩
    have hPrefix : ([1, 3, 4] : Str) <+: [1, 2, 3, 4] := hLawful.chunks rfl
    exact absurd hPrefix (by decide)
  · let acts : List Action := [.send, .send, .begin 0, .receive 0, .begin 0, .receive 0]
    have hRun : run (Iterator.step byLine) (start asciiRs byLine none halfLine 1) acts = some _ := rfl
    refine ⟨_, Reaches.start.run hRun, fun hLawful => ?_⟩
    have hStop := hLawful.quiet (true, .data [97]) (List.mem_of_getElem? (i := 1) rfl) rfl
    cases hStop
  · let acts : List Action := [.send, .send, .begin 0, .receive 0, .begin 0, .receive 0]
    have hRun : run (Iterator.step byByte) (start asciiRs byByte none failsAgain 1) acts = some _ := rfl
    refine ⟨_, Reaches.start.run hRun, fun hLawful => ?_⟩
    have hStop := hLawful.quiet (true, .error ()) (List.mem_of_getElem? (i := 1) rfl) rfl
    cases hStop

end Eggfetch.Streaming.Iterators
