import Eggfetch.Facade.ResponseLaws

/-! The laws of the body of the facade's `Response` over whole runs. -/
namespace Eggfetch.Facade.Bodies
open Text

section
variable {whole : Str} {s : Response × History}

theorem sized_read (isAsync : Bool) : ∀ n : Int, (Call.read isAsync).chunkSize = some n → 0 < n →
    Sized n.toNat (s.1.call (.read isAsync)).1.chunks := fun n hn => by cases hn

private theorem native_read_streaming {n : Native} (hState : n.state = .streaming) : n.read =
    if afterError n.decoded = none then (.returned (chunksOf n.decoded).flatten, { n with state := .buffered })
    else (.raised [], { n with state := .consumed }) := if_pos hState

private theorem native_read_taken {n : Native} (hState : n.state ≠ .streaming) : n.read = (.raised [], n) := if_neg hState

theorem read_fresh (t : Stream) (isAsync : Bool) : Response.read ⟨none, some t, none, false, false⟩ isAsync =
    if Response.usable t isAsync then
      if afterError t.current = none then
        (.returned (chunksOf t.current).flatten, ⟨some (chunksOf t.current).flatten, some t.spend.close, none, true, true⟩)
      else (.raised [], ⟨none, some t.spend, none, false, false⟩)
    else (.raised [], ⟨none, some t, none, false, false⟩) := rfl

theorem read_native {n : Native} (isAsync : Bool) (hState : n.state = .streaming) :
    Response.read ⟨none, none, some n, false, false⟩ isAsync =
    if afterError n.decoded = none then (.returned (chunksOf n.decoded).flatten,
      ⟨some (chunksOf n.decoded).flatten, none, some { n with state := .closed }, true, true⟩)
    else (.raised [], ⟨none, none, some { n with state := .consumed }, false, false⟩) := by
  rw [Response.read]
  simp only [Bool.false_eq_true, if_false, native_read_streaming hState]
  by_cases hEnd : afterError n.decoded = none
  · simp only [if_pos hEnd]
    rfl
  · simp only [if_neg hEnd]

theorem read_taken {n : Native} (isAsync : Bool) (hState : n.state ≠ .streaming) :
    Response.read ⟨none, none, some n, false, false⟩ isAsync =
    (.raised [], ⟨none, none, some n, false, false⟩) := by
  rw [Response.read]
  simp only [Bool.false_eq_true, if_false, native_read_taken hState]

theorem read_law_iff (hStage : Stage whole s) (isAsync : Bool) :
    Law whole s (.read isAsync) ↔ Admits whole s (.read isAsync) := by
  cases hStage with
  | buffered h hReturned =>
    exact iff_of_true (Law.of_whole rfl hReturned (sized_read isAsync)) fun hConsumed => by cases hConsumed
  | fresh t h hNone hWhole =>
    have hCall := read_fresh t isAsync
    by_cases hUsable : Response.usable t isAsync = true
    · rw [if_pos hUsable] at hCall
      have hDelivered : (Response.read ⟨none, some t, none, false, false⟩ isAsync).1.delivered =
          if afterError t.current = none then some (chunksOf t.current).flatten else none := by
        rw [hCall]
        split <;> rfl
      have hEnds : (Response.read ⟨none, some t, none, false, false⟩ isAsync).1 ≠ .endless := by
        rw [hCall]
        split <;> exact Outcome.noConfusion
      have hLaw := @law_iff_of_none whole (⟨none, some t, none, false, false⟩, h) (.read isAsync) hNone hEnds (sized_read isAsync)
      rw [hLaw, Response.call, hDelivered, complete_iff]
      exact ⟨fun hKept _ t' ht' _ => by cases ht'; exact hKept, fun hAll => hAll rfl t rfl hUsable⟩
    · rw [if_neg hUsable] at hCall
      refine iff_of_true (Law.of_raised (by rw [Response.call, hCall]) (Or.inl hNone)) fun _ t' ht' hUsable' => ?_
      cases ht'
      exact absurd hUsable' hUsable
  | readStream t h hReturned hEnd hBytes =>
    exact iff_of_true (Law.of_whole rfl (Or.inr hReturned) (sized_read isAsync)) fun hConsumed => by cases hConsumed
  | spentStream t closed h hNone => exact iff_of_true (Law.of_raised rfl (Or.inl hNone)) fun hConsumed => by cases hConsumed
  | freshNative n h hNone hFailed hState hWhole =>
    refine iff_of_true ?_ fun _ t ht => by cases ht
    by_cases hEnd : afterError n.decoded = none
    · refine Law.of_whole ?_ (Or.inl hNone) (sized_read isAsync)
      rw [Response.call, read_native isAsync hState, if_pos hEnd, Outcome.delivered, chunksOf_flatten hEnd, hWhole]
    · refine Law.of_raised ?_ (Or.inl hNone)
      rw [Response.call, read_native isAsync hState, if_neg hEnd]
  | failedNative n h hNone hState =>
    refine iff_of_true (Law.of_raised ?_ (Or.inl hNone)) fun _ t ht => by cases ht
    rw [Response.call, read_taken isAsync hState]
  | readNative n h hReturned hState =>
    exact iff_of_true (Law.of_whole rfl (Or.inr hReturned) (sized_read isAsync)) fun hConsumed => by cases hConsumed
  | spentNative n closed h hNone hState =>
      exact iff_of_true (Law.of_raised rfl (Or.inl hNone)) fun hConsumed => by cases hConsumed

theorem closeAtEnd_outcome (outcome : Outcome) (r : Response) : (Response.closeAtEnd (outcome, r)).1 = outcome := by
  cases outcome <;> rfl

theorem iterRaw_fresh (t : Stream) (isAsync : Bool) (chunkSize : Option Int) :
    Response.iterRaw ⟨none, some t, none, false, false⟩ isAsync chunkSize =
    if Response.usable t isAsync then
      Response.closeAtEnd (rawPieces chunkSize t.current, ⟨none, some t.spend, none, true, false⟩)
    else (.raised [], ⟨none, some t, none, false, false⟩) := rfl

theorem iterRaw_native {n : Native} (isAsync : Bool) (chunkSize : Option Int) (hState : n.state = .streaming) :
    Response.iterRaw ⟨none, none, some n, false, false⟩ isAsync chunkSize =
      Response.closeAtEnd (rawPieces chunkSize (Native.bridge isAsync n.raw),
        ⟨none, none, some { n with state := .consumed }, true, false⟩) := by
  rw [Response.iterRaw]
  simp only [Bool.or_self, Bool.false_eq_true, if_false, Native.iterRaw, if_pos hState]

theorem iterRaw_taken {n : Native} (isAsync : Bool) (chunkSize : Option Int) (hState : n.state ≠ .streaming) :
    Response.iterRaw ⟨none, none, some n, false, false⟩ isAsync chunkSize = (.raised [], ⟨none, none, some n, true, false⟩) := by
  rw [Response.iterRaw]
  simp only [Bool.or_self, Bool.false_eq_true, if_false, Native.iterRaw, if_neg hState]

theorem iterRaw_law_iff (hStage : Stage whole s) (isAsync : Bool) (chunkSize : Option Int) :
    Law whole s (.iterRaw isAsync chunkSize) ↔ Admits whole s (.iterRaw isAsync chunkSize) := by
  cases hStage with
  | fresh t h hNone hWhole =>
    have hCall := iterRaw_fresh t isAsync chunkSize
    by_cases hUsable : Response.usable t isAsync = true
    · have hOutcome : (Response.iterRaw ⟨none, some t, none, false, false⟩ isAsync chunkSize).1 =
          rawPieces chunkSize t.current := by
        rw [hCall, if_pos hUsable, closeAtEnd_outcome]
      have hEnds : (Response.iterRaw ⟨none, some t, none, false, false⟩ isAsync chunkSize).1 ≠ .endless := by
        rw [hOutcome]
        exact rawPieces_ends
      have hSized : ∀ n : Int, chunkSize = some n → 0 < n →
          Sized n.toNat (Response.iterRaw ⟨none, some t, none, false, false⟩ isAsync chunkSize).1.chunks := by
        rw [hOutcome]
        exact fun n hn hPositive => rawPieces_sized hn hPositive
      have hLaw := @law_iff_of_none whole (⟨none, some t, none, false, false⟩, h) (.iterRaw isAsync chunkSize) hNone hEnds hSized
      rw [hLaw, Response.call, hOutcome, rawPieces_delivered]
      by_cases hPositive : Positive chunkSize t
      · have hAll : ∀ n, chunkSize = some n → n ≤ 0 → chunksOf t.current = [] := hPositive
        simp only [and_iff_right hAll]
        rw [complete_iff]
        exact ⟨fun hKept _ t' ht' _ _ => by cases ht'; exact hKept, fun hAdmits => hAdmits rfl t rfl hUsable hPositive⟩
      · refine iff_of_true (fun _ body hBody => ?_) fun _ t' ht' _ hPositive' => ?_
        · rw [if_neg fun hBoth => hPositive hBoth.1] at hBody
          cases hBody
        · cases ht'
          exact absurd hPositive' hPositive
    · rw [if_neg hUsable] at hCall
      refine iff_of_true (Law.of_raised (by rw [Response.call, hCall]) (Or.inl hNone)) fun _ t' ht' hUsable' => ?_
      cases ht'
      exact absurd hUsable' hUsable
  | freshNative n h hNone hFailed hState hWhole =>
    refine iff_of_true ?_ fun _ t ht => by cases ht
    have hOutcome : (Response.iterRaw ⟨none, none, some n, false, false⟩ isAsync chunkSize).1 =
        rawPieces chunkSize (Native.bridge isAsync n.raw) := by
      rw [iterRaw_native isAsync chunkSize hState, closeAtEnd_outcome]
    constructor
    · rw [Response.call, hOutcome]
      exact rawPieces_ends
    · intro body hBody
      rw [hNone] at hBody
      cases hBody
    · intro hFailed'
      rw [hFailed] at hFailed'
      cases hFailed'
    · intro m hm hPositive
      rw [Response.call, hOutcome]
      exact rawPieces_sized hm hPositive
  | failedNative n h hNone hState =>
    refine iff_of_true (Law.of_raised ?_ (Or.inl hNone)) fun _ t ht => by cases ht
    rw [Response.call, iterRaw_taken isAsync chunkSize hState]
  | _ => exact iff_of_true (Law.of_raised rfl (Or.inr rfl)) fun hConsumed => by cases hConsumed

theorem iterBytes_content (content : Str) (t : Option Stream) (isAsync : Bool) (chunkSize : Option Int)
    (h : t = none ∨ isAsync = true) :
    Response.iterBytes ⟨some content, t, none, true, true⟩ isAsync chunkSize =
      (.ended (slices chunkSize content), ⟨some content, t, none, true, true⟩) := by
  rcases h with rfl | rfl
  · rfl
  · cases t <;> rfl

theorem iterBytes_fresh (t : Stream) (isAsync : Bool) (chunkSize : Option Int) :
    Response.iterBytes ⟨none, some t, none, false, false⟩ isAsync chunkSize =
      if (Response.usable t isAsync || isAsync && t.sync) = true
        then (pieces chunkSize t.current, ⟨none, some t.spend.close, none, true, true⟩)
      else (.raised [], ⟨none, some t.close, none, true, true⟩) := by
  rw [Response.iterBytes, Response.iterate]
  simp only [Option.isSome_none, Option.isNone_none, Bool.and_false, Bool.or_self, Bool.and_true, Bool.false_eq_true, if_false]
  split <;> rfl

theorem iterBytes_readStream (content : Str) (t : Stream) (chunkSize : Option Int) :
    Response.iterBytes ⟨some content, some t, none, true, true⟩ false chunkSize =
      if Response.usable t false = true then (pieces chunkSize t.current, ⟨some content, some t.spend, none, true, true⟩)
      else (.raised [], ⟨some content, some t, none, true, true⟩) := by
  rw [Response.iterBytes, Response.iterate]
  simp only [Option.isNone_some, Bool.and_false, Bool.false_and, Bool.or_false, Bool.false_eq_true, if_false]
  split <;> rfl

theorem slices_law_iff {content : Option Stream} {h : History} (hReturned : h.returned = none ∨ h.returned = some whole)
    {isAsync : Bool}
    {chunkSize : Option Int} (hAsync : content = none ∨ isAsync = true) :
    Law whole (⟨some whole, content, none, true, true⟩, h) (.iterBytes isAsync chunkSize) ↔ Sliced h chunkSize whole := by
  have hCall := iterBytes_content whole content isAsync chunkSize hAsync
  have hOutcome : (Response.call ⟨some whole, content, none, true, true⟩ (.iterBytes isAsync chunkSize)).1 =
      .ended (slices chunkSize whole) := by
    rw [Response.call, hCall]
  have hSized : ∀ n : Int, chunkSize = some n → 0 < n →
      Sized n.toNat (Response.call ⟨some whole, content, none, true, true⟩ (.iterBytes isAsync chunkSize)).1.chunks := by
    rw [hOutcome]
    exact fun n hn hPositive => slices_sized hn hPositive
  by_cases hNegative : ∃ n, chunkSize = some n ∧ n < 0
  · obtain ⟨n, hn, hNegative⟩ := hNegative
    have hDelivered : (Response.call ⟨some whole, content, none, true, true⟩ (.iterBytes isAsync chunkSize)).1.delivered =
        some [] := by
      rw [hOutcome, slices_negative hn hNegative]
      rfl
    have hEnds : (Response.call ⟨some whole, content, none, true, true⟩ (.iterBytes isAsync chunkSize)).1 ≠ .endless := by
      rw [hOutcome]
      exact Outcome.noConfusion
    have hSliced : Sliced h chunkSize whole ↔ whole = [] ∨ h.returned = none ∧ h.failed = false :=
      ⟨fun hAll => hAll n hn hNegative, fun hOr _ _ _ => hOr⟩
    have hLaw := @law_iff whole (⟨some whole, content, none, true, true⟩, h) (.iterBytes isAsync chunkSize) hEnds hSized
    rw [hLaw, hDelivered, hSliced]
    constructor
    · rintro ⟨hSame, hComplete⟩
      by_cases hNil : whole = []
      · exact Or.inl hNil
      · refine Or.inr ⟨hReturned.resolve_right fun hSome => ?_, ?_⟩
        · exact hNil (Option.some.inj (hSame whole hSome rfl)).symm
        · rw [← Bool.not_eq_true]
          exact fun hFailed => hNil (hComplete hFailed [] rfl).symm
    · rintro (rfl | ⟨hNone, hFailed⟩)
      · refine ⟨fun body hBody _ => ?_, fun _ body hBody => (Option.some.inj hBody).symm⟩
        rcases hReturned with hNone | hSome
        · rw [hNone] at hBody
          cases hBody
        · exact hSome.symm.trans hBody
      · refine ⟨fun body hBody => ?_, fun hFailed' => ?_⟩
        · rw [hNone] at hBody
          cases hBody
        · rw [hFailed] at hFailed'
          cases hFailed'
  · have hAll : ∀ n, chunkSize = some n → ¬ n < 0 := fun n hn hLess => hNegative ⟨n, hn, hLess⟩
    refine iff_of_true (Law.of_whole ?_ hReturned hSized) fun n hn hLess => absurd hLess (hAll n hn)
    rw [hOutcome, Outcome.delivered, slices_join hAll]

theorem stream_law_iff {t : Stream} {r next : Response} {h : History} {isAsync : Bool} {chunkSize : Option Int}
    (hCall : r.iterBytes isAsync chunkSize = (pieces chunkSize t.current, next)) :
    Law whole (r, h) (.iterBytes isAsync chunkSize) ↔ Positive chunkSize t ∧
      (∀ body, h.returned = some body → (if afterError t.current = none then some (chunksOf t.current).flatten
        else none) = some body) ∧
        Kept whole h t := by
  have hOutcome : (r.call (.iterBytes isAsync chunkSize)).1 = pieces chunkSize t.current := by
    rw [Response.call, hCall]
  have hSized : ∀ n : Int, chunkSize = some n → 0 < n → Sized n.toNat (r.call (.iterBytes isAsync chunkSize)).1.chunks := by
    rw [hOutcome]
    exact fun n hn hPositive => pieces_sized hn hPositive
  by_cases hPositive : Positive chunkSize t
  · have hEnds : (r.call (.iterBytes isAsync chunkSize)).1 ≠ .endless := by
      rw [hOutcome]
      exact pieces_ends.mpr hPositive
    have hLaw := @law_iff whole (r, h) (.iterBytes isAsync chunkSize) hEnds hSized
    rw [hLaw, hOutcome, pieces_delivered hPositive, complete_iff, and_iff_right hPositive]
    refine and_congr_left fun _ => ?_
    exact ⟨fun hAll body hBody => hAll body hBody rfl, fun hAll body hBody _ => hAll body hBody⟩
  · refine iff_of_false (fun hLaw => ?_) fun hAll => hPositive hAll.1
    have hEnds := hLaw.ends
    rw [hOutcome] at hEnds
    exact hPositive (pieces_ends.mp hEnds)

private theorem native_iterBytes_taken {n : Native} (isAsync : Bool) (chunkSize : Option Int) (hState : n.state ≠ .streaming) :
    n.iterBytes isAsync chunkSize = (.raised [], n) := by
  unfold Native.iterBytes
  cases chunkSize with
  | none => rfl
  | some size =>
    simp only [if_neg hState]
    split <;> rfl

theorem iterBytes_native (n : Native) (content : Option Str) (closed isAsync : Bool) (chunkSize : Option Int)
    (h : content.isSome = true ∨ closed = false) :
    (Response.iterBytes ⟨content, none, some n, content.isSome, closed⟩ isAsync chunkSize).1 =
      (n.iterBytes isAsync chunkSize).1 := by
  rw [Response.iterBytes, Response.iterate]
  cases content with
  | none =>
    obtain rfl : closed = false := h.resolve_left Bool.false_ne_true
    rfl
  | some content => rfl

private theorem native_law_iff {n : Native} {h : History} {isAsync : Bool} {chunkSize : Option Int} (hNone : h.returned = none)
    (hFailed : h.failed = false) (hState : n.state = .streaming) :
    Law whole (⟨none, none, some n, false, false⟩, h) (.iterBytes isAsync chunkSize) ↔ Fits isAsync chunkSize n := by
  have hOutcome : (Response.call ⟨none, none, some n, false, false⟩ (.iterBytes isAsync chunkSize)).1 =
    (n.iterBytes isAsync chunkSize).1 :=
    iterBytes_native n none false isAsync chunkSize (Or.inr rfl)
  have hLaw : Law whole (⟨none, none, some n, false, false⟩, h) (.iterBytes isAsync chunkSize) ↔
      (n.iterBytes isAsync chunkSize).1 ≠ .endless ∧
        ∀ m : Int, chunkSize = some m → 0 < m → Sized m.toNat (n.iterBytes isAsync chunkSize).1.chunks := by
    rw [← hOutcome]
    refine ⟨fun hLaw => ⟨hLaw.ends, hLaw.sized⟩, fun ⟨hEnds, hSized⟩ => ⟨hEnds, fun body hBody => ?_, fun hFailed' => ?_, hSized⟩⟩
    · rw [hNone] at hBody
      cases hBody
    · rw [hFailed] at hFailed'
      cases hFailed'
  rw [hLaw]
  unfold Native.iterBytes
  cases chunkSize with
  | none => exact iff_of_true ⟨Outcome.noConfusion, fun m hm => by cases hm⟩ fun m hm => by cases hm
  | some size =>
    have hFits : Fits isAsync (some size) n ↔ (size = 0 → isAsync = true → ∀ chunk ∈ chunksOf n.decoded, chunk = []) ∧
        (0 < size → ∀ chunk ∈ (chunksOf (Native.bridge isAsync n.decoded)).dropLast, chunk ≠ [] ∧ size.toNat ∣ chunk.length) :=
      ⟨fun hAll => hAll size rfl, fun hBoth m hm => by cases hm; exact hBoth⟩
    have hSizes : ∀ outcome : Outcome, (∀ m : Int, some size = some m → 0 < m → Sized m.toNat outcome.chunks) ↔
        (0 < size → Sized size.toNat outcome.chunks) :=
      fun outcome => ⟨fun hAll => hAll size rfl, fun hOne m hm => by cases hm; exact hOne⟩
    rw [hFits, hSizes]
    rcases lt_trichotomy size 0 with hNegative | rfl | hPositive
    · simp only [if_pos hNegative]
      refine iff_of_true ⟨Outcome.noConfusion, fun hPositive => ?_⟩ ⟨fun hZero => ?_, fun hPositive => ?_⟩ <;> omega
    · simp only [lt_irrefl, if_false, if_pos hState, if_true, forall_const, false_implies, and_true]
      cases isAsync with
      | false => exact iff_of_true Outcome.noConfusion fun hAsync => by cases hAsync
      | true =>
        have hAll : ((chunksOf n.decoded).all (·.isEmpty)) = true ↔ ∀ chunk ∈ chunksOf n.decoded, chunk = [] := by
          rw [List.all_eq_true]
          exact forall₂_congr fun chunk _ => List.isEmpty_iff
        simp only [if_true, forall_const]
        rw [← hAll]
        split
        · next hEmpty => exact iff_of_true (ofEvents_ends _ _) hEmpty
        · next hSome => exact iff_of_false (not_not_intro rfl) hSome
    · have hNotNegative : ¬ size < 0 := by omega
      have hNotZero : size ≠ 0 := by omega
      simp only [if_neg hNotNegative, if_pos hState, if_neg hNotZero, chunks_ofEvents]
      rw [sized_flatMap_split (by omega), and_iff_right (ofEvents_ends _ _)]
      exact (and_iff_right fun hZero => absurd hZero hNotZero).symm

theorem iterBytes_law_iff (hStage : Stage whole s) (isAsync : Bool) (chunkSize : Option Int) :
    Law whole s (.iterBytes isAsync chunkSize) ↔ Admits whole s (.iterBytes isAsync chunkSize) := by
  cases hStage with
  | buffered h hReturned => exact slices_law_iff hReturned (Or.inl rfl)
  | fresh t h hNone hWhole =>
    have hCall := iterBytes_fresh t isAsync chunkSize
    by_cases hUsable : (Response.usable t isAsync || isAsync && t.sync) = true
    · rw [if_pos hUsable] at hCall
      have hNoBody : ∀ body, h.returned = some body →
          (if afterError t.current = none then some (chunksOf t.current).flatten else none) = some body := by
        intro body hBody
        rw [hNone] at hBody
        cases hBody
      rw [stream_law_iff hCall, and_iff_right hNoBody]
      exact ⟨fun hBoth _ _ => hBoth, fun hAdmits => hAdmits rfl hUsable⟩
    · rw [if_neg hUsable] at hCall
      exact iff_of_true (Law.of_raised (by rw [Response.call, hCall]) (Or.inl hNone)) fun _ hUsable' => absurd hUsable' hUsable
  | readStream t h hReturned hEnd hBytes =>
    cases isAsync with
    | true => exact slices_law_iff (Or.inr hReturned) (Or.inr rfl)
    | false =>
      have hCall := iterBytes_readStream whole t chunkSize
      by_cases hUsable : Response.usable t false = true
      · rw [if_pos hUsable] at hCall
        have hAdmits : Admits whole (⟨some whole, some t, none, true, true⟩, h) (.iterBytes false chunkSize) ↔
            Response.usable t false = true ∧ Positive chunkSize t ∧ (t.restarts = true ∨ whole = []) := Iff.rfl
        have hSame : bytesOf t.current = whole ↔ t.restarts = true ∨ whole = [] := by
          rw [hBytes]
          by_cases hRestarts : t.restarts = true
          · exact iff_of_true (if_pos hRestarts) (Or.inl hRestarts)
          · rw [if_neg hRestarts, or_iff_right hRestarts, eq_comm]
        rw [stream_law_iff hCall, hAdmits, and_iff_right hUsable, if_pos hEnd, chunksOf_flatten hEnd, ← hSame, hReturned]
        refine and_congr_right fun _ => ⟨fun hBoth => Option.some.inj (hBoth.1 whole rfl), fun hBytes =>
          ⟨fun body hBody => ?_, fun _ _ => hBytes⟩⟩
        cases hBody
        rw [hBytes]
      · rw [if_neg hUsable] at hCall
        refine iff_of_false (fun hLaw => ?_) fun hAdmits => hUsable hAdmits.1
        have hSame := hLaw.same whole hReturned rfl
        rw [Response.call, hCall] at hSame
        cases hSame
  | spentStream t closed h hNone => exact iff_of_true (Law.of_raised rfl (Or.inl hNone)) fun hConsumed => by cases hConsumed
  | freshNative n h hNone hFailed hState hWhole =>
    rw [native_law_iff hNone hFailed hState]
    exact ⟨fun hFits _ _ => hFits, fun hAdmits => hAdmits rfl hState⟩
  | failedNative n h hNone hState =>
    refine iff_of_true (Law.of_raised ?_ (Or.inl hNone)) fun _ hState' => absurd hState' hState
    have hOutcome := iterBytes_native n none false isAsync chunkSize (Or.inr rfl)
    rw [native_iterBytes_taken isAsync chunkSize hState] at hOutcome
    exact hOutcome
  | readNative n h hReturned hState =>
    refine iff_of_false (fun hLaw => ?_) fun hAdmits => hAdmits
    have hSame := hLaw.same whole hReturned rfl
    have hOutcome := iterBytes_native n (some whole) true isAsync chunkSize (Or.inl rfl)
    rw [native_iterBytes_taken isAsync chunkSize hState] at hOutcome
    have hRaised : (Response.call ⟨some whole, none, some n, true, true⟩ (.iterBytes isAsync chunkSize)).1 =
      .raised [] := hOutcome
    rw [hRaised] at hSame
    cases hSame
  | spentNative n closed h hNone hState =>
      exact iff_of_true (Law.of_raised rfl (Or.inl hNone)) fun hConsumed => by cases hConsumed

theorem law_iff_admits (hStage : Stage whole s) (call : Call) : Law whole s call ↔ Admits whole s call := by
  cases call with
  | read isAsync => exact read_law_iff hStage isAsync
  | iterBytes isAsync chunkSize => exact iterBytes_law_iff hStage isAsync chunkSize
  | iterRaw isAsync chunkSize => exact iterRaw_law_iff hStage isAsync chunkSize

private theorem spend_current {t : Stream} (hEnd : afterError t.current = none) :
    t.spend.current = if t.restarts then t.current else [] := by
  rw [Stream.spend, hEnd]
  by_cases hRestarts : t.restarts = true
  · rw [Stream.current, if_pos hRestarts, if_pos hRestarts, Stream.current, if_pos hRestarts]
  · rw [Stream.current, if_neg hRestarts, if_neg hRestarts]

private theorem close_current (t : Stream) : t.close.current = t.current ∨ t.close.current = [] ∧ t.restarts = false := by
  rw [Stream.close]
  split
  · by_cases hRestarts : t.restarts = true
    · exact Or.inl (by rw [Stream.current, if_pos hRestarts, Stream.current, if_pos hRestarts])
    · exact Or.inr ⟨by rw [Stream.current, if_neg hRestarts], Bool.not_eq_true _ ▸ hRestarts⟩
  · exact Or.inl rfl

private theorem close_restarts (t : Stream) : t.close.restarts = t.restarts := by
  rw [Stream.close]
  split <;> rfl

/-- A stream that was read to its end gives its bytes again where it starts anew. -/
theorem stage_readStream {t t' : Stream} {h : History} (hReturned : h.returned = some whole) (hEnd : afterError t.current = none)
    (hBytes : t.restarts = true → bytesOf t.current = whole) (hNext : t' = t.spend ∨ t' = t.spend.close) :
    Stage whole (⟨some whole, some t', none, true, true⟩, h) := by
  have hSpend := spend_current hEnd
  have hRestarts : t'.restarts = t.restarts := by
    rcases hNext with rfl | rfl
    · rfl
    · rw [close_restarts]
      rfl
  have hCurrent : t'.current = if t.restarts then t.current else [] := by
    rcases hNext with rfl | rfl
    · exact hSpend
    · rcases close_current t.spend with hSame | ⟨hNil, hOnce⟩
      · rw [hSame, hSpend]
      · have hOnce' : t.restarts = false := hOnce
        rw [hNil, hOnce']
        rfl
  refine Stage.readStream t' h hReturned ?_ ?_
  · rw [hCurrent]
    split
    · exact hEnd
    · rfl
  · rw [hCurrent, hRestarts]
    split
    · next hAgain => exact hBytes hAgain
    · rfl

theorem after_read_returned {h : History} {isAsync : Bool} {body : Str} (hReturned : h.returned = none) :
    (h.after (.read isAsync) (.returned body)).returned = some body := by
  unfold History.after
  rw [hReturned]
  rfl

theorem after_some {h : History} {call : Call} {outcome : Outcome} (hReturned : h.returned = some whole) :
    (h.after call outcome).returned = some whole := by
  unfold History.after
  rw [hReturned]
  rfl

theorem after_none {h : History} {call : Call} {outcome : Outcome} (hReturned : h.returned = none)
    (hNoRead : call.rereads = false ∨ (∀ isAsync, call ≠ .read isAsync) ∨ ∀ body, outcome ≠ .returned body) :
    (h.after call outcome).returned = none := by
  unfold History.after
  rw [hReturned, Option.none_or]
  split
  · next isAsync body =>
    rcases hNoRead with hRaw | hOther | hOutcome
    · cases hRaw
    · exact absurd rfl (hOther isAsync)
    · exact absurd rfl (hOutcome body)
  · rfl

theorem after_raised {h : History} {call : Call} {chunks : List Str} : (h.after call (.raised chunks)).failed = true :=
  Bool.or_true h.failed

private theorem closeAtEnd_next (outcome : Outcome) (r : Response) :
    (Response.closeAtEnd (outcome, r)).2 = r ∨ (Response.closeAtEnd (outcome, r)).2 = r.close := by
  cases outcome with
  | ended chunks => exact Or.inr rfl
  | _ => exact Or.inl rfl

private theorem stage_read (hStage : Stage whole s) (isAsync : Bool) (hLaw : Law whole s (.read isAsync)) :
    Stage whole ((s.1.call (.read isAsync)).2, s.2.after (.read isAsync) (s.1.call (.read isAsync)).1) := by
  have hRefused : ∀ {h : History} {chunks : List Str}, h.returned = none →
    (h.after (.read isAsync) (.raised chunks)).returned = none :=
    fun hNone => after_none hNone (Or.inr (Or.inr fun _ => Outcome.noConfusion))
  cases hStage with
  | buffered h hReturned =>
    refine Stage.buffered _ (Or.inr ?_)
    rcases hReturned with hNone | hSome
    · exact after_read_returned hNone
    · exact after_some hSome
  | fresh t h hNone hWhole =>
    have hCall : Response.call ⟨none, some t, none, false, false⟩ (.read isAsync) = _ := read_fresh t isAsync
    by_cases hUsable : Response.usable t isAsync = true
    · rw [if_pos hUsable] at hCall
      by_cases hEnd : afterError t.current = none
      · rw [if_pos hEnd, chunksOf_flatten hEnd] at hCall
        have hBytes : bytesOf t.current = whole := by
          cases hFailed : h.failed with
          | false => exact hWhole hFailed
          | true =>
            have hComplete := hLaw.complete hFailed
            simp only [hCall] at hComplete
            exact hComplete _ rfl
        rw [hBytes] at hCall
        simp only [hCall]
        exact stage_readStream (after_read_returned hNone) hEnd (fun _ => hBytes) (Or.inr rfl)
      · rw [if_neg hEnd] at hCall
        simp only [hCall]
        refine Stage.fresh _ _ (hRefused hNone) fun hFine => ?_
        rw [after_raised] at hFine
        cases hFine
    · rw [if_neg hUsable] at hCall
      simp only [hCall]
      refine Stage.fresh _ _ (hRefused hNone) fun hFine => ?_
      rw [after_raised] at hFine
      cases hFine
  | readStream t h hReturned hEnd hBytes => exact Stage.readStream t _ (after_some hReturned) hEnd hBytes
  | spentStream t closed h hNone => exact Stage.spentStream t closed _ (hRefused hNone)
  | freshNative n h hNone hFailed hState hWhole =>
    have hCall : Response.call ⟨none, none, some n, false, false⟩ (.read isAsync) = _ := read_native isAsync hState
    by_cases hEnd : afterError n.decoded = none
    · rw [if_pos hEnd, chunksOf_flatten hEnd, hWhole] at hCall
      simp only [hCall]
      exact Stage.readNative _ _ (after_read_returned hNone) NativeState.noConfusion
    · rw [if_neg hEnd] at hCall
      simp only [hCall]
      exact Stage.failedNative _ _ (hRefused hNone) NativeState.noConfusion
  | failedNative n h hNone hState =>
    have hCall : Response.call ⟨none, none, some n, false, false⟩ (.read isAsync) = _ := read_taken isAsync hState
    simp only [hCall]
    exact Stage.failedNative n _ (hRefused hNone) hState
  | readNative n h hReturned hState => exact Stage.readNative n _ (after_some hReturned) hState
  | spentNative n closed h hNone hState => exact Stage.spentNative n closed _ (hRefused hNone) hState

private theorem stage_iterRaw (hStage : Stage whole s) (isAsync : Bool) (chunkSize : Option Int) :
    Stage whole ((s.1.call (.iterRaw isAsync chunkSize)).2,
      s.2.after (.iterRaw isAsync chunkSize) (s.1.call (.iterRaw isAsync chunkSize)).1) := by
  have hSame : ∀ {h : History} {outcome : Outcome}, h.returned = none →
    (h.after (.iterRaw isAsync chunkSize) outcome).returned = none :=
    fun hNone => after_none hNone (Or.inl rfl)
  cases hStage with
  | buffered h hReturned => exact Stage.buffered _ (hReturned.imp hSame after_some)
  | fresh t h hNone hWhole =>
    have hCall : Response.call ⟨none, some t, none, false, false⟩ (.iterRaw isAsync chunkSize) = _ :=
      iterRaw_fresh t isAsync chunkSize
    by_cases hUsable : Response.usable t isAsync = true
    · rw [if_pos hUsable] at hCall
      rw [hCall]
      rcases closeAtEnd_next (rawPieces chunkSize t.current) ⟨none, some t.spend, none, true, false⟩ with hNext | hNext
      · rw [hNext]
        exact Stage.spentStream _ _ _ (hSame hNone)
      · rw [hNext]
        exact Stage.spentStream _ _ _ (hSame hNone)
    · rw [if_neg hUsable] at hCall
      simp only [hCall]
      refine Stage.fresh _ _ (hSame hNone) fun hFine => ?_
      rw [after_raised] at hFine
      cases hFine
  | readStream t h hReturned hEnd hBytes => exact Stage.readStream t _ (after_some hReturned) hEnd hBytes
  | spentStream t closed h hNone => exact Stage.spentStream t closed _ (hSame hNone)
  | freshNative n h hNone hFailed hState hWhole =>
    have hCall : Response.call ⟨none, none, some n, false, false⟩ (.iterRaw isAsync chunkSize) = _ :=
      iterRaw_native isAsync chunkSize hState
    rw [hCall]
    rcases closeAtEnd_next (rawPieces chunkSize (Native.bridge isAsync n.raw))
      ⟨none, none, some { n with state := .consumed }, true, false⟩
      with hNext | hNext
    · rw [hNext]
      exact Stage.spentNative _ _ _ (hSame hNone) NativeState.noConfusion
    · rw [hNext]
      exact Stage.spentNative _ _ _ (hSame hNone) NativeState.noConfusion
  | failedNative n h hNone hState =>
    have hCall : Response.call ⟨none, none, some n, false, false⟩ (.iterRaw isAsync chunkSize) = _ :=
      iterRaw_taken isAsync chunkSize hState
    simp only [hCall]
    exact Stage.spentNative n _ _ (hSame hNone) hState
  | readNative n h hReturned hState => exact Stage.readNative n _ (after_some hReturned) hState
  | spentNative n closed h hNone hState => exact Stage.spentNative n closed _ (hSame hNone) hState

private theorem stage_iterBytes (hStage : Stage whole s) (isAsync : Bool) (chunkSize : Option Int)
    (hLaw : Law whole s (.iterBytes isAsync chunkSize)) :
    Stage whole ((s.1.call (.iterBytes isAsync chunkSize)).2,
      s.2.after (.iterBytes isAsync chunkSize) (s.1.call (.iterBytes isAsync chunkSize)).1) := by
  have hSame : ∀ {h : History} {outcome : Outcome}, h.returned = none →
    (h.after (.iterBytes isAsync chunkSize) outcome).returned = none :=
    fun hNone => after_none hNone (Or.inr (Or.inl fun _ => Call.noConfusion))
  cases hStage with
  | buffered h hReturned =>
    have hCall : Response.call ⟨some whole, none, none, true, true⟩ (.iterBytes isAsync chunkSize) = _ :=
      iterBytes_content whole none isAsync chunkSize (Or.inl rfl)
    simp only [hCall]
    exact Stage.buffered _ (hReturned.imp hSame after_some)
  | fresh t h hNone hWhole =>
    have hCall : Response.call ⟨none, some t, none, false, false⟩ (.iterBytes isAsync chunkSize) = _ :=
      iterBytes_fresh t isAsync chunkSize
    by_cases hUsable : (Response.usable t isAsync || isAsync && t.sync) = true
    · rw [if_pos hUsable] at hCall
      simp only [hCall]
      exact Stage.spentStream _ _ _ (hSame hNone)
    · rw [if_neg hUsable] at hCall
      simp only [hCall]
      exact Stage.spentStream _ _ _ (hSame hNone)
  | readStream t h hReturned hEnd hBytes =>
    cases isAsync with
    | true =>
      have hCall : Response.call ⟨some whole, some t, none, true, true⟩ (.iterBytes true chunkSize) = _ :=
        iterBytes_content whole (some t) true chunkSize (Or.inr rfl)
      simp only [hCall]
      exact Stage.readStream t _ (after_some hReturned) hEnd hBytes
    | false =>
      have hCall : Response.call ⟨some whole, some t, none, true, true⟩ (.iterBytes false chunkSize) = _ :=
        iterBytes_readStream whole t chunkSize
      by_cases hUsable : Response.usable t false = true
      · rw [if_pos hUsable] at hCall
        simp only [hCall]
        refine stage_readStream (after_some hReturned) hEnd (fun hRestarts => ?_) (Or.inl rfl)
        rw [hBytes, if_pos hRestarts]
      · rw [if_neg hUsable] at hCall
        simp only [hCall]
        exact Stage.readStream t _ (after_some hReturned) hEnd hBytes
  | spentStream t closed h hNone => exact Stage.spentStream t closed _ (hSame hNone)
  | freshNative n h hNone hFailed hState hWhole => exact Stage.spentNative _ _ _ (hSame hNone) NativeState.noConfusion
  | failedNative n h hNone hState => exact Stage.spentNative _ _ _ (hSame hNone) NativeState.noConfusion
  | readNative n h hReturned hState =>
    exact ((iterBytes_law_iff (Stage.readNative n h hReturned hState) isAsync chunkSize).mp hLaw).elim
  | spentNative n closed h hNone hState => exact Stage.spentNative n closed _ (hSame hNone) hState

private theorem stage_next (hStage : Stage whole s) {call : Call} {next : Response × History} (hStep : step s call = some next)
    (hLaw : Law whole s call) : Stage whole next := by
  cases hStep
  cases call with
  | read isAsync => exact stage_read hStage isAsync hLaw
  | iterBytes isAsync chunkSize => exact stage_iterBytes hStage isAsync chunkSize hLaw
  | iterRaw isAsync chunkSize => exact stage_iterRaw hStage isAsync chunkSize

/-- Every call of a run keeps the law exactly where every call is admitted. -/
theorem response_lawful (source : Source) (calls : List Call) :
    Transition.Along step (fun s call _ => Law source.whole s call) (source.response, ⟨none, false⟩) calls ↔
      Transition.Along step (fun s call _ => Admits source.whole s call) (source.response, ⟨none, false⟩) calls :=
  Transition.along_iff_of_good (Stage source.whole) (stage_start source) (fun hStage hStep hLaw => stage_next hStage hStep hLaw)
    fun hStage _ => law_iff_admits hStage _

def ab : Str := [0x61, 0x62]

/-- A generator that was read yields nothing, and one that has failed is read as an empty body; a size of zero never ends. -/
theorem not_response_lawful :
    ¬ Transition.Along step (fun s call _ => Law ab s call)
        ((Source.stream [.chunk ab] true false false false true).response, ⟨none, false⟩) [.read false, .iterBytes false none] ∧
      ¬ Transition.Along step (fun s call _ => Law ab s call)
        ((Source.stream [.chunk ab, .error] true false false false true).response, ⟨none, false⟩) [.read false, .read false] ∧
      ¬ Transition.Along step (fun s call _ => Law ab s call)
        ((Source.stream [.chunk ab] true false false false true).response, ⟨none, false⟩) [.iterBytes false (some 0)] := by
  refine ⟨?_, ?_, ?_⟩
  · rintro ⟨next, hStep, -, -, -, hLaw, -⟩
    obtain rfl := Option.some.inj hStep
    exact absurd (hLaw.same ab rfl rfl) (by decide)
  · rintro ⟨next, hStep, -, -, -, hLaw, -⟩
    obtain rfl := Option.some.inj hStep
    exact absurd (hLaw.complete rfl [] rfl) (by decide)
  · rintro ⟨next, -, hLaw, -⟩
    exact hLaw.ends rfl

end
end Eggfetch.Facade.Bodies
