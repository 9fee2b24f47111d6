import Eggfetch.Facade.ResponseBody
import Eggfetch.Transition.Runs

/-! What calls on the body of the facade's `Response` deliver over runs. -/
namespace Eggfetch.Facade.Bodies
open Text

namespace Outcome

def delivered : Outcome → Option Str
  | .returned body => some body
  | .ended chunks => some chunks.flatten
  | _ => none

def chunks : Outcome → List Str
  | .returned body => [body]
  | .ended chunks | .raised chunks => chunks
  | .endless => []

def isRaised : Outcome → Bool
  | .raised _ => true
  | _ => false

end Outcome

/-- `iter_raw` is refused once a body was read; the other calls give it again. -/
def Call.rereads : Call → Bool
  | .iterRaw .. => false
  | _ => true

def Call.chunkSize : Call → Option Int
  | .read _ => none
  | .iterBytes _ chunkSize | .iterRaw _ chunkSize => chunkSize

/-- What has happened so far: the body that a read has returned first, and whether a call has failed. -/
structure History where
  returned : Option Str
  failed : Bool

def History.after (h : History) (call : Call) (outcome : Outcome) : History where
  returned := h.returned.or (match call, outcome with
    | .read _, .returned body => some body
    | _, _ => none)
  failed := h.failed || outcome.isRaised

def step (s : Response × History) (call : Call) : Option (Response × History) :=
  some ((s.1.call call).2, s.2.after call (s.1.call call).1)

/-- What a call owes to its user, `whole` being the bytes of the source. -/
structure Law (whole : Str) (s : Response × History) (call : Call) : Prop where
  ends : (s.1.call call).1 ≠ .endless
  same : ∀ body, s.2.returned = some body → call.rereads = true → (s.1.call call).1.delivered = some body
  complete : s.2.failed = true → ∀ body, (s.1.call call).1.delivered = some body → body = whole
  sized : ∀ n : Int, call.chunkSize = some n → 0 < n → Sized n.toNat (s.1.call call).1.chunks

/-- After a failure nothing of an unread stream is lost, or what is left of it fails again. -/
def Kept (whole : Str) (h : History) (t : Stream) : Prop :=
  h.failed = true → afterError t.current = none → bytesOf t.current = whole

def Positive (chunkSize : Option Int) (t : Stream) : Prop := ∀ n, chunkSize = some n → n ≤ 0 → chunksOf t.current = []

/-- No slices of a negative size are asked of a body that was read, or after a failure. -/
def Sliced (h : History) (chunkSize : Option Int) (content : Str) : Prop :=
  ∀ n, chunkSize = some n → n < 0 → content = [] ∨ h.returned = none ∧ h.failed = false

/-- The chunks of a native stream are multiples of the size, or empty where the size is zero. -/
def Fits (isAsync : Bool) (chunkSize : Option Int) (native : Native) : Prop :=
  ∀ n, chunkSize = some n → (n = 0 → isAsync = true → ∀ chunk ∈ chunksOf native.decoded, chunk = []) ∧
    (0 < n → ∀ chunk ∈ (chunksOf (Native.bridge isAsync native.decoded)).dropLast, chunk ≠ [] ∧ n.toNat ∣ chunk.length)

def Admits (whole : Str) (s : Response × History) : Call → Prop
  | .read isAsync => s.1.consumed = false → ∀ t, s.1.stream = some t → usable t isAsync = true → Kept whole s.2 t
  | .iterRaw isAsync chunkSize =>
    s.1.consumed = false → ∀ t, s.1.stream = some t → usable t isAsync = true → Positive chunkSize t → Kept whole s.2 t
  | .iterBytes isAsync chunkSize =>
    match s.1.native, s.1.stream, s.1.content with
    | some native, _, none => s.1.consumed = false → native.state = .streaming → Fits isAsync chunkSize native
    | some _, _, some _ => False
    | none, some t, none =>
      s.1.consumed = false → (usable t isAsync || isAsync && t.sync) = true → Positive chunkSize t ∧ Kept whole s.2 t
    | none, some t, some content =>
      if isAsync then Sliced s.2 chunkSize content
      else usable t false = true ∧ Positive chunkSize t ∧ (t.restarts = true ∨ content = [])
    | none, none, content => Sliced s.2 chunkSize (content.getD [])
where
  usable := Response.usable

theorem chunksOf_flatten {events : List Event} (h : afterError events = none) : (chunksOf events).flatten = bytesOf events := by
  induction events with
  | nil => rfl
  | cons event events ih =>
    cases event with
    | chunk bytes => rw [chunksOf, bytesOf, List.flatten_cons, ih h]
    | error => cases h

theorem chunks_ofEvents (chunks : List Str) (events : List Event) : (Outcome.ofEvents chunks events).chunks = chunks := by
  rw [Outcome.ofEvents]
  split <;> rfl

theorem delivered_ofEvents (chunks : List Str) (events : List Event) :
    (Outcome.ofEvents chunks events).delivered = if afterError events = none then some chunks.flatten else none := by
  rw [Outcome.ofEvents]
  split <;> rfl

theorem ofEvents_ends (chunks : List Str) (events : List Event) : Outcome.ofEvents chunks events ≠ .endless := by
  rw [Outcome.ofEvents]
  split <;> exact Outcome.noConfusion

theorem flatten_filter_isEmpty (chunks : List Str) : (chunks.filter (!·.isEmpty)).flatten = chunks.flatten := by
  induction chunks with
  | nil => rfl
  | cons chunk chunks ih =>
    cases chunk with
    | nil => exact ih
    | cons b chunk => rw [List.filter_cons_of_pos rfl, List.flatten_cons, List.flatten_cons, ih]

/-- The pieces of the chunks, with what is left of them where no error comes. -/
theorem rechunk_delivered (n : Nat) (events : List Event) :
    (if afterError events = none then Outcome.ended (withRest (rechunk n [] (chunksOf events)))
      else .raised (rechunk n [] (chunksOf events)).1).delivered =
        if afterError events = none then some (chunksOf events).flatten else none := by
  split
  · rw [Outcome.delivered, withRest_join, rechunk_join, List.nil_append]
  · rfl

theorem rechunk_sized (n : Nat) (events : List Event) :
    Sized n (if afterError events = none then Outcome.ended (withRest (rechunk n [] (chunksOf events)))
      else .raised (rechunk n [] (chunksOf events)).1).chunks := by
  split
  · exact sized_withRest (rechunk_full n [] _)
  · exact Sized.of_full (rechunk_full n [] _)

variable {chunkSize : Option Int} {events : List Event}

theorem pieces_ends : pieces chunkSize events ≠ .endless ↔ ∀ n, chunkSize = some n → n ≤ 0 → chunksOf events = [] := by
  cases chunkSize with
  | none => exact iff_of_true (ofEvents_ends _ _) fun n hn => by cases hn
  | some size =>
    rw [pieces]
    by_cases hSize : size ≤ 0
    · simp only [if_pos hSize]
      by_cases hChunks : chunksOf events = []
      · rw [if_pos hChunks]
        exact iff_of_true (ofEvents_ends _ _) fun _ _ _ => hChunks
      · rw [if_neg hChunks]
        exact iff_of_false (not_not_intro rfl) fun hAll => hChunks (hAll size rfl hSize)
    · simp only [if_neg hSize]
      refine iff_of_true ?_ fun n hn hLe => ?_
      · split <;> exact Outcome.noConfusion
      · cases hn
        exact absurd hLe hSize

theorem pieces_delivered (h : ∀ n, chunkSize = some n → n ≤ 0 → chunksOf events = []) :
    (pieces chunkSize events).delivered = if afterError events = none then some (chunksOf events).flatten else none := by
  cases chunkSize with
  | none => exact delivered_ofEvents _ _
  | some size =>
    rw [pieces]
    by_cases hSize : size ≤ 0
    · have hChunks := h size rfl hSize
      simp only [if_pos hSize, if_pos hChunks]
      rw [delivered_ofEvents, hChunks]
    · simp only [if_neg hSize]
      exact rechunk_delivered _ _

theorem pieces_sized {n : Int} (hSize : chunkSize = some n) (hPositive : 0 < n) :
    Sized n.toNat (pieces chunkSize events).chunks := by
  rw [hSize, pieces]
  simp only [if_neg (not_le.mpr hPositive)]
  exact rechunk_sized _ _

theorem rawPieces_ends : rawPieces chunkSize events ≠ .endless := by
  cases chunkSize with
  | none => exact ofEvents_ends _ _
  | some size =>
    rw [rawPieces]
    simp only
    split
    · split
      · exact ofEvents_ends _ _
      · exact Outcome.noConfusion
    · split <;> exact Outcome.noConfusion

theorem rawPieces_delivered : (rawPieces chunkSize events).delivered =
    if (∀ n, chunkSize = some n → n ≤ 0 → chunksOf events = []) ∧
        afterError events = none then some (chunksOf events).flatten else none := by
  cases chunkSize with
  | none =>
    have hNone : ∀ n, (none : Option Int) = some n → n ≤ 0 → chunksOf events = [] := fun n hn => by cases hn
    rw [rawPieces]
    simp only [and_iff_right hNone]
    rw [delivered_ofEvents, flatten_filter_isEmpty]
  | some size =>
    rw [rawPieces]
    by_cases hSize : size ≤ 0
    · simp only [if_pos hSize]
      by_cases hChunks : chunksOf events = []
      · rw [if_pos hChunks, delivered_ofEvents, hChunks]
        simp only [implies_true, true_and]
      · rw [if_neg hChunks, if_neg fun h => hChunks (h.1 size rfl hSize)]
        rfl
    · have hAll : ∀ n, some size = some n → n ≤ 0 → chunksOf events = [] := fun n hn hLe => by cases hn; exact absurd hLe hSize
      simp only [if_neg hSize, and_iff_right hAll]
      exact rechunk_delivered _ _

theorem rawPieces_sized {n : Int} (hSize : chunkSize = some n) (hPositive : 0 < n) :
    Sized n.toNat (rawPieces chunkSize events).chunks := by
  rw [hSize, rawPieces]
  simp only [if_neg (not_le.mpr hPositive)]
  exact rechunk_sized _ _

theorem slices_join {data : Str} (h : ∀ n, chunkSize = some n → ¬ n < 0) : (slices chunkSize data).flatten = data := by
  have hSize : ¬ sizeOr chunkSize < 0 := by
    cases chunkSize with
    | none => decide
    | some size =>
      have hSign := h size rfl
      rw [sizeOr]
      split <;> omega
  rw [slices, if_neg hSize, withRest_join, cut_join]

theorem slices_negative {data : Str} {n : Int} (hSize : chunkSize = some n) (h : n < 0) : slices chunkSize data = [] := by
  have hZero : n ≠ 0 := by omega
  rw [hSize, slices, sizeOr, if_neg hZero, if_pos h]

theorem slices_sized {data : Str} {n : Int} (hSize : chunkSize = some n) (hPositive : 0 < n) :
    Sized n.toNat (slices chunkSize data) := by
  have hZero : n ≠ 0 := by omega
  have hNegative : ¬ n < 0 := by omega
  rw [hSize, slices, sizeOr, if_neg hZero, if_neg hNegative]
  exact sized_withRest (cut_full _ _)

/-- Where a response stands whose calls have all met the law. -/
inductive Stage (whole : Str) : Response × History → Prop
  | buffered (h : History) : (h.returned = none ∨ h.returned = some whole) → Stage whole (⟨some whole, none, none, true, true⟩, h)
  | fresh (t : Stream) (h : History) : h.returned = none → (h.failed = false → bytesOf t.current = whole) →
      Stage whole (⟨none, some t, none, false, false⟩, h)
  | readStream (t : Stream) (h : History) : h.returned = some whole → afterError t.current = none →
      bytesOf t.current = (if t.restarts then whole else []) → Stage whole (⟨some whole, some t, none, true, true⟩, h)
  | spentStream (t : Stream) (closed : Bool) (h : History) :
      h.returned = none → Stage whole (⟨none, some t, none, true, closed⟩, h)
  | freshNative (n : Native) (h : History) :
      h.returned = none → h.failed = false → n.state = .streaming → bytesOf n.decoded = whole →
      Stage whole (⟨none, none, some n, false, false⟩, h)
  | failedNative (n : Native) (h : History) : h.returned = none → n.state ≠ .streaming →
      Stage whole (⟨none, none, some n, false, false⟩, h)
  | readNative (n : Native) (h : History) : h.returned = some whole → n.state ≠ .streaming →
      Stage whole (⟨some whole, none, some n, true, true⟩, h)
  | spentNative (n : Native) (closed : Bool) (h : History) : h.returned = none → n.state ≠ .streaming →
      Stage whole (⟨none, none, some n, true, closed⟩, h)

theorem stage_start (source : Source) : Stage source.whole (source.response, ⟨none, false⟩) := by
  cases source with
  | content bytes => exact Stage.buffered _ (Or.inl rfl)
  | stream events sync async restarts resumes closes =>
    refine Stage.fresh _ _ rfl fun _ => ?_
    rw [Stream.current]
    exact congrArg bytesOf (ite_self _)
  | native decoded raw => exact Stage.freshNative _ _ rfl rfl rfl rfl

section
variable {whole : Str} {s : Response × History} {call : Call}

/-- A call that is refused keeps the law where no body was returned, or it gives none again. -/
theorem Law.of_raised (hOutcome : (s.1.call call).1 = .raised []) (hNone : s.2.returned = none ∨ call.rereads = false) :
    Law whole s call := by
  constructor
  · rw [hOutcome]
    exact Outcome.noConfusion
  · intro body hBody hReads
    rcases hNone with hNone | hRaw
    · rw [hNone] at hBody
      cases hBody
    · rw [hRaw] at hReads
      cases hReads
  · intro _ body hBody
    rw [hOutcome] at hBody
    cases hBody
  · intro n _ _
    rw [hOutcome]
    exact fun piece hPiece => absurd hPiece List.not_mem_nil

theorem law_iff (hEnds : (s.1.call call).1 ≠ .endless)
    (hSized : ∀ n : Int, call.chunkSize = some n → 0 < n → Sized n.toNat (s.1.call call).1.chunks) : Law whole s call ↔
      (∀ body, s.2.returned = some body → call.rereads = true → (s.1.call call).1.delivered = some body) ∧
        (s.2.failed = true → ∀ body, (s.1.call call).1.delivered = some body → body = whole) :=
  ⟨fun hLaw => ⟨hLaw.same, hLaw.complete⟩, fun ⟨hSame, hComplete⟩ => ⟨hEnds, hSame, hComplete, hSized⟩⟩

/-- Where no body was returned only what follows a failure is owed. -/
theorem law_iff_of_none (hNone : s.2.returned = none) (hEnds : (s.1.call call).1 ≠ .endless)
    (hSized : ∀ n : Int, call.chunkSize = some n → 0 < n → Sized n.toNat (s.1.call call).1.chunks) :
    Law whole s call ↔ (s.2.failed = true → ∀ body, (s.1.call call).1.delivered = some body → body = whole) := by
  rw [law_iff hEnds hSized, and_iff_right]
  intro body hBody
  rw [hNone] at hBody
  cases hBody

theorem Law.of_whole (hOutcome : (s.1.call call).1.delivered = some whole)
    (hSame : s.2.returned = none ∨ s.2.returned = some whole)
    (hSized : ∀ n : Int, call.chunkSize = some n → 0 < n → Sized n.toNat (s.1.call call).1.chunks) : Law whole s call := by
  refine ⟨?_, ?_, ?_, hSized⟩
  · intro hEndless
    rw [hEndless] at hOutcome
    cases hOutcome
  · intro body hBody _
    rcases hSame with hNone | hSome
    · rw [hNone] at hBody
      cases hBody
    · rw [hSome] at hBody
      cases hBody
      exact hOutcome
  · intro _ body hBody
    rw [hOutcome] at hBody
    cases hBody
    rfl

/-- What an iteration of a stream delivers is complete where the stream is kept. -/
theorem complete_iff {h : History} {t : Stream} :
    (h.failed = true → ∀ body, (if afterError t.current = none then some (chunksOf t.current).flatten else none) = some body →
      body = whole) ↔
      Kept whole h t := by
  refine forall_congr' fun _ => ?_
  split
  · next hEnd =>
    rw [chunksOf_flatten hEnd]
    exact ⟨fun hAll _ => hAll _ rfl, fun hBytes body hBody => by cases hBody; exact hBytes hEnd⟩
  · next hError => exact iff_of_true (fun body hBody => by cases hBody) fun hEnd => absurd hEnd hError

end
end Eggfetch.Facade.Bodies
