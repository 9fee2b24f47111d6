import Eggfetch.Multipart.Build
import Mathlib.Data.List.Infix

/-! The encoding of `multipart.rs`, into one buffer or by the streaming encoder. -/
namespace Eggfetch.Multipart
open Text

variable {S : Type}

def quoteStringEscape (value : String) : String :=
  String.ofList (value.toList.flatMap fun ch => if ch = '\\' ∨ ch = '"' then ['\\', ch] else [ch])

def formatPartHeader (boundary : Str) (part : Part S) : Str :=
  utf8 "--" ++ boundary ++ utf8 "\r\nContent-Disposition: form-data; name=\"" ++
  utf8 (quoteStringEscape part.name) ++ utf8 "\"" ++
  (match part.filename with
    | some filename => utf8 "; filename=\"" ++ utf8 (quoteStringEscape filename) ++ utf8 "\""
    | none => []) ++
  utf8 "\r\n" ++
  (match part.contentType with
    | some ct => utf8 "Content-Type: " ++ ct.bytes ++ utf8 "\r\n"
    | none => []) ++
  (part.headers.flatMap fun (name, value) => name.bytes ++ utf8 ": " ++ value.bytes ++ utf8 "\r\n") ++
  utf8 "\r\n"

def finalBoundary (boundary : Str) : Str := utf8 "--" ++ boundary ++ utf8 "--\r\n"

variable (mp : Multipart S)

def bodyBytes : PartBody S → Str
  | .bytes data => data
  | .stream _ _ => []

def isReplayable : Bool := mp.parts.all (!·.body.isStream)

/-- A window of the bytes, wherever it begins, is the boundary. -/
def collides (boundary : Str) : PartBody S → Bool
  | .bytes data => data.tails.any boundary.isPrefixOf
  | .stream _ _ => false

/-- The loop of `ensure_no_boundary_collision`, with the random boundaries that are still to be
drawn. -/
def ensureLoop : Nat → (Nat → Vector UInt8 50) → Multipart S → Option (Multipart S)
  | 0, _, _ => none
  | attempts + 1, draws, mp =>
    if mp.parts.any (collides mp.boundary.bytes ·.body) then
      ensureLoop attempts (fun n => draws (n + 1)) { mp with boundary := .random (draws 0) }
    else some mp

/-- The multipart body with the boundary that it is encoded with. -/
def ensureNoBoundaryCollision (draws : Nat → Vector UInt8 50) : Option (Multipart S) := ensureLoop 10 draws mp

def encodeParts (boundary : Str) (parts : List (Part S)) : Str :=
  (parts.flatMap fun part => formatPartHeader boundary part ++ bodyBytes part.body ++ utf8 "\r\n") ++
  finalBoundary boundary

/-- The buffer of `into_body`. -/
def buffered : Str := encodeParts mp.boundary.bytes mp.parts

/-- Sums of lengths that a `u64` holds. -/
def checkedAdd (a b : Nat) : Option Nat := if a + b < 2 ^ 64 then some (a + b) else none

def contentLength : Option Nat := do
  let total ← mp.parts.foldlM (fun total part => do
    let total ← checkedAdd total (formatPartHeader mp.boundary.bytes part).length
    let total ← checkedAdd total (← part.body.len)
    checkedAdd total 2) 0
  checkedAdd total (mp.boundary.bytes.length + 6)

inductive Stage where
  | partHeader
  | partBody
  | trailingCrlf
  | finalBoundary
  | done
  deriving DecidableEq, Repr

structure MultipartEncoder (S : Type) where
  boundary : Str
  parts : List (Part S)
  header : Str
  headerPos : Nat
  body : Option (PartBody S)
  state : Stage
  partIdx : Nat
  error : Option Error
  deriving DecidableEq

/-- What a poll of a stream returns. -/
inductive Polled where
  | ready (item : Option (Except Error Str))
  | pending
  deriving Repr

namespace MultipartEncoder

def new (mp : Multipart S) : MultipartEncoder S where
  boundary := mp.boundary.bytes
  parts := mp.parts
  header := mp.parts.head?.elim [] (formatPartHeader mp.boundary.bytes)
  headerPos := 0
  body := none
  state := if mp.parts.isEmpty then .finalBoundary else .partHeader
  partIdx := 0
  error := none

def ofError (error : Error) : MultipartEncoder S where
  boundary := []
  parts := []
  header := []
  headerPos := 0
  body := none
  state := .done
  partIdx := 0
  error := some error

variable (pollStream : S → Polled × S) (e : MultipartEncoder S)

def pollTrailingCrlf : Polled × MultipartEncoder S :=
  (.ready (some (.ok (utf8 "\r\n"))),
    match e.parts[e.partIdx + 1]? with
    | some part =>
      { e with
        body := none
        partIdx := e.partIdx + 1
        header := formatPartHeader e.boundary part
        headerPos := 0
        state := .partHeader }
    | none => { e with body := none, state := .finalBoundary })

def pollPartBody : Polled × MultipartEncoder S :=
  match e.body with
  | some (.bytes data) =>
    if data.isEmpty then { e with body := none, state := .trailingCrlf }.pollTrailingCrlf
    else (.ready (some (.ok data)), { e with body := none, state := .trailingCrlf })
  | some (.stream stream length) =>
    match pollStream stream with
    | (.ready (some (.ok chunk)), stream) =>
      (.ready (some (.ok chunk)), { e with body := some (.stream stream length) })
    | (.ready (some (.error error)), _) => (.ready (some (.error error)), { e with body := none, state := .done })
    | (.ready none, _) => { e with body := none, state := .trailingCrlf }.pollTrailingCrlf
    | (.pending, stream) => (.pending, { e with body := some (.stream stream length) })
  | none => { e with state := .trailingCrlf }.pollTrailingCrlf

def takeBody : MultipartEncoder S :=
  { e with
    body := e.parts[e.partIdx]?.map Part.body
    parts := e.parts.modify e.partIdx fun part => { part with body := .bytes [] }
    state := .partBody }

def pollPartHeader : Polled × MultipartEncoder S :=
  if e.headerPos < e.header.length then
    (.ready (some (.ok (e.header.drop e.headerPos))), { e with headerPos := e.header.length })
  else e.takeBody.pollPartBody pollStream

/-- `poll_next`; its loop goes on to a later stage at most. -/
def pollNext : Polled × MultipartEncoder S :=
  match e.error with
  | some error => (.ready (some (.error error)), { e with error := none })
  | none =>
    match e.state with
    | .partHeader => e.pollPartHeader pollStream
    | .partBody => e.pollPartBody pollStream
    | .trailingCrlf => e.pollTrailingCrlf
    | .finalBoundary => (.ready (some (.ok (finalBoundary e.boundary))), { e with state := .done })
    | .done => (.ready none, e)

def collect : Nat → MultipartEncoder S → Option (Except Error Str)
  | 0, _ => none
  | fuel + 1, e =>
    match e.pollNext pollStream with
    | (.ready (some (.ok chunk)), e) => (collect fuel e).map fun rest => rest.map (chunk ++ ·)
    | (.ready (some (.error error)), _) => some (.error error)
    | (.ready none, _) => some (.ok [])
    | (.pending, e) => collect fuel e

end MultipartEncoder

inductive RequestBody (S : Type) where
  | bytes (data : Str)
  | stream (encoder : MultipartEncoder S) (length : Option Nat)

def encoder (draws : Nat → Vector UInt8 50) : MultipartEncoder S :=
  match mp.ensureNoBoundaryCollision draws with
  | none => .ofError (.requestBuild "failed to generate a collision-free multipart boundary")
  | some mp => .new mp

def intoBody (draws : Nat → Vector UInt8 50) : RequestBody S :=
  match mp.ensureNoBoundaryCollision draws with
  | none => .stream (.ofError (.requestBuild "failed to generate a collision-free multipart boundary")) none
  | some mp => if mp.isReplayable then .bytes mp.buffered else .stream (.new mp) mp.contentLength

theorem formatPartHeader_ne_nil (boundary : Str) (part : Part S) : formatPartHeader boundary part ≠ [] := by
  have hHead : utf8 "--" ≠ [] := by decide
  simp [formatPartHeader, hHead]

theorem encodeParts_cons (boundary : Str) (part : Part S) (parts : List (Part S)) :
    encodeParts boundary (part :: parts) =
      formatPartHeader boundary part ++ (bodyBytes part.body ++ (utf8 "\r\n" ++ encodeParts boundary parts)) := by
  simp [encodeParts]

theorem exists_bytes {body : PartBody S} (h : body.isStream = false) : ∃ data, body = .bytes data := by
  cases body with
  | bytes data => exact ⟨data, rfl⟩
  | stream => cases h

namespace MultipartEncoder
variable {pollStream : S → Polled × S} {e e' : MultipartEncoder S} {text : Str}
  {front rest : List (Part S)} {part : Part S}

/-- The encoder writes `text` before it ends. -/
def Writes (pollStream : S → Polled × S) (e : MultipartEncoder S) (text : Str) : Prop :=
  ∃ polls, e.collect pollStream polls = some (.ok text)

theorem Writes.cons {chunk : Str} (hPoll : e.pollNext pollStream = (.ready (some (.ok chunk)), e'))
    (h : e'.Writes pollStream text) : e.Writes pollStream (chunk ++ text) := by
  obtain ⟨polls, h⟩ := h
  refine ⟨polls + 1, ?_⟩
  rw [collect, hPoll]
  dsimp only
  rw [h]
  rfl

theorem writes_done (hError : e.error = none) (hState : e.state = .done) : e.Writes pollStream [] := by
  refine ⟨1, ?_⟩
  simp only [collect, pollNext, hError, hState]

theorem writes_finalBoundary (hError : e.error = none) (hState : e.state = .finalBoundary) :
    e.Writes pollStream (encodeParts (S := S) e.boundary []) := by
  have hPoll : e.pollNext pollStream =
      (.ready (some (.ok (Multipart.finalBoundary e.boundary))), { e with state := .done }) := by
    simp only [pollNext, hError, hState]
  have hWrites := Writes.cons hPoll (writes_done (e := { e with state := .done }) hError rfl)
  rwa [List.append_nil] at hWrites

/-- The encoder is about to write `part`, which comes after `front`. -/
structure AtPart (e : MultipartEncoder S) (front : List (Part S)) (part : Part S) (rest : List (Part S)) : Prop where
  parts : e.parts = front ++ part :: rest
  partIdx : e.partIdx = front.length
  state : e.state = .partHeader
  header : e.header = formatPartHeader e.boundary part
  headerPos : e.headerPos = 0
  error : e.error = none

private theorem pollTrailingCrlf_writes (hError : e.error = none) (hParts : e.parts = front ++ part :: rest)
    (hIdx : e.partIdx = front.length)
    (hNext : ∀ e' next rest', rest = next :: rest' → AtPart e' (front ++ [part]) next rest' →
      e'.Writes pollStream (encodeParts e'.boundary rest)) :
    ∃ e', e.pollTrailingCrlf = (.ready (some (.ok (utf8 "\r\n"))), e') ∧
      e'.Writes pollStream (encodeParts e.boundary rest) := by
  cases rest with
  | nil =>
    have hGet : e.parts[e.partIdx + 1]? = none := by simp [hParts, hIdx]
    refine ⟨{ e with body := none, state := .finalBoundary }, ?_, writes_finalBoundary hError rfl⟩
    rw [pollTrailingCrlf, hGet]
  | cons next rest =>
    have hGet : e.parts[e.partIdx + 1]? = some next := by
      rw [hParts, hIdx, List.getElem?_append_right (Nat.le_succ _), Nat.succ_sub (Nat.le_refl _), Nat.sub_self]
      rfl
    have hSplit : e.parts = (front ++ [part]) ++ next :: rest := by simp [hParts]
    have hPoll : e.pollTrailingCrlf =
        (.ready (some (.ok (utf8 "\r\n"))),
          { e with
            body := none
            partIdx := e.partIdx + 1
            header := formatPartHeader e.boundary next
            headerPos := 0
            state := .partHeader }) := by
      rw [pollTrailingCrlf, hGet]
    refine ⟨_, hPoll, hNext _ next rest rfl ⟨hSplit, ?_, rfl, rfl, rfl, hError⟩⟩
    simp [hIdx]

private theorem AtPart.writes_cons (h : AtPart e front part rest) {data : Str} (hBody : part.body = .bytes data)
    (hNext : ∀ e' front next rest', rest = next :: rest' → AtPart e' front next rest' →
      e'.Writes pollStream (encodeParts e'.boundary rest)) :
    e.Writes pollStream (encodeParts e.boundary (part :: rest)) := by
  rw [encodeParts_cons, hBody]
  have hHeader : e.pollNext pollStream =
      (.ready (some (.ok (formatPartHeader e.boundary part))), { e with headerPos := e.header.length }) := by
    have hPos : e.headerPos < e.header.length := by
      rw [h.headerPos, h.header]
      exact List.length_pos_of_ne_nil (formatPartHeader_ne_nil _ _)
    simp only [pollNext, h.error, h.state, pollPartHeader, if_pos hPos]
    rw [h.headerPos, List.drop_zero, h.header]
  refine Writes.cons hHeader ?_
  -- the body is taken out of its part, and is followed by the line end
  let e₁ : MultipartEncoder S := { e with headerPos := e.header.length }
  let e₂ : MultipartEncoder S := { e₁.takeBody with body := none, state := .trailingCrlf }
  have hGet : e.parts[e.partIdx]? = some part := by
    rw [h.parts, h.partIdx, List.getElem?_append_right (Nat.le_refl _), Nat.sub_self]
    rfl
  have hPartBody : e₁.pollNext pollStream = e₁.takeBody.pollPartBody pollStream := by
    simp only [e₁, pollNext, h.error, h.state, pollPartHeader, if_neg (Nat.lt_irrefl _)]
  have hTaken : e₁.takeBody.body = some (.bytes data) := by
    simp only [e₁, takeBody, hGet, Option.map_some, hBody]
  have hParts : e₂.parts = front ++ { part with body := .bytes [] } :: rest := by
    simp only [e₂, e₁, takeBody, h.parts, h.partIdx]
    exact List.modifyTailIdx_add _ 0 front (part :: rest)
  obtain ⟨e₃, hTrailing, hWrites⟩ := pollTrailingCrlf_writes (e := e₂) h.error hParts h.partIdx
    fun e' next rest' hRest hAt => hNext e' _ next rest' hRest hAt
  by_cases hEmpty : data = []
  · have hPoll : e₁.pollNext pollStream = (.ready (some (.ok (utf8 "\r\n"))), e₃) := by
      rw [hPartBody, pollPartBody, hTaken]
      simp only [hEmpty, List.isEmpty_nil, if_true]
      exact hTrailing
    rw [hEmpty, bodyBytes, List.nil_append]
    exact Writes.cons hPoll hWrites
  · have hPoll : e₁.pollNext pollStream = (.ready (some (.ok data)), e₂) := by
      rw [hPartBody, pollPartBody, hTaken]
      simp only [List.isEmpty_iff, if_neg hEmpty]
      rfl
    have hEnd : e₂.pollNext pollStream = (.ready (some (.ok (utf8 "\r\n"))), e₃) := by
      rw [← hTrailing]
      simp only [e₂, e₁, pollNext, takeBody, h.error]
    exact Writes.cons hPoll (Writes.cons hEnd hWrites)

theorem AtPart.writes (h : AtPart e front part rest) (hBytes : ∀ p ∈ part :: rest, p.body.isStream = false) :
    e.Writes pollStream (encodeParts e.boundary (part :: rest)) := by
  obtain ⟨hPart, hRest⟩ := List.forall_mem_cons.mp hBytes
  obtain ⟨data, hBody⟩ := exists_bytes hPart
  induction rest generalizing e front part data with
  | nil =>
    refine h.writes_cons hBody ?_
    intro _ _ _ _ hNil
    cases hNil
  | cons next rest ih =>
    refine h.writes_cons hBody fun e' front next' rest' hEq hAt => ?_
    obtain ⟨rfl, rfl⟩ := List.cons.inj hEq
    obtain ⟨hNext, hRest⟩ := List.forall_mem_cons.mp hRest
    obtain ⟨data', hBody'⟩ := exists_bytes hNext
    have hStream : ∀ p ∈ next :: rest, p.body.isStream = false := List.forall_mem_cons.mpr ⟨hNext, hRest⟩
    exact ih hAt hStream hNext hRest data' hBody'

theorem new_writes (hBytes : mp.isReplayable) : (new mp).Writes pollStream mp.buffered := by
  have hStream : ∀ p ∈ mp.parts, p.body.isStream = false := by simpa [isReplayable] using hBytes
  cases hParts : mp.parts with
  | nil =>
    rw [buffered, hParts]
    exact writes_finalBoundary (e := new mp) rfl (by simp [new, hParts])
  | cons part rest =>
    rw [hParts] at hStream
    have hAt : AtPart (new mp) [] part rest := by
      refine ⟨hParts, rfl, ?_, ?_, rfl, rfl⟩
      · simp [new, hParts]
      · simp [new, hParts]
    rw [buffered, hParts]
    exact hAt.writes hStream

end MultipartEncoder
end Eggfetch.Multipart
