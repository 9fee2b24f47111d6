import Eggfetch.Multipart.RoundTrip

/-! The boundary that a caller reads before it encodes a multipart body, and the Content-Type that it writes
with it. -/
namespace Eggfetch.Multipart
open Text Http FormData

variable {S : Type}

def multipartType (boundary : Boundary) : Str := utf8 "multipart/form-data; boundary=" ++ boundary.bytes

/-- A request with a multipart body, and the parts that the body was made of. -/
structure Upload (S : Type) where
  contentType : Option Str
  parts : List (Part S)
  body : RequestBody S

/-- What a pair of `data` or `files` is converted to. -/
inductive Item (S : Type) where
  | text (name value : String)
  | bytes (name filename contentType : String) (data : Str)
  | part (part : Part S)

def Item.add (multipart : Multipart S) : Item S → Except Error (Multipart S)
  | .text name value => multipart.text name value
  | .bytes name filename contentType data => multipart.bytes name filename contentType data
  | .part p => multipart.part p

def buildMultipartBody (fresh : Vector UInt8 50) (items : List (Item S)) (draws : Nat → Vector UInt8 50) :
    Except Error (Upload S) := do
  let multipart := withBoundary (.random fresh)
  let boundary := multipart.boundary
  let multipart ← items.foldlM Item.add multipart
  return ⟨some (multipartType boundary), multipart.parts, multipart.intoBody draws⟩

/-- A `--file` argument with the bytes that were read. -/
structure FileArgument where
  name : String
  filename : String
  mime : String
  data : Str

/-- The `--file` branches of the command line; `--form` fields come first. -/
def fileUpload (headers : Headers) (fresh : Vector UInt8 50) (form : List (String × String)) (files : List FileArgument)
    (draws : Nat → Vector UInt8 50) : Except Error (Upload S) := do
  let multipart := withBoundary (.random fresh)
  let multipart ← form.foldlM (fun multipart field => multipart.text field.1 field.2) multipart
  let multipart ← files.foldlM (fun multipart file => multipart.bytes file.name file.filename file.mime file.data) multipart
  return ⟨headers.get (utf8 "content-type"), multipart.parts, multipart.intoBody draws⟩

/-- Those that read `boundary()` and encode with `into_body` or `encoder`, and the two front ends. -/
inductive Caller (S : Type) where
  | intoBody (multipart : Multipart S)
  | encoder (multipart : Multipart S)
  | python (fresh : Vector UInt8 50) (items : List (Item S))
  | commandLine (headers : Headers) (fresh : Vector UInt8 50) (form : List (String × String)) (files : List FileArgument)

def Caller.upload (draws : Nat → Vector UInt8 50) : Caller S → Except Error (Upload S)
  | intoBody multipart => .ok ⟨some (multipartType multipart.boundary), multipart.parts, multipart.intoBody draws⟩
  | encoder multipart =>
    .ok ⟨some (multipartType multipart.boundary), multipart.parts, .stream (multipart.encoder draws) none⟩
  | python fresh items => buildMultipartBody fresh items draws
  | commandLine headers fresh form files => fileUpload headers fresh form files draws

def Occurs (boundary : Boundary) (parts : List (Part S)) : Prop := ∃ p ∈ parts, boundary.bytes <:+: bodyBytes p.body

namespace RequestBody

def Fails : RequestBody S → Prop
  | bytes _ => False
  | stream encoder _ => encoder.error ≠ none

def DelimitedBy (boundary : Boundary) (parts : List (Part S)) : RequestBody S → Prop
  | bytes data => data = encodeParts boundary.bytes parts
  | stream encoder _ => encoder = .new ⟨boundary, parts⟩

end RequestBody

/-- Unless the encoding fails, the Content-Type names the delimiter of the body, which no part contains. -/
def Upload.Agrees (u : Upload S) : Prop :=
  u.body.Fails ∨
    ∃ boundary, u.contentType = some (multipartType boundary) ∧ u.body.DelimitedBy boundary u.parts ∧
      ¬ Occurs boundary u.parts

def Caller.Agrees (draws : Nat → Vector UInt8 50) (caller : Caller S) : Prop :=
  ∀ u, caller.upload draws = .ok u → u.Agrees

def candidates (redraws : Nat) (draws : Nat → Vector UInt8 50) (boundary : Boundary) : List Boundary :=
  boundary :: (List.range redraws).map fun n => .random (draws n)

def Exhausted (draws : Nat → Vector UInt8 50) (mp : Multipart S) : Prop :=
  ∀ boundary ∈ candidates 9 draws mp.boundary, Occurs boundary mp.parts

def FirstFree (draws : Nat → Vector UInt8 50) (mp : Multipart S) (boundary : Boundary) : Prop :=
  ¬ Occurs boundary mp.parts ∧
    ∃ tried rest, candidates 9 draws mp.boundary = tried ++ boundary :: rest ∧ ∀ b ∈ tried, Occurs b mp.parts

def Kept (draws : Nat → Vector UInt8 50) (mp : Multipart S) : Prop :=
  Exhausted draws mp ∨ ¬ Occurs mp.boundary mp.parts

/-- Where a caller's header and body agree. On the command line nothing but a given header names a
boundary. -/
def Caller.Fits (draws : Nat → Vector UInt8 50) : Caller S → Prop
  | intoBody multipart => Kept draws multipart
  | encoder multipart => Kept draws multipart
  | python fresh items =>
    ∀ multipart, items.foldlM Item.add (withBoundary (.random fresh)) = .ok multipart → Kept draws multipart
  | commandLine headers fresh form files =>
    ∀ fields multipart,
      form.foldlM (fun multipart field => multipart.text field.1 field.2) (withBoundary (S := S) (.random fresh)) = .ok fields →
      files.foldlM (fun multipart file => multipart.bytes file.name file.filename file.mime file.data) fields = .ok multipart →
      Exhausted draws multipart ∨
        ∃ boundary, FirstFree draws multipart boundary ∧ headers.get (utf8 "content-type") = some (multipartType boundary)

section
variable {boundary boundary' : Boundary} {parts : List (Part S)} {mp : Multipart S} {draws : Nat → Vector UInt8 50}

theorem collides_iff (boundary : Boundary) (body : PartBody S) :
    collides boundary.bytes body = true ↔ boundary.bytes <:+: bodyBytes body := by
  cases body with
  | bytes data =>
    rw [collides, bodyBytes, List.any_eq_true, List.infix_iff_prefix_suffix]
    constructor
    · rintro ⟨tail, hTail, hPrefix⟩
      exact ⟨tail, List.isPrefixOf_iff_prefix.mp hPrefix, (List.mem_tails _ _).mp hTail⟩
    · rintro ⟨tail, hPrefix, hTail⟩
      exact ⟨tail, (List.mem_tails _ _).mpr hTail, List.isPrefixOf_iff_prefix.mpr hPrefix⟩
  | stream stream length =>
    refine ⟨fun h => (by cases h), fun h => ?_⟩
    exact absurd (List.infix_nil.mp h) boundary.nonempty

theorem any_collides_iff : parts.any (collides boundary.bytes ·.body) = true ↔ Occurs boundary parts := by
  rw [List.any_eq_true, Occurs]
  exact exists_congr fun p => and_congr_right fun _ => collides_iff boundary p.body

theorem candidates_succ (redraws : Nat) (draws : Nat → Vector UInt8 50) (boundary : Boundary) :
    candidates (redraws + 1) draws boundary =
      boundary :: candidates redraws (fun n => draws (n + 1)) (.random (draws 0)) := by
  rw [candidates, candidates, List.range_succ_eq_map, List.map_cons, List.map_map]
  rfl

/-- The loop settles on the first boundary that no part contains. -/
theorem ensureLoop_eq (redraws : Nat) (draws : Nat → Vector UInt8 50) (mp : Multipart S) :
    ensureLoop (redraws + 1) draws mp =
      ((candidates redraws draws mp.boundary).find? fun b => !mp.parts.any (collides b.bytes ·.body)).map fun b =>
      ⟨b, mp.parts⟩ := by
  induction redraws generalizing draws mp with
  | zero =>
    rw [ensureLoop, candidates, List.range_zero, List.map_nil, List.find?_singleton]
    cases mp.parts.any (collides mp.boundary.bytes ·.body) <;> rfl
  | succ redraws ih =>
    rw [ensureLoop, candidates_succ, List.find?_cons]
    cases mp.parts.any (collides mp.boundary.bytes ·.body) with
    | true =>
      rw [if_pos rfl, ih]
      rfl
    | false => rfl

theorem ensure_none (h : Exhausted draws mp) : mp.ensureNoBoundaryCollision draws = none := by
  rw [ensureNoBoundaryCollision, ensureLoop_eq, Option.map_eq_none_iff, List.find?_eq_none]
  intro b hb
  rw [any_collides_iff.mpr (h b hb)]
  exact Bool.false_ne_true

theorem ensure_some (h : FirstFree draws mp boundary) :
    mp.ensureNoBoundaryCollision draws = some ⟨boundary, mp.parts⟩ := by
  obtain ⟨hFree, tried, rest, hSplit, hTried⟩ := h
  rw [ensureNoBoundaryCollision, ensureLoop_eq, Option.map_eq_some_iff]
  refine ⟨boundary, List.find?_eq_some_iff_append.mpr ⟨?_, tried, rest, hSplit, ?_⟩, rfl⟩
  · rw [Bool.not_eq_true', ← Bool.not_eq_true, any_collides_iff]
    exact hFree
  · intro b hb
    rw [any_collides_iff.mpr (hTried b hb)]
    rfl

theorem exhausted_or_firstFree (draws : Nat → Vector UInt8 50) (mp : Multipart S) :
    Exhausted draws mp ∨ ∃ boundary, FirstFree draws mp boundary := by
  cases hFind : (candidates 9 draws mp.boundary).find? fun b => !mp.parts.any (collides b.bytes ·.body) with
  | none =>
    left
    intro b hb
    have hNot := List.find?_eq_none.mp hFind b hb
    rwa [Bool.not_eq_true, Bool.not_eq_false', any_collides_iff] at hNot
  | some boundary =>
    obtain ⟨hFree, tried, rest, hSplit, hTried⟩ := List.find?_eq_some_iff_append.mp hFind
    rw [Bool.not_eq_true', ← Bool.not_eq_true, any_collides_iff] at hFree
    refine .inr ⟨boundary, hFree, tried, rest, hSplit, fun b hb => ?_⟩
    have hNot := hTried b hb
    rwa [Bool.not_not, any_collides_iff] at hNot

theorem multipartType_inj (h : multipartType boundary = multipartType boundary') : boundary = boundary' := by
  have hBytes : boundary.bytes = boundary'.bytes := List.append_cancel_left h
  cases boundary
  cases boundary'
  cases hBytes
  rfl

private theorem takeWhile_encodeParts (boundary : Boundary) (parts : List (Part S)) :
    (encodeParts boundary.bytes parts).takeWhile (· != cr) =
      utf8 "--" ++ boundary.bytes ++ if parts.isEmpty then utf8 "--" else [] := by
  have hNot : ∀ b ∈ utf8 "--" ++ boundary.bytes, (b != cr) = true := by
    intro b hb
    rw [bne_iff_ne]
    rintro rfl
    exact cr_notMem_delimiter (boundary.notMem (by decide)) hb
  have hLineEnd : utf8 "\r\n" = [cr, lf] := by decide
  cases parts with
  | nil =>
    have hBody : encodeParts (S := S) boundary.bytes [] = (utf8 "--" ++ boundary.bytes) ++ utf8 "--\r\n" := rfl
    rw [hBody, List.takeWhile_append_of_pos hNot]
    rfl
  | cons p parts =>
    obtain ⟨tail, hBody⟩ : ∃ tail, encodeParts boundary.bytes (p :: parts) =
        (utf8 "--" ++ boundary.bytes) ++ cr :: tail := by
      have hStart : utf8 "\r\nContent-Disposition: form-data; name=\"" =
          cr :: lf :: utf8 "Content-Disposition: form-data; name=\"" := by decide
      rw [encodeParts_cons, formatPartHeader, hStart]
      simp only [List.append_assoc, List.cons_append]
      exact ⟨_, rfl⟩
    rw [hBody, List.takeWhile_append_of_pos hNot, List.takeWhile_cons_of_neg (by decide)]
    rfl

theorem encodeParts_inj (h : encodeParts boundary.bytes parts = encodeParts boundary'.bytes parts) : boundary = boundary' := by
  have hLine := congrArg (List.takeWhile (· != cr)) h
  rw [takeWhile_encodeParts, takeWhile_encodeParts, List.append_assoc, List.append_assoc] at hLine
  have hBytes := List.append_cancel_right (List.append_cancel_left hLine)
  cases boundary
  cases boundary'
  cases hBytes
  rfl

private theorem delimiter_unique {body : RequestBody S} (h : body.DelimitedBy boundary parts)
    (h' : body.DelimitedBy boundary' parts) :
    boundary = boundary' := by
  cases body with
  | bytes data => exact encodeParts_inj (h.symm.trans h')
  | stream encoder length =>
    have hBytes : boundary.bytes = boundary'.bytes := congrArg MultipartEncoder.boundary (h.symm.trans h')
    cases boundary
    cases boundary'
    cases hBytes
    rfl

/-- What an encoding makes of a multipart body that has a free boundary, and of one that has none. -/
structure EncodesTo (draws : Nat → Vector UInt8 50) (mp : Multipart S) (body : RequestBody S) : Prop where
  failed : Exhausted draws mp → body.Fails
  delimited : ∀ boundary, FirstFree draws mp boundary → body.DelimitedBy boundary mp.parts ∧ ¬ body.Fails

theorem intoBody_encodes (draws : Nat → Vector UInt8 50) (mp : Multipart S) : EncodesTo draws mp (mp.intoBody draws) := by
  constructor
  · intro h
    rw [intoBody, ensure_none h]
    exact Option.some_ne_none _
  · intro boundary h
    rw [intoBody, ensure_some h]
    dsimp only
    split
    · exact ⟨rfl, id⟩
    · exact ⟨rfl, fun hFails => hFails rfl⟩

theorem encoder_encodes (draws : Nat → Vector UInt8 50) (mp : Multipart S) (length : Option Nat) :
    EncodesTo draws mp (.stream (mp.encoder draws) length) := by
  constructor
  · intro h
    rw [encoder, ensure_none h]
    exact Option.some_ne_none _
  · intro boundary h
    rw [encoder, ensure_some h]
    exact ⟨rfl, fun hFails => hFails rfl⟩

private theorem agrees_iff {contentType : Option Str} {body : RequestBody S} (h : EncodesTo draws mp body) :
    Upload.Agrees ⟨contentType, mp.parts, body⟩ ↔
      Exhausted draws mp ∨ ∃ boundary, FirstFree draws mp boundary ∧ contentType = some (multipartType boundary) := by
  constructor
  · intro hAgrees
    rcases exhausted_or_firstFree draws mp with hExhausted | ⟨boundary, hFirst⟩
    · exact .inl hExhausted
    · obtain ⟨hDelimited, hWorks⟩ := h.delimited boundary hFirst
      rcases hAgrees with hFails | ⟨named, hType, hNamed, -⟩
      · exact absurd hFails hWorks
      · obtain rfl := delimiter_unique hNamed hDelimited
        exact .inr ⟨named, hFirst, hType⟩
  · rintro (hExhausted | ⟨boundary, hFirst, hType⟩)
    · exact .inl (h.failed hExhausted)
    · exact .inr ⟨boundary, hType, (h.delimited boundary hFirst).1, hFirst.1⟩

private theorem published_iff : (Exhausted draws mp ∨ ∃ boundary, FirstFree draws mp boundary ∧
    some (multipartType mp.boundary) = some (multipartType boundary)) ↔ Kept draws mp := by
  refine or_congr_right ⟨?_, fun hFree => ?_⟩
  · rintro ⟨boundary, hFirst, hType⟩
    obtain rfl := multipartType_inj (Option.some.inj hType)
    exact hFirst.1
  · exact ⟨mp.boundary, ⟨hFree, [], _, rfl, fun _ hb => absurd hb List.not_mem_nil⟩, rfl⟩

end

theorem add_boundary {mp mp' : Multipart S} {item : Item S} (h : Item.add mp item = .ok mp') : mp'.boundary = mp.boundary := by
  cases item with
  | text name value =>
    obtain ⟨_, -, h⟩ := bind_eq_ok.mp h
    rw [← Except.ok.inj h]
  | bytes name filename contentType data =>
    obtain ⟨_, -, h⟩ := bind_eq_ok.mp h
    obtain ⟨_, -, h⟩ := bind_eq_ok.mp h
    cases hType : HeaderValue.fromStr contentType with
    | none =>
      rw [hType] at h
      cases h
    | some ct =>
      rw [hType] at h
      rw [← Except.ok.inj h]
  | part part =>
    obtain ⟨_, -, h⟩ := bind_eq_ok.mp h
    rw [← Except.ok.inj h]

theorem addAll_boundary (items : List (Item S)) {mp mp' : Multipart S} (h : items.foldlM Item.add mp = .ok mp') :
    mp'.boundary = mp.boundary := by
  induction items generalizing mp with
  | nil => exact congrArg Multipart.boundary (Except.ok.inj h).symm
  | cons item items ih =>
    rw [List.foldlM_cons] at h
    obtain ⟨mp₁, hItem, hRest⟩ := bind_eq_ok.mp h
    exact (ih hRest).trans (add_boundary hItem)

/-- Header and body agree for a caller exactly where the boundary that it names is the first free one. -/
theorem caller_agrees_iff (draws : Nat → Vector UInt8 50) (caller : Caller S) : caller.Agrees draws ↔ caller.Fits draws := by
  cases caller with
  | intoBody multipart =>
    rw [Caller.Fits, ← published_iff, ← agrees_iff (intoBody_encodes draws multipart)]
    exact ⟨fun h => h _ rfl, fun h u hu => Except.ok.inj hu ▸ h⟩
  | encoder multipart =>
    rw [Caller.Fits, ← published_iff, ← agrees_iff (encoder_encodes draws multipart none)]
    exact ⟨fun h => h _ rfl, fun h u hu => Except.ok.inj hu ▸ h⟩
  | python fresh items =>
    constructor
    · intro h multipart hItems
      have hBoundary : Boundary.random fresh = multipart.boundary := (addAll_boundary items hItems).symm
      have hAgrees := h ⟨some (multipartType (.random fresh)), multipart.parts, multipart.intoBody draws⟩
        (bind_eq_ok.mpr ⟨multipart, hItems, rfl⟩)
      rwa [hBoundary, agrees_iff (intoBody_encodes draws multipart), published_iff] at hAgrees
    · intro h u hu
      obtain ⟨multipart, hItems, hu⟩ := bind_eq_ok.mp hu
      obtain rfl := Except.ok.inj hu
      have hBoundary : (withBoundary (S := S) (.random fresh)).boundary = multipart.boundary :=
        (addAll_boundary items hItems).symm
      rw [hBoundary, agrees_iff (intoBody_encodes draws multipart), published_iff]
      exact h multipart hItems
  | commandLine headers fresh form files =>
    constructor
    · intro h fields multipart hForm hFiles
      have hAgrees := h ⟨headers.get (utf8 "content-type"), multipart.parts, multipart.intoBody draws⟩
        (bind_eq_ok.mpr ⟨fields, hForm, bind_eq_ok.mpr ⟨multipart, hFiles, rfl⟩⟩)
      exact (agrees_iff (intoBody_encodes draws multipart)).mp hAgrees
    · intro h u hu
      obtain ⟨fields, hForm, hu⟩ := bind_eq_ok.mp hu
      obtain ⟨multipart, hFiles, hu⟩ := bind_eq_ok.mp hu
      obtain rfl := Except.ok.inj hu
      exact (agrees_iff (intoBody_encodes draws multipart)).mpr (h fields multipart hForm hFiles)

/-- The pinned boundary `b` over a text field with the value `b`. -/
private def pinned : Multipart Unit := ⟨boundaryB, [Part.new "a" (.bytes (utf8 "b"))]⟩

/-- The body is delimited by a boundary that the Content-Type does not name. -/
theorem not_caller_agrees : ¬ ∀ draws (caller : Caller Unit), caller.Agrees draws := by
  intro hall
  have hAgrees := hall (fun _ => Vector.replicate 50 0) (.intoBody pinned) _ rfl
  rcases hAgrees with hFails | ⟨boundary, hType, hDelimited, hFree⟩
  · exact hFails
  · obtain rfl := multipartType_inj (Option.some.inj hType)
    exact hFree ⟨_, List.mem_cons_self, List.infix_refl _⟩

end Eggfetch.Multipart
