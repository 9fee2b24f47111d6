import Eggfetch.Compression.Paths
import Eggfetch.Http.Headers

/-! The decoding step of `finalize_response` with the headers it reads, and a `Content-Encoding` that is spread
over several lines. -/
namespace Eggfetch.Compression
open Text Http Polling

def contentEncodingName : Str := utf8 "content-encoding"

def contentLengthName : Str := utf8 "content-length"

structure Response where
  headers : Headers
  body : ResponseBody

/-- What `get` and `to_str` give of the header. -/
def contentEncodingOf (headers : Headers) : Option Str := (headers.get contentEncodingName).filter isVisibleAscii

def decoderApplied (ce : Str) : ResponseBody → Bool
  | .streaming _ => !(trim ce).isEmpty && (parseContentEncodings ce).isSome
  | .buffered _ => (parseContentEncodings ce).isSome
  | .consumed => false
  | .encodedStreaming _ _ _ => false

def Response.applyDecompression (codecs : Codecs) (response : Response) (contentEncoding : Option Str)
    (limit : DecompressionLimit) : Except Error Response :=
  match Compression.applyDecompression codecs response.body contentEncoding limit with
  | .error e => .error e
  | .ok body =>
    if contentEncoding.any (decoderApplied · response.body) then
      .ok ⟨(response.headers.remove contentEncodingName).remove contentLengthName, body⟩
    else .ok ⟨response.headers, body⟩

/-- The decoding step of `finalize_response`. -/
def finalizeDecoding (codecs : Codecs) (response : Response) (decompressionEnabled : Bool) (limit : DecompressionLimit) :
    Except Error Response :=
  if decompressionEnabled then response.applyDecompression codecs (contentEncodingOf response.headers) limit
  else .ok response

/-- The bytes that a caller gets, and whether the response still names a coding. -/
def Response.seen (codecs : Codecs) (response : Response) : Except Error ByteSource × Bool :=
  (response.body.bytesStream codecs, response.headers.contains contentEncodingName)

def joinedHeaders (headers : Headers) : Headers :=
  if headers.contains contentEncodingName then
    headers.insertRaw contentEncodingName ([comma].intercalate (headers.getAll contentEncodingName))
  else headers

def tokens (line : Str) : List Str := (line.splitOn comma).map trim

def listed (lines : List Str) : List Str := (lines.flatMap tokens).filter (!isNoop ·)

def undone (headers : Headers) : List ContentCoding :=
  ((contentEncodingOf headers).bind parseContentEncodings).getD []

/-- Finalisation treats the lines as one joined value, and a response that it lets through has every
listed coding undone. -/
structure DecodedAsJoined (headers : Headers) : Prop where
  joined : ∀ codecs body decompressionEnabled limit,
    (finalizeDecoding codecs ⟨headers, body⟩ decompressionEnabled limit).map (Response.seen codecs) =
      (finalizeDecoding codecs ⟨joinedHeaders headers, body⟩ decompressionEnabled limit).map (Response.seen codecs)
  decoded : ∀ codecs body limit response, finalizeDecoding codecs ⟨headers, body⟩ true limit = .ok response →
    (listed (headers.getAll contentEncodingName)).map ContentCoding.fromWire = (undone headers).map some

/-- The lines after the first can be left out: they list nothing, or the first is refused anyway. -/
def FirstDecides : List Str → Prop
  | [] => True
  | first :: rest =>
    if isVisibleAscii first then
      (∀ line ∈ rest, isVisibleAscii line = true) ∧
        ((∃ token ∈ listed [first], ContentCoding.fromWire token = none) ∨ listed rest = [])
    else listed (first :: rest) = []

theorem tokens_intercalate (first : Str) (rest : List Str) :
    tokens ([comma].intercalate (first :: rest)) = (first :: rest).flatMap tokens := by
  induction rest generalizing first with
  | nil => simp
  | cons second rest ih =>
    rw [List.intercalate_cons_cons, List.append_assoc, List.singleton_append, tokens, List.splitOn_append_cons_self,
      List.map_append, List.flatMap_cons, ← ih second]
    rfl

/-- The token that `validate_content_encodings` stops at. -/
def checkToken (token : Str) : Except Error Unit :=
  if isNoop token then .ok ()
  else match ContentCoding.fromWire token with
    | none => .error (.unsupportedContentEncoding token)
    | some _ => .ok ()

def checkTokens (ts : List Str) : Except Error Unit := ts.forM checkToken

theorem validate_eq (ce : Str) : validateContentEncodings ce = checkTokens (tokens ce) := rfl

theorem checkTokens_cons (token : Str) (ts : List Str) :
    checkTokens (token :: ts) = requiring (checkToken token) (checkTokens ts) := by
  rw [checkTokens, List.forM_eq_forM, List.forM_cons]
  cases checkToken token <;> rfl

theorem checkTokens_append (ts us : List Str) :
    checkTokens (ts ++ us) = requiring (checkTokens ts) (checkTokens us) := by
  induction ts with
  | nil => rfl
  | cons token ts ih =>
    rw [List.cons_append, checkTokens_cons, checkTokens_cons, ih]
    cases checkToken token <;> rfl

theorem parse_eq (ce : Str) : parseContentEncodings ce =
    if ((listed [ce]).filterMap ContentCoding.fromWire).isEmpty then none
    else some ((listed [ce]).filterMap ContentCoding.fromWire) := by
  rw [listed, List.flatMap_singleton]
  rfl

private theorem checkToken_error {token : Str} (hlisted : isNoop token = false) (h : ContentCoding.fromWire token = none) :
    checkToken token = .error (.unsupportedContentEncoding token) := by
  rw [checkToken, if_neg (by rw [hlisted]; exact Bool.false_ne_true), h]

/-- The tokens pass exactly when each one that is listed is supported. -/
theorem checkTokens_ok (ts : List Str) :
    checkTokens ts = .ok () ↔ ∀ token ∈ ts.filter (!isNoop ·), ContentCoding.fromWire token ≠ none := by
  induction ts with
  | nil => exact ⟨fun _ _ h => absurd h List.not_mem_nil, fun _ => rfl⟩
  | cons token ts ih =>
    rw [checkTokens_cons]
    cases hnoop : isNoop token with
    | true =>
      have hCheck : checkToken token = .ok () := by rw [checkToken, if_pos hnoop]
      rw [hCheck, List.filter_cons_of_neg (by rw [hnoop]; decide)]
      exact ih
    | false =>
      rw [List.filter_cons_of_pos (by rw [hnoop]; rfl), List.forall_mem_cons]
      cases hwire : ContentCoding.fromWire token with
      | none =>
        rw [checkToken_error hnoop hwire]
        exact ⟨fun h => (by cases h), fun h => absurd rfl h.1⟩
      | some coding =>
        have hCheck : checkToken token = .ok () := by
          rw [checkToken, if_neg (by rw [hnoop]; exact Bool.false_ne_true), hwire]
        rw [hCheck]
        exact ih.trans ⟨fun h => ⟨Option.some_ne_none coding, h⟩, And.right⟩

theorem listed_cons (first : Str) (rest : List Str) : listed (first :: rest) = listed [first] ++ listed rest := by
  rw [listed, listed, listed, List.flatMap_cons, List.flatMap_singleton, List.filter_append]

private theorem filterMap_fromWire {ts : List Str} (h : ∀ token ∈ ts, ContentCoding.fromWire token ≠ none) :
    ts.map ContentCoding.fromWire = (ts.filterMap ContentCoding.fromWire).map some := by
  induction ts with
  | nil => rfl
  | cons token ts ih =>
    obtain ⟨htoken, hrest⟩ := List.forall_mem_cons.mp h
    obtain ⟨coding, hcoding⟩ := Option.ne_none_iff_exists'.mp htoken
    rw [List.map_cons, List.filterMap_cons_some hcoding, List.map_cons, hcoding, ih hrest]

theorem parse_getD (ce : Str) : (parseContentEncodings ce).getD [] = (listed [ce]).filterMap ContentCoding.fromWire := by
  rw [parse_eq]
  split
  · next hnil => exact (List.isEmpty_iff.mp hnil).symm
  · rfl

private theorem joined_of_nothing (first : Str) {rest : List Str} (h : listed rest = []) :
    validateContentEncodings ([comma].intercalate (first :: rest)) = validateContentEncodings first ∧
      parseContentEncodings ([comma].intercalate (first :: rest)) = parseContentEncodings first := by
  have hTokens : tokens ([comma].intercalate (first :: rest)) = tokens first ++ rest.flatMap tokens :=
    tokens_intercalate first rest
  have hRest : checkTokens (rest.flatMap tokens) = .ok () := by
    rw [checkTokens_ok, ← listed, h]
    exact fun _ hmem => absurd hmem List.not_mem_nil
  constructor
  · rw [validate_eq, validate_eq, hTokens, checkTokens_append, hRest]
    cases checkTokens (tokens first) <;> rfl
  · have hListed : listed [[comma].intercalate (first :: rest)] = listed [first] := by
      rw [listed, List.flatMap_singleton, hTokens, List.filter_append, ← listed, h, List.append_nil, listed,
        List.flatMap_singleton]
    rw [parse_eq, parse_eq, hListed]

section
variable {codecs : Codecs} {limit : DecompressionLimit} {headers : Headers} {body : ResponseBody} {ce ce' : Str}

/-- The stream of `decompress_stream` once the header is validated. -/
def undoStream (codecs : Codecs) (stream : ByteSource) (limit : DecompressionLimit) :
    Option (List ContentCoding) → Except Error ByteSource
  | none => .ok stream
  | some encodings =>
    if maxNestingDepth < encodings.length then .error (nestingError encodings.length)
    else .ok ((encodings.reverse.foldl (Layered.push codecs limit) ⟨stream, none⟩).limited limit)

private theorem decompressStream_eq (stream : ByteSource) (hlimit : limit.validate = .ok ())
    (hchecked : validateContentEncodings ce = .ok ()) :
    decompressStream codecs stream ce limit = undoStream codecs stream limit (parseContentEncodings ce) := by
  rw [decompressStream]
  split
  · next hblank =>
    rw [(blank_spec hblank).2]
    rfl
  · rw [hlimit, hchecked]
    dsimp only [requiring]
    cases parseContentEncodings ce <;> rfl

theorem contains_stripped : ((headers.remove contentEncodingName).remove contentLengthName).contains
    contentEncodingName = false := by
  rw [Headers.contains, Headers.remove, Headers.getAll_set_of_ne (by decide), Headers.getAll_remove_self]
  rfl

private theorem streaming_seen (stream : ByteSource) (hlimit : limit.validate = .ok ())
    (hchecked : validateContentEncodings ce = .ok ()) :
    (Response.applyDecompression codecs ⟨headers, .streaming stream⟩ (some ce) limit).map (Response.seen codecs) =
      .ok (undoStream codecs stream limit (parseContentEncodings ce),
        !(parseContentEncodings ce).isSome && headers.contains contentEncodingName) := by
  have hApplied : decoderApplied ce (.streaming stream) = (parseContentEncodings ce).isSome := by
    rw [decoderApplied]
    cases hblank : (trim ce).isEmpty with
    | true => rw [(blank_spec hblank).2]; rfl
    | false => rfl
  have hOpened : ∃ body', Compression.applyDecompression codecs (.streaming stream) (some ce) limit = .ok body' ∧
      body'.bytesStream codecs = undoStream codecs stream limit (parseContentEncodings ce) := by
    rw [Compression.applyDecompression, hlimit, hchecked]
    dsimp only [requiring]
    split
    · next hblank => exact ⟨_, rfl, by rw [(blank_spec hblank).2]; rfl⟩
    · exact ⟨_, rfl, decompressStream_eq stream hlimit hchecked⟩
  obtain ⟨body', hBody, hStream⟩ := hOpened
  rw [Response.applyDecompression, hBody]
  dsimp only
  rw [Option.any_some, hApplied]
  cases (parseContentEncodings ce).isSome with
  | true =>
    rw [if_pos rfl, Except.map, Response.seen, hStream, contains_stripped]
    rfl
  | false =>
    rw [if_neg Bool.false_ne_true, Except.map, Response.seen, hStream]
    rfl

/-- Both checks come before the body is looked at. -/
theorem apply_error (response : Response) {e : Error} (h : requiring limit.validate (validateContentEncodings ce) = .error e) :
    response.applyDecompression codecs (some ce) limit = .error e := by
  have hBody : Compression.applyDecompression codecs response.body (some ce) limit = .error e := by
    unfold Compression.applyDecompression
    dsimp only
    cases hlimit : limit.validate with
    | error _ =>
      rw [hlimit] at h
      rw [Except.error.inj h]
      rfl
    | ok _ =>
      rw [hlimit] at h
      rw [show validateContentEncodings ce = .error e from h]
      rfl
  rw [Response.applyDecompression, hBody]

private theorem seen_congr {headers' : Headers} (hlimit : limit.validate = .ok ())
    (hchecked : validateContentEncodings ce = .ok ())
    (hchecked' : validateContentEncodings ce' = .ok ()) (hparse : parseContentEncodings ce = parseContentEncodings ce')
    (hnamed : headers.contains contentEncodingName = headers'.contains contentEncodingName) :
    (Response.applyDecompression codecs ⟨headers, body⟩ (some ce) limit).map (Response.seen codecs) =
      (Response.applyDecompression codecs ⟨headers', body⟩ (some ce') limit).map (Response.seen codecs) := by
  have hPass {body : ResponseBody} (hkept : ∀ ce, decoderApplied ce body = false)
      (hsame : ∀ ce, Compression.applyDecompression codecs body (some ce) limit =
        requiring limit.validate (requiring (validateContentEncodings ce) (.ok body))) :
      (Response.applyDecompression codecs ⟨headers, body⟩ (some ce) limit).map (Response.seen codecs) =
        (Response.applyDecompression codecs ⟨headers', body⟩ (some ce') limit).map (Response.seen codecs) := by
    rw [Response.applyDecompression, Response.applyDecompression, hsame, hsame, hlimit, hchecked, hchecked']
    dsimp only [requiring]
    rw [Option.any_some, Option.any_some, hkept, hkept, if_neg Bool.false_ne_true, if_neg Bool.false_ne_true]
    exact congrArg (fun named => Except.ok (body.bytesStream codecs, named)) hnamed
  cases body with
  | streaming stream => rw [streaming_seen stream hlimit hchecked, streaming_seen stream hlimit hchecked', hparse, hnamed]
  | buffered bytes =>
    have hBuffered : decompressBuffered codecs bytes ce limit = decompressBuffered codecs bytes ce' limit := by
      rw [decompressBuffered, decompressBuffered, hchecked, hchecked', hparse]
    have hApplied : decoderApplied ce (.buffered bytes) = decoderApplied ce' (.buffered bytes) :=
      congrArg Option.isSome hparse
    have hBody : Compression.applyDecompression codecs (.buffered bytes) (some ce) limit =
        Compression.applyDecompression codecs (.buffered bytes) (some ce') limit := by
      rw [Compression.applyDecompression, Compression.applyDecompression, hchecked, hchecked', hBuffered]
    rw [Response.applyDecompression, Response.applyDecompression, hBody]
    cases Compression.applyDecompression codecs (.buffered bytes) (some ce') limit with
    | error e => rfl
    | ok body' =>
      dsimp only
      rw [Option.any_some, Option.any_some, hApplied]
      cases decoderApplied ce' (.buffered bytes) with
      | true =>
        rw [if_pos rfl, if_pos rfl, Except.map, Except.map, Response.seen, Response.seen, contains_stripped, contains_stripped]
      | false =>
        rw [if_neg Bool.false_ne_true, if_neg Bool.false_ne_true, Except.map, Except.map, Response.seen, Response.seen, hnamed]
  | consumed => exact hPass (fun _ => rfl) fun _ => rfl
  | encodedStreaming stream contentEncoding limit' => exact hPass (fun _ => rfl) fun _ => rfl

theorem contentEncodingOf_cons {first : Str} {rest : List Str} (h : headers.getAll contentEncodingName = first :: rest) :
    contentEncodingOf headers = if isVisibleAscii first then some first else none := by
  rw [contentEncodingOf, Headers.get, h, List.head?_cons, Option.filter_some]

theorem contentEncodingOf_joined {first : Str} {rest : List Str} (h : headers.getAll contentEncodingName = first :: rest) :
    contentEncodingOf (joinedHeaders headers) =
      if (first :: rest).all isVisibleAscii then some ([comma].intercalate (first :: rest)) else none := by
  have hVisible : isVisibleAscii ([comma].intercalate (first :: rest)) = (first :: rest).all isVisibleAscii := by
    clear h
    induction rest generalizing first with
    | nil => simp
    | cons second rest ih =>
      rw [List.intercalate_cons_cons, List.append_assoc, isVisibleAscii, List.all_append, List.all_append, ← isVisibleAscii,
        ← isVisibleAscii, ← isVisibleAscii, ih]
      rfl
  have hContains : headers.contains contentEncodingName = true := by rw [Headers.contains, h]; rfl
  have hLine : (joinedHeaders headers).getAll contentEncodingName = [[comma].intercalate (first :: rest)] := by
    rw [joinedHeaders, if_pos hContains, Headers.getAll_insertRaw_self, h]
  rw [contentEncodingOf_cons hLine, hVisible]

theorem finalize_none (response : Response) (h : contentEncodingOf response.headers = none) (decompressionEnabled : Bool) :
    finalizeDecoding codecs response decompressionEnabled limit = .ok response := by
  rw [finalizeDecoding, h]
  cases decompressionEnabled <;> rfl

theorem finalize_some (response : Response) (h : contentEncodingOf response.headers = some ce) :
    finalizeDecoding codecs response true limit = response.applyDecompression codecs (some ce) limit := by
  rw [finalizeDecoding, if_pos rfl, h]

private theorem checked_of_ok {response response' : Response}
    (h : response.applyDecompression codecs (some ce) limit = .ok response') :
    limit.validate = .ok () ∧ validateContentEncodings ce = .ok () := by
  cases hboth : requiring limit.validate (validateContentEncodings ce) with
  | error e =>
    rw [apply_error response hboth] at h
    cases h
  | ok _ =>
    cases hlimit : limit.validate with
    | error e => rw [hlimit] at hboth; cases hboth
    | ok _ => rw [hlimit] at hboth; exact ⟨rfl, hboth⟩

theorem contains_joined : (joinedHeaders headers).contains contentEncodingName = headers.contains contentEncodingName := by
  rw [joinedHeaders]
  split
  · next hContains => rw [hContains, Headers.contains, Headers.getAll_insertRaw_self]; rfl
  · rfl

private theorem joined_refused {first : Str} {e : Error} (rest : List Str) (h : validateContentEncodings first = .error e) :
    validateContentEncodings ([comma].intercalate (first :: rest)) = .error e := by
  rw [validate_eq] at h ⊢
  rw [tokens_intercalate, List.flatMap_cons, checkTokens_append, h]
  rfl

/-- Where every line is readable and the later ones do not count, finalisation sees the joined value. -/
theorem joined_of_visible {first : Str} {rest : List Str} (hlines : headers.getAll contentEncodingName = first :: rest)
    (hvisible : (first :: rest).all isVisibleAscii = true)
    (h : (∃ token ∈ listed [first], ContentCoding.fromWire token = none) ∨ listed rest = []) (decompressionEnabled : Bool) :
    (finalizeDecoding codecs ⟨headers, body⟩ decompressionEnabled limit).map (Response.seen codecs) =
      (finalizeDecoding codecs ⟨joinedHeaders headers, body⟩ decompressionEnabled limit).map (Response.seen codecs) := by
  have hRead : contentEncodingOf headers = some first := by
    rw [contentEncodingOf_cons hlines, if_pos (List.all_eq_true.mp hvisible first List.mem_cons_self)]
  have hJoined : contentEncodingOf (joinedHeaders headers) = some ([comma].intercalate (first :: rest)) := by
    rw [contentEncodingOf_joined hlines, if_pos hvisible]
  cases decompressionEnabled with
  | false => exact congrArg (fun named => Except.ok (body.bytesStream codecs, named)) contains_joined.symm
  | true =>
    rw [finalize_some _ hRead, finalize_some _ hJoined]
    cases hlimit : limit.validate with
    | error e =>
      rw [apply_error _ (by rw [hlimit]; rfl), apply_error _ (by rw [hlimit]; rfl)]
    | ok _ =>
      cases hFirst : validateContentEncodings first with
      | error e =>
        rw [apply_error _ (by rw [hlimit]; exact hFirst), apply_error _ (by rw [hlimit]; exact joined_refused rest hFirst)]
      | ok _ =>
        rcases h with ⟨token, hmem, hwire⟩ | hNothing
        · -- the first line passed its check, so it has no such token
          rw [validate_eq, checkTokens_ok] at hFirst
          rw [listed, List.flatMap_singleton] at hmem
          exact absurd hwire (hFirst token hmem)
        · obtain ⟨hSame, hParse⟩ := joined_of_nothing first hNothing
          exact seen_congr hlimit hFirst (hSame.trans hFirst) hParse.symm contains_joined.symm

/-- The codings of a line that passed its check. -/
theorem parsed_of_checked {line : Str} (h : validateContentEncodings line = .ok ()) :
    (listed [line]).map ContentCoding.fromWire = ((parseContentEncodings line).getD []).map some := by
  rw [parse_getD]
  refine filterMap_fromWire ?_
  rwa [listed, List.flatMap_singleton, ← checkTokens_ok, ← validate_eq]

theorem decodedAsJoined_of_firstDecides (h : FirstDecides (headers.getAll contentEncodingName)) : DecodedAsJoined headers := by
  cases hlines : headers.getAll contentEncodingName with
  | nil =>
    have hRead : contentEncodingOf headers = none := by rw [contentEncodingOf, Headers.get, hlines]; rfl
    have hContains : ¬ headers.contains contentEncodingName = true := by rw [Headers.contains, hlines]; decide
    have hJoined : joinedHeaders headers = headers := if_neg hContains
    refine ⟨fun _ _ _ _ => by rw [hJoined], fun _ _ _ _ _ => ?_⟩
    rw [hlines, undone, hRead]
    rfl
  | cons first rest =>
    rw [hlines, FirstDecides] at h
    cases hFirst : isVisibleAscii first with
    | false =>
      rw [if_neg (by rw [hFirst]; exact Bool.false_ne_true)] at h
      have hRead : contentEncodingOf headers = none := by
        rw [contentEncodingOf_cons hlines, if_neg (by rw [hFirst]; exact Bool.false_ne_true)]
      have hJoined : contentEncodingOf (joinedHeaders headers) = none := by
        rw [contentEncodingOf_joined hlines, if_neg (by rw [List.all_cons, hFirst]; exact Bool.false_ne_true)]
      refine ⟨fun codecs body _ _ => ?_, fun _ _ _ _ _ => ?_⟩
      · rw [finalize_none _ hRead, finalize_none _ hJoined]
        exact congrArg (fun named => Except.ok (body.bytesStream codecs, named)) contains_joined.symm
      · rw [hlines, h, undone, hRead]
        rfl
    | true =>
      rw [if_pos hFirst] at h
      obtain ⟨hRest, hDecides⟩ := h
      have hVisible : (first :: rest).all isVisibleAscii = true := List.all_eq_true.mpr (List.forall_mem_cons.mpr ⟨hFirst, hRest⟩)
      refine ⟨fun _ _ enabled _ => joined_of_visible hlines hVisible hDecides enabled, fun _ _ _ response hok => ?_⟩
      have hRead : contentEncodingOf headers = some first := by rw [contentEncodingOf_cons hlines, if_pos hFirst]
      rw [finalize_some _ hRead] at hok
      have hChecked := (checked_of_ok hok).2
      have hRestNothing : listed rest = [] := by
        refine hDecides.resolve_left fun ⟨token, hmem, hwire⟩ => ?_
        rw [validate_eq, checkTokens_ok] at hChecked
        rw [listed, List.flatMap_singleton] at hmem
        exact hChecked token hmem hwire
      rw [hlines, listed_cons, hRestNothing, List.append_nil, undone, hRead]
      exact parsed_of_checked hChecked

private def silentCodecs : Codecs where
  decoder _ input := ⟨input.State, input.init, input.poll, id⟩
  reads _ _ := []

private def noLimit : DecompressionLimit := ⟨none, none⟩

/-- A limit that `validate` refuses. -/
private def badLimit : DecompressionLimit := ⟨none, some ⟨false, id, fun _ _ => false⟩⟩

private theorem firstDecides_of_decodedAsJoined (h : DecodedAsJoined headers) :
    FirstDecides (headers.getAll contentEncodingName) := by
  cases hlines : headers.getAll contentEncodingName with
  | nil => trivial
  | cons first rest =>
    rw [FirstDecides]
    cases hFirst : isVisibleAscii first with
    | false =>
      rw [if_neg Bool.false_ne_true]
      have hRead : contentEncodingOf headers = none := by
        rw [contentEncodingOf_cons hlines, if_neg (by rw [hFirst]; exact Bool.false_ne_true)]
      have hDecoded := h.decoded silentCodecs .consumed noLimit _ (finalize_none _ hRead true)
      rw [hlines, undone, hRead] at hDecoded
      exact List.map_eq_nil_iff.mp hDecoded
    | true =>
      rw [if_pos rfl]
      have hRead : contentEncodingOf headers = some first := by rw [contentEncodingOf_cons hlines, if_pos hFirst]
      constructor
      · -- a refused limit shows whether there is a value at all
        by_contra hHidden
        have hJoined : contentEncodingOf (joinedHeaders headers) = none := by
          rw [contentEncodingOf_joined hlines, if_neg]
          rw [List.all_cons, hFirst, Bool.true_and, List.all_eq_true]
          exact hHidden
        have hSame := h.joined silentCodecs .consumed true badLimit
        rw [finalize_some _ hRead, finalize_none ⟨joinedHeaders headers, .consumed⟩ hJoined, apply_error _ rfl] at hSame
        cases hSame
      · by_contra hBoth
        obtain ⟨hSupported, hMore⟩ := not_or.mp hBoth
        have hChecked : validateContentEncodings first = .ok () := by
          rw [validate_eq, checkTokens_ok]
          intro token hmem hwire
          exact hSupported ⟨token, by rwa [listed, List.flatMap_singleton], hwire⟩
        have hOk : finalizeDecoding silentCodecs ⟨headers, .consumed⟩ true noLimit = .ok ⟨headers, .consumed⟩ := by
          rw [finalize_some _ hRead, Response.applyDecompression, Compression.applyDecompression, hChecked]
          rfl
        have hDecoded := h.decoded silentCodecs .consumed noLimit _ hOk
        rw [hlines, listed_cons, undone, hRead, List.map_append] at hDecoded
        have hParsed := parsed_of_checked hChecked
        have hNothing : (listed rest).map ContentCoding.fromWire = [] := by
          have hLength := congrArg List.length hDecoded
          rw [List.length_append, hParsed] at hLength
          exact List.eq_nil_of_length_eq_zero (Nat.add_eq_left.mp hLength)
        exact hMore (List.map_eq_nil_iff.mp hNothing)

/-- A header's lines are decoded as their joined value exactly where the first line decides. -/
theorem decodedAsJoined_iff (headers : Headers) :
    DecodedAsJoined headers ↔ FirstDecides (headers.getAll contentEncodingName) :=
  ⟨firstDecides_of_decodedAsJoined, decodedAsJoined_of_firstDecides⟩

/-- `gzip` on one line and `br` on the next. -/
private def twoLines : Headers := Headers.empty.set contentEncodingName [utf8 "gzip", utf8 "br"]

/-- The body is taken for decoded with only the gzip layer undone. -/
theorem not_decodedAsJoined : ¬ ∀ headers, DecodedAsJoined headers := by
  intro hall
  have hOk : finalizeDecoding silentCodecs ⟨twoLines, .streaming (Source.ofList [.ok (utf8 "ab")])⟩ true noLimit =
      .ok ⟨(twoLines.remove contentEncodingName).remove contentLengthName,
        .encodedStreaming (Source.ofList [.ok (utf8 "ab")]) (utf8 "gzip") noLimit⟩ := rfl
  have hDecoded := (hall twoLines).decoded silentCodecs _ noLimit _ hOk
  exact absurd hDecoded (by decide)

end
end Eggfetch.Compression
