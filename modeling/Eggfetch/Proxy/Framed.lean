import Eggfetch.Proxy.Framing
import Eggfetch.Text.Base64

/-! When a request that the client writes is parsed as what was meant: its target is one word, it
is framed once, and a stream holds as much as it declares. -/
namespace Eggfetch.Proxy
open Text Http
open Pipeline (Version)

def RequestBody.payload : RequestBody → Str
  | empty => []
  | bytes data => data
  | stream _ chunks => chunkData chunks

def HeaderMap.values (headers : HeaderMap) (name : Str) : List Str :=
  (headers.iter.filter (·.name == name)).map Field.value

/-- The values that are written under a name: the proxy's ones only if the request has none. -/
def writtenValues (headers proxyHeaders : HeaderMap) (name : Str) : List Str :=
  headers.values name ++ if headers.contains name then [] else proxyHeaders.values name

def Field.parsed (field : Field) : Str × Str := (field.name, trimOws field.value)

/-- No text of the libraries has a line end: not a host, not an encoding. -/
structure Library.OneLine (lib : Library) : Prop where
  host : ∀ text parsed, lib.parseUrl text = some parsed → isLine (parsed.host.getD []) = true
  base64 : ∀ s, isLine (lib.base64 s) = true

/-- A recipient parses one request and nothing after it: the request line, the fields and the whole
body, in the one framing that its length calls for. -/
def ParsesBack (lib : Library) (method uri : Str) (headers : HeaderMap) (auth : Option ProxyAuth)
    (proxyHeaders : HeaderMap) (body : RequestBody) (wire : Str) : Prop :=
  ∃ sent message, applyContentLength headers body = .ok sent ∧ parseRequest wire = some (message, []) ∧
    message.head.method = method ∧ message.head.target = uri ∧ message.head.version = utf8 "HTTP/1.1" ∧
    message.head.fields = (writtenFields lib uri sent auth proxyHeaders body).map Field.parsed ∧
    message.framing = (if body.declaredLength.isSome then .length body.payload.length else .chunked) ∧
    message.body = body.payload

/-- What the client does not check. -/
structure FramedOnce (uri : Str) (headers proxyHeaders : HeaderMap) (body : RequestBody) : Prop where
  target : 0x20 ∉ uri ∧ isLine uri = true
  /-- A length that is known is true, written once as digits, and the only framing. -/
  known : ∀ n, body.declaredLength = some n → body.payload.length = n ∧
    writtenValues headers proxyHeaders transferEncoding = [] ∧ (headers.values contentLength).length ≤ 1 ∧
    ∀ value ∈ headers.values contentLength, value.all isDigit = true
  /-- Chunks are declared at most once by the caller, and no length comes from the proxy's headers. -/
  unknown : body.declaredLength = none →
    proxyHeaders.values contentLength = [] ∧ (writtenValues headers proxyHeaders transferEncoding).length ≤ 1

section
variable {lib : Library} {method uri wire name : Str} {headers proxyHeaders sent : HeaderMap} {auth : Option ProxyAuth}
  {body : RequestBody} {fields : List Field}

theorem fieldValues_parsed (name : Str) (fields : List Field) :
    fieldValues name (fields.map Field.parsed) =
      ((fields.filter fun field => eqIgnoreAsciiCase field.name name).map Field.value).map trimOws := by
  rw [fieldValues, List.filter_map, List.map_map, List.map_map]
  rfl

theorem contains_iff_values : headers.contains name = true ↔ headers.values name ≠ [] := by
  simp [HeaderMap.contains, HeaderMap.values, List.filter_eq_nil_iff]

theorem eqIgnoreAsciiCase_eq {field : Field} (hField : field ∈ headers.iter) (hName : toAsciiLowercase name = name) :
    eqIgnoreAsciiCase field.name name = (field.name == name) := by
  rw [eqIgnoreAsciiCase, (headers.names_valid field hField).2, hName]
  rw [Bool.eq_iff_iff]
  simp

/-- A name that is written in lower case and is neither of the two that have fields of their own. -/
structure Plain (name : Str) : Prop where
  lower : toAsciiLowercase name = name
  host : eqIgnoreAsciiCase (utf8 "Host") name = false
  authorization : eqIgnoreAsciiCase (utf8 "Proxy-Authorization") name = false

theorem isProxyAuthorization_of_name {field : Field} (hName : Plain name) (h : field.name = name) :
    isProxyAuthorization field = false := by
  have hLower : toAsciiLowercase (utf8 "Proxy-Authorization") = toAsciiLowercase proxyAuthorization := by decide
  have hNe := hName.authorization
  rw [eqIgnoreAsciiCase, hLower] at hNe
  rw [isProxyAuthorization, eqIgnoreAsciiCase, h]
  simpa [eq_comm] using hNe

theorem values_originFields (hName : Plain name) :
    (originFields headers).filter (fun field => eqIgnoreAsciiCase field.name name) = headers.iter.filter (·.name == name) := by
  rw [originFields, List.filter_filter]
  refine List.filter_congr fun field hField => ?_
  rw [eqIgnoreAsciiCase_eq hField hName.lower]
  by_cases hSame : field.name = name
  · simp [hSame, isProxyAuthorization_of_name hName hSame]
  · simp [hSame]

private theorem values_proxyOnlyFields (hName : Plain name) :
    (proxyOnlyFields headers proxyHeaders).filter (fun field => eqIgnoreAsciiCase field.name name) =
      if headers.contains name then [] else proxyHeaders.iter.filter (·.name == name) := by
  rw [proxyOnlyFields, List.filter_filter]
  split_ifs with hContains
  · refine List.filter_eq_nil_iff.mpr fun field hField => ?_
    rw [eqIgnoreAsciiCase_eq hField hName.lower]
    by_cases hSame : field.name = name
    · simp [hSame, hContains]
    · simp [hSame]
  · refine List.filter_congr fun field hField => ?_
    rw [eqIgnoreAsciiCase_eq hField hName.lower]
    by_cases hSame : field.name = name
    · simp [hSame, hContains, isProxyAuthorization_of_name hName hSame]
    · simp [hSame]

private theorem values_hostFields (hName : Plain name) :
    (hostFields lib uri headers).filter (fun field => eqIgnoreAsciiCase field.name name) = [] := by
  unfold hostFields
  split_ifs
  · rfl
  · cases lib.parseUrl uri with
    | none => rfl
    | some parsed => simp [hName.host]

private theorem values_authFields (hName : Plain name) :
    (authFields lib auth).filter (fun field => eqIgnoreAsciiCase field.name name) = [] := by
  cases auth with
  | none => rfl
  | some auth => simp [authFields, hName.authorization]

/-- The values that a recipient finds under a name. -/
theorem fieldValues_written (hName : Plain name) :
    fieldValues name ((writtenFields lib uri headers auth proxyHeaders body).map Field.parsed) =
      (writtenValues headers proxyHeaders name ++
        ((framingFields body headers proxyHeaders).filter fun field => eqIgnoreAsciiCase field.name name).map
          Field.value).map trimOws := by
  rw [fieldValues_parsed, writtenFields]
  simp only [List.filter_append, values_hostFields hName, values_originFields hName, values_proxyOnlyFields hName,
    values_authFields hName, List.map_append, List.nil_append, List.append_nil, writtenValues, HeaderMap.values]
  split_ifs <;> rfl

theorem plain_transferEncoding : Plain transferEncoding := ⟨by decide, by decide, by decide⟩

theorem plain_contentLength : Plain contentLength := ⟨by decide, by decide, by decide⟩

theorem get_eq_head? : headers.get name = (headers.values name).head? := by
  rw [HeaderMap.get, HeaderMap.values, List.head?_map, List.head?_filter]

private theorem get_or_get :
    (headers.get name).or (proxyHeaders.get name) = (writtenValues headers proxyHeaders name).head? := by
  rw [get_eq_head?, get_eq_head?, writtenValues, List.head?_append]
  split_ifs with hContains
  · obtain ⟨value, rest, hValues⟩ := List.exists_cons_of_ne_nil (contains_iff_values.mp hContains)
    rw [hValues]
    rfl
  · rfl

theorem sendPrepared_ok (h : sendPrepared lib method uri headers auth proxyHeaders body = .ok wire) :
    ∃ sent, applyContentLength headers body = .ok sent ∧
      writeProxyRequest lib method uri .http11 sent auth proxyHeaders body = .ok wire := by
  unfold sendPrepared at h
  cases hSent : applyContentLength headers body with
  | error e =>
    rw [hSent] at h
    cases h
  | ok sent =>
    rw [hSent] at h
    refine ⟨sent, rfl, ?_⟩
    cases hWire : writeProxyRequest lib method uri .http11 sent auth proxyHeaders body with
    | error e =>
      change (writeProxyRequest lib method uri .http11 sent auth proxyHeaders body).mapError SendError.request = _ at h
      rw [hWire] at h
      cases h
    | ok bytes =>
      change (writeProxyRequest lib method uri .http11 sent auth proxyHeaders body).mapError SendError.request = _ at h
      rw [hWire] at h
      cases h
      rfl

theorem isLine_of_validateHeaderValue {value : Str} (h : validateHeaderValue value = true) : isLine value = true :=
  isLine_iff.mpr ⟨fun hMem => (mem_of_validateHeaderValue h hMem).1 rfl, fun hMem => (mem_of_validateHeaderValue h hMem).2 rfl⟩

theorem isLine_append {s t : Str} : isLine (s ++ t) = true ↔ isLine s = true ∧ isLine t = true := by
  simp only [isLine_iff, List.mem_append, not_or]
  tauto

private theorem isLine_withPort {text : Str} (h : isLine text = true) (port : Option Nat) :
    isLine (withPort text port) = true := by
  cases port with
  | none => exact h
  | some port =>
    have hColon : isLine (utf8 ":") = true := by decide
    have hDigits : isLine (decimalBytes port) = true :=
      isLine_of_validateHeaderValue (validateHeaderValue_decimalBytes port)
    exact isLine_append.mpr ⟨isLine_append.mpr ⟨h, hColon⟩, hDigits⟩

private theorem written_valid (hLib : lib.OneLine) :
    ∀ field ∈ writtenFields lib uri headers auth proxyHeaders body,
      validateHeaderName field.name = true ∧ isLine field.value = true := by
  intro field hField
  have hOf (map : HeaderMap) (hMem : field ∈ map.iter) : validateHeaderName field.name = true ∧ isLine field.value = true :=
    ⟨(map.names_valid field hMem).1, isLine_of_validateHeaderValue (map.values_valid field hMem)⟩
  simp only [writtenFields, List.mem_append] at hField
  rcases hField with (((hHost | hOrigin) | hProxy) | hFraming) | hAuth
  · unfold hostFields at hHost
    split at hHost
    · cases hHost
    · cases hParse : lib.parseUrl uri with
      | none =>
        rw [hParse] at hHost
        cases hHost
      | some parsed =>
        rw [hParse] at hHost
        cases List.mem_singleton.mp hHost
        exact ⟨(by decide : validateHeaderName (utf8 "Host") = true), isLine_withPort (hLib.host uri parsed hParse) _⟩
  · exact hOf headers (List.mem_filter.mp hOrigin).1
  · exact hOf proxyHeaders (List.mem_filter.mp hProxy).1
  · unfold framingFields at hFraming
    split at hFraming
    · cases List.mem_singleton.mp hFraming
      decide
    · cases hFraming
  · cases auth with
    | none => cases hAuth
    | some auth =>
      cases List.mem_singleton.mp hAuth
      cases auth with
      | basic username password =>
        have hBasic : isLine (utf8 "Basic ") = true := by decide
        exact ⟨(by decide : validateHeaderName (utf8 "Proxy-Authorization") = true),
          isLine_append.mpr ⟨hBasic, hLib.base64 _⟩⟩

theorem parseRequestHead_written (hLib : lib.OneLine) (hMethod : validateHeaderName method = true)
    (hTarget : 0x20 ∉ uri ∧ isLine uri = true) (rest : Str) :
    parseRequestHead (requestLine method uri .http11 ++ crlf ++
        (writtenFields lib uri headers auth proxyHeaders body).flatMap fieldLine ++ crlf ++ rest) =
      some (⟨method, uri, utf8 "HTTP/1.1", (writtenFields lib uri headers auth proxyHeaders body).map Field.parsed⟩, rest) := by
  have hSpace : (0x20 : UInt8) ∉ method := by
    intro hMem
    have hOws := (mem_of_validateHeaderName hMethod hMem).2.1
    revert hOws
    decide
  have hMethodLine : isLine method = true := isLine_iff.mpr
    ⟨fun hMem => (mem_of_validateHeaderName hMethod hMem).2.2.1 rfl, fun hMem =>
      (mem_of_validateHeaderName hMethod hMem).2.2.2.1 rfl⟩
  have hVersion : (0x20 : UInt8) ∉ utf8 "HTTP/1.1" ∧ isLine (utf8 "HTTP/1.1") = true := by decide
  have hLine := isLine_startLine.mpr ⟨hMethodLine, hTarget.2, hVersion.2⟩
  have hFields : ∀ pair ∈ (writtenFields lib uri headers auth proxyHeaders body).map (fun field => (field.name, field.value)),
      validateHeaderName pair.1 = true ∧ isLine pair.2 = true := by
    intro pair hMem
    obtain ⟨field, hField, rfl⟩ := List.mem_map.mp hMem
    exact written_valid hLib field hField
  have hParsed := parseRequestHead_eq hSpace hTarget.1 hVersion.1 hLine hFields rest
  have hStart : requestLine method uri .http11 = startLine method uri (utf8 "HTTP/1.1") := by
    have hBlank : utf8 " " = [0x20] := by decide
    simp [requestLine, startLine, versionStr, hBlank]
  have hText : (writtenFields lib uri headers auth proxyHeaders body).flatMap fieldLine =
      (((writtenFields lib uri headers auth proxyHeaders body).map fun field => (field.name, field.value)).map
        fieldText).flatMap (· ++ crlf) := by
    have hColon : utf8 ": " = [colon, 0x20] := by decide
    rw [List.map_map, List.flatMap_map]
    congr 1
    funext field
    simp [fieldLine, fieldText, hColon]
  rw [List.map_map] at hParsed
  rw [hStart, hText, List.append_assoc, List.append_assoc]
  rw [List.map_map] at *
  exact hParsed

/-- What `apply_content_length` has done when it succeeds. -/
theorem applyContentLength_cases (h : applyContentLength headers body = .ok sent) :
    (∃ n, body.declaredLength = some n ∧ headers.values contentLength = [] ∧ sent = headers.addLength n) ∨
    (∃ n value more, body.declaredLength = some n ∧ headers.values contentLength = value :: more ∧
      parseUnsigned u64Max value = some n ∧ sent = headers) ∨
    (body.declaredLength = none ∧ headers.values contentLength = [] ∧ sent = headers) := by
  have hNone (hSupplied : suppliedLength headers = .ok none) : headers.values contentLength = [] := by
    cases hGet : headers.get contentLength with
    | none =>
      rw [get_eq_head?] at hGet
      exact List.head?_eq_none_iff.mp hGet
    | some value =>
      rw [suppliedLength, hGet] at hSupplied
      dsimp only at hSupplied
      split_ifs at hSupplied
      split at hSupplied
      · cases hSupplied
      · cases hSupplied
  have hSome (n : Nat) (hSupplied : suppliedLength headers = .ok (some n)) :
      ∃ value more, headers.values contentLength = value :: more ∧ parseUnsigned u64Max value = some n := by
    cases hGet : headers.get contentLength with
    | none =>
      rw [suppliedLength, hGet] at hSupplied
      cases hSupplied
    | some value =>
      rw [suppliedLength, hGet] at hSupplied
      rw [get_eq_head?] at hGet
      obtain ⟨more, hValues⟩ := List.head?_eq_some_iff.mp hGet
      refine ⟨value, more, hValues, ?_⟩
      dsimp only at hSupplied
      split_ifs at hSupplied
      cases hParse : parseUnsigned u64Max value with
      | none =>
        rw [parseU64, hParse] at hSupplied
        cases hSupplied
      | some m =>
        rw [parseU64, hParse] at hSupplied
        cases hSupplied
        rfl
  have hKnown (known : Option Nat) (hLength : knownLength body = .ok known) : body.declaredLength = known := by
    unfold knownLength at hLength
    cases hDeclared : body.declaredLength with
    | none =>
      rw [hDeclared] at hLength
      cases hLength
      rfl
    | some n =>
      rw [hDeclared] at hLength
      dsimp only at hLength
      split_ifs at hLength
      cases hLength
      rfl
  unfold applyContentLength at h
  split at h
  · cases h
  · cases h
  · rename_i known supplied hLength hSupplied
    split_ifs at h with hSame
    cases h
    obtain ⟨value, more, hValues, hParse⟩ := hSome supplied hSupplied
    rw [not_not.mp hSame] at hParse
    exact .inr (.inl ⟨known, value, more, hKnown _ hLength, hValues, hParse, rfl⟩)
  · rename_i known hLength hSupplied
    cases h
    exact .inl ⟨known, hKnown _ hLength, hNone hSupplied, rfl⟩
  · cases h
  · rename_i hLength hSupplied
    cases h
    exact .inr (.inr ⟨hKnown _ hLength, hNone hSupplied, rfl⟩)

theorem isChunked_iff : body.isChunked = true ↔ body.declaredLength = none := by
  cases body with
  | empty => simp [RequestBody.isChunked, RequestBody.declaredLength]
  | bytes data => simp [RequestBody.isChunked, RequestBody.declaredLength]
  | stream length chunks => cases length <;> simp [RequestBody.isChunked, RequestBody.declaredLength]

variable {pairs : List (Str × Str)}

theorem requestFraming_length {n : Nat} (h : fieldValues (utf8 "content-length") pairs ≠ []) :
    requestFraming pairs = some (.length n) ↔ fieldValues (utf8 "transfer-encoding") pairs = [] ∧
      ∃ value, fieldValues (utf8 "content-length") pairs = [value] ∧ value ≠ [] ∧ value.all isDigit = true ∧
        decimal value = n := by
  unfold requestFraming
  generalize fieldValues (utf8 "content-length") pairs = lengths at h
  generalize fieldValues (utf8 "transfer-encoding") pairs = codings
  cases codings with
  | nil =>
    cases lengths with
    | nil => exact absurd rfl h
    | cons value more =>
      cases more with
      | nil =>
        dsimp only
        split_ifs with hDigits
        · simp only [Bool.and_eq_true, Bool.not_eq_true', List.isEmpty_eq_false_iff] at hDigits
          constructor
          · intro hSame
            cases hSame
            exact ⟨rfl, value, rfl, hDigits.1, hDigits.2, rfl⟩
          · rintro ⟨-, value', hValue, -, -, rfl⟩
            cases hValue
            rfl
        · refine iff_of_false (by simp) ?_
          rintro ⟨-, value', hValue, hNe, hAll, -⟩
          cases hValue
          exact hDigits (by simp [hNe, hAll])
      | cons second more => simp
  | cons coding codings =>
    cases lengths with
    | nil => exact absurd rfl h
    | cons value more => simp

theorem requestFraming_chunked :
    requestFraming pairs = some .chunked ↔ fieldValues (utf8 "content-length") pairs = [] ∧
      ∃ coding, fieldValues (utf8 "transfer-encoding") pairs = [coding] ∧
        eqIgnoreAsciiCase coding (utf8 "chunked") = true := by
  unfold requestFraming
  generalize fieldValues (utf8 "content-length") pairs = lengths
  generalize fieldValues (utf8 "transfer-encoding") pairs = codings
  cases lengths with
  | nil =>
    cases codings with
    | nil => simp
    | cons coding more =>
      cases more with
      | nil => simp
      | cons second more => simp
  | cons value more =>
    cases codings with
    | nil =>
      cases more with
      | nil => simp
      | cons second more => simp
    | cons coding codings => simp

theorem writeProxyBody_known {bytes : Str} {n : Nat} (h : writeProxyBody body body.isChunked = .ok bytes)
    (hDeclared : body.declaredLength = some n) : bytes = body.payload := by
  have hPlain : body.isChunked = false := by
    by_contra hChunked
    rw [isChunked_iff.mp (by simpa using hChunked)] at hDeclared
    cases hDeclared
  rw [hPlain] at h
  cases body with
  | empty =>
    cases h
    rfl
  | bytes data =>
    cases h
    rfl
  | stream length chunks => exact writeChunks_plain h

theorem writeProxyBody_unknown {bytes : Str} (h : writeProxyBody body body.isChunked = .ok bytes)
    (hDeclared : body.declaredLength = none) : takeBody .chunked bytes = some (body.payload, []) := by
  rw [isChunked_iff.mpr hDeclared] at h
  cases body with
  | empty => cases hDeclared
  | bytes data => cases hDeclared
  | stream length chunks =>
    obtain ⟨written, rfl, hData⟩ := writeChunks_chunked h
    have hTaken := takeChunked_chunks written []
    rw [List.append_nil, hData] at hTaken
    exact hTaken

theorem trimOws_parsed {value : Str} {max n : Nat} (h : parseUnsigned max value = some n) : trimOws value = value := by
  refine trimOws_of_no_ows fun b hMem => ?_
  rcases parseUnsigned_bytes h b hMem with rfl | hDigit
  · decide
  · by_contra hOws
    simp only [isOws, Bool.not_eq_false, Bool.or_eq_true, beq_iff_eq] at hOws
    rcases hOws with rfl | rfl
    · cases hDigit
    · cases hDigit

theorem trimOws_chunked {value : Str} (h : eqIgnoreAsciiCase value (utf8 "chunked") = true) : trimOws value = value := by
  have hLower : toAsciiLowercase value = toAsciiLowercase (utf8 "chunked") := of_decide_eq_true h
  have hNone : ∀ b ∈ toAsciiLowercase (utf8 "chunked"), b ≠ 0x20 ∧ b ≠ 0x09 := by decide +kernel
  refine trimOws_of_no_ows fun b hMem => ?_
  have hNe := hNone (asciiLower b) (hLower ▸ List.mem_map_of_mem hMem)
  by_contra hOws
  simp only [isOws, Bool.not_eq_false, Bool.or_eq_true, beq_iff_eq] at hOws
  rcases hOws with rfl | rfl
  · exact hNe.1 rfl
  · exact hNe.2 rfl

/-- The values of the parsed head under the two names that frame it. -/
theorem fieldValues_contentLength :
    fieldValues (utf8 "content-length") ((writtenFields lib uri sent auth proxyHeaders body).map Field.parsed) =
      (writtenValues sent proxyHeaders contentLength).map trimOws := by
  have hValues : fieldValues contentLength ((writtenFields lib uri sent auth proxyHeaders body).map Field.parsed) = _ :=
    fieldValues_written plain_contentLength
  have hFraming : (framingFields body sent proxyHeaders).filter
      (fun field => eqIgnoreAsciiCase field.name contentLength) = [] := by
    unfold framingFields
    split_ifs
    · decide
    · rfl
  rw [hFraming, List.map_nil, List.append_nil] at hValues
  exact hValues

theorem fieldValues_transferEncoding :
    fieldValues (utf8 "transfer-encoding") ((writtenFields lib uri sent auth proxyHeaders body).map Field.parsed) =
      (writtenValues sent proxyHeaders transferEncoding).map trimOws ++
        if body.isChunked && !sent.contains transferEncoding && !proxyHeaders.contains transferEncoding then
          [utf8 "chunked"] else [] := by
  have hValues : fieldValues transferEncoding ((writtenFields lib uri sent auth proxyHeaders body).map Field.parsed) = _ :=
    fieldValues_written plain_transferEncoding
  have hFraming : ((framingFields body sent proxyHeaders).filter
      (fun field => eqIgnoreAsciiCase field.name transferEncoding)).map (fun field => trimOws field.value) =
        if body.isChunked && !sent.contains transferEncoding && !proxyHeaders.contains transferEncoding then
          [utf8 "chunked"] else [] := by
    unfold framingFields
    split_ifs
    · decide
    · rfl
  rw [List.map_append, List.map_map] at hValues
  rw [← hFraming]
  exact hValues

private theorem single_length {value : Str} {more : List Str} {max n m : Nat} (hParse : parseUnsigned max value = some n) :
    (∃ single, (value :: more).map trimOws = [single] ∧ single ≠ [] ∧ single.all isDigit = true ∧ decimal single = m) ↔
      m = n ∧ more = [] ∧ value.all isDigit = true := by
  have hNe : value ≠ [] := by
    rintro rfl
    cases hParse
  have hDecimal (hDigits : value.all isDigit = true) : decimal value = n := by
    rw [parseUnsigned_digits max hNe hDigits] at hParse
    split_ifs at hParse
    exact Option.some.inj hParse
  rw [List.map_cons, trimOws_parsed hParse]
  constructor
  · rintro ⟨single, hSingle, -, hDigits, rfl⟩
    obtain ⟨rfl, hMore⟩ := List.cons.inj hSingle
    exact ⟨hDecimal hDigits, List.map_eq_nil_iff.mp hMore, hDigits⟩
  · rintro ⟨rfl, rfl, hDigits⟩
    exact ⟨value, rfl, hNe, hDigits, hDecimal hDigits⟩

theorem parseUnsigned_decimalBytes (n : Nat) : parseUnsigned n (decimalBytes n) = some n := by
  rw [parseUnsigned_digits n (decimalBytes_ne_nil n) (decimalBytes_digits n), decimal_decimalBytes, if_pos (Nat.le_refl n)]

theorem values_addLength (headers : HeaderMap) (n : Nat) :
    (headers.addLength n).values contentLength = headers.values contentLength ++ [decimalBytes n] ∧
      (headers.addLength n).values transferEncoding = headers.values transferEncoding := by
  have hNe : (contentLength == transferEncoding) = false := by decide
  constructor
  · simp [HeaderMap.values, HeaderMap.addLength]
  · simp [HeaderMap.values, HeaderMap.addLength, hNe]

private theorem writtenValues_addLength (headers proxyHeaders : HeaderMap) (n : Nat) :
    writtenValues (headers.addLength n) proxyHeaders transferEncoding = writtenValues headers proxyHeaders transferEncoding := by
  have hContains : (headers.addLength n).contains transferEncoding = headers.contains transferEncoding := by
    rw [Bool.eq_iff_iff, contains_iff_values, contains_iff_values, (values_addLength headers n).2]
  rw [writtenValues, writtenValues, hContains, (values_addLength headers n).2]

private theorem writtenValues_contained (h : headers.values name ≠ []) :
    writtenValues headers proxyHeaders name = headers.values name := by
  rw [writtenValues, if_pos (contains_iff_values.mpr h), List.append_nil]

private theorem writtenValues_eq_nil :
    writtenValues headers proxyHeaders name = [] ↔ (!headers.contains name && !proxyHeaders.contains name) = true := by
  have hEmpty (map : HeaderMap) : map.contains name = false ↔ map.values name = [] := by
    rw [← Bool.not_eq_true, contains_iff_values, not_not]
  rw [Bool.and_eq_true, Bool.not_eq_true', Bool.not_eq_true', hEmpty, hEmpty, writtenValues]
  by_cases hContains : headers.contains name = true
  · have hSome := contains_iff_values.mp hContains
    simp [hSome]
  · simp [hContains]

/-- With a known length the one framing is that length, if it is written once and nothing else is. -/
theorem requestFraming_known {n m : Nat} (h : applyContentLength headers body = .ok sent)
    (hDeclared : body.declaredLength = some n) :
    requestFraming ((writtenFields lib uri sent auth proxyHeaders body).map Field.parsed) = some (.length m) ↔
      m = n ∧ writtenValues headers proxyHeaders transferEncoding = [] ∧ (headers.values contentLength).length ≤ 1 ∧
        ∀ value ∈ headers.values contentLength, value.all isDigit = true := by
  have hPlain : body.isChunked = false := by
    by_contra hChunked
    rw [isChunked_iff.mp (by simpa using hChunked)] at hDeclared
    cases hDeclared
  rcases applyContentLength_cases h with ⟨n', hSame, hNone, rfl⟩ | ⟨n', value, more, hSame, hValues, hParse, rfl⟩ | ⟨hSame, -⟩
  · cases hDeclared.symm.trans hSame
    have hValues : (headers.addLength n).values contentLength = [decimalBytes n] := by
      rw [(values_addLength headers n).1, hNone, List.nil_append]
    have hWritten : writtenValues (headers.addLength n) proxyHeaders contentLength = [decimalBytes n] := by
      rw [writtenValues_contained (by rw [hValues]; exact List.cons_ne_nil _ _), hValues]
    rw [requestFraming_length (by rw [fieldValues_contentLength, hWritten]; exact List.cons_ne_nil _ _),
      fieldValues_contentLength, fieldValues_transferEncoding, hWritten, writtenValues_addLength, hPlain,
      single_length (parseUnsigned_decimalBytes n)]
    have hDigits := decimalBytes_digits n
    simp only [hNone, hDigits, Bool.false_and, Bool.false_eq_true, if_false, List.append_nil, List.map_eq_nil_iff,
      List.length_nil, Nat.zero_le, List.not_mem_nil, false_imp_iff, implies_true, and_true]
    exact and_comm
  · cases hDeclared.symm.trans hSame
    have hWritten : writtenValues sent proxyHeaders contentLength = value :: more := by
      rw [writtenValues_contained (by rw [hValues]; exact List.cons_ne_nil _ _), hValues]
    rw [requestFraming_length (by rw [fieldValues_contentLength, hWritten]; exact List.cons_ne_nil _ _),
      fieldValues_contentLength, fieldValues_transferEncoding, hWritten, hPlain, single_length hParse, hValues]
    have hLength : (value :: more).length ≤ 1 ↔ more = [] := by simp
    rw [hLength]
    simp only [Bool.false_and, Bool.false_eq_true, if_false, List.append_nil, List.map_eq_nil_iff]
    constructor
    · rintro ⟨hCodings, hSize, rfl, hDigits⟩
      exact ⟨hSize, hCodings, rfl, fun single hMem => List.mem_singleton.mp hMem ▸ hDigits⟩
    · rintro ⟨hSize, hCodings, rfl, hDigits⟩
      exact ⟨hCodings, hSize, rfl, hDigits value List.mem_cons_self⟩
  · cases hDeclared.symm.trans hSame

private theorem requestFraming_unknown (h : applyContentLength headers body = .ok sent) (hDeclared : body.declaredLength = none)
    (hCoding : ∀ value ∈ (sent.get transferEncoding).or (proxyHeaders.get transferEncoding),
      eqIgnoreAsciiCase value (utf8 "chunked") = true) :
    requestFraming ((writtenFields lib uri sent auth proxyHeaders body).map Field.parsed) = some .chunked ↔
      proxyHeaders.values contentLength = [] ∧ (writtenValues headers proxyHeaders transferEncoding).length ≤ 1 := by
  rcases applyContentLength_cases h with ⟨n, hSame, -⟩ | ⟨n, value, more, hSame, -⟩ | ⟨-, hNone, rfl⟩
  · cases hDeclared.symm.trans hSame
  · cases hDeclared.symm.trans hSame
  have hAbsent : sent.contains contentLength = false := by
    by_contra hContains
    exact contains_iff_values.mp (by simpa using hContains) hNone
  have hLengths : writtenValues sent proxyHeaders contentLength = proxyHeaders.values contentLength := by
    rw [writtenValues, hNone, hAbsent]
    rfl
  rw [get_or_get] at hCoding
  rw [requestFraming_chunked, fieldValues_contentLength, fieldValues_transferEncoding, hLengths, isChunked_iff.mpr hDeclared,
    List.map_eq_nil_iff]
  refine and_congr_right fun _ => ?_
  cases hWritten : writtenValues sent proxyHeaders transferEncoding with
  | nil =>
    have hNeither := writtenValues_eq_nil.mp hWritten
    rw [Bool.true_and, hNeither]
    exact iff_of_true ⟨_, rfl, by decide⟩ (Nat.zero_le _)
  | cons value more =>
    have hValue : eqIgnoreAsciiCase value (utf8 "chunked") = true := hCoding value (by rw [hWritten]; rfl)
    have hEither : (!sent.contains transferEncoding && !proxyHeaders.contains transferEncoding) = false := by
      by_contra hNeither
      rw [writtenValues_eq_nil.mpr (by simpa using hNeither)] at hWritten
      cases hWritten
    have hSingle : (value :: more).length ≤ 1 ↔ more = [] := by simp
    rw [Bool.true_and, hEither, List.map_cons, trimOws_chunked hValue, hSingle]
    constructor
    · rintro ⟨coding, hCodings, -⟩
      exact List.map_eq_nil_iff.mp (List.append_eq_nil_iff.mp (List.cons.inj hCodings).2).1
    · rintro rfl
      exact ⟨value, rfl, hValue⟩

private theorem parseRequest_eq_some {data rest : Str} {message : RequestMessage} :
    parseRequest data = some (message, rest) ↔ ∃ after, parseRequestHead data = some (message.head, after) ∧
      requestFraming message.head.fields = some message.framing ∧ takeBody message.framing after = some (message.body, rest) := by
  unfold parseRequest
  simp only [Option.bind_eq_bind, Option.bind_eq_some_iff, Option.some.injEq, Prod.exists, Prod.mk.injEq]
  constructor
  · rintro ⟨head, after, hHead, framing, hFraming, taken, left, hTaken, rfl, rfl⟩
    exact ⟨after, hHead, hFraming, hTaken⟩
  · rintro ⟨after, hHead, hFraming, hTaken⟩
    exact ⟨_, after, hHead, _, hFraming, _, _, hTaken, rfl, rfl⟩

private theorem writeProxyRequest_parsed (hLib : lib.OneLine) (hMethod : validateHeaderName method = true)
    (h : writeProxyRequest lib method uri .http11 sent auth proxyHeaders body = .ok wire) :
    ∃ bytes, writeProxyBody body body.isChunked = .ok bytes ∧
      (body.isChunked = true → ∀ value ∈ (sent.get transferEncoding).or (proxyHeaders.get transferEncoding),
        eqIgnoreAsciiCase value (utf8 "chunked") = true) ∧
      (0x20 ∉ uri ∧ isLine uri = true → parseRequestHead wire =
        some (⟨method, uri, utf8 "HTTP/1.1", (writtenFields lib uri sent auth proxyHeaders body).map Field.parsed⟩, bytes)) := by
  obtain ⟨bytes, rfl, hBody, hCoding⟩ := writeProxyRequest_ok h
  exact ⟨bytes, hBody, hCoding, fun hTarget => parseRequestHead_written hLib hMethod hTarget bytes⟩

end

/-- A request that is written is parsed back if and only if it is framed once. -/
theorem parsesBack_iff {lib : Library} (hLib : lib.OneLine) {method uri : Str} {headers proxyHeaders : HeaderMap}
    {auth : Option ProxyAuth} {body : RequestBody} {wire : Str} (hMethod : validateHeaderName method = true)
    (h : sendPrepared lib method uri headers auth proxyHeaders body = .ok wire) :
    ParsesBack lib method uri headers auth proxyHeaders body wire ↔ FramedOnce uri headers proxyHeaders body := by
  obtain ⟨sent, hSent, hWire⟩ := sendPrepared_ok h
  obtain ⟨bytes, hBody, hCoding, hHead⟩ := writeProxyRequest_parsed hLib hMethod hWire
  constructor
  · rintro ⟨-, message, -, hParsed, -, rfl, -, -, hFraming, -⟩
    obtain ⟨after, hFound, hFramed, -⟩ := parseRequest_eq_some.mp hParsed
    have hTarget := parseRequestHead_target hFound
    rw [hHead hTarget] at hFound
    obtain ⟨hMessage, -⟩ := Prod.mk.inj (Option.some.inj hFound)
    rw [← hMessage, hFraming] at hFramed
    refine ⟨hTarget, fun n hDeclared => ?_, fun hDeclared => ?_⟩
    · rw [hDeclared, Option.isSome_some, if_pos rfl] at hFramed
      exact (requestFraming_known hSent hDeclared).mp hFramed
    · rw [hDeclared, Option.isSome_none, if_neg Bool.false_ne_true] at hFramed
      exact (requestFraming_unknown hSent hDeclared (hCoding (isChunked_iff.mpr hDeclared))).mp hFramed
  · intro hOnce
    have hFound := hHead hOnce.target
    cases hDeclared : body.declaredLength with
    | none =>
      have hFramed : requestFraming ((writtenFields lib uri sent auth proxyHeaders body).map Field.parsed) = some .chunked :=
        (requestFraming_unknown hSent hDeclared (hCoding (isChunked_iff.mpr hDeclared))).mpr (hOnce.unknown hDeclared)
      have hTaken := writeProxyBody_unknown hBody hDeclared
      exact ⟨sent, ⟨_, .chunked, body.payload⟩, hSent, parseRequest_eq_some.mpr ⟨bytes, hFound, hFramed, hTaken⟩, rfl, rfl,
        rfl, rfl, by rw [hDeclared]; rfl, rfl⟩
    | some n =>
      have hFramed : requestFraming ((writtenFields lib uri sent auth proxyHeaders body).map Field.parsed) =
          some (.length body.payload.length) := (requestFraming_known hSent hDeclared).mpr (hOnce.known n hDeclared)
      have hTaken : takeBody (.length body.payload.length) bytes = some (body.payload, []) := by
        rw [writeProxyBody_known hBody hDeclared, takeBody, if_pos (Nat.le_refl _), List.take_length, List.drop_length]
      exact ⟨sent, ⟨_, .length body.payload.length, body.payload⟩, hSent,
        parseRequest_eq_some.mpr ⟨bytes, hFound, hFramed, hTaken⟩, rfl, rfl, rfl, rfl, by rw [hDeclared]; rfl, rfl⟩

def uploadHeaders : HeaderMap := ⟨[⟨host, utf8 "example.com"⟩], by decide, by decide⟩

/-- The libraries as far as the uploads use them: `/upload` is no URL. -/
def uploadLibrary : Library where
  parseUrl _ := none
  asStr _ := []
  parseUri _ := .error []
  base64 := Base64.encodeBytes
  hyperAdds _ := []

private theorem symbol_isLine : ∀ n : Fin 64, UInt8.ofNat (Base64.symbol n).toNat ∉ [cr, lf] := by decide

private theorem uploadLibrary_oneLine : uploadLibrary.OneLine where
  host _ _ h := by cases h
  base64 s := by
    have hEach : ∀ b ∈ Base64.encodeBytes s, b ∉ [cr, lf] :=
      List.forall_mem_map.mpr (Base64.forall_mem_encode symbol_isLine (by decide) s)
    have hNone {b : UInt8} (hb : b ∈ [cr, lf]) : (Base64.encodeBytes s).contains b = false :=
      Bool.eq_false_iff.mpr fun hMem => hEach b (List.contains_iff_mem.mp hMem) hb
    show isLine (Base64.encodeBytes s) = true
    rw [isLine, hNone (by decide), hNone (by decide)]
    rfl

theorem ok_of_toOption {ε α : Type} {result : Except ε α} {a : α} (h : result.toOption = some a) : result = .ok a := by
  cases result with
  | error e => cases h
  | ok b => rw [Option.some.inj h]

set_option maxRecDepth 20000 in
/-- A stream of unknown length with an empty chunk in it. -/
theorem parsesBack_chunks :
    ParsesBack uploadLibrary (utf8 "POST") (utf8 "/upload") uploadHeaders none HeaderMap.empty
      (.stream none [.ok (utf8 "ab"), .ok []])
      (utf8 "POST /upload HTTP/1.1\r\nhost: example.com\r\nTransfer-Encoding: chunked\r\n\r\n2\r\nab\r\n0\r\n\r\n") := by
  refine (parsesBack_iff uploadLibrary_oneLine (by decide) (ok_of_toOption (by decide))).mpr ⟨by decide, ?_, fun _ => by decide⟩
  intro n hDeclared
  cases hDeclared

set_option maxRecDepth 20000 in
/-- What a stream holds beyond its declared length is parsed as another request. -/
theorem not_parsesBack_overlong : ∃ wire,
    sendPrepared uploadLibrary (utf8 "POST") (utf8 "/upload") uploadHeaders none HeaderMap.empty
      (.stream (some 2) [.ok (utf8 "ab"), .ok (utf8 "GET / HTTP/1.1\r\n\r\n")]) = .ok wire ∧
    ¬ ParsesBack uploadLibrary (utf8 "POST") (utf8 "/upload") uploadHeaders none HeaderMap.empty
      (.stream (some 2) [.ok (utf8 "ab"), .ok (utf8 "GET / HTTP/1.1\r\n\r\n")]) wire := by
  refine ⟨utf8 "POST /upload HTTP/1.1\r\nhost: example.com\r\ncontent-length: 2\r\n\r\nabGET / HTTP/1.1\r\n\r\n",
    ok_of_toOption (by decide), ?_⟩
  rintro ⟨-, message, -, hParsed, -⟩
  have hSecond : (parseRequest
      (utf8 "POST /upload HTTP/1.1\r\nhost: example.com\r\ncontent-length: 2\r\n\r\nabGET / HTTP/1.1\r\n\r\n")).map Prod.snd =
        some (utf8 "GET / HTTP/1.1\r\n\r\n") := by decide
  rw [hParsed] at hSecond
  have hRest : [] = utf8 "GET / HTTP/1.1\r\n\r\n" := Option.some.inj hSecond
  revert hRest
  decide

end Eggfetch.Proxy
