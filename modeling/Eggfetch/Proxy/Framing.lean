import Eggfetch.Proxy.RequestHead
import Eggfetch.Proxy.Wire

/-! A request that the client writes itself, against one that a recipient parses: the head, one
framing, and the body that the framing delimits. -/
namespace Eggfetch.Proxy
open Text Http
open Pipeline (Version)

/-- Follows the chunked coding to its end; what comes after it is left. -/
def takeChunked (state : ChunkState) (data : Str) : Option (Str × Str) :=
  if state = .done then some ([], data)
  else
    match data with
    | [] => none
    | b :: rest => (takeChunked (state.next b) rest).map fun taken => (state.emits b ++ taken.1, taken.2)

def fieldValues (name : Str) (fields : List (Str × Str)) : List Str :=
  (fields.filter fun field => eqIgnoreAsciiCase field.1 name).map Prod.snd

/-- Section 6.3, for a request. One that is framed twice, or by something else than chunks or a
length, is not taken. -/
def requestFraming (fields : List (Str × Str)) : Option Framing :=
  match fieldValues (utf8 "transfer-encoding") fields, fieldValues (utf8 "content-length") fields with
  | [], [] => some (.length 0)
  | [], [value] => if !value.isEmpty && value.all isDigit then some (.length (decimal value)) else none
  | [coding], [] => if eqIgnoreAsciiCase coding (utf8 "chunked") then some .chunked else none
  | _, _ => none

def takeBody (framing : Framing) (data : Str) : Option (Str × Str) :=
  match framing with
  | .length n => if n ≤ data.length then some (data.take n, data.drop n) else none
  | .chunked => takeChunked (.size false 0) data
  | .close => none

structure RequestMessage where
  head : RequestHead
  framing : Framing
  body : Str

def parseRequest (data : Str) : Option (RequestMessage × Str) := do
  let (head, rest) ← parseRequestHead data
  let framing ← requestFraming head.fields
  let (body, rest) ← takeBody framing rest
  some (⟨head, framing, body⟩, rest)

section
variable {state state' : ChunkState} {data out rest : Str}

theorem takeChunked_done (data : Str) : takeChunked .done data = some ([], data) := by
  rw [takeChunked.eq_def, if_pos rfl]

theorem takeChunked_append (h : chunkDecoder.scan state data = (out, state')) (hState : state' ≠ .done) (rest : Str) :
    takeChunked state (data ++ rest) = (takeChunked state' rest).map fun taken => (out ++ taken.1, taken.2) := by
  induction data generalizing state out with
  | nil =>
    cases h
    simp
  | cons b data ih =>
    rw [Transducer.scan_cons] at h
    cases hScan : chunkDecoder.scan (chunkDecoder.step state b).2 data with
    | mk out' last =>
      rw [hScan] at h
      cases h
      have hLive : state ≠ .done := by
        rintro rfl
        have hStay : ∀ data : Str, (chunkDecoder.scan .done data).2 = .done := by
          intro data
          induction data with
          | nil => rfl
          | cons b data ih => exact ih
        exact hState ((congrArg Prod.snd hScan).symm.trans (hStay data))
      rw [List.cons_append, takeChunked, if_neg hLive]
      have hRest : takeChunked (state.next b) (data ++ rest) =
          (takeChunked last rest).map fun taken => (out' ++ taken.1, taken.2) := ih hScan
      dsimp only
      rw [hRest]
      cases takeChunked last rest with
      | none => rfl
      | some taken => simp [chunkDecoder]

end

/-- The hexadecimal digits of a number, the last one apart. -/
theorem upperHex_step (n : Nat) :
    upperHex n = (if n < 16 then [] else upperHex (n / 16)) ++ [UInt8.ofNat (n % 16).digitChar.toUpper.toNat] := by
  have hDigit (d : Nat) (hd : d < 16) :
      String.utf8EncodeChar d.digitChar.toUpper = [UInt8.ofNat d.digitChar.toUpper.toNat] := by
    have hAscii : ∀ d < 16, d.digitChar.toUpper.toNat < 0x80 := by decide
    exact utf8EncodeChar_ascii (hAscii d hd)
  unfold upperHex
  rw [Nat.toDigits_eq_if (by decide)]
  split_ifs with hSmall
  · rw [utf8_ofList, List.map_singleton, List.flatMap_singleton, hDigit n hSmall, Nat.mod_eq_of_lt hSmall, List.nil_append]
  · rw [utf8_ofList, List.map_append, List.flatMap_append, ← utf8_ofList, List.map_singleton, List.flatMap_singleton,
      hDigit _ (Nat.mod_lt n (by decide))]

theorem hexDigit?_upper : ∀ d < 16, hexDigit? (UInt8.ofNat d.digitChar.toUpper.toNat) = some d := by decide

private theorem upperHex_hex (n : Nat) : ∀ b ∈ upperHex n, (hexDigit? b).isSome := by
  induction n using Nat.strongRecOn with
  | _ n ih =>
    intro b hb
    rw [upperHex_step] at hb
    rcases List.mem_append.mp hb with hMore | hLast
    · split_ifs at hMore with hSmall
      · cases hMore
      · exact ih (n / 16) (Nat.div_lt_self (by omega) (by decide)) b hMore
    · rw [List.mem_singleton.mp hLast, hexDigit?_upper _ (Nat.mod_lt n (by decide))]
      rfl

private theorem upperHex_value (n : Nat) : (upperHex n).foldl (fun n b => 16 * n + (hexDigit? b).getD 0) 0 = n := by
  induction n using Nat.strongRecOn with
  | _ n ih =>
    rw [upperHex_step, List.foldl_append, List.foldl_cons, List.foldl_nil, hexDigit?_upper _ (Nat.mod_lt n (by decide)),
      Option.getD_some]
    split_ifs with hSmall
    · simpa using Nat.mod_eq_of_lt hSmall
    · rw [ih (n / 16) (Nat.div_lt_self (by omega) (by decide))]
      omega

/-- A chunk as `write_proxy_body` writes it. -/
def writtenChunk (data : Str) (h : data ≠ []) : Chunk where
  size := upperHex data.length
  extension := []
  data := data
  size_hex := upperHex_hex data.length
  size_eq := upperHex_value data.length
  data_nonempty := h
  extension_start := by simp
  extension_clean := by simp

def chunkData (chunks : List (Except Str Str)) : Str := chunks.flatMap fun chunk => chunk.toOption.getD []

theorem writeChunks_plain {chunks : List (Except Str Str)} {out : Str} (h : writeChunks false chunks = .ok out) :
    out = chunkData chunks := by
  induction chunks generalizing out with
  | nil =>
    cases h
    rfl
  | cons chunk chunks ih =>
    cases chunk with
    | error e => cases h
    | ok data =>
      cases hRest : writeChunks false chunks with
      | error e =>
        rw [writeChunks, hRest] at h
        cases h
      | ok rest =>
        rw [writeChunks, hRest] at h
        cases h
        rw [ih hRest]
        rfl

/-- The chunks that are written hold the data, none of them is empty, and a last one follows. -/
theorem writeChunks_chunked {chunks : List (Except Str Str)} {out : Str} (h : writeChunks true chunks = .ok out) :
    ∃ written : List Chunk, out = written.flatMap Chunk.text ++ utf8 "0\r\n\r\n" ∧
      written.flatMap Chunk.data = chunkData chunks := by
  induction chunks generalizing out with
  | nil =>
    cases h
    exact ⟨[], rfl, rfl⟩
  | cons chunk chunks ih =>
    cases chunk with
    | error e => cases h
    | ok data =>
      rw [writeChunks, if_pos rfl] at h
      split_ifs at h with hEmpty
      · obtain ⟨written, hOut, hData⟩ := ih h
        refine ⟨written, hOut, ?_⟩
        rw [hData, List.isEmpty_iff.mp hEmpty]
        rfl
      · cases hRest : writeChunks true chunks with
        | error e =>
          rw [hRest] at h
          cases h
        | ok rest =>
          rw [hRest] at h
          cases h
          obtain ⟨written, rfl, hData⟩ := ih hRest
          refine ⟨writtenChunk data (fun hNil => hEmpty (List.isEmpty_iff.mpr hNil)) :: written, ?_, ?_⟩
          · simp [Chunk.text, writtenChunk]
          · rw [List.flatMap_cons, hData]
            rfl

theorem takeChunked_chunks (chunks : List Chunk) (rest : Str) :
    takeChunked (.size false 0) (chunks.flatMap Chunk.text ++ utf8 "0\r\n\r\n" ++ rest) =
      some (chunks.flatMap Chunk.data, rest) := by
  have hScan : ∀ chunks : List Chunk, chunkDecoder.scan (.size false 0) (chunks.flatMap Chunk.text) =
      (chunks.flatMap Chunk.data, .size false 0) := by
    intro chunks
    induction chunks with
    | nil => rfl
    | cons chunk chunks ih => exact chunkDecoder.scan_then (scan_chunk chunk) ih
  have hLast : takeChunked (.size false 0) (utf8 "0\r\n\r\n" ++ rest) = some ([], rest) := by
    have hText : utf8 "0\r\n\r\n" ++ rest = [0x30, cr, lf, cr] ++ lf :: rest := by
      have hBytes : utf8 "0\r\n\r\n" = [0x30, cr, lf, cr, lf] := by decide
      rw [hBytes]
      rfl
    have hSize : chunkDecoder.scan (.size false 0) [0x30, cr, lf, cr] = ([], .lastLf) := by decide
    have hEnd : takeChunked .lastLf (lf :: rest) = some ([], rest) := by
      rw [takeChunked, if_neg (by decide)]
      exact congrArg (Option.map _) (takeChunked_done rest)
    rw [hText, takeChunked_append hSize (by decide), hEnd]
    rfl
  rw [List.append_assoc, takeChunked_append (hScan chunks) (by decide), hLast]
  simp

/-- The errors of `apply_content_length`, and those of the transport. -/
inductive SendError where
  | invalidHeaderValue (message : Str)
  | request (error : Error)

/-- The `Display` text of the error of `str::parse::<u64>`. -/
def parseIntError (n : Nat) : Str → Str
  | [] => utf8 "number too large to fit in target type"
  | b :: rest =>
    if !isDigit b then utf8 "invalid digit found in string"
    else if u64Max < 10 * n + (b.toNat - 0x30) then utf8 "number too large to fit in target type"
    else parseIntError (10 * n + (b.toNat - 0x30)) rest

def parseU64 (value : Str) : Except Str Nat :=
  match parseUnsigned u64Max value with
  | some n => .ok n
  | none =>
    .error (if value.isEmpty then utf8 "cannot parse integer from empty string"
      else if value = [0x2b] then utf8 "invalid digit found in string"
      else parseIntError 0 (if value.head? = some 0x2b then value.tail else value))

def contentLength : Str := utf8 "content-length"

def RequestBody.declaredLength : RequestBody → Option Nat
  | empty => some 0
  | bytes data => some data.length
  | stream length _ => length

def knownLength (body : RequestBody) : Except SendError (Option Nat) :=
  match body.declaredLength with
  | none => .ok none
  | some n =>
    if u64Max < n then .error (.request (.requestBuild (utf8 "request body length does not fit in u64"))) else .ok (some n)

def suppliedLength (headers : HeaderMap) : Except SendError (Option Nat) :=
  match headers.get contentLength with
  | none => .ok none
  | some value =>
    if !isVisibleAscii value then
      .error (.invalidHeaderValue (utf8 "invalid Content-Length: failed to convert header to a str"))
    else
      match parseU64 value with
      | .ok n => .ok (some n)
      | .error e => .error (.invalidHeaderValue (utf8 "invalid Content-Length: " ++ e))

def decimalBytes (n : Nat) : Str := utf8 (toString n)

theorem decimalBytes_step (n : Nat) :
    decimalBytes n = (if n < 10 then [] else decimalBytes (n / 10)) ++ [digit (n % 10)] := by
  have hDigit (d : Nat) (hd : d < 10) : String.utf8EncodeChar d.digitChar = [digit d] := by
    have hAscii : ∀ d < 10, d.digitChar.toNat < 0x80 ∧ UInt8.ofNat d.digitChar.toNat = digit d := by decide
    rw [utf8EncodeChar_ascii (hAscii d hd).1, (hAscii d hd).2]
  have hText (n : Nat) : decimalBytes n = (Nat.toDigits 10 n).flatMap String.utf8EncodeChar := by
    rw [decimalBytes, Nat.toString_eq_repr, utf8_toList, Nat.toList_repr]
  rw [hText, hText, Nat.toDigits_eq_if (by decide)]
  split_ifs with hSmall
  · rw [List.flatMap_singleton, hDigit n hSmall, Nat.mod_eq_of_lt hSmall, List.nil_append]
  · rw [List.flatMap_append, List.flatMap_singleton, hDigit _ (Nat.mod_lt n (by decide))]

theorem decimalBytes_ne_nil (n : Nat) : decimalBytes n ≠ [] := by
  rw [decimalBytes_step]
  exact List.append_ne_nil_of_right_ne_nil _ (List.cons_ne_nil _ _)

theorem decimalBytes_digits (n : Nat) : (decimalBytes n).all isDigit = true := by
  induction n using Nat.strongRecOn with
  | _ n ih =>
    have hLast := isDigit_digit (Nat.mod_lt n (by decide : 0 < 10))
    rw [decimalBytes_step, List.all_append]
    split_ifs with hSmall
    · simp [hLast]
    · simp [ih (n / 10) (Nat.div_lt_self (by omega) (by decide)), hLast]

theorem decimal_decimalBytes (n : Nat) : decimal (decimalBytes n) = n := by
  induction n using Nat.strongRecOn with
  | _ n ih =>
    have hLast := digit_toNat (Nat.mod_lt n (by decide : 0 < 10))
    rw [decimalBytes_step, decimal, List.foldl_append, List.foldl_cons, List.foldl_nil, hLast]
    split_ifs with hSmall
    · simp only [List.foldl_nil]
      omega
    · rw [← decimal, ih (n / 10) (Nat.div_lt_self (by omega) (by decide))]
      omega

theorem validateHeaderValue_decimalBytes (n : Nat) : validateHeaderValue (decimalBytes n) = true := by
  simp only [validateHeaderValue, Bool.not_eq_true', List.any_eq_false]
  intro b hMem
  have hDigit := List.all_eq_true.mp (decimalBytes_digits n) b hMem
  simp only [isDigit, Bool.and_eq_true, decide_eq_true_eq, UInt8.le_iff_toNat_le, UInt8.reduceToNat] at hDigit
  simp only [Bool.or_eq_true, Bool.and_eq_true, decide_eq_true_eq, beq_iff_eq, UInt8.lt_iff_toNat_lt, ← UInt8.toNat_inj,
    UInt8.reduceToNat]
  omega

/-- `insert` of a length where there is none. -/
def HeaderMap.addLength (headers : HeaderMap) (n : Nat) : HeaderMap where
  iter := headers.iter ++ [⟨contentLength, decimalBytes n⟩]
  names_valid := by
    intro field hMem
    rcases List.mem_append.mp hMem with hOld | hNew
    · exact headers.names_valid field hOld
    · rw [List.mem_singleton.mp hNew]
      exact (by decide : validateHeaderName contentLength = true ∧ toAsciiLowercase contentLength = contentLength)
  values_valid := by
    intro field hMem
    rcases List.mem_append.mp hMem with hOld | hNew
    · exact headers.values_valid field hOld
    · rw [List.mem_singleton.mp hNew]
      exact validateHeaderValue_decimalBytes n

def applyContentLength (headers : HeaderMap) (body : RequestBody) : Except SendError HeaderMap :=
  match knownLength body, suppliedLength headers with
  | .error e, _ => .error e
  | .ok _, .error e => .error e
  | .ok (some known), .ok (some supplied) =>
    if supplied ≠ known then
      .error (.request (.requestBuild (utf8 "Content-Length mismatch: user supplied " ++ decimalBytes supplied ++
        utf8 " but body is " ++ decimalBytes known)))
    else .ok headers
  | .ok (some known), .ok none => .ok (headers.addLength known)
  | .ok none, .ok (some _) =>
    .error (.request (.requestBuild (utf8 "Content-Length cannot be supplied for an unknown-length stream body")))
  | .ok none, .ok none => .ok headers

variable (lib : Library) in
/-- The headers get their length when the request is prepared; then the transport writes it. -/
def sendPrepared (method uri : Str) (headers : HeaderMap) (auth : Option ProxyAuth) (proxyHeaders : HeaderMap)
    (body : RequestBody) : Except SendError Str := do
  let headers ← applyContentLength headers body
  (writeProxyRequest lib method uri .http11 headers auth proxyHeaders body).mapError SendError.request

end Eggfetch.Proxy
