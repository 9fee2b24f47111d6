import Eggfetch.Polling.Source
import Eggfetch.Text.Bytes

/-! Response decoding: `compression.rs`, the body variants of `body.rs`, and how
`response_decode.rs` and `finalize.rs` wrap them. Decoders, `f64` ratios and the wire
are parameters; every codec is compiled in. -/
namespace Eggfetch.Compression
open Text Polling

/-- `usize::MAX` on a 64-bit target. -/
def usizeMax : Nat := 2 ^ 64 - 1

inductive Error where
  | decodedBodyTooLarge
  | decompressionRatioExceeded
  | decompression (message : Str)
  | unsupportedContentEncoding (token : Str)
  | body (message : Str)
  | transport (message : Str)
  deriving DecidableEq, Repr

def Error.isLimit (e : Error) : Prop := e = .decodedBodyTooLarge ∨ e = .decompressionRatioExceeded

/-- `check?;` before the rest of a function. -/
def requiring {α : Type*} (check : Except Error Unit) (rest : Except Error α) : Except Error α :=
  match check with
  | .ok _ => rest
  | .error e => .error e

/-- A configured `f64` ratio: whether it is finite and positive, the byte budget it
gives a body of some compressed length, and whether decoded over compressed exceeds it. -/
structure Ratio where
  valid : Bool
  budget : Nat → Nat
  exceeded : (decoded compressed : Nat) → Bool

structure DecompressionLimit where
  maxDecodedBodySize : Option Nat
  maxDecompressionRatio : Option Ratio

namespace DecompressionLimit

def isUnlimited (limit : DecompressionLimit) : Bool :=
  limit.maxDecodedBodySize.isNone && limit.maxDecompressionRatio.isNone

def invalidRatio : Error :=
  .decompression (utf8 "invalid max_decompression_ratio: must be finite and positive")

def validate (limit : DecompressionLimit) : Except Error Unit :=
  match limit.maxDecompressionRatio with
  | some ratio => if ratio.valid then .ok () else .error invalidRatio
  | none => .ok ()

end DecompressionLimit

def maxNestingDepth : Nat := 4

inductive ContentCoding where
  | gzip
  | deflate
  | brotli
  | zstd
  deriving DecidableEq, Repr

namespace ContentCoding

def fromWire (s : Str) : Option ContentCoding :=
  let token := toAsciiLowercase (trim s)
  if token = utf8 "gzip" ∨ token = utf8 "x-gzip" then some .gzip
  else if token = utf8 "deflate" then some .deflate
  else if token = utf8 "br" then some .brotli
  else if token = utf8 "zstd" then some .zstd else none

def isIdentity (token : Str) : Bool := eqIgnoreAsciiCase (trim token) (utf8 "identity")

end ContentCoding

def comma : UInt8 := 0x2c

def isNoop (token : Str) : Bool := token.isEmpty || ContentCoding.isIdentity token

def parseContentEncodings (header : Str) : Option (List ContentCoding) :=
  let encodings := (((header.splitOn comma).map trim).filter (!isNoop ·)).filterMap ContentCoding.fromWire
  if encodings.isEmpty then none else some encodings

def validateContentEncodings (header : Str) : Except Error Unit :=
  ((header.splitOn comma).map trim).forM fun token =>
    if isNoop token then .ok ()
    else match ContentCoding.fromWire token with
      | none => .error (.unsupportedContentEncoding token)
      | some _ => .ok ()

def nestingError (depth : Nat) : Error :=
  .decompression (utf8 "content encoding nesting depth " ++ utf8 (toString depth) ++
    utf8 " exceeds maximum " ++ utf8 (toString maxNestingDepth))

abbrev ByteSource := Source Error Str

/-- A decoder over a stream: its own polls, and where it has left that stream. -/
structure Decoded (input : ByteSource) where
  State : Type
  init : State
  poll : State → Option (Except Error Str) × State
  inner : State → input.State

def Decoded.source {input : ByteSource} (d : Decoded input) : ByteSource := ⟨d.State, d.init, d.poll⟩

/-- Framings of the buffered decoders. -/
inductive Framing where
  | gzip
  | zlib
  | rawDeflate
  | brotli
  | zstd

/-- The codec crates: streaming decoders, and what the successive reads of a buffered
decoder return (an empty read or the end of the list is the end of the output). -/
structure Codecs where
  decoder : ContentCoding → (input : ByteSource) → Decoded input
  reads : Framing → Str → List (Except Str Str)

def countingStream (inner : ByteSource) : ByteSource where
  State := inner.State × Nat
  init := (inner.init, 0)
  poll st :=
    match inner.poll st.1 with
    | (some (.ok chunk), st') => (some (.ok chunk), (st', min (st.2 + chunk.length) usizeMax))
    | (other, st') => (other, (st', st.2))

inductive LimitExceededKind where
  | size
  | ratio

def checkLimit (limit : DecompressionLimit) (decodedBytes compressed : Nat) : Option LimitExceededKind :=
  if limit.maxDecodedBodySize.any (· < decodedBytes) then some .size
  else match limit.maxDecompressionRatio with
    | none => none
    | some ratio =>
      if !ratio.valid then some .ratio
      else if compressed = 0 then if 0 < decodedBytes then some .ratio else none
      else if ratio.exceeded decodedBytes compressed then some .ratio else none

def kindToError (limit : DecompressionLimit) : LimitExceededKind → Error
  | .size => .decodedBodyTooLarge
  | .ratio =>
    if limit.maxDecompressionRatio.any (!·.valid) then DecompressionLimit.invalidRatio
    else .decompressionRatioExceeded

/-- `LimitingStream`; `counter` reads the compressed byte count in a state of `inner`. -/
def limitingStream (inner : ByteSource) (limit : DecompressionLimit) (counter : inner.State → Nat) :
    ByteSource :=
  inner.guarded List.length usizeMax fun decodedBytes st =>
    (checkLimit limit decodedBytes (counter st)).map (kindToError limit)

/-- `LimitedResponseStream`, the limiter of unencoded bodies. -/
def limitedResponseStream (inner : ByteSource) (max : Nat) : ByteSource :=
  inner.guarded List.length usizeMax fun decodedBytes _ =>
    if max < decodedBytes then some .decodedBodyTooLarge else none

/-- A stack of decoders, with the counter of the wire bytes once there is one. -/
structure Layered where
  source : ByteSource
  outerCounter : Option (source.State → Nat)

/-- One turn of the decoder loop of `decompress_stream`. -/
def Layered.push (codecs : Codecs) (limit : DecompressionLimit) (current : Layered)
    (encoding : ContentCoding) : Layered :=
  let decoded := codecs.decoder encoding (countingStream current.source)
  let counter : decoded.State → Nat := fun st => (decoded.inner st).2
  let outer : decoded.State → Nat :=
    match current.outerCounter with
    | none => counter
    | some outer => fun st => outer (decoded.inner st).1
  match limit.maxDecompressionRatio with
  | none => ⟨decoded.source, some outer⟩
  | some ratio =>
    ⟨limitingStream decoded.source ⟨none, some ratio⟩ counter, some fun st => outer st.1⟩

def Layered.limited (limit : DecompressionLimit) (current : Layered) : ByteSource :=
  if limit.isUnlimited then current.source
  else match current.outerCounter with
    | none => current.source
    | some outer => limitingStream current.source limit outer

def decompressStream (codecs : Codecs) (stream : ByteSource) (contentEncoding : Str)
    (limit : DecompressionLimit) : Except Error ByteSource :=
  if (trim contentEncoding).isEmpty then .ok stream
  else requiring limit.validate <| requiring (validateContentEncodings contentEncoding) <|
    match parseContentEncodings contentEncoding with
    | none => .ok stream
    | some encodings =>
      if maxNestingDepth < encodings.length then .error (nestingError encodings.length)
      else
        .ok ((encodings.reverse.foldl (Layered.push codecs limit) ⟨stream, none⟩).limited limit)

/-- `sync_read_limited` over the reads of a decoder. -/
def syncReadLimited (outputLimit : Option Nat) (ratioIsTighter : Bool) :
    List (Except Str Str) → Str → Except Error Str
  | [], output => .ok output
  | .error message :: _, _ => .error (.decompression message)
  | .ok chunk :: rest, output =>
    if chunk.isEmpty then .ok output
    else if outputLimit.any (· < (output ++ chunk).length) then
      .error (if ratioIsTighter then .decompressionRatioExceeded else .decodedBodyTooLarge)
    else syncReadLimited outputLimit ratioIsTighter rest (output ++ chunk)

/-- The limits of one buffered decode. -/
structure OutputLimit where
  outputLimit : Option Nat
  ratioIsTighter : Bool

def OutputLimit.of (limit : DecompressionLimit) (compressedLen : Nat) : OutputLimit :=
  let ratioLimit := limit.maxDecompressionRatio.map fun ratio => min (ratio.budget compressedLen) usizeMax
  let outputLimit := match limit.maxDecodedBodySize, ratioLimit with
    | some size, some ratio => some (min size ratio)
    | some size, none => some size
    | none, some ratio => some ratio
    | none, none => none
  ⟨outputLimit, ratioLimit.isSome && ratioLimit == outputLimit⟩

def OutputLimit.read (lim : OutputLimit) (reads : List (Except Str Str)) : Except Error Str :=
  syncReadLimited lim.outputLimit lim.ratioIsTighter reads []

/-- One layer of the buffered decode; `deflate` tries the zlib wrapper first. -/
def syncDecode (codecs : Codecs) (lim : OutputLimit) (data : Str) : ContentCoding → Except Error Str
  | .gzip => lim.read (codecs.reads .gzip data)
  | .deflate =>
    match lim.read (codecs.reads .zlib data) with
    | .ok output => .ok output
    | .error _ => lim.read (codecs.reads .rawDeflate data)
  | .brotli => lim.read (codecs.reads .brotli data)
  | .zstd => lim.read (codecs.reads .zstd data)

def layerRatio (ratio : Option Ratio) (decoded layerInput : Nat) : Except Error Unit :=
  if 0 < layerInput ∧ ratio.any (·.exceeded decoded layerInput) then .error .decompressionRatioExceeded
  else .ok ()

/-- The layer loop of `decompress_buffered`. -/
def decodeLayers (codecs : Codecs) (ratio : Option Ratio) (lim : OutputLimit) :
    List ContentCoding → Str → Except Error Str
  | [], current => .ok current
  | encoding :: rest, current =>
    match syncDecode codecs lim current encoding with
    | .error e => .error e
    | .ok output =>
      requiring (layerRatio ratio output.length current.length) <|
        decodeLayers codecs ratio lim rest output

/-- The verdict of `decompress_buffered` over its final output. -/
def finalVerdict (limit : DecompressionLimit) (ratioIsTighter : Bool) (compressedLen : Nat)
    (output : Str) : Except Error Str :=
  let sizeViolated := limit.maxDecodedBodySize.any (· < output.length)
  let ratioViolated := 0 < compressedLen && limit.maxDecompressionRatio.any (·.exceeded output.length compressedLen)
  if sizeViolated && ratioViolated then
    .error (if ratioIsTighter then .decompressionRatioExceeded else .decodedBodyTooLarge)
  else if sizeViolated then .error .decodedBodyTooLarge
  else if ratioViolated then .error .decompressionRatioExceeded
  else .ok output

def decompressBuffered (codecs : Codecs) (data contentEncoding : Str) (limit : DecompressionLimit) :
    Except Error Str :=
  requiring limit.validate <| requiring (validateContentEncodings contentEncoding) <|
    match parseContentEncodings contentEncoding with
    | none => .ok data
    | some encodings =>
      if maxNestingDepth < encodings.length then .error (nestingError encodings.length)
      else if data.isEmpty then .ok []
      else
        let lim := OutputLimit.of limit data.length
        match decodeLayers codecs limit.maxDecompressionRatio lim encodings.reverse data with
        | .error e => .error e
        | .ok output => finalVerdict limit lim.ratioIsTighter data.length output

inductive ResponseBody where
  | buffered (bytes : Str)
  | streaming (stream : ByteSource)
  | encodedStreaming (stream : ByteSource) (contentEncoding : Str) (limit : DecompressionLimit)
  | consumed

/-- `apply_decompression`, for the body. -/
def applyDecompression (codecs : Codecs) (body : ResponseBody) (contentEncoding : Option Str)
    (limit : DecompressionLimit) : Except Error ResponseBody :=
  match contentEncoding with
  | none => .ok body
  | some ce =>
    requiring limit.validate <| requiring (validateContentEncodings ce) <|
      match body with
      | .streaming stream =>
        if (trim ce).isEmpty then .ok (.streaming stream) else .ok (.encodedStreaming stream ce limit)
      | .buffered bytes =>
        match decompressBuffered codecs bytes ce limit with
        | .ok decompressed => .ok (.buffered decompressed)
        | .error e => .error e
      | .consumed => .ok .consumed
      | .encodedStreaming stream ce' limit' => .ok (.encodedStreaming stream ce' limit')

def ResponseBody.limitDecodedSize (max : Nat) : ResponseBody → Except Error ResponseBody
  | .buffered bytes => if max < bytes.length then .error .decodedBodyTooLarge else .ok (.buffered bytes)
  | .streaming stream => .ok (.streaming (limitedResponseStream stream max))
  | .encodedStreaming stream ce limit =>
    .ok (.encodedStreaming stream ce
      { limit with maxDecodedBodySize := some (limit.maxDecodedBodySize.elim max (min · max)) })
  | .consumed => .ok .consumed

/-- A response as it leaves the transport, with the settings that decode it. -/
structure Transported where
  body : ResponseBody
  contentEncoding : Option Str
  decompressionEnabled : Bool
  maxDecompressionRatio : Option Ratio

def decodedBody (codecs : Codecs) (r : Transported) (maxDecodedBodySize : Option Nat) :
    Except Error ResponseBody :=
  if r.decompressionEnabled then
    applyDecompression codecs r.body r.contentEncoding ⟨maxDecodedBodySize, r.maxDecompressionRatio⟩
  else .ok r.body

/-- The body part of `finalize_response`. -/
def finalizeResponse (codecs : Codecs) (r : Transported) (maxDecodedBodySize : Option Nat) :
    Except Error ResponseBody :=
  match decodedBody codecs r maxDecodedBodySize, maxDecodedBodySize with
  | .ok body, some max => body.limitDecodedSize max
  | .ok body, none => .ok body
  | .error e, _ => .error e

def alreadyConsumed : Error := .body (utf8 "streaming body already consumed")

/-- `take_stream(false)`, which `bytes_stream()` returns. -/
def ResponseBody.bytesStream (codecs : Codecs) : ResponseBody → Except Error ByteSource
  | .buffered bytes => .ok (Source.ofList [.ok bytes])
  | .streaming stream => .ok stream
  | .encodedStreaming stream ce limit => decompressStream codecs stream ce limit
  | .consumed => .error alreadyConsumed

/-- `bytes()`; `none` while `fuel` polls have not ended the stream. -/
def ResponseBody.bytes (codecs : Codecs) (fuel : Nat) (body : ResponseBody) : Option (Except Error Str) :=
  match body with
  | .buffered bytes => some (.ok bytes)
  | _ =>
    match body.bytesStream codecs with
    | .error e => some (.error e)
    | .ok stream => stream.collect (· ++ ·) fuel stream.init []

end Eggfetch.Compression
