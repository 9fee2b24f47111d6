import Eggfetch.Compression.Model
import Eggfetch.Text.Transducer

/-! `decompress_stream` over what a stream gives until it ends, with one incremental decoder
for each framing, and the framing sniffed by `make_deflate_decoder`. -/
namespace Eggfetch.Compression
open Text Polling

/-- The `Display` text. -/
def Error.text : Error → Str
  | .decodedBodyTooLarge => utf8 "decoded body exceeded max decoded body size"
  | .decompressionRatioExceeded => utf8 "decompression ratio exceeded max ratio"
  | .decompression message => utf8 "decompression error: " ++ message
  | .unsupportedContentEncoding token => utf8 "unsupported content encoding: " ++ token
  | .body message => utf8 "body error: " ++ message
  | .transport message => message

inductive Progress (σ : Type) where
  | going (s : σ)
  | ended
  | failed (message : Str)

/-- A decoder of a codec crate: what each byte makes it give, and what the end of its input
does, with the error if it was too early. -/
structure Decoder where
  State : Type
  start : State
  step : State → UInt8 → Str × Progress State
  finish : State → Str × Option Str

namespace Decoder
variable (d : Decoder)

/-- Nothing is read after the end of the coded data, or after an error in it. -/
def machine : Transducer (Progress d.State) UInt8 UInt8 where
  step
    | .going s, b => d.step s b
    | p, _ => ([], p)
  finish _ := []

def feed (p : Progress d.State) (input : Str) : Str × Progress d.State := d.machine.scan p input

def decode (input : Str) : Str × Option Str :=
  match d.feed (.going d.start) input with
  | (out, .ended) => (out, none)
  | (out, .failed message) => (out, some message)
  | (out, .going s) => (out ++ (d.finish s).1, (d.finish s).2)

end Decoder

/-- How the readers between the decoders hand bytes on: what a decoder gives at a time is cut
into pieces, and `fill_buf` shows some of a chunk. -/
structure Reading where
  cut : Str → List Str
  fill : Str → Nat
  flatten_cut : ∀ s, (cut s).flatten = s
  cut_ne_nil : ∀ s, ∀ piece ∈ cut s, piece ≠ []
  fill_pos : ∀ s, 0 < fill s

abbrev Decoders := Framing → Decoder

def Decoders.reads (decoders : Decoders) (cut : Str → List Str) (framing : Framing) (input : Str) : List (Except Str Str) :=
  (cut ((decoders framing).decode input).1).map .ok ++ (((decoders framing).decode input).2.map .error).toList

/-- A chunk with the wire bytes read when it comes. -/
structure Arrival where
  chunk : Str
  wire : Nat

/-- What a stream gives, and the error that ends it. -/
structure Flow where
  arrivals : List Arrival
  last : Option Error

def Flow.bytes (F : Flow) : Str := (F.arrivals.map Arrival.chunk).flatten

/-- What a decoder gives, with the count of its own input. -/
structure Piece extends Arrival where
  read : Nat

/-- The count of `CountingStream` saturates. -/
def countUp (count : Nat) (chunk : Str) : Nat := min (count + chunk.length) usizeMax

def wireArrivals : Nat → List Str → List Arrival
  | _, [] => []
  | count, chunk :: rest => ⟨chunk, countUp count chunk⟩ :: wireArrivals (countUp count chunk) rest

def wireFlow (chunks : List Str) : Flow := ⟨wireArrivals 0 chunks, none⟩

def masked (e : Error) : Error := .decompression e.text

section
variable (ρ : Reading)

def pieces (wire read : Nat) (out : Str) : List Piece := (ρ.cut out).map fun chunk => ⟨⟨chunk, wire⟩, read⟩

/-- What a decoder gives over a counted stream, as `ReaderStream` returns it. -/
def Decoder.outputs (d : Decoder) : Progress d.State → Nat → Nat → List Arrival → Option Error → List Piece × Option Error
  | .ended, _, _, _, _ => ([], none)
  | .failed message, _, _, _, _ => ([], some (.decompression message))
  | .going s, wire, read, [], none => (pieces ρ wire read (d.finish s).1, (d.finish s).2.map .decompression)
  | .going _, _, _, [], some e => ([], some (masked e))
  | .going s, _, read, a :: rest, last =>
    let fed := d.feed (.going s) a.chunk
    let later := outputs d fed.2 a.wire (countUp read a.chunk) rest last
    (pieces ρ a.wire (countUp read a.chunk) fed.1 ++ later.1, later.2)

def isZlibHeader : Str → Bool
  | cmf :: flg :: _ => cmf &&& 0x0f == 8 && (cmf.toNat * 256 + flg.toNat) % 31 == 0
  | _ => false

def sniffed (chunk : Str) : Framing := if isZlibHeader (chunk.take (ρ.fill chunk)) then .zlib else .rawDeflate

/-- The sniffing of `make_deflate_decoder`, on what `fill_buf` shows of the first chunk that is
not empty. -/
def sniff (F : Flow) : Option Framing :=
  ((F.arrivals.map Arrival.chunk).find? (!·.isEmpty)).map (sniffed ρ)

/-- The framing that `make_decoder` reads a stream in. -/
def framingOf (F : Flow) : ContentCoding → Option Framing
  | .gzip => some .gzip
  | .deflate => sniff ρ F
  | .brotli => some .brotli
  | .zstd => some .zstd

variable (decoders : Decoders)

def makeDecoder (F : Flow) (encoding : ContentCoding) : List Piece × Option Error :=
  match framingOf ρ F encoding with
  | some framing => (decoders framing).outputs ρ (.going (decoders framing).start) 0 0 F.arrivals F.last
  | none => ([], F.last.map masked)

/-- `LimitingStream` over items of some size, each with the count it is compared with. -/
def guardItems {α : Type} (limit : DecompressionLimit) (size count : α → Nat) :
    Nat → List α → Option Error → List α × Option Error
  | _, [], last => ([], last)
  | decoded, x :: rest, last =>
    match checkLimit limit (min (decoded + size x) usizeMax) (count x) with
    | some kind => ([], some (kindToError limit kind))
    | none =>
      let later := guardItems limit size count (min (decoded + size x) usizeMax) rest last
      (x :: later.1, later.2)

def layer (ratio : Option Ratio) (F : Flow) (encoding : ContentCoding) : Flow :=
  let decoded := makeDecoder ρ decoders F encoding
  match ratio with
  | none => ⟨decoded.1.map Piece.toArrival, decoded.2⟩
  | some ratio =>
    let kept := guardItems ⟨none, some ratio⟩ (·.chunk.length) Piece.read 0 decoded.1 decoded.2
    ⟨kept.1.map Piece.toArrival, kept.2⟩

def Flow.limited (limit : DecompressionLimit) (F : Flow) : Flow :=
  if limit.isUnlimited then F
  else
    let kept := guardItems limit (·.chunk.length) Arrival.wire 0 F.arrivals F.last
    ⟨kept.1, kept.2⟩

/-- The codings that `decompress_stream` decodes, outermost last. -/
def codingsOf (contentEncoding : Str) (limit : DecompressionLimit) : Except Error (Option (List ContentCoding)) :=
  if (trim contentEncoding).isEmpty then .ok none
  else requiring limit.validate <| requiring (validateContentEncodings contentEncoding) <|
    match parseContentEncodings contentEncoding with
    | none => .ok none
    | some encodings =>
      if maxNestingDepth < encodings.length then .error (nestingError encodings.length) else .ok (some encodings.reverse)

/-- `decompress_stream` over the chunks of a body. -/
def decompressFlow (chunks : List Str) (contentEncoding : Str) (limit : DecompressionLimit) : Except Error Flow :=
  (codingsOf contentEncoding limit).map fun
    | none => wireFlow chunks
    | some encodings => (encodings.foldl (layer ρ decoders limit.maxDecompressionRatio) (wireFlow chunks)).limited limit

/-- What a polled decoder is at: the sniffing of a deflate stream, a decode with the pieces it
has not handed on yet, or its end. -/
inductive DecoderState where
  | sniffing
  | decoding (framing : Framing) (p : Progress (decoders framing).State) (queue : List Str)
  | done

/-- Hand the pieces of an output on; a poll that gives none of it returns an empty chunk, which
every reader passes over. -/
def DecoderState.give (framing : Framing) (p : Progress (decoders framing).State) :
    List Str → Option (Except Error Str) × DecoderState decoders
  | [] => (some (.ok []), .decoding framing p [])
  | piece :: queue => (some (.ok piece), .decoding framing p queue)

def DecoderState.read (framing : Framing) (p : Progress (decoders framing).State) (chunk : Str) :
    Option (Except Error Str) × DecoderState decoders :=
  let fed := (decoders framing).feed p chunk
  DecoderState.give decoders framing fed.2 (ρ.cut fed.1)

def DecoderState.close (framing : Framing) (s : (decoders framing).State) : Option (Except Error Str) × DecoderState decoders :=
  let out := (decoders framing).finish s
  DecoderState.give decoders framing (out.2.elim .ended .failed) (ρ.cut out.1)

/-- A poll of `make_decoder`'s stream. -/
def DecoderState.poll (input : ByteSource) :
    input.State × DecoderState decoders → Option (Except Error Str) × input.State × DecoderState decoders
  | (st, .done) => (none, st, .done)
  | (st, .decoding framing p (piece :: queue)) => (some (.ok piece), st, .decoding framing p queue)
  | (st, .decoding _ .ended []) => (none, st, .done)
  | (st, .decoding _ (.failed message) []) => (some (.error (.decompression message)), st, .done)
  | (st, .decoding framing (.going s) []) =>
    match input.poll st with
    | (some (.ok chunk), st') =>
      let given := DecoderState.read ρ decoders framing (.going s) chunk
      (given.1, st', given.2)
    | (some (.error e), st') => (some (.error (masked e)), st', .done)
    | (none, st') =>
      let given := DecoderState.close ρ decoders framing s
      (given.1, st', given.2)
  | (st, .sniffing) =>
    match input.poll st with
    | (some (.ok chunk), st') =>
      if chunk.isEmpty then (some (.ok []), st', .sniffing)
      else
        let given := DecoderState.read ρ decoders (sniffed ρ chunk) (.going (decoders (sniffed ρ chunk)).start) chunk
        (given.1, st', given.2)
    | (some (.error e), st') => (some (.error (masked e)), st', .done)
    | (none, st') => (none, st', .done)

def DecoderState.start : ContentCoding → DecoderState decoders
  | .gzip => .decoding .gzip (.going (decoders .gzip).start) []
  | .deflate => .sniffing
  | .brotli => .decoding .brotli (.going (decoders .brotli).start) []
  | .zstd => .decoding .zstd (.going (decoders .zstd).start) []

def Decoders.codecs : Codecs where
  decoder encoding input :=
    { State := input.State × DecoderState decoders
      init := (input.init, DecoderState.start decoders encoding)
      poll := DecoderState.poll ρ decoders input
      inner := Prod.fst }
  reads := decoders.reads ρ.cut

end
end Eggfetch.Compression
