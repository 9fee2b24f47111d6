import Eggfetch.Compression.Flow

/-! Streaming decoders over two splits of one body: what is decoded depends on the bytes and on
the framings that were sniffed, and on nothing else. -/
namespace Eggfetch.Compression
open Text

abbrev Content := Str × Bool

def Flow.content (F : Flow) : Content := (F.bytes, F.last.isSome)

/-- What a decoder that has come so far makes of the bytes to come. -/
def Decoder.content (d : Decoder) (p : Progress d.State) (c : Content) : Content :=
  match d.feed p c.1 with
  | (out, .ended) => (out, false)
  | (out, .failed _) => (out, true)
  | (out, .going s) => if c.2 then (out, true) else (out ++ (d.finish s).1, (d.finish s).2.isSome)

/-- A layer in the framing it is read in; without one it had no bytes. -/
def decodeAs (decoders : Decoders) (c : Content) : Option Framing → Content
  | some framing => (decoders framing).content (.going (decoders framing).start) c
  | none => ([], c.2)

def framings (ρ : Reading) (decoders : Decoders) : List ContentCoding → Flow → List (Option Framing)
  | [], _ => []
  | encoding :: rest, F => framingOf ρ F encoding :: framings ρ decoders rest (layer ρ decoders none F encoding)

def tooLong (size : Option Nat) (bytes : Str) : Bool := size.any (· < min bytes.length usizeMax)

def Content.failed (size : Option Nat) (c : Content) : Bool := c.2 || tooLong size c.1

/-- The same success, and the same bytes; only what comes before a failure may differ, with a
size limit, by the chunk that the limiter withholds. -/
def Alike (size : Option Nat) (c d : Content) : Prop :=
  c.failed size = d.failed size ∧ (c.failed size = false ∨ size = none → c.1 = d.1)

def SameResult (size : Option Nat) : Except Error Flow → Except Error Flow → Prop
  | .ok F, .ok G => F.last.isSome = G.last.isSome ∧ (F.last = none ∨ size = none → F.bytes = G.bytes)
  | .error e, .error e' => e = e'
  | _, _ => False

section
variable {ρ σ : Reading} {d : Decoder} {decoders : Decoders} {wire read : Nat} {out : Str} {arrivals : List Arrival}
  {last : Option Error} {F : Flow} {encoding : ContentCoding} {encodings : List ContentCoding}

theorem feed_append (p : Progress d.State) (xs ys : Str) :
    d.feed p (xs ++ ys) = ((d.feed p xs).1 ++ (d.feed (d.feed p xs).2 ys).1, (d.feed (d.feed p xs).2 ys).2) :=
  d.machine.scan_append p xs ys

private theorem feed_ended (xs : Str) : d.feed .ended xs = ([], .ended) := by
  induction xs with
  | nil => rfl
  | cons x xs ih =>
    rw [Decoder.feed, Transducer.scan_cons]
    exact ih

private theorem feed_failed (message : Str) (xs : Str) : d.feed (.failed message) xs = ([], .failed message) := by
  induction xs with
  | nil => rfl
  | cons x xs ih =>
    rw [Decoder.feed, Transducer.scan_cons]
    exact ih

theorem content_ended (c : Content) : d.content .ended c = ([], false) := by rw [Decoder.content, feed_ended]

theorem content_failed (message : Str) (c : Content) : d.content (.failed message) c = ([], true) := by
  rw [Decoder.content, feed_failed]

theorem content_append (p : Progress d.State) (xs ys : Str) (failed : Bool) :
    d.content p (xs ++ ys, failed) =
      ((d.feed p xs).1 ++ (d.content (d.feed p xs).2 (ys, failed)).1, (d.content (d.feed p xs).2 (ys, failed)).2) := by
  rw [Decoder.content, Decoder.content, feed_append]
  dsimp only
  rcases d.feed (d.feed p xs).2 ys with ⟨out, s | _ | message⟩
  · cases failed with
    | true => rfl
    | false => exact Prod.ext (List.append_assoc ..) rfl
  · rfl
  · rfl

def pieceBytes (ps : List Piece) : Str := (ps.map (·.chunk)).flatten

private theorem pieceBytes_append (ps qs : List Piece) : pieceBytes (ps ++ qs) = pieceBytes ps ++ pieceBytes qs := by
  rw [pieceBytes, List.map_append, List.flatten_append]
  rfl

private theorem pieceBytes_pieces : pieceBytes (pieces ρ wire read out) = out := by
  rw [pieceBytes, pieces, List.map_map]
  exact (congrArg List.flatten (List.map_id _)).trans (ρ.flatten_cut out)

variable (wire read arrivals last) in
theorem outputs_content (p : Progress d.State) :
    (pieceBytes (d.outputs ρ p wire read arrivals last).1, (d.outputs ρ p wire read arrivals last).2.isSome) =
      d.content p ((arrivals.map Arrival.chunk).flatten, last.isSome) := by
  induction arrivals generalizing p wire read with
  | nil =>
    cases p with
    | ended => rw [content_ended]; rfl
    | failed message => rw [content_failed]; rfl
    | going s =>
      cases last with
      | none =>
        rw [Decoder.outputs, pieceBytes_pieces, Option.isSome_map]
        rfl
      | some e => rfl
  | cons a rest ih =>
    cases p with
    | ended => rw [content_ended]; rfl
    | failed message => rw [content_failed]; rfl
    | going s =>
      rw [List.map_cons, List.flatten_cons, content_append, ← ih, Decoder.outputs]
      dsimp only
      rw [pieceBytes_append, pieceBytes_pieces]

private theorem layer_content : (layer ρ decoders none F encoding).content =
    decodeAs decoders F.content (framingOf ρ F encoding) := by
  have hbytes (decoded : List Piece × Option Error) : Flow.content ⟨decoded.1.map Piece.toArrival, decoded.2⟩ =
      (pieceBytes decoded.1, decoded.2.isSome) := by
    rw [Flow.content, Flow.bytes, List.map_map]
    rfl
  rw [layer, hbytes, makeDecoder]
  cases framingOf ρ F encoding with
  | none =>
    rw [Option.isSome_map]
    rfl
  | some framing => exact outputs_content _ _ _ _ _

theorem layers_content : (encodings.foldl (layer ρ decoders none) F).content =
    (framings ρ decoders encodings F).foldl (decodeAs decoders) F.content := by
  induction encodings generalizing F with
  | nil => rfl
  | cons encoding rest ih => rw [List.foldl_cons, ih, layer_content, framings, List.foldl_cons]

private theorem checkLimit_size (max decoded compressed : Nat) :
    checkLimit ⟨some max, none⟩ decoded compressed = if max < decoded then some .size else none := by
  rw [checkLimit, Option.any_some]
  simp only [decide_eq_true_eq]

variable (arrivals last) in
private theorem guardItems_size {max decoded : Nat} (hdecoded : decoded ≤ max) :
    (guardItems ⟨some max, none⟩ (·.chunk.length) Arrival.wire decoded arrivals last).2.isSome =
        (last.isSome || decide (max < min (decoded + (arrivals.map Arrival.chunk).flatten.length) usizeMax)) ∧
      (¬ max < min (decoded + (arrivals.map Arrival.chunk).flatten.length) usizeMax →
        guardItems ⟨some max, none⟩ (·.chunk.length) Arrival.wire decoded arrivals last = (arrivals, last)) := by
  induction arrivals generalizing decoded with
  | nil =>
    have hshort : ¬ max < min (decoded + ([] : Str).length) usizeMax := by
      rw [List.length_nil]
      omega
    refine ⟨?_, fun _ => rfl⟩
    rw [List.map_nil, List.flatten_nil, decide_eq_false hshort, Bool.or_false]
    rfl
  | cons a rest ih =>
    rw [guardItems, List.map_cons, List.flatten_cons, List.length_append]
    by_cases hover : max < min (decoded + a.chunk.length) usizeMax
    · have hcheck : checkLimit ⟨some max, none⟩ (min (decoded + a.chunk.length) usizeMax) a.wire = some .size :=
        (checkLimit_size ..).trans (if_pos hover)
      have htotal : max < min (decoded + (a.chunk.length + (rest.map Arrival.chunk).flatten.length)) usizeMax := by omega
      rw [hcheck, decide_eq_true htotal, Bool.or_true]
      exact ⟨rfl, fun hshort => absurd htotal hshort⟩
    · have hcheck : checkLimit ⟨some max, none⟩ (min (decoded + a.chunk.length) usizeMax) a.wire = none :=
        (checkLimit_size ..).trans (if_neg hover)
      have htotal : min (min (decoded + a.chunk.length) usizeMax + (rest.map Arrival.chunk).flatten.length) usizeMax =
          min (decoded + (a.chunk.length + (rest.map Arrival.chunk).flatten.length)) usizeMax := by omega
      obtain ⟨hlast, hkept⟩ := ih (Nat.le_of_not_lt hover)
      rw [htotal] at hlast hkept
      rw [hcheck]
      exact ⟨hlast, fun hshort => by dsimp only; rw [hkept hshort]⟩

private theorem limited_content (size : Option Nat) (F : Flow) :
    (F.limited ⟨size, none⟩).last.isSome = F.content.failed size ∧
      (F.content.failed size = false ∨ size = none → (F.limited ⟨size, none⟩).bytes = F.bytes) := by
  cases size with
  | none => exact ⟨(Bool.or_false _).symm, fun _ => rfl⟩
  | some max =>
    have hlimited : (F.limited ⟨some max, none⟩) =
        ⟨(guardItems ⟨some max, none⟩ (·.chunk.length) Arrival.wire 0 F.arrivals F.last).1,
          (guardItems ⟨some max, none⟩ (·.chunk.length) Arrival.wire 0 F.arrivals F.last).2⟩ := rfl
    obtain ⟨hlast, hkept⟩ := guardItems_size F.arrivals F.last (Nat.zero_le max)
    rw [Nat.zero_add] at hlast hkept
    refine ⟨by rw [hlimited]; exact hlast, ?_⟩
    rintro (hfine | hnone)
    · have hshort : ¬ max < min F.bytes.length usizeMax := of_decide_eq_false (Bool.or_eq_false_iff.mp hfine).2
      rw [hlimited, hkept hshort]
    · cases hnone

theorem sameResult_limited (size : Option Nat) (F G : Flow) :
    SameResult size (.ok (F.limited ⟨size, none⟩)) (.ok (G.limited ⟨size, none⟩)) ↔ Alike size F.content G.content := by
  obtain ⟨hF, hFbytes⟩ := limited_content size F
  obtain ⟨hG, hGbytes⟩ := limited_content size G
  rw [SameResult, Alike, hF, hG, ← Option.not_isSome_iff_eq_none, hF, Bool.not_eq_true]
  refine and_congr_right fun hsame => forall_congr' fun hfine => ?_
  rw [hFbytes hfine, hGbytes (by rwa [← hsame])]
  rfl

theorem wireFlow_bytes (chunks : List Str) : (wireFlow chunks).bytes = chunks.flatten := by
  have hchunks (count : Nat) : (wireArrivals count chunks).map Arrival.chunk = chunks := by
    induction chunks generalizing count with
    | nil => rfl
    | cons chunk rest ih => rw [wireArrivals, List.map_cons, ih]
  rw [Flow.bytes, wireFlow, hchunks]

private theorem alike_refl (size : Option Nat) (c : Content) : Alike size c c := ⟨rfl, fun _ => rfl⟩

theorem sameResult_last {size : Option Nat} {x y : Except Error Flow} (h : SameResult size x y) :
    x.map (·.last.isSome) = y.map (·.last.isSome) := by
  cases x with
  | error e =>
    cases y with
    | error e' => exact congrArg Except.error h
    | ok G => cases h
  | ok F =>
    cases y with
    | error e' => cases h
    | ok G => exact congrArg Except.ok h.1

/-- Two splits of one body come out alike if and only if their layers are read in the same
framings, or decode alike in both. -/
theorem splits_alike_iff (decoders : Decoders) (size : Option Nat) (ρ σ : Reading) (xs ys : List Str)
    (hsame : xs.flatten = ys.flatten) (contentEncoding : Str) :
    SameResult size (decompressFlow ρ decoders xs contentEncoding ⟨size, none⟩)
        (decompressFlow σ decoders ys contentEncoding ⟨size, none⟩) ↔
      ∀ encodings, codingsOf contentEncoding ⟨size, none⟩ = .ok (some encodings) →
        framings ρ decoders encodings (wireFlow xs) = framings σ decoders encodings (wireFlow ys) ∨
          Alike size ((framings ρ decoders encodings (wireFlow xs)).foldl (decodeAs decoders) (xs.flatten, false))
            ((framings σ decoders encodings (wireFlow ys)).foldl (decodeAs decoders) (xs.flatten, false)) := by
  rw [decompressFlow, decompressFlow]
  cases hcodings : codingsOf contentEncoding ⟨size, none⟩ with
  | error e => exact ⟨(by intro _ _ h; cases h), fun _ => rfl⟩
  | ok codings =>
    cases codings with
    | none =>
      refine ⟨(by intro _ _ h; cases h), fun _ => ⟨rfl, fun _ => ?_⟩⟩
      exact (wireFlow_bytes xs).trans (hsame.trans (wireFlow_bytes ys).symm)
    | some encodings =>
      have hcontent (zs : List Str) : (wireFlow zs).content = (zs.flatten, false) := Prod.ext (wireFlow_bytes zs) rfl
      have hiff := sameResult_limited size (encodings.foldl (layer ρ decoders none) (wireFlow xs))
        (encodings.foldl (layer σ decoders none) (wireFlow ys))
      rw [layers_content, layers_content, hcontent, hcontent, ← hsame] at hiff
      refine hiff.trans ⟨fun halike _ h => ?_, fun h => ?_⟩
      · obtain rfl := Option.some.inj (Except.ok.inj h)
        exact .inr halike
      · rcases h encodings rfl with hframings | halike
        · rw [hframings]
          exact alike_refl size _
        · exact halike

end

/-- Where a decoder of stored blocks is. -/
inductive Stored where
  | header
  | lengths (final : Bool) (seen : Str)
  | copy (final : Bool) (left : Nat)

namespace Stored

def next (final : Bool) : Progress Stored := if final then .ended else .going header

def step : Stored → UInt8 → Str × Progress Stored
  | header, b => ([], if b &&& 0x06 == 0 then .going (lengths (b &&& 0x01 == 1) []) else .failed (utf8 "compressed block"))
  | lengths final [low, high, notLow], b =>
    ([], if low ^^^ notLow == 0xff && high ^^^ b == 0xff then
        if low == 0 && high == 0 then next final else .going (copy final (low.toNat + 256 * high.toNat))
      else .failed (utf8 "stored block lengths"))
  | lengths final seen, b => ([], .going (lengths final (seen ++ [b])))
  | copy final left, b => ([b], if left ≤ 1 then next final else .going (copy final (left - 1)))

end Stored

def rawStored : Decoder where
  State := Stored
  start := .header
  step := Stored.step
  finish _ := ([], some (utf8 "unexpected end"))

/-- The zlib wrapper around stored blocks: how much of the header is read, the blocks, and how
much is left of the checksum. -/
def zlibStored : Decoder where
  State := Option UInt8 ⊕ Stored ⊕ Nat
  start := .inl none
  step
    | .inl none, cmf => ([], .going (.inl (some cmf)))
    | .inl (some cmf), flg => ([], if isZlibHeader [cmf, flg] then .going (.inr (.inl .header)) else .failed (utf8 "zlib header"))
    | .inr (.inl s), b =>
      match s.step b with
      | (out, .going s') => (out, .going (.inr (.inl s')))
      | (out, .ended) => (out, .going (.inr (.inr 4)))
      | (out, .failed message) => (out, .failed message)
    | .inr (.inr left), _ => ([], if left ≤ 1 then .ended else .going (.inr (.inr (left - 1))))
  finish _ := ([], some (utf8 "unexpected end"))

def storedDecoders : Decoders
  | .zlib => zlibStored
  | _ => rawStored

def wholeReading : Reading where
  cut s := if s.isEmpty then [] else [s]
  fill s := max s.length 1
  flatten_cut s := by cases s <;> simp
  cut_ne_nil s := by cases s <;> simp
  fill_pos s := by omega

/-- `a` in a stored block, in the zlib wrapper. -/
def zlibBody : Str := [0x78, 0x01, 0x01, 0x01, 0x00, 0xfe, 0xff, 0x61, 0x00, 0x62, 0x00, 0x62]

/-- With the header in the first chunk the rest may come as it likes. -/
theorem splits_alike_stored :
    SameResult none (decompressFlow wholeReading storedDecoders [zlibBody] (utf8 "deflate") ⟨none, none⟩)
      (decompressFlow wholeReading storedDecoders [zlibBody.take 2, [], zlibBody.drop 2] (utf8 "deflate") ⟨none, none⟩) := by
  refine (splits_alike_iff storedDecoders none wholeReading wholeReading _ _ rfl (utf8 "deflate")).mpr fun encodings h => .inl ?_
  have hcodings : codingsOf (utf8 "deflate") ⟨none, none⟩ = .ok (some [.deflate]) := rfl
  obtain rfl := Option.some.inj (Except.ok.inj (hcodings.symm.trans h))
  rfl

/-- A body whose first byte comes alone fails, and the same body at once is decoded. -/
theorem one_byte_first :
    ¬ SameResult none (decompressFlow wholeReading storedDecoders [zlibBody] (utf8 "deflate") ⟨none, none⟩)
      (decompressFlow wholeReading storedDecoders [zlibBody.take 1, zlibBody.drop 1] (utf8 "deflate") ⟨none, none⟩) := by
  have hwhole : (decompressFlow wholeReading storedDecoders [zlibBody] (utf8 "deflate") ⟨none, none⟩).map
      (·.last.isSome) = .ok false := rfl
  have hsplit : (decompressFlow wholeReading storedDecoders [zlibBody.take 1, zlibBody.drop 1] (utf8 "deflate")
      ⟨none, none⟩).map (·.last.isSome) = .ok true := rfl
  intro hsame
  have hlast := sameResult_last hsame
  rw [hwhole, hsplit] at hlast
  cases hlast

end Eggfetch.Compression
