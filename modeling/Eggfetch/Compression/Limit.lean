import Eggfetch.Compression.Model

/-! The decoded-size limit over every body kind, encoding and chunking. A streaming
body whose encodings are all no-ops keeps its encoded variant but gets no decoder, and
with it no limiter; a buffered zlib layer stopped by the limit is retried as raw deflate. -/
namespace Eggfetch.Compression
open Text Polling

/-- `bytes_stream()` of the finalized response. -/
def openBody (codecs : Codecs) (r : Transported) (maxDecodedBodySize : Option Nat) :
    Except Error ByteSource :=
  match finalizeResponse codecs r maxDecodedBodySize with
  | .ok body => body.bytesStream codecs
  | .error e => .error e

/-- `bytes()` of the finalized response. -/
def readBody (codecs : Codecs) (r : Transported) (maxDecodedBodySize : Option Nat) (fuel : Nat) :
    Option (Except Error Str) :=
  match finalizeResponse codecs r maxDecodedBodySize with
  | .ok body => body.bytes codecs fuel
  | .error e => some (.error e)

/-- More than `max` bytes come before any error. -/
def Overruns (max : Nat) (opened : Except Error ByteSource) : Prop :=
  ∃ s n, opened = .ok s ∧ s.Flows n ∧ max < s.handed List.length n

def EndsInLimit (opened : Except Error ByteSource) : Prop :=
  (∃ e, opened = .error e ∧ e.isLimit) ∨ ∃ s k e, opened = .ok s ∧ s.FailsAt k e ∧ e.isLimit

/-- However often it is polled, the stream hands over at most `max` bytes. -/
def Within (max : Nat) (opened : Except Error ByteSource) : Prop :=
  ∀ s n, opened = .ok s → s.handed List.length n ≤ max

/-- At most `max` bytes are handed over in both consumption modes, and a longer body
ends in an error of the limits. -/
structure Bounded (codecs : Codecs) (r : Transported) (max : Nat) : Prop where
  streamed : Within max (openBody codecs r (some max))
  collected : ∀ fuel b, readBody codecs r (some max) fuel = some (.ok b) → b.length ≤ max
  streamFails : Overruns max (openBody codecs r none) → EndsInLimit (openBody codecs r (some max))
  collectFails : Overruns max (openBody codecs r none) →
    ∃ fuel e, readBody codecs r (some max) fuel = some (.error e) ∧ e.isLimit

def ResponseBody.isStreaming : ResponseBody → Bool
  | .streaming _ | .encodedStreaming _ _ _ => true
  | _ => false

/-- A streaming body that is encoded by no-op tokens only, so that no decoder and no
limiter is installed. -/
def Transported.unguarded (r : Transported) : Bool :=
  match r.body with
  | .streaming _ => r.decompressionEnabled && r.contentEncoding.any fun ce =>
      !(trim ce).isEmpty && (parseContentEncodings ce).isNone
  | .encodedStreaming _ ce _ => (trim ce).isEmpty || (parseContentEncodings ce).isNone
  | _ => false

def sizeOnly (max : Nat) : OutputLimit := ⟨some max, false⟩

def decodeThen (codecs : Codecs) (ratio : Option Ratio) (lim : OutputLimit)
    (finish : Str → Except Error Str) (encodings : List ContentCoding) (data : Str) : Except Error Str :=
  match decodeLayers codecs ratio lim encodings data with
  | .error e => .error e
  | .ok output => finish output

def retriedLayer (codecs : Codecs) (ratio : Option Ratio) (lim : OutputLimit)
    (finish : Str → Except Error Str) (rest : List ContentCoding) (data : Str) : Except Error Str :=
  match lim.read (codecs.reads .rawDeflate data) with
  | .error e => .error e
  | .ok output => requiring (layerRatio ratio output.length data.length) <|
      decodeThen codecs ratio lim finish rest output

/-- A deflate layer whose zlib reading runs past `max` runs into a limit as raw deflate
too, there or further on. -/
def RetryFails (codecs : Codecs) (ratio : Option Ratio) (max : Nat) (finish : Str → Except Error Str) :
    List ContentCoding → Str → Prop
  | [], _ => True
  | encoding :: rest, data =>
    if encoding = .deflate ∧ (sizeOnly max).read (codecs.reads .zlib data) = .error .decodedBodyTooLarge then
      ∃ e : Error, e.isLimit ∧ retriedLayer codecs ratio (sizeOnly max) finish rest data = .error e
    else ∀ output, syncDecode codecs (sizeOnly max) data encoding = .ok output →
      RetryFails codecs ratio max finish rest output

/-- When the limit binds: see the module's header. -/
structure LimitBinds (codecs : Codecs) (r : Transported) (max : Nat) : Prop where
  guarded : r.body.isStreaming = true → r.unguarded = true ∨ usizeMax ≤ max →
    Within max (openBody codecs r none)
  retried : ∀ data ce encodings, r.body = .buffered data → r.decompressionEnabled = true →
    r.contentEncoding = some ce → parseContentEncodings ce = some encodings → Overruns max (openBody codecs r none) →
      RetryFails codecs r.maxDecompressionRatio max
        (finalVerdict ⟨some max, r.maxDecompressionRatio⟩ false data.length) encodings.reverse data

section
variable {codecs : Codecs} {r : Transported} {max : Nat}

private theorem requiring_ok {α : Type*} {check : Except Error Unit} {rest : Except Error α} {x : α}
    (h : requiring check rest = .ok x) : (∃ u, check = .ok u) ∧ rest = .ok x := by
  unfold requiring at h
  split at h
  · exact ⟨⟨_, rfl⟩, h⟩
  · cases h

private theorem readBody_error {e : Error} {size : Option Nat} (fuel : Nat)
    (h : openBody codecs r size = .error e) : readBody codecs r size fuel = some (.error e) := by
  unfold openBody at h
  unfold readBody
  split at h
  · rename_i body hbody
    cases body with
    | buffered => cases h
    | streaming => cases h
    | encodedStreaming => simp only [ResponseBody.bytes, h]
    | consumed => simp only [ResponseBody.bytes, h]
  · rename_i hfin
    cases h
    rfl

/-- Of an opened body, either the bytes are in memory or reading collects the stream. -/
private theorem readBody_ok {s : ByteSource} {size : Option Nat} (h : openBody codecs r size = .ok s) :
    (∃ bytes, s = Source.ofList [.ok bytes] ∧ ∀ fuel, readBody codecs r size fuel = some (.ok bytes)) ∨
      ∀ fuel, readBody codecs r size fuel = s.collect (· ++ ·) fuel s.init [] := by
  unfold openBody at h
  unfold readBody
  split at h
  · rename_i body hbody
    cases body with
    | buffered bytes => cases h; exact .inl ⟨bytes, rfl, fun _ => rfl⟩
    | streaming => cases h; exact .inr fun _ => rfl
    | encodedStreaming => exact .inr fun _ => by simp only [ResponseBody.bytes, h]
    | consumed => cases h
  · cases h

private theorem ofList_item (bytes : Str) (n : Nat) :
    (Source.ofList (E := Error) [.ok bytes]).item (n + 1) = none := by
  have hafter : (Source.ofList (E := Error) [.ok bytes]).after (n + 1) = [] := by
    induction n with
    | zero => rfl
    | succ n ih => rw [Source.after, ih]; rfl
  rw [Source.item, hafter]
  rfl

private theorem ofList_handed (bytes : Str) (n : Nat) :
    (Source.ofList (E := Error) [.ok bytes]).handed List.length n ≤ bytes.length := by
  have hsucc : (Source.ofList (E := Error) [.ok bytes]).handed List.length (n + 1) = bytes.length := by
    induction n with
    | zero => exact Nat.zero_add _
    | succ n ih => rw [Source.handed, ih, ofList_item]; rfl
  exact Nat.le_trans (Source.handed_mono (Nat.le_succ n)) (Nat.le_of_eq hsucc)

private theorem ofList_not_fails {bytes : Str} {k : Nat} {e : Error} :
    ¬ (Source.ofList (E := Error) [.ok bytes]).FailsAt k e := by
  rintro ⟨-, hitem⟩
  cases k with
  | zero => cases hitem
  | succ k => rw [ofList_item] at hitem; cases hitem

private theorem Bounded.of_stream
    (hstreamed : Within max (openBody codecs r (some max)))
    (hfails : Overruns max (openBody codecs r none) → EndsInLimit (openBody codecs r (some max))) :
    Bounded codecs r max := by
  refine ⟨hstreamed, fun fuel b hb => ?_, hfails, fun hlong => ?_⟩
  · cases hopen : openBody codecs r (some max) with
    | error e => rw [readBody_error fuel hopen] at hb; cases hb
    | ok s =>
      rcases readBody_ok hopen with ⟨bytes, rfl, hread⟩ | hread
      · rw [hread] at hb
        cases hb
        exact Nat.le_trans (by exact Nat.le_of_eq (Nat.zero_add _).symm) (hstreamed _ 1 hopen)
      · rw [hread] at hb
        obtain ⟨k, hk⟩ : ∃ k, b.length + s.handed List.length 0 = ([] : Str).length + s.handed List.length k :=
          Source.collect_ok (fun _ _ => List.length_append) hb
        have hle := hstreamed s k hopen
        simp only [Source.handed, List.length_nil] at hk
        omega
  · rcases hfails hlong with ⟨e, hopen, he⟩ | ⟨s, k, e, hopen, hk, he⟩
    · exact ⟨0, e, readBody_error 0 hopen, he⟩
    · rcases readBody_ok hopen with ⟨bytes, rfl, -⟩ | hread
      · exact absurd hk ofList_not_fails
      · refine ⟨k + 1, e, ?_, he⟩
        rw [hread]
        exact Source.collect_fails (n := 0) hk (Nat.zero_le k) (by omega)

end

section
variable {codecs : Codecs}

private theorem push_congr {limit limit' : DecompressionLimit}
    (h : limit.maxDecompressionRatio = limit'.maxDecompressionRatio) :
    Layered.push codecs limit = Layered.push codecs limit' := by
  funext current encoding
  simp only [Layered.push, h]

private theorem push_counter (limit : DecompressionLimit) (current : Layered) (encoding : ContentCoding) :
    (Layered.push codecs limit current encoding).outerCounter.isSome := by
  obtain ⟨size, ratio⟩ := limit
  cases ratio <;> rfl

private theorem foldl_push_counter {encodings : List ContentCoding} (hne : encodings ≠ [])
    (limit : DecompressionLimit) (current : Layered) :
    (encodings.reverse.foldl (Layered.push codecs limit) current).outerCounter.isSome := by
  obtain ⟨encoding, rest, rfl⟩ := List.exists_cons_of_ne_nil hne
  rw [List.reverse_cons, List.foldl_append]
  exact push_counter ..

/-- `limit` with the size limit merged in by `limit_decoded_size`. -/
def DecompressionLimit.merge (limit : DecompressionLimit) (max : Nat) : DecompressionLimit :=
  { limit with maxDecodedBodySize := some (limit.maxDecodedBodySize.elim max (min · max)) }

private theorem checkLimit_merge (limit : DecompressionLimit) (max total compressed : Nat) :
    (checkLimit (limit.merge max) total compressed).map (kindToError (limit.merge max)) =
      if max < total then some .decodedBodyTooLarge
      else (checkLimit limit total compressed).map (kindToError limit) := by
  have hsize : (limit.merge max).maxDecodedBodySize.any (· < total) =
      (decide (max < total) || limit.maxDecodedBodySize.any (· < total)) := by
    unfold DecompressionLimit.merge
    cases limit.maxDecodedBodySize with
    | none => simp
    | some size => rw [Bool.eq_iff_iff]; simp; omega
  unfold checkLimit
  rw [hsize]
  by_cases hmax : max < total
  · simp [hmax, kindToError]
  · simp only [hmax, decide_false, Bool.false_or, if_false]
    rfl

private theorem checkLimit_unlimited {limit : DecompressionLimit} (h : limit.isUnlimited = true)
    (total compressed : Nat) : checkLimit limit total compressed = none := by
  simp only [DecompressionLimit.isUnlimited, Bool.and_eq_true, Option.isNone_iff_eq_none] at h
  simp [checkLimit, h.1, h.2]

private theorem parseContentEncodings_ne_nil {ce : Str} {encodings : List ContentCoding}
    (h : parseContentEncodings ce = some encodings) : encodings ≠ [] := by
  unfold parseContentEncodings at h
  simp only at h
  split at h
  · cases h
  · rename_i hne
    obtain rfl := Option.some.inj h
    simpa using hne

/-- How opening with the limit relates to opening without it; `noop` says that no
decoder is installed. -/
inductive Opened (max : Nat) (noop : Bool) : Except Error ByteSource → Except Error ByteSource → Prop
  | failed (e : Error) : Opened max noop (.error e) (.error e)
  | raw (s : ByteSource) : noop = true → Opened max noop (.ok s) (.ok s)
  | guarded (inner unlimited : ByteSource) (strict loose : Nat → inner.State → Option Error) :
      noop = false →
      (∀ total st, strict total st = if max < total then some .decodedBodyTooLarge else loose total st) →
      (∀ n, (inner.guarded List.length usizeMax loose).item n = unlimited.item n) →
      Opened max noop (.ok (inner.guarded List.length usizeMax strict)) (.ok unlimited)

private theorem limitedResponseStream_opened (s : ByteSource) (max : Nat) :
    Opened max false (.ok (limitedResponseStream s max)) (.ok s) :=
  .guarded s s _ (fun _ _ => none) rfl (fun _ _ => rfl) (Source.guarded_never fun _ _ => rfl)

private theorem limitingStream_opened (inner : ByteSource) (limit : DecompressionLimit) (max : Nat)
    (counter : inner.State → Nat) :
    Opened max false (.ok (limitingStream inner (limit.merge max) counter))
      (.ok (if limit.isUnlimited then inner else limitingStream inner limit counter)) := by
  refine .guarded inner _ _ (fun total st => (checkLimit limit total (counter st)).map (kindToError limit)) rfl
    (fun total st => checkLimit_merge limit max total (counter st)) fun n => ?_
  split
  · rename_i hunlimited
    refine Source.guarded_never (fun total st => ?_) n
    rw [checkLimit_unlimited hunlimited]
    rfl
  · rfl

/-- Decoding with a merged size limit limits decoding without it, when anything is decoded. -/
theorem decompressStream_opened (s : ByteSource) (ce : Str) (limit : DecompressionLimit) (max : Nat) :
    Opened max ((trim ce).isEmpty || (parseContentEncodings ce).isNone)
      (decompressStream codecs s ce (limit.merge max)) (decompressStream codecs s ce limit) := by
  have hvalidate : (limit.merge max).validate = limit.validate := rfl
  unfold decompressStream
  cases hblank : (trim ce).isEmpty with
  | true => exact .raw s rfl
  | false =>
    simp only [Bool.false_eq_true, if_false, hvalidate]
    cases limit.validate with
    | error e => exact .failed e
    | ok =>
      cases validateContentEncodings ce with
      | error e => exact .failed e
      | ok =>
        simp only [requiring]
        cases hparse : parseContentEncodings ce with
        | none => exact .raw s rfl
        | some encodings =>
          simp only
          split
          · exact .failed _
          · have hne : encodings ≠ [] := parseContentEncodings_ne_nil hparse
            rw [push_congr (show (limit.merge max).maxDecompressionRatio = limit.maxDecompressionRatio from rfl)]
            have hcounter : ((encodings.reverse.foldl (Layered.push codecs limit) ⟨s, none⟩).outerCounter).isSome :=
              foldl_push_counter hne limit ⟨s, none⟩
            generalize encodings.reverse.foldl (Layered.push codecs limit) ⟨s, none⟩ = current at hcounter
            obtain ⟨source, outerCounter⟩ := current
            cases outerCounter with
            | none => cases hcounter
            | some outer => exact limitingStream_opened source limit max outer

end

section
variable {codecs : Codecs} {r : Transported} {max : Nat}

private theorem openBody_streaming {s : ByteSource} (hbody : r.body = .streaming s) :
    Opened max r.unguarded (openBody codecs r (some max)) (openBody codecs r none) := by
  have hvalidate : ∀ size, (⟨size, r.maxDecompressionRatio⟩ : DecompressionLimit).validate =
      (⟨none, r.maxDecompressionRatio⟩ : DecompressionLimit).validate := fun _ => rfl
  simp only [openBody, finalizeResponse, decodedBody, Transported.unguarded, hbody, applyDecompression]
  cases r.decompressionEnabled with
  | false => exact limitedResponseStream_opened s max
  | true =>
    cases r.contentEncoding with
    | none => exact limitedResponseStream_opened s max
    | some ce =>
      simp only [if_true, hvalidate (some max), Bool.true_and, Option.any_some]
      cases (⟨none, r.maxDecompressionRatio⟩ : DecompressionLimit).validate with
      | error e => exact .failed e
      | ok =>
        cases validateContentEncodings ce with
        | error e => exact .failed e
        | ok =>
          simp only [requiring]
          cases hblank : (trim ce).isEmpty with
          | true => exact limitedResponseStream_opened s max
          | false =>
            have hopen := @decompressStream_opened codecs s ce ⟨none, r.maxDecompressionRatio⟩ max
            simpa [hblank, ResponseBody.limitDecodedSize, ResponseBody.bytesStream,
              DecompressionLimit.merge] using hopen

private theorem openBody_encodedStreaming {s : ByteSource} {ce : Str} {limit : DecompressionLimit}
    (hbody : r.body = .encodedStreaming s ce limit) :
    Opened max r.unguarded (openBody codecs r (some max)) (openBody codecs r none) := by
  have hvalidate : ∀ size, (⟨size, r.maxDecompressionRatio⟩ : DecompressionLimit).validate =
      (⟨none, r.maxDecompressionRatio⟩ : DecompressionLimit).validate := fun _ => rfl
  have hopen := @decompressStream_opened codecs s ce limit max
  simp only [openBody, finalizeResponse, decodedBody, Transported.unguarded, hbody, applyDecompression]
  cases r.decompressionEnabled with
  | false => exact hopen
  | true =>
    cases r.contentEncoding with
    | none => exact hopen
    | some ce' =>
      simp only [if_true, hvalidate (some max)]
      cases (⟨none, r.maxDecompressionRatio⟩ : DecompressionLimit).validate with
      | error e => exact .failed e
      | ok =>
        cases validateContentEncodings ce' with
        | error e => exact .failed e
        | ok => exact hopen

theorem openBody_opened (hstream : r.body.isStreaming = true) :
    Opened max r.unguarded (openBody codecs r (some max)) (openBody codecs r none) := by
  cases hbody : r.body with
  | streaming s => exact openBody_streaming hbody
  | encodedStreaming s ce limit => exact openBody_encodedStreaming hbody
  | buffered | consumed => rw [hbody] at hstream; cases hstream

end

section
variable {max : Nat}

private theorem read_cases {limit : Option Nat} {tighter : Bool} {reads : List (Except Str Str)}
    {output x : Str} (h : syncReadLimited limit tighter reads output = .ok x) :
    syncReadLimited (some max) false reads output = .ok x ∨
      syncReadLimited (some max) false reads output = .error .decodedBodyTooLarge := by
  induction reads generalizing output with
  | nil => exact .inl h
  | cons read reads ih =>
    cases read with
    | error message => cases h
    | ok chunk =>
      unfold syncReadLimited at h ⊢
      split at h
      · rename_i hempty
        exact .inl (by rw [if_pos hempty]; exact h)
      · rename_i hchunk
        rw [if_neg hchunk]
        split at h
        · cases h
        · split
          · exact .inr rfl
          · exact ih h

private theorem read_mono {limit : Option Nat} {tighter : Bool} {reads : List (Except Str Str)}
    {output x : Str} (hlimit : ∀ q, limit = some q → max ≤ q)
    (h : syncReadLimited (some max) false reads output = .ok x) :
    syncReadLimited limit tighter reads output = .ok x := by
  induction reads generalizing output with
  | nil => exact h
  | cons read reads ih =>
    cases read with
    | error message => cases h
    | ok chunk =>
      unfold syncReadLimited at h ⊢
      split at h
      · rename_i hempty
        rw [if_pos hempty]
        exact h
      · rename_i hchunk
        rw [if_neg hchunk]
        split at h
        · cases h
        · rename_i hin
          have hin' : ¬ limit.any (· < (output ++ chunk).length) = true := by
            cases limit with
            | none => simp
            | some q =>
              have := hlimit q rfl
              simp at hin ⊢
              omega
          rw [if_neg hin']
          exact ih h

private theorem read_le {tighter : Bool} {reads : List (Except Str Str)} {output x : Str}
    (hle : output.length ≤ max) (h : syncReadLimited (some max) tighter reads output = .ok x) :
    x.length ≤ max := by
  induction reads generalizing output with
  | nil => cases h; exact hle
  | cons read reads ih =>
    cases read with
    | error message => cases h
    | ok chunk =>
      unfold syncReadLimited at h
      split at h
      · cases h; exact hle
      · split at h
        · cases h
        · rename_i hin
          exact ih (by simpa using hin) h

private theorem syncDecode_le {codecs : Codecs} {tighter : Bool} {data x : Str} {encoding : ContentCoding}
    (h : syncDecode codecs ⟨some max, tighter⟩ data encoding = .ok x) : x.length ≤ max := by
  cases encoding with
  | gzip | brotli | zstd => exact read_le (show ([] : Str).length ≤ max from Nat.zero_le max) h
  | deflate =>
    simp only [syncDecode] at h
    split at h
    · rename_i hzlib
      cases h
      exact read_le (show ([] : Str).length ≤ max from Nat.zero_le max) hzlib
    · exact read_le (show ([] : Str).length ≤ max from Nat.zero_le max) h

private theorem decodeLayers_le {codecs : Codecs} {ratio : Option Ratio} {tighter : Bool}
    {encodings : List ContentCoding} {data x : Str}
    (h : decodeLayers codecs ratio ⟨some max, tighter⟩ encodings data = .ok x)
    (hle : encodings = [] → data.length ≤ max) : x.length ≤ max := by
  induction encodings generalizing data with
  | nil => cases h; exact hle rfl
  | cons encoding rest ih =>
    simp only [decodeLayers] at h
    split at h
    · cases h
    · rename_i output hdecode
      exact ih (requiring_ok h).2 fun _ => syncDecode_le hdecode

/-- A decode that succeeds under looser limits gives the same bytes or runs past `max`,
unless the zlib reading of a deflate layer is the one to run past `max`. -/
private theorem syncDecode_cases {codecs : Codecs} {lim : OutputLimit} {data x : Str}
    {encoding : ContentCoding} (hlimit : ∀ q, lim.outputLimit = some q → max ≤ q)
    (h : syncDecode codecs lim data encoding = .ok x)
    (hzlib : ¬ (encoding = .deflate ∧
      (sizeOnly max).read (codecs.reads .zlib data) = .error .decodedBodyTooLarge)) :
    syncDecode codecs (sizeOnly max) data encoding = .ok x ∨
      syncDecode codecs (sizeOnly max) data encoding = .error .decodedBodyTooLarge := by
  cases encoding with
  | gzip | brotli | zstd => exact read_cases h
  | deflate =>
    simp only [syncDecode] at h ⊢
    split at h
    · rename_i hloose
      cases h
      rcases @read_cases max _ _ _ _ _ hloose with hok | herr
      · exact .inl (by rw [OutputLimit.read, sizeOnly, hok])
      · exact absurd ⟨rfl, herr⟩ hzlib
    · rename_i hloose
      have hfail : ∀ y, (sizeOnly max).read (codecs.reads .zlib data) ≠ .ok y := by
        intro y hy
        have := @read_mono max _ lim.ratioIsTighter _ _ _ hlimit hy
        rw [OutputLimit.read, this] at hloose
        cases hloose
      split
      · rename_i hy
        exact absurd hy (hfail _)
      · exact read_cases h

variable {codecs : Codecs} {ratio : Option Ratio} {lim : OutputLimit} {finish finish' : Str → Except Error Str}

/-- Under the size limit alone a longer body ends in a limit error exactly when the
retried deflate layers do. -/
private theorem decodeThen_iff (hlimit : ∀ q, lim.outputLimit = some q → max ≤ q)
    (hfinish : ∀ x y, finish' x = .ok y → y = x)
    (hover : ∀ x, max < x.length → finish x = .error .decodedBodyTooLarge)
    {encodings : List ContentCoding} {data x : Str}
    (h : decodeThen codecs ratio lim finish' encodings data = .ok x) (hlong : max < x.length) :
    (∃ e : Error, e.isLimit ∧ decodeThen codecs ratio (sizeOnly max) finish encodings data = .error e) ↔
      RetryFails codecs ratio max finish encodings data := by
  induction encodings generalizing data with
  | nil =>
    obtain rfl := hfinish _ _ h
    exact ⟨fun _ => trivial, fun _ => ⟨_, .inl rfl, hover x hlong⟩⟩
  | cons encoding rest ih =>
    simp only [decodeThen, decodeLayers] at h
    cases hdecode : syncDecode codecs lim data encoding with
    | error e => simp [hdecode] at h
    | ok output =>
      simp only [hdecode] at h
      have hratio : layerRatio ratio output.length data.length = .ok () := by
        cases hr : layerRatio ratio output.length data.length with
        | ok => rfl
        | error e => simp [hr, requiring] at h
      simp only [hratio, requiring] at h
      unfold RetryFails
      split
      · rename_i hzlib
        obtain ⟨rfl, hstop⟩ := hzlib
        have hretry : decodeThen codecs ratio (sizeOnly max) finish (.deflate :: rest) data =
            retriedLayer codecs ratio (sizeOnly max) finish rest data := by
          simp only [decodeThen, decodeLayers, syncDecode, hstop, retriedLayer]
          cases (sizeOnly max).read (codecs.reads .rawDeflate data) with
          | error e => rfl
          | ok y => cases hr : layerRatio ratio y.length data.length <;> simp only [hr, requiring]
        rw [hretry]
      · rename_i hzlib
        rcases syncDecode_cases hlimit hdecode hzlib with hsame | hstop
        · have hnext : decodeThen codecs ratio (sizeOnly max) finish (encoding :: rest) data =
              decodeThen codecs ratio (sizeOnly max) finish rest output := by
            simp only [decodeThen, decodeLayers, hsame, hratio, requiring]
          rw [hnext, ih h]
          constructor
          · intro hrest y hy
            obtain rfl := Except.ok.inj (hsame.symm.trans hy)
            exact hrest
          · intro hall
            exact hall output hsame
        · constructor
          · intro _ y hy
            rw [hstop] at hy
            cases hy
          · intro _
            exact ⟨.decodedBodyTooLarge, .inl rfl, by simp only [decodeThen, decodeLayers, hstop]⟩

end

section
variable {codecs : Codecs} {r : Transported} {max : Nat}

theorem Within.not_overruns {opened : Except Error ByteSource} (h : Within max opened) :
    ¬ Overruns max opened := by
  rintro ⟨s, n, hopen, -, hover⟩
  exact absurd (h s n hopen) (Nat.not_le.mpr hover)

private theorem Opened.limit_iff {noop : Bool} {limited unlimited : Except Error ByteSource}
    (h : Opened max noop limited unlimited) :
    (Within max limited ∧ (Overruns max unlimited → EndsInLimit limited)) ↔
      (noop = true ∨ usizeMax ≤ max → Within max unlimited) := by
  cases h with
  | failed e =>
    exact ⟨fun _ _ => (by intro _ _ h; cases h), fun _ => ⟨(by intro _ _ h; cases h), fun ⟨_, _, hopen, _⟩ => by cases hopen⟩⟩
  | raw s hnoop =>
    constructor
    · intro hb _
      exact hb.1
    · intro hw
      exact ⟨hw (.inl hnoop), fun hover => absurd hover (hw (.inl hnoop)).not_overruns⟩
  | guarded inner unlimited strict loose hnoop hstrict hsame =>
    rcases Nat.lt_or_ge max usizeMax with hlt | hge
    · refine ⟨fun _ hw => ?_, fun _ => ⟨?_, ?_⟩⟩
      · rcases hw with hw | hw
        · rw [hnoop] at hw; cases hw
        · omega
      · rintro s n ⟨⟩
        refine Source.guarded_handed_le hlt (fun total st hover => ?_) n
        rw [hstrict, if_pos hover]
        rfl
      · rintro ⟨s, n, hopen, hflow, hover⟩
        obtain rfl := Except.ok.inj hopen
        have hflow' : (inner.guarded List.length usizeMax loose).Flows n := fun j hj => by
          rw [hsame]
          exact hflow j hj
        rw [← Source.handed_congr hsame] at hover
        obtain ⟨k, hk⟩ := Source.guarded_fails hlt hstrict hflow' hover
        exact .inr ⟨_, k, _, rfl, hk, .inl rfl⟩
    · -- a saturated total never exceeds such a limit, so the limiter is transparent
      have hitem : ∀ n, (inner.guarded List.length usizeMax strict).item n = unlimited.item n := by
        intro n
        rw [← hsame]
        refine Source.guarded_congr (fun total htotal st => ?_) n
        rw [hstrict, if_neg (by omega)]
      have hwithin : Within max (.ok (inner.guarded List.length usizeMax strict)) ↔ Within max (.ok unlimited) := by
        constructor
        · rintro hw s n ⟨⟩
          rw [← Source.handed_congr hitem]
          exact hw _ n rfl
        · rintro hw s n ⟨⟩
          rw [Source.handed_congr hitem]
          exact hw _ n rfl
      constructor
      · intro hb _
        exact hwithin.mp hb.1
      · intro hw
        have hunl := hw (.inr hge)
        exact ⟨hwithin.mpr hunl, fun hover => absurd hover hunl.not_overruns⟩

private theorem overruns_ofList {bytes : Str} :
    Overruns max (.ok (Source.ofList [.ok bytes])) ↔ max < bytes.length := by
  constructor
  · rintro ⟨s, n, hopen, -, hover⟩
    obtain rfl := Except.ok.inj hopen
    exact Nat.lt_of_lt_of_le hover (ofList_handed bytes n)
  · intro hlong
    refine ⟨_, 1, rfl, fun j hj => ?_, ?_⟩
    · obtain rfl : j = 0 := by omega
      exact ⟨bytes, rfl⟩
    · exact Nat.lt_of_lt_of_le hlong (Nat.le_of_eq (Nat.zero_add _).symm)

/-- Opening buffered bytes after `limit_decoded_size`. -/
private def openBuffered (max : Nat) : Except Error Str → Except Error ByteSource
  | .error e => .error e
  | .ok bytes => if max < bytes.length then .error .decodedBodyTooLarge else .ok (Source.ofList [.ok bytes])

private theorem openBuffered_within (decoded : Except Error Str) : Within max (openBuffered max decoded) := by
  intro s n hopen
  cases decoded with
  | error e => cases hopen
  | ok bytes =>
    simp only [openBuffered] at hopen
    split at hopen
    · cases hopen
    · rename_i hle
      obtain rfl := Except.ok.inj hopen
      exact Nat.le_trans (ofList_handed bytes n) (by omega)

private theorem openBuffered_limit {decoded : Except Error Str} :
    EndsInLimit (openBuffered max decoded) ↔
      (∃ e : Error, e.isLimit ∧ decoded = .error e) ∨ ∃ bytes, decoded = .ok bytes ∧ max < bytes.length := by
  cases decoded with
  | error e =>
    constructor
    · rintro (⟨e', he, hlim⟩ | ⟨s, k, e', he, -, -⟩)
      · obtain rfl := Except.error.inj he
        exact .inl ⟨e, hlim, rfl⟩
      · cases he
    · rintro (⟨e', hlim, he⟩ | ⟨bytes, he, -⟩)
      · obtain rfl := Except.error.inj he
        exact .inl ⟨e, rfl, hlim⟩
      · cases he
  | ok bytes =>
    simp only [openBuffered]
    constructor
    · intro hends
      split at hends
      · rename_i hlong
        exact .inr ⟨bytes, rfl, hlong⟩
      · rcases hends with ⟨e, he, -⟩ | ⟨s, k, e, he, hfail, -⟩
        · cases he
        · obtain rfl := Except.ok.inj he
          exact absurd hfail ofList_not_fails
    · rintro (⟨e, -, he⟩ | ⟨b, hb, hlong⟩)
      · cases he
      · obtain rfl := Except.ok.inj hb
        rw [if_pos hlong]
        exact .inl ⟨_, rfl, .inl rfl⟩

private def openUnlimited : Except Error Str → Except Error ByteSource
  | .error e => .error e
  | .ok bytes => .ok (Source.ofList [.ok bytes])

private theorem overruns_openUnlimited {decoded : Except Error Str} :
    Overruns max (openUnlimited decoded) ↔ ∃ bytes, decoded = .ok bytes ∧ max < bytes.length := by
  cases decoded with
  | error e =>
    constructor
    · rintro ⟨s, n, hopen, -⟩
      cases hopen
    · rintro ⟨bytes, hd, -⟩
      cases hd
  | ok bytes =>
    rw [openUnlimited, overruns_ofList]
    exact ⟨fun h => ⟨bytes, rfl, h⟩, fun ⟨_, hd, h⟩ => Except.ok.inj hd ▸ h⟩

private theorem openBody_plain {data : Str} (hbody : r.body = .buffered data)
    (hplain : r.decompressionEnabled = false ∨ r.contentEncoding = none) :
    openBody codecs r (some max) = openBuffered max (.ok data) ∧
      openBody codecs r none = openUnlimited (.ok data) := by
  have hdecoded : ∀ size, decodedBody codecs r size = .ok (.buffered data) := by
    intro size
    unfold decodedBody
    rcases hplain with h | h
    · simp [h, hbody]
    · simp [h, hbody, applyDecompression]
  refine ⟨?_, ?_⟩
  · simp only [openBody, finalizeResponse, hdecoded, ResponseBody.limitDecodedSize, openBuffered]
    by_cases hlong : max < data.length <;> simp [hlong, ResponseBody.bytesStream]
  · simp only [openBody, finalizeResponse, hdecoded]
    rfl

private theorem openBody_coded {data ce : Str} (hbody : r.body = .buffered data)
    (henabled : r.decompressionEnabled = true) (hce : r.contentEncoding = some ce) :
    openBody codecs r (some max) =
        openBuffered max (decompressBuffered codecs data ce ⟨some max, r.maxDecompressionRatio⟩) ∧
      openBody codecs r none =
        openUnlimited (decompressBuffered codecs data ce ⟨none, r.maxDecompressionRatio⟩) := by
  have hdecoded : ∀ size, decodedBody codecs r size =
      (decompressBuffered codecs data ce ⟨size, r.maxDecompressionRatio⟩).map .buffered := by
    intro size
    simp only [decodedBody, henabled, if_true, applyDecompression, hce, hbody, decompressBuffered]
    cases (⟨size, r.maxDecompressionRatio⟩ : DecompressionLimit).validate with
    | error e => rfl
    | ok =>
      cases validateContentEncodings ce with
      | error e => rfl
      | ok encodings =>
        split <;> rename_i hdecode <;> rw [hdecode] <;> rfl
  refine ⟨?_, ?_⟩
  · simp only [openBody, finalizeResponse, hdecoded]
    cases decompressBuffered codecs data ce ⟨some max, r.maxDecompressionRatio⟩ with
    | error e => rfl
    | ok bytes =>
      simp only [Except.map, ResponseBody.limitDecodedSize, openBuffered]
      by_cases hlong : max < bytes.length <;> simp [hlong, ResponseBody.bytesStream]
  · simp only [openBody, finalizeResponse, hdecoded]
    cases decompressBuffered codecs data ce ⟨none, r.maxDecompressionRatio⟩ <;> rfl

private theorem openBody_consumed (hbody : r.body = .consumed) (size : Option Nat) :
    ∃ e, openBody codecs r size = .error e := by
  have hdecoded : decodedBody codecs r size = .ok .consumed ∨ ∃ e, decodedBody codecs r size = .error e := by
    simp only [decodedBody, hbody, applyDecompression]
    cases r.decompressionEnabled with
    | false => exact .inl rfl
    | true =>
      cases r.contentEncoding with
      | none => exact .inl rfl
      | some ce =>
        simp only [if_true]
        cases (⟨size, r.maxDecompressionRatio⟩ : DecompressionLimit).validate with
        | error e => exact .inr ⟨e, rfl⟩
        | ok =>
          cases validateContentEncodings ce with
          | error e => exact .inr ⟨e, rfl⟩
          | ok => exact .inl rfl
  rcases hdecoded with h | ⟨e, h⟩
  · cases size <;> exact ⟨alreadyConsumed, by simp only [openBody, finalizeResponse, h]; rfl⟩
  · exact ⟨e, by simp only [openBody, finalizeResponse, h]⟩

private theorem finalVerdict_ok {limit : DecompressionLimit} {tighter : Bool} {len : Nat} {x y : Str}
    (h : finalVerdict limit tighter len x = .ok y) :
    y = x ∧ limit.maxDecodedBodySize.any (· < x.length) = false := by
  unfold finalVerdict at h
  simp only at h
  cases hsize : limit.maxDecodedBodySize.any (· < x.length) with
  | true =>
    rw [hsize] at h
    split at h
    · cases h
    · rename_i hratio
      simp at h
  | false =>
    rw [hsize] at h
    simp only [Bool.false_and, Bool.false_eq_true, if_false] at h
    split at h
    · cases h
    · exact ⟨(Except.ok.inj h).symm, rfl⟩

private theorem finalVerdict_over {ratio : Option Ratio} {len : Nat} {x : Str}
    (hlong : max < x.length) :
    finalVerdict ⟨some max, ratio⟩ false len x = .error .decodedBodyTooLarge := by
  unfold finalVerdict
  simp only [Option.any_some, hlong, decide_true, Bool.true_and, if_true]
  split <;> rfl

private theorem decompressBuffered_coded {data ce x : Str} {encodings : List ContentCoding} {ratio : Option Ratio}
    (hparse : parseContentEncodings ce = some encodings)
    (h : decompressBuffered codecs data ce ⟨none, ratio⟩ = .ok x) (hlong : max < x.length) :
    ∀ size, decompressBuffered codecs data ce ⟨size, ratio⟩ =
      decodeThen codecs ratio (OutputLimit.of ⟨size, ratio⟩ data.length)
        (finalVerdict ⟨size, ratio⟩ (OutputLimit.of ⟨size, ratio⟩ data.length).ratioIsTighter data.length)
        encodings.reverse data := by
  intro size
  have hvalidate : (⟨size, ratio⟩ : DecompressionLimit).validate = (⟨none, ratio⟩ : DecompressionLimit).validate := rfl
  simp only [decompressBuffered, hvalidate, hparse] at h ⊢
  obtain ⟨⟨u, hu⟩, h⟩ := requiring_ok h
  obtain ⟨⟨v, hv⟩, h⟩ := requiring_ok h
  simp only [hu, hv, requiring]
  split at h
  · cases h
  · rename_i hdepth
    rw [if_neg hdepth]
    split at h
    · obtain rfl := Except.ok.inj h
      cases hlong
    · rename_i hdata
      rw [if_neg hdata]
      rfl

/-- With a size limit above every ratio budget the ratio alone would have stopped a longer body. -/
private theorem outputLimit_of {ratio : Option Ratio} {data x : Str} {encodings : List ContentCoding}
    (hne : encodings ≠ [])
    (h : decodeThen codecs ratio (OutputLimit.of ⟨none, ratio⟩ data.length)
      (finalVerdict ⟨none, ratio⟩ (OutputLimit.of ⟨none, ratio⟩ data.length).ratioIsTighter data.length)
      encodings data = .ok x) (hlong : max < x.length) :
    (∀ q, (OutputLimit.of ⟨none, ratio⟩ data.length).outputLimit = some q → max < q) ∧
      OutputLimit.of ⟨some max, ratio⟩ data.length = sizeOnly max := by
  have hbudget : ∀ q, (OutputLimit.of ⟨none, ratio⟩ data.length).outputLimit = some q → max < q := by
    intro q hq
    rcases hof : OutputLimit.of ⟨none, ratio⟩ data.length with ⟨outputLimit, tighter⟩
    rw [hof] at hq h
    obtain rfl : outputLimit = some q := hq
    simp only [decodeThen] at h
    split at h
    · cases h
    · rename_i output hlayers
      obtain ⟨rfl, -⟩ := finalVerdict_ok h
      have := decodeLayers_le hlayers fun hnil => absurd hnil hne
      omega
  refine ⟨hbudget, ?_⟩
  cases ratio with
  | none => rfl
  | some ratio =>
    have hlt := hbudget (min (ratio.budget data.length) usizeMax) rfl
    have hmin : min max (min (ratio.budget data.length) usizeMax) = max := by omega
    simp only [OutputLimit.of, Option.map_some, hmin, sizeOnly, OutputLimit.mk.injEq, true_and,
      Option.isSome_some, Bool.true_and]
    simpa using Nat.ne_of_gt hlt

private theorem coded_iff {data ce : Str} (ratio : Option Ratio) :
    (Overruns max (openUnlimited (decompressBuffered codecs data ce ⟨none, ratio⟩)) →
      EndsInLimit (openBuffered max (decompressBuffered codecs data ce ⟨some max, ratio⟩))) ↔
    ∀ encodings, parseContentEncodings ce = some encodings →
      Overruns max (openUnlimited (decompressBuffered codecs data ce ⟨none, ratio⟩)) →
      RetryFails codecs ratio max (finalVerdict ⟨some max, ratio⟩ false data.length) encodings.reverse data := by
  by_cases hover : Overruns max (openUnlimited (decompressBuffered codecs data ce ⟨none, ratio⟩))
  · obtain ⟨x, hx, hlong⟩ := overruns_openUnlimited.mp hover
    cases hparse : parseContentEncodings ce with
    | none =>
      -- only no-op tokens: the data is served unchanged and limited afterwards
      refine ⟨fun _ _ => (by intro h; cases h), fun _ _ => openBuffered_limit.mpr (.inr ⟨x, ?_, hlong⟩)⟩
      rw [← hx]
      simp only [decompressBuffered, hparse]
      rfl
    | some encodings =>
      have hsame := decompressBuffered_coded hparse hx hlong
      have hne : encodings.reverse ≠ [] := by simpa using parseContentEncodings_ne_nil hparse
      rw [hsame none] at hx
      obtain ⟨hbudget, hof⟩ := outputLimit_of hne hx hlong
      have hiff : (∃ e : Error, e.isLimit ∧ decodeThen codecs ratio (sizeOnly max)
            (finalVerdict ⟨some max, ratio⟩ false data.length) encodings.reverse data = .error e) ↔
          RetryFails codecs ratio max (finalVerdict ⟨some max, ratio⟩ false data.length) encodings.reverse data :=
        decodeThen_iff (fun q hq => Nat.le_of_lt (hbudget q hq)) (fun _ _ h => (finalVerdict_ok h).1)
          (fun _ hlong => finalVerdict_over hlong) hx hlong
      have hlimited : EndsInLimit (openBuffered max (decompressBuffered codecs data ce ⟨some max, ratio⟩)) ↔
          RetryFails codecs ratio max (finalVerdict ⟨some max, ratio⟩ false data.length) encodings.reverse data := by
        rw [openBuffered_limit, hsame (some max), hof, ← hiff]
        constructor
        · rintro (hfail | ⟨y, hy, hylong⟩)
          · exact hfail
          · simp only [decodeThen] at hy
            split at hy
            · cases hy
            · obtain ⟨rfl, hsize⟩ := finalVerdict_ok hy
              simp at hsize
              omega
        · exact .inl
      constructor
      · intro himp encodings' heq _
        obtain rfl := Option.some.inj heq
        exact hlimited.mp (himp hover)
      · intro hall _
        exact hlimited.mpr (hall encodings rfl hover)
  · exact ⟨fun _ _ _ h => absurd h hover, fun _ h => absurd h hover⟩

end

/-- The limit holds for a response, in both consumption modes, exactly when it binds. -/
theorem bounded_iff (codecs : Codecs) (r : Transported) (max : Nat) :
    Bounded codecs r max ↔ LimitBinds codecs r max := by
  constructor
  · rintro ⟨hstreamed, -, hfails, -⟩
    refine ⟨fun hstream hnoop => ?_, fun data ce encodings hbody henabled hce hparse hover => ?_⟩
    · exact (openBody_opened hstream).limit_iff.mp ⟨hstreamed, hfails⟩ hnoop
    · obtain ⟨hlimited, hunlimited⟩ := @openBody_coded codecs r max data ce hbody henabled hce
      rw [hlimited, hunlimited] at hfails
      rw [hunlimited] at hover
      exact (coded_iff _).mp hfails encodings hparse hover
  · rintro ⟨hguarded, hretried⟩
    cases hbody : r.body with
    | streaming | encodedStreaming =>
      have hstream : r.body.isStreaming = true := by rw [hbody]; rfl
      obtain ⟨hwithin, hfails⟩ := (openBody_opened hstream).limit_iff.mpr (hguarded hstream)
      exact .of_stream hwithin hfails
    | buffered data =>
      by_cases hplain : r.decompressionEnabled = false ∨ r.contentEncoding = none
      · obtain ⟨hlimited, hunlimited⟩ := @openBody_plain codecs r max data hbody hplain
        refine .of_stream (by rw [hlimited]; exact openBuffered_within _) fun hover => ?_
        rw [hunlimited, overruns_openUnlimited] at hover
        rw [hlimited]
        exact openBuffered_limit.mpr (.inr hover)
      · obtain ⟨henabled, hce⟩ := not_or.mp hplain
        obtain ⟨ce, hce⟩ := Option.ne_none_iff_exists'.mp hce
        have henabled : r.decompressionEnabled = true := by simpa using henabled
        obtain ⟨hlimited, hunlimited⟩ := @openBody_coded codecs r max data ce hbody henabled hce
        refine .of_stream (by rw [hlimited]; exact openBuffered_within _) ?_
        rw [hlimited, hunlimited]
        refine (coded_iff _).mpr fun encodings hparse hover => ?_
        exact hretried data ce encodings hbody henabled hce hparse (by rw [hunlimited]; exact hover)
    | consumed =>
      have hclosed : ∀ size s, openBody codecs r size ≠ .ok s := by
        intro size s hopen
        obtain ⟨e, he⟩ := @openBody_consumed codecs r hbody size
        rw [he] at hopen
        cases hopen
      exact .of_stream (fun s _ hopen => absurd hopen (hclosed _ s))
        fun ⟨s, _, hopen, _⟩ => absurd hopen (hclosed _ s)

private def plainCodecs : Codecs where
  decoder _ input := ⟨input.State, input.init, input.poll, id⟩
  reads _ data := [.ok data]

/-- Two bytes over the wire under `Content-Encoding: identity`. -/
private def identityResponse : Transported where
  body := .streaming (Source.ofList [.ok (utf8 "ab")])
  contentEncoding := some (utf8 "identity")
  decompressionEnabled := true
  maxDecompressionRatio := none

/-- A streaming identity body runs past a limit of one byte. -/
theorem identity_unbounded : ¬ ∀ codecs r max, Bounded codecs r max := by
  intro hall
  have hopen : openBody plainCodecs identityResponse (some 1) = .ok (Source.ofList [.ok (utf8 "ab")]) := rfl
  have hle := (hall plainCodecs identityResponse 1).streamed _ 1 hopen
  exact absurd hle (by decide)

end Eggfetch.Compression
