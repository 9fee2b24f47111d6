import Eggfetch.AltSvc.Endpoints
import Eggfetch.AltSvc.Model
import Eggfetch.AltSvc.Rfc

/-! What `learn` takes from an `Alt-Svc` value. -/
namespace Eggfetch.AltSvc
open Text

/-- The texts that the parsers cut out of a value, or unescape from it. -/
inductive Taken (value : Str) : Str → Prop
  | item {part : Str} : part ∈ splitHeaderList value → Taken value part
  | trimmed {s : Str} : Taken value s → Taken value (trim s)
  | trimmedStart {s : Str} : Taken value s → Taken value (trimStart s)
  | before {s : Str} {sep : UInt8} : sep = equals ∨ sep = closeBracket → Taken value s → Taken value (s.takeWhile (· != sep))
  | behind {s : Str} {sep : UInt8} : sep = equals ∨ sep = closeBracket → sep ∈ s → Taken value s →
    Taken value (s.dropWhile (· != sep)).tail
  | authority {s authority rest : Str} : Taken value s → parseQuotedString s = some (authority, rest) → Taken value authority
  | remainder {s authority rest : Str} : Taken value s → parseQuotedString s = some (authority, rest) → Taken value rest
  | param {s piece : Str} : Taken value s → piece ∈ s.splitOn semicolon → Taken value piece
  | stripped {s : Str} {first : UInt8} : first = openBracket ∨ first = colon → Taken value (first :: s) → Taken value s
  | host {s : Str} {i : Nat} : Taken value s → rfind colon s = some i → Taken value (s.take i)
  | port {s : Str} {i : Nat} : Taken value s → rfind colon s = some i → Taken value (s.drop (i + 1))

theorem isText_splitHeaderListFrom {part s : Str} (h : IsText (part ++ s)) (inQuotes escaped : Bool) :
    ∀ piece ∈ splitHeaderListFrom part inQuotes escaped s, IsText piece := by
  induction s generalizing part inQuotes escaped with
  | nil =>
    intro piece hPiece
    rw [splitHeaderListFrom, List.mem_singleton] at hPiece
    rwa [hPiece, ← List.append_nil part]
  | cons b s ih =>
    have hNext : IsText ((part ++ [b]) ++ s) := by rwa [List.append_assoc]
    rw [splitHeaderListFrom]
    split_ifs with hEscaped hSlash hQuote hComma
    · exact ih hNext _ _
    · exact ih hNext _ _
    · exact ih hNext _ _
    · rw [hComma.1] at h
      obtain ⟨hPart, hRest⟩ := h.cut (by decide)
      intro piece hPiece
      rcases List.mem_cons.mp hPiece with rfl | hPiece
      · exact hPart
      · exact @ih [] hRest _ _ piece hPiece
    · exact ih hNext _ _

private theorem isText_latin1Char (b : UInt8) : IsText (latin1Char b) := by
  have hAll : (List.range 256).all (fun n =>
      latin1Char (UInt8.ofNat n) == String.utf8EncodeChar (Char.ofNat n)) = true := by decide +kernel
  have hChar := List.all_eq_true.mp hAll b.toNat (List.mem_range.mpr b.toNat_lt)
  rw [UInt8.ofNat_toNat, beq_iff_eq] at hChar
  exact isText_iff.mpr ⟨[Char.ofNat b.toNat], by rw [hChar, encode, List.flatMap_singleton]⟩

private theorem isText_flatMap_latin1Char (s : Str) : IsText (s.flatMap latin1Char) := by
  induction s with
  | nil => exact IsText.nil
  | cons b s ih => exact IsText.append (isText_latin1Char b) ih

private theorem parseQuotedString_some {s authority rest : Str} (h : parseQuotedString s = some (authority, rest)) :
    ∃ content, s = quote :: (content ++ quote :: rest) ∧ readQuoted content = some authority := by
  cases s with
  | nil => cases h
  | cons b s =>
    by_cases hQuote : b = quote
    · subst hQuote
      rcases closed_or_open s with ⟨content, tail, hClosed, rfl⟩ | hOpen
      · rw [parseQuotedString_closed hClosed] at h
        obtain ⟨found, hFound, hEq⟩ := Option.map_eq_some_iff.mp h
        obtain ⟨rfl, rfl⟩ := Prod.mk.inj hEq
        exact ⟨content, rfl, hFound⟩
      · rw [parseQuotedString, if_pos rfl, parseQuotedFrom_unclosed (unclosed_of_lexFrom (hOpen []))] at h
        cases h
    · rw [parseQuotedString, if_neg hQuote] at h
      cases h

private theorem isText_readQuoted {content authority : Str} (h : readQuoted content = some authority) : IsText authority := by
  obtain ⟨spelled, -, hSpelled⟩ := Option.bind_eq_some_iff.mp h
  split_ifs at hSpelled with hShort
  rw [← Option.some.inj hSpelled]
  exact isText_flatMap_latin1Char spelled

private theorem isText_taken {value s : Str} (hValue : IsText value) (h : Taken value s) : IsText s := by
  induction h with
  | item hPart => exact isText_splitHeaderListFrom (by rwa [List.nil_append]) _ _ _ hPart
  | trimmed _ ih => exact ih.trim
  | trimmedStart _ ih => exact ih.trimStart
  | @before s sep hSep _ ih =>
    have hAscii : sep < 0x80 := by rcases hSep with rfl | rfl <;> decide
    by_cases hMem : sep ∈ s
    · exact (IsText.cut hAscii ((takeWhile_append_tail hMem).symm ▸ ih)).1
    · rwa [takeWhile_whole hMem]
  | @behind s sep hSep hMem _ ih =>
    have hAscii : sep < 0x80 := by rcases hSep with rfl | rfl <;> decide
    exact (IsText.cut hAscii ((takeWhile_append_tail hMem).symm ▸ ih)).2
  | authority _ hParse _ =>
    obtain ⟨content, -, hContent⟩ := parseQuotedString_some hParse
    exact isText_readQuoted hContent
  | remainder _ hParse ih =>
    obtain ⟨content, rfl, -⟩ := parseQuotedString_some hParse
    exact (IsText.cut (x := quote :: content) (by decide) ih).2
  | param _ hPiece ih => exact ih.splitOn (by decide) _ hPiece
  | @stripped s first hFirst _ ih =>
    have hAscii : first < 0x80 := by rcases hFirst with rfl | rfl <;> decide
    exact (IsText.cut (x := []) hAscii ih).2
  | host _ hColon ih => exact (IsText.cut (by decide) ((rfind_append hColon).symm ▸ ih)).1
  | port _ hColon ih => exact (IsText.cut (by decide) ((rfind_append hColon).symm ▸ ih)).2

/-- The endpoint of the first usable one among the first sixteen items that `read` accepts. -/
def Learns (read : Str → Option ParsedAlternative) (origin : AltSvcOrigin) (value : Str) (now : Instant)
    (endpoint : Option (Str × Nat × Instant)) : Prop :=
  FirstFound (Advertises origin now) (((items value).filterMap read).take altSvcMaxAlternatives) endpoint

theorem learns_iff {read : Str → Option ParsedAlternative} {origin : AltSvcOrigin} {value : Str} {now : Instant}
    {endpoint : Option (Str × Nat × Instant)} :
    Learns read origin value now endpoint ↔
      endpoint = (((items value).filterMap read).take altSvcMaxAlternatives).findSome? (usableAlternative origin now) :=
  firstFound_iff (fun _ _ => usableAlternative_iff) _ _

instance decidableSemicolonsOutside (item : Str) : Decidable (SemicolonsOutside item) :=
  decidable_of_iff (∀ p ∈ parts item, ∀ lexeme ∈ p.rest, semicolon ∉ lexeme.inner) Iff.rfl

section
variable {origin : AltSvcOrigin} {value : Str} {now : Instant}

theorem best_eq (h : ∀ item ∈ items value, SemicolonsOutside item) :
    best origin value now =
      (((items value).filterMap readItem).take altSvcMaxAlternatives).findSome? (usableAlternative origin now) := by
  have hParsed : (items value).filterMap parseAlternative = (items value).filterMap readItem :=
    List.filterMap_congr fun item hItem => parseAlternative_eq (h item hItem)
  rw [best, parseAlternatives, splitHeaderList_eq, hParsed]

private theorem mem_trimMatches {a b : UInt8} {s : Str} (hNe : b ≠ a) (h : b ∈ s) : b ∈ trimMatches a s := by
  rw [← List.takeWhile_append_dropWhile (p := (· == a)) (l := s)] at h
  have hFirst : b ∈ s.dropWhile (· == a) :=
    (List.mem_append.mp h).resolve_left fun hMem => hNe (beq_iff_eq.mp (List.mem_takeWhile_imp (p := (· == a)) hMem))
  rw [← List.rdropWhile_append_rtakeWhile (p := (· == a)) (l := s.dropWhile (· == a))] at hFirst
  exact (List.mem_append.mp hFirst).resolve_right fun hMem => hNe (beq_iff_eq.mp (List.mem_rtakeWhile_imp (p := (· == a)) hMem))

private theorem equals_not_mem_clear (h : isClearValue value = true) : equals ∉ value := by
  intro hMem
  have hTrim : equals ∈ trim value := (mem_trim_iff equals_blank value).mpr hMem
  have hMatches : equals ∈ trimMatches quote (trim value) := mem_trimMatches (by decide) hTrim
  have hClear := not_clear_of_equals ((mem_trim_iff equals_blank _).mpr hMatches)
  rw [isClearValue, hClear] at h
  cases h

private theorem mem_of_mem_splitHeaderListFrom {b : UInt8} {part s piece : Str} {inQuotes escaped : Bool}
    (hPiece : piece ∈ splitHeaderListFrom part inQuotes escaped s) (hb : b ∈ piece) : b ∈ part ++ s := by
  induction s generalizing part inQuotes escaped with
  | nil =>
    rw [splitHeaderListFrom, List.mem_singleton] at hPiece
    rwa [List.append_nil, ← hPiece]
  | cons c s ih =>
    have hNext : ∀ {inQuotes escaped}, piece ∈ splitHeaderListFrom (part ++ [c]) inQuotes escaped s → b ∈ part ++ c :: s :=
      fun hMem => by simpa using ih hMem
    rw [splitHeaderListFrom] at hPiece
    split_ifs at hPiece with hEscaped hSlash hQuote hComma
    · exact hNext hPiece
    · exact hNext hPiece
    · exact hNext hPiece
    · rcases List.mem_cons.mp hPiece with rfl | hPiece
      · exact List.mem_append_left _ hb
      · exact List.mem_append_right _ (List.mem_cons_of_mem c (@ih [] _ _ hPiece))
    · exact hNext hPiece

private theorem best_of_clear (h : isClearValue value = true) : best origin value now = none := by
  have hNone : (splitHeaderList value).filterMap parseAlternative = [] := by
    rw [List.filterMap_eq_nil_iff]
    intro part hPart
    rw [parseAlternative_cut, if_neg]
    rintro ⟨hMem, -⟩
    have hValue := mem_of_mem_splitHeaderListFrom hPart ((mem_trim_iff equals_blank part).mp hMem)
    exact equals_not_mem_clear h hValue
  rw [best, parseAlternatives, hNone]
  rfl

end

/-- The cache and the outcome follow the endpoint that is found. -/
theorem learnCounted_eq {cache : AltSvcCache} {origin : AltSvcOrigin} {values : List Str} {now : Instant} {pick : Nat}
    (hValues : values ≠ []) (hSize : ((utf8 ", ").intercalate values).length ≤ altSvcMaxHeaderBytes) :
    ((cache.learnCounted origin values now pick).1.1 = .learned ↔
        (best origin ((utf8 ", ").intercalate values) now).isSome = true) ∧
      (cache.learnCounted origin values now pick).2 =
        match best origin ((utf8 ", ").intercalate values) now with
        | some (altHost, altPort, expiresAt) => cache.store origin altHost altPort expiresAt pick
        | none => cache.remove origin := by
  have hNotEmpty : ¬ values.isEmpty = true := fun h => hValues (List.isEmpty_iff.mp h)
  rw [AltSvcCache.learnCounted, if_neg hNotEmpty]
  dsimp only
  rw [if_neg (Nat.not_lt.mpr hSize)]
  by_cases hClear : isClearValue (trim ((utf8 ", ").intercalate values)) = true
  · rw [isClearValue, trim_idem, ← isClearValue] at hClear
    rw [best_of_clear hClear, isClearValue, trim_idem, ← isClearValue, if_pos hClear]
    exact ⟨⟨fun h => (by cases h), fun h => (by cases h)⟩, rfl⟩
  · rw [if_neg hClear]
    cases best origin ((utf8 ", ").intercalate values) now with
    | none =>
      dsimp only
      split_ifs
      · exact ⟨⟨fun h => (by cases h), fun h => (by cases h)⟩, rfl⟩
      · exact ⟨⟨fun h => (by cases h), fun h => (by cases h)⟩, rfl⟩
    | some endpoint => exact ⟨⟨fun _ => rfl, fun _ => rfl⟩, rfl⟩

/-- An `Alt-Svc` value is learned as its lexemes read, the items of the grammar among them as it reads them,
and no slice divides a character. -/
theorem learned_as_read (cache : AltSvcCache) (origin : AltSvcOrigin) (values : List Str) (now : Instant) (pick : Nat)
    (hValues : values ≠ []) (hSize : ((utf8 ", ").intercalate values).length ≤ altSvcMaxHeaderBytes)
    (hOutside : ∀ item ∈ items ((utf8 ", ").intercalate values), SemicolonsOutside item) :
    (∃ endpoint, Learns readItem origin ((utf8 ", ").intercalate values) now endpoint ∧
      ((cache.learnCounted origin values now pick).1.1 = .learned ↔ endpoint.isSome = true) ∧
      (cache.learnCounted origin values now pick).2 =
        match endpoint with
        | some (altHost, altPort, expiresAt) => cache.store origin altHost altPort expiresAt pick
        | none => cache.remove origin) ∧
    (∀ item alt, rfcItem item = some alt → Plain item → readItem item = some alt) ∧
    ∀ s, IsText ((utf8 ", ").intercalate values) → Taken ((utf8 ", ").intercalate values) s → IsText s := by
  refine ⟨⟨best origin ((utf8 ", ").intercalate values) now, ?_, learnCounted_eq hValues hSize⟩,
    fun item alt => readItem_of_rfcItem, fun s => isText_taken⟩
  rw [learns_iff, best_eq hOutside]

theorem learned_as_read_quoted :
    ∃ endpoint, Learns readItem ⟨utf8 "https", utf8 "a.test", 443⟩
    (utf8 "h2=\"x:1\", h3=\":443\"; x=\"a,b=c\"; ma=60") 0 endpoint ∧
      ((AltSvcCache.new.learnCounted ⟨utf8 "https", utf8 "a.test", 443⟩
          [utf8 "h2=\"x:1\"", utf8 "h3=\":443\"; x=\"a,b=c\"; ma=60"] 0 0).1.1 = .learned ↔ endpoint.isSome = true) := by
  obtain ⟨⟨endpoint, hLearns, hOutcome, -⟩, -⟩ := learned_as_read AltSvcCache.new ⟨utf8 "https", utf8 "a.test", 443⟩
    [utf8 "h2=\"x:1\"", utf8 "h3=\":443\"; x=\"a,b=c\"; ma=60"] 0 0 (by decide) (by decide) (by decide)
  exact ⟨endpoint, hLearns, hOutcome⟩

def AltSvcCache.endpoint (cache : AltSvcCache) (origin : AltSvcOrigin) : Option (Str × Nat × Instant) :=
  (cache.entries.lookup origin).map fun entry => (entry.altHost, entry.altPort, entry.expiresAt)

/-- A parameter without a value is let through, and a quoted `;` ends one. -/
theorem not_learned_by_grammar :
    ¬ Learns rfcItem ⟨utf8 "https", utf8 "a.test", 443⟩ (utf8 "h3=\":443\"; persist, h3=\":8443\"") 0
      ((AltSvcCache.new.learnCounted ⟨utf8 "https", utf8 "a.test", 443⟩ [utf8 "h3=\":443\"; persist, h3=\":8443\""]
        0 0).2.endpoint
        ⟨utf8 "https", utf8 "a.test", 443⟩) ∧
    ¬ Learns rfcItem ⟨utf8 "https", utf8 "a.test", 443⟩ (utf8 "h3=\":443\"; foo=\"a;ma=0\"") 0
      ((AltSvcCache.new.learnCounted ⟨utf8 "https", utf8 "a.test", 443⟩ [utf8 "h3=\":443\"; foo=\"a;ma=0\""] 0 0).2.endpoint
        ⟨utf8 "https", utf8 "a.test", 443⟩) := by
  refine ⟨?_, ?_⟩
  · rw [learns_iff]
    decide
  · rw [learns_iff]
    decide

end Eggfetch.AltSvc
