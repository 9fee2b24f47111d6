import Eggfetch.Http.Url
import Eggfetch.Text.Search
import Eggfetch.Text.Slices

/-! URLs in logs and error messages (`redact.rs`). -/
namespace Eggfetch.Http
open Text

namespace Url

/-- `set_username` and `set_password` refuse such a URL. -/
def cannotHaveCredentials (url : Url) : Bool := url.host.getD [] = [] ∨ url.scheme = utf8 "file"

def cannotBeABase (url : Url) : Bool := url.host.isNone && url.path.head? != some 0x2f

def setUsername (url : Url) (username : Str) : Url :=
  if url.cannotHaveCredentials then url else { url with username := username }

def setPassword (url : Url) (password : Option Str) : Url :=
  if url.cannotHaveCredentials then url else { url with password := password }

def stripTrailingSpacesFromOpaquePath (url : Url) : Url :=
  if url.cannotBeABase ∧ url.query = none ∧ url.fragment = none then
    { url with path := url.path.rdropWhile (· == 0x20) }
  else url

def clearQuery (url : Url) : Url := { url with query := none }.stripTrailingSpacesFromOpaquePath

def clearFragment (url : Url) : Url := { url with fragment := none }.stripTrailingSpacesFromOpaquePath

def redacted (url : Url) : Url :=
  let safe := url.setUsername []
  let safe := safe.setPassword none
  let safe := safe.clearQuery
  safe.clearFragment

/-- What is left of a URL without its userinfo, query and fragment. -/
def shown (url : Url) : Str × Option Str × Option Nat × Str := (url.scheme, url.host, url.port, url.path)

end Url

/-- The URL parser and serializer of the `high-level-url` feature. -/
structure UrlCrate where
  parse : Str → Option Url
  toString : Url → Str

def redactUrl (lib : UrlCrate) (url : Url) : Str := lib.toString url.redacted

def isMark (b : UInt8) : Bool := b == 0x3f || b == 0x23

def stripUserinfoBestEffort (input : Str) : Str :=
  let authorityStart := (find (utf8 "://") input).elim 0 (· + 3)
  let before := input.take authorityStart
  let rest := input.drop authorityStart
  let stripped := (rfind 0x40 rest).elim rest fun i => rest.drop (i + 1)
  if rfind 0x40 rest = none then before ++ stripped.takeWhile (!isMark ·)
  else before ++ stripped.takeWhile (!isMark ·)

def redactUrlString (lib : Option UrlCrate) (urlStr : Str) : Str :=
  match lib with
  | some lib =>
    match lib.parse urlStr with
    | some url => redactUrl lib url
    | none => stripUserinfoBestEffort urlStr
  | none => stripUserinfoBestEffort urlStr

def isLetter (b : UInt8) : Bool := 0x61 ≤ asciiLower b && asciiLower b ≤ 0x7a

/-- A letter, and then letters, digits, `+`, `-` and `.`. -/
def isScheme (s : Str) : Bool :=
  s.head?.any isLetter && s.all fun b => isLetter b || isDigit b || b == 0x2b || b == 0x2d || b == 0x2e

def isSpecial (s : Str) : Bool := ["http", "https", "ws", "wss", "ftp", "file"].map utf8 |>.contains (toAsciiLowercase s)

structure Userinfo (u : Str) : Prop where
  isText : IsText u
  free : ∀ b ∈ [0x2f, 0x3f, 0x23, 0x40], b ∉ u

/-- What stands around the userinfo: the scheme, and what follows up to the first `?` or `#`. -/
structure Frame where
  scheme : Option Str
  head : Str
  mark : Option UInt8
  isScheme : ∀ s ∈ scheme, isScheme s = true
  isText : IsText head
  unmarked : ∀ b ∈ head, isMark b = false
  isMark : ∀ b ∈ mark, isMark b = true

namespace Frame

def tail (f : Frame) (after : Str) : Str := f.mark.elim [] (· :: after)

/-- `[scheme://]userinfo@rest`. -/
def text (f : Frame) (u after : Str) : Str :=
  f.scheme.elim [] (· ++ utf8 "://") ++ (u ++ 0x40 :: (f.head ++ f.tail after))

def Hidden (lib : Option UrlCrate) (f : Frame) : Prop :=
  ∀ u u' after after', Userinfo u → Userinfo u' → IsText after → IsText after' →
    redactUrlString lib (f.text u after) = redactUrlString lib (f.text u' after')

/-- With the parser: the scheme is given and not special, and nothing is left out or the text parses. Without it:
nothing is left out, and a missing scheme is not made up for by a later `://`. -/
def Safe (lib : Option UrlCrate) (f : Frame) : Prop :=
  match lib with
  | some lib => (∃ s ∈ f.scheme, isSpecial s = false) ∧ (f.mark = none ∨ lib.parse (f.text [] []) ≠ none)
  | none => f.mark = none ∧ (f.scheme = none → ¬ utf8 "://" <:+: f.head)

end Frame

/-- What the URL Standard says of the parser and the serializer. -/
structure UrlStandard (lib : UrlCrate) : Prop where
  /-- An authority's userinfo ends at its last `@`, and a `\` ends the authority of a special URL. -/
  userinfo {f : Frame} {s u after : Str} (hScheme : f.scheme = some s) (hu : Userinfo u)
    (hSpecial : isSpecial s = true → 0x5c ∉ u) (hAfter : IsText after) :
    (lib.parse (f.text u after)).map Url.shown = (lib.parse (f.text [] after)).map Url.shown
  /-- The query and the fragment are parsed last, and any text is one. -/
  query {f : Frame} {s after : Str} (hScheme : f.scheme = some s) (hAfter : IsText after) :
    (lib.parse (f.text [] after)).map Url.shown = (lib.parse (f.text [] [])).map Url.shown
  credentials {s : Str} {url : Url} (hParse : lib.parse s = some url) :
    url.username = [] ∧ url.password = none ∨ url.cannotHaveCredentials = false
  backslash {f : Frame} {s : Str} {c : UInt8} (hScheme : f.scheme = some s) (hSpecial : isSpecial s = true)
    (hc : c ∈ [0x61, 0x62]) : ∃ url, lib.parse (f.text [c, 0x5c] []) = some url ∧ url.host = some [c]
  opaquePath {f : Frame} {c : UInt8} (hScheme : f.scheme = none) (hc : c ∈ [0x61, 0x62]) :
    ∃ url, lib.parse (f.text [c, 0x3a] []) = some url ∧ url.scheme = [c]
  serialized {s s' : Str} {url url' : Url} (hParse : lib.parse s = some url) (hParse' : lib.parse s' = some url')
    (hEq : redactUrl lib url = redactUrl lib url') : url.scheme = url'.scheme ∧ url.host = url'.host

section
variable {f : Frame} {u u' after after' s s' x y : Str} {lib : UrlCrate} {url url' : Url}

namespace Url

def barePath (host : Option Str) (path : Str) : Str :=
  if (host.isNone && path.head? != some 0x2f) = true then path.rdropWhile (· == 0x20) else path

private theorem barePath_barePath (host : Option Str) (path : Str) : barePath host (barePath host path) = barePath host path := by
  by_cases hOpaque : (host.isNone && path.head? != some 0x2f) = true
  · have hTrimmed : barePath host path = path.rdropWhile (· == 0x20) := if_pos hOpaque
    rw [Bool.and_eq_true, bne_iff_ne] at hOpaque
    have hStays : (host.isNone && (path.rdropWhile (· == 0x20)).head? != some 0x2f) = true := by
      rw [Bool.and_eq_true, bne_iff_ne]
      refine ⟨hOpaque.1, fun hHead => hOpaque.2 ?_⟩
      obtain ⟨rest, hPath⟩ := List.rdropWhile_prefix (· == (0x20 : UInt8)) (l := path)
      rw [← hPath, List.head?_append, hHead, Option.some_or]
    rw [hTrimmed, barePath, if_pos hStays, List.rdropWhile_idempotent]
  · have hKept : barePath host path = path := if_neg hOpaque
    rw [hKept, hKept]

theorem strip_bare (hQuery : url.query = none) (hFragment : url.fragment = none) :
    url.stripTrailingSpacesFromOpaquePath = { url with path := barePath url.host url.path } := by
  rw [stripTrailingSpacesFromOpaquePath, barePath, cannotBeABase]
  by_cases hOpaque : (url.host.isNone && url.path.head? != some 0x2f) = true
  · rw [if_pos ⟨hOpaque, hQuery, hFragment⟩, if_pos hOpaque]
  · rw [if_neg fun h => hOpaque h.1, if_neg hOpaque]

theorem clear_bare (url : Url) :
    url.clearQuery.clearFragment = { url with query := none, fragment := none, path := barePath url.host url.path } := by
  have hFragment (path : Str) : ({ url with query := none, path := path } : Url).clearFragment =
      { url with query := none, fragment := none, path := barePath url.host path } := strip_bare rfl rfl
  cases hGiven : url.fragment with
  | none =>
    have hQuery : url.clearQuery = { url with query := none, path := barePath url.host url.path } := strip_bare rfl hGiven
    rw [hQuery, hFragment, barePath_barePath]
  | some fragment =>
    have hQuery : url.clearQuery = { url with query := none } := by
      rw [clearQuery, stripTrailingSpacesFromOpaquePath, if_neg]
      rintro ⟨-, -, hNone⟩
      rw [hGiven] at hNone
      cases hNone
    rw [hQuery, ← hFragment]

theorem redacted_eq (h : url.username = [] ∧ url.password = none ∨ url.cannotHaveCredentials = false) :
    url.redacted = { scheme := url.scheme, host := url.host, port := url.port, path := barePath url.host url.path } := by
  have hSafe : (url.setUsername []).setPassword none = { url with username := [], password := none } := by
    cases hRefused : url.cannotHaveCredentials with
    | false =>
      have hKept : ({ url with username := [] } : Url).cannotHaveCredentials = false := hRefused
      rw [setUsername, if_neg (by rw [hRefused]; exact Bool.false_ne_true), setPassword,
        if_neg (by rw [hKept]; exact Bool.false_ne_true)]
    | true =>
      obtain ⟨hUsername, hPassword⟩ := h.resolve_right (by rw [hRefused]; exact Bool.noConfusion)
      rw [setUsername, if_pos hRefused, setPassword, if_pos hRefused, ← hUsername, ← hPassword]
  rw [redacted, hSafe, clear_bare]

end Url

private theorem redactUrl_congr (h : UrlStandard lib) (hParse : lib.parse s = some url) (hParse' : lib.parse s' = some url')
    (hShown : url.shown = url'.shown) : redactUrl lib url = redactUrl lib url' := by
  simp only [Url.shown, Prod.mk.injEq] at hShown
  obtain ⟨hScheme, hHost, hPort, hPath⟩ := hShown
  rw [redactUrl, redactUrl, Url.redacted_eq (h.credentials hParse), Url.redacted_eq (h.credentials hParse'), hScheme, hHost,
    hPort, hPath]

/-- A URL that parses for one of two strings with the same visible parts hides what differs, also where neither parses. -/
theorem redactUrlString_congr (h : UrlStandard lib) (hShown : (lib.parse s).map Url.shown = (lib.parse s').map Url.shown)
    (hStrip : lib.parse s = none → stripUserinfoBestEffort s = stripUserinfoBestEffort s') :
    redactUrlString (some lib) s = redactUrlString (some lib) s' := by
  cases hParse : lib.parse s with
  | none =>
    rw [hParse, Option.map_none, eq_comm, Option.map_eq_none_iff] at hShown
    simp only [redactUrlString, hParse, hShown]
    exact hStrip hParse
  | some url =>
    rw [hParse, Option.map_some, eq_comm, Option.map_eq_some_iff] at hShown
    obtain ⟨url', hParse', hSame⟩ := hShown
    simp only [redactUrlString, hParse, hParse']
    exact redactUrl_congr h hParse hParse' hSame.symm

theorem stripUserinfoBestEffort_eq (input : Str) : stripUserinfoBestEffort input =
    input.take ((find (utf8 "://") input).elim 0 (· + 3)) ++
      (afterLast 0x40 (input.drop ((find (utf8 "://") input).elim 0 (· + 3)))).takeWhile (!isMark ·) := by
  rw [stripUserinfoBestEffort, ite_self, afterLast]

theorem takeWhile_marked (hx : ∀ b ∈ x, isMark b = false) (hy : ∀ b ∈ y.head?, isMark b = true) :
    (x ++ y).takeWhile (!isMark ·) = x :=
  takeWhile_until (fun b hb => by rw [hx b hb, Bool.not_false]) fun b hb => by rw [hy b hb, Bool.not_true]

theorem slashes_eq : utf8 "://" = 0x3a :: [0x2f, 0x2f] := by decide

theorem colon_not_mem (h : isScheme s = true) : (0x3a : UInt8) ∉ s := by
  intro hMem
  rw [isScheme, Bool.and_eq_true, List.all_eq_true] at h
  exact absurd (h.2 _ hMem) (by decide)

namespace Frame

theorem head?_tail (f : Frame) (after : Str) : ∀ b ∈ (f.tail after).head?, Http.isMark b = true := by
  intro b hb
  apply f.isMark
  rw [tail] at hb
  cases hMark : f.mark with
  | none =>
    rw [hMark] at hb
    cases hb
  | some m =>
    rw [hMark] at hb
    exact hb

/-- With a scheme the last `@` decides. -/
theorem stripUserinfoBestEffort_text (hScheme : f.scheme = some s) : stripUserinfoBestEffort (f.text u after) =
    s ++ utf8 "://" ++ (afterLast 0x40 (f.head ++ f.tail after)).takeWhile (!Http.isMark ·) := by
  have hColon := colon_not_mem (f.isScheme s hScheme)
  have hText : f.text u after = (s ++ utf8 "://") ++ (u ++ 0x40 :: (f.head ++ f.tail after)) := by
    rw [text, hScheme, Option.elim_some]
  have hFound : find (utf8 "://") (f.text u after) = some s.length := by
    rw [hText, List.append_assoc, slashes_eq]
    exact find_append hColon
  have hLength : s.length + 3 = (s ++ utf8 "://").length := by rw [slashes_eq, List.length_append]; rfl
  rw [stripUserinfoBestEffort_eq, hFound, Option.elim_some, hLength, hText, List.take_left, List.drop_left,
    afterLast_append_cons]

/-- Nothing is left out, or what is left out has no `@`. -/
theorem stripUserinfoBestEffort_plain (hScheme : f.scheme = some s) (h : f.mark = none ∨ 0x40 ∉ after) :
    stripUserinfoBestEffort (f.text u after) = s ++ utf8 "://" ++ afterLast 0x40 f.head := by
  have hTail : (0x40 : UInt8) ∉ f.tail after := by
    rw [tail]
    cases hMark : f.mark with
    | none => exact List.not_mem_nil
    | some m =>
      have hMarked := f.isMark m hMark
      refine List.not_mem_cons_of_ne_of_not_mem ?_ (h.resolve_left (by rw [hMark]; exact Option.some_ne_none m))
      rintro rfl
      exact absurd hMarked (by decide)
  rw [stripUserinfoBestEffort_text hScheme, afterLast_append hTail, takeWhile_marked ?_ (f.head?_tail after)]
  exact fun b hb => f.unmarked b ((afterLast_suffix _ _).subset hb)

private theorem head?_stripUserinfoBestEffort (hScheme : f.scheme = none)
    (hInfix : utf8 "://" <:+: f.head ++ f.tail after) (c : UInt8) :
    (stripUserinfoBestEffort (f.text [c] after)).head? = some c := by
  have hText : f.text [c] after = c :: 0x40 :: (f.head ++ f.tail after) := by rw [text, hScheme]; rfl
  rw [stripUserinfoBestEffort_eq]
  cases hFound : find (utf8 "://") (f.text [c] after) with
  | none =>
    refine absurd ?_ (find_eq_none.mp hFound)
    rw [hText]
    exact hInfix.trans ((List.suffix_cons _ _).trans (List.suffix_cons _ _)).isInfix
  | some i =>
    have hTake : (f.text [c] after).take (i + 3) = c :: (0x40 :: (f.head ++ f.tail after)).take (i + 2) := by
      rw [hText, List.take_succ_cons]
    rw [Option.elim_some, hTake, List.cons_append, List.head?_cons]

private theorem stripUserinfoBestEffort_at {m c : UInt8} (hScheme : f.scheme = some s) (hMark : f.mark = some m)
    (hc : c ≠ 0x40 ∧ Http.isMark c = false) : stripUserinfoBestEffort (f.text u [0x40, c]) = s ++ utf8 "://" ++ [c] := by
  have hTail : f.head ++ f.tail [0x40, c] = (f.head ++ [m]) ++ 0x40 :: [c] := by
    rw [tail, hMark, List.append_assoc]
    rfl
  have hBare : (0x40 : UInt8) ∉ [c] := by
    rw [List.mem_singleton]
    exact Ne.symm hc.1
  rw [stripUserinfoBestEffort_text hScheme, hTail, afterLast_append_cons, afterLast_of_not_mem hBare, List.takeWhile_cons, hc.2,
    Bool.not_false, if_pos rfl, List.takeWhile_nil]

/-- A backslash apart, a scheme hides the userinfo, and what is left out too if the text parses or no `@` is in it. -/
theorem redactUrlString_text {lib : Option UrlCrate} (hLib : ∀ l ∈ lib, UrlStandard l) (hScheme : f.scheme = some s)
    (hu : Userinfo u) (hu' : Userinfo u') (hAfter : IsText after) (hAfter' : IsText after')
    (hSpecial : isSpecial s = true → 0x5c ∉ u ∧ 0x5c ∉ u')
    (hTail : f.mark = none ∨ (0x40 ∉ after ∧ 0x40 ∉ after') ∨ ∃ l ∈ lib, l.parse (f.text [] []) ≠ none) :
    redactUrlString lib (f.text u after) = redactUrlString lib (f.text u' after') := by
  have hStrip (hPlain : f.mark = none ∨ (0x40 ∉ after ∧ 0x40 ∉ after')) :
      stripUserinfoBestEffort (f.text u after) = stripUserinfoBestEffort (f.text u' after') := by
    rw [stripUserinfoBestEffort_plain hScheme (hPlain.imp_right And.left),
      stripUserinfoBestEffort_plain hScheme (hPlain.imp_right And.right)]
  cases lib with
  | none =>
    apply hStrip
    rcases hTail with hMark | hPlain | ⟨l, hl, -⟩
    · exact Or.inl hMark
    · exact Or.inr hPlain
    · cases hl
  | some l =>
    have hStandard := hLib l rfl
    have hShown : (l.parse (f.text u after)).map Url.shown = (l.parse (f.text [] [])).map Url.shown := by
      rw [hStandard.userinfo hScheme hu (fun h => (hSpecial h).1) hAfter, hStandard.query hScheme hAfter]
    have hShown' : (l.parse (f.text u' after')).map Url.shown = (l.parse (f.text [] [])).map Url.shown := by
      rw [hStandard.userinfo hScheme hu' (fun h => (hSpecial h).2) hAfter', hStandard.query hScheme hAfter']
    refine redactUrlString_congr hStandard (hShown.trans hShown'.symm) fun hNone => hStrip ?_
    rw [hNone, Option.map_none, eq_comm, Option.map_eq_none_iff] at hShown
    rcases hTail with hMark | hPlain | ⟨l', hl', hParse⟩
    · exact Or.inl hMark
    · exact Or.inr hPlain
    · obtain rfl := Option.some.inj hl'
      exact absurd hShown hParse

end Frame

theorem userinfo_utf8 (t : String) (h : ((utf8 t).all fun b => !([0x2f, 0x3f, 0x23, 0x40].contains b)) = true) :
    Userinfo (utf8 t) where
  isText := ⟨t, rfl⟩
  free b hb hMem := by
    have hNot := List.all_eq_true.mp h b hMem
    rw [List.contains_iff_mem.mpr hb] at hNot
    cases hNot

theorem userinfo_letter {c : UInt8} (hc : c ∈ [0x61, 0x62]) : Userinfo [c] ∧ Userinfo [c, 0x3a] ∧ Userinfo [c, 0x5c] := by
  have hA : utf8 "a" = [0x61] ∧ utf8 "a:" = [0x61, 0x3a] ∧ utf8 "a\\" = [0x61, 0x5c] := by decide
  have hB : utf8 "b" = [0x62] ∧ utf8 "b:" = [0x62, 0x3a] ∧ utf8 "b\\" = [0x62, 0x5c] := by decide
  simp only [List.mem_cons, List.not_mem_nil, or_false] at hc
  rcases hc with rfl | rfl
  · rw [← hA.1, ← hA.2.1, ← hA.2.2]
    exact ⟨userinfo_utf8 _ (by decide), userinfo_utf8 _ (by decide), userinfo_utf8 _ (by decide)⟩
  · rw [← hB.1, ← hB.2.1, ← hB.2.2]
    exact ⟨userinfo_utf8 _ (by decide), userinfo_utf8 _ (by decide), userinfo_utf8 _ (by decide)⟩

namespace Frame

theorem hidden_of_safe {lib : Option UrlCrate} (hLib : ∀ l ∈ lib, UrlStandard l) (h : f.Safe lib) : f.Hidden lib := by
  intro u u' after after' hu hu' hAfter hAfter'
  cases lib with
  | none =>
    obtain ⟨hMark, hHead⟩ := h
    have hTail (after : Str) : f.tail after = [] := by rw [tail, hMark, Option.elim_none]
    simp only [redactUrlString]
    cases hScheme : f.scheme with
    | none =>
      have hStrip {u : Str} (hu : Userinfo u) (after : Str) :
          stripUserinfoBestEffort (f.text u after) = afterLast 0x40 f.head := by
        have hText : f.text u after = u ++ 0x40 :: f.head := by
          rw [text, hScheme, hTail, List.append_nil, Option.elim_none, List.nil_append]
        have hFound : find (utf8 "://") (f.text u after) = none := by
          rw [find_eq_none, hText]
          intro hInfix
          rcases infix_of_append_cons (by decide) hInfix with hLeft | hRight
          · exact hu.free 0x2f List.mem_cons_self (hLeft.subset (by decide))
          · exact hHead hScheme hRight
        have hShown := takeWhile_marked (y := []) (fun b hb => f.unmarked b ((afterLast_suffix 0x40 _).subset hb))
          fun b hb => by cases hb
        rw [List.append_nil] at hShown
        rw [stripUserinfoBestEffort_eq, hFound, Option.elim_none, List.take_zero, List.drop_zero, List.nil_append, hText,
          afterLast_append_cons, hShown]
      rw [hStrip hu, hStrip hu']
    | some s =>
      rw [stripUserinfoBestEffort_plain hScheme (Or.inl hMark), stripUserinfoBestEffort_plain hScheme (Or.inl hMark)]
  | some l =>
    obtain ⟨⟨s, hScheme, hSpecial⟩, hTail⟩ := h
    refine redactUrlString_text hLib hScheme hu hu' hAfter hAfter' (fun h => ?_) (hTail.imp_right fun h => Or.inr ⟨l, rfl, h⟩)
    rw [hSpecial] at h
    cases h

theorem isText_utf8 (t : String) : IsText (utf8 t) := ⟨t, rfl⟩

private theorem not_hidden_of_strip {lib : Option UrlCrate} {m : UInt8} (hScheme : f.scheme = some s) (hMark : f.mark = some m)
    (hStrip : ∀ after, IsText after → redactUrlString lib (f.text [] after) = stripUserinfoBestEffort (f.text [] after)) :
    ¬ f.Hidden lib := by
  intro h
  have hA := isText_utf8 "@a"
  have hB := isText_utf8 "@b"
  have hBytes : utf8 "@a" = [0x40, 0x61] ∧ utf8 "@b" = [0x40, 0x62] := by decide
  rw [hBytes.1] at hA
  rw [hBytes.2] at hB
  have hNil : Userinfo [] := userinfo_utf8 "" (by decide)
  have hEq := h [] [] [0x40, 0x61] [0x40, 0x62] hNil hNil hA hB
  rw [hStrip _ hA, hStrip _ hB, stripUserinfoBestEffort_at hScheme hMark (by decide),
    stripUserinfoBestEffort_at hScheme hMark (by decide)] at hEq
  exact absurd (List.append_cancel_left hEq) (by decide)

private theorem not_hidden_of_infix (hScheme : f.scheme = none) {after : Str} (hAfter : IsText after)
    (hInfix : utf8 "://" <:+: f.head ++ f.tail after) : ¬ f.Hidden none := by
  intro h
  have hA := (userinfo_letter (c := 0x61) (by decide)).1
  have hB := (userinfo_letter (c := 0x62) (by decide)).1
  have hEq : stripUserinfoBestEffort (f.text [0x61] after) = stripUserinfoBestEffort (f.text [0x62] after) :=
    h [0x61] [0x62] after after hA hB hAfter hAfter
  have hHead := congrArg List.head? hEq
  rw [head?_stripUserinfoBestEffort hScheme hInfix, head?_stripUserinfoBestEffort hScheme hInfix] at hHead
  exact absurd hHead (by decide)

theorem safe_of_hidden {lib : Option UrlCrate} (hLib : ∀ l ∈ lib, UrlStandard l) (h : f.Hidden lib) : f.Safe lib := by
  cases lib with
  | none =>
    have hNot : f.mark = none := by
      by_contra hMark
      obtain ⟨m, hMark⟩ := Option.ne_none_iff_exists'.mp hMark
      cases hScheme : f.scheme with
      | none =>
        refine not_hidden_of_infix hScheme (isText_utf8 "://") ?_ h
        rw [tail, hMark]
        exact ((List.suffix_cons _ _).trans (List.suffix_append _ _)).isInfix
      | some s => exact not_hidden_of_strip hScheme hMark (fun _ _ => rfl) h
    refine ⟨hNot, fun hScheme hInfix => not_hidden_of_infix hScheme IsText.nil ?_ h⟩
    rw [tail, hNot, Option.elim_none, List.append_nil]
    exact hInfix
  | some l =>
    have hStandard := hLib l rfl
    have hFirst : (0x61 : UInt8) ∈ [0x61, 0x62] := by decide
    have hSecond : (0x62 : UInt8) ∈ [0x61, 0x62] := by decide
    have hLeak {u u' : Str} {url url' : Url} (hu : Userinfo u) (hu' : Userinfo u') (hParse : l.parse (f.text u []) = some url)
        (hParse' : l.parse (f.text u' []) = some url') : url.scheme = url'.scheme ∧ url.host = url'.host := by
      have hEq := h u u' [] [] hu hu' IsText.nil IsText.nil
      simp only [redactUrlString, hParse, hParse'] at hEq
      exact hStandard.serialized hParse hParse' hEq
    cases hScheme : f.scheme with
    | none =>
      obtain ⟨url, hParse, hA⟩ := hStandard.opaquePath hScheme hFirst
      obtain ⟨url', hParse', hB⟩ := hStandard.opaquePath hScheme hSecond
      have hSame := (hLeak (userinfo_letter hFirst).2.1 (userinfo_letter hSecond).2.1 hParse hParse').1
      rw [hA, hB] at hSame
      exact absurd hSame (by decide)
    | some s =>
      have hSpecial : isSpecial s = false := by
        rw [Bool.eq_false_iff]
        intro hSpecial
        obtain ⟨url, hParse, hA⟩ := hStandard.backslash hScheme hSpecial hFirst
        obtain ⟨url', hParse', hB⟩ := hStandard.backslash hScheme hSpecial hSecond
        have hSame := (hLeak (userinfo_letter hFirst).2.2 (userinfo_letter hSecond).2.2 hParse hParse').2
        rw [hA, hB] at hSame
        exact absurd hSame (by decide)
      refine ⟨⟨s, hScheme, hSpecial⟩, ?_⟩
      by_contra hUnsafe
      obtain ⟨hMark, hParse⟩ := not_or.mp hUnsafe
      rw [not_ne_iff] at hParse
      obtain ⟨m, hMark⟩ := Option.ne_none_iff_exists'.mp hMark
      refine not_hidden_of_strip hScheme hMark (fun after hAfter => ?_) h
      have hNone := hStandard.query hScheme hAfter
      rw [hParse, Option.map_none, Option.map_eq_none_iff] at hNone
      simp only [redactUrlString, hNone]

end Frame

/-- Which frames hide what they should; a scheme hides it from all inputs that do not parse differently. -/
theorem redactUrlString_hidden {lib : Option UrlCrate} (hLib : ∀ l ∈ lib, UrlStandard l) (f : Frame) :
    (f.Hidden lib ↔ f.Safe lib) ∧
    ∀ s ∈ f.scheme, ∀ u u' after after', Userinfo u → Userinfo u' → IsText after → IsText after' → 0x5c ∉ u → 0x5c ∉ u' →
      (f.mark = none ∨ (0x40 ∉ after ∧ 0x40 ∉ after') ∨ ∃ l ∈ lib, l.parse (f.text [] []) ≠ none) →
      redactUrlString lib (f.text u after) = redactUrlString lib (f.text u' after') := by
  refine ⟨⟨Frame.safe_of_hidden hLib, Frame.hidden_of_safe hLib⟩, ?_⟩
  intro s hScheme u u' after after' hu hu' hAfter hAfter' hPlain hPlain' hTail
  exact Frame.redactUrlString_text hLib hScheme hu hu' hAfter hAfter' (fun _ => ⟨hPlain, hPlain'⟩) hTail

end

def endsAuthority (scheme : Str) (b : UInt8) : Bool := b == 0x2f || isSpecial scheme && b == 0x5c

def isHostByte (b : UInt8) : Bool := isLetter b || b == 0x2e

/-- The text behind `scheme://`, up to the query, if its host is a name of letters and dots. -/
def sampleAuthority (scheme visible : Str) : Option Url :=
  let authority := visible.takeWhile (!endsAuthority scheme ·)
  let host := afterLast 0x40 authority
  let userinfo := authority.take (authority.length - host.length - 1)
  if host = [] ∨ host.all isHostByte = false ∨ scheme = utf8 "file" ∧ 0x40 ∈ authority then none
  else some { scheme := scheme, username := userinfo.takeWhile (· != 0x3a),
              password := if 0x3a ∈ userinfo then some ((userinfo.dropWhile (· != 0x3a)).drop 1) else none,
              host := some host, path := visible.dropWhile (!endsAuthority scheme ·) }

def sampleParse (text : Str) : Option Url :=
  let scheme := text.takeWhile (· != 0x3a)
  let rest := (text.dropWhile (· != 0x3a)).drop 1
  let visible := rest.takeWhile (!isMark ·)
  let left := rest.dropWhile (!isMark ·)
  if 0x3a ∉ text ∨ isScheme scheme = false then none
  else
    let parsed :=
      if [0x2f, 0x2f] <+: visible then sampleAuthority scheme (visible.drop 2)
      else if isSpecial scheme then none
      else some { scheme := scheme, host := none, path := visible }
    parsed.map fun url => if left = [] then url else { url with query := some (left.drop 1) }

def sampleUrlCrate : UrlCrate where
  parse := sampleParse
  toString url :=
    url.scheme ++ 0x3a :: (url.host.elim [] fun host =>
        [0x2f, 0x2f] ++ (if url.username = [] ∧ url.password = none then []
          else url.username ++ url.password.elim [] (0x3a :: ·) ++ [0x40]) ++ host) ++
      url.path ++ url.query.elim [] (0x3f :: ·)

section
variable {f : Frame} {u after s x : Str} {url url' : Url}

/-- The pieces of a text with a scheme. -/
theorem sampleParse_text (hScheme : f.scheme = some s) (hu : Userinfo u) : (sampleParse (f.text u after)).map Url.shown =
    (sampleAuthority s (u ++ 0x40 :: f.head)).map Url.shown := by
  have hValid := f.isScheme s hScheme
  have hText : f.text u after = s ++ 0x3a :: ([0x2f, 0x2f] ++ (u ++ 0x40 :: f.head) ++ f.tail after) := by
    rw [Frame.text, hScheme, Option.elim_some, slashes_eq]
    simp only [List.append_assoc, List.cons_append, List.nil_append]
  have hUnmarked : ∀ b ∈ [0x2f, 0x2f] ++ (u ++ 0x40 :: f.head), isMark b = false := by
    intro b hb
    simp only [List.mem_append, List.mem_cons, List.not_mem_nil, or_false] at hb
    rcases hb with (rfl | rfl) | hb | rfl | hb
    · decide
    · decide
    · rw [isMark, Bool.or_eq_false_iff, beq_eq_false_iff_ne, beq_eq_false_iff_ne]
      constructor
      · rintro rfl
        exact hu.free 0x3f (by decide) hb
      · rintro rfl
        exact hu.free 0x23 (by decide) hb
    · decide
    · exact f.unmarked b hb
  have hMem : (0x3a : UInt8) ∈ f.text u after := by
    rw [hText]
    exact List.mem_append_right _ List.mem_cons_self
  have hVisible := takeWhile_marked hUnmarked (f.head?_tail after)
  have hFirst : (f.text u after).takeWhile (· != 0x3a) = s := by rw [hText, takeWhile_cut (colon_not_mem hValid)]
  have hRest : ((f.text u after).dropWhile (· != 0x3a)).drop 1 = [0x2f, 0x2f] ++ (u ++ 0x40 :: f.head) ++ f.tail after := by
    rw [hText, dropWhile_cut (colon_not_mem hValid), List.drop_one, List.tail_cons]
  have hDrop : ([0x2f, 0x2f] ++ (u ++ 0x40 :: f.head)).drop 2 = u ++ 0x40 :: f.head := rfl
  have hQuery (left : Str) (url : Url) : (if left = [] then url else { url with query := some (left.drop 1) }).shown =
      url.shown := by
    split <;> rfl
  rw [sampleParse, hFirst, if_neg]
  · simp only [hRest, hVisible, hDrop, if_pos (List.prefix_append [0x2f, 0x2f] (u ++ 0x40 :: f.head)), Option.map_map]
    congr 1
    funext url
    exact hQuery _ url
  · rw [hValid]
    rintro (hNot | hNot)
    · exact hNot hMem
    · cases hNot

private theorem sampleAuthority_shown (hEnds : ∀ b ∈ u, endsAuthority s b = false) (rest : Str) :
    (sampleAuthority s (u ++ 0x40 :: rest)).map Url.shown = (sampleAuthority s (0x40 :: rest)).map Url.shown := by
  have hAt : endsAuthority s 0x40 = false := by
    rw [endsAuthority, Bool.or_eq_false_iff, Bool.and_eq_false_iff]
    exact ⟨by decide, Or.inr (by decide)⟩
  have hKeep (u : Str) (hEnds : ∀ b ∈ u, endsAuthority s b = false) :
      (u ++ 0x40 :: rest).takeWhile (!endsAuthority s ·) = u ++ 0x40 :: rest.takeWhile (!endsAuthority s ·) ∧
      (u ++ 0x40 :: rest).dropWhile (!endsAuthority s ·) = rest.dropWhile (!endsAuthority s ·) := by
    have hTrue : ∀ b ∈ u, (!endsAuthority s b) = true := fun b hb => by rw [hEnds b hb, Bool.not_false]
    rw [List.takeWhile_append_of_pos hTrue, List.dropWhile_append_of_pos hTrue, List.takeWhile_cons, List.dropWhile_cons, hAt,
      Bool.not_false, if_pos rfl, if_pos rfl]
    exact ⟨rfl, rfl⟩
  have hNil := hKeep [] fun b hb => by cases hb
  rw [List.nil_append, List.nil_append] at hNil
  have hMem (u : Str) : ((0x40 : UInt8) ∈ u ++ 0x40 :: rest.takeWhile (!endsAuthority s ·)) ↔ True :=
    iff_true_intro (List.mem_append_right _ List.mem_cons_self)
  have hMemNil := hMem []
  have hHost := afterLast_append_cons (b := 0x40) [] (rest.takeWhile (!endsAuthority s ·))
  rw [List.nil_append] at hMemNil hHost
  simp only [sampleAuthority, (hKeep u hEnds).1, (hKeep u hEnds).2, hNil.1, hNil.2, hMem, hMemNil, hHost, afterLast_append_cons]
  split <;> rfl

/-- A path never reads on as a host, and a scheme never as what follows it. -/
structure Legible (url : Url) : Prop where
  scheme : (0x3a : UInt8) ∉ url.scheme
  port : url.port = none
  host : ∀ h ∈ url.host, (∀ b ∈ h, isHostByte b = true) ∧ ∀ b ∈ url.path.head?, isHostByte b = false
  path : url.host = none → ¬ [0x2f, 0x2f] <+: url.path
  credentials : url.username = [] ∧ url.password = none ∨ url.cannotHaveCredentials = false

private theorem sampleAuthority_legible (hScheme : (0x3a : UInt8) ∉ s) (h : sampleAuthority s x = some url) : Legible url := by
  simp only [sampleAuthority] at h
  split at h
  · cases h
  case isFalse hHost =>
    obtain ⟨hNil, hBytes, hFile⟩ : _ ∧ _ ∧ _ := by simpa only [not_or, not_and] using hHost
    obtain rfl := Option.some.inj h
    refine ⟨hScheme, rfl, ?_, fun hNone => (by cases hNone), ?_⟩
    · rintro _ ⟨⟩
      refine ⟨List.all_eq_true.mp ((Bool.not_eq_false _).mp hBytes), fun b hb => ?_⟩
      have hEnds := List.head?_dropWhile_not (!endsAuthority s ·) x
      rw [Option.mem_def.mp hb] at hEnds
      simp only [Bool.not_eq_false', endsAuthority, Bool.or_eq_true, Bool.and_eq_true, beq_iff_eq] at hEnds
      obtain rfl | ⟨-, rfl⟩ := hEnds <;> decide
    · by_cases hAt : (0x40 : UInt8) ∈ x.takeWhile (!endsAuthority s ·)
      · refine Or.inr (decide_eq_false ?_)
        rintro (hEmpty | hSame)
        · exact hNil hEmpty
        · exact hFile hSame hAt
      · refine Or.inl ?_
        have hUserinfo : (x.takeWhile (!endsAuthority s ·)).take ((x.takeWhile (!endsAuthority s ·)).length -
            (afterLast 0x40 (x.takeWhile (!endsAuthority s ·))).length - 1) = [] := by
          rw [afterLast_of_not_mem hAt, Nat.sub_self, Nat.zero_sub, List.take_zero]
        simp only [hUserinfo]
        exact ⟨rfl, if_neg List.not_mem_nil⟩

theorem sampleParse_legible (h : sampleParse x = some url) : Legible url := by
  simp only [sampleParse] at h
  split at h
  · cases h
  case isFalse hGiven =>
    obtain ⟨parsed, hParsed, rfl⟩ := Option.map_eq_some_iff.mp h
    have hColon : (0x3a : UInt8) ∉ x.takeWhile (· != 0x3a) := not_mem_takeWhile _ _
    have hLegible : Legible parsed := by
      split at hParsed
      · exact sampleAuthority_legible hColon hParsed
      case isFalse hSlashes =>
        split at hParsed
        · cases hParsed
        · obtain rfl := Option.some.inj hParsed
          exact ⟨hColon, rfl, fun h hHost => (by cases hHost), fun _ => hSlashes, Or.inl ⟨rfl, rfl⟩⟩
    split
    · exact hLegible
    · exact ⟨hLegible.scheme, hLegible.port, hLegible.host, hLegible.path, hLegible.credentials⟩

private theorem redactUrl_injective (h : Legible url) (h' : Legible url')
    (hEq : redactUrl sampleUrlCrate url = redactUrl sampleUrlCrate url') :
    url.scheme = url'.scheme ∧ url.host = url'.host := by
  have hShown (url : Url) (h : Legible url) : redactUrl sampleUrlCrate url =
      url.scheme ++ 0x3a :: ((url.host.elim [] fun host => [0x2f, 0x2f] ++ host) ++ Url.barePath url.host url.path) := by
    rw [redactUrl, Url.redacted_eq h.credentials]
    cases hHost : url.host <;>
      simp only [sampleUrlCrate, Option.elim_none, Option.elim_some, List.append_nil, List.append_assoc, List.cons_append,
        and_self, if_true, List.nil_append]
  have hHostEnd (url : Url) (h : Legible url) {host : Str} (hHost : url.host = some host) :
      (host ++ Url.barePath (some host) url.path).takeWhile isHostByte = host := by
    obtain ⟨hBytes, hPath⟩ := h.host host hHost
    exact takeWhile_until hBytes hPath
  have hNoHost (url : Url) (h : Legible url) (hHost : url.host = none) (rest : Str) :
      Url.barePath none url.path ≠ [0x2f, 0x2f] ++ rest := by
    intro hRest
    refine h.path hHost (List.IsPrefix.trans ⟨rest, hRest.symm⟩ ?_)
    rw [Url.barePath]
    split
    · exact List.rdropWhile_prefix _ _
    · exact List.prefix_rfl
  rw [hShown url h, hShown url' h'] at hEq
  have hScheme : url.scheme = url'.scheme := by
    have hFirst := congrArg (List.takeWhile (· != 0x3a)) hEq
    rwa [takeWhile_cut h.scheme, takeWhile_cut h'.scheme] at hFirst
  refine ⟨hScheme, ?_⟩
  rw [hScheme] at hEq
  have hRest := (List.cons_inj_right _).mp (List.append_cancel_left hEq)
  cases hHost : url.host with
  | none =>
    cases hHost' : url'.host with
    | none => rfl
    | some host' =>
      rw [hHost, hHost', Option.elim_none, Option.elim_some, List.nil_append, List.append_assoc] at hRest
      exact absurd hRest (hNoHost url h hHost _)
  | some host =>
    cases hHost' : url'.host with
    | none =>
      rw [hHost, hHost', Option.elim_none, Option.elim_some, List.nil_append, List.append_assoc] at hRest
      exact absurd hRest.symm (hNoHost url' h' hHost' _)
    | some host' =>
      rw [hHost, hHost', Option.elim_some, Option.elim_some, List.append_assoc, List.append_assoc] at hRest
      have hSame := congrArg (List.takeWhile isHostByte) (List.append_cancel_left hRest)
      rw [hHostEnd url h hHost, hHostEnd url' h' hHost'] at hSame
      rw [hSame]

private theorem endsAuthority_eq_false (hSlash : (0x2f : UInt8) ∉ u) (hSpecial : isSpecial s = true → 0x5c ∉ u) :
    ∀ b ∈ u, endsAuthority s b = false := by
  intro b hb
  rw [endsAuthority, Bool.or_eq_false_iff, Bool.and_eq_false_imp, beq_eq_false_iff_ne]
  refine ⟨ne_of_mem_of_not_mem hb hSlash, fun h => ?_⟩
  rw [beq_eq_false_iff_ne]
  exact ne_of_mem_of_not_mem hb (hSpecial h)

private theorem sampleParse_backslash {c : UInt8} (hScheme : f.scheme = some s) (hSpecial : isSpecial s = true)
    (hc : c ∈ [0x61, 0x62]) :
    ∃ url, sampleParse (f.text [c, 0x5c] []) = some url ∧ url.host = some [c] := by
  have hUserinfo := (userinfo_letter hc).2.2
  have hEnds : endsAuthority s c = false ∧ isHostByte c = true ∧ (0x40 : UInt8) ∉ [c] := by
    rw [endsAuthority, hSpecial]
    simp only [List.mem_cons, List.not_mem_nil, or_false] at hc
    obtain rfl | rfl := hc <;> decide
  have hStop : endsAuthority s 0x5c = true := by
    rw [endsAuthority, hSpecial]
    decide
  have hAuthority : ([c, 0x5c] ++ 0x40 :: f.head).takeWhile (!endsAuthority s ·) = [c] := by
    simp only [List.cons_append, List.nil_append, List.takeWhile_cons, hEnds.1, hStop, Bool.not_false, Bool.not_true, if_true,
      Bool.false_eq_true, if_false]
  have hAll : [c].all isHostByte = true := by rw [List.all_cons, hEnds.2.1, List.all_nil, Bool.and_true]
  have hParsed : (sampleAuthority s ([c, 0x5c] ++ 0x40 :: f.head)).map Url.host = some (some [c]) := by
    simp only [sampleAuthority, hAuthority, afterLast_of_not_mem hEnds.2.2]
    rw [if_neg]
    · rfl
    · rintro (hNil | hBytes | ⟨-, hAt⟩)
      · cases hNil
      · rw [hAll] at hBytes
        cases hBytes
      · exact hEnds.2.2 hAt
  have hShown := congrArg (Option.map fun shown => shown.2.1) (@sampleParse_text _ _ [] _ hScheme hUserinfo)
  rw [Option.map_map, Option.map_map] at hShown
  exact Option.map_eq_some_iff.mp (hShown.trans hParsed)

private theorem sampleParse_opaque {c : UInt8} (hScheme : f.scheme = none) (hc : c ∈ [0x61, 0x62]) :
    ∃ url, sampleParse (f.text [c, 0x3a] []) = some url ∧ url.scheme = [c] := by
  have hText : f.text [c, 0x3a] [] = [c] ++ 0x3a :: 0x40 :: (f.head ++ f.tail []) := by
    rw [Frame.text, hScheme]
    rfl
  have hLetter : (0x3a : UInt8) ∉ [c] ∧ isScheme [c] = true ∧ isSpecial [c] = false := by
    simp only [List.mem_cons, List.not_mem_nil, or_false] at hc
    obtain rfl | rfl := hc <;> decide
  have hFirst : (f.text [c, 0x3a] []).takeWhile (· != 0x3a) = [c] := by rw [hText, takeWhile_cut hLetter.1]
  have hRest : ((f.text [c, 0x3a] []).dropWhile (· != 0x3a)).drop 1 = 0x40 :: (f.head ++ f.tail []) := by
    rw [hText, dropWhile_cut hLetter.1, List.drop_one, List.tail_cons]
  have hMem : (0x3a : UInt8) ∈ f.text [c, 0x3a] [] := by
    rw [hText]
    exact List.mem_append_right _ List.mem_cons_self
  have hOpaque : ¬ [0x2f, 0x2f] <+: (0x40 :: (f.head ++ f.tail [])).takeWhile (!isMark ·) := by
    rw [List.takeWhile_cons, if_pos (by decide), List.cons_prefix_cons]
    exact fun hPrefix => absurd hPrefix.1 (by decide)
  rw [sampleParse, hFirst, if_neg]
  · simp only [hRest, if_neg hOpaque, hLetter.2.2, Bool.false_eq_true, if_false, Option.map_some]
    split <;> exact ⟨_, rfl, rfl⟩
  · rintro (hNot | hNot)
    · exact hNot hMem
    · rw [hLetter.2.1] at hNot
      cases hNot

theorem sampleUrlCrate_standard : UrlStandard sampleUrlCrate where
  userinfo hScheme hu hSpecial hAfter := by
    have hNil := userinfo_utf8 "" (by decide)
    exact (sampleParse_text hScheme hu).trans
      ((sampleAuthority_shown (endsAuthority_eq_false (hu.free _ (by decide)) hSpecial) _).trans
      (sampleParse_text hScheme hNil).symm)
  query hScheme hAfter := by
    have hNil := userinfo_utf8 "" (by decide)
    exact (sampleParse_text hScheme hNil).trans (sampleParse_text hScheme hNil).symm
  credentials hParse := (sampleParse_legible hParse).credentials
  backslash hScheme hSpecial hc := sampleParse_backslash hScheme hSpecial hc
  opaquePath hScheme hc := sampleParse_opaque hScheme hc
  serialized hParse hParse' hEq := redactUrl_injective (sampleParse_legible hParse) (sampleParse_legible hParse') hEq

end

/-- `foo://…@host/p?…`. -/
def sampleFrame : Frame where
  scheme := some (utf8 "foo")
  head := utf8 "host/p"
  mark := some 0x3f
  isScheme := by decide
  isText := ⟨"host/p", rfl⟩
  unmarked := by
    have hAll : (utf8 "host/p").all (isMark · == false) = true := by decide
    exact fun b hb => beq_iff_eq.mp (List.all_eq_true.mp hAll b hb)
  isMark := by decide +kernel

theorem redactUrlString_hidden_sample :
    redactUrlString (some sampleUrlCrate) (sampleFrame.text (utf8 "user:secret") (utf8 "token=abc")) =
      redactUrlString (some sampleUrlCrate) (sampleFrame.text (utf8 "me") []) := by
  have hLib : ∀ l ∈ some sampleUrlCrate, UrlStandard l := by
    rintro _ ⟨⟩
    exact sampleUrlCrate_standard
  have hSafe : sampleFrame.Safe (some sampleUrlCrate) := by
    refine ⟨⟨utf8 "foo", rfl, by decide⟩, Or.inr ?_⟩
    have hParsed : (sampleParse (sampleFrame.text [] [])).isSome = true := by decide
    exact Option.isSome_iff_ne_none.mp hParsed
  refine (redactUrlString_hidden hLib sampleFrame).1.mpr hSafe _ _ _ _ ?_ ?_ ⟨_, rfl⟩ IsText.nil
  · exact userinfo_utf8 _ (by decide)
  · exact userinfo_utf8 _ (by decide)

/-- `…@host`. -/
def bareFrame : Frame where
  scheme := none
  head := utf8 "host"
  mark := none
  isScheme _ hs := by cases hs
  isText := ⟨"host", rfl⟩
  unmarked := by
    have hAll : (utf8 "host").all (isMark · == false) = true := by decide
    exact fun b hb => beq_iff_eq.mp (List.all_eq_true.mp hAll b hb)
  isMark _ hb := by cases hb

/-- `user:secret@host` is a URL of the scheme `user`. -/
theorem not_redactUrlString_hidden : ¬ ∀ (lib : Option UrlCrate) (f : Frame), (∀ l ∈ lib, UrlStandard l) → f.Hidden lib := by
  intro h
  have hLib : ∀ l ∈ some sampleUrlCrate, UrlStandard l := by
    rintro _ ⟨⟩
    exact sampleUrlCrate_standard
  have hEq := h (some sampleUrlCrate) bareFrame hLib (utf8 "user:secret") (utf8 "user:other") [] []
    (userinfo_utf8 _ (by decide)) (userinfo_utf8 _ (by decide)) IsText.nil IsText.nil
  exact absurd hEq (by decide)

end Eggfetch.Http
