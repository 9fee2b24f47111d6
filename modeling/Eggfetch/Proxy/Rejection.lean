import Eggfetch.Proxy.Request
import Eggfetch.Text.Base64

/-! What is kept of a proxy's refusal of a `CONNECT`: escape sequences and control characters go,
the rest is cut, and text that looks like a credential is withheld. -/
namespace Eggfetch.Proxy
open Text Http

def maxProxyRejectionBodyChars : Nat := 256

def isControl (c : Char) : Bool := c.toNat < 0x20 || 0x7f ≤ c.toNat && c.toNat ≤ 0x9f

def escape : Char := '\x1b'

def isFinal (c : Char) : Bool := '@' ≤ c && c ≤ '~'

/-- Where the loop stands: in the text, behind an escape character, or in a control sequence. -/
inductive Mode where
  | text
  | escaped
  | sequence
  deriving DecidableEq

/-- The loop over the characters, with room for `room` of them after the next that is kept. -/
def sanitize : Mode → Nat → List Char → List Char
  | _, _, [] => []
  | mode, room, c :: rest =>
    if mode = .sequence then sanitize (if isFinal c then .text else .sequence) room rest
    else if mode = .escaped ∧ c = '[' then sanitize .sequence room rest
    else if c = escape then sanitize .escaped room rest
    else if isControl c then sanitize .text room rest
    else c :: if room = 0 then [] else sanitize .text (room - 1) rest

def credentialKeywords : List String :=
  ["proxy-authorization", "authorization", "api_key", "apikey", "password", "passwd", "secret", "bearer "]

/-- `is_ascii_alphanumeric` -/
def isAlphanumeric (b : UInt8) : Bool := isDigit b || 0x61 ≤ asciiLower b && asciiLower b ≤ 0x7a

/-- The needle stands at the start, or behind a byte `before` that is no letter or digit. -/
def containsTokenFrom (needle : Str) : Option UInt8 → Str → Bool
  | _, [] => false
  | before, b :: rest =>
    needle.isPrefixOf (b :: rest) && before.all (!isAlphanumeric ·) || containsTokenFrom needle (some b) rest

def containsToken (haystack needle : Str) : Bool := needle ≠ [] && containsTokenFrom needle none haystack

def looksLikeCredential (text : List Char) : Bool :=
  let lowered := utf8 (String.ofList (text.map Char.toLower))
  credentialKeywords.any fun needle => containsToken lowered (utf8 needle)

/-- The message of the refusal: a diagnostic header, or what is buffered of the body. -/
def rejectionText (headers : ResponseHeaders) (initialBuf : Str) : List Char :=
  let found := headers.find? fun header =>
    eqIgnoreAsciiCase header.1 (utf8 "x-error-message") || eqIgnoreAsciiCase header.1 (utf8 "x-proxy-error")
  Utf8.chars (Utf8.fromUtf8Lossy ((found.map Prod.snd).getD initialBuf))

def redacted : List Char := "[redacted proxy error]".toList

def proxyRejectionBody (headers : ResponseHeaders) (initialBuf : Str) : List Char :=
  let sanitized := sanitize .text (maxProxyRejectionBodyChars - 1) (rejectionText headers initialBuf)
  if looksLikeCredential sanitized then redacted else sanitized

/-- The base64 text of the `Proxy-Authorization` that a `CONNECT` carries. -/
def ProxyAuth.credential : ProxyAuth → List Char
  | basic username password => Base64.encode (username ++ utf8 ":" ++ password)

/-- A message and the characters of it that are neither control characters nor parts of a control sequence. -/
inductive Visible : List Char → List Char → Prop where
  | nil : Visible [] []
  | char {c : Char} {raw shown : List Char} : isControl c = false → Visible raw shown → Visible (c :: raw) (c :: shown)
  | control {c : Char} {raw shown : List Char} : isControl c = true → c ≠ escape → Visible raw shown → Visible (c :: raw) shown
  | sequence {params raw shown : List Char} {final : Char} : (∀ c ∈ params, isFinal c = false) → isFinal final = true →
      Visible raw shown → Visible (escape :: '[' :: (params ++ final :: raw)) shown
  | unfinished {params : List Char} : (∀ c ∈ params, isFinal c = false) → Visible (escape :: '[' :: params) []
  | escape {raw shown : List Char} : raw.head? ≠ some '[' → Visible raw shown → Visible (escape :: raw) shown

section sanitize
variable {raw shown params : List Char} {room : Nat}

theorem sanitize_nil (mode : Mode) (room : Nat) : sanitize mode room [] = [] := rfl

theorem sanitize_cons (mode : Mode) (room : Nat) (c : Char) (rest : List Char) : sanitize mode room (c :: rest) =
    if mode = .sequence then sanitize (if isFinal c then .text else .sequence) room rest
    else if mode = .escaped ∧ c = '[' then sanitize .sequence room rest
    else if c = escape then sanitize .escaped room rest
    else if isControl c then sanitize .text room rest
    else c :: if room = 0 then [] else sanitize .text (room - 1) rest := rfl

theorem sanitize_params (h : ∀ c ∈ params, isFinal c = false) (raw : List Char) :
    sanitize .sequence room (params ++ raw) = sanitize .sequence room raw := by
  induction params with
  | nil => rfl
  | cons c params ih =>
    obtain ⟨hc, hParams⟩ := List.forall_mem_cons.mp h
    rw [List.cons_append, sanitize_cons, if_pos rfl, hc]
    exact ih hParams

theorem sanitize_char {c : Char} (hc : isControl c = false) (room : Nat) (raw : List Char) :
    sanitize .text room (c :: raw) = c :: (if room = 0 then [] else sanitize .text (room - 1) raw) := by
  have hEscape : c ≠ escape := by
    rintro rfl
    cases hc
  rw [sanitize_cons, if_neg (by decide), if_neg (fun h => Mode.noConfusion h.1), if_neg hEscape, hc]
  rfl

theorem sanitize_control {c : Char} (hc : isControl c = true) (hEscape : c ≠ escape) (room : Nat) (raw : List Char) :
    sanitize .text room (c :: raw) = sanitize .text room raw := by
  rw [sanitize_cons, if_neg (by decide), if_neg (fun h => Mode.noConfusion h.1), if_neg hEscape, if_pos hc]

theorem sanitize_escape (room : Nat) (raw : List Char) :
    sanitize .text room (escape :: raw) = sanitize .escaped room raw := by
  rw [sanitize_cons, if_neg (by decide), if_neg (fun h => Mode.noConfusion h.1), if_pos rfl]

private theorem sanitize_sequence (room : Nat) (raw : List Char) :
    sanitize .text room (escape :: '[' :: raw) = sanitize .sequence room raw := by
  rw [sanitize_escape, sanitize_cons, if_neg (by decide), if_pos ⟨rfl, rfl⟩]

private theorem sanitize_escaped (h : raw.head? ≠ some '[') (room : Nat) :
    sanitize .escaped room raw = sanitize .text room raw := by
  cases raw with
  | nil => rfl
  | cons next raw =>
    have hNext : ¬(Mode.escaped = .escaped ∧ next = '[') := fun hBoth => h (congrArg some hBoth.2)
    have hText : ¬(Mode.text = .escaped ∧ next = '[') := fun hBoth => Mode.noConfusion hBoth.1
    rw [sanitize_cons, if_neg (by decide), if_neg hNext]
    conv_rhs => rw [sanitize_cons, if_neg (by decide), if_neg hText]

theorem sanitize_visible (h : Visible raw shown) (room : Nat) : sanitize .text room raw = shown.take (room + 1) := by
  induction h generalizing room with
  | nil => rfl
  | char hc _ ih =>
    rw [sanitize_char hc, List.take_succ_cons]
    cases room with
    | zero => rw [if_pos rfl, List.take_zero]
    | succ room => rw [if_neg (Nat.succ_ne_zero room), Nat.add_sub_cancel, ih]
  | control hc hEscape _ ih => rw [sanitize_control hc hEscape, ih]
  | sequence hParams hFinal _ ih => rw [sanitize_sequence, sanitize_params hParams, sanitize_cons, if_pos rfl, if_pos hFinal, ih]
  | @unfinished params hParams =>
    rw [sanitize_sequence, ← List.append_nil params, sanitize_params hParams, sanitize_nil, List.take_nil]
  | escape hNext _ ih => rw [sanitize_escape, sanitize_escaped hNext, ih]

private theorem exists_visible (raw : List Char) : ∃ shown, Visible raw shown := by
  induction hLength : raw.length using Nat.strong_induction_on generalizing raw with
  | _ n ih =>
    cases raw with
    | nil => exact ⟨[], .nil⟩
    | cons c raw =>
      have hShorter : ∀ rest : List Char, rest.length ≤ raw.length → ∃ shown, Visible rest shown := by
        intro rest hLe
        refine ih rest.length ?_ rest rfl
        rw [← hLength, List.length_cons]
        omega
      by_cases hEscape : c = escape
      · subst hEscape
        by_cases hSequence : raw.head? = some '['
        · obtain ⟨rest, rfl⟩ := List.head?_eq_some_iff.mp hSequence
          have hParams : ∀ c ∈ rest.takeWhile (!isFinal ·), isFinal c = false := by
            intro c hMem
            simpa using List.mem_takeWhile_imp hMem
          cases hRest : rest.dropWhile (!isFinal ·) with
          | nil =>
            have hAll := List.takeWhile_append_dropWhile (p := (!isFinal ·)) (l := rest)
            rw [hRest, List.append_nil] at hAll
            rw [hAll] at hParams
            exact ⟨[], .unfinished hParams⟩
          | cons final more =>
            have hSplit := List.takeWhile_append_dropWhile (p := (!isFinal ·)) (l := rest)
            rw [hRest] at hSplit
            have hFinal : isFinal final = true := by
              have hHead := List.head?_dropWhile_not (!isFinal ·) rest
              rw [hRest] at hHead
              simpa using hHead
            obtain ⟨shown, hShown⟩ := hShorter more (by
              rw [← hSplit, List.length_cons, List.length_append, List.length_cons]
              omega)
            refine ⟨shown, ?_⟩
            rw [← hSplit]
            exact .sequence hParams hFinal hShown
        · obtain ⟨shown, hShown⟩ := hShorter raw le_rfl
          exact ⟨shown, .escape hSequence hShown⟩
      · obtain ⟨shown, hShown⟩ := hShorter raw le_rfl
        cases hc : isControl c with
        | false => exact ⟨c :: shown, .char hc hShown⟩
        | true => exact ⟨shown, .control hc hEscape hShown⟩

theorem Visible.clean (h : Visible raw shown) : ∀ c ∈ shown, isControl c = false := by
  induction h with
  | nil | unfinished => exact List.forall_mem_nil _
  | char hc _ ih => exact List.forall_mem_cons.mpr ⟨hc, ih⟩
  | control _ _ _ ih | sequence _ _ _ ih | escape _ _ ih => exact ih

end sanitize

/-- The credential that stands in the text never stands in the notice that replaces it: it holds a colon. -/
theorem credential_not_in_redacted (auth : ProxyAuth) : ¬auth.credential <:+: redacted := by
  intro hInfix
  obtain ⟨username, password⟩ := auth
  obtain ⟨i, hi, n, hn, hDecode⟩ := Base64.mem_of_infix hInfix
  have hColon : (0x3a : UInt8) ∈ username ++ utf8 ":" ++ password := by
    have hText : utf8 ":" = [0x3a] := by decide
    simp [hText]
  have hNone : ∀ i < 23, ∀ n < 23, (0x3a : UInt8) ∉ Base64.decode ((redacted.drop i).take n) := by decide
  refine hNone i (Nat.lt_succ_of_le hi) n (Nat.lt_succ_of_le hn) ?_
  rw [hDecode]
  exact hColon

/-- A refusal is short and clean, and keeps the credential to itself. -/
structure KeepsSecret (auth : ProxyAuth) (text : List Char) : Prop where
  short : text.length ≤ maxProxyRejectionBodyChars
  clean : ∀ c ∈ text, isControl c = false
  secret : ¬auth.credential <:+: text

/-- The message shows the credential among its first characters, and no keyword with it. -/
def Leaks (auth : ProxyAuth) (message : List Char) : Prop :=
  ∃ shown, Visible message shown ∧ auth.credential <:+: shown.take maxProxyRejectionBodyChars ∧
    looksLikeCredential (shown.take maxProxyRejectionBodyChars) = false

theorem keepsSecret_iff (auth : ProxyAuth) (headers : ResponseHeaders) (initialBuf : Str) :
    KeepsSecret auth (proxyRejectionBody headers initialBuf) ↔ ¬Leaks auth (rejectionText headers initialBuf) := by
  have hKept : ∀ shown, Visible (rejectionText headers initialBuf) shown →
      proxyRejectionBody headers initialBuf =
        if looksLikeCredential (shown.take maxProxyRejectionBodyChars) then redacted
        else shown.take maxProxyRejectionBodyChars := by
    intro shown hShown
    rw [proxyRejectionBody, sanitize_visible hShown]
    rfl
  constructor
  · rintro hKeeps ⟨shown, hShown, hInfix, hLooks⟩
    refine hKeeps.secret ?_
    rw [hKept shown hShown, if_neg (Bool.eq_false_iff.mp hLooks)]
    exact hInfix
  · intro hLeaks
    obtain ⟨shown, hShown⟩ := exists_visible (rejectionText headers initialBuf)
    rw [hKept shown hShown]
    split_ifs with hLooks
    · have hClean : redacted.all (fun c => !isControl c) = true := by decide
      refine ⟨by decide, fun c hMem => ?_, credential_not_in_redacted auth⟩
      exact Bool.not_eq_eq_eq_not.mp (List.all_eq_true.mp hClean c hMem)
    · refine ⟨List.length_take_le _ _, ?_, ?_⟩
      · exact fun c hMem => hShown.clean c (List.mem_of_mem_take hMem)
      · exact fun hInfix => hLeaks ⟨shown, hShown, hInfix, Bool.eq_false_iff.mpr hLooks⟩

/-- A proxy that sends back `Basic dTpw`, the credential of `u:p`. -/
theorem not_keepsSecret : ¬∀ auth headers initialBuf, KeepsSecret auth (proxyRejectionBody headers initialBuf) := by
  intro hAll
  have hSecret := (hAll (.basic (utf8 "u") (utf8 "p")) [] (utf8 "Basic dTpw")).secret
  exact hSecret (by decide)

end Eggfetch.Proxy
