import Eggfetch.Text.Search

/-! How the httpx facade reads a `WWW-Authenticate` header (`_parse_challenge` of `_auth.py`). -/
namespace Eggfetch.Facade.Auth
open Text

section
variable (alnum : Char → Bool)

/-- `\w`; `alnum` tells the letters and digits beyond ASCII. -/
def isWord (c : Char) : Bool := c.isAlphanum || c == '_' || (128 ≤ c.toNat && alnum c)

/-- `\s`, and what `str.strip` takes off. -/
def isSpace (c : Char) : Bool :=
  [9, 10, 11, 12, 13, 28, 29, 30, 31, 32, 0x85, 0xa0, 0x1680, 0x2028, 0x2029, 0x202f, 0x205f, 0x3000].contains c.toNat ||
    (0x2000 ≤ c.toNat && c.toNat ≤ 0x200a)

def strip (s : List Char) : List Char := (s.dropWhile isSpace).rdropWhile isSpace

/-- `([^,]+)`. Where nothing else is left, it takes the last blank before, if there is one. -/
def matchUnquoted (blank : Bool) (s : List Char) : Option (List Char × List Char) :=
  match s with
  | [] => if blank then some ([], []) else none
  | c :: rest =>
    if c = ',' then if blank then some ([], c :: rest) else none
    else some (strip ((c :: rest).takeWhile (· != ',')), (c :: rest).dropWhile (· != ','))

/-- `\s*(?:"([^"]*)"|([^,]+))`: the value, and what stands behind the match. -/
def matchValue (s : List Char) : Option (List Char × List Char) :=
  let text := s.dropWhile isSpace
  let blank := decide (text.length < s.length)
  match text with
  | '"' :: body =>
    if '"' ∈ body then some (body.takeWhile (· != '"'), (body.dropWhile (· != '"')).drop 1) else matchUnquoted blank text
  | _ => matchUnquoted blank text

/-- `\s*=\s*(?:"([^"]*)"|([^,]+))` behind a run of word characters. -/
def matchAssigned (s : List Char) : Option (List Char × List Char) :=
  match s.dropWhile isSpace with
  | '=' :: value => matchValue value
  | _ => none

/-- `finditer`. A match starts at the first character of a run of word characters or nowhere in it. -/
def scan : Nat → List Char → List (List Char × List Char)
  | 0, _ => []
  | fuel + 1, s =>
    match s with
    | [] => []
    | c :: rest =>
      if isWord alnum c then
        match matchAssigned ((c :: rest).dropWhile (isWord alnum)) with
        | some (value, left) => ((c :: rest).takeWhile (isWord alnum), value) :: scan fuel left
        | none => scan fuel ((c :: rest).dropWhile (isWord alnum))
      else scan fuel rest

def findPairs (s : List Char) : List (List Char × List Char) := scan alnum s.length s

def lower (s : List Char) : List Char := s.map Char.toLower

/-- `none` is the `ValueError`. -/
def parseChallenge (header : List Char) : Option (List (List Char × List Char)) :=
  let rest := header.drop 6
  let remaining := rest.dropWhile isSpace
  if lower (header.take 6) ≠ "digest".toList ∨ remaining.length = rest.length then none
  else if remaining = [] then if (rest.drop 1).any (· != '\n') then some [] else none
  else some (findPairs alnum (remaining.takeWhile (· != '\n')))

def valuesOf (pairs : List (List Char × List Char)) (key : List Char) : List (List Char) :=
  (pairs.filter fun pair => pair.1 = key).map Prod.snd

def lookup (pairs : List (List Char × List Char)) (key : List Char) : Option (List Char) := (valuesOf pairs key).getLast?

end

def isTokenChar (c : Char) : Bool := c.isAlphanum || "!#$%&'*+-.^_`|~".toList.contains c

def isToken68Char (c : Char) : Bool := c.isAlphanum || "-._~+/".toList.contains c

def isBlank (c : Char) : Bool := c == ' ' || c == '\t'

def isQuotedText : List Char → Bool
  | [] => true
  | '\\' :: c :: rest => c != '\n' && isQuotedText rest
  | c :: rest => c != '"' && c != '\\' && c != '\n' && isQuotedText rest

inductive ParamValue where
  | token (text : List Char) (valid : text ≠ [] ∧ text.all isTokenChar = true)
  | quoted (text : List Char) (valid : isQuotedText text = true)

def ParamValue.text : ParamValue → List Char
  | .token text _ => text
  | .quoted text _ => text

def ParamValue.render : ParamValue → List Char
  | .token text _ => text
  | .quoted text _ => '"' :: (text ++ ['"'])

structure Param where
  name : List Char
  before : List Char
  after : List Char
  value : ParamValue
  valid : name ≠ [] ∧ name.all isTokenChar = true ∧ before.all isBlank = true ∧ after.all isBlank = true

inductive Item where
  | param (param : Param)
  | token68 (body : List Char) (padding : Nat) (valid : body ≠ [] ∧ body.all isToken68Char = true)

def Item.render : Item → List Char
  | .param p => p.name ++ p.before ++ '=' :: (p.after ++ p.value.render)
  | .token68 body padding _ => body ++ List.replicate padding '='

def Item.params : Item → List Param
  | .param p => [p]
  | .token68 _ _ _ => []

/-- A comma among blanks and further commas. -/
structure Separator where
  before : List Char
  after : List Char
  valid : before.all isBlank = true ∧ after.all (fun c => isBlank c || c == ',') = true

def Separator.render (sep : Separator) : List Char := sep.before ++ ',' :: sep.after

/-- A scheme, and blanks and the items if there are any. -/
structure AuthChallenge where
  scheme : List Char
  gap : List Char
  first : Option Item
  rest : List (Separator × Item)
  valid : scheme ≠ [] ∧ scheme.all isTokenChar = true ∧ gap ≠ [] ∧ gap.all isBlank = true

namespace AuthChallenge

def body (c : AuthChallenge) : List Char :=
  match c.first with
  | none => []
  | some first => c.gap ++ first.render ++ c.rest.flatMap fun item => item.1.render ++ item.2.render

def render (c : AuthChallenge) : List Char := c.scheme ++ c.body

def items (c : AuthChallenge) : List Item :=
  match c.first with
  | none => []
  | some first => first :: c.rest.map Prod.snd

def value (c : AuthChallenge) (key : List Char) : Option (List Char) :=
  (((c.items.flatMap Item.params).filter fun p => lower p.name = key).map fun p => p.value.text).getLast?

end AuthChallenge

/-- The challenges of all `WWW-Authenticate` fields of a response. -/
structure WwwAuthenticate where
  first : AuthChallenge
  others : List (Separator × AuthChallenge)

namespace WwwAuthenticate

def render (header : WwwAuthenticate) : List Char :=
  header.first.render ++ header.others.flatMap fun challenge => challenge.1.render ++ challenge.2.render

def items (header : WwwAuthenticate) : List Item := header.first.items ++ header.others.flatMap fun challenge => challenge.2.items

end WwwAuthenticate

section
variable {alnum : Char → Bool} {c : Char}

/-- Visible, and none of the characters `"`, `,` and `=`. -/
def isPlain (c : Char) : Bool := 33 ≤ c.toNat && c.toNat ≤ 126 && c.toNat != 34 && c.toNat != 44 && c.toNat != 61

theorem isPlain_iff : isPlain c = true ↔ 33 ≤ c.toNat ∧ c.toNat ≤ 126 ∧ c.toNat ≠ 34 ∧ c.toNat ≠ 44 ∧ c.toNat ≠ 61 := by
  simp only [isPlain, Bool.and_eq_true, decide_eq_true_iff, bne_iff_ne, and_assoc]

theorem isAlphanum_plain (h : c.isAlphanum = true) : isPlain c = true := by
  have hAlpha : c.isAlpha = (decide (c.val ≥ 65 ∧ c.val ≤ 90) || c.val ≥ 97 && c.val ≤ 122) := rfl
  simp only [Char.isAlphanum, hAlpha, Char.isDigit, Bool.or_eq_true, Bool.and_eq_true, decide_eq_true_iff, ge_iff_le,
    UInt32.le_iff_toNat_le] at h
  have hVal : c.toNat = c.val.toNat := rfl
  rw [isPlain_iff, hVal]
  rcases h with (⟨hLow, hHigh⟩ | ⟨hLow, hHigh⟩) | ⟨hLow, hHigh⟩ <;> simp at hLow hHigh <;> omega

theorem isTokenChar_plain (h : isTokenChar c = true) : isPlain c = true := by
  have hList : ("!#$%&'*+-.^_`|~".toList.all isPlain) = true := by decide
  rw [isTokenChar, Bool.or_eq_true] at h
  rcases h with h | h
  · exact isAlphanum_plain h
  · exact List.all_eq_true.mp hList c (List.contains_iff_mem.mp h)

theorem isToken68Char_plain (h : isToken68Char c = true) : isPlain c = true := by
  have hList : ("-._~+/".toList.all isPlain) = true := by decide
  rw [isToken68Char, Bool.or_eq_true] at h
  rcases h with h | h
  · exact isAlphanum_plain h
  · exact List.all_eq_true.mp hList c (List.contains_iff_mem.mp h)

theorem isPlain_not_space (h : isPlain c = true) : isSpace c = false := by
  obtain ⟨hLow, hHigh, -⟩ := isPlain_iff.mp h
  rw [isSpace, Bool.or_eq_false_iff]
  constructor
  · rw [Bool.eq_false_iff]
    intro hMem
    have hOut : ([9, 10, 11, 12, 13, 28, 29, 30, 31, 32, 0x85, 0xa0, 0x1680, 0x2028, 0x2029, 0x202f, 0x205f, 0x3000].all
        fun n => decide (n < 33) || decide (126 < n)) = true := by decide
    have hBound := List.all_eq_true.mp hOut _ (List.contains_iff_mem.mp hMem)
    rw [Bool.or_eq_true, decide_eq_true_iff, decide_eq_true_iff] at hBound
    omega
  · rw [Bool.and_eq_false_iff, decide_eq_false_iff_not, decide_eq_false_iff_not]
    omega

theorem isPlain_ne {d : Char} (h : isPlain c = true) (hd : isPlain d = false) : c ≠ d := by
  rintro rfl
  rw [hd] at h
  cases h

theorem isBlank_cases (h : isBlank c = true) : c = ' ' ∨ c = '\t' := by
  rw [isBlank, Bool.or_eq_true, beq_iff_eq, beq_iff_eq] at h
  exact h

theorem isBlank_space (h : isBlank c = true) : isSpace c = true := by
  rcases isBlank_cases h with rfl | rfl <;> rfl

theorem isWord_of_lt (h : c.toNat < 128) : isWord alnum c = (c.isAlphanum || c == '_') := by
  rw [isWord, decide_eq_false (Nat.not_le.mpr h), Bool.false_and, Bool.or_false]

theorem isBlank_not_word (h : isBlank c = true) : isWord alnum c = false := by
  rcases isBlank_cases h with rfl | rfl <;> exact isWord_of_lt (by decide)

end

section
variable {alnum : Char → Bool} {s x : List Char} {c : Char}

private theorem matchUnquoted_length {blank : Bool} {value left : List Char} (h : matchUnquoted blank s = some (value, left)) :
    left.length ≤ s.length := by
  rw [matchUnquoted.eq_def] at h
  split at h
  · split at h
    · cases h
      exact Nat.le_refl _
    · cases h
  · split at h
    · split at h
      · cases h
        exact Nat.le_refl _
      · cases h
    · cases h
      exact (List.dropWhile_suffix _).length_le

private theorem matchValue_length {value left : List Char} (h : matchValue s = some (value, left)) : left.length ≤ s.length := by
  have hTrim := (List.dropWhile_suffix (l := s) isSpace).length_le
  rw [matchValue] at h
  split at h
  · next body hText =>
    split at h
    · cases h
      have hDrop := (List.dropWhile_suffix (l := body) (· != '"')).length_le
      rw [hText, List.length_cons] at hTrim
      rw [List.length_drop]
      omega
    · exact (matchUnquoted_length h).trans hTrim
  · exact (matchUnquoted_length h).trans hTrim

theorem matchAssigned_length {value left : List Char} (h : matchAssigned s = some (value, left)) : left.length ≤ s.length := by
  have hTrim := (List.dropWhile_suffix (l := s) isSpace).length_le
  rw [matchAssigned] at h
  split at h
  · next text hText =>
    rw [hText, List.length_cons] at hTrim
    exact (matchValue_length h).trans (by omega)
  · cases h

theorem scan_fuel {n m : Nat} (hn : s.length ≤ n) (hm : s.length ≤ m) : scan alnum n s = scan alnum m s := by
  induction n generalizing s m with
  | zero =>
    obtain rfl := List.eq_nil_of_length_eq_zero (Nat.le_zero.mp hn)
    cases m with
    | zero => rfl
    | succ m => rfl
  | succ n ih =>
    cases s with
    | nil =>
      cases m with
      | zero => rfl
      | succ m => rfl
    | cons c rest =>
      cases m with
      | zero => cases hm
      | succ m =>
        have hRest : rest.length ≤ n ∧ rest.length ≤ m := ⟨Nat.le_of_succ_le_succ hn, Nat.le_of_succ_le_succ hm⟩
        rw [scan, scan]
        split
        · next hWord =>
          have hDrop : ((c :: rest).dropWhile (isWord alnum)).length ≤ rest.length := by
            rw [List.dropWhile_cons_of_pos hWord]
            exact (List.dropWhile_suffix _).length_le
          split
          · next value left hMatch =>
            have hLeft := (matchAssigned_length hMatch).trans hDrop
            rw [ih (hLeft.trans hRest.1) (hLeft.trans hRest.2)]
          · exact ih (hDrop.trans hRest.1) (hDrop.trans hRest.2)
        · exact ih hRest.1 hRest.2

@[simp] theorem findPairs_nil : findPairs alnum [] = [] := rfl

theorem findPairs_cons (h : isWord alnum c = false) (s : List Char) : findPairs alnum (c :: s) = findPairs alnum s := by
  rw [findPairs, List.length_cons, scan, h, if_neg Bool.false_ne_true, findPairs]

theorem findPairs_append (h : ∀ c ∈ s, isWord alnum c = false) (x : List Char) :
    findPairs alnum (s ++ x) = findPairs alnum x := by
  induction s with
  | nil => rw [List.nil_append]
  | cons c s ih =>
    rw [List.cons_append, findPairs_cons (h c List.mem_cons_self), ih fun d hd => h d (List.mem_cons_of_mem c hd)]

theorem takeWhile_run {p : Char → Bool} (h : ∀ c ∈ s, p c = true) (hx : ∀ c, x.head? = some c → p c = false) :
    (s ++ x).takeWhile p = s ∧ (s ++ x).dropWhile p = x := by
  rw [List.takeWhile_append_of_pos h, List.dropWhile_append_of_pos h]
  cases x with
  | nil => exact ⟨List.append_nil s, rfl⟩
  | cons c x =>
    have hc := Bool.eq_false_iff.mp (hx c rfl)
    rw [List.takeWhile_cons_of_neg hc, List.dropWhile_cons_of_neg hc]
    exact ⟨List.append_nil s, rfl⟩

/-- A run of word characters is looked at as a whole. -/
theorem findPairs_run (hne : s ≠ []) (h : ∀ c ∈ s, isWord alnum c = true)
    (hx : ∀ c, x.head? = some c → isWord alnum c = false) :
    findPairs alnum (s ++ x) =
      match matchAssigned x with
      | some (value, left) => (s, value) :: findPairs alnum left
      | none => findPairs alnum x := by
  obtain ⟨hTake, hDrop⟩ := takeWhile_run h hx
  cases s with
  | nil => exact absurd rfl hne
  | cons c s =>
    rw [List.cons_append] at hTake hDrop ⊢
    rw [findPairs, List.length_cons, scan, h c List.mem_cons_self, if_pos rfl, hTake, hDrop]
    have hLength : x.length ≤ (s ++ x).length := by
      rw [List.length_append]
      exact Nat.le_add_left _ _
    cases hMatch : matchAssigned x with
    | none => exact scan_fuel hLength (Nat.le_refl _)
    | some found =>
      exact congrArg (_ :: ·) (scan_fuel ((matchAssigned_length hMatch).trans hLength) (Nat.le_refl _))

/-- A text before which a run of word characters ends, and that assigns it nothing. -/
structure Boundary (alnum : Char → Bool) (x : List Char) : Prop where
  word : ∀ c, x.head? = some c → isWord alnum c = false
  unassigned : (x.dropWhile isSpace).head? ≠ some '='

theorem matchAssigned_eq_none (h : (s.dropWhile isSpace).head? ≠ some '=') : matchAssigned s = none := by
  rw [matchAssigned]
  split
  · next text hText =>
    rw [hText] at h
    exact absurd rfl h
  · rfl

private theorem dropWhile_unassigned (h : '=' ∉ s) (hx : (x.dropWhile isSpace).head? ≠ some '=') :
    ((s ++ x).dropWhile isSpace).head? ≠ some '=' := by
  rw [List.dropWhile_append]
  split
  · exact hx
  · intro hHead
    rw [List.head?_append, Option.or_eq_some_iff] at hHead
    rcases hHead with hHead | ⟨hNone, -⟩
    · exact h ((List.dropWhile_suffix _).subset (List.mem_of_mem_head? hHead))
    · rw [List.head?_eq_none_iff] at hNone
      next hNot => exact hNot (by rw [hNone]; rfl)

/-- Without an `=` there is nothing to be found. -/
theorem findPairs_skip (h : '=' ∉ s) (hx : Boundary alnum x) : findPairs alnum (s ++ x) = findPairs alnum x := by
  suffices hAll : ∀ n (s : List Char), s.length ≤ n → '=' ∉ s → findPairs alnum (s ++ x) = findPairs alnum x from
    hAll s.length s (Nat.le_refl _) h
  intro n
  induction n with
  | zero =>
    intro s hs h
    rw [List.eq_nil_of_length_eq_zero (Nat.le_zero.mp hs), List.nil_append]
  | succ n ih =>
    intro s hs h
    cases s with
    | nil => rw [List.nil_append]
    | cons c s =>
      obtain ⟨hc, hRest⟩ := List.ne_and_not_mem_of_not_mem_cons h
      have hLength := Nat.le_of_succ_le_succ hs
      by_cases hWord : isWord alnum c = true
      · have hSplit : s = s.takeWhile (isWord alnum) ++ s.dropWhile (isWord alnum) := List.takeWhile_append_dropWhile.symm
        have hTail : '=' ∉ s.dropWhile (isWord alnum) := fun hMem => hRest ((List.dropWhile_suffix _).subset hMem)
        have hRun : ∀ d ∈ c :: s.takeWhile (isWord alnum), isWord alnum d = true := by
          rintro d (_ | ⟨_, hd⟩)
          · exact hWord
          · exact List.mem_takeWhile_imp hd
        have hHead : ∀ d, (s.dropWhile (isWord alnum) ++ x).head? = some d → isWord alnum d = false := by
          intro d hd
          cases hDrop : s.dropWhile (isWord alnum) with
          | nil =>
            rw [hDrop, List.nil_append] at hd
            exact hx.word d hd
          | cons e t =>
            rw [hDrop] at hd
            cases hd
            have hNot := List.head?_dropWhile_not (isWord alnum) s
            rw [hDrop] at hNot
            exact hNot
        have hNone := matchAssigned_eq_none (dropWhile_unassigned hTail hx.unassigned)
        rw [hSplit, List.cons_append, List.append_assoc, ← List.cons_append,
          findPairs_run (List.cons_ne_nil _ _) hRun hHead, hNone]
        exact ih _ ((List.dropWhile_suffix _).length_le.trans hLength) hTail
      · rw [List.cons_append, findPairs_cons (Bool.eq_false_iff.mpr hWord), ih s hLength hRest]

end
end Eggfetch.Facade.Auth
