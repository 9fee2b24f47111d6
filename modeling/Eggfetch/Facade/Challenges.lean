import Eggfetch.Facade.Challenge

/-! What the scan of a well-formed header finds. -/
namespace Eggfetch.Facade.Auth
open Text

section
variable (alnum : Char → Bool)

def Param.word (p : Param) : List Char := p.name.rtakeWhile (isWord alnum)

/-- The values the items give under a key, by the last word of the name. -/
def Item.valuesOf (key : List Char) (item : Item) : List (List Char) :=
  (item.params.filter fun p => p.word alnum = key).map fun p => p.value.text

/-- No quotation mark is escaped, no name but a word stands before a quoted `=`, and no token is padded behind one of the keys. -/
def Item.Readable (keys : List (List Char)) : Item → Prop
  | .param p => '"' ∉ p.value.text ∧ (p.word alnum = [] → '=' ∉ p.value.text)
  | .token68 body padding _ => padding = 0 ∨ body.rtakeWhile (isWord alnum) ∉ keys

end

def IsTail (x : List Char) : Prop := x = [] ∨ ∃ blanks y, blanks.all isBlank = true ∧ x = blanks ++ ',' :: y

section
variable {alnum : Char → Bool} {s x : List Char} {c : Char} {keys : List (List Char)} {key : List Char}

theorem plain_unassigned (h : isPlain c = true) : ((c :: x).dropWhile isSpace).head? ≠ some '=' := by
  rw [List.dropWhile_cons_of_neg (Bool.eq_false_iff.mp (isPlain_not_space h)), List.head?_cons]
  exact fun hEq => isPlain_ne h (by decide) (Option.some.inj hEq)

theorem not_mem_of_plain {d : Char} (h : ∀ c ∈ s, isPlain c = true) (hd : isPlain d = false) : d ∉ s :=
  fun hMem => isPlain_ne (h d hMem) hd rfl

theorem IsTail.boundary (hx : IsTail x) : Boundary alnum x := by
  rcases hx with rfl | ⟨blanks, y, hBlanks, rfl⟩
  · constructor
    · intro c hc
      cases hc
    · intro hc
      cases hc
  · have hDrop : (blanks ++ ',' :: y).dropWhile isSpace = ',' :: y := by
      rw [List.dropWhile_append_of_pos fun c hc => isBlank_space (List.all_eq_true.mp hBlanks c hc)]
      rfl
    constructor
    · intro c hc
      cases blanks with
      | nil =>
        cases hc
        rfl
      | cons b blanks =>
        cases hc
        exact isBlank_not_word (List.all_eq_true.mp hBlanks c List.mem_cons_self)
    · rw [hDrop]
      intro hc
      cases hc

theorem blanks_not_word (h : s.all isBlank = true) : ∀ c ∈ s, isWord alnum c = false :=
  fun c hc => isBlank_not_word (List.all_eq_true.mp h c hc)

/-- What precedes the last word of a name is passed over. -/
theorem findPairs_name (h : ∀ c ∈ s, isPlain c = true) (x : List Char) :
    findPairs alnum (s.rdropWhile (isWord alnum) ++ x) = findPairs alnum x := by
  have hSub : ∀ c ∈ s.rdropWhile (isWord alnum), isPlain c = true := fun c hc => h c ((List.rdropWhile_prefix _ _).subset hc)
  rcases List.eq_nil_or_concat' (s.rdropWhile (isWord alnum)) with hNil | ⟨front, c, hFront⟩
  · rw [hNil, List.nil_append]
  · have hNe : s.rdropWhile (isWord alnum) ≠ [] := by
      rw [hFront]
      exact List.concat_ne_nil _ _
    have hLast := List.rdropWhile_last_not (isWord alnum) s hNe
    rw [hFront] at hSub
    simp only [hFront, List.getLast_append_singleton] at hLast
    have hc := hSub c (List.mem_append_right front List.mem_cons_self)
    have hWord := Bool.eq_false_iff.mpr hLast
    have hBoundary : Boundary alnum (c :: x) := by
      constructor
      · intro d hd
        cases hd
        exact hWord
      · exact plain_unassigned hc
    have hEq : '=' ∉ front := not_mem_of_plain (fun d hd => hSub d (List.mem_append_left [c] hd)) (by decide)
    rw [hFront, List.append_assoc, List.singleton_append, findPairs_skip hEq hBoundary, findPairs_cons hWord]

theorem IsTail.takeWhile (hx : IsTail x) : ∀ c ∈ x.takeWhile (· != ','), isBlank c = true := by
  rcases hx with rfl | ⟨blanks, y, hBlanks, rfl⟩
  · intro c hc
    cases hc
  · have hComma : ',' ∉ blanks := by
      intro hMem
      have hBlank := List.all_eq_true.mp hBlanks _ hMem
      cases hBlank
    rw [takeWhile_cut hComma]
    exact List.all_eq_true.mp hBlanks

theorem IsTail.findPairs (hx : IsTail x) : findPairs alnum (x.dropWhile (· != ',')) = findPairs alnum x := by
  have hBlanks := hx.takeWhile
  conv_rhs => rw [← List.takeWhile_append_dropWhile (p := (· != ',')) (l := x)]
  rw [findPairs_append fun c hc => isBlank_not_word (hBlanks c hc)]

private theorem strip_plain (hne : s ≠ []) (h : ∀ c ∈ s, isPlain c = true) {blanks : List Char}
    (hBlanks : ∀ c ∈ blanks, isBlank c = true) :
    strip (s ++ blanks) = s := by
  have hHead : (s ++ blanks).dropWhile isSpace = s ++ blanks := by
    cases s with
    | nil => exact absurd rfl hne
    | cons c s =>
      rw [List.cons_append,
        List.dropWhile_cons_of_neg (Bool.eq_false_iff.mp (isPlain_not_space (h c List.mem_cons_self)))]
  have hLast := takeWhile_run (s := blanks.reverse) (x := s.reverse) (p := isSpace)
    (fun c hc => isBlank_space (hBlanks c (List.mem_reverse.mp hc)))
    (fun c hc => isPlain_not_space (h c (List.mem_reverse.mp (List.mem_of_mem_head? hc))))
  rw [strip, hHead, List.rdropWhile, List.reverse_append, hLast.2, List.reverse_reverse]

theorem matchValue_unquoted {rest : List Char} (h : s.dropWhile isSpace = c :: rest) (hc : c ≠ '"') :
    matchValue s = matchUnquoted (decide ((c :: rest).length < s.length)) (c :: rest) := by
  rw [matchValue, h]
  split
  · next body hText => exact absurd (List.cons.inj hText).1 hc
  · rfl

private theorem matchValue_render (value : ParamValue) (h : '"' ∉ value.text) {blanks : List Char}
    (hBlanks : ∀ c ∈ blanks, isBlank c = true)
    (hx : IsTail x) :
    ∃ left, matchValue (blanks ++ (value.render ++ x)) = some (value.text, left) ∧ findPairs alnum left = findPairs alnum x := by
  have hDrop : ∀ {c : Char} (y : List Char), isSpace c = false → (blanks ++ c :: y).dropWhile isSpace = c :: y := by
    intro c y hc
    rw [List.dropWhile_append_of_pos fun d hd => isBlank_space (hBlanks d hd),
      List.dropWhile_cons_of_neg (Bool.eq_false_iff.mp hc)]
  cases value with
  | quoted text valid =>
    have hText : ParamValue.render (.quoted text valid) ++ x = '"' :: (text ++ '"' :: x) := by
      rw [ParamValue.render, List.cons_append, List.append_assoc, List.singleton_append]
    have hQuote : '"' ∉ text := h
    refine ⟨x, ?_, rfl⟩
    rw [hText, matchValue, hDrop _ rfl]
    simp only
    rw [if_pos (List.mem_append_right text List.mem_cons_self), takeWhile_cut hQuote, dropWhile_cut hQuote, List.drop_one,
      List.tail_cons, ParamValue.text]
  | token text valid =>
    have hPlain : ∀ c ∈ text, isPlain c = true := fun c hc => isTokenChar_plain (List.all_eq_true.mp valid.2 c hc)
    refine ⟨x.dropWhile (· != ','), ?_, hx.findPairs⟩
    rw [ParamValue.render, ParamValue.text]
    have hComma : ∀ c ∈ text, (c != ',') = true := fun c hc => bne_iff_ne.mpr (isPlain_ne (hPlain c hc) (by decide))
    cases text with
    | nil => exact absurd rfl valid.1
    | cons c rest =>
      have hc := hPlain c List.mem_cons_self
      rw [List.cons_append, matchValue_unquoted (hDrop _ (isPlain_not_space hc)) (isPlain_ne hc (by decide)), matchUnquoted,
        if_neg (isPlain_ne hc (by decide)), ← List.cons_append, List.takeWhile_append_of_pos hComma,
        List.dropWhile_append_of_pos hComma, strip_plain (List.cons_ne_nil c rest) hPlain hx.takeWhile]

theorem Param.plain (p : Param) : ∀ c ∈ p.name, isPlain c = true :=
  fun c hc => isTokenChar_plain (List.all_eq_true.mp p.valid.2.1 c hc)

theorem equals_not_word : isWord alnum '=' = false := isWord_of_lt (by decide)

theorem rtakeWhile_word (s : List Char) : ∀ c ∈ s.rtakeWhile (isWord alnum), isWord alnum c = true :=
  fun _ hc => List.mem_rtakeWhile_imp hc

private theorem findPairs_value (value : ParamValue) (h : '=' ∉ value.text) (hx : IsTail x) :
    findPairs alnum (value.render ++ x) = findPairs alnum x := by
  cases value with
  | token text valid => exact findPairs_skip h hx.boundary
  | quoted text valid =>
    have hEq : '=' ∉ '"' :: text := by
      rintro (_ | ⟨_, hMem⟩)
      exact h hMem
    have hWord : isWord alnum '"' = false := isWord_of_lt (by decide)
    have hBoundary : Boundary alnum ('"' :: x) := by
      constructor
      · intro c hc
        cases hc
        exact hWord
      · intro hc
        cases hc
    rw [ParamValue.render, ← List.cons_append, List.append_assoc, List.singleton_append, findPairs_skip hEq hBoundary,
      findPairs_cons hWord]

private theorem matchAssigned_blanks {blanks : List Char} (h : ∀ c ∈ blanks, isBlank c = true) (x : List Char) :
    matchAssigned (blanks ++ '=' :: x) = matchValue x := by
  rw [matchAssigned, List.dropWhile_append_of_pos fun c hc => isBlank_space (h c hc)]
  rfl

theorem findPairs_param (p : Param) (h : (Item.param p).Readable alnum keys) (hx : IsTail x) :
    findPairs alnum ((Item.param p).render ++ x) =
      (if p.word alnum = [] then [] else [(p.word alnum, p.value.text)]) ++ findPairs alnum x := by
  obtain ⟨hQuote, hEq⟩ := h
  have hBefore : ∀ c ∈ p.before, isWord alnum c = false := blanks_not_word p.valid.2.2.1
  have hAfter : ∀ c ∈ p.after, isWord alnum c = false := blanks_not_word p.valid.2.2.2
  have hText : (Item.param p).render ++ x =
      p.name.rdropWhile (isWord alnum) ++ (p.word alnum ++ (p.before ++ '=' :: (p.after ++ (p.value.render ++ x)))) := by
    conv_lhs => rw [Item.render, ← List.rdropWhile_append_rtakeWhile (p := isWord alnum) (l := p.name)]
    simp only [Param.word, List.append_assoc, List.cons_append]
  rw [hText, findPairs_name p.plain]
  by_cases hWord : p.word alnum = []
  · rw [if_pos hWord, hWord, List.nil_append, List.nil_append, findPairs_append hBefore, findPairs_cons equals_not_word,
      findPairs_append hAfter, findPairs_value p.value (hEq hWord) hx]
  · have hHead : ∀ c, (p.before ++ '=' :: (p.after ++ (p.value.render ++ x))).head? = some c → isWord alnum c = false := by
      intro c hc
      cases hCases : p.before with
      | nil =>
        rw [hCases] at hc
        cases hc
        exact equals_not_word
      | cons b before =>
        rw [hCases] at hc hBefore
        cases hc
        exact hBefore c List.mem_cons_self
    obtain ⟨left, hMatch, hLeft⟩ : ∃ left, matchValue (p.after ++ (p.value.render ++ x)) = some (p.value.text, left) ∧
        findPairs alnum left = findPairs alnum x :=
      matchValue_render p.value hQuote (List.all_eq_true.mp p.valid.2.2.2) hx
    rw [if_neg hWord, findPairs_run hWord (rtakeWhile_word _) hHead,
      matchAssigned_blanks (List.all_eq_true.mp p.valid.2.2.1), hMatch]
    simp only
    rw [hLeft, List.singleton_append]

private theorem equals_append (k : Nat) (x : List Char) : findPairs alnum (List.replicate k '=' ++ x) = findPairs alnum x := by
  refine findPairs_append (fun c hc => ?_) x
  rw [List.eq_of_mem_replicate hc]
  exact equals_not_word

private theorem matchValue_padding (k : Nat) (hx : IsTail x) {value left : List Char}
    (h : matchValue (List.replicate k '=' ++ x) = some (value, left)) : findPairs alnum left = findPairs alnum x := by
  cases k with
  | zero =>
    rw [List.replicate_zero, List.nil_append] at h
    rcases hx with rfl | ⟨blanks, y, hBlanks, rfl⟩
    · cases h
    · have hDrop : (blanks ++ ',' :: y).dropWhile isSpace = ',' :: y := by
        rw [List.dropWhile_append_of_pos fun c hc => isBlank_space (List.all_eq_true.mp hBlanks c hc)]
        rfl
      rw [matchValue_unquoted hDrop (by decide), matchUnquoted, if_pos rfl] at h
      split at h
      · cases h
        exact (findPairs_append (blanks_not_word hBlanks) _).symm
      · cases h
  | succ k =>
    have hDrop : (List.replicate (k + 1) '=' ++ x).dropWhile isSpace = '=' :: (List.replicate k '=' ++ x) := rfl
    rw [matchValue_unquoted hDrop (by decide), matchUnquoted, if_neg (by decide)] at h
    cases h
    have hComma : ∀ c ∈ '=' :: List.replicate k '=', (c != ',') = true := by
      rw [← List.replicate_succ]
      intro c hc
      rw [List.eq_of_mem_replicate hc]
      rfl
    rw [← List.cons_append, List.dropWhile_append_of_pos hComma, hx.findPairs]

private theorem findPairs_token68 {body : List Char} (padding : Nat) (hBody : body.all isToken68Char = true) (hx : IsTail x) :
    ∃ pairs, findPairs alnum (body ++ List.replicate padding '=' ++ x) = pairs ++ findPairs alnum x ∧
      ∀ pair ∈ pairs, padding ≠ 0 ∧ pair.1 = body.rtakeWhile (isWord alnum) := by
  have hText : body ++ List.replicate padding '=' ++ x =
      body.rdropWhile (isWord alnum) ++ (body.rtakeWhile (isWord alnum) ++ (List.replicate padding '=' ++ x)) := by
    conv_lhs => rw [← List.rdropWhile_append_rtakeWhile (p := isWord alnum) (l := body)]
    simp only [List.append_assoc]
  rw [hText, findPairs_name fun c hc => isToken68Char_plain (List.all_eq_true.mp hBody c hc)]
  by_cases hWord : body.rtakeWhile (isWord alnum) = []
  · refine ⟨[], ?_, fun pair hPair => by cases hPair⟩
    rw [hWord, List.nil_append, equals_append, List.nil_append]
  · cases padding with
    | zero =>
      refine ⟨[], ?_, fun pair hPair => by cases hPair⟩
      rw [List.replicate_zero, List.nil_append, findPairs_run hWord (rtakeWhile_word _) hx.boundary.word,
        matchAssigned_eq_none (hx.boundary : Boundary alnum x).unassigned, List.nil_append]
    | succ k =>
      have hHead : ∀ c, (List.replicate (k + 1) '=' ++ x).head? = some c → isWord alnum c = false := by
        intro c hc
        cases hc
        exact equals_not_word
      rw [findPairs_run hWord (rtakeWhile_word _) hHead]
      have hAssigned : matchAssigned (List.replicate (k + 1) '=' ++ x) = matchValue (List.replicate k '=' ++ x) := rfl
      cases hMatch : matchAssigned (List.replicate (k + 1) '=' ++ x) with
      | none =>
        refine ⟨[], ?_, fun pair hPair => by cases hPair⟩
        simp only
        rw [equals_append, List.nil_append]
      | some found =>
        refine ⟨[(body.rtakeWhile (isWord alnum), found.1)], ?_, ?_⟩
        · simp only
          rw [matchValue_padding k hx (hAssigned.symm.trans hMatch), List.singleton_append]
        · intro pair hPair
          rw [List.mem_singleton.mp hPair]
          exact ⟨Nat.succ_ne_zero k, rfl⟩

private theorem valuesOf_append (left right : List (List Char × List Char)) (key : List Char) :
    valuesOf (left ++ right) key = valuesOf left key ++ valuesOf right key := by
  rw [valuesOf, List.filter_append, List.map_append]
  rfl

/-- Under a key an item gives its own value, and then the tail gives its values. -/
theorem valuesOf_item (item : Item) (h : item.Readable alnum keys) (hKey : key ∈ keys) (hNe : key ≠ []) (hx : IsTail x) :
    valuesOf (findPairs alnum (item.render ++ x)) key = item.valuesOf alnum key ++ valuesOf (findPairs alnum x) key := by
  cases item with
  | param p =>
    rw [findPairs_param p h hx, valuesOf_append]
    congr 1
    rw [Item.valuesOf, Item.params, valuesOf]
    by_cases hWord : p.word alnum = []
    · have hOther : p.word alnum ≠ key := fun hEq => hNe (hEq.symm.trans hWord)
      rw [if_pos hWord, List.filter_cons, decide_eq_false hOther]
      rfl
    · rw [if_neg hWord, List.filter_cons, List.filter_cons]
      cases hDecide : decide (p.word alnum = key) with
      | true => rfl
      | false => rfl
  | token68 body padding valid =>
    obtain ⟨pairs, hPairs, hOnly⟩ : ∃ pairs, findPairs alnum (body ++ List.replicate padding '=' ++ x) = pairs ++
      findPairs alnum x ∧
        ∀ pair ∈ pairs, padding ≠ 0 ∧ pair.1 = body.rtakeWhile (isWord alnum) := findPairs_token68 padding valid.2 hx
    have hNone : valuesOf pairs key = [] := by
      rw [valuesOf, List.map_eq_nil_iff, List.filter_eq_nil_iff]
      intro pair hPair hEq
      obtain ⟨hPadding, hFirst⟩ := hOnly pair hPair
      rcases h with hZero | hOut
      · exact hPadding hZero
      · rw [← hFirst, of_decide_eq_true hEq] at hOut
        exact hOut hKey
    rw [Item.render, hPairs, valuesOf_append, hNone, List.nil_append]
    rfl

theorem isTail_separator (sep : Separator) (y : List Char) : IsTail (sep.render ++ y) := by
  refine Or.inr ⟨sep.before, sep.after ++ y, sep.valid.1, ?_⟩
  rw [Separator.render, List.append_assoc, List.cons_append]

theorem findPairs_separator (sep : Separator) (y : List Char) : findPairs alnum (sep.render ++ y) = findPairs alnum y := by
  have hComma : isWord alnum ',' = false := isWord_of_lt (by decide)
  have hAfter : ∀ c ∈ sep.after, isWord alnum c = false := by
    intro c hc
    have hCases := List.all_eq_true.mp sep.valid.2 c hc
    rw [Bool.or_eq_true, beq_iff_eq] at hCases
    rcases hCases with hBlank | rfl
    · exact isBlank_not_word hBlank
    · exact hComma
  rw [Separator.render, List.append_assoc, List.cons_append, findPairs_append (blanks_not_word sep.valid.1),
    findPairs_cons hComma, findPairs_append hAfter]

theorem isTail_items (rest : List (Separator × Item)) (hx : IsTail x) :
    IsTail ((rest.flatMap fun item => item.1.render ++ item.2.render) ++ x) := by
  cases rest with
  | nil => exact hx
  | cons item rest =>
    rw [List.flatMap_cons, List.append_assoc, List.append_assoc]
    exact isTail_separator _ _

private theorem valuesOf_items {rest : List (Separator × Item)} (h : ∀ item ∈ rest.map Prod.snd, item.Readable alnum keys)
    (hKey : key ∈ keys) (hNe : key ≠ []) (hx : IsTail x) :
    valuesOf (findPairs alnum ((rest.flatMap fun item => item.1.render ++ item.2.render) ++ x)) key =
      (rest.map Prod.snd).flatMap (Item.valuesOf alnum key) ++ valuesOf (findPairs alnum x) key := by
  induction rest with
  | nil => rfl
  | cons item rest ih =>
    have hRest : ∀ item ∈ rest.map Prod.snd, item.Readable alnum keys :=
      fun other hOther => h other (List.mem_cons_of_mem _ hOther)
    rw [List.flatMap_cons, List.append_assoc, List.append_assoc, findPairs_separator,
      valuesOf_item item.2 (h item.2 List.mem_cons_self) hKey hNe (isTail_items rest hx), ih hRest, List.map_cons,
      List.flatMap_cons, List.append_assoc]

theorem item_head (item : Item) : ∃ c rest, item.render = c :: rest ∧ isPlain c = true := by
  cases item with
  | param p =>
    have hPlain := p.plain
    cases hName : p.name with
    | nil => exact absurd hName p.valid.1
    | cons c name =>
      rw [hName] at hPlain
      exact ⟨c, name ++ p.before ++ '=' :: (p.after ++ p.value.render), by rw [Item.render, hName]; rfl,
        hPlain c List.mem_cons_self⟩
  | token68 body padding valid =>
    cases body with
    | nil => exact absurd rfl valid.1
    | cons c body =>
      exact ⟨c, body ++ List.replicate padding '=', rfl, isToken68Char_plain (List.all_eq_true.mp valid.2 c List.mem_cons_self)⟩

theorem valuesOf_body {challenge : AuthChallenge} (h : ∀ item ∈ challenge.items, item.Readable alnum keys)
    (hKey : key ∈ keys) (hNe : key ≠ []) (hx : IsTail x) :
    valuesOf (findPairs alnum (challenge.body ++ x)) key =
      challenge.items.flatMap (Item.valuesOf alnum key) ++ valuesOf (findPairs alnum x) key := by
  rw [AuthChallenge.items] at h
  rw [AuthChallenge.body, AuthChallenge.items]
  cases hFirst : challenge.first with
  | none => rfl
  | some first =>
    rw [hFirst] at h
    simp only at h ⊢
    rw [List.append_assoc, List.append_assoc, findPairs_append (blanks_not_word challenge.valid.2.2.2),
      valuesOf_item first (h first List.mem_cons_self) hKey hNe (isTail_items challenge.rest hx),
      valuesOf_items (fun item hItem => h item (List.mem_cons_of_mem _ hItem)) hKey hNe hx, List.flatMap_cons, List.append_assoc]

private theorem boundary_body (challenge : AuthChallenge) (hx : IsTail x) : Boundary alnum (challenge.body ++ x) := by
  rw [AuthChallenge.body]
  cases challenge.first with
  | none => exact hx.boundary
  | some first =>
    obtain ⟨c, rest, hRender, hPlain⟩ := item_head first
    simp only
    rw [hRender, List.append_assoc, List.append_assoc, List.cons_append]
    constructor
    · intro d hd
      cases hGap : challenge.gap with
      | nil => exact absurd hGap challenge.valid.2.2.1
      | cons b gap =>
        rw [hGap] at hd
        cases hd
        exact isBlank_not_word (List.all_eq_true.mp challenge.valid.2.2.2 d (by rw [hGap]; exact List.mem_cons_self))
    · rw [List.dropWhile_append_of_pos fun d hd => isBlank_space (List.all_eq_true.mp challenge.valid.2.2.2 d hd)]
      exact plain_unassigned hPlain

theorem isTail_challenges (others : List (Separator × AuthChallenge)) :
    IsTail (others.flatMap fun challenge => challenge.1.render ++ challenge.2.render) := by
  cases others with
  | nil => exact Or.inl rfl
  | cons challenge others =>
    rw [List.flatMap_cons, List.append_assoc]
    exact isTail_separator _ _

theorem valuesOf_challenges {others : List (Separator × AuthChallenge)}
    (h : ∀ item ∈ others.flatMap (fun challenge => challenge.2.items), item.Readable alnum keys) (hKey : key ∈ keys)
    (hNe : key ≠ []) :
    valuesOf (findPairs alnum (others.flatMap fun challenge => challenge.1.render ++ challenge.2.render)) key =
      (others.flatMap fun challenge => challenge.2.items).flatMap (Item.valuesOf alnum key) := by
  induction others with
  | nil => rfl
  | cons challenge others ih =>
    rw [List.flatMap_cons] at h
    have hTail := isTail_challenges others
    have hScheme : '=' ∉ challenge.2.scheme :=
      not_mem_of_plain (fun c hc => isTokenChar_plain (List.all_eq_true.mp challenge.2.valid.2.1 c hc)) (by decide)
    rw [List.flatMap_cons, List.flatMap_cons, List.append_assoc, findPairs_separator, AuthChallenge.render, List.append_assoc,
      findPairs_skip hScheme (boundary_body challenge.2 hTail),
      valuesOf_body (fun item hItem => h item (List.mem_append_left _ hItem)) hKey hNe hTail,
      ih fun item hItem => h item (List.mem_append_right _ hItem), List.flatMap_append]

theorem body_blanks (challenge : AuthChallenge) (hx : IsTail x) :
    ∃ blanks text, challenge.body ++ x = blanks ++ text ∧ (∀ c ∈ blanks, isBlank c = true) ∧
      (∀ c, text.head? = some c → isSpace c = false) ∧
      (∀ c, (challenge.body ++ x).head? = some c → isBlank c = true ∨ c = ',') := by
  rw [AuthChallenge.body]
  cases challenge.first with
  | none =>
    simp only
    rw [List.nil_append]
    rcases hx with rfl | ⟨blanks, y, hBlanks, rfl⟩
    · refine ⟨[], [], rfl, ?_, ?_, ?_⟩ <;> intro c hc <;> cases hc
    · refine ⟨blanks, ',' :: y, rfl, List.all_eq_true.mp hBlanks, fun c hc => by cases hc; rfl, fun c hc => ?_⟩
      cases blanks with
      | nil =>
        cases hc
        exact Or.inr rfl
      | cons b blanks =>
        cases hc
        exact Or.inl (List.all_eq_true.mp hBlanks c List.mem_cons_self)
  | some first =>
    obtain ⟨c, rest, hRender, hPlain⟩ := item_head first
    have hGap := List.all_eq_true.mp challenge.valid.2.2.2
    simp only
    rw [hRender, List.append_assoc, List.append_assoc, List.cons_append]
    refine ⟨challenge.gap, _, rfl, hGap, fun d hd => by cases hd; exact isPlain_not_space hPlain, fun d hd => ?_⟩
    cases hCases : challenge.gap with
    | nil => exact absurd hCases challenge.valid.2.2.1
    | cons b gap =>
      rw [hCases] at hd hGap
      cases hd
      exact Or.inl (hGap d List.mem_cons_self)

private theorem scheme_length {scheme : List Char} (hScheme : ∀ c ∈ scheme, isPlain c = true)
    (hHead : ∀ c, x.head? = some c → isBlank c = true ∨ c = ',') (hLower : lower ((scheme ++ x).take 6) = "digest".toList)
    (hSpace : (((scheme ++ x).drop 6).dropWhile isSpace).length ≠ ((scheme ++ x).drop 6).length) : scheme.length = 6 := by
  rcases Nat.lt_trichotomy scheme.length 6 with hShort | hExact | hLong
  · rw [List.take_append, List.take_of_length_le hShort.le] at hLower
    cases x with
    | nil =>
      have hLength := congrArg List.length hLower
      rw [List.take_nil, List.append_nil, lower, List.length_map] at hLength
      have hSix : "digest".toList.length = 6 := by decide
      omega
    | cons c x =>
      have hMem : c.toLower ∈ "digest".toList := by
        rw [← hLower, lower]
        refine List.mem_map_of_mem (List.mem_append_right scheme ?_)
        rw [show 6 - scheme.length = (5 - scheme.length) + 1 by omega, List.take_succ_cons]
        exact List.mem_cons_self
      exfalso
      rcases hHead c rfl with hBlank | rfl
      · rcases isBlank_cases hBlank with rfl | rfl <;> revert hMem <;> decide
      · revert hMem
        decide
  · exact hExact
  · refine absurd ?_ hSpace
    rw [List.drop_append_of_le_length hLong.le]
    cases hDrop : scheme.drop 6 with
    | nil =>
      have hLength := congrArg List.length hDrop
      rw [List.length_drop, List.length_nil] at hLength
      omega
    | cons c rest =>
      have hc := hScheme c (List.mem_of_mem_drop (by rw [hDrop]; exact List.mem_cons_self))
      rw [List.cons_append, List.dropWhile_cons_of_neg (Bool.eq_false_iff.mp (isPlain_not_space hc))]

private theorem quotedText_newline {text : List Char} (h : isQuotedText text = true) : '\n' ∉ text := by
  induction text using isQuotedText.induct with
  | case1 =>
    intro hMem
    cases hMem
  | case2 c rest ih =>
    rw [isQuotedText, Bool.and_eq_true, bne_iff_ne] at h
    rintro (_ | ⟨_, _ | ⟨_, hMem⟩⟩)
    · exact h.1 rfl
    · exact ih h.2 hMem
  | case3 c rest hNot ih =>
    rw [isQuotedText, Bool.and_eq_true, Bool.and_eq_true, Bool.and_eq_true, bne_iff_ne, bne_iff_ne, bne_iff_ne] at h
    · rintro (_ | ⟨_, hMem⟩)
      · exact h.1.2 rfl
      · exact ih h.2 hMem
    · exact hNot

theorem blanks_newline (h : s.all isBlank = true) : '\n' ∉ s := by
  intro hMem
  have hBlank := List.all_eq_true.mp h _ hMem
  cases hBlank

private theorem item_newline (item : Item) : '\n' ∉ item.render := by
  cases item with
  | param p =>
    have hName := not_mem_of_plain p.plain (d := '\n') (by decide)
    have hBefore := blanks_newline p.valid.2.2.1
    have hAfter := blanks_newline p.valid.2.2.2
    have hValue : '\n' ∉ p.value.render := by
      cases p.value with
      | token text valid => exact not_mem_of_plain (fun c hc => isTokenChar_plain (List.all_eq_true.mp valid.2 c hc)) (by decide)
      | quoted text valid =>
        have hText := quotedText_newline valid
        simp [ParamValue.render, hText]
    simp [Item.render, hName, hBefore, hAfter, hValue]
  | token68 body padding valid =>
    have hBody := not_mem_of_plain (fun c hc => isToken68Char_plain (List.all_eq_true.mp valid.2 c hc)) (d := '\n') (by decide)
    simp [Item.render, hBody, List.mem_replicate]

theorem separator_newline (sep : Separator) : '\n' ∉ sep.render := by
  have hBefore := blanks_newline sep.valid.1
  have hAfter : '\n' ∉ sep.after := by
    intro hMem
    have hCase := List.all_eq_true.mp sep.valid.2 _ hMem
    cases hCase
  simp [Separator.render, hBefore, hAfter]

theorem body_newline (challenge : AuthChallenge) : '\n' ∉ challenge.body := by
  rw [AuthChallenge.body]
  cases challenge.first with
  | none => exact List.not_mem_nil
  | some first =>
    have hGap := blanks_newline challenge.valid.2.2.2
    simp only [List.mem_append, List.mem_flatMap, hGap, item_newline, separator_newline, or_self, and_false, exists_false,
      not_false_iff]

private theorem render_newline (challenge : AuthChallenge) : '\n' ∉ challenge.render := by
  rw [AuthChallenge.render, List.mem_append]
  rintro (hScheme | hBody)
  · exact not_mem_of_plain (fun c hc => isTokenChar_plain (List.all_eq_true.mp challenge.valid.2.1 c hc)) (by decide) hScheme
  · exact body_newline challenge hBody

private theorem challenges_newline (others : List (Separator × AuthChallenge)) :
    '\n' ∉ others.flatMap fun challenge => challenge.1.render ++ challenge.2.render := by
  simp only [List.mem_append, List.mem_flatMap, separator_newline, render_newline, or_self, and_false, exists_false,
    not_false_iff]

/-- What is parsed is a Digest challenge, and under a key it gives the values of all the items of the header. -/
theorem parseChallenge_render {header : WwwAuthenticate} (h : ∀ item ∈ header.items, item.Readable alnum keys)
    {pairs : List (List Char × List Char)} (hParse : parseChallenge alnum header.render = some pairs) :
    lower header.first.scheme = "digest".toList ∧
      ∀ key ∈ keys, key ≠ [] → valuesOf pairs key = header.items.flatMap (Item.valuesOf alnum key) := by
  have hTail := isTail_challenges header.others
  obtain ⟨blanks, text, hText, hBlanks, hHead, hStart⟩ := body_blanks header.first hTail
  have hDrop : (header.first.body ++ header.others.flatMap fun challenge => challenge.1.render ++
    challenge.2.render).dropWhile isSpace =
      text := by
    rw [hText]
    exact (takeWhile_run (fun c hc => isBlank_space (hBlanks c hc)) hHead).2
  have hNewline : '\n' ∉ text := by
    intro hMem
    have hAll := List.mem_append_right blanks hMem
    rw [← hText, List.mem_append] at hAll
    rcases hAll with hBody | hOthers
    · exact body_newline header.first hBody
    · exact challenges_newline header.others hOthers
  have hFound : ∀ key ∈ keys, key ≠ [] →
      valuesOf (findPairs alnum text) key = header.items.flatMap (Item.valuesOf alnum key) := by
    intro key hKey hNe
    rw [← findPairs_append (fun c hc => isBlank_not_word (hBlanks c hc)) text, ← hText,
      valuesOf_body (fun item hItem => h item (List.mem_append_left _ hItem)) hKey hNe hTail,
      valuesOf_challenges (fun item hItem => h item (List.mem_append_right _ hItem)) hKey hNe, WwwAuthenticate.items,
      List.flatMap_append]
  rw [WwwAuthenticate.render, AuthChallenge.render, List.append_assoc, parseChallenge] at hParse
  split at hParse
  · cases hParse
  · next hScheme =>
    rw [not_or, not_not] at hScheme
    have hLength := scheme_length (fun c hc => isTokenChar_plain (List.all_eq_true.mp header.first.valid.2.1 c hc)) hStart
      hScheme.1 hScheme.2
    have hTake : (header.first.scheme ++ (header.first.body ++
        header.others.flatMap fun challenge => challenge.1.render ++ challenge.2.render)).take 6 = header.first.scheme := by
      rw [← hLength, List.take_left]
    refine ⟨by rw [← hScheme.1, hTake], fun key hKey hNe => ?_⟩
    rw [← hLength, List.drop_left, hDrop] at hParse
    rw [← hFound key hKey hNe]
    split at hParse
    · next hNil =>
      split at hParse
      · cases hParse
        rw [hNil]
        rfl
      · cases hParse
    · cases hParse
      rw [takeWhile_whole hNewline]

end
end Eggfetch.Facade.Auth
