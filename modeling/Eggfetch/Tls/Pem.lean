import Eggfetch.Text.Markers

/-! Certificates and private keys out of PEM texts (`tls.rs`). The decoder of one section is a parameter. -/
namespace Eggfetch.Tls
open Text

def pemBegin : Str := utf8 "-----BEGIN "

def pemEnd : Str := utf8 "-----END "

def lf : UInt8 := 0x0a
def cr : UInt8 := 0x0d

inductive Error
  | caBundle (message : String)
  | privateKey (message : String)
  deriving DecidableEq

/-- `pem_rfc7468::decode_vec`: the label and the contents of a section. -/
abbrev Decode := Str → Except String (String × Str)

/-- `&data[start..stop]`; `none` is the panic. -/
def slice (data : Str) (start stop : Nat) : Option Str :=
  if start ≤ stop ∧ stop ≤ data.length then some ((data.take stop).drop start) else none

def findPemStart (data : Str) : Option Nat := if data.length < pemBegin.length then none else find pemBegin data

/-- `pem_section_len`; the outer `none` is a panic, the inner one a missing END marker. -/
def pemSectionLen (data : Str) : Option (Option Nat) := do
  let afterBegin ← slice data pemBegin.length data.length
  match find pemEnd afterBegin with
  | none => some none
  | some p =>
    let endMarker := p + pemBegin.length
    let line ← slice data endMarker data.length
    some (some ((line.idxOf? lf).elim data.length (endMarker + · + 1)))

inductive Failure
  | unterminated
  | invalid (e : String)

def Failure.message (data : String) : Failure → String
  | .unterminated => "unterminated PEM block in " ++ data ++ " data"
  | .invalid e => "invalid PEM block in " ++ data ++ " data: " ++ e

/-- What both loops do first in each turn. -/
inductive Turn
  | done
  | failed (failure : Failure)
  | decoded (label : String) (data rest : Str)

def turn (decode : Decode) (rest : Str) : Option Turn :=
  match findPemStart rest with
  | none => some .done
  | some pos => do
    let block ← slice rest pos rest.length
    match ← pemSectionLen block with
    | none => some (.failed .unterminated)
    | some len =>
      let part ← slice block 0 len
      let rest ← slice block len block.length
      match decode part with
      | .error e => some (.failed (.invalid e))
      | .ok (label, data) => some (.decoded label data rest)

/-- `none` is a panic, or the fuel used up. -/
def certificatesFrom (decode : Decode) : Nat → List Str → Str → Option (Except Error (List Str))
  | 0, _, _ => none
  | fuel + 1, certs, rest => do
    match ← turn decode rest with
    | .done => some (.ok certs)
    | .failed failure => some (.error (.caBundle (failure.message "certificate")))
    | .decoded label data rest => certificatesFrom decode fuel (if label = "CERTIFICATE" then certs ++ [data] else certs) rest

def parsePemCertificates (decode : Decode) (pemBytes : Str) : Option (Except Error (List Str)) :=
  certificatesFrom decode (pemBytes.length + 1) [] pemBytes

def isKeyLabel (label : String) : Bool := ["PRIVATE KEY", "RSA PRIVATE KEY", "EC PRIVATE KEY"].contains label

def privateKeyFrom (decode : Decode) : Nat → Str → Option (Except Error (Str × String))
  | 0, _ => none
  | fuel + 1, rest => do
    match ← turn decode rest with
    | .done => some (.error (.privateKey "no private key found in PEM data"))
    | .failed failure => some (.error (.privateKey (failure.message "private key")))
    | .decoded label data rest => if isKeyLabel label then some (.ok (data, label)) else privateKeyFrom decode fuel rest

def parsePrivateKey (decode : Decode) (keyBytes : Str) : Option (Except Error (Str × String)) :=
  privateKeyFrom decode (keyBytes.length + 1) keyBytes

/-- From a BEGIN marker to the end of the line with the first END marker behind it, without the line's ending. -/
def Framed (body : Str) : Prop :=
  ∃ x y, body = pemBegin ++ (x ++ (pemEnd ++ y)) ∧ ¬ pemEnd <:+: x ∧ lf ∉ y ∧ cr ∉ y

/-- A well-formed section with its label and contents. -/
structure Section (decode : Decode) (body : Str) (content : String × Str) : Prop where
  framed : Framed body
  decoded : decode body = .ok content

def lineEndings : List Str := [[lf], [cr, lf], [cr]]

/-- From a BEGIN marker on, one section is decoded, with no text after it but one line ending. -/
structure OneSection (decode : Decode) : Prop where
  sound {s : Str} {content : String × Str} (hBegin : pemBegin <+: s) (h : decode s = .ok content) :
    ∃ body eol, s = body ++ eol ∧ Section decode body content ∧ (eol = [] ∨ eol ∈ lineEndings)
  ending {body eol : Str} {content : String × Str} (h : Section decode body content) (hEol : eol ∈ lineEndings) :
    decode (body ++ eol) = .ok content

/-- What ends the line of an END marker, and the text behind it. -/
def AnyEnding (eol rest : Str) : Prop :=
  eol = [] ∧ rest = [] ∨ eol = [lf] ∨ eol = [cr, lf] ∨ eol = [cr] ∧ rest.head? ≠ some lf

/-- A line ending with a line feed, or the last one of the text. -/
def FedEnding (eol rest : Str) : Prop := eol = [] ∧ rest = [] ∨ eol = [lf] ∨ eol = [cr, lf] ∨ eol = [cr] ∧ rest = []

/-- Each BEGIN marker that is not inside an earlier section opens a section; `contents` lists them. -/
inductive Sections (decode : Decode) (Ending : Str → Str → Prop) : Str → List (String × Str) → Prop
  | none {s : Str} (hFree : ¬ pemBegin <:+: s) : Sections decode Ending s []
  | next {lead body eol rest : Str} {content : String × Str} {contents : List (String × Str)} (hLead : ¬ pemBegin <:+: lead)
      (hSection : Section decode body content) (hEnding : Ending eol rest) (hRest : Sections decode Ending rest contents) :
      Sections decode Ending (lead ++ (body ++ (eol ++ rest))) (content :: contents)

/-- The first section of a private key, behind sections of other kinds. -/
inductive FirstKey (decode : Decode) (Ending : Str → Str → Prop) : Str → Str × String → Prop
  | here {lead body eol rest data : Str} {label : String} (hLead : ¬ pemBegin <:+: lead)
      (hSection : Section decode body (label, data)) (hEnding : Ending eol rest) (hKey : isKeyLabel label = true) :
      FirstKey decode Ending (lead ++ (body ++ (eol ++ rest))) (data, label)
  | later {lead body eol rest data : Str} {label : String} {key : Str × String} (hLead : ¬ pemBegin <:+: lead)
      (hSection : Section decode body (label, data)) (hEnding : Ending eol rest) (hKey : isKeyLabel label = false)
      (hRest : FirstKey decode Ending rest key) : FirstKey decode Ending (lead ++ (body ++ (eol ++ rest))) key

def certificates (contents : List (String × Str)) : List Str := (contents.filter (·.1 = "CERTIFICATE")).map Prod.snd

/-- Exactly the texts of well-formed sections are read, and as what they say. -/
def ReadsCertificates (decode : Decode) (pemBytes : Str) : Prop :=
  ∀ certs, parsePemCertificates decode pemBytes = some (.ok certs) ↔
    ∃ contents, Sections decode AnyEnding pemBytes contents ∧ certs = certificates contents

def ReadsKey (decode : Decode) (keyBytes : Str) : Prop :=
  ∀ key, parsePrivateKey decode keyBytes = some (.ok key) ↔ FirstKey decode AnyEnding keyBytes key

/-- A section by its lines, which decodes whatever ends them, and the text behind it. -/
structure Item (decode : Decode) where
  head : Str
  lines : List Str
  foot : Str
  content : String × Str
  between : Str
  lines_free : ∀ line ∈ head :: lines, ¬ pemEnd <:+: line
  foot_free : lf ∉ foot ∧ cr ∉ foot
  between_free : ¬ pemBegin <:+: between
  decodes (eol : Str) (hEol : eol ∈ lineEndings) :
    decode (pemBegin ++ ((head :: lines).flatMap (· ++ eol) ++ (pemEnd ++ foot))) = .ok content

namespace Item
variable {decode : Decode}

def text (eol : Str) (item : Item decode) : Str :=
  pemBegin ++ ((item.head :: item.lines).flatMap (· ++ eol) ++ (pemEnd ++ item.foot))

/-- Sections with text before, between and after them; the last line of the last one may lack its ending. -/
def bundle (eol lead : Str) (items : List (Item decode)) (last : Option (Item decode)) : Str :=
  lead ++ (items.flatMap (fun item => item.text eol ++ (eol ++ item.between)) ++ last.elim [] (text eol))

end Item

section
variable {decode : Decode} {s lead body eol rest x y z : Str} {content : String × Str} {contents : List (String × Str)}

theorem unbordered_begin : Unbordered pemBegin := by decide

theorem unbordered_end : Unbordered pemEnd := by decide

theorem begin_ne_nil : pemBegin ≠ [] := by decide

theorem end_ne_nil : pemEnd ≠ [] := by decide

theorem end_free : lf ∉ pemEnd ∧ cr ∉ pemEnd := by decide

theorem slice_from {n : Nat} (h : n ≤ s.length) : slice s n s.length = some (s.drop n) := by
  rw [slice, if_pos ⟨h, Nat.le_refl _⟩, List.take_length]

theorem slice_to {n : Nat} (h : n ≤ s.length) : slice s 0 n = some (s.take n) := by
  rw [slice, if_pos ⟨Nat.zero_le n, h⟩, List.drop_zero]

theorem findPemStart_eq (s : Str) : findPemStart s = find pemBegin s := by
  rw [findPemStart]
  split
  · next hShort =>
    refine (find_eq_none.mpr fun hInfix => ?_).symm
    exact absurd hInfix.length_le (Nat.not_le_of_lt hShort)
  · rfl

def lineLength (z : Str) : Nat := (z.idxOf? lf).elim z.length (· + 1)

theorem lineLength_le (z : Str) : lineLength z ≤ z.length := by
  rw [lineLength]
  cases hFound : z.idxOf? lf with
  | none => exact Nat.le_refl _
  | some i =>
    obtain ⟨hi, -⟩ := List.idxOf?_eq_some_iff.mp hFound
    exact hi

theorem pemSectionLen_none (h : ¬ pemEnd <:+: y) : pemSectionLen (pemBegin ++ y) = some none := by
  have hLength : pemBegin.length ≤ (pemBegin ++ y).length := by
    rw [List.length_append]
    exact Nat.le_add_right _ _
  rw [pemSectionLen, slice_from hLength, List.drop_left, Option.bind_eq_bind, Option.bind_some, find_eq_none.mpr h]

private theorem idxOf?_end (z : Str) : (pemEnd ++ z).idxOf? lf = (z.idxOf? lf).map (pemEnd.length + ·) := by
  cases hFound : z.idxOf? lf with
  | none =>
    rw [Option.map_none, List.idxOf?_eq_none_iff]
    exact List.not_mem_append end_free.1 (List.idxOf?_eq_none_iff.mp hFound)
  | some i =>
    obtain ⟨hSplit, hNot, hi⟩ := idxOf?_eq_some_append hFound
    have hLength : (z.take i).length = i := by rw [List.length_take, Nat.min_eq_left hi.le]
    rw [← hSplit, ← List.append_assoc, idxOf?_append_cons (List.not_mem_append end_free.1 hNot), List.length_append, hLength,
      Option.map_some]

theorem pemSectionLen_some (h : ¬ pemEnd <:+: x) : pemSectionLen (pemBegin ++ (x ++ (pemEnd ++ z))) =
    some (some ((pemBegin ++ (x ++ pemEnd)).length + lineLength z)) := by
  have hLength : pemBegin.length ≤ (pemBegin ++ (x ++ (pemEnd ++ z))).length := by
    rw [List.length_append]
    exact Nat.le_add_right _ _
  have hMarker : x.length + pemBegin.length = (pemBegin ++ x).length := by rw [List.length_append, Nat.add_comm]
  have hWithin : (pemBegin ++ x).length ≤ (pemBegin ++ x ++ (pemEnd ++ z)).length := by
    rw [@List.length_append _ (pemBegin ++ x)]
    exact Nat.le_add_right _ _
  rw [pemSectionLen, slice_from hLength, List.drop_left, Option.bind_eq_bind, Option.bind_some, find_marker unbordered_end h]
  simp only [hMarker]
  rw [← List.append_assoc, slice_from hWithin, List.drop_left, Option.bind_some, idxOf?_end, lineLength]
  cases z.idxOf? lf with
  | none =>
    simp only [Option.map_none, Option.elim_none, List.length_append]
    rw [Nat.add_assoc, Nat.add_assoc, Nat.add_assoc]
  | some i =>
    simp only [Option.map_some, Option.elim_some, List.length_append]
    congr 2
    omega

/-- What a turn makes of a section up to the line feed behind its END marker. -/
def decodedTurn (decode : Decode) (part rest : Str) : Turn :=
  match decode part with
  | .error e => .failed (.invalid e)
  | .ok (label, data) => .decoded label data rest

theorem turn_free (h : ¬ pemBegin <:+: s) : turn decode s = some .done := by
  rw [turn, findPemStart_eq, find_eq_none.mpr h]

private theorem turn_unterminated (hLead : ¬ pemBegin <:+: lead) (h : ¬ pemEnd <:+: y) :
    turn decode (lead ++ (pemBegin ++ y)) = some (.failed .unterminated) := by
  have hLength : lead.length ≤ (lead ++ (pemBegin ++ y)).length := by
    rw [List.length_append]
    exact Nat.le_add_right _ _
  rw [turn, findPemStart_eq, find_marker unbordered_begin hLead]
  simp only [slice_from hLength, List.drop_left, Option.bind_eq_bind, Option.bind_some, pemSectionLen_none h]

theorem turn_marked (hLead : ¬ pemBegin <:+: lead) (h : ¬ pemEnd <:+: x) :
    turn decode (lead ++ (pemBegin ++ (x ++ (pemEnd ++ z)))) =
      some (decodedTurn decode (pemBegin ++ (x ++ (pemEnd ++ z.take (lineLength z)))) (z.drop (lineLength z))) := by
  have hLength : lead.length ≤ (lead ++ (pemBegin ++ (x ++ (pemEnd ++ z)))).length := by
    rw [List.length_append]
    exact Nat.le_add_right _ _
  have hBlock : pemBegin ++ (x ++ (pemEnd ++ z)) = pemBegin ++ (x ++ pemEnd) ++ z := by simp only [List.append_assoc]
  have hWithin : (pemBegin ++ (x ++ pemEnd)).length + lineLength z ≤ (pemBegin ++ (x ++ pemEnd) ++ z).length := by
    rw [@List.length_append _ (pemBegin ++ (x ++ pemEnd))]
    exact Nat.add_le_add_left (lineLength_le z) _
  rw [turn, findPemStart_eq, find_marker unbordered_begin hLead]
  simp only [slice_from hLength, List.drop_left, Option.bind_eq_bind, Option.bind_some, pemSectionLen_some h]
  rw [hBlock, slice_to hWithin, slice_from hWithin, List.take_length_add_append, List.drop_length_add_append, Option.bind_some,
    Option.bind_some, decodedTurn]
  simp only [List.append_assoc]
  cases decode (pemBegin ++ (x ++ (pemEnd ++ z.take (lineLength z)))) <;> rfl

theorem turn_cases (decode : Decode) (s : Str) :
    (turn decode s = some .done ∧ ¬ pemBegin <:+: s) ∨
    (∃ failure, turn decode s = some (.failed failure)) ∨
    ∃ lead x z label data, s = lead ++ (pemBegin ++ (x ++ (pemEnd ++ z))) ∧ ¬ pemBegin <:+: lead ∧
      decode (pemBegin ++ (x ++ (pemEnd ++ z.take (lineLength z)))) = .ok (label, data) ∧
      turn decode s = some (.decoded label data (z.drop (lineLength z))) := by
  cases hBegin : find pemBegin s with
  | none => exact Or.inl ⟨turn_free (find_eq_none.mp hBegin), find_eq_none.mp hBegin⟩
  | some i =>
    obtain ⟨lead, after, rfl, -, hLead⟩ := find_eq_some begin_ne_nil hBegin
    cases hEnd : find pemEnd after with
    | none => exact Or.inr (Or.inl ⟨_, turn_unterminated hLead (find_eq_none.mp hEnd)⟩)
    | some j =>
      obtain ⟨x, z, rfl, -, hx⟩ := find_eq_some end_ne_nil hEnd
      have hTurn := @turn_marked decode lead x z hLead hx
      rw [decodedTurn] at hTurn
      cases hDecode : decode (pemBegin ++ (x ++ (pemEnd ++ z.take (lineLength z)))) with
      | error e =>
        rw [hDecode] at hTurn
        exact Or.inr (Or.inl ⟨_, hTurn⟩)
      | ok content =>
        rw [hDecode] at hTurn
        exact Or.inr (Or.inr ⟨lead, x, z, content.1, content.2, rfl, hLead, hDecode, hTurn⟩)

theorem turn_shorter {label : String} {data : Str} (h : turn decode s = some (.decoded label data rest)) :
    rest.length < s.length := by
  rcases turn_cases decode s with ⟨hTurn, -⟩ | ⟨failure, hTurn⟩ | ⟨lead, x, z, label', data', rfl, -, -, hTurn⟩
  · rw [hTurn] at h
    cases h
  · rw [hTurn] at h
    cases h
  · rw [hTurn] at h
    cases h
    have hBegin := List.length_pos_of_ne_nil begin_ne_nil
    rw [List.length_drop, List.length_append, List.length_append, List.length_append, List.length_append]
    omega

theorem certificatesFrom_ends (decode : Decode) (fuel : Nat) (certs : List Str) (s : Str) (h : s.length < fuel) :
    (certificatesFrom decode fuel certs s).isSome = true := by
  induction fuel generalizing certs s with
  | zero => exact absurd h (Nat.not_lt_zero _)
  | succ fuel ih =>
    rw [certificatesFrom]
    rcases turn_cases decode s with ⟨hTurn, -⟩ | ⟨failure, hTurn⟩ | ⟨lead, x, z, label, data, -, -, -, hTurn⟩
    · rw [hTurn]
      rfl
    · rw [hTurn]
      rfl
    · rw [hTurn]
      exact ih _ _ (Nat.lt_of_lt_of_le (turn_shorter hTurn) (Nat.le_of_lt_succ h))

theorem privateKeyFrom_ends (decode : Decode) (fuel : Nat) (s : Str) (h : s.length < fuel) :
    (privateKeyFrom decode fuel s).isSome = true := by
  induction fuel generalizing s with
  | zero => exact absurd h (Nat.not_lt_zero _)
  | succ fuel ih =>
    rw [privateKeyFrom]
    rcases turn_cases decode s with ⟨hTurn, -⟩ | ⟨failure, hTurn⟩ | ⟨lead, x, z, label, data, -, -, -, hTurn⟩
    · rw [hTurn]
      rfl
    · rw [hTurn]
      rfl
    · rw [hTurn]
      simp only [Option.bind_eq_bind, Option.bind_some]
      split
      · rfl
      · exact ih _ (Nat.lt_of_lt_of_le (turn_shorter hTurn) (Nat.le_of_lt_succ h))

theorem Framed.getLast? (h : Framed body) : body.getLast? ≠ some lf ∧ body.getLast? ≠ some cr := by
  obtain ⟨x, y, rfl, -, hLf, hCr⟩ := h
  have hTail : pemEnd ++ y ≠ [] := fun hNil => end_ne_nil (List.append_eq_nil_iff.mp hNil).1
  have hLast : (pemBegin ++ (x ++ (pemEnd ++ y))).getLast? = (pemEnd ++ y).getLast? := by
    rw [List.getLast?_append_of_ne_nil _ (List.append_ne_nil_of_right_ne_nil x hTail), List.getLast?_append_of_ne_nil _ hTail]
  rw [hLast]
  constructor
  · intro hEq
    exact List.not_mem_append end_free.1 hLf (List.mem_of_getLast? hEq)
  · intro hEq
    exact List.not_mem_append end_free.2 hCr (List.mem_of_getLast? hEq)

private theorem lineLength_of_mem (h : lf ∈ z) : (z.take (lineLength z)).getLast? = some lf := by
  obtain ⟨p, q, rfl, hp⟩ := List.eq_append_cons_of_mem h
  rw [lineLength, idxOf?_append_cons hp, Option.elim_some, List.take_length_add_append, List.take_succ_cons, List.take_zero,
    List.getLast?_concat]

theorem lineLength_of_not_mem (h : lf ∉ z) : lineLength z = z.length := by
  rw [lineLength, List.idxOf?_eq_none_iff.mpr h, Option.elim_none]

private theorem lineLength_ending (hLf : lf ∉ y) (hEnding : FedEnding eol rest) :
    (y ++ (eol ++ rest)).take (lineLength (y ++ (eol ++ rest))) = y ++ eol ∧
      (y ++ (eol ++ rest)).drop (lineLength (y ++ (eol ++ rest))) = rest := by
  have hFed (p : Str) (hp : lf ∉ p) : (p ++ lf :: rest).take (lineLength (p ++ lf :: rest)) = p ++ [lf] ∧
      (p ++ lf :: rest).drop (lineLength (p ++ lf :: rest)) = rest := by
    rw [lineLength, idxOf?_append_cons hp, Option.elim_some, List.take_length_add_append, List.drop_length_add_append]
    exact ⟨rfl, rfl⟩
  have hLast (p : Str) (hp : lf ∉ p) : p.take (lineLength p) = p ∧ p.drop (lineLength p) = [] := by
    rw [lineLength_of_not_mem hp]
    exact ⟨List.take_length, List.drop_length⟩
  have hCr : lf ∉ y ++ [cr] := List.not_mem_append hLf (by decide)
  rcases hEnding with ⟨rfl, rfl⟩ | rfl | rfl | ⟨rfl, rfl⟩
  · rw [List.append_nil, List.append_nil]
    exact hLast y hLf
  · exact hFed y hLf
  · have hSplit : y ++ ([cr, lf] ++ rest) = y ++ [cr] ++ lf :: rest := by rw [List.append_assoc]; rfl
    have hShort : y ++ [cr, lf] = y ++ [cr] ++ [lf] := by rw [List.append_assoc]; rfl
    rw [hSplit, hShort]
    exact hFed _ hCr
  · rw [List.append_nil]
    exact hLast _ hCr

/-- Exactly a section whose line ends with a line feed, or with the text, is decoded. -/
theorem turn_decoded_iff (hOne : OneSection decode) {label : String} {data : Str} :
    turn decode s = some (.decoded label data rest) ↔
      ∃ lead body eol, s = lead ++ (body ++ (eol ++ rest)) ∧ ¬ pemBegin <:+: lead ∧ Section decode body (label, data) ∧
        FedEnding eol rest := by
  constructor
  · intro h
    rcases turn_cases decode s with ⟨hTurn, -⟩ | ⟨failure, hTurn⟩ | ⟨lead, x, z, label', data', rfl, hLead, hDecode, hTurn⟩
    · rw [hTurn] at h
      cases h
    · rw [hTurn] at h
      cases h
    · rw [hTurn] at h
      cases h
      obtain ⟨body, eol, hPart, hSection, hEol⟩ := hOne.sound (List.prefix_append _ _) hDecode
      refine ⟨lead, body, eol, ?_, hLead, hSection, ?_⟩
      · conv_lhs => rw [← List.take_append_drop (lineLength z) z]
        have hWhole : pemBegin ++ (x ++ (pemEnd ++ (z.take (lineLength z) ++ z.drop (lineLength z)))) =
            pemBegin ++ (x ++ (pemEnd ++ z.take (lineLength z))) ++ z.drop (lineLength z) := by
          simp only [List.append_assoc]
        rw [hWhole, hPart, List.append_assoc]
      · have hLast (hNot : (body ++ eol).getLast? ≠ some lf) : z.drop (lineLength z) = [] := by
          by_cases hMem : lf ∈ z
          · have hTake := lineLength_of_mem hMem
            have hNe : z.take (lineLength z) ≠ [] := fun hNil => by rw [hNil] at hTake; cases hTake
            rw [← hPart, ← List.append_assoc, ← List.append_assoc, List.getLast?_append_of_ne_nil _ hNe] at hNot
            exact absurd hTake hNot
          · rw [lineLength_of_not_mem hMem, List.drop_length]
        rcases hEol with rfl | hMem
        · refine Or.inl ⟨rfl, hLast ?_⟩
          rw [List.append_nil]
          exact hSection.framed.getLast?.1
        · simp only [lineEndings, List.mem_cons, List.not_mem_nil, or_false] at hMem
          rcases hMem with rfl | rfl | rfl
          · exact Or.inr (Or.inl rfl)
          · exact Or.inr (Or.inr (Or.inl rfl))
          · refine Or.inr (Or.inr (Or.inr ⟨rfl, hLast ?_⟩))
            rw [List.getLast?_concat]
            decide
  · rintro ⟨lead, body, eol, rfl, hLead, hSection, hEnding⟩
    obtain ⟨x, y, rfl, hx, hLf, -⟩ := hSection.framed
    have hText : pemBegin ++ (x ++ (pemEnd ++ y)) ++ (eol ++ rest) = pemBegin ++ (x ++ (pemEnd ++ (y ++ (eol ++ rest)))) := by
      simp only [List.append_assoc]
    obtain ⟨hTake, hDrop⟩ := lineLength_ending hLf hEnding
    have hDecode : decode (pemBegin ++ (x ++ (pemEnd ++ (y ++ eol)))) = .ok (label, data) := by
      have hPart : pemBegin ++ (x ++ (pemEnd ++ (y ++ eol))) = pemBegin ++ (x ++ (pemEnd ++ y)) ++ eol := by
        simp only [List.append_assoc]
      rw [hPart]
      rcases hEnding with ⟨rfl, -⟩ | rfl | rfl | ⟨rfl, -⟩
      · rw [List.append_nil]
        exact hSection.decoded
      · exact hOne.ending hSection (by decide)
      · exact hOne.ending hSection (by decide)
      · exact hOne.ending hSection (by decide)
    rw [hText, turn_marked hLead hx, hTake, hDrop, decodedTurn, hDecode]

private theorem sections_iff (hOne : OneSection decode) : Sections decode FedEnding s contents ↔
    (turn decode s = some .done ∧ contents = []) ∨
    ∃ label data rest contents', turn decode s = some (.decoded label data rest) ∧ Sections decode FedEnding rest contents' ∧
      contents = (label, data) :: contents' := by
  constructor
  · intro h
    cases h with
    | none hFree => exact Or.inl ⟨turn_free hFree, rfl⟩
    | @next lead body eol rest content contents' hLead hSection hEnding hRest =>
      exact Or.inr ⟨_, _, rest, contents', (turn_decoded_iff hOne).mpr ⟨lead, body, eol, rfl, hLead, hSection,
        hEnding⟩, hRest, rfl⟩
  · rintro (⟨hTurn, rfl⟩ | ⟨label, data, rest, contents', hTurn, hRest, rfl⟩)
    · rcases turn_cases decode s with ⟨-, hFree⟩ | ⟨failure, hFailed⟩ | ⟨_, _, _, _, _, -, -, -, hDecoded⟩
      · exact .none hFree
      · rw [hFailed] at hTurn
        cases hTurn
      · rw [hDecoded] at hTurn
        cases hTurn
    · obtain ⟨lead, body, eol, rfl, hLead, hSection, hEnding⟩ := (turn_decoded_iff hOne).mp hTurn
      exact .next hLead hSection hEnding hRest

private theorem firstKey_iff (hOne : OneSection decode) {key : Str × String} : FirstKey decode FedEnding s key ↔
    ∃ label data rest, turn decode s = some (.decoded label data rest) ∧
      (isKeyLabel label = true ∧ key = (data, label) ∨ isKeyLabel label = false ∧ FirstKey decode FedEnding rest key) := by
  constructor
  · intro h
    cases h with
    | @here lead body eol rest data label hLead hSection hEnding hKey =>
      exact ⟨label, data, rest, (turn_decoded_iff hOne).mpr ⟨lead, body, eol, rfl, hLead, hSection, hEnding⟩, Or.inl ⟨hKey, rfl⟩⟩
    | @later lead body eol rest data label key hLead hSection hEnding hKey hRest =>
      exact ⟨label, data, rest, (turn_decoded_iff hOne).mpr ⟨lead, body, eol, rfl, hLead, hSection, hEnding⟩,
        Or.inr ⟨hKey, hRest⟩⟩
  · rintro ⟨label, data, rest, hTurn, hKind⟩
    obtain ⟨lead, body, eol, rfl, hLead, hSection, hEnding⟩ := (turn_decoded_iff hOne).mp hTurn
    rcases hKind with ⟨hKey, rfl⟩ | ⟨hKey, hRest⟩
    · exact .here hLead hSection hEnding hKey
    · exact .later hLead hSection hEnding hKey hRest

private theorem certificates_cons (label : String) (data : Str) (contents : List (String × Str)) :
    certificates ((label, data) :: contents) = (if label = "CERTIFICATE" then [data] else []) ++ certificates contents := by
  rw [certificates, List.filter_cons]
  by_cases hLabel : label = "CERTIFICATE"
  · rw [if_pos (decide_eq_true hLabel), if_pos hLabel]
    rfl
  · rw [if_neg (by rw [decide_eq_false hLabel]; exact Bool.false_ne_true), if_neg hLabel]
    rfl

theorem certificatesFrom_iff (hOne : OneSection decode) {fuel : Nat} (certs out : List Str) (hFuel : s.length < fuel) :
    certificatesFrom decode fuel certs s = some (.ok out) ↔
      ∃ contents, Sections decode FedEnding s contents ∧ out = certs ++ certificates contents := by
  induction fuel generalizing s certs with
  | zero => exact absurd hFuel (Nat.not_lt_zero _)
  | succ fuel ih =>
    rw [certificatesFrom]
    simp only [sections_iff (s := s) hOne]
    rcases turn_cases decode s with ⟨hTurn, -⟩ | ⟨failure, hTurn⟩ | ⟨_, _, z, label, data, -, -, -, hTurn⟩
    · simp only [hTurn, Option.bind_eq_bind, Option.bind_some]
      constructor
      · intro h
        cases h
        exact ⟨[], Or.inl ⟨trivial, rfl⟩, (List.append_nil _).symm⟩
      · rintro ⟨contents, ⟨-, rfl⟩ | ⟨_, _, _, _, hDecoded, -, -⟩, rfl⟩
        · rw [certificates, List.filter_nil, List.map_nil, List.append_nil]
        · cases hDecoded
    · simp only [hTurn, Option.bind_eq_bind, Option.bind_some]
      constructor
      · intro h
        cases h
      · rintro ⟨contents, ⟨hDone, -⟩ | ⟨_, _, _, _, hDecoded, -, -⟩, -⟩
        · cases hDone
        · cases hDecoded
    · have hShorter := Nat.lt_of_lt_of_le (turn_shorter hTurn) (Nat.le_of_lt_succ hFuel)
      have hCerts : (if label = "CERTIFICATE" then certs ++ [data] else certs) =
          certs ++ (if label = "CERTIFICATE" then [data] else []) := by
        split
        · rfl
        · rw [List.append_nil]
      simp only [hTurn, Option.bind_eq_bind, Option.bind_some]
      rw [ih _ hShorter, hCerts]
      constructor
      · rintro ⟨contents, hRest, rfl⟩
        exact ⟨_, Or.inr ⟨_, _, _, contents, rfl, hRest, rfl⟩, by rw [certificates_cons, List.append_assoc]⟩
      · rintro ⟨contents, ⟨hDone, -⟩ | ⟨_, _, _, contents', hDecoded, hRest, rfl⟩, rfl⟩
        · cases hDone
        · cases hDecoded
          exact ⟨contents', hRest, by rw [certificates_cons, List.append_assoc]⟩

theorem privateKeyFrom_iff (hOne : OneSection decode) {fuel : Nat} (key : Str × String) (hFuel : s.length < fuel) :
    privateKeyFrom decode fuel s = some (.ok key) ↔ FirstKey decode FedEnding s key := by
  induction fuel generalizing s with
  | zero => exact absurd hFuel (Nat.not_lt_zero _)
  | succ fuel ih =>
    rw [privateKeyFrom, firstKey_iff hOne]
    rcases turn_cases decode s with ⟨hTurn, -⟩ | ⟨failure, hTurn⟩ | ⟨_, _, z, label, data, -, -, -, hTurn⟩
    · simp only [hTurn, Option.bind_eq_bind, Option.bind_some]
      refine iff_of_false (fun h => by cases h) ?_
      rintro ⟨_, _, _, hDecoded, -⟩
      cases hDecoded
    · simp only [hTurn, Option.bind_eq_bind, Option.bind_some]
      refine iff_of_false (fun h => by cases h) ?_
      rintro ⟨_, _, _, hDecoded, -⟩
      cases hDecoded
    · have hShorter := Nat.lt_of_lt_of_le (turn_shorter hTurn) (Nat.le_of_lt_succ hFuel)
      simp only [hTurn, Option.bind_eq_bind, Option.bind_some]
      cases hKey : isKeyLabel label with
      | true =>
        rw [if_pos rfl]
        constructor
        · intro h
          cases h
          exact ⟨_, _, _, rfl, Or.inl ⟨hKey, rfl⟩⟩
        · rintro ⟨_, _, _, hDecoded, ⟨-, rfl⟩ | ⟨hNot, -⟩⟩
          · cases hDecoded
            rfl
          · cases hDecoded
            rw [hKey] at hNot
            cases hNot
      | false =>
        rw [if_neg Bool.false_ne_true, ih hShorter]
        constructor
        · exact fun h => ⟨_, _, _, rfl, Or.inr ⟨hKey, h⟩⟩
        · rintro ⟨_, _, _, hDecoded, ⟨hNot, -⟩ | ⟨-, h⟩⟩
          · cases hDecoded
            rw [hKey] at hNot
            cases hNot
          · cases hDecoded
            exact h

theorem FedEnding.any (h : FedEnding eol rest) : AnyEnding eol rest := by
  rcases h with hEnd | hLf | hCrLf | ⟨hCr, rfl⟩
  · exact Or.inl hEnd
  · exact Or.inr (Or.inl hLf)
  · exact Or.inr (Or.inr (Or.inl hCrLf))
  · exact Or.inr (Or.inr (Or.inr ⟨hCr, (Option.some_ne_none lf).symm⟩))

theorem Sections.any (h : Sections decode FedEnding s contents) : Sections decode AnyEnding s contents := by
  induction h with
  | none hFree => exact .none hFree
  | next hLead hSection hEnding _ ih => exact .next hLead hSection hEnding.any ih

theorem FirstKey.any {key : Str × String} (h : FirstKey decode FedEnding s key) : FirstKey decode AnyEnding s key := by
  induction h with
  | here hLead hSection hEnding hKey => exact .here hLead hSection hEnding.any hKey
  | later hLead hSection hEnding hKey _ ih => exact .later hLead hSection hEnding.any hKey ih

theorem AnyEnding.head? (h : AnyEnding eol rest) : ∀ b ∈ (eol ++ rest).head?, b = lf ∨ b = cr := by
  intro b hb
  rcases h with ⟨rfl, rfl⟩ | rfl | rfl | ⟨rfl, -⟩
  · cases hb
  · exact Or.inl (Option.some.inj hb).symm
  · exact Or.inr (Option.some.inj hb).symm
  · exact Or.inr (Option.some.inj hb).symm

private theorem ending_unique {eol' rest' : Str} (h : AnyEnding eol rest) (h' : AnyEnding eol' rest')
    (hEq : eol ++ rest = eol' ++ rest') :
    rest = rest' := by
  have hLone {r : Str} (hr : r.head? ≠ some lf) (q : Str) : r ≠ lf :: q := by
    rintro rfl
    exact hr rfl
  rcases h with ⟨rfl, rfl⟩ | rfl | rfl | ⟨rfl, hNot⟩ <;> rcases h' with ⟨rfl, rfl⟩ | rfl | rfl | ⟨rfl, hNot'⟩ <;>
    simp only [List.nil_append, List.cons_append, List.cons.injEq, reduceCtorEq, true_and] at hEq
  · rfl
  · exact hEq
  · exact absurd hEq.1 (by decide)
  · exact absurd hEq.1 (by decide)
  · exact absurd hEq.1 (by decide)
  · exact hEq
  · exact absurd hEq.symm (hLone hNot' _)
  · exact absurd hEq.1 (by decide)
  · exact absurd hEq (hLone hNot _)
  · exact hEq

private theorem section_unique {lead' body' eol' rest' : Str} {content' : String × Str} (hLead : ¬ pemBegin <:+: lead)
    (hLead' : ¬ pemBegin <:+: lead') (hSection : Section decode body content) (hSection' : Section decode body' content')
    (hEnding : AnyEnding eol rest) (hEnding' : AnyEnding eol' rest')
    (hEq : lead ++ (body ++ (eol ++ rest)) = lead' ++ (body' ++ (eol' ++ rest'))) : content = content' ∧ rest = rest' := by
  obtain ⟨x, y, hBody, hx, hLf, hCr⟩ := hSection.framed
  obtain ⟨x', y', hBody', hx', hLf', hCr'⟩ := hSection'.framed
  have hText : lead ++ (pemBegin ++ (x ++ (pemEnd ++ (y ++ (eol ++ rest))))) =
      lead' ++ (pemBegin ++ (x' ++ (pemEnd ++ (y' ++ (eol' ++ rest'))))) := by
    rw [hBody, hBody'] at hEq
    simpa only [List.append_assoc] using hEq
  have hFound := find_marker (y := x ++ (pemEnd ++ (y ++ (eol ++ rest)))) unbordered_begin hLead
  rw [hText, find_marker unbordered_begin hLead'] at hFound
  obtain ⟨-, hAfter⟩ := List.append_inj hText (Option.some.inj hFound).symm
  rw [List.append_cancel_left_eq] at hAfter
  have hFoundEnd := find_marker (y := y ++ (eol ++ rest)) unbordered_end hx
  rw [hAfter, find_marker unbordered_end hx'] at hFoundEnd
  obtain ⟨rfl, hFoot⟩ := List.append_inj hAfter (Option.some.inj hFoundEnd).symm
  rw [List.append_cancel_left_eq] at hFoot
  have hLine {w e r : Str} (hw : lf ∉ w) (hw' : cr ∉ w) (h : AnyEnding e r) :
      (w ++ (e ++ r)).takeWhile (fun b => b != lf && b != cr) = w := by
    refine takeWhile_until (fun b hb => ?_) fun b hb => ?_
    · rw [Bool.and_eq_true, bne_iff_ne, bne_iff_ne]
      exact ⟨fun hEq => hw (hEq ▸ hb), fun hEq => hw' (hEq ▸ hb)⟩
    · rcases h.head? b hb with rfl | rfl <;> rfl
  have hSame : y = y' := by
    have hTake := hLine hLf hCr hEnding
    rwa [hFoot, hLine hLf' hCr' hEnding', eq_comm] at hTake
  subst hSame
  rw [List.append_cancel_left_eq] at hFoot
  refine ⟨?_, ending_unique hEnding hEnding' hFoot⟩
  have hDecoded := hSection.decoded
  rw [hBody, ← hBody', hSection'.decoded] at hDecoded
  exact (Except.ok.inj hDecoded).symm

variable {Ending : Str → Str → Prop}

theorem Sections.inv (h : Sections decode Ending s contents) : (¬ pemBegin <:+: s ∧ contents = []) ∨
    ∃ lead body eol rest content contents', s = lead ++ (body ++ (eol ++ rest)) ∧ ¬ pemBegin <:+: lead ∧
      Section decode body content ∧ Ending eol rest ∧ Sections decode Ending rest contents' ∧ contents = content ::
      contents' := by
  cases h with
  | none hFree => exact Or.inl ⟨hFree, rfl⟩
  | next hLead hSection hEnding hRest => exact Or.inr ⟨_, _, _, _, _, _, rfl, hLead, hSection, hEnding, hRest, rfl⟩

theorem Section.marks (h : Section decode body content) (lead after : Str) : pemBegin <:+: lead ++ (body ++ after) := by
  obtain ⟨x, y, rfl, -⟩ := h.framed
  rw [List.append_assoc]
  exact (List.prefix_append pemBegin _).isInfix.trans (List.suffix_append lead _).isInfix

theorem Sections.unique {contents' : List (String × Str)} (h : Sections decode AnyEnding s contents)
    (h' : Sections decode AnyEnding s contents') : contents = contents' := by
  induction h generalizing contents' with
  | none hFree =>
    rcases h'.inv with ⟨-, rfl⟩ | ⟨lead, body, eol, rest, content, _, rfl, -, hSection, -⟩
    · rfl
    · exact absurd (hSection.marks lead _) hFree
  | @next lead body eol rest content contents hLead hSection hEnding _ ih =>
    rcases h'.inv with ⟨hFree, -⟩ | ⟨lead', body', eol', rest', content', contents', hText, hLead', hSection',
      hEnding', hRest', rfl⟩
    · exact absurd (hSection.marks lead _) hFree
    · obtain ⟨rfl, rfl⟩ := section_unique hLead hLead' hSection hSection' hEnding hEnding' hText
      rw [ih hRest']

theorem Sections.tail (h : Sections decode AnyEnding (lf :: s) contents) : Sections decode AnyEnding s contents := by
  have hDrop {t : Str} (hFree : ¬ pemBegin <:+: lf :: t) : ¬ pemBegin <:+: t := fun hInfix =>
    hFree (hInfix.trans (List.suffix_cons lf t).isInfix)
  rcases h.inv with ⟨hFree, rfl⟩ | ⟨lead, body, eol, rest, content, contents', hText, hLead, hSection, hEnding, hRest, rfl⟩
  · exact .none (hDrop hFree)
  · cases lead with
    | nil =>
      obtain ⟨x, y, rfl, -⟩ := hSection.framed
      have hDash : pemBegin.head? = some 0x2d := by decide
      have hHead := congrArg List.head? hText
      rw [List.nil_append, List.append_assoc, List.head?_append, hDash, Option.some_or, List.head?_cons] at hHead
      exact absurd (Option.some.inj hHead) (by decide)
    | cons b lead =>
      obtain ⟨rfl, rfl⟩ := List.cons.inj hText
      exact .next (hDrop hLead) hSection hEnding hRest

private theorem Sections.behind (hLead : ¬ pemBegin <:+: lead) (hSection : Section decode body content) (hEol : eol ∈ lineEndings)
    (hRest : Sections decode AnyEnding rest contents) :
    Sections decode AnyEnding (lead ++ (body ++ (eol ++ rest))) (content :: contents) := by
  simp only [lineEndings, List.mem_cons, List.not_mem_nil, or_false] at hEol
  rcases hEol with rfl | rfl | rfl
  · exact .next hLead hSection (Or.inr (Or.inl rfl)) hRest
  · exact .next hLead hSection (Or.inr (Or.inr (Or.inl rfl))) hRest
  · by_cases hLone : rest.head? = some lf
    · obtain ⟨rest, rfl⟩ := List.head?_eq_some_iff.mp hLone
      exact @Sections.next _ _ _ _ [cr, lf] _ _ _ hLead hSection (Or.inr (Or.inr (Or.inl rfl))) hRest.tail
    · exact .next hLead hSection (Or.inr (Or.inr (Or.inr ⟨rfl, hLone⟩))) hRest

namespace Item

theorem infix_behind (hEol : eol ∈ lineEndings) (h : pemEnd <:+: x ++ (eol ++ y)) : pemEnd <:+: x ∨ pemEnd <:+: y := by
  have hNil : ¬ pemEnd <:+: [] := fun hInfix => end_ne_nil (List.infix_nil.mp hInfix)
  simp only [lineEndings, List.mem_cons, List.not_mem_nil, or_false] at hEol
  rcases hEol with rfl | rfl | rfl
  · exact infix_of_append_cons end_free.1 h
  · refine (infix_of_append_cons end_free.2 h).imp_right fun hBehind => ?_
    exact (infix_of_append_cons (x := []) end_free.1 hBehind).resolve_left hNil
  · exact infix_of_append_cons end_free.2 h

theorem section_text (item : Item decode) (hEol : eol ∈ lineEndings) : Section decode (item.text eol) item.content := by
  refine ⟨⟨item.head ++ eol ++ item.lines.flatMap (· ++ eol), item.foot, ?_, ?_, item.foot_free⟩, item.decodes eol hEol⟩
  · rw [text, List.flatMap_cons]
  · rw [← List.flatMap_cons (f := (· ++ eol))]
    have hFree := item.lines_free
    generalize item.head :: item.lines = lines at hFree
    induction lines with
    | nil => exact fun hInfix => end_ne_nil (List.infix_nil.mp hInfix)
    | cons line lines ih =>
      obtain ⟨hLine, hLines⟩ := List.forall_mem_cons.mp hFree
      rw [List.flatMap_cons, List.append_assoc]
      exact fun hInfix => (infix_behind hEol hInfix).elim hLine (ih hLines)

theorem sections_bundle (hEol : eol ∈ lineEndings) (hLead : ¬ pemBegin <:+: lead) (items : List (Item decode))
    (last : Option (Item decode)) :
    Sections decode AnyEnding (bundle eol lead items last) ((items ++ last.toList).map Item.content) := by
  induction items generalizing lead with
  | nil =>
    cases last with
    | none =>
      rw [bundle, List.flatMap_nil, Option.elim_none, List.append_nil, List.append_nil]
      exact .none hLead
    | some item =>
      have hText : bundle eol lead [] (some item) = lead ++ (item.text eol ++ ([] ++ [])) := by
        rw [bundle, List.flatMap_nil, Option.elim_some, List.nil_append, List.nil_append, List.append_nil]
      rw [hText]
      exact .next hLead (item.section_text hEol) (Or.inl ⟨rfl, rfl⟩) (.none fun hInfix => begin_ne_nil (List.infix_nil.mp hInfix))
  | cons item items ih =>
    have hText : bundle eol lead (item :: items) last = lead ++
        (item.text eol ++ (eol ++ bundle eol item.between items last)) := by
      rw [bundle, List.flatMap_cons, bundle]
      simp only [List.append_assoc]
    rw [hText]
    exact .behind hLead (item.section_text hEol) hEol (ih item.between_free)

end Item

private theorem readsCertificates_iff (hOne : OneSection decode) (s : Str) :
    ReadsCertificates decode s ↔ ∀ contents, Sections decode AnyEnding s contents → Sections decode FedEnding s contents := by
  have hRead (certs : List Str) : parsePemCertificates decode s = some (.ok certs) ↔
      ∃ contents, Sections decode FedEnding s contents ∧ certs = certificates contents := by
    rw [parsePemCertificates, certificatesFrom_iff hOne [] certs (Nat.lt_succ_self _)]
    rfl
  constructor
  · intro h contents hAny
    obtain ⟨contents', hFed, -⟩ := (hRead _).mp ((h (certificates contents)).mpr ⟨contents, hAny, rfl⟩)
    rwa [hFed.any.unique hAny] at hFed
  · intro h certs
    rw [hRead]
    refine exists_congr fun contents => and_congr_left fun _ => ⟨Sections.any, h contents⟩

private theorem readsKey_iff (hOne : OneSection decode) (s : Str) :
    ReadsKey decode s ↔ ∀ key, FirstKey decode AnyEnding s key → FirstKey decode FedEnding s key := by
  have hRead (key : Str × String) : parsePrivateKey decode s = some (.ok key) ↔ FirstKey decode FedEnding s key :=
    privateKeyFrom_iff hOne key (Nat.lt_succ_self _)
  constructor
  · exact fun h key hAny => (hRead key).mp ((h key).mpr hAny)
  · exact fun h key => (hRead key).trans ⟨FirstKey.any, h key⟩

/-- Both functions return on every input. They read exactly the texts of well-formed sections, except where the line of an
END marker ends with a carriage return alone and text follows. What there is to read in a list of sections are their
contents, whatever stands around them and ends their lines. -/
theorem pem_read_iff (hOne : OneSection decode) (s : Str) :
    (parsePemCertificates decode s).isSome = true ∧ (parsePrivateKey decode s).isSome = true ∧
    (ReadsCertificates decode s ↔ ∀ contents, Sections decode AnyEnding s contents → Sections decode FedEnding s contents) ∧
    (ReadsKey decode s ↔ ∀ key, FirstKey decode AnyEnding s key → FirstKey decode FedEnding s key) ∧
    ∀ (lead : Str) (items : List (Item decode)) (last : Option (Item decode)), ¬ pemBegin <:+: lead → ∀ eol ∈ lineEndings,
      Sections decode AnyEnding (Item.bundle eol lead items last) ((items ++ last.toList).map Item.content) :=
  ⟨certificatesFrom_ends decode _ [] s (Nat.lt_succ_self _), privateKeyFrom_ends decode _ s (Nat.lt_succ_self _),
    readsCertificates_iff hOne s, readsKey_iff hOne s,
    fun _ items last hLead _ hEol => Item.sections_bundle hEol hLead items last⟩

def sampleBody : Str := utf8 "-----BEGIN CERTIFICATE-----\rMAA=\r-----END CERTIFICATE-----"

def sampleDecode : Decode := fun s =>
  if s ∈ ([] :: lineEndings).map (sampleBody ++ ·) then .ok ("CERTIFICATE", [0x30, 0x00]) else .error "malformed"

private theorem sampleBody_framed : Framed sampleBody :=
  ⟨utf8 "CERTIFICATE-----\rMAA=\r", utf8 "CERTIFICATE-----", by decide, by decide, by decide,
    by decide⟩

theorem sampleDecode_section : Section sampleDecode sampleBody ("CERTIFICATE", [0x30, 0x00]) :=
  ⟨sampleBody_framed, if_pos (List.mem_map.mpr ⟨[], List.mem_cons_self, List.append_nil _⟩)⟩

private theorem sampleDecode_ok (h : sampleDecode s = .ok content) :
    content = ("CERTIFICATE", [0x30, 0x00]) ∧ ∃ eol ∈ [] :: lineEndings, s = sampleBody ++ eol := by
  rw [sampleDecode] at h
  split at h
  · next hMem =>
    obtain ⟨eol, hEol, hText⟩ := List.mem_map.mp hMem
    exact ⟨(Except.ok.inj h).symm, eol, hEol, hText.symm⟩
  · cases h

theorem sampleDecode_oneSection : OneSection sampleDecode where
  sound _ h := by
    obtain ⟨rfl, eol, hEol, rfl⟩ := sampleDecode_ok h
    exact ⟨sampleBody, eol, rfl, sampleDecode_section, List.mem_cons.mp hEol⟩
  ending {body eol content} h hEol := by
    obtain ⟨rfl, eol', hEol', rfl⟩ := sampleDecode_ok h.decoded
    have hLast := h.framed.getLast?
    have hNil : eol' = [] := by
      simp only [lineEndings, List.mem_cons, List.not_mem_nil, or_false] at hEol'
      rcases hEol' with rfl | rfl | rfl | rfl
      · rfl
      · exact absurd List.getLast?_concat hLast.1
      · have hTwo : sampleBody ++ [cr, lf] = sampleBody ++ [cr] ++ [lf] := by rw [List.append_assoc]; rfl
        rw [hTwo] at hLast
        exact absurd List.getLast?_concat hLast.1
      · exact absurd List.getLast?_concat hLast.2
    rw [hNil, List.append_nil]
    exact if_pos (List.mem_map.mpr ⟨eol, List.mem_cons_of_mem _ hEol, rfl⟩)

private theorem sample_pair {Ending : Str → Str → Prop} (hEol : Ending eol (sampleBody ++ ([] ++ []))) (hLast : Ending [] []) :
    Sections sampleDecode Ending (sampleBody ++ (eol ++ (sampleBody ++ ([] ++ []))))
      [("CERTIFICATE", [0x30, 0x00]), ("CERTIFICATE", [0x30, 0x00])] := by
  have hNil : ¬ pemBegin <:+: [] := fun hInfix => begin_ne_nil (List.infix_nil.mp hInfix)
  exact @Sections.next _ _ [] _ _ _ _ _ hNil sampleDecode_section hEol
    (@Sections.next _ _ [] _ _ _ _ _ hNil sampleDecode_section hLast (.none hNil))

/-- Two certificates with a line feed between them are read. -/
theorem pem_read_sample : OneSection sampleDecode ∧
    ReadsCertificates sampleDecode (sampleBody ++ ([lf] ++ (sampleBody ++ ([] ++ [])))) := by
  refine ⟨sampleDecode_oneSection, (pem_read_iff sampleDecode_oneSection _).2.2.1.mpr fun contents hAny => ?_⟩
  have hFed := @sample_pair [lf] FedEnding (Or.inr (Or.inl rfl)) (Or.inl ⟨rfl, rfl⟩)
  rwa [hAny.unique hFed.any]

/-- Two certificates whose lines end with carriage returns. -/
theorem not_readsCertificates : ¬ ∀ decode, OneSection decode → ∀ s, ReadsCertificates decode s ∧ ReadsKey decode s := by
  intro h
  have hBoth := @sample_pair [cr] AnyEnding (Or.inr (Or.inr (Or.inr ⟨rfl, by decide⟩))) (Or.inl ⟨rfl, rfl⟩)
  have hRead := ((h sampleDecode sampleDecode_oneSection _).1 _).mpr ⟨_, hBoth, rfl⟩
  revert hRead
  decide +kernel

end

end Eggfetch.Tls
