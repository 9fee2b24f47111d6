import Eggfetch.Text.Split
import Eggfetch.Text.Bytes
import Mathlib.Data.List.TakeWhile

/-! Form data by RFC 7578. A body is a list of lines. A line that begins with the delimiter ends
a part and begins the next; the lines of a part are header fields up to the first empty line,
and data after it. -/
namespace Eggfetch.FormData
open Text

def cr : UInt8 := 0x0d
def lf : UInt8 := 0x0a
def quote : UInt8 := 0x22
def backslash : UInt8 := 0x5c
def semicolon : UInt8 := 0x3b
def equals : UInt8 := 0x3d
def colon : UInt8 := 0x3a
def space : UInt8 := 0x20

def crlf : Str := [cr, lf]

structure FormPart where
  name : Str
  filename : Option Str
  /-- The fields other than the disposition, with names in lower case. -/
  headers : List (Str × Str)
  data : Str
  deriving DecidableEq, Repr

def escape (s : Str) : Str := s.flatMap fun b => if b = backslash ∨ b = quote then [backslash, b] else [b]

def unquote : Str → Option (Str × Str)
  | [] => none
  | b :: rest =>
    if b = quote then some ([], rest)
    else if b = backslash then
      match rest with
      | [] => none
      | c :: rest => (unquote rest).map fun r => (c :: r.1, r.2)
    else (unquote rest).map fun r => (b :: r.1, r.2)

def quotedString : Str → Option (Str × Str)
  | [] => none
  | b :: rest => if b = quote then unquote rest else none

/-- The parameters after a semicolon; each consumes text, so that its length is fuel enough. -/
def parameters : Nat → Str → Option (List (Str × Str))
  | 0, _ => none
  | fuel + 1, s =>
    let pair := splitOnce equals (s.dropWhile (· == space))
    (quotedString pair.2).bind fun r =>
      if r.2 = [] then some [(toAsciiLowercase pair.1, r.1)]
      else if r.2.head? = some semicolon then
        (parameters fuel r.2.tail).map ((toAsciiLowercase pair.1, r.1) :: ·)
      else none

/-- The parameters of a form's `Content-Disposition`. -/
def disposition (value : Str) : Option (List (Str × Str)) :=
  let pair := splitOnce semicolon value
  if eqIgnoreAsciiCase pair.1 (utf8 "form-data") then parameters value.length pair.2 else none

def headerField (line : Str) : Option (Str × Str) :=
  if colon ∈ line then
    let pair := splitOnce colon line
    some (toAsciiLowercase pair.1, if pair.2.head? = some space then pair.2.tail else pair.2)
  else none

def isDisposition (field : Str × Str) : Bool := field.1 == utf8 "content-disposition"

def ofFields (fields : List (Str × Str)) (data : List Str) : Option FormPart :=
  (fields.find? isDisposition).bind fun field =>
    (disposition field.2).bind fun params =>
      (params.lookup (utf8 "name")).map fun name =>
        { name
          filename := params.lookup (utf8 "filename")
          headers := fields.eraseP isDisposition
          data := crlf.intercalate data }

def isField (line : Str) : Bool := !line.isEmpty

def bodyPart (lines : List Str) : Option FormPart :=
  match lines.dropWhile isField with
  | [] => none
  | _ :: data => ((lines.takeWhile isField).mapM headerField).bind fun fields => ofFields fields data

/-- The lines up to the first delimiter, and the lines of each part; `none` when no delimiter
closes the last part. -/
def sections (delimiter : Str) : List Str → Option (List Str × List (List Str))
  | [] => none
  | line :: rest =>
    if delimiter <+: line then
      if utf8 "--" <+: line.drop delimiter.length then some ([], [])
      -- a delimiter line may be padded
      else if (line.drop delimiter.length).all (fun b => b == space || b == 0x09) then
        (sections delimiter rest).map fun s => ([], s.1 :: s.2)
      else none
    else (sections delimiter rest).map fun s => (line :: s.1, s.2)

def parseLines (delimiter : Str) (lines : List Str) : Option (List FormPart) :=
  (sections delimiter lines).bind fun s => s.2.mapM bodyPart

def parse (boundary body : Str) : Option (List FormPart) :=
  parseLines (utf8 "--" ++ boundary) (splitOnPair cr lf body)

@[simp] theorem escape_nil : escape [] = [] := rfl

theorem escape_append (s t : Str) : escape (s ++ t) = escape s ++ escape t := List.flatMap_append

theorem unquote_quote (rest : Str) : unquote (quote :: rest) = some ([], rest) := by
  cases rest <;> simp [unquote]

theorem unquote_pair (b : UInt8) (rest : Str) :
    unquote (backslash :: b :: rest) = (unquote rest).map fun r => (b :: r.1, r.2) := by
  have hNe : backslash ≠ quote := by decide
  simp [unquote, hNe]

theorem unquote_cons {b : UInt8} (hQuote : b ≠ quote) (hBackslash : b ≠ backslash) (rest : Str) :
    unquote (b :: rest) = (unquote rest).map fun r => (b :: r.1, r.2) := by
  cases rest <;> simp [unquote, hQuote, hBackslash]

theorem escape_cons (b : UInt8) (s : Str) :
    escape (b :: s) = if b = backslash ∨ b = quote then backslash :: b :: escape s else b :: escape s := by
  rw [escape, List.flatMap_cons]
  split_ifs <;> rfl

theorem unquote_escape (s rest : Str) : unquote (escape s ++ quote :: rest) = some (s, rest) := by
  induction s with
  | nil => exact unquote_quote rest
  | cons b s ih =>
    rw [escape_cons]
    split_ifs with hb
    · rw [List.cons_append, List.cons_append, unquote_pair, ih]
      rfl
    · obtain ⟨hBackslash, hQuote⟩ := not_or.mp hb
      rw [List.cons_append, unquote_cons hQuote hBackslash, ih]
      rfl

private theorem unquote_of_prefix {s t : Str} (h : t <+: escape s) : unquote t = none := by
  induction s generalizing t with
  | nil =>
    obtain rfl := List.prefix_nil.mp h
    rfl
  | cons b s ih =>
    rw [escape_cons] at h
    cases t with
    | nil => rfl
    | cons c t =>
      split_ifs at h with hb
      · obtain ⟨hc, h⟩ := List.cons_prefix_cons.mp h
        cases t with
        | nil =>
          rw [hc]
          rfl
        | cons d t =>
          rw [hc, unquote_pair, ih (List.cons_prefix_cons.mp h).2]
          rfl
      · obtain ⟨hc, h⟩ := List.cons_prefix_cons.mp h
        obtain ⟨hBackslash, hQuote⟩ := not_or.mp hb
        rw [hc, unquote_cons hQuote hBackslash, ih h]
        rfl

section parameters
variable {key : Str}

theorem parameters_quoted (fuel : Nat) (hSpace : space ∉ key) (hEquals : equals ∉ key) (quoted : Str) :
    parameters (fuel + 1) (space :: key ++ equals :: quote :: quoted) =
      (unquote quoted).bind fun r =>
        if r.2 = [] then some [(toAsciiLowercase key, r.1)]
        else if r.2.head? = some semicolon then
          (parameters fuel r.2.tail).map ((toAsciiLowercase key, r.1) :: ·)
        else none := by
  have hDrop : (space :: key ++ equals :: quote :: quoted).dropWhile (· == space) = key ++ equals :: quote :: quoted := by
    rw [List.cons_append, List.dropWhile_cons_of_pos (by simp)]
    cases key with
    | nil => rfl
    | cons b key =>
      obtain ⟨hb, -⟩ := List.ne_and_not_mem_of_not_mem_cons hSpace
      rw [List.cons_append, List.dropWhile_cons_of_neg (by simpa using hb.symm)]
  rw [parameters, hDrop, splitOnce_append hEquals]
  rfl

theorem parameters_last (fuel : Nat) (hSpace : space ∉ key) (hEquals : equals ∉ key) (text : Str) :
    parameters (fuel + 1) (space :: key ++ equals :: quote :: (escape text ++ [quote])) =
      some [(toAsciiLowercase key, text)] := by
  rw [parameters_quoted fuel hSpace hEquals, unquote_escape]
  rfl

theorem parameters_cons (fuel : Nat) (hSpace : space ∉ key) (hEquals : equals ∉ key) (text more : Str) :
    parameters (fuel + 1) (space :: key ++ equals :: quote :: (escape text ++ quote :: semicolon :: more)) =
      (parameters fuel more).map ((toAsciiLowercase key, text) :: ·) := by
  rw [parameters_quoted fuel hSpace hEquals, unquote_escape]
  rfl

theorem parameters_open (fuel : Nat) (hSpace : space ∉ key) (hEquals : equals ∉ key) {quoted text : Str}
    (h : quoted <+: escape text) : parameters (fuel + 1) (space :: key ++ equals :: quote :: quoted) = none := by
  rw [parameters_quoted fuel hSpace hEquals, unquote_of_prefix h]
  rfl

end parameters

theorem disposition_form (params : Str) :
    ∃ fuel, disposition (utf8 "form-data" ++ semicolon :: params) = parameters (fuel + 2) params := by
  have hType : semicolon ∉ utf8 "form-data" := by decide
  have hForm : eqIgnoreAsciiCase (utf8 "form-data") (utf8 "form-data") = true := by decide
  have hLength : (utf8 "form-data" ++ semicolon :: params).length = params.length + 8 + 2 := by
    have hNine : (utf8 "form-data").length = 9 := by decide
    simp [hNine]
    omega
  refine ⟨params.length + 8, ?_⟩
  rw [disposition, splitOnce_append hType]
  dsimp only
  rw [if_pos hForm, hLength]

theorem mapM_headerField {α : Type} {text : α → Str} {field : α → Str × Str} {xs : List α}
    (h : ∀ x ∈ xs, headerField (text x) = some (field x)) : (xs.map text).mapM headerField = some (xs.map field) := by
  induction xs with
  | nil => rfl
  | cons x xs ih =>
    obtain ⟨hx, hxs⟩ := List.forall_mem_cons.mp h
    rw [List.map_cons, List.mapM_cons, hx, ih hxs]
    rfl

theorem headerField_text {name : Str} (h : colon ∉ name) (value : Str) :
    headerField (name ++ colon :: space :: value) = some (toAsciiLowercase name, value) := by
  have hMem : colon ∈ name ++ colon :: space :: value := List.mem_append_right _ List.mem_cons_self
  rw [headerField, if_pos hMem, splitOnce_append h]
  rfl

theorem isField_of_ne_nil {line : Str} (h : line ≠ []) : isField line = true := by
  simpa [isField] using h

/-- The lines before the blank line are header fields. -/
theorem bodyPart_append {heads : List Str} (h : ∀ line ∈ heads, line ≠ []) (data : List Str) :
    bodyPart (heads ++ [] :: data) = (heads.mapM headerField).bind fun fields => ofFields fields data := by
  have hAll : ∀ line ∈ heads, isField line = true := fun line hLine => isField_of_ne_nil (h line hLine)
  have hBlank : ¬ isField [] = true := by decide
  rw [bodyPart, List.dropWhile_append_of_pos hAll, List.takeWhile_append_of_pos hAll,
    List.dropWhile_cons_of_neg hBlank, List.takeWhile_cons_of_neg hBlank, List.append_nil]

theorem bodyPart_of_no_blank {lines : List Str} (h : ∀ line ∈ lines, line ≠ []) : bodyPart lines = none := by
  have hDrop : lines.dropWhile isField = [] :=
    List.dropWhile_eq_nil_iff.mpr fun line hLine => isField_of_ne_nil (h line hLine)
  rw [bodyPart, hDrop]

theorem ofFields_cons {field : Str × Str} (h : isDisposition field) (fields : List (Str × Str)) (data : List Str) :
    ofFields (field :: fields) data =
      (disposition field.2).bind fun params =>
        (params.lookup (utf8 "name")).map fun name =>
          { name, filename := params.lookup (utf8 "filename"), headers := fields, data := crlf.intercalate data } := by
  rw [ofFields, List.find?_cons_of_pos h, List.eraseP_cons_of_pos h]
  rfl

/-- A part whose disposition cannot be read is no part. -/
theorem bodyPart_of_disposition {line value : Str} (hField : headerField line = some (utf8 "content-disposition", value))
    (hNone : disposition value = none) (lines : List Str) : bodyPart (line :: lines) = none := by
  have hNe : isField line = true := by
    apply isField_of_ne_nil
    rintro rfl
    cases hField
  rw [bodyPart, List.dropWhile_cons_of_pos hNe, List.takeWhile_cons_of_pos hNe, List.mapM_cons, hField]
  cases lines.dropWhile isField with
  | nil => rfl
  | cons _ data =>
    cases hRest : (lines.takeWhile isField).mapM headerField with
    | none => rfl
    | some fields =>
      have hDisposition : isDisposition (utf8 "content-disposition", value) := by simp [isDisposition]
      have hPart := ofFields_cons hDisposition fields data
      rw [hNone] at hPart
      exact hPart

variable {delimiter line : Str} {lines rest : List Str}

private theorem sections_append (h : ∀ line ∈ lines, ¬ delimiter <+: line) :
    sections delimiter (lines ++ rest) = (sections delimiter rest).map fun s => (lines ++ s.1, s.2) := by
  induction lines with
  | nil =>
    rw [List.nil_append]
    cases sections delimiter rest <;> rfl
  | cons line lines ih =>
    obtain ⟨hLine, hLines⟩ := List.forall_mem_cons.mp h
    rw [List.cons_append, sections, if_neg hLine, ih hLines, Option.map_map]
    rfl

private theorem sections_delimiter_first (h : delimiter <+: line) {s : List Str × List (List Str)}
    (hs : sections delimiter (line :: rest) = some s) : s.1 = [] := by
  rw [sections, if_pos h] at hs
  split_ifs at hs
  · cases hs
    rfl
  · obtain ⟨t, -, rfl⟩ := Option.map_eq_some_iff.mp hs
    rfl

private theorem sections_delimiter :
    sections delimiter (delimiter :: rest) = (sections delimiter rest).map fun s => ([], s.1 :: s.2) := by
  have hNot : ¬ utf8 "--" <+: [] := by decide
  rw [sections, if_pos List.prefix_rfl, List.drop_length, if_neg hNot, if_pos List.all_nil]

theorem parseLines_part (hFree : ∀ line ∈ lines, ¬ delimiter <+: line) (hNext : delimiter <+: line) :
    parseLines delimiter (delimiter :: lines ++ line :: rest) =
      (bodyPart lines).bind fun part => (parseLines delimiter (line :: rest)).map (part :: ·) := by
  rw [parseLines, List.cons_append, sections_delimiter, sections_append hFree]
  cases hs : sections delimiter (line :: rest) with
  | none => cases bodyPart lines <;> simp [parseLines, hs]
  | some s =>
    have hFirst := sections_delimiter_first hNext hs
    cases hPart : bodyPart lines with
    | none => simp [hFirst, hPart]
    | some part => 
      simp [parseLines, hs, hFirst, hPart, Option.map_eq_bind]

theorem parseLines_close (h : delimiter <+: line) (hClose : utf8 "--" <+: line.drop delimiter.length) :
    parseLines delimiter (line :: rest) = some [] := by
  rw [parseLines, sections, if_pos h, if_pos hClose]
  rfl

end Eggfetch.FormData
