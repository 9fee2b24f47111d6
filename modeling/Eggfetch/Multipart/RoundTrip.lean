import Eggfetch.Multipart.Encode
import Eggfetch.Multipart.FormData

/-! Encoded multipart bodies, read back by RFC 7578. A part survives unless its file name holds a
line end, which `Part::filename` lets through, or a header name begins with the delimiter. -/
namespace Eggfetch.Multipart
open Text Http FormData

variable {S : Type}

def Part.parsed (p : Part S) : FormPart where
  name := utf8 p.name
  filename := p.filename.map utf8
  headers := (p.contentType.map fun ct => (utf8 "content-type", ct.bytes)).toList ++
    p.headers.map fun h => (h.1.bytes, h.2.bytes)
  data := bodyBytes p.body

/-- Nothing in the part's header reads as a line end or as a delimiter. -/
structure Part.Framed (boundary : Str) (p : Part S) : Prop where
  filename : ∀ filename ∈ p.filename, ¬ crlf <:+: utf8 filename
  headers : ∀ h ∈ p.headers, ¬ utf8 "--" ++ boundary <+: h.1.bytes

theorem escape_utf8EncodeChar (c : Char) :
    escape (String.utf8EncodeChar c) =
      if c = '\\' ∨ c = '"' then backslash :: String.utf8EncodeChar c else String.utf8EncodeChar c := by
  by_cases hAscii : c.toNat < 0x80
  · have hAll : ∀ n < 0x80, escape [UInt8.ofNat n] =
        if Char.ofNat n = '\\' ∨ Char.ofNat n = '"' then [backslash, UInt8.ofNat n] else [UInt8.ofNat n] := by
      decide
    have hChar := hAll _ hAscii
    rw [Char.ofNat_toNat] at hChar
    rw [utf8EncodeChar_ascii hAscii, hChar]
  · have hPlain : ¬ (c = '\\' ∨ c = '"') := by
      rintro (rfl | rfl)
      · exact hAscii (by decide)
      · exact hAscii (by decide)
    have hBytes : ∀ s : Str, (∀ b ∈ s, 0x80 ≤ b) → escape s = s := by
      intro s hs
      induction s with
      | nil => rfl
      | cons b s ih =>
        obtain ⟨hb, hs⟩ := List.forall_mem_cons.mp hs
        have hNe : ¬ (b = backslash ∨ b = quote) := by
          rintro (rfl | rfl)
          · exact absurd hb (by decide)
          · exact absurd hb (by decide)
        rw [escape_cons, if_neg hNe, ih hs]
    rw [if_neg hPlain]
    exact hBytes _ fun b hb => le_of_mem_utf8EncodeChar hAscii hb

theorem utf8_quoteStringEscape (s : String) : utf8 (quoteStringEscape s) = escape (utf8 s) := by
  rw [quoteStringEscape, utf8_ofList, utf8_toList]
  induction s.toList with
  | nil => rfl
  | cons c chars ih =>
    have hBackslash : String.utf8EncodeChar '\\' = [backslash] := by decide
    rw [List.flatMap_cons, List.flatMap_append, ih, List.flatMap_cons, escape_append, escape_utf8EncodeChar]
    split_ifs
    · simp [hBackslash]
    · simp

/-- The value of a disposition with a file name, up to where the file name's text begins. -/
def filenameValue (p : Part S) (text : Str) : Str :=
  utf8 "form-data" ++ semicolon :: (space :: utf8 "name" ++ equals :: quote :: (escape (utf8 p.name) ++ quote ::
    semicolon :: (space :: utf8 "filename" ++ equals :: quote :: text)))

def dispositionValue (p : Part S) : Str :=
  match p.filename with
  | some filename => filenameValue p (escape (utf8 filename) ++ [quote])
  | none =>
    utf8 "form-data" ++ semicolon :: (space :: utf8 "name" ++ equals :: quote :: (escape (utf8 p.name) ++ [quote]))

def fieldText (field : Str × Str) : Str := field.1 ++ colon :: space :: field.2

def dispositionField (p : Part S) : Str × Str := (utf8 "Content-Disposition", dispositionValue p)

def fields (p : Part S) : List (Str × Str) :=
  (p.contentType.map fun ct => (utf8 "Content-Type", ct.bytes)).toList ++ p.headers.map fun h => (h.1.bytes, h.2.bytes)

def headTexts (p : Part S) : List Str := (dispositionField p :: fields p).map fieldText

theorem formatPartHeader_eq (boundary : Str) (p : Part S) :
    formatPartHeader boundary p =
      utf8 "--" ++ boundary ++ crlf ++ (headTexts p).flatMap (· ++ crlf) ++ crlf := by
  have hName : utf8 "\r\nContent-Disposition: form-data; name=\"" =
      crlf ++ utf8 "Content-Disposition" ++ [colon, space] ++ utf8 "form-data" ++ [semicolon, space] ++
        utf8 "name" ++ [equals, quote] := by decide
  have hFilename : utf8 "; filename=\"" = [semicolon, space] ++ utf8 "filename" ++ [equals, quote] := by decide
  have hQuote : utf8 "\"" = [quote] := by decide
  have hCrlf : utf8 "\r\n" = crlf := by decide
  have hColon : utf8 ": " = [colon, space] := by decide
  have hType : utf8 "Content-Type: " = utf8 "Content-Type" ++ [colon, space] := by decide
  have hHeaders : (p.headers.flatMap fun h => h.1.bytes ++ [colon, space] ++ h.2.bytes ++ crlf) =
      (p.headers.map fun h => fieldText (h.1.bytes, h.2.bytes)).flatMap (· ++ crlf) := by
    simp [List.flatMap_map, fieldText]
  rw [formatPartHeader, hName, hFilename, hQuote, hCrlf, hColon, hType, hHeaders]
  cases hf : p.filename <;> cases ht : p.contentType <;>
    simp [headTexts, fields, fieldText, Function.comp_def, dispositionField, dispositionValue, filenameValue, hf, ht,
      utf8_quoteStringEscape]

theorem space_notMem_name : space ∉ utf8 "name" := by decide
theorem equals_notMem_name : equals ∉ utf8 "name" := by decide
theorem space_notMem_filename : space ∉ utf8 "filename" := by decide
theorem equals_notMem_filename : equals ∉ utf8 "filename" := by decide

private theorem disposition_value (p : Part S) :
    disposition (dispositionValue p) =
      some ((utf8 "name", utf8 p.name) :: (p.filename.map fun filename => (utf8 "filename", utf8 filename)).toList) := by
  have hName : toAsciiLowercase (utf8 "name") = utf8 "name" := by decide
  have hFilename : toAsciiLowercase (utf8 "filename") = utf8 "filename" := by decide
  cases hf : p.filename with
  | none =>
    rw [dispositionValue, hf]
    dsimp only
    obtain ⟨fuel, hForm⟩ := disposition_form (space :: utf8 "name" ++ equals :: quote :: (escape (utf8 p.name) ++ [quote]))
    rw [hForm, parameters_last _ space_notMem_name equals_notMem_name, hName]
    rfl
  | some filename =>
    rw [dispositionValue, hf]
    dsimp only
    obtain ⟨fuel, hForm⟩ := disposition_form (space :: utf8 "name" ++ equals :: quote :: (escape (utf8 p.name) ++ quote ::
      semicolon :: (space :: utf8 "filename" ++ equals :: quote :: (escape (utf8 filename) ++ [quote]))))
    rw [filenameValue, hForm, parameters_cons _ space_notMem_name equals_notMem_name,
      parameters_last _ space_notMem_filename equals_notMem_filename, hName, hFilename]
    rfl

private theorem disposition_open (p : Part S) {text filename : Str} (h : text <+: escape filename) :
    disposition (filenameValue p text) = none := by
  obtain ⟨fuel, hForm⟩ := disposition_form (space :: utf8 "name" ++ equals :: quote :: (escape (utf8 p.name) ++ quote ::
    semicolon :: (space :: utf8 "filename" ++ equals :: quote :: text)))
  rw [filenameValue, hForm, parameters_cons _ space_notMem_name equals_notMem_name,
    parameters_open _ space_notMem_filename equals_notMem_filename h]
  rfl

def partLines (p : Part S) : List Str :=
  (headTexts p).flatMap (splitOnPair cr lf) ++ [] :: splitOnPair cr lf (bodyBytes p.body)

def bodyLines (boundary : Str) (parts : List (Part S)) : List Str :=
  (parts.flatMap fun p => (utf8 "--" ++ boundary) :: partLines p) ++ [utf8 "--" ++ boundary ++ utf8 "--", []]

theorem splitOnPair_crlf (s t : Str) :
    splitOnPair cr lf (s ++ (crlf ++ t)) = splitOnPair cr lf s ++ splitOnPair cr lf t :=
  splitOnPair_append_pair (by decide) s t

theorem splitOnPair_flatMap (texts : List Str) (rest : Str) :
    splitOnPair cr lf (texts.flatMap (· ++ crlf) ++ rest) =
      texts.flatMap (splitOnPair cr lf) ++ splitOnPair cr lf rest := by
  induction texts with
  | nil => rfl
  | cons text texts ih =>
    rw [List.flatMap_cons, List.append_assoc, List.append_assoc, splitOnPair_crlf, ih, List.flatMap_cons,
      List.append_assoc]

section
variable {boundary : Str} (hBoundary : cr ∉ boundary)
include hBoundary

theorem cr_notMem_delimiter : cr ∉ utf8 "--" ++ boundary := by
  have hDashes : cr ∉ utf8 "--" := by decide
  simp [hDashes, hBoundary]

theorem splitOnPair_encodeParts (parts : List (Part S)) :
    splitOnPair cr lf (encodeParts boundary parts) = bodyLines boundary parts := by
  have hDelimiter := cr_notMem_delimiter hBoundary
  have hCrlf : utf8 "\r\n" = crlf := by decide
  induction parts with
  | nil =>
    have hLast : cr ∉ utf8 "--" ++ boundary ++ utf8 "--" := by
      have hDashes : cr ∉ utf8 "--" := by decide
      simp [hDashes, hBoundary]
    have hFinal : encodeParts boundary ([] : List (Part S)) = utf8 "--" ++ boundary ++ utf8 "--" ++ (crlf ++ []) := by
      have hClose : utf8 "--\r\n" = utf8 "--" ++ crlf := by decide
      simp [encodeParts, finalBoundary, hClose]
    rw [hFinal, splitOnPair_crlf, splitOnPair_of_not_mem lf hLast]
    rfl
  | cons p parts ih =>
    have hParts : encodeParts boundary (p :: parts) =
        utf8 "--" ++ boundary ++ (crlf ++ ((headTexts p).flatMap (· ++ crlf) ++
          ([] ++ (crlf ++ (bodyBytes p.body ++ (crlf ++ encodeParts boundary parts)))))) := by
      rw [encodeParts_cons, formatPartHeader_eq, hCrlf]
      simp only [List.append_assoc, List.nil_append]
    rw [hParts, splitOnPair_crlf, splitOnPair_of_not_mem lf hDelimiter, splitOnPair_flatMap, splitOnPair_crlf,
      splitOnPair_crlf, ih]
    simp [bodyLines, partLines, splitOnPair]

end

theorem cr_notMem_value (v : HeaderValue) : cr ∉ v.bytes := by
  intro h
  have hValid := v.valid
  simp only [validateHeaderValue, Bool.not_eq_true', List.any_eq_false] at hValid
  exact hValid cr h (by decide)

theorem cr_colon_notMem_name (n : HeaderName) : cr ∉ n.bytes ∧ colon ∉ n.bytes ∧ n.bytes ≠ [] := by
  have hValid := n.valid
  simp only [validateHeaderName, Bool.and_eq_true, List.all_eq_true] at hValid
  refine ⟨fun h => absurd (hValid.2 cr h) (by decide), fun h => absurd (hValid.2 colon h) (by decide), ?_⟩
  rintro hNil
  rw [hNil] at hValid
  cases hValid.1

private theorem cr_notMem_fieldName {name : String} (h : validateFieldName name = .ok ()) : cr ∉ utf8 name := by
  intro hMem
  obtain ⟨ch, hch, hNat⟩ := mem_utf8_ascii hMem (by decide)
  have hControl : ch = '\r' := by
    rw [← Char.ofNat_toNat ch, hNat]
    rfl
  simp only [validateFieldName, validateQuoted] at h
  split at h
  · cases h
  · split at h
    · cases h
    · rename_i hFind
      have hPlain := List.find?_eq_none.mp hFind ch hch
      rw [hControl] at hPlain
      exact hPlain (by decide)

theorem cr_notMem_escape {s : Str} (h : cr ∉ s) : cr ∉ escape s := by
  intro hMem
  obtain ⟨b, hb, hMem⟩ := List.mem_flatMap.mp hMem
  have hNe : cr ≠ backslash := by decide
  have hEq : cr = b := by
    split_ifs at hMem
    · simpa [hNe] using hMem
    · simpa using hMem
  exact h (hEq ▸ hb)

private theorem crlf_infix_escape {s : Str} (h : crlf <:+: escape s ++ [quote]) : crlf <:+: s := by
  have hBackslash : cr ≠ backslash := by decide
  induction s with
  | nil =>
    have hNot : ¬ crlf <:+: escape [] ++ [quote] := by decide
    exact absurd h hNot
  | cons b s ih =>
    rw [escape_cons] at h
    split_ifs at h with hb
    · obtain h | h := List.infix_cons_iff.mp h
      · exact absurd (List.cons_prefix_cons.mp h).1 hBackslash
      · obtain h | h := List.infix_cons_iff.mp h
        · have hCr := (List.cons_prefix_cons.mp h).1
          rw [← hCr] at hb
          exact absurd hb (by decide)
        · exact (ih h).trans (List.suffix_cons b s).isInfix
    · obtain h | h := List.infix_cons_iff.mp h
      · obtain ⟨hCr, h⟩ := List.cons_prefix_cons.mp h
        cases s with
        | nil => exact absurd (List.cons_prefix_cons.mp h).1 (by decide)
        | cons c s =>
          rw [escape_cons] at h
          split_ifs at h
          · exact absurd (List.cons_prefix_cons.mp h).1 (by decide)
          · rw [← hCr, ← (List.cons_prefix_cons.mp h).1]
            exact List.prefix_append crlf s |>.isInfix
      · exact (ih h).trans (List.suffix_cons b s).isInfix

variable {p : Part S} {boundary : Str}

theorem cr_notMem_filenameValue (h : cr ∉ utf8 p.name) : cr ∉ fieldText (utf8 "Content-Disposition", filenameValue p []) := by
  have hFixed : cr ∉ utf8 "Content-Disposition" ∧ cr ∉ utf8 "form-data" ∧ cr ∉ utf8 "name" ∧ cr ∉ utf8 "filename" := by
    decide
  have hSigns : cr ≠ colon ∧ cr ≠ space ∧ cr ≠ semicolon ∧ cr ≠ equals ∧ cr ≠ quote := by decide
  simp [fieldText, filenameValue, hFixed, hSigns, cr_notMem_escape h]

theorem fieldText_filenameValue (p : Part S) (text : Str) :
    fieldText (utf8 "Content-Disposition", filenameValue p text) =
      fieldText (utf8 "Content-Disposition", filenameValue p []) ++ text := by
  simp [fieldText, filenameValue]

theorem splitOnPair_disposition (hName : cr ∉ utf8 p.name) (h : ∀ filename ∈ p.filename, ¬ crlf <:+: utf8 filename) :
    splitOnPair cr lf (fieldText (dispositionField p)) = [fieldText (dispositionField p)] := by
  rw [dispositionField, dispositionValue]
  cases hf : p.filename with
  | none =>
    apply splitOnPair_of_not_mem
    have hFixed : cr ∉ utf8 "Content-Disposition" ∧ cr ∉ utf8 "form-data" ∧ cr ∉ utf8 "name" := by decide
    have hSigns : cr ≠ colon ∧ cr ≠ space ∧ cr ≠ semicolon ∧ cr ≠ equals ∧ cr ≠ quote := by decide
    simp [fieldText, hFixed, hSigns, cr_notMem_escape hName]
  | some filename =>
    dsimp only
    have hText : ¬ [cr, lf] <:+: escape (utf8 filename) ++ [quote] := fun hInfix =>
      h filename hf (crlf_infix_escape hInfix)
    rw [fieldText_filenameValue, splitOnPair_of_not_mem_append (cr_notMem_filenameValue hName),
      splitOnPair_of_not_infix hText, List.modifyHead_cons]

theorem splitOnPair_field {field : Str × Str} (h : field ∈ fields p) :
    splitOnPair cr lf (fieldText field) = [fieldText field] := by
  have hSigns : cr ≠ colon ∧ cr ≠ space := by decide
  apply splitOnPair_of_not_mem
  obtain h | h := List.mem_append.mp h
  · obtain ⟨ct, -, rfl⟩ := Option.map_eq_some_iff.mp (Option.mem_toList.mp h)
    have hType : cr ∉ utf8 "Content-Type" := by decide
    simp [fieldText, hType, hSigns, cr_notMem_value ct]
  · obtain ⟨header, -, rfl⟩ := List.mem_map.mp h
    simp [fieldText, hSigns, cr_colon_notMem_name header.1, cr_notMem_value header.2]

theorem fieldText_ne_nil (field : Str × Str) : fieldText field ≠ [] := by simp [fieldText]

/-- The lines of a part whose file name holds no line end are its fields, and its data. -/
theorem partLines_eq (hName : cr ∉ utf8 p.name) (h : ∀ filename ∈ p.filename, ¬ crlf <:+: utf8 filename) :
    partLines p = headTexts p ++ [] :: splitOnPair cr lf (bodyBytes p.body) := by
  have hFields : ∀ fields' : List (Str × Str), (∀ field ∈ fields', splitOnPair cr lf (fieldText field) = [fieldText field]) →
      (fields'.map fieldText).flatMap (splitOnPair cr lf) = fields'.map fieldText := by
    intro fields' hAll
    induction fields' with
    | nil => rfl
    | cons field rest ih =>
      obtain ⟨hField, hRest⟩ := List.forall_mem_cons.mp hAll
      rw [List.map_cons, List.flatMap_cons, hField, ih hRest]
      rfl
  rw [partLines, headTexts, hFields]
  exact List.forall_mem_cons.mpr ⟨splitOnPair_disposition hName h, fun _ hField => splitOnPair_field hField⟩

theorem colon_notMem_name {field : Str × Str} (h : field ∈ dispositionField p :: fields p) : colon ∉ field.1 := by
  have hType : colon ∉ utf8 "Content-Type" := by decide
  have hDisposition : colon ∉ utf8 "Content-Disposition" := by decide
  obtain rfl | h := List.mem_cons.mp h
  · exact hDisposition
  · obtain h | h := List.mem_append.mp h
    · obtain ⟨ct, -, rfl⟩ := Option.map_eq_some_iff.mp (Option.mem_toList.mp h)
      exact hType
    · obtain ⟨header, -, rfl⟩ := List.mem_map.mp h
      exact (cr_colon_notMem_name header.1).2.1

private theorem parsed_headers (p : Part S) :
    (fields p).map (fun field => (toAsciiLowercase field.1, field.2)) = p.parsed.headers := by
  have hType : toAsciiLowercase (utf8 "Content-Type") = utf8 "content-type" := by decide
  have hLower : ∀ h : HeaderName × HeaderValue, toAsciiLowercase h.1.bytes = h.1.bytes := fun h => h.1.lower
  cases ht : p.contentType <;> simp [fields, Part.parsed, ht, hType, hLower]

theorem bodyPart_partLines (hName : cr ∉ utf8 p.name) (h : ∀ filename ∈ p.filename, ¬ crlf <:+: utf8 filename) :
    bodyPart (partLines p) = some p.parsed := by
  have hNonempty : ∀ line ∈ headTexts p, line ≠ [] := by
    intro line hLine
    obtain ⟨field, -, rfl⟩ := List.mem_map.mp hLine
    exact fieldText_ne_nil field
  have hRead : ∀ field ∈ dispositionField p :: fields p,
      headerField (fieldText field) = some (toAsciiLowercase field.1, field.2) := fun field hField =>
    headerField_text (colon_notMem_name hField) field.2
  have hDisposition : isDisposition (toAsciiLowercase (utf8 "Content-Disposition"), dispositionValue p) := by
    have hLower : toAsciiLowercase (utf8 "Content-Disposition") = utf8 "content-disposition" := by decide
    simp [isDisposition, hLower]
  have hFirst : ∀ (text : Str) (rest : List (Str × Str)),
      List.lookup (utf8 "filename") ((utf8 "name", text) :: rest) = List.lookup (utf8 "filename") rest :=
    fun _ _ => rfl
  rw [partLines_eq hName h, bodyPart_append hNonempty, headTexts, mapM_headerField hRead, Option.bind_some,
    List.map_cons, dispositionField, ofFields_cons hDisposition, disposition_value, parsed_headers]
  cases hf : p.filename <;> simp [Part.parsed, hf, hFirst, crlf, intercalate_splitOnPair]

theorem not_delimiter_of_head {line : Str} (h : line.head? ≠ some 0x2d) : ¬ utf8 "--" ++ boundary <+: line := by
  rintro ⟨rest, rfl⟩
  apply h
  have hDashes : (utf8 "--").head? = some 0x2d := by decide
  rw [List.append_assoc, List.head?_append, hDashes]
  rfl

theorem not_delimiter_filenameValue (text : Str) :
    ¬ utf8 "--" ++ boundary <+: fieldText (utf8 "Content-Disposition", text) := by
  apply not_delimiter_of_head
  have hHead : (utf8 "Content-Disposition").head? = some 0x43 := by decide
  rw [fieldText, List.head?_append, hHead, Option.some_or]
  exact fun h => absurd (Option.some.inj h) (by decide)

/-- A field begins with the delimiter where its name does. -/
theorem delimiter_field_iff (hBoundary : colon ∉ boundary) (field : Str × Str) :
    utf8 "--" ++ boundary <+: fieldText field ↔ utf8 "--" ++ boundary <+: field.1 := by
  have hColon : colon ∉ utf8 "--" ++ boundary := by
    have hDashes : colon ∉ utf8 "--" := by decide
    simp [hDashes, hBoundary]
  constructor
  · intro h
    have hField : field.1 ++ [colon] <+: fieldText field := by
      rw [fieldText]
      exact (List.prefix_append_right_inj _).mpr (List.prefix_append [colon] _)
    obtain h | h := List.prefix_or_prefix_of_prefix h hField
    · obtain h | h := List.prefix_concat_iff.mp h
      · exact absurd (h ▸ List.mem_append_right _ (List.mem_singleton_self _)) hColon
      · exact h
    · exact absurd (h.subset (List.mem_append_right _ (List.mem_singleton_self _))) hColon
  · intro h
    exact h.trans (List.prefix_append _ _)

private theorem not_delimiter_data {data line : Str} (h : ¬ boundary <:+: data) (hLine : line ∈ splitOnPair cr lf data) :
    ¬ utf8 "--" ++ boundary <+: line := fun hPrefix =>
  h ((List.suffix_append _ _).isInfix.trans (hPrefix.isInfix.trans (infix_of_mem_splitOnPair hLine)))

private theorem Part.Framed.not_delimiter (h : p.Framed boundary) (hName : cr ∉ utf8 p.name) (hColon : colon ∉ boundary)
    (hData : ¬ boundary <:+: bodyBytes p.body) : ∀ line ∈ partLines p, ¬ utf8 "--" ++ boundary <+: line := by
  intro line hLine
  rw [partLines_eq hName h.filename, List.mem_append, List.mem_cons] at hLine
  obtain hLine | rfl | hLine := hLine
  · obtain ⟨field, hField, rfl⟩ := List.mem_map.mp hLine
    obtain rfl | hField := List.mem_cons.mp hField
    · exact not_delimiter_filenameValue _
    · rw [delimiter_field_iff hColon]
      obtain hField | hField := List.mem_append.mp hField
      · obtain ⟨ct, -, rfl⟩ := Option.map_eq_some_iff.mp (Option.mem_toList.mp hField)
        have hType : (utf8 "Content-Type").head? ≠ some 0x2d := by decide
        exact not_delimiter_of_head hType
      · obtain ⟨header, hHeader, rfl⟩ := List.mem_map.mp hField
        exact h.headers header hHeader
  · exact not_delimiter_of_head (by decide)
  · exact not_delimiter_data hData hLine

theorem exists_first_delimiter {delimiter line : Str} {lines : List Str} (hLine : line ∈ lines) (h : delimiter <+: line) :
    ∃ before first after, lines = before ++ first :: after ∧ (∀ line ∈ before, ¬ delimiter <+: line) ∧
      delimiter <+: first := by
  have hFirst : decide (delimiter <+: line) = true := decide_eq_true h
  obtain ⟨first, before, after, hBefore, hDelimiter, hSplit, -⟩ :=
    List.exists_of_eraseP (p := fun line => decide (delimiter <+: line)) hLine hFirst
  refine ⟨before, first, after, hSplit, ?_, of_decide_eq_true hDelimiter⟩
  exact fun line hMem hPrefix => hBefore line hMem (decide_eq_true hPrefix)

private theorem partLines_open (hName : cr ∉ utf8 p.name) {filename : String} (hf : p.filename = some filename)
    (h : crlf <:+: utf8 filename) :
    ∃ text before more, text <+: escape before ∧
      partLines p = fieldText (utf8 "Content-Disposition", filenameValue p text) :: more := by
  obtain ⟨before, after, hSplit⟩ := h
  let later : List Str := ((fields p).map fieldText).flatMap (splitOnPair cr lf) ++ [] :: splitOnPair cr lf (bodyBytes p.body)
  have hEscape : escape (utf8 filename) ++ [quote] = escape before ++ cr :: lf :: (escape after ++ [quote]) := by
    have hCrlf : escape crlf = crlf := by decide
    rw [← hSplit, escape_append, escape_append, hCrlf]
    simp [crlf]
  cases hLines : splitOnPair cr lf (escape before) with
  | nil => exact absurd hLines (splitOnPair_ne_nil _)
  | cons text pieces =>
    refine ⟨text, before, pieces ++ splitOnPair cr lf (escape after ++ [quote]) ++ later,
      prefix_of_splitOnPair_eq_cons hLines, ?_⟩
    rw [partLines, headTexts, List.map_cons, List.flatMap_cons, dispositionField, dispositionValue, hf]
    dsimp only
    rw [fieldText_filenameValue, splitOnPair_of_not_mem_append (cr_notMem_filenameValue hName), hEscape,
      splitOnPair_append_pair (by decide), hLines, List.cons_append, List.modifyHead_cons,
      ← fieldText_filenameValue]
    simp [later]

private theorem exists_cut (hNot : ¬ p.Framed boundary) (hName : cr ∉ utf8 p.name) (hColon : colon ∉ boundary)
    {next : Str} (hNext : utf8 "--" ++ boundary <+: next) (rest : List Str) :
    ∃ lines line rest', partLines p ++ next :: rest = lines ++ line :: rest' ∧
      (∀ line ∈ lines, ¬ utf8 "--" ++ boundary <+: line) ∧ utf8 "--" ++ boundary <+: line ∧ bodyPart lines = none := by
  by_cases hFile : ∀ filename ∈ p.filename, ¬ crlf <:+: utf8 filename
  · have hHeader : ∃ h ∈ p.headers, utf8 "--" ++ boundary <+: h.1.bytes := by
      by_contra hNone
      push Not at hNone
      exact hNot ⟨hFile, hNone⟩
    obtain ⟨header, hMem, hPrefix⟩ := hHeader
    have hText : fieldText (header.1.bytes, header.2.bytes) ∈ headTexts p := by
      apply List.mem_map_of_mem
      exact List.mem_cons_of_mem _ (List.mem_append_right _ (List.mem_map_of_mem hMem))
    obtain ⟨lines, line, after, hSplit, hFree, hLine⟩ :=
      exists_first_delimiter hText ((delimiter_field_iff hColon _).mpr hPrefix)
    refine ⟨lines, line, after ++ ([] :: splitOnPair cr lf (bodyBytes p.body) ++ next :: rest), ?_, hFree, hLine, ?_⟩
    · rw [partLines_eq hName hFile, hSplit]
      simp
    · -- the cut comes before the blank line
      apply bodyPart_of_no_blank
      intro text hText
      have hHead : text ∈ headTexts p := hSplit ▸ List.mem_append_left _ hText
      obtain ⟨field, -, rfl⟩ := List.mem_map.mp hHead
      exact fieldText_ne_nil field
  · push Not at hFile
    obtain ⟨filename, hf, hCrlf⟩ := hFile
    obtain ⟨text, before, more, hText, hLines⟩ := partLines_open hName hf hCrlf
    obtain ⟨lines, line, after, hSplit, hFree, hLine⟩ :=
      exists_first_delimiter (List.mem_append_right more List.mem_cons_self) hNext
    refine ⟨fieldText (utf8 "Content-Disposition", filenameValue p text) :: lines, line, after, ?_, ?_, hLine, ?_⟩
    · rw [hLines, List.cons_append, hSplit]
      rfl
    · exact List.forall_mem_cons.mpr ⟨not_delimiter_filenameValue _, hFree⟩
    · have hColon : colon ∉ utf8 "Content-Disposition" := by decide
      have hLower : toAsciiLowercase (utf8 "Content-Disposition") = utf8 "content-disposition" := by decide
      exact bodyPart_of_disposition (hLower ▸ headerField_text hColon _) (disposition_open p hText) lines

theorem bodyLines_cons (boundary : Str) (p : Part S) (parts : List (Part S)) :
    bodyLines boundary (p :: parts) = (utf8 "--" ++ boundary) :: partLines p ++ bodyLines boundary parts := by
  simp [bodyLines]

private theorem exists_bodyLines (boundary : Str) (parts : List (Part S)) :
    ∃ line rest, bodyLines boundary parts = line :: rest ∧ utf8 "--" ++ boundary <+: line := by
  cases parts with
  | nil => exact ⟨_, _, rfl, List.prefix_append _ _⟩
  | cons p parts => exact ⟨_, _, bodyLines_cons boundary p parts, List.prefix_rfl⟩

theorem parseLines_bodyLines_iff (hColon : colon ∉ boundary) {parts : List (Part S)}
    (hNames : ∀ p ∈ parts, cr ∉ utf8 p.name) (hData : ∀ p ∈ parts, ¬ boundary <:+: bodyBytes p.body) :
    parseLines (utf8 "--" ++ boundary) (bodyLines boundary parts) = some (parts.map Part.parsed) ↔
      ∀ p ∈ parts, p.Framed boundary := by
  induction parts with
  | nil =>
    have hClose : utf8 "--" <+: (utf8 "--" ++ boundary ++ utf8 "--").drop (utf8 "--" ++ boundary).length := by
      simp only [List.drop_left, List.prefix_rfl]
    rw [bodyLines, List.flatMap_nil, List.nil_append, parseLines_close (List.prefix_append _ _) hClose]
    simp
  | cons p parts ih =>
    obtain ⟨hName, hNames⟩ := List.forall_mem_cons.mp hNames
    obtain ⟨hPart, hData⟩ := List.forall_mem_cons.mp hData
    obtain ⟨next, rest, hRest, hNext⟩ := exists_bodyLines boundary parts
    have hIff := ih hNames hData
    rw [hRest] at hIff
    rw [bodyLines_cons, hRest, List.forall_mem_cons]
    by_cases hFramed : p.Framed boundary
    · rw [parseLines_part (hFramed.not_delimiter hName hColon hPart) hNext, bodyPart_partLines hName hFramed.filename,
        Option.bind_some, List.map_cons, ← hIff]
      cases parseLines (utf8 "--" ++ boundary) (next :: rest) <;> simp [hFramed]
    · obtain ⟨lines, line, rest', hCut, hFree, hLine, hNone⟩ := exists_cut hFramed hName hColon hNext rest
      rw [List.cons_append, hCut, ← List.cons_append, parseLines_part hFree hLine, hNone]
      simp [hFramed]

private theorem not_infix_of_ensure {draws : Nat → Vector UInt8 50} {mp mp' : Multipart S}
    (h : mp.ensureNoBoundaryCollision draws = some mp') :
    mp'.parts = mp.parts ∧ ∀ p ∈ mp.parts, ¬ mp'.boundary.bytes <:+: bodyBytes p.body := by
  have hLoop : ∀ (attempts : Nat) (draws : Nat → Vector UInt8 50) (mp : Multipart S),
      ensureLoop attempts draws mp = some mp' →
        mp'.parts = mp.parts ∧ ∀ p ∈ mp.parts, collides mp'.boundary.bytes p.body = false := by
    intro attempts
    induction attempts with
    | zero =>
      intro _ _ h
      cases h
    | succ attempts ih =>
      intro draws mp h
      rw [ensureLoop] at h
      split_ifs at h with hCollides
      · exact ih _ { mp with boundary := .random (draws 0) } h
      · obtain rfl := Option.some.inj h
        refine ⟨rfl, ?_⟩
        simpa using hCollides
  obtain ⟨hParts, hFree⟩ := hLoop 10 draws mp h
  refine ⟨hParts, fun p hp hInfix => ?_⟩
  have hFree := hFree p hp
  cases hBody : p.body with
  | bytes data =>
    rw [hBody] at hFree hInfix
    obtain ⟨tail, hPrefix, hTail⟩ := List.infix_iff_prefix_suffix.mp hInfix
    have hAny := List.any_eq_false.mp hFree tail ((List.mem_tails _ _).mpr hTail)
    exact hAny (List.isPrefixOf_iff_prefix.mpr hPrefix)
  | stream stream length =>
    rw [hBody] at hInfix
    exact mp'.boundary.nonempty (List.infix_nil.mp hInfix)

theorem Boundary.notMem {b : UInt8} (boundary : Boundary) (h : b ∉ boundaryChars) : b ∉ boundary.bytes :=
  fun hMem => h (boundary.valid b hMem)

/-- For every multipart body that the builders build of bytes: both encodings write the same
bytes, and a reader sees the parts exactly where every part is framed. -/
theorem round_trip_iff {mp mp' : Multipart S} {draws : Nat → Vector UInt8 50} (pollStream : S → Polled × S)
    (h : mp.Built) (hBytes : mp.isReplayable) (hEncode : mp.ensureNoBoundaryCollision draws = some mp') :
    ∃ body, mp.intoBody draws = .bytes body ∧ (mp.encoder draws).Writes pollStream body ∧
      (parse mp'.boundary.bytes body = some (mp.parts.map Part.parsed) ↔
        ∀ p ∈ mp.parts, p.Framed mp'.boundary.bytes) := by
  obtain ⟨hParts, hData⟩ := not_infix_of_ensure hEncode
  have hBytes' : mp'.isReplayable := by rwa [isReplayable, hParts]
  have hCr : cr ∉ mp'.boundary.bytes := mp'.boundary.notMem (by decide)
  have hColon : colon ∉ mp'.boundary.bytes := mp'.boundary.notMem (by decide)
  have hNames : ∀ p ∈ mp.parts, cr ∉ utf8 p.name := fun p hp => cr_notMem_fieldName (h.validName p hp)
  refine ⟨mp'.buffered, ?_, ?_, ?_⟩
  · rw [intoBody, hEncode]
    exact if_pos hBytes'
  · rw [encoder, hEncode]
    exact MultipartEncoder.new_writes mp' hBytes'
  · rw [parse, buffered, splitOnPair_encodeParts hCr, hParts]
    exact parseLines_bodyLines_iff hColon hNames hData

def boundaryB : Boundary where
  bytes := utf8 "b"
  nonempty := by decide
  length_le := by decide
  valid := by
    have hAll : (utf8 "b").all boundaryChars.contains = true := by decide
    exact fun b hb => List.contains_iff_mem.mp (List.all_eq_true.mp hAll b hb)

def injecting : Part Empty := (Part.new "a" (.bytes [])).withFilename "x\r\nX-Injected: 1"

def oneInjecting : Multipart Empty := ⟨boundaryB, [injecting]⟩

theorem filename_injects :
    ¬ ∀ (mp mp' : Multipart Empty) (draws : Nat → Vector UInt8 50) (body : Str), mp.Built → mp.isReplayable →
      mp.ensureNoBoundaryCollision draws = some mp' → mp.intoBody draws = .bytes body →
      parse mp'.boundary.bytes body = some (mp.parts.map Part.parsed) := by
  intro h
  have hAdd : (withBoundary boundaryB : Multipart Empty).part injecting = .ok oneInjecting := by decide
  have hBuilt : oneInjecting.Built := .part (.withBoundary boundaryB) hAdd
  have hEncode : ∀ draws, oneInjecting.ensureNoBoundaryCollision draws = some oneInjecting := fun _ => rfl
  have hParse := h oneInjecting oneInjecting (fun _ => .replicate 50 0) oneInjecting.buffered hBuilt (by decide)
    (hEncode _) rfl
  have hFails : parse oneInjecting.boundary.bytes oneInjecting.buffered = none := by decide
  rw [hFails] at hParse
  cases hParse

def oneText : Multipart Empty := ⟨boundaryB, [Part.new "a\\" (.bytes (utf8 "b"))]⟩

/-- Text that holds the boundary is encoded with another one, and read back. -/
theorem round_trip_iff_example :
    ∃ mp' body, oneText.ensureNoBoundaryCollision (fun _ => .replicate 50 0) = some mp' ∧
      oneText.intoBody (fun _ => .replicate 50 0) = .bytes body ∧
      parse mp'.boundary.bytes body = some (oneText.parts.map Part.parsed) := by
  have hAdd : (withBoundary boundaryB : Multipart Empty).text "a\\" "b" = .ok oneText := by decide
  have hBuilt : oneText.Built := .text (.withBoundary boundaryB) hAdd
  have hSome : (oneText.ensureNoBoundaryCollision (fun _ => .replicate 50 0)).isSome := by decide
  obtain ⟨mp', hEncode⟩ := Option.isSome_iff_exists.mp hSome
  obtain ⟨body, hBody, -, hIff⟩ := round_trip_iff Empty.elim hBuilt (by decide) hEncode
  refine ⟨mp', body, hEncode, hBody, hIff.mpr ?_⟩
  intro p hp
  obtain rfl := List.mem_singleton.mp hp
  exact ⟨(by intro _ h; cases h), (by intro _ h; cases h)⟩

end Eggfetch.Multipart
