import Eggfetch.Proxy.Head
import Eggfetch.Text.Split

/-! The head of a request as RFC 9112 has it parsed: the request line, then field lines up to an
empty line. -/
namespace Eggfetch.Proxy
open Text Http

structure RequestHead where
  method : Str
  target : Str
  version : Str
  fields : List (Str × Str)

def isLine (line : Str) : Bool := !line.contains cr && !line.contains lf

/-- The lines before the first empty one, and what comes after it. -/
def headLines (data : Str) : Option (List Str × Str) :=
  let lines := splitOnPair cr lf data
  match lines.dropWhile fun line => !line.isEmpty with
  | _ :: line :: rest =>
    let head := lines.takeWhile fun line => !line.isEmpty
    if head.all isLine then some (head, crlf.intercalate (line :: rest)) else none
  | _ => none

/-- `method SP request-target SP HTTP-version` -/
def parseRequestLine (line : Str) : Option (Str × Str × Str) :=
  match line.splitOn 0x20 with
  | [method, target, version] => some (method, target, version)
  | _ => none

/-- `field-name ":" OWS field-value OWS` -/
def parseFieldLine (line : Str) : Option (Str × Str) :=
  match line.idxOf? colon with
  | some i => if validateHeaderName (line.take i) then some (line.take i, trimOws (line.drop (i + 1))) else none
  | none => none

def parseRequestHead (data : Str) : Option (RequestHead × Str) :=
  match headLines data with
  | some (requestLine :: lines, rest) =>
    match parseRequestLine requestLine, lines.mapM parseFieldLine with
    | some (method, target, version), some fields => some (⟨method, target, version, fields⟩, rest)
    | _, _ => none
  | _ => none

section
variable {lines : List Str} {method target version : Str}

private theorem splitOnPair_head (h : ∀ line ∈ lines, cr ∉ line) (rest : Str) :
    splitOnPair cr lf (lines.flatMap (· ++ crlf) ++ rest) = lines ++ splitOnPair cr lf rest := by
  induction lines with
  | nil => rfl
  | cons line lines ih =>
    obtain ⟨hLine, hLines⟩ := List.forall_mem_cons.mp h
    have hText : (line :: lines).flatMap (· ++ crlf) ++ rest = line ++ cr :: lf :: (lines.flatMap (· ++ crlf) ++ rest) := by
      simp [crlf]
    rw [hText, splitOnPair_append lf hLine, ih hLines, List.cons_append]

theorem isLine_iff {line : Str} : isLine line = true ↔ cr ∉ line ∧ lf ∉ line := by
  simp [isLine]

theorem headLines_eq (h : ∀ line ∈ lines, isLine line = true ∧ line ≠ []) (rest : Str) :
    headLines (lines.flatMap (· ++ crlf) ++ (crlf ++ rest)) = some (lines, rest) := by
  have hBlank : splitOnPair cr lf (crlf ++ rest) = [] :: splitOnPair cr lf rest :=
    splitOnPair_append lf List.not_mem_nil rest
  have hNe : ∀ line ∈ lines, (!line.isEmpty) = true := by
    intro line hMem
    simpa using (h line hMem).2
  obtain ⟨piece, pieces, hRest⟩ := List.exists_cons_of_ne_nil (splitOnPair_ne_nil (a := cr) (b := lf) rest)
  have hWhole : crlf.intercalate (piece :: pieces) = rest := by
    rw [← hRest]
    exact intercalate_splitOnPair rest
  unfold headLines
  have hLines : lines.all isLine = true := List.all_eq_true.mpr fun line hMem => (h line hMem).1
  rw [splitOnPair_head fun line hMem => (isLine_iff.mp (h line hMem).1).1, hBlank, hRest]
  dsimp only
  rw [List.dropWhile_append_of_pos hNe, List.takeWhile_append_of_pos hNe]
  simp [hWhole, hLines]

def startLine (method target version : Str) : Str := method ++ 0x20 :: (target ++ 0x20 :: version)

theorem parseRequestLine_eq (hMethod : 0x20 ∉ method) (hTarget : 0x20 ∉ target) (hVersion : 0x20 ∉ version) :
    parseRequestLine (startLine method target version) = some (method, target, version) := by
  have hText : startLine method target version = [0x20].intercalate [method, target, version] := by
    simp [startLine, List.intercalate_cons_cons]
  have hParts : ∀ part ∈ [method, target, version], 0x20 ∉ part := by
    simp [hMethod, hTarget, hVersion]
  rw [parseRequestLine, hText, List.splitOn_intercalate 0x20 hParts (List.cons_ne_nil _ _)]

private theorem parseFieldLine_eq {name value : Str} (hName : validateHeaderName name = true) :
    parseFieldLine (name ++ colon :: value) = some (name, trimOws value) := by
  have hColon : colon ∉ name := fun hMem => (mem_of_validateHeaderName hName hMem).2.2.2.2 rfl
  have hDrop : (name ++ colon :: value).drop (name.length + 1) = value := by
    simp [List.drop_append, List.drop_of_length_le]
  rw [parseFieldLine, idxOf?_append_cons hColon]
  dsimp only
  rw [List.take_left, hName, hDrop]
  rfl

def fieldText (field : Str × Str) : Str := field.1 ++ colon :: 0x20 :: field.2

def trimmed (field : Str × Str) : Str × Str := (field.1, trimOws field.2)

private theorem mapM_parseFieldLine {fields : List (Str × Str)} (h : ∀ field ∈ fields, validateHeaderName field.1 = true) :
    (fields.map fieldText).mapM parseFieldLine = some (fields.map trimmed) := by
  induction fields with
  | nil => rfl
  | cons field fields ih =>
    obtain ⟨hField, hFields⟩ := List.forall_mem_cons.mp h
    have hSpace : trimOws (0x20 :: field.2) = trimOws field.2 := trimOws_cons (by decide)
    rw [List.map_cons, List.mapM_cons, ih hFields, fieldText, parseFieldLine_eq hField, hSpace]
    rfl

private theorem isLine_fieldText {field : Str × Str} (hName : validateHeaderName field.1 = true)
    (hValue : isLine field.2 = true) :
    isLine (fieldText field) = true := by
  obtain ⟨hCr, hLf⟩ := isLine_iff.mp hValue
  have hNameCr : cr ∉ field.1 := fun hMem => (mem_of_validateHeaderName hName hMem).2.2.1 rfl
  have hNameLf : lf ∉ field.1 := fun hMem => (mem_of_validateHeaderName hName hMem).2.2.2.1 rfl
  have hCrNe : cr ≠ colon ∧ cr ≠ 0x20 := by decide
  have hLfNe : lf ≠ colon ∧ lf ≠ 0x20 := by decide
  exact isLine_iff.mpr ⟨by simp [fieldText, hNameCr, hCrNe, hCr], by simp [fieldText, hNameLf, hLfNe, hLf]⟩

theorem isLine_startLine :
    isLine (startLine method target version) = true ↔
      isLine method = true ∧ isLine target = true ∧ isLine version = true := by
  have hCr : cr ≠ 0x20 := by decide
  have hLf : lf ≠ 0x20 := by decide
  simp only [isLine_iff, startLine, List.mem_append, List.mem_cons, not_or, hCr, hLf, not_false_eq_true, true_and]
  tauto

/-- A head that is written as its grammar has it is parsed as what was written. -/
theorem parseRequestHead_eq {fields : List (Str × Str)} (hMethod : 0x20 ∉ method) (hTarget : 0x20 ∉ target)
    (hVersion : 0x20 ∉ version) (hLine : isLine (startLine method target version) = true)
    (hFields : ∀ field ∈ fields, validateHeaderName field.1 = true ∧ isLine field.2 = true) (rest : Str) :
    parseRequestHead (startLine method target version ++ crlf ++
        ((fields.map fieldText).flatMap (· ++ crlf) ++ (crlf ++ rest))) =
      some (⟨method, target, version, fields.map trimmed⟩, rest) := by
  have hLines : ∀ line ∈ fields.map fieldText, isLine line = true ∧ line ≠ [] := by
    intro line hMem
    obtain ⟨field, hField, rfl⟩ := List.mem_map.mp hMem
    exact ⟨isLine_fieldText (hFields field hField).1 (hFields field hField).2, by simp [fieldText]⟩
  have hAll : ∀ line ∈ startLine method target version :: fields.map fieldText, isLine line = true ∧ line ≠ [] :=
    List.forall_mem_cons.mpr ⟨⟨hLine, by simp [startLine]⟩, hLines⟩
  have hHead := headLines_eq hAll rest
  rw [List.flatMap_cons, List.append_assoc] at hHead
  have hParsed := mapM_parseFieldLine fun field hMem => (hFields field hMem).1
  rw [parseRequestHead, hHead]
  dsimp only
  rw [parseRequestLine_eq hMethod hTarget hVersion, hParsed]

private theorem headLines_isLine {data rest : Str} {lines : List Str} (h : headLines data = some (lines, rest)) :
    ∀ line ∈ lines, isLine line = true := by
  unfold headLines at h
  dsimp only at h
  split at h
  · split_ifs at h with hAll
    cases h
    exact List.all_eq_true.mp hAll
  · cases h

private theorem parseRequestLine_parts {line : Str} (h : parseRequestLine line = some (method, target, version)) :
    line = startLine method target version ∧ 0x20 ∉ target := by
  unfold parseRequestLine at h
  split at h
  · rename_i first second third hSplit
    cases h
    have hWhole : [0x20].intercalate (line.splitOn 0x20) = line := List.intercalate_splitOn 0x20
    have hParts : ∀ part ∈ line.splitOn 0x20, 0x20 ∉ part := fun part => not_mem_of_mem_splitOn
    rw [hSplit] at hWhole hParts
    refine ⟨?_, hParts target (by simp)⟩
    rw [← hWhole]
    simp [startLine, List.intercalate_cons_cons]
  · cases h

/-- The target of a head that is parsed holds no space and no line end. -/
theorem parseRequestHead_target {data rest : Str} {head : RequestHead} (h : parseRequestHead data = some (head, rest)) :
    0x20 ∉ head.target ∧ isLine head.target = true := by
  unfold parseRequestHead at h
  split at h
  · rename_i first lines rest' hHead
    split at h
    · rename_i method target version fields hLine hFields
      cases h
      obtain ⟨rfl, hSpace⟩ := parseRequestLine_parts hLine
      have hFirst := headLines_isLine hHead _ List.mem_cons_self
      exact ⟨hSpace, (isLine_startLine.mp hFirst).2.1⟩
    · cases h
  · cases h

end

end Eggfetch.Proxy
