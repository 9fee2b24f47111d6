import Eggfetch.Text.Transducer
import Mathlib.Data.List.Chain
import Mathlib.Data.List.Induction

/-! Texts whose lines end with a line feed, a carriage return, or both. -/
namespace Eggfetch.Text

inductive Terminator
  | lf
  | cr
  | crlf
deriving DecidableEq

def Terminator.text : Terminator → List Char
  | .lf => ['\n']
  | .cr => ['\r']
  | .crlf => ['\r', '\n']

/-- The state is the line that is not terminated, and whether the last symbol was a carriage return. -/
def lineCut : Transducer (List Char × Bool) Char (List Char) where
  step q c :=
    if c = '\n' then (if q.2 then ([], (q.1, false)) else ([q.1], ([], false)))
    else if c = '\r' then ([q.1], ([], true))
    else ([], (q.1 ++ [c], false))
  finish _ := []

def terminatedLines (text : List Char) : List (List Char) := (lineCut.scan ([], false) text).1

def unterminated (text : List Char) : List Char := (lineCut.scan ([], false) text).2.1

/-- Every terminator becomes `t`; the flag tells a line feed that belongs to a carriage return. -/
def replaceFrom (t : Terminator) : Bool → List Char → List Char
  | _, [] => []
  | afterReturn, c :: rest =>
    if c = '\n' then (if afterReturn then replaceFrom t false rest else t.text ++ replaceFrom t false rest)
    else if c = '\r' then t.text ++ replaceFrom t true rest
    else c :: replaceFrom t false rest

def replaceTerminators (t : Terminator) (text : List Char) : List Char := replaceFrom t false text

def writeLines (lines : List (List Char × Terminator)) : List Char := lines.flatMap fun line => line.1 ++ line.2.text

/-- The line feed of a blank line right after a carriage return would end no line of its own. -/
def Apart (lines : List (List Char × Terminator)) : Prop := lines.IsChain fun line next => line.2 = .cr → next ≠ ([], .lf)

section lineCut
variable {q : List Char × Bool} {held : List Char} {c : Char}

theorem lineCut_line_feed : lineCut.step (held, false) '\n' = ([held], ([], false)) := rfl

theorem lineCut_second : lineCut.step (held, true) '\n' = ([], (held, false)) := rfl

theorem lineCut_line_feed_flag (q : List Char × Bool) : (lineCut.step q '\n').2.2 = false := by
  obtain ⟨held, _ | _⟩ := q <;> rfl

theorem lineCut_return : lineCut.step q '\r' = ([q.1], ([], true)) := rfl

theorem lineCut_other (hn : c ≠ '\n') (hr : c ≠ '\r') : lineCut.step q c = ([], (q.1 ++ [c], false)) := by
  rw [lineCut]
  simp only [if_neg hn, if_neg hr]

/-- Only a line feed asks what came before it. -/
theorem scan_lineCut_of_head {text : List Char} (h : text.head? ≠ some '\n') (hText : text ≠ []) (a b : Bool) :
    lineCut.scan (held, a) text = lineCut.scan (held, b) text := by
  cases text with
  | nil => exact absurd rfl hText
  | cons c rest =>
    have hc : c ≠ '\n' := by simpa using h
    have hStep : lineCut.step (held, a) c = lineCut.step (held, b) c := by
      by_cases hr : c = '\r'
      · rw [hr, lineCut_return, lineCut_return]
      · rw [lineCut_other hc hr, lineCut_other hc hr]
    rw [Transducer.scan_cons, Transducer.scan_cons, hStep]

theorem afterReturn_iff (held text : List Char) :
    (lineCut.scan (held, false) text).2.2 = true ↔ text.getLast? = some '\r' := by
  induction text using List.reverseRecOn with
  | nil => simp
  | append_singleton text c _ =>
    rw [Transducer.scan_concat, List.getLast?_concat, Option.some_inj]
    by_cases hn : c = '\n'
    · subst hn
      simp [lineCut_line_feed_flag]
    · by_cases hr : c = '\r'
      · simp [hr, lineCut_return]
      · simp [lineCut_other hn hr, hr]

end lineCut

section replace
variable {t : Terminator}

/-- A terminator written after `held` ends that line; only a lone carriage return leaves the flag set. -/
theorem scan_terminator (t : Terminator) (held : List Char) (after : Bool) (h : after = true → t ≠ .lf) :
    lineCut.scan (held, after) t.text = ([held], ([], decide (t = .cr))) := by
  cases t with
  | lf =>
    cases after with
    | false => rfl
    | true => exact absurd rfl (h rfl)
  | cr => rfl
  | crlf => rfl

theorem scan_replaceFrom (t : Terminator) (text held : List Char) (before after : Bool) (h : after = true → t = .cr) :
    (lineCut.scan (held, after) (replaceFrom t before text)).1 = (lineCut.scan (held, before) text).1 ∧
    (lineCut.scan (held, after) (replaceFrom t before text)).2.1 = (lineCut.scan (held, before) text).2.1 := by
  induction text generalizing held before after with
  | nil => exact ⟨rfl, rfl⟩
  | cons c rest ih =>
    have hTerminator : ∀ next,
        (lineCut.scan (held, after) (t.text ++ replaceFrom t next rest)).1 =
          held :: (lineCut.scan ([], next) rest).1 ∧
        (lineCut.scan (held, after) (t.text ++ replaceFrom t next rest)).2.1 =
          (lineCut.scan ([], next) rest).2.1 := by
      intro next
      obtain ⟨hLines, hHeld⟩ := ih [] next (decide (t = .cr)) (by simp)
      rw [Transducer.scan_append, scan_terminator t held after fun hAfter => by simp [h hAfter]]
      exact ⟨congrArg (held :: ·) hLines, hHeld⟩
    rw [replaceFrom, Transducer.scan_cons]
    by_cases hn : c = '\n'
    · subst hn
      cases before with
      | true =>
        rw [lineCut_second]
        exact ih held false after h
      | false =>
        rw [lineCut_line_feed]
        exact hTerminator false
    · by_cases hr : c = '\r'
      · subst hr
        rw [lineCut_return]
        exact hTerminator true
      · rw [if_neg hn, if_neg hr, Transducer.scan_cons, lineCut_other hn hr, lineCut_other hn hr]
        exact ih (held ++ [c]) false false (by simp)

theorem terminatedLines_replace (text : List Char) :
    terminatedLines (replaceTerminators t text) = terminatedLines text :=
  (scan_replaceFrom t text [] false false (by simp)).1

theorem unterminated_replace (text : List Char) :
    unterminated (replaceTerminators t text) = unterminated text :=
  (scan_replaceFrom t text [] false false (by simp)).2

theorem line_feed_not_mem_replaceFrom (before : Bool) (text : List Char) : '\n' ∉ replaceFrom .cr before text := by
  induction text generalizing before with
  | nil => exact List.not_mem_nil
  | cons c rest ih =>
    rw [replaceFrom]
    split_ifs with hn hBefore hr
    · exact ih false
    · simpa [Terminator.text] using ih false
    · simpa [Terminator.text] using ih true
    · simpa [Ne.symm hn] using ih false

/-- Where only carriage returns end lines, a text that stops after a line stops after one of them. -/
theorem getLast?_of_terminated {text : List Char} (h : '\n' ∉ text) (hLines : terminatedLines text ≠ [])
    (hRest : unterminated text = []) : text.getLast? = some '\r' := by
  cases text using List.reverseRecOn with
  | nil => exact absurd rfl hLines
  | append_singleton text c =>
    rw [List.getLast?_concat]
    by_cases hr : c = '\r'
    · rw [hr]
    · have hn : c ≠ '\n' := by
        rintro rfl
        exact h (by simp)
      rw [unterminated, Transducer.scan_concat, lineCut_other hn hr] at hRest
      simp at hRest

end replace

private theorem scan_unbroken {line : List Char} (hFeed : '\n' ∉ line) (hReturn : '\r' ∉ line) (held : List Char) :
    lineCut.scan (held, false) line = ([], (held ++ line, false)) := by
  induction line generalizing held with
  | nil => rw [Transducer.scan_nil, List.append_nil]
  | cons c line ih =>
    obtain ⟨hc, hFeed⟩ := List.ne_and_not_mem_of_not_mem_cons hFeed
    obtain ⟨hr, hReturn⟩ := List.ne_and_not_mem_of_not_mem_cons hReturn
    rw [Transducer.scan_cons, lineCut_other hc.symm hr.symm, ih hFeed hReturn, List.append_assoc, List.singleton_append,
      List.nil_append]

private theorem scan_line {line : List Char} (hLine : '\n' ∉ line ∧ '\r' ∉ line) {t : Terminator} {after : Bool}
    (h : after = true → (line, t) ≠ ([], .lf)) :
    lineCut.scan ([], after) (line ++ t.text) = ([line], ([], decide (t = .cr))) := by
  cases line with
  | nil => exact scan_terminator t [] after fun hAfter hLf => h hAfter (by rw [hLf])
  | cons c rest =>
    have hHead : (c :: rest ++ t.text).head? ≠ some '\n' := by
      rw [List.cons_append, List.head?_cons]
      exact fun hc => hLine.1 (Option.some.inj hc ▸ List.mem_cons_self)
    rw [scan_lineCut_of_head hHead (List.cons_ne_nil _ _) after false]
    exact lineCut.scan_then (scan_unbroken hLine.1 hLine.2 []) (scan_terminator t (c :: rest) false nofun)

/-- Lines that are written apart are the lines of the text. -/
theorem scan_writeLines {lines : List (List Char × Terminator)} {after : Bool}
    (hLines : ∀ line ∈ lines, '\n' ∉ line.1 ∧ '\r' ∉ line.1)
    (hFirst : after = true → ∀ line ∈ lines.head?, line ≠ ([], .lf)) (hApart : Apart lines) :
    (lineCut.scan ([], after) (writeLines lines)).1 = lines.map Prod.fst ∧
    (lineCut.scan ([], after) (writeLines lines)).2.1 = [] := by
  induction lines generalizing after with
  | nil => exact ⟨rfl, rfl⟩
  | cons line rest ih =>
    obtain ⟨hLine, hRest⟩ := List.forall_mem_cons.mp hLines
    obtain ⟨hNext, hChain⟩ := List.isChain_cons.mp hApart
    obtain ⟨hMore, hHeld⟩ := ih hRest (fun hCr next hMem => hNext next hMem (of_decide_eq_true hCr)) hChain
    have hFirst := scan_line hLine fun hAfter => hFirst hAfter line rfl
    rw [writeLines, List.flatMap_cons, Transducer.scan_append, hFirst]
    exact ⟨congrArg (line.1 :: ·) hMore, hHeld⟩

end Eggfetch.Text
