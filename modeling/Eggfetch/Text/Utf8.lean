import Eggfetch.Text.Bytes
import Eggfetch.Text.Transducer

/-! UTF-8 as the standard library checks it: `from_utf8` with the place and kind of its
first error, and `from_utf8_lossy`, which writes U+FFFD for each maximal prefix of a
sequence that does not go on. -/
namespace Eggfetch.Text.Utf8

/-- How many bytes a sequence that starts with `b` has; 0 when none starts with it. -/
def width (b : UInt8) : Nat :=
  if b ≤ 0x7f then 1
  else if 0xc2 ≤ b ∧ b ≤ 0xdf then 2
  else if 0xe0 ≤ b ∧ b ≤ 0xef then 3
  else if 0xf0 ≤ b ∧ b ≤ 0xf4 then 4
  else 0

def isTail (b : UInt8) : Bool := 0x80 ≤ b && b ≤ 0xbf

/-- The second bytes of a sequence that starts with `lead`; overlong forms, surrogates and
code points above U+10FFFF are left out. -/
def isSecond (lead b : UInt8) : Bool :=
  if lead = 0xe0 then 0xa0 ≤ b && b ≤ 0xbf
  else if lead = 0xed then 0x80 ≤ b && b ≤ 0x9f
  else if lead = 0xf0 then 0x90 ≤ b && b ≤ 0xbf
  else if lead = 0xf4 then 0x80 ≤ b && b ≤ 0x8f
  else isTail b

/-- Whether `b` goes on with the sequence begun by `t`. -/
def continues : Str → UInt8 → Bool
  | [], _ => false
  | [lead], b => isSecond lead b
  | _, b => isTail b

def replacement : Str := [0xef, 0xbf, 0xbd]

/-- A byte at a character boundary: what is written, and the sequence begun. -/
def start (b : UInt8) : Str × Str :=
  match width b with
  | 0 => (replacement, [])
  | 1 => ([b], [])
  | _ => ([], [b])

/-- A byte after the incomplete sequence `t`. -/
def step (t : Str) (b : UInt8) : Str × Str :=
  match t with
  | [] => start b
  | lead :: _ =>
    if continues t b then
      if t.length + 1 = width lead then (t ++ [b], []) else ([], t ++ [b])
    else (replacement ++ (start b).1, (start b).2)

def flush (t : Str) : Str := if t = [] then [] else replacement

def machine : Transducer Str UInt8 UInt8 where
  step := step
  finish := flush

def fromUtf8Lossy (s : Str) : Str := machine.total [] s

structure Utf8Error where
  validUpTo : Nat
  /-- `none` when the input ends inside a sequence. -/
  errorLen : Option Nat
  deriving DecidableEq, Repr

/-- The first error of `s` after `pos` valid bytes and the incomplete sequence `t`. -/
def firstError (pos : Nat) (t : Str) : Str → Option Utf8Error
  | [] => if t = [] then none else some ⟨pos, none⟩
  | b :: s =>
    match t with
    | [] =>
      match width b with
      | 0 => some ⟨pos, some 1⟩
      | 1 => firstError (pos + 1) [] s
      | _ => firstError pos [b] s
    | lead :: _ =>
      if continues t b then
        if t.length + 1 = width lead then firstError (pos + (t.length + 1)) [] s
        else firstError pos (t ++ [b]) s
      else some ⟨pos, some t.length⟩

/-- The error of `str::from_utf8`, if it returns one. -/
def fromUtf8 (s : Str) : Option Utf8Error := firstError 0 [] s

/-- The bytes that are not continuation bytes: one for each character of a text. -/
def leads (s : Str) : Nat := s.countP fun b => !isTail b

@[simp] theorem leads_nil : leads [] = 0 := rfl

@[simp] theorem leads_append (s t : Str) : leads (s ++ t) = leads s + leads t :=
  List.countP_append

@[simp] theorem leads_replacement : leads replacement = 1 := by decide

theorem leads_singleton_le (b : UInt8) : leads [b] ≤ 1 := List.countP_le_length

private theorem isTail_of_isSecond {lead b : UInt8} (h : isSecond lead b) : isTail b := by
  simp only [isSecond] at h
  split_ifs at h <;>
    simp only [isTail, Bool.and_eq_true, decide_eq_true_eq, UInt8.le_iff_toNat_le,
      UInt8.reduceToNat] at h ⊢ <;>
    omega

theorem isTail_of_continues {t : Str} {b : UInt8} (h : continues t b) : isTail b := by
  match t, h with
  | [_], h => exact isTail_of_isSecond h
  | _ :: _ :: _, h => exact h

theorem width_of_isTail {b : UInt8} (h : isTail b) : width b = 0 := by
  simp only [isTail, Bool.and_eq_true, decide_eq_true_eq, UInt8.le_iff_toNat_le,
    UInt8.reduceToNat] at h
  simp only [width, UInt8.le_iff_toNat_le, UInt8.reduceToNat]
  split_ifs <;> omega

theorem leads_tail {b : UInt8} (h : isTail b) : leads [b] = 0 := by
  simp [leads, h]

@[simp] theorem machine_step : machine.step = step := rfl

@[simp] theorem machine_finish : machine.finish = flush := rfl

theorem start_of_width_zero {b : UInt8} (h : width b = 0) : start b = (replacement, []) := by
  simp only [start, h]

theorem start_of_width_one {b : UInt8} (h : width b = 1) : start b = ([b], []) := by
  simp only [start, h]

theorem start_of_wide {b : UInt8} (h0 : width b ≠ 0) (h1 : width b ≠ 1) :
    start b = ([], [b]) := by
  simp only [start]

theorem step_cons (lead : UInt8) (t : Str) (b : UInt8) :
    step (lead :: t) b =
      if continues (lead :: t) b then
        if (lead :: t).length + 1 = width lead then (lead :: t ++ [b], []) else ([], lead :: t ++ [b])
      else (replacement ++ (start b).1, (start b).2) := rfl

theorem step_last {lead b : UInt8} {t : Str} (hcont : continues (lead :: t) b)
    (hlast : (lead :: t).length + 1 = width lead) :
    step (lead :: t) b = (lead :: t ++ [b], []) := by
  rw [step_cons, if_pos hcont, if_pos hlast]

theorem step_more {lead b : UInt8} {t : Str} (hcont : continues (lead :: t) b)
    (hlast : (lead :: t).length + 1 ≠ width lead) :
    step (lead :: t) b = ([], lead :: t ++ [b]) := by
  rw [step_cons, if_pos hcont, if_neg hlast]

theorem step_broken {t : Str} (ht : t ≠ []) {b : UInt8} (hb : ¬ continues t b) :
    step t b = (replacement ++ (start b).1, (start b).2) := by
  cases t with
  | nil => exact absurd rfl ht
  | cons lead t => rw [step_cons, if_neg hb]

/-- The states the machine reaches: an incomplete sequence with at most one character
begun, which a scan from a boundary leads back to. -/
structure Incomplete (t : Str) : Prop where
  leads_le : leads t ≤ 1
  scan_self : machine.scan [] t = ([], t)

theorem incomplete_nil : Incomplete [] := ⟨by simp, rfl⟩

private theorem incomplete_start (b : UInt8) : Incomplete (start b).2 := by
  by_cases h0 : width b = 0
  · rw [start_of_width_zero h0]
    exact incomplete_nil
  · by_cases h1 : width b = 1
    · rw [start_of_width_one h1]
      exact incomplete_nil
    · rw [start_of_wide h0 h1]
      refine ⟨leads_singleton_le b, ?_⟩
      simp [step, start_of_wide h0 h1]

theorem incomplete_step (t : Str) (b : UInt8) (ht : Incomplete t) : Incomplete (step t b).2 := by
  cases t with
  | nil => exact incomplete_start b
  | cons lead t =>
    by_cases hcont : continues (lead :: t) b
    · by_cases hlast : (lead :: t).length + 1 = width lead
      · rw [step_last hcont hlast]
        exact incomplete_nil
      · rw [step_more hcont hlast]
        refine ⟨?_, ?_⟩
        · rw [leads_append, leads_tail (isTail_of_continues hcont)]
          exact ht.leads_le
        · rw [Transducer.scan_append, ht.scan_self, Transducer.scan_cons, machine_step,
            step_more hcont hlast]
          rfl
    · rw [step_broken (List.cons_ne_nil lead t) hcont]
      exact incomplete_start b

theorem incomplete_scan (s : Str) {t : Str} (ht : Incomplete t) :
    Incomplete (machine.scan t s).2 :=
  machine.scan_invariant incomplete_step s ht

/-- A scan may be started over from the sequence it is inside. -/
theorem Incomplete.scan_append {t : Str} (ht : Incomplete t) (s : Str) :
    machine.scan [] (t ++ s) = machine.scan t s := by
  rw [Transducer.scan_append, ht.scan_self, List.nil_append]

theorem total_of_not_continues {t : Str} (ht : t ≠ []) {b : UInt8} (hb : ¬ continues t b)
    (s : Str) : machine.total t (b :: s) = flush t ++ machine.total [] (b :: s) := by
  rw [Transducer.total_cons, Transducer.total_cons, machine_step, step_broken ht hb, flush,
    if_neg ht, List.append_assoc]
  rfl

private theorem leads_flush_le (t : Str) : leads (flush t) ≤ 1 := by
  simp only [flush]
  split_ifs <;> simp

/-- At most one character is lost by reading `s` inside a sequence, and none of them when
the sequence goes on. -/
theorem leads_total (s : Str) {t : Str} (ht : leads t ≤ 1) :
    leads (machine.total t s) ≤ 1 + leads (machine.total [] s) ∧
      ∀ b s', s = b :: s' → continues t b →
        leads (machine.total t s) < 1 + leads (machine.total [] s) := by
  induction s generalizing t with
  | nil =>
    refine ⟨?_, by simp⟩
    rw [Transducer.total_nil]
    exact (leads_flush_le t).trans (Nat.le_add_right 1 _)
  | cons b s ih =>
    by_cases hcont : continues t b
    · have htail := isTail_of_continues hcont
      have hown : machine.total [] (b :: s) = replacement ++ machine.total [] s := by
        rw [Transducer.total_cons, machine_step, step, start_of_width_zero (width_of_isTail htail)]
      have hless : leads (machine.total t (b :: s)) < 1 + leads (machine.total [] (b :: s)) := by
        rw [hown, leads_append, leads_replacement, Transducer.total_cons, machine_step]
        match t, hcont with
        | lead :: t, hcont =>
          have hle : leads (lead :: t ++ [b]) ≤ 1 := by
            rw [leads_append, leads_tail htail]
            exact ht
          by_cases hlast : (lead :: t).length + 1 = width lead
          · rw [step_last hcont hlast, leads_append]
            show leads (lead :: t ++ [b]) + leads (machine.total [] s) < _
            omega
          · rw [step_more hcont hlast, List.nil_append]
            have : leads (machine.total (lead :: t ++ [b]) s) ≤ _ := (ih hle).1
            show leads (machine.total (lead :: t ++ [b]) s) < _
            omega
      exact ⟨hless.le, fun _ _ _ _ => hless⟩
    · refine ⟨?_, ?_⟩
      · by_cases hnil : t = []
        · rw [hnil]
          omega
        · rw [total_of_not_continues hnil hcont, leads_append]
          have := leads_flush_le t
          omega
      · intro b' s' heq hb'
        rw [List.cons.injEq] at heq
        rw [heq.1] at hcont
        exact absurd hb' hcont

/-- Whether the text after the incomplete sequence `t` goes on with it. -/
def goesOn (t : Str) (more : Str) : Bool := more.head?.any (continues t)

theorem flush_append_of_not_goesOn {t s : Str} (h : ¬ goesOn t s) :
    flush t ++ machine.total [] s = machine.total t s := by
  by_cases ht : t = []
  · rw [ht]
    rfl
  · cases s with
    | nil => exact List.append_nil _
    | cons b s =>
      rw [total_of_not_continues ht]
      simpa [goesOn] using h

/-- Giving up a sequence early never saves a character. -/
theorem leads_total_le_flush {t : Str} (ht : Incomplete t) (s : Str) :
    leads (machine.total t s) ≤ leads (flush t) + leads (machine.total [] s) := by
  by_cases hnil : t = []
  · rw [hnil]
    exact Nat.le_add_left _ _
  · rw [flush, if_neg hnil, leads_replacement]
    exact (leads_total s ht.leads_le).1

/-- Giving up a sequence that goes on adds a character. -/
theorem leads_total_lt_flush {t s : Str} (ht : Incomplete t) (h : goesOn t s) :
    leads (machine.total t s) < leads (flush t) + leads (machine.total [] s) := by
  cases s with
  | nil => simp [goesOn] at h
  | cons b s =>
    have hcont : continues t b := by simpa [goesOn] using h
    have hnil : t ≠ [] := by
      rintro rfl
      simp [continues] at hcont
    rw [flush, if_neg hnil, leads_replacement]
    exact (leads_total (b :: s) ht.leads_le).2 b s rfl hcont

theorem firstError_end (pos : Nat) (t : Str) : firstError pos t [] = if t = [] then none else some ⟨pos, none⟩ := rfl

theorem firstError_cons (pos : Nat) (lead : UInt8) (t : Str) (b : UInt8) (s : Str) :
    firstError pos (lead :: t) (b :: s) =
      if continues (lead :: t) b then
        if (lead :: t).length + 1 = width lead then firstError (pos + ((lead :: t).length + 1)) [] s
        else firstError pos (lead :: t ++ [b]) s
      else some ⟨pos, some (lead :: t).length⟩ := rfl

theorem firstError_last {lead b : UInt8} {t : Str} (hcont : continues (lead :: t) b)
    (hlast : (lead :: t).length + 1 = width lead) (pos : Nat) (s : Str) :
    firstError pos (lead :: t) (b :: s) = firstError (pos + ((lead :: t).length + 1)) [] s := by
  rw [firstError_cons, if_pos hcont, if_pos hlast]

theorem firstError_more {lead b : UInt8} {t : Str} (hcont : continues (lead :: t) b)
    (hlast : (lead :: t).length + 1 ≠ width lead) (pos : Nat) (s : Str) :
    firstError pos (lead :: t) (b :: s) = firstError pos (lead :: t ++ [b]) s := by
  rw [firstError_cons, if_pos hcont, if_neg hlast]

theorem firstError_broken {t : Str} (ht : t ≠ []) {b : UInt8} (hb : ¬ continues t b)
    (pos : Nat) (s : Str) : firstError pos t (b :: s) = some ⟨pos, some t.length⟩ := by
  cases t with
  | nil => exact absurd rfl ht
  | cons lead t => rw [firstError_cons, if_neg hb]

theorem firstError_nil (pos : Nat) (b : UInt8) (s : Str) :
    firstError pos [] (b :: s) =
      if width b = 0 then some ⟨pos, some 1⟩
      else if width b = 1 then firstError (pos + 1) [] s
      else firstError pos [b] s := by
  rw [firstError]
  split
  · rename_i h0
    rw [if_pos h0]
  · rename_i h1
    rw [if_neg (by omega), if_pos h1]
  · rename_i h0 h1
    rw [if_neg h0, if_neg h1]

private theorem firstError_ascii {s : Str} (h : ∀ b ∈ s, b < 0x80) (pos : Nat) : firstError pos [] s = none := by
  induction s generalizing pos with
  | nil => rfl
  | cons b s ih =>
    have hwidth : width b = 1 := by
      have hb := h b List.mem_cons_self
      simp only [UInt8.lt_iff_toNat_lt, UInt8.reduceToNat] at hb
      rw [width, if_pos]
      simp only [UInt8.le_iff_toNat_le, UInt8.reduceToNat]
      omega
    rw [firstError_nil, if_neg (by omega), if_pos hwidth]
    exact ih (fun c hc => h c (List.mem_cons_of_mem _ hc)) (pos + 1)

theorem fromUtf8_ascii {s : Str} (h : ∀ b ∈ s, b < 0x80) : fromUtf8 s = none := firstError_ascii h 0

private theorem scan_of_firstError_none {pos : Nat} {t s : Str} (h : firstError pos t s = none) :
    machine.scan t s = (t ++ s, []) := by
  induction s generalizing pos t with
  | nil =>
    simp only [firstError_end, ite_eq_left_iff, reduceCtorEq, imp_false, not_not] at h
    simp [h]
  | cons b s ih =>
    rw [Transducer.scan_cons, machine_step]
    cases t with
    | nil =>
      rw [firstError_nil] at h
      split_ifs at h with h0 h1
      · rw [step, start_of_width_one h1, ih h]
        rfl
      · rw [step, start_of_wide h0 h1, ih h]
        rfl
    | cons lead t =>
      by_cases hcont : continues (lead :: t) b
      · by_cases hlast : (lead :: t).length + 1 = width lead
        · rw [firstError_last hcont hlast] at h
          rw [step_last hcont hlast, ih h]
          simp
        · rw [firstError_more hcont hlast] at h
          rw [step_more hcont hlast, ih h]
          simp
      · rw [firstError_broken (List.cons_ne_nil lead t) hcont] at h
        exact absurd h (by simp)

/-- An input whose first error is its end: the valid text before it, which a scan writes as
it is, and the incomplete sequence, which it keeps. -/
theorem scan_of_firstError_end {pos v : Nat} {t s : Str} (ht : Incomplete t)
    (h : firstError pos t s = some ⟨v, none⟩) :
    ∃ valid rest, t ++ s = valid ++ rest ∧ v = pos + valid.length ∧
      machine.scan t s = (valid, rest) ∧ machine.scan [] valid = (valid, []) := by
  induction s generalizing pos t with
  | nil =>
    rw [firstError_end] at h
    split_ifs at h with hnil
    simp only [Option.some.injEq, Utf8Error.mk.injEq, and_true] at h
    exact ⟨[], t, by simp, by simp [h], rfl, rfl⟩
  | cons b s ih =>
    have hnext := incomplete_step t b ht
    rw [Transducer.scan_cons, machine_step]
    cases t with
    | nil =>
      rw [step] at hnext ⊢
      rw [firstError_nil] at h
      split_ifs at h with h0 h1
      · exact absurd h (by simp)
      · obtain ⟨valid, rest, hsplit, hv, hscan, hvalid⟩ := ih incomplete_nil h
        refine ⟨b :: valid, rest, by simpa using hsplit, by simp [hv]; omega, ?_, ?_⟩
        · rw [start_of_width_one h1, hscan]
          rfl
        · rw [Transducer.scan_cons, machine_step, step, start_of_width_one h1, hvalid]
          rfl
      · rw [start_of_wide h0 h1] at hnext ⊢
        obtain ⟨valid, rest, hsplit, hv, hscan, hvalid⟩ := ih hnext h
        refine ⟨valid, rest, by simpa using hsplit, hv, ?_, hvalid⟩
        rw [hscan]
        rfl
    | cons lead t =>
      by_cases hcont : continues (lead :: t) b
      · by_cases hlast : (lead :: t).length + 1 = width lead
        · rw [firstError_last hcont hlast] at h
          obtain ⟨valid, rest, hsplit, hv, hscan, hvalid⟩ := ih incomplete_nil h
          rw [step_last hcont hlast]
          refine ⟨lead :: t ++ [b] ++ valid, rest, by simpa using hsplit, ?_, ?_, ?_⟩
          · rw [hv, List.length_append, List.length_append, List.length_singleton]
            omega
          · rw [hscan]
          · rw [List.append_assoc, ht.scan_append, List.singleton_append, Transducer.scan_cons,
              machine_step, step_last hcont hlast, hvalid]
            simp
        · rw [firstError_more hcont hlast] at h
          rw [step_more hcont hlast] at hnext ⊢
          obtain ⟨valid, rest, hsplit, hv, hscan, hvalid⟩ := ih hnext h
          refine ⟨valid, rest, by simpa using hsplit, hv, ?_, hvalid⟩
          rw [hscan]
          rfl
      · rw [firstError_broken (List.cons_ne_nil lead t) hcont] at h
        simp at h

/-- A valid text is its own lossy text. -/
theorem scan_of_fromUtf8_none {s : Str} (h : fromUtf8 s = none) : machine.scan [] s = (s, []) :=
  scan_of_firstError_none h

/-- The part up to an incomplete end is a text, and the scan writes it and keeps the end. -/
theorem scan_of_fromUtf8_end {s : Str} {v : Nat} (h : fromUtf8 s = some ⟨v, none⟩) :
    machine.scan [] s = (s.take v, s.drop v) ∧ fromUtf8Lossy (s.take v) = s.take v := by
  obtain ⟨valid, rest, hsplit, hv, hscan, hvalid⟩ := scan_of_firstError_end incomplete_nil h
  rw [List.nil_append] at hsplit
  rw [Nat.zero_add] at hv
  rw [hv, hsplit, List.take_left, List.drop_left, ← hsplit]
  refine ⟨hscan, ?_⟩
  rw [fromUtf8Lossy, Transducer.total, hvalid]
  exact List.append_nil valid

/-- One more byte of well-formed text, whose code points are kept last first. -/
def pushByte (codes : List Nat) (b : UInt8) : List Nat :=
  if isTail b then
    match codes with
    | [] => []
    | code :: rest => (64 * code + b.toNat % 64) :: rest
  else if b < 0x80 then b.toNat :: codes
  else if b < 0xe0 then b.toNat % 32 :: codes
  else if b < 0xf0 then b.toNat % 16 :: codes
  else b.toNat % 8 :: codes

/-- `chars` of well-formed text. -/
def chars (s : Str) : List Char := (s.foldl pushByte []).reverse.map Char.ofNat

example : chars [0x61, 0xc2, 0x9b, 0xe2, 0x82, 0xac] = ['a', '\u009b', '\u20ac'] := by decide

end Eggfetch.Text.Utf8
