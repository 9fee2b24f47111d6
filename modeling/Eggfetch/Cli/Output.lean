import Eggfetch.Text.Markers
import Eggfetch.Text.Slices

/-! Credentials in messages and URLs that are printed: `output.rs` of the command line tool, and the copy of
`redact_credentials` at the C interface (`handle.rs`). -/
namespace Eggfetch.Cli
open Text

def isMark (b : UInt8) : Bool := [0x3f, 0x23].contains b

def redactedMark : Str := utf8 "<redacted>@"

/-- What ends the search for an `@`: `/`, a blank and the quotes. -/
def isTerminator (b : UInt8) : Bool := [0x2f, 0x20, 0x22, 0x27].contains b

def terminator (rest : Str) : Nat := ([0x2f, 0x20, 0x22, 0x27].filterMap (rest.idxOf? ·)).min?.getD rest.length

/-- The loop, from what is written so far and where the search goes on; `none` when the fuel is used up. -/
def redactFrom : Nat → Str → Nat → Option Str
  | 0, _, _ => none
  | fuel + 1, result, searchFrom =>
    match find (utf8 "://") (result.drop searchFrom) with
    | none => some result
    | some schemePos =>
      let userinfoStart := searchFrom + schemePos + 3
      let rest := result.drop userinfoStart
      match rest.idxOf? 0x40 with
      | none => some result
      | some atPos =>
        if atPos < terminator rest then
          let result := result.take userinfoStart ++ redactedMark ++ result.drop (userinfoStart + atPos + 1)
          let searchFrom := userinfoStart + redactedMark.length
          if result.length ≤ searchFrom then some result else redactFrom fuel result searchFrom
        else if result.length ≤ userinfoStart then some result
        else redactFrom fuel result userinfoStart

namespace Output

/-- `redact_credentials` of `output.rs` -/
def redactCredentials (message : Str) : Option Str := redactFrom (message.length + 1) message 0

def safeUrlForDisplay (url : Str) : Str :=
  let authorityStart := (find (utf8 "://") url).elim 0 (· + 3)
  let front := url.take authorityStart
  let rest := url.drop authorityStart
  let afterUserinfo :=
    match rest.idxOf? 0x40 with
    | some atPos =>
      let slash := (rest.idxOf? 0x2f).getD rest.length
      if atPos < slash then rest.drop (atPos + 1) else rest
    | none => rest
  let hostEnd := afterUserinfo.findIdx ([0x2f, 0x3f, 0x23].contains ·)
  let hostPort := afterUserinfo.take hostEnd
  let path := afterUserinfo.drop hostEnd
  let pathEnd := path.findIdx isMark
  front ++ hostPort ++ path.take pathEnd

end Output

namespace Handle

/-- `redact_credentials` of `handle.rs` -/
def redactCredentials (message : Str) : Option Str := redactFrom (message.length + 1) message 0

end Handle

def isStop (b : UInt8) : Bool := [0x2f, 0x3f, 0x23, 0x20, 0x22, 0x27].contains b

/-- What follows a `://`, up to the next one: the authority, with the userinfo up to its last `@`, and the rest. -/
structure Link where
  userinfo : Option Str
  host : Str
  tail : Str
  userinfo_free : ∀ u ∈ userinfo, ∀ b ∈ u, isStop b = false
  host_free : ∀ b ∈ host, isStop b = false
  host_bare : 0x40 ∉ host
  tail_stop : ∀ b ∈ tail.head?, isStop b = true
  unmarked : ¬ utf8 "://" <:+: userinfo.elim [] (· ++ [0x40]) ++ host ++ tail

namespace Link

def text (link : Link) : Str := link.userinfo.elim [] (· ++ [0x40]) ++ link.host ++ link.tail

def redacted (link : Link) : Str := link.userinfo.elim [] (fun _ => redactedMark) ++ link.host ++ link.tail

/-- No `@` in a userinfo; and without one, none in the query or fragment before its first `/`, blank or quote. -/
def Clear (link : Link) : Prop :=
  link.userinfo.elim (0x40 ∉ link.tail.takeWhile (!isTerminator ·)) (0x40 ∉ ·)

end Link

structure Message where
  lead : Str
  links : List Link
  unmarked : ¬ utf8 "://" <:+: lead

namespace Message

def text (m : Message) : Str := m.lead ++ marked (utf8 "://") (m.links.map Link.text)

def redacted (m : Message) : Str := m.lead ++ marked (utf8 "://") (m.links.map Link.redacted)

def Clear (m : Message) : Prop := ∀ link ∈ m.links, link.Clear

end Message

/-- `scheme://[userinfo@]host[:port][/path]`, and what follows from the first `?` or `#`. -/
structure Location where
  scheme : Str
  userinfo : Option Str
  host : Str
  path : Str
  suffix : Str
  scheme_free : 0x3a ∉ scheme
  userinfo_free : ∀ u ∈ userinfo, ∀ b ∈ u, isStop b = false
  host_free : ∀ b ∈ host, isStop b = false
  host_bare : 0x40 ∉ host
  path_slash : ∀ b ∈ path.head?, b = 0x2f
  path_free : ∀ b ∈ path, isMark b = false
  suffix_mark : ∀ b ∈ suffix.head?, isMark b = true

namespace Location

def text (url : Location) : Str :=
  url.scheme ++ utf8 "://" ++ (url.userinfo.elim [] (· ++ [0x40]) ++ url.host ++ url.path ++ url.suffix)

def shown (url : Location) : Str := url.scheme ++ utf8 "://" ++ (url.host ++ url.path)

/-- No `@` in the userinfo; and with neither userinfo nor path, none in the query or fragment before a `/`, unless what
stands behind it happens to start with the host again. -/
def Clear (url : Location) : Prop :=
  (∀ u ∈ url.userinfo, 0x40 ∉ u) ∧
  (url.userinfo = none → url.path = [] → 0x40 ∈ url.suffix.takeWhile (· != 0x2f) →
    ((url.suffix.dropWhile (· != 0x40)).tail.takeWhile (!isMark ·)) = url.host)

end Location

/-- Printed messages and URLs show no credentials, and all the rest of them. -/
structure HidesCredentials : Prop where
  cli : ∀ m : Message, Output.redactCredentials m.text = some m.redacted
  ffi : ∀ m : Message, Handle.redactCredentials m.text = some m.redacted
  display : ∀ url : Location, Output.safeUrlForDisplay url.text = url.shown

section
variable {a t : UInt8} {x y body : Str} {bodies : List Str}

theorem unbordered_scheme : Unbordered (utf8 "://") := by decide

theorem scheme_ne_nil : utf8 "://" ≠ [] := by decide

theorem scheme_bare : 0x40 ∉ utf8 "://" := by decide

theorem scheme_eq : utf8 "://" = [0x3a, 0x2f, 0x2f] := by decide

/-- The first `t` stands behind an `a` if there is none before. -/
theorem lt_idxOf?_getD (hNe : t ≠ a) : x.length < ((x ++ a :: y).idxOf? t).getD (x ++ a :: y).length ↔ t ∉ x := by
  constructor
  · intro hLess hMem
    obtain ⟨p, q, rfl, hp⟩ := List.eq_append_cons_of_mem hMem
    rw [List.append_assoc, List.cons_append, idxOf?_append_cons hp, Option.getD_some, List.length_append] at hLess
    exact absurd (Nat.lt_of_le_of_lt (Nat.le_add_right _ _) hLess) (Nat.lt_irrefl _)
  · intro hNot
    cases hFound : (x ++ a :: y).idxOf? t with
    | none =>
      rw [Option.getD_none, List.length_append, List.length_cons]
      omega
    | some i =>
      rw [Option.getD_some]
      obtain ⟨hi, hAt, -⟩ := List.idxOf?_eq_some_iff.mp hFound
      refine Nat.lt_of_not_le fun hLess => ?_
      rcases hLess.lt_or_eq with hBefore | rfl
      · rw [List.getElem_append_left hBefore] at hAt
        exact hNot (hAt ▸ List.getElem_mem hBefore)
      · rw [List.getElem_append_right (Nat.le_refl _), List.getElem_cons] at hAt
        exact hNe ((dif_pos (Nat.sub_self _)).symm.trans hAt).symm

private theorem lt_min?_getD {f : UInt8 → Option Nat} {ts : List UInt8} {i d : Nat} (h : i < d) :
    i < (ts.filterMap f).min?.getD d ↔ ∀ t ∈ ts, i < (f t).getD d := by
  have hEach : (∀ t ∈ ts, i < (f t).getD d) ↔ ∀ j ∈ ts.filterMap f, i < j := by
    constructor
    · intro hAll j hj
      obtain ⟨t, ht, hf⟩ := List.mem_filterMap.mp hj
      have hLess := hAll t ht
      rwa [hf] at hLess
    · intro hAll t ht
      cases hf : f t with
      | none => exact h
      | some j => exact hAll j (List.mem_filterMap.mpr ⟨t, ht, hf⟩)
  rw [hEach]
  cases hMin : (ts.filterMap f).min? with
  | none =>
    rw [List.min?_eq_none_iff.mp hMin]
    exact iff_of_true h (List.forall_mem_nil _)
  | some m =>
    obtain ⟨hMem, hLeast⟩ := List.min?_eq_some_iff.mp hMin
    exact ⟨fun hLess j hj => Nat.lt_of_lt_of_le hLess (hLeast j hj), fun hAll => hAll m hMem⟩

private theorem lt_terminator : x.length < terminator (x ++ 0x40 :: y) ↔ ∀ b ∈ x, isTerminator b = false := by
  have hInside : x.length < (x ++ 0x40 :: y).length := by
    rw [List.length_append, List.length_cons]
    omega
  rw [terminator, lt_min?_getD hInside]
  have hBare : ∀ t ∈ [0x2f, 0x20, 0x22, 0x27], t ≠ (0x40 : UInt8) := by
    intro t ht
    simp only [List.mem_cons, List.not_mem_nil, or_false] at ht
    rcases ht with rfl | rfl | rfl | rfl <;> decide
  constructor
  · intro hAll b hb
    refine Bool.eq_false_iff.mpr fun hTerminator => ?_
    have hMem := List.contains_iff_mem.mp hTerminator
    exact (lt_idxOf?_getD (hBare b hMem)).mp (hAll b hMem) hb
  · intro hFree t ht
    refine (lt_idxOf?_getD (hBare t ht)).mpr fun hMem => ?_
    exact absurd (List.contains_iff_mem.mpr ht) (Bool.eq_false_iff.mp (hFree t hMem))

/-- What the loop makes of what stands behind a `://`. -/
def coded (body : Str) : Str :=
  if 0x40 ∈ body.takeWhile (!isTerminator ·) then redactedMark ++ (body.dropWhile (· != 0x40)).tail else body

theorem tail_dropWhile_at (hx : 0x40 ∉ x) : ((x ++ 0x40 :: y).dropWhile (· != 0x40)).tail = y := by
  have hPass : ∀ b ∈ x, (b != 0x40) = true := by
    intro b hb
    refine bne_iff_ne.mpr ?_
    rintro rfl
    exact hx hb
  rw [List.dropWhile_append_of_pos hPass, List.dropWhile_cons, if_neg (by decide), List.tail_cons]

theorem mem_front (hx : ∀ b ∈ x, isTerminator b = false) : 0x40 ∈ (x ++ 0x40 :: y).takeWhile (!isTerminator ·) := by
  rw [List.takeWhile_append_of_pos fun b hb => by rw [hx b hb, Bool.not_false], List.takeWhile_cons, if_pos (by decide)]
  exact List.mem_append_right _ List.mem_cons_self

theorem front_cut (h : 0x40 ∈ body.takeWhile (!isTerminator ·)) :
    ∃ x y, body = x ++ 0x40 :: y ∧ 0x40 ∉ x ∧ ∀ b ∈ x, isTerminator b = false := by
  obtain ⟨x, y, hFront, hx⟩ := List.eq_append_cons_of_mem h
  refine ⟨x, y ++ body.dropWhile (!isTerminator ·), ?_, hx, fun b hb => ?_⟩
  · conv_lhs => rw [← List.takeWhile_append_dropWhile (p := (!isTerminator ·)) (l := body), hFront]
    rw [List.append_assoc, List.cons_append]
  · have hMem : b ∈ body.takeWhile (!isTerminator ·) := hFront ▸ List.mem_append_left _ hb
    exact (Bool.not_eq_true' _).mp (@List.mem_takeWhile_imp _ (!isTerminator ·) _ _ hMem)

theorem coded_cut (hx : 0x40 ∉ x) (hFree : ∀ b ∈ x, isTerminator b = false) : coded (x ++ 0x40 :: y) = redactedMark ++ y := by
  rw [coded, if_pos (mem_front hFree), tail_dropWhile_at hx]

private theorem coded_bare (h : 0x40 ∉ body) : coded body = body := if_neg fun hMem => h ((List.takeWhile_prefix _).subset hMem)

private theorem map_coded_bare (h : 0x40 ∉ marked (utf8 "://") bodies) : bodies.map coded = bodies := by
  refine (List.map_congr_left fun body hBody => ?_).trans (List.map_id bodies)
  exact coded_bare fun hMem => h (List.mem_flatMap.mpr ⟨body, hBody, List.mem_append_right _ hMem⟩)

private theorem mem_front_of_append (hSplit : body ++ marked (utf8 "://") bodies = x ++ 0x40 :: y)
    (hFree : ∀ b ∈ x, isTerminator b = false) : 0x40 ∈ body.takeWhile (!isTerminator ·) := by
  have hStart : ∀ z w, marked (utf8 "://") bodies = z ++ 0x40 :: w → ∃ b ∈ z, isTerminator b = true := by
    intro z w hRest
    cases bodies with
    | nil => exact absurd hRest.symm (by simp [marked])
    | cons next bodies =>
      rw [marked_cons, scheme_eq] at hRest
      cases z with
      | nil => exact absurd (List.cons.inj hRest).1 (by decide)
      | cons b z =>
        obtain ⟨-, hRest⟩ := List.cons.inj hRest
        cases z with
        | nil => exact absurd (List.cons.inj hRest).1 (by decide)
        | cons c z =>
          obtain ⟨rfl, -⟩ := List.cons.inj hRest
          exact ⟨_, List.mem_cons_of_mem _ List.mem_cons_self, by decide⟩
  rcases List.append_eq_append_iff.mp hSplit with ⟨z, rfl, hRest⟩ | ⟨z, rfl, hRest⟩
  · obtain ⟨b, hb, hTerminator⟩ := hStart z y hRest
    rw [hFree b (List.mem_append_right _ hb)] at hTerminator
    cases hTerminator
  · cases z with
    | nil =>
      obtain ⟨b, hb, -⟩ := hStart [] y hRest.symm
      cases hb
    | cons b z =>
      obtain ⟨rfl, -⟩ := List.cons.inj hRest
      exact mem_front hFree

private theorem redactFrom_marked {fuel : Nat} (front : Str) (hx : ¬ utf8 "://" <:+: x)
    (hBodies : ∀ body ∈ bodies, ¬ utf8 "://" <:+: body)
    (hFuel : bodies.length < fuel) : redactFrom fuel (front ++ (x ++ marked (utf8 "://") bodies)) front.length =
      some (front ++ (x ++ marked (utf8 "://") (bodies.map coded))) := by
  induction bodies generalizing front x fuel with
  | nil =>
    obtain ⟨fuel, rfl⟩ := Nat.exists_eq_add_one.mpr hFuel
    rw [redactFrom, List.drop_left, find_marked unbordered_scheme hx]
    rfl
  | cons body bodies ih =>
    obtain ⟨fuel, rfl⟩ := Nat.exists_eq_add_one.mpr (Nat.zero_lt_of_lt hFuel)
    obtain ⟨hBody, hLater⟩ := List.forall_mem_cons.mp hBodies
    have hLess : bodies.length < fuel := Nat.lt_of_succ_lt_succ hFuel
    obtain ⟨start, hStart⟩ : ∃ start, start = front ++ x ++ utf8 "://" := ⟨_, rfl⟩
    have hLength : front.length + x.length + 3 = start.length := by
      rw [hStart, List.length_append, List.length_append, scheme_eq]
      rfl
    have hText : front ++ (x ++ marked (utf8 "://") (body :: bodies)) = start ++ (body ++ marked (utf8 "://") bodies) := by
      rw [hStart, marked_cons]
      simp only [List.append_assoc]
    have hCoded : front ++ (x ++ marked (utf8 "://") ((body :: bodies).map coded)) =
        start ++ (coded body ++ marked (utf8 "://") (bodies.map coded)) := by
      rw [hStart, List.map_cons, marked_cons]
      simp only [List.append_assoc]
    rw [redactFrom, List.drop_left, find_marked unbordered_scheme hx, List.head?_cons, Option.map_some]
    simp only [hLength, hText, List.drop_left, hCoded]
    by_cases hFront : 0x40 ∈ body.takeWhile (!isTerminator ·)
    · obtain ⟨y, z, rfl, hy, hFree⟩ := front_cut hFront
      have hBehind : ¬ utf8 "://" <:+: z := fun hInfix =>
        hBody (hInfix.trans ((List.suffix_cons _ z).trans (List.suffix_append y _)).isInfix)
      have hDrop : (start ++ (y ++ 0x40 :: (z ++ marked (utf8 "://") bodies))).drop (start.length + y.length + 1) =
          z ++ marked (utf8 "://") bodies := by
        rw [Nat.add_assoc, List.drop_length_add_append, List.drop_length_add_append, List.drop_succ_cons, List.drop_zero]
      have hHere : start.length + redactedMark.length = (start ++ redactedMark).length := List.length_append.symm
      rw [List.append_assoc, List.cons_append, idxOf?_append_cons hy, coded_cut hy hFree]
      simp only [if_pos (lt_terminator.mpr hFree), List.take_left, hDrop, hHere]
      have hGoal : start ++ (redactedMark ++ z ++ marked (utf8 "://") (bodies.map coded)) =
          start ++ redactedMark ++ (z ++ marked (utf8 "://") (bodies.map coded)) := by
        simp only [List.append_assoc]
      rw [hGoal]
      split
      · next hEnd =>
        rw [map_coded_bare]
        intro hMem
        have hSome := List.length_pos_of_mem hMem
        rw [@List.length_append _ (start ++ redactedMark), @List.length_append _ z] at hEnd
        omega
      · exact ih (start ++ redactedMark) hBehind hLater hLess
    · have hSame : coded body = body := if_neg hFront
      rw [hSame]
      cases hAt : (body ++ marked (utf8 "://") bodies).idxOf? 0x40 with
      | none =>
        have hBare := List.idxOf?_eq_none_iff.mp hAt
        rw [map_coded_bare fun hMem => hBare (List.mem_append_right _ hMem)]
      | some i =>
        obtain ⟨hSplit, -, hi⟩ := idxOf?_eq_some_append hAt
        have hLate : ¬ i < terminator (body ++ marked (utf8 "://") bodies) := by
          intro hEarly
          have hTake : i = ((body ++ marked (utf8 "://") bodies).take i).length := by rw [List.length_take, Nat.min_eq_left hi.le]
          rw [← hSplit] at hEarly
          nth_rewrite 1 [hTake] at hEarly
          exact hFront (mem_front_of_append hSplit.symm (lt_terminator.mp hEarly))
        simp only [if_neg hLate]
        split
        · next hEnd =>
          rw [map_coded_bare]
          intro hMem
          have hSome := List.length_pos_of_mem hMem
          rw [List.length_append, List.length_append] at hEnd
          omega
        · exact ih start hBody hLater hLess

private theorem length_le_marked (bodies : List Str) : bodies.length ≤ (marked (utf8 "://") bodies).length := by
  induction bodies with
  | nil => exact Nat.le_refl 0
  | cons body bodies ih =>
    have hMark := List.length_pos_of_ne_nil scheme_ne_nil
    rw [marked_cons, List.length_cons, List.length_append, List.length_append]
    omega

theorem redactFrom_message (m : Message) :
    redactFrom (m.text.length + 1) m.text 0 = some (m.lead ++ marked (utf8 "://") ((m.links.map Link.text).map coded)) := by
  have hBodies : ∀ body ∈ m.links.map Link.text, ¬ utf8 "://" <:+: body := by
    intro body hBody
    obtain ⟨link, -, rfl⟩ := List.mem_map.mp hBody
    exact link.unmarked
  refine redactFrom_marked [] m.unmarked hBodies (Nat.lt_succ_of_le ((length_le_marked _).trans ?_))
  rw [Message.text, List.length_append]
  exact Nat.le_add_left _ _

theorem mark_split : redactedMark = utf8 "<redacted>" ++ [0x40] := by decide

theorem unmarked_mark (h : ¬ utf8 "://" <:+: x) : ¬ utf8 "://" <:+: redactedMark ++ x := by
  rw [mark_split, List.append_assoc, List.singleton_append]
  intro hInfix
  rcases infix_of_append_cons scheme_bare hInfix with hMark | hBehind
  · revert hMark
    decide
  · exact h hBehind

theorem unmarked_coded (h : ¬ utf8 "://" <:+: body) : ¬ utf8 "://" <:+: coded body := by
  by_cases hFront : 0x40 ∈ body.takeWhile (!isTerminator ·)
  · obtain ⟨x, y, rfl, hx, hFree⟩ := front_cut hFront
    rw [coded_cut hx hFree]
    exact unmarked_mark fun hInfix => h (hInfix.trans ((List.suffix_cons _ y).trans (List.suffix_append x _)).isInfix)
  · rw [coded, if_neg hFront]
    exact h

private theorem isTerminator_of_stop {b : UInt8} (h : isStop b = false) : isTerminator b = false := by
  rw [← Bool.not_eq_true] at h ⊢
  intro hTerminator
  refine h (List.contains_iff_mem.mpr ?_)
  have hMem := List.contains_iff_mem.mp hTerminator
  simp only [List.mem_cons, List.not_mem_nil, or_false] at hMem ⊢
  rcases hMem with rfl | rfl | rfl | rfl <;> simp

namespace Link

theorem unmarked_redacted (link : Link) : ¬ utf8 "://" <:+: link.redacted := by
  have hText := link.unmarked
  rw [redacted]
  cases hUserinfo : link.userinfo with
  | none =>
    rw [hUserinfo] at hText
    exact hText
  | some u =>
    rw [hUserinfo, Option.elim_some, List.append_assoc] at hText
    rw [Option.elim_some, List.append_assoc]
    exact unmarked_mark fun hInfix => hText (hInfix.trans (List.suffix_append _ _).isInfix)

private theorem coded_ne (hHost : ∀ b ∈ x, isStop b = false) (hBare : 0x40 ∉ x) (hTail : ∀ b ∈ y.head?, isStop b = true)
    (h : 0x40 ∈ (x ++ y).takeWhile (!isTerminator ·)) : coded (x ++ y) ≠ x ++ y := by
  obtain ⟨p, q, hCut, hp, hFree⟩ := front_cut h
  rw [hCut, coded_cut hp hFree, mark_split, List.append_assoc, List.singleton_append]
  intro hEq
  obtain rfl := List.append_cancel_right hEq
  have hAuthority : (x ++ y).takeWhile (!isStop ·) = x :=
    takeWhile_until (fun b hb => by rw [hHost b hb, Bool.not_false]) fun b hb => by rw [hTail b hb, Bool.not_true]
  have hMark : ∀ b ∈ utf8 "<redacted>", (!isStop b) = true := by decide +kernel
  rw [hCut, List.takeWhile_append_of_pos hMark, List.takeWhile_cons, if_pos (by decide)] at hAuthority
  exact hBare (hAuthority ▸ List.mem_append_right _ List.mem_cons_self)

theorem coded_iff (link : Link) : coded link.text = link.redacted ↔ link.Clear := by
  cases hUserinfo : link.userinfo with
  | none =>
    have hText : link.text = link.host ++ link.tail := by rw [text, hUserinfo]; rfl
    have hRedacted : link.redacted = link.host ++ link.tail := by rw [redacted, hUserinfo]; rfl
    have hFront : 0x40 ∈ (link.host ++ link.tail).takeWhile (!isTerminator ·) ↔ 0x40 ∈ link.tail.takeWhile (!isTerminator ·) := by
      have hHost : ∀ b ∈ link.host, (!isTerminator b) = true := fun b hb => by
        rw [isTerminator_of_stop (link.host_free b hb), Bool.not_false]
      rw [List.takeWhile_append_of_pos hHost, List.mem_append]
      exact or_iff_right fun hMem => link.host_bare hMem
    rw [hText, hRedacted, Clear, hUserinfo, Option.elim_none, ← hFront]
    refine ⟨fun hEq hMem => coded_ne link.host_free link.host_bare link.tail_stop hMem hEq, fun hNot => if_neg hNot⟩
  | some u =>
    have hFree : ∀ b ∈ u, isTerminator b = false := fun b hb => isTerminator_of_stop (link.userinfo_free u hUserinfo b hb)
    have hText : link.text = u ++ 0x40 :: (link.host ++ link.tail) := by
      rw [text, hUserinfo, Option.elim_some, List.append_assoc, List.append_assoc, List.singleton_append]
    have hRedacted : link.redacted = redactedMark ++ (link.host ++ link.tail) := by
      rw [redacted, hUserinfo, Option.elim_some, List.append_assoc]
    rw [hText, hRedacted, Clear, hUserinfo, Option.elim_some]
    by_cases hAt : 0x40 ∈ u
    · refine iff_of_false (fun hEq => ?_) fun hNot => hNot hAt
      obtain ⟨p, q, rfl, hp⟩ := List.eq_append_cons_of_mem hAt
      rw [List.append_assoc, List.cons_append, coded_cut hp fun b hb => hFree b (List.mem_append_left _ hb)] at hEq
      have hLength := congrArg List.length (List.append_cancel_left hEq)
      rw [List.length_append, List.length_cons] at hLength
      omega
    · exact iff_of_true (coded_cut hAt hFree) hAt

private theorem exists_text (hBody : ¬ utf8 "://" <:+: body) : ∃ link : Link, link.text = body := by
  have hFree : ∀ b ∈ body.takeWhile (!isStop ·), isStop b = false := fun b hb =>
    (Bool.not_eq_true' _).mp (@List.mem_takeWhile_imp _ (!isStop ·) _ _ hb)
  have hTail : ∀ b ∈ (body.dropWhile (!isStop ·)).head?, isStop b = true := by
    intro b hb
    have hNot := List.head?_dropWhile_not (!isStop ·) body
    rw [hb] at hNot
    exact (Bool.not_eq_false' _).mp hNot
  by_cases hAt : 0x40 ∈ body.takeWhile (!isStop ·)
  · obtain ⟨q, p, hReverse, hq⟩ := List.eq_append_cons_of_mem (List.mem_reverse.mpr hAt)
    have hSplit : body.takeWhile (!isStop ·) = p.reverse ++ 0x40 :: q.reverse := by
      rw [← List.reverse_reverse (body.takeWhile _), hReverse, List.reverse_append, List.reverse_cons, List.append_assoc,
        List.singleton_append]
    have hText : p.reverse ++ [0x40] ++ q.reverse ++ body.dropWhile (!isStop ·) = body := by
      conv_rhs => rw [← List.takeWhile_append_dropWhile (p := (!isStop ·)) (l := body), hSplit]
      rw [List.append_assoc p.reverse, List.singleton_append]
    exact ⟨⟨some p.reverse, q.reverse, body.dropWhile (!isStop ·),
      fun u hu b hb => hFree b (hSplit ▸ List.mem_append_left _ (Option.some.inj hu ▸ hb)),
      fun b hb => hFree b (hSplit ▸ List.mem_append_right _ (List.mem_cons_of_mem _ hb)),
      fun hMem => hq (List.mem_reverse.mp hMem), hTail, by rw [Option.elim_some, hText]; exact hBody⟩, hText⟩
  · have hText : body.takeWhile (!isStop ·) ++ body.dropWhile (!isStop ·) = body := List.takeWhile_append_dropWhile
    exact ⟨⟨none, body.takeWhile (!isStop ·), body.dropWhile (!isStop ·), fun u hu => (by cases hu), hFree, hAt, hTail,
      by rw [Option.elim_none, List.nil_append, hText]; exact hBody⟩, hText⟩

end Link

namespace Message

theorem redact_iff (m : Message) : redactFrom (m.text.length + 1) m.text 0 = some m.redacted ↔ m.Clear := by
  have hCoded : ∀ piece ∈ (m.links.map Link.text).map coded, ¬ utf8 "://" <:+: piece := by
    intro piece hPiece
    obtain ⟨body, hBody, rfl⟩ := List.mem_map.mp hPiece
    obtain ⟨link, -, rfl⟩ := List.mem_map.mp hBody
    exact unmarked_coded link.unmarked
  have hRedacted : ∀ piece ∈ m.links.map Link.redacted, ¬ utf8 "://" <:+: piece := by
    intro piece hPiece
    obtain ⟨link, -, rfl⟩ := List.mem_map.mp hPiece
    exact link.unmarked_redacted
  rw [redactFrom_message, redacted, Option.some_inj, List.map_map]
  constructor
  · intro hEq
    rw [← List.map_map] at hEq
    obtain ⟨-, hPieces⟩ := marked_inj unbordered_scheme scheme_ne_nil m.unmarked m.unmarked hCoded hRedacted hEq
    rw [List.map_map] at hPieces
    exact fun link hLink => link.coded_iff.mp (List.map_inj_left.mp hPieces link hLink)
  · intro hClear
    rw [List.map_congr_left fun link hLink => link.coded_iff.mpr (hClear link hLink)]

theorem exists_text (s : Str) : ∃ m : Message, m.text = s := by
  obtain ⟨lead, bodies, rfl, hLead, hBodies⟩ := exists_marked scheme_ne_nil s
  have hLinks : ∃ links : List Link, links.map Link.text = bodies := by
    clear hLead
    induction bodies with
    | nil => exact ⟨[], rfl⟩
    | cons body bodies ih =>
      obtain ⟨hBody, hLater⟩ := List.forall_mem_cons.mp hBodies
      obtain ⟨link, rfl⟩ := Link.exists_text hBody
      obtain ⟨links, rfl⟩ := ih hLater
      exact ⟨link :: links, rfl⟩
  obtain ⟨links, rfl⟩ := hLinks
  exact ⟨⟨lead, links, hLead⟩, rfl⟩

end Message

private theorem take_findIdx_findIdx {p q : UInt8 → Bool} (h : ∀ b, q b = true → p b = true) (s : Str) :
    s.take (s.findIdx p) ++ (s.drop (s.findIdx p)).take ((s.drop (s.findIdx p)).findIdx q) = s.takeWhile (!q ·) := by
  induction s with
  | nil => rfl
  | cons b s ih =>
    rw [List.findIdx_cons]
    cases hp : p b with
    | true =>
      rw [cond_true, List.take_zero, List.drop_zero, List.nil_append, List.takeWhile_eq_take_findIdx_not]
      simp only [Bool.not_not]
    | false =>
      have hq : q b = false := Bool.eq_false_iff.mpr fun hTrue => Bool.eq_false_iff.mp hp (h b hTrue)
      rw [cond_false, List.take_succ_cons, List.drop_succ_cons, List.takeWhile_cons, hq, Bool.not_false, if_pos rfl, ← ih,
        List.cons_append]

/-- What stands behind the first `@`, if that stands before the first `/`. -/
def stripped (rest : Str) : Str :=
  if 0x40 ∈ rest.takeWhile (· != 0x2f) then (rest.dropWhile (· != 0x40)).tail else rest

theorem stripped_cut (hx : 0x40 ∉ x) (hSlash : 0x2f ∉ x) : stripped (x ++ 0x40 :: y) = y := by
  have hPass : ∀ b ∈ x, (b != 0x2f) = true := by
    intro b hb
    refine bne_iff_ne.mpr ?_
    rintro rfl
    exact hSlash hb
  rw [stripped, tail_dropWhile_at hx, if_pos]
  rw [List.takeWhile_append_of_pos hPass, List.takeWhile_cons, if_pos (by decide)]
  exact List.mem_append_right _ List.mem_cons_self

theorem stripped_slash (hx : 0x40 ∉ x) : stripped (x ++ 0x2f :: y) = x ++ 0x2f :: y := by
  refine if_neg fun hMem => ?_
  by_cases hSlash : 0x2f ∈ x
  · obtain ⟨p, q, rfl, hp⟩ := List.eq_append_cons_of_mem hSlash
    rw [List.append_assoc, List.cons_append, takeWhile_cut hp] at hMem
    exact hx (List.mem_append_left _ hMem)
  · rw [takeWhile_cut hSlash] at hMem
    exact hx hMem

theorem safeUrlForDisplay_eq (hScheme : 0x3a ∉ x) (rest : Str) :
    Output.safeUrlForDisplay (x ++ (utf8 "://" ++ rest)) = x ++ utf8 "://" ++ (stripped rest).takeWhile (!isMark ·) := by
  have hFound : find (utf8 "://") (x ++ (utf8 "://" ++ rest)) = some x.length := by
    rw [scheme_eq]
    exact find_append hScheme
  have hStart : x.length + 3 = (x ++ utf8 "://").length := by
    rw [List.length_append, scheme_eq]
    rfl
  have hAfter : (match rest.idxOf? 0x40 with
      | some atPos => if atPos < (rest.idxOf? 0x2f).getD rest.length then rest.drop (atPos + 1) else rest
      | none => rest) = stripped rest := by
    cases hAt : rest.idxOf? 0x40 with
    | none => exact (if_neg fun hMem => List.idxOf?_eq_none_iff.mp hAt ((List.takeWhile_prefix _).subset hMem)).symm
    | some i =>
      obtain ⟨hSplit, hNot, hi⟩ := idxOf?_eq_some_append hAt
      have hTake : (rest.take i).length = i := by rw [List.length_take, Nat.min_eq_left hi.le]
      have hLess := @lt_idxOf?_getD 0x40 0x2f (rest.take i) (rest.drop (i + 1)) (by decide)
      rw [hSplit, hTake] at hLess
      by_cases hSlash : 0x2f ∈ rest.take i
      · obtain ⟨p, q, hCut, -⟩ := List.eq_append_cons_of_mem hSlash
        have hBare : 0x40 ∉ p := fun hMem => hNot (hCut ▸ List.mem_append_left _ hMem)
        have hStripped := @stripped_slash p (q ++ 0x40 :: rest.drop (i + 1)) hBare
        rw [← List.cons_append, ← List.append_assoc, ← hCut, hSplit] at hStripped
        simp only [if_neg fun h => hLess.mp h hSlash, hStripped]
      · have hStripped := @stripped_cut (rest.take i) (rest.drop (i + 1)) hNot hSlash
        rw [hSplit] at hStripped
        simp only [if_pos (hLess.mpr hSlash), hStripped]
  have hCut := @take_findIdx_findIdx ([0x2f, 0x3f, 0x23].contains ·) isMark (by
    intro b hb
    have hMem := List.contains_iff_mem.mp hb
    exact List.contains_iff_mem.mpr (List.mem_cons_of_mem _ hMem)) (stripped rest)
  rw [Output.safeUrlForDisplay, hFound, Option.elim_some, hStart, ← List.append_assoc, List.take_left, List.drop_left]
  simp only [hAfter]
  rw [List.append_assoc, hCut]

namespace Location

theorem takeWhile_suffix (url : Location) (hx : ∀ b ∈ x, isMark b = false) : (x ++ url.suffix).takeWhile (!isMark ·) = x :=
  takeWhile_until (fun b hb => by rw [hx b hb, Bool.not_false]) fun b hb => by rw [url.suffix_mark b hb, Bool.not_true]

theorem isMark_of_stop {b : UInt8} (h : isStop b = false) : isMark b = false := by
  refine Bool.eq_false_iff.mpr fun hMark => Bool.eq_false_iff.mp h (List.contains_iff_mem.mpr ?_)
  have hMem := List.contains_iff_mem.mp hMark
  simp only [List.mem_cons, List.not_mem_nil, or_false] at hMem ⊢
  rcases hMem with rfl | rfl <;> simp

theorem unmarked (url : Location) : ∀ b ∈ url.host ++ url.path, isMark b = false := by
  intro b hb
  rcases List.mem_append.mp hb with hHost | hPath
  · exact isMark_of_stop (url.host_free b hHost)
  · exact url.path_free b hPath

private theorem stripped_iff (url : Location) :
    (stripped (url.userinfo.elim [] (· ++ [0x40]) ++ url.host ++ url.path ++ url.suffix)).takeWhile (!isMark ·) =
      url.host ++ url.path ↔ url.Clear := by
  cases hUserinfo : url.userinfo with
  | none =>
    rw [Option.elim_none, List.nil_append, Clear, hUserinfo]
    have hNone : ∀ u ∈ (none : Option Str), 0x40 ∉ u := fun u hu => by cases hu
    cases hPath : url.path with
    | cons b path =>
      obtain rfl := url.path_slash b (by rw [hPath]; rfl)
      refine iff_of_true ?_ ⟨hNone, fun _ hNil => by cases hNil⟩
      rw [List.append_assoc url.host, List.cons_append, stripped_slash url.host_bare, ← List.cons_append, ← List.append_assoc,
        url.takeWhile_suffix (hPath ▸ url.unmarked)]
    | nil =>
      rw [List.append_nil]
      have hHost : ∀ b ∈ url.host, isMark b = false := fun b hb => url.unmarked b (List.mem_append_left _ hb)
      have hFront : 0x40 ∈ (url.host ++ url.suffix).takeWhile (· != 0x2f) ↔ 0x40 ∈ url.suffix.takeWhile (· != 0x2f) := by
        have hPass : ∀ b ∈ url.host, (b != 0x2f) = true := by
          intro b hb
          refine bne_iff_ne.mpr ?_
          rintro rfl
          exact absurd (url.host_free _ hb) (by decide)
        rw [List.takeWhile_append_of_pos hPass, List.mem_append]
        exact or_iff_right fun hMem => url.host_bare hMem
      by_cases hAt : 0x40 ∈ url.suffix.takeWhile (· != 0x2f)
      · have hPass : ∀ b ∈ url.host, (b != 0x40) = true := by
          intro b hb
          refine bne_iff_ne.mpr ?_
          rintro rfl
          exact url.host_bare hb
        rw [stripped, if_pos (hFront.mpr hAt), List.dropWhile_append_of_pos hPass]
        exact ⟨fun hEq => ⟨hNone, fun _ _ _ => hEq⟩, fun hClear => hClear.2 rfl rfl hAt⟩
      · rw [stripped, if_neg (mt hFront.mp hAt), url.takeWhile_suffix hHost]
        exact iff_of_true rfl ⟨hNone, fun _ _ hMem => absurd hMem hAt⟩
  | some u =>
    have hSlash : 0x2f ∉ u := fun hMem => absurd (url.userinfo_free u hUserinfo _ hMem) (by decide)
    have hMarks : ∀ b ∈ u, isMark b = false := fun b hb => isMark_of_stop (url.userinfo_free u hUserinfo b hb)
    have hRest : u ++ [0x40] ++ url.host ++ url.path ++ url.suffix = u ++ 0x40 :: (url.host ++ url.path ++ url.suffix) := by
      simp only [List.append_assoc, List.cons_append, List.nil_append]
    rw [Option.elim_some, hRest, Clear, hUserinfo]
    by_cases hAt : 0x40 ∈ u
    · refine iff_of_false (fun hEq => ?_) fun hClear => hClear.1 u rfl hAt
      obtain ⟨p, q, rfl, hp⟩ := List.eq_append_cons_of_mem hAt
      have hFree : ∀ b ∈ q ++ 0x40 :: (url.host ++ url.path), isMark b = false := by
        intro b hb
        rcases List.mem_append.mp hb with hq | hBehind
        · exact hMarks b (List.mem_append_right _ (List.mem_cons_of_mem _ hq))
        · rcases List.mem_cons.mp hBehind with rfl | hRest
          · decide
          · exact url.unmarked b hRest
      rw [List.append_assoc, List.cons_append, stripped_cut hp fun hMem => hSlash (List.mem_append_left _ hMem),
        ← List.cons_append, ← List.append_assoc, url.takeWhile_suffix hFree] at hEq
      have hLength := congrArg List.length hEq
      rw [List.length_append, List.length_cons] at hLength
      omega
    · rw [stripped_cut hAt hSlash, url.takeWhile_suffix url.unmarked]
      refine iff_of_true rfl ⟨fun v hv => Option.some.inj hv ▸ hAt, fun hNone => by cases hNone⟩

theorem display_iff (url : Location) : Output.safeUrlForDisplay url.text = url.shown ↔ url.Clear := by
  rw [← url.stripped_iff, text, shown, List.append_assoc url.scheme, safeUrlForDisplay_eq url.scheme_free,
    List.append_cancel_left_eq]

end Location

/-- A URL whose password holds an `@`. -/
def passwordAt : Link where
  userinfo := some (utf8 "u:p@s")
  host := utf8 "h"
  tail := []
  userinfo_free u hu := by
    obtain rfl := Option.some.inj hu
    decide +kernel
  host_free := by decide +kernel
  host_bare := by decide
  tail_stop b hb := by cases hb
  unmarked := by decide

/-- Messages show no credentials, and everything else as it is, exactly if no userinfo in them holds an `@`, and no URL
without one holds an `@` before the first `/`, blank or quote behind its host. A URL is shown up to its path exactly if
its userinfo holds no `@`, and no query or fragment directly behind the host passes for a userinfo. -/
theorem hidesCredentials_iff (s : Str) (m : Message) (url : Location) :
    (∃ m : Message, m.text = s) ∧
    ((Output.redactCredentials s).isSome ∧ (Output.redactCredentials m.text = some m.redacted ↔ m.Clear)) ∧
    ((Handle.redactCredentials s).isSome ∧ (Handle.redactCredentials m.text = some m.redacted ↔ m.Clear)) ∧
    (Output.safeUrlForDisplay url.text = url.shown ↔ url.Clear) := by
  have hEnds : (redactFrom (s.length + 1) s 0).isSome = true := by
    obtain ⟨m, rfl⟩ := Message.exists_text s
    rw [redactFrom_message, Option.isSome_some]
  exact ⟨Message.exists_text s, ⟨hEnds, m.redact_iff⟩, ⟨hEnds, m.redact_iff⟩, url.display_iff⟩

theorem not_hidesCredentials : ¬ HidesCredentials := by
  intro h
  have hRedacted := h.cli ⟨utf8 "http", [passwordAt], by decide⟩
  revert hRedacted
  decide

end

end Eggfetch.Cli
