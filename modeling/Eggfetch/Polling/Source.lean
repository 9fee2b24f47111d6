import Mathlib.Algebra.Order.Ring.Nat
import Mathlib.Data.Nat.Find

/-! A stream by what its successive polls answer, and polled sources of chunks: a hidden state
and what each poll of it returns. A guard passes chunks on while a check accepts their running
total, and ends after the first refusal. -/
namespace Eggfetch.Polling

inductive Poll (α : Type*) where
  | pending
  | ready (a : α)
  deriving DecidableEq

/-- What the `n`-th poll answers: a chunk, an error, the end or nothing yet. -/
abbrev Answers (E C : Type*) := Nat → Poll (Option (Except E C))

namespace Poll
variable {E C : Type*}

def item : Poll (Option (Except E C)) → Option (Except E C)
  | ready item => item
  | pending => none

def isChunk : Poll (Option (Except E C)) → Bool
  | ready (some (.ok _)) => true
  | _ => false

def isError : Poll (Option (Except E C)) → Bool
  | ready (some (.error _)) => true
  | _ => false

def isEnd : Poll (Option (Except E C)) → Bool
  | ready none => true
  | _ => false

def goesOn (p : Poll (Option (Except E C))) : Bool := !p.isError && !p.isEnd

end Poll

variable {E C : Type}

structure Source (E C : Type) where
  State : Type
  init : State
  poll : State → Option (Except E C) × State

namespace Source

/-- The state after `n` polls. -/
def after (s : Source E C) : Nat → s.State
  | 0 => s.init
  | n + 1 => (s.poll (s.after n)).2

/-- What the poll after `n` others returns; `none` is the end. -/
def item (s : Source E C) (n : Nat) : Option (Except E C) := (s.poll (s.after n)).1

def itemSize (size : C → Nat) : Option (Except E C) → Nat
  | some (.ok chunk) => size chunk
  | _ => 0

/-- The total size of all chunks that the first `n` polls return. -/
def handed (size : C → Nat) (s : Source E C) : Nat → Nat
  | 0 => 0
  | n + 1 => s.handed size n + itemSize size (s.item n)

/-- The first `n` polls all return chunks. -/
def Flows (s : Source E C) (n : Nat) : Prop := ∀ j < n, ∃ chunk, s.item j = some (.ok chunk)

def FailsAt (s : Source E C) (n : Nat) (e : E) : Prop := s.Flows n ∧ s.item n = some (.error e)

def ofList (items : List (Except E C)) : Source E C where
  State := List (Except E C)
  init := items
  poll
    | [] => (none, [])
    | x :: rest => (some x, rest)

/-- Pass chunks on while `check` accepts their running total, which stops growing at `cap`. -/
def guarded (size : C → Nat) (cap : Nat) (s : Source E C) (check : Nat → s.State → Option E) :
    Source E C where
  State := s.State × Nat × Bool
  init := (s.init, 0, false)
  poll
    | (st, total, true) => (none, (st, total, true))
    | (st, total, false) =>
      match s.poll st with
      | (some (.ok chunk), st') =>
        let total' := min (total + size chunk) cap
        match check total' st' with
        | some e => (some (.error e), (st', total', true))
        | none => (some (.ok chunk), (st', total', false))
      | (other, st') => (other, (st', total, false))

/-- Collect chunks until the end or an error; `none` while neither has come. -/
def collect (append : C → C → C) (s : Source E C) : Nat → s.State → C → Option (Except E C)
  | 0, _, _ => none
  | fuel + 1, st, buf =>
    match s.poll st with
    | (none, _) => some (.ok buf)
    | (some (.error e), _) => some (.error e)
    | (some (.ok chunk), st') => collect append s fuel st' (append buf chunk)

variable {size : C → Nat} {cap max : Nat} {s t : Source E C} {n : Nat}

theorem handed_mono {m : Nat} (h : m ≤ n) : s.handed size m ≤ s.handed size n := by
  induction h with
  | refl => exact Nat.le_refl _
  | step _ ih => exact Nat.le_trans ih (Nat.le_add_right _ _)

theorem handed_congr (h : ∀ n, s.item n = t.item n) (n : Nat) : s.handed size n = t.handed size n := by
  induction n with
  | zero => rfl
  | succ n ih => simp only [handed, ih, h]

theorem Flows.mono {m : Nat} (h : s.Flows n) (hm : m ≤ n) : s.Flows m :=
  fun j hj => h j (Nat.lt_of_lt_of_le hj hm)

section
variable {check check' : Nat → s.State → Option E} {st st' : s.State} {total : Nat}

theorem guarded_poll_pass {chunk : C} (h : s.poll st = (some (.ok chunk), st'))
    (hc : check (min (total + size chunk) cap) st' = none) :
    (s.guarded size cap check).poll (st, total, false) =
      (some (.ok chunk), (st', min (total + size chunk) cap, false)) := by
  simp [guarded, h, hc]

theorem guarded_poll_trip {chunk : C} {e : E} (h : s.poll st = (some (.ok chunk), st'))
    (hc : check (min (total + size chunk) cap) st' = some e) :
    (s.guarded size cap check).poll (st, total, false) =
      (some (.error e), (st', min (total + size chunk) cap, true)) := by
  simp [guarded, h, hc]

theorem guarded_poll_other {o : Option (Except E C)} (h : s.poll st = (o, st'))
    (ho : ∀ chunk, o ≠ some (.ok chunk)) :
    (s.guarded size cap check).poll (st, total, false) = (o, (st', total, false)) := by
  simp only [guarded, h]

theorem itemSize_other {o : Option (Except E C)} (ho : ∀ chunk, o ≠ some (.ok chunk)) :
    itemSize size o = 0 := by
  rcases o with _ | (_ | chunk)
  · rfl
  · rfl
  · exact absurd rfl (ho chunk)

/-- A poll returns a chunk, or something without size. -/
theorem poll_cases (s : Source E C) (st : s.State) :
    (∃ chunk st', s.poll st = (some (.ok chunk), st')) ∨
      ∃ o st', s.poll st = (o, st') ∧ ∀ chunk, o ≠ some (.ok chunk) := by
  rcases hp : s.poll st with ⟨_ | (e | chunk), st'⟩
  · exact .inr ⟨_, _, rfl, (by intro _ h; cases h)⟩
  · exact .inr ⟨_, _, rfl, (by intro _ h; cases h)⟩
  · exact .inl ⟨chunk, st', rfl⟩

/-- One poll of a guard keeps the total exact while it has not tripped. -/
private theorem guarded_step (hcap : max < cap)
    (hcheck : ∀ total st, max < total → (check total st).isSome)
    (hle : (s.guarded size cap check).handed size n ≤ max)
    (hinv : ((s.guarded size cap check).after n).2.2 = false →
      ((s.guarded size cap check).after n).2.1 = (s.guarded size cap check).handed size n) :
    (s.guarded size cap check).handed size (n + 1) ≤ max ∧
    (((s.guarded size cap check).after (n + 1)).2.2 = false →
      ((s.guarded size cap check).after (n + 1)).2.1 = (s.guarded size cap check).handed size (n + 1)) := by
  simp only [handed, item, after]
  rcases hst : (s.guarded size cap check).after n with ⟨st, total, tripped⟩
  rw [hst] at hinv
  cases tripped with
  | true => exact ⟨hle, (by intro h; cases h)⟩
  | false =>
    have htotal : total = (s.guarded size cap check).handed size n := hinv rfl
    rcases poll_cases s st with ⟨chunk, st', hp⟩ | ⟨o, st', hp, ho⟩
    · cases hc : check (min (total + size chunk) cap) st' with
      | some e =>
        rw [guarded_poll_trip hp hc]
        exact ⟨hle, (by intro h; cases h)⟩
      | none =>
        rw [guarded_poll_pass hp hc]
        -- an accepted total is within the limit, so the cap has not been reached
        have hin : ¬ max < min (total + size chunk) cap := by
          intro hover
          have := hcheck _ st' hover
          rw [hc] at this
          cases this
        simp only [itemSize]
        omega
    · rw [guarded_poll_other hp ho, itemSize_other ho]
      exact ⟨hle, fun _ => htotal⟩

/-- A guard whose check refuses every total above `max` never hands over more than `max`. -/
theorem guarded_handed_le (hcap : max < cap)
    (hcheck : ∀ total st, max < total → (check total st).isSome) (n : Nat) :
    (s.guarded size cap check).handed size n ≤ max := by
  have hboth : (s.guarded size cap check).handed size n ≤ max ∧
      (((s.guarded size cap check).after n).2.2 = false →
        ((s.guarded size cap check).after n).2.1 = (s.guarded size cap check).handed size n) := by
    induction n with
    | zero => exact ⟨Nat.zero_le _, fun _ => rfl⟩
    | succ n ih => exact guarded_step hcap hcheck ih.1 ih.2
  exact hboth.1

theorem guarded_congr (h : ∀ total ≤ cap, ∀ st, check total st = check' total st) (n : Nat) :
    (s.guarded size cap check).item n = (s.guarded size cap check').item n := by
  have hpoll : ∀ st, (s.guarded size cap check).poll st = (s.guarded size cap check').poll st := by
    rintro ⟨st, total, _ | _⟩
    · rcases poll_cases s st with ⟨chunk, st', hp⟩ | ⟨o, st', hp, ho⟩
      · have heq := h (min (total + size chunk) cap) (Nat.min_le_right _ _) st'
        cases hc : check' (min (total + size chunk) cap) st' with
        | some e => rw [guarded_poll_trip hp hc, guarded_poll_trip hp (heq.trans hc)]
        | none => rw [guarded_poll_pass hp hc, guarded_poll_pass hp (heq.trans hc)]
      · rw [guarded_poll_other hp ho, guarded_poll_other hp ho]
    · rfl
  have hafter : ∀ n, (s.guarded size cap check).after n = (s.guarded size cap check').after n := by
    intro n
    induction n with
    | zero => rfl
    | succ n ih =>
      rw [after, after, ih]
      exact congrArg Prod.snd (hpoll _)
  rw [item, item, hafter]
  exact congrArg Prod.fst (hpoll _)

/-- A guard that refuses nothing is transparent. -/
theorem guarded_never (h : ∀ total st, check total st = none) (n : Nat) :
    (s.guarded size cap check).item n = s.item n := by
  have hpoll : ∀ st total, ((s.guarded size cap check).poll (st, total, false)).1 = (s.poll st).1 ∧
      ((s.guarded size cap check).poll (st, total, false)).2.1 = (s.poll st).2 ∧
      ((s.guarded size cap check).poll (st, total, false)).2.2.2 = false := by
    intro st total
    rcases poll_cases s st with ⟨chunk, st', hp⟩ | ⟨o, st', hp, ho⟩
    · rw [guarded_poll_pass hp (h _ _), hp]
      exact ⟨rfl, rfl, rfl⟩
    · rw [guarded_poll_other hp ho, hp]
      exact ⟨rfl, rfl, rfl⟩
  have hafter : ∀ n, ∃ total, (s.guarded size cap check).after n = (s.after n, total, false) := by
    intro n
    induction n with
    | zero => exact ⟨0, rfl⟩
    | succ n ih =>
      obtain ⟨total, hst⟩ := ih
      obtain ⟨-, hinner, huntripped⟩ := hpoll (s.after n) total
      refine ⟨((s.guarded size cap check).poll (s.after n, total, false)).2.2.1, ?_⟩
      simp only [after, hst]
      exact Prod.ext hinner (Prod.ext rfl huntripped)
  obtain ⟨total, hst⟩ := hafter n
  rw [item, hst]
  exact (hpoll _ _).1

/-- A chunk that a guard hands over is one of the source's that the check lets pass. -/
private theorem guarded_chunk {st : s.State} {total : Nat} {chunk : C}
    (h : ((s.guarded size cap check).poll (st, total, false)).1 = some (.ok chunk)) :
    ∃ st', s.poll st = (some (.ok chunk), st') ∧ check (min (total + size chunk) cap) st' = none := by
  rcases poll_cases s st with ⟨chunk', st', hp⟩ | ⟨o, st', hp, ho⟩
  · cases hc : check (min (total + size chunk') cap) st' with
    | some e =>
      rw [guarded_poll_trip hp hc] at h
      cases h
    | none =>
      rw [guarded_poll_pass hp hc] at h
      cases h
      exact ⟨st', hp, hc⟩
  · rw [guarded_poll_other hp ho] at h
    exact absurd h (ho chunk)

/-- While the looser guard flows within `max`, the stricter one is in the same state. -/
private theorem guarded_lockstep {e : E} (hcap : max < cap)
    (hcheck : ∀ total st, check total st = if max < total then some e else check' total st)
    (hflow : (s.guarded size cap check').Flows n)
    (hle : (s.guarded size cap check').handed size n ≤ max) :
    ∃ st, (s.guarded size cap check').after n = (st, (s.guarded size cap check').handed size n, false) ∧
      (s.guarded size cap check).after n = (st, (s.guarded size cap check').handed size n, false) ∧
      (s.guarded size cap check).Flows n := by
  induction n with
  | zero => exact ⟨s.init, rfl, rfl, (by intro _ h; cases h)⟩
  | succ n ih =>
    obtain ⟨st, hloose, hstrict, hflows⟩ :=
      ih (hflow.mono (Nat.le_succ n)) (Nat.le_trans (handed_mono (Nat.le_succ n)) hle)
    obtain ⟨chunk, hchunk⟩ := hflow n (Nat.lt_succ_self n)
    simp only [handed, hchunk, itemSize] at hle ⊢
    simp only [item, after, hloose, hstrict] at hchunk ⊢
    obtain ⟨st', hp, hc⟩ := guarded_chunk hchunk
    have hmin : min ((s.guarded size cap check').handed size n + size chunk) cap =
        (s.guarded size cap check').handed size n + size chunk := by omega
    have hc' : check (min ((s.guarded size cap check').handed size n + size chunk) cap) st' = none := by
      rw [hcheck, if_neg (by omega), hc]
    have hpass : (s.guarded size cap check).poll (st, (s.guarded size cap check').handed size n, false) = _ :=
      guarded_poll_pass hp hc'
    refine ⟨st', by rw [guarded_poll_pass hp hc, hmin], by rw [hpass, hmin], ?_⟩
    intro j hj
    rcases Nat.lt_succ_iff_lt_or_eq.mp hj with hj | rfl
    · exact hflows j hj
    · exact ⟨chunk, by rw [item, hstrict, hpass]⟩

/-- When the looser guard hands over more than `max`, the stricter one fails with `e`. -/
theorem guarded_fails {e : E} (hcap : max < cap)
    (hcheck : ∀ total st, check total st = if max < total then some e else check' total st)
    (hflow : (s.guarded size cap check').Flows n)
    (hover : max < (s.guarded size cap check').handed size n) :
    ∃ k, (s.guarded size cap check).FailsAt k e := by
  induction n with
  | zero => exact absurd hover (Nat.not_lt_zero _)
  | succ n ih =>
    rcases Nat.lt_or_ge max ((s.guarded size cap check').handed size n) with hlt | hle
    · exact ih (hflow.mono (Nat.le_succ n)) hlt
    · obtain ⟨st, hloose, hstrict, hflows⟩ := guarded_lockstep hcap hcheck (hflow.mono (Nat.le_succ n)) hle
      obtain ⟨chunk, hchunk⟩ := hflow n (Nat.lt_succ_self n)
      simp only [handed, hchunk, itemSize] at hover
      rw [item, hloose] at hchunk
      refine ⟨n, hflows, ?_⟩
      rw [item, hstrict]
      obtain ⟨st', hp, -⟩ := guarded_chunk hchunk
      have htrip : check (min ((s.guarded size cap check').handed size n + size chunk) cap) st' = some e := by
        rw [hcheck, if_pos (by omega)]
      rw [guarded_poll_trip hp htrip]

end

section
variable {append : C → C → C}

/-- What is collected is what some number of polls hands over. -/
theorem collect_ok (hsize : ∀ a b, size (append a b) = size a + size b) {fuel : Nat} {buf b : C}
    (h : collect append s fuel (s.after n) buf = some (.ok b)) :
    ∃ k, size b + s.handed size n = size buf + s.handed size k := by
  induction fuel generalizing n buf with
  | zero => cases h
  | succ fuel ih =>
    rw [collect] at h
    split at h
    · cases h
      exact ⟨n, rfl⟩
    · cases h
    · rename_i chunk st' hp
      obtain rfl : s.after (n + 1) = st' := by rw [after, hp]
      obtain ⟨k, hk⟩ := ih h
      refine ⟨k, ?_⟩
      rw [handed, item, hp, itemSize, hsize] at hk
      omega

theorem collect_fails {k fuel : Nat} {e : E} {buf : C} (h : s.FailsAt k e) (hn : n ≤ k)
    (hfuel : k < n + fuel) : collect append s fuel (s.after n) buf = some (.error e) := by
  induction fuel generalizing n buf with
  | zero => omega
  | succ fuel ih =>
    rw [collect]
    rcases Nat.lt_or_eq_of_le hn with hlt | rfl
    · obtain ⟨chunk, hchunk⟩ := h.1 n hlt
      rw [item] at hchunk
      rw [← Prod.eta (s.poll (s.after n)), hchunk]
      exact ih (n := n + 1) hlt (by omega)
    · have hitem := h.2
      rw [item] at hitem
      rw [← Prod.eta (s.poll (s.after n)), hitem]

end

end Source
end Eggfetch.Polling
