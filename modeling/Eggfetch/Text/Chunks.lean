import Mathlib.Data.List.Basic
import Mathlib.Data.Nat.Basic

/-! Cutting a sequence, or the chunks of one, into pieces of one size. -/
namespace Eggfetch.Text
variable {α : Type*}

def cut (n : Nat) (s : List α) : List (List α) × List α :=
  if 0 < n ∧ n ≤ s.length then
    let (pieces, rest) := cut n (s.drop n)
    (s.take n :: pieces, rest)
  else ([], s)
termination_by s.length
decreasing_by rw [List.length_drop]; omega

/-- The whole pieces of chunks that come one after the other, a buffer standing before them. -/
def rechunk (n : Nat) (buffer : List α) : List (List α) → List (List α) × List α
  | [] => ([], buffer)
  | chunk :: chunks =>
    let (pieces, buffer) := cut n (buffer ++ chunk)
    let (more, rest) := rechunk n buffer chunks
    (pieces ++ more, rest)

def withRest (pieces : List (List α) × List α) : List (List α) := pieces.1 ++ if pieces.2.isEmpty then [] else [pieces.2]

def split (n : Nat) (s : List α) : List (List α) := if s.isEmpty then [[]] else withRest (cut n s)

def Sized (n : Nat) (pieces : List (List α)) : Prop := ∀ piece ∈ pieces.dropLast, piece.length = n

variable {n : Nat} {s buffer : List α} {chunks : List (List α)}

theorem cut_join (n : Nat) (s : List α) : (cut n s).1.flatten ++ (cut n s).2 = s := by
  fun_induction cut n s with
  | case1 s hStep pieces rest hCut ih =>
    rw [hCut] at ih
    rw [List.flatten_cons, List.append_assoc, ih, List.take_append_drop]
  | case2 s hStop => rfl

theorem cut_full (n : Nat) (s : List α) : ∀ piece ∈ (cut n s).1, piece.length = n := by
  fun_induction cut n s with
  | case1 s hStep pieces rest hCut ih =>
    rw [hCut] at ih
    refine List.forall_mem_cons.mpr ⟨?_, ih⟩
    rw [List.length_take]
    omega
  | case2 s hStop => exact fun piece hPiece => absurd hPiece List.not_mem_nil

theorem cut_rest (hSize : 0 < n) (s : List α) : (cut n s).2.length < n := by
  fun_induction cut n s with
  | case1 s hStep pieces rest hCut ih =>
    rw [hCut] at ih
    exact ih
  | case2 s hStop =>
    simp only
    omega

private theorem length_flatten_of_full {pieces : List (List α)} (h : ∀ piece ∈ pieces, piece.length = n) :
    pieces.flatten.length = n * pieces.length := by
  induction pieces with
  | nil => rfl
  | cons piece pieces ih =>
    obtain ⟨hHead, hRest⟩ := List.forall_mem_cons.mp h
    rw [List.flatten_cons, List.length_append, hHead, ih hRest, List.length_cons, Nat.mul_succ, Nat.add_comm]

private theorem cut_dvd (hSize : 0 < n) (s : List α) : (cut n s).2 = [] ↔ n ∣ s.length := by
  have hLength := congrArg List.length (cut_join n s)
  rw [List.length_append, length_flatten_of_full (cut_full n s)] at hLength
  have hRest := cut_rest hSize s
  constructor
  · intro hNil
    rw [hNil, List.length_nil, Nat.add_zero] at hLength
    exact ⟨_, hLength.symm⟩
  · intro hDvd
    rw [← hLength, Nat.dvd_add_right (Nat.dvd_mul_right _ _)] at hDvd
    exact List.length_eq_zero_iff.mp (Nat.eq_zero_of_dvd_of_lt hDvd hRest)

theorem rechunk_join (n : Nat) (buffer : List α) (chunks : List (List α)) :
    (rechunk n buffer chunks).1.flatten ++ (rechunk n buffer chunks).2 = buffer ++ chunks.flatten := by
  induction chunks generalizing buffer with
  | nil => exact (List.append_nil buffer).symm
  | cons chunk chunks ih =>
    rw [rechunk, List.flatten_append, List.append_assoc, ih, ← List.append_assoc, cut_join, List.append_assoc, List.flatten_cons]

theorem rechunk_full (n : Nat) (buffer : List α) (chunks : List (List α)) :
    ∀ piece ∈ (rechunk n buffer chunks).1, piece.length = n := by
  induction chunks generalizing buffer with
  | nil => exact fun piece hPiece => absurd hPiece List.not_mem_nil
  | cons chunk chunks ih =>
    rw [rechunk]
    intro piece hPiece
    rcases List.mem_append.mp hPiece with hFirst | hMore
    · exact cut_full n _ piece hFirst
    · exact ih _ piece hMore

theorem withRest_join (pieces : List (List α) × List α) : (withRest pieces).flatten = pieces.1.flatten ++ pieces.2 := by
  rw [withRest, List.flatten_append]
  split
  · next hNil => rw [List.isEmpty_iff.mp hNil, List.flatten_nil]
  · rw [List.flatten_singleton]

theorem Sized.of_full {pieces : List (List α)} (h : ∀ piece ∈ pieces, piece.length = n) : Sized n pieces :=
  fun piece hPiece => h piece (List.dropLast_subset pieces hPiece)

theorem sized_withRest {pieces : List (List α) × List α} (h : ∀ piece ∈ pieces.1, piece.length = n) :
    Sized n (withRest pieces) := by
  rw [withRest]
  split
  · rw [List.append_nil]
    exact Sized.of_full h
  · rw [Sized, List.dropLast_concat]
    exact h

private theorem split_ne_nil (n : Nat) (s : List α) : split n s ≠ [] := by
  intro hNil
  rw [split] at hNil
  split at hNil
  · cases hNil
  · next hSome =>
    have hJoin := withRest_join (cut n s)
    rw [hNil, cut_join, List.flatten_nil] at hJoin
    rw [← hJoin] at hSome
    exact hSome rfl

private theorem sized_split (n : Nat) (s : List α) : Sized n (split n s) := by
  rw [split]
  split
  · exact fun piece hPiece => absurd hPiece List.not_mem_nil
  · exact sized_withRest (cut_full n s)

private theorem full_split (hSize : 0 < n) (s : List α) : (∀ piece ∈ split n s, piece.length = n) ↔ s ≠ [] ∧ n ∣ s.length := by
  rw [split]
  split
  · next hNil =>
    rw [List.isEmpty_iff.mp hNil, List.forall_mem_singleton, List.length_nil]
    exact iff_of_false (by omega) fun h => h.1 rfl
  · next hSome =>
    rw [List.isEmpty_iff] at hSome
    rw [and_iff_right hSome, ← cut_dvd hSize, withRest]
    constructor
    · intro hFull
      by_contra hRest
      have hLast := hFull (cut n s).2 (List.mem_append_right _
        (by rw [if_neg (by rw [List.isEmpty_iff]; exact hRest)]; exact List.mem_singleton_self _))
      have hLess := cut_rest hSize s
      omega
    · intro hNil
      rw [hNil, List.isEmpty_nil, if_pos rfl, List.append_nil]
      exact cut_full n s

/-- Chunks that are cut one by one leave pieces of one size where all of them but the last are multiples of it. -/
theorem sized_flatMap_split (hSize : 0 < n) (chunks : List (List α)) :
    Sized n (chunks.flatMap (split n)) ↔ ∀ chunk ∈ chunks.dropLast, chunk ≠ [] ∧ n ∣ chunk.length := by
  induction chunks with
  | nil =>
    exact iff_of_true (fun piece hPiece => absurd hPiece List.not_mem_nil) fun chunk hChunk => absurd hChunk List.not_mem_nil
  | cons chunk chunks ih =>
    cases chunks with
    | nil =>
      rw [List.flatMap_singleton]
      exact iff_of_true (sized_split n chunk) fun chunk hChunk => absurd hChunk List.not_mem_nil
    | cons next chunks =>
      have hRest : (next :: chunks).flatMap (split n) ≠ [] := by
        rw [List.flatMap_cons]
        exact List.append_ne_nil_of_left_ne_nil (split_ne_nil n next) _
      rw [List.flatMap_cons, Sized, List.dropLast_append_of_ne_nil hRest, List.forall_mem_append, full_split hSize,
        List.dropLast_cons_cons,
        List.forall_mem_cons, ← ih]
      rfl

end Eggfetch.Text
