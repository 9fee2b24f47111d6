import Mathlib.Data.List.Nodup

/-! Pairs of a name and a value in the order of their insertion, names being repeated: what each name has, and the first pair of
every name. -/
namespace Eggfetch.Text.Pairs
variable {κ ν : Type*}

def names (items : List (κ × ν)) : List κ := items.map Prod.fst

private theorem names_append (xs ys : List (κ × ν)) : names (xs ++ ys) = names xs ++ names ys := List.map_append

theorem nodup_names_append {xs ys : List (κ × ν)} : (names (xs ++ ys)).Nodup ↔
    (names xs).Nodup ∧ (names ys).Nodup ∧ ∀ k ∈ names ys, k ∉ names xs := by
  rw [names_append, List.nodup_append']
  refine and_congr_right fun _ => and_congr_right fun _ => ?_
  exact ⟨fun h k hk hMem => h hMem hk, fun h k hMem hk => h k hk hMem⟩

theorem nodup_names_filter {items : List (κ × ν)} {p : κ × ν → Bool} (h : (names items).Nodup) : (names (items.filter p)).Nodup :=
  h.sublist (List.filter_sublist.map Prod.fst)

theorem nodup_names_concat {items : List (κ × ν)} {k : κ} {v : ν} : (names (items ++ [(k, v)])).Nodup ↔
    (names items).Nodup ∧ k ∉ names items := by
  have hSingle : names [(k, v)] = [k] := rfl
  rw [nodup_names_append, hSingle, and_iff_right (List.nodup_singleton k), List.forall_mem_singleton]

theorem names_cons (item : κ × ν) (items : List (κ × ν)) : names (item :: items) = item.1 :: names items := rfl

variable [DecidableEq κ]

def valuesOf (k : κ) (items : List (κ × ν)) : List ν := (items.filter (·.1 = k)).map Prod.snd

def without (k : κ) (items : List (κ × ν)) : List (κ × ν) := items.filter (·.1 ≠ k)

def dictGet (k : κ) (items : List (κ × ν)) : Option ν := (valuesOf k items).getLast?

def replace (items incoming : List (κ × ν)) : List (κ × ν) :=
  items.filter (fun item => !(names incoming).contains item.1) ++ incoming

def firsts (seen : List κ) : List (κ × ν) → List (κ × ν)
  | [] => []
  | item :: items => if item.1 ∈ seen then firsts seen items else item :: firsts (item.1 :: seen) items

variable {k k' : κ} {v : ν} {items xs ys : List (κ × ν)}

theorem valuesOf_append : valuesOf k (xs ++ ys) = valuesOf k xs ++ valuesOf k ys := by
  rw [valuesOf, List.filter_append, List.map_append, valuesOf, valuesOf]

theorem valuesOf_cons_self : valuesOf k ((k, v) :: items) = v :: valuesOf k items := by
  rw [valuesOf, List.filter_cons, if_pos (decide_eq_true rfl), List.map_cons, valuesOf]

theorem valuesOf_cons_of_ne (h : k' ≠ k) : valuesOf k ((k', v) :: items) = valuesOf k items := by
  rw [valuesOf, List.filter_cons, if_neg (by rw [decide_eq_true_iff]; exact h), valuesOf]

theorem valuesOf_eq_nil : valuesOf k items = [] ↔ k ∉ names items := by
  induction items with
  | nil => exact iff_of_true rfl List.not_mem_nil
  | cons item items ih =>
    obtain ⟨k', v⟩ := item
    rw [names, List.map_cons, List.mem_cons, not_or]
    by_cases hName : k' = k
    · rw [hName, valuesOf_cons_self]
      exact iff_of_false (List.cons_ne_nil _ _) fun h => h.1 rfl
    · rw [valuesOf_cons_of_ne hName, ih]
      exact (and_iff_right (Ne.symm hName)).symm

theorem valuesOf_without_self : valuesOf k (without k items) = [] := by
  rw [valuesOf, without, List.filter_filter, List.map_eq_nil_iff, List.filter_eq_nil_iff]
  intro item _ hItem
  rw [Bool.and_eq_true, decide_eq_true_iff, decide_eq_true_iff] at hItem
  exact hItem.2 hItem.1

theorem valuesOf_filter {p : κ → Bool} (h : p k = true) : valuesOf k (items.filter (p ·.1)) = valuesOf k items := by
  have hSame : ∀ item ∈ items, (decide (item.1 = k) && p item.1) = decide (item.1 = k) := by
    intro item _
    by_cases hName : item.1 = k
    · rw [hName, h, Bool.and_true]
    · rw [decide_eq_false hName, Bool.false_and]
  rw [valuesOf, valuesOf, List.filter_filter, List.filter_congr hSame]

theorem valuesOf_without (h : k' ≠ k) : valuesOf k' (without k items) = valuesOf k' items :=
  valuesOf_filter (p := fun name => decide (name ≠ k)) (decide_eq_true h)

private theorem length_valuesOf : (valuesOf k items).length = (names items).count k := by
  induction items with
  | nil => rfl
  | cons item items ih =>
    obtain ⟨k', v⟩ := item
    rw [names, List.map_cons]
    by_cases hName : k' = k
    · rw [hName, valuesOf_cons_self, List.count_cons_self, List.length_cons, ih, names]
    · rw [valuesOf_cons_of_ne hName, List.count_cons_of_ne hName, ih, names]

/-- No name is repeated where every name has one value at most. -/
theorem nodup_names_iff : (names items).Nodup ↔ ∀ k, (valuesOf k items).length ≤ 1 := by
  rw [List.nodup_iff_count_le_one]
  exact forall_congr' fun k => by rw [length_valuesOf]

theorem without_sublist : (without k items).Sublist items := List.filter_sublist

theorem mem_names_without : k' ∈ names (without k items) ↔ k' ∈ names items ∧ k' ≠ k := by
  simp only [names, without, List.mem_map, List.mem_filter, decide_eq_true_iff]
  constructor
  · rintro ⟨item, ⟨hItem, hName⟩, rfl⟩
    exact ⟨⟨item, hItem, rfl⟩, hName⟩
  · rintro ⟨⟨item, hItem, rfl⟩, hName⟩
    exact ⟨item, ⟨hItem, hName⟩, rfl⟩

theorem valuesOf_without_eq : valuesOf k (without k' items) = if k = k' then [] else valuesOf k items := by
  split
  · next hSame => rw [hSame, valuesOf_without_self]
  · next hOther => rw [valuesOf_without hOther]

theorem valuesOf_concat : valuesOf k (items ++ [(k', v)]) = if k = k' then valuesOf k items ++ [v] else valuesOf k items := by
  rw [valuesOf_append]
  split
  · next hSame =>
    rw [hSame, valuesOf_cons_self]
    rfl
  · next hOther =>
    rw [valuesOf_cons_of_ne (Ne.symm hOther)]
    exact List.append_nil _

theorem not_mem_replaced (items incoming : List (κ × ν)) :
    ∀ k ∈ names incoming, k ∉ names (items.filter fun item => !(names incoming).contains item.1) := by
  intro k hk hMem
  obtain ⟨item, hItem, rfl⟩ := List.mem_map.mp hMem
  rw [List.mem_filter, Bool.not_eq_true', ← Bool.not_eq_true, List.contains_iff_mem] at hItem
  exact hItem.2 hk

theorem valuesOf_replace (items incoming : List (κ × ν)) :
    valuesOf k (replace items incoming) = if k ∈ names incoming then valuesOf k incoming else valuesOf k items := by
  rw [replace, valuesOf_append]
  by_cases hMem : k ∈ names incoming
  · rw [valuesOf_eq_nil.mpr (not_mem_replaced items incoming k hMem), if_pos hMem, List.nil_append]
  · have hKept : (!(names incoming).contains k) = true := by
      rw [Bool.not_eq_true', ← Bool.not_eq_true, List.contains_iff_mem]
      exact hMem
    rw [valuesOf_filter (p := fun name => !(names incoming).contains name) hKept, valuesOf_eq_nil.mpr hMem, if_neg hMem,
      List.append_nil]

theorem nodup_names_replace {incoming : List (κ × ν)} (h : (names items).Nodup) :
    (names (replace items incoming)).Nodup ↔ (names incoming).Nodup := by
  rw [replace, nodup_names_append]
  exact ⟨fun hAll => hAll.2.1, fun hIncoming => ⟨nodup_names_filter h, hIncoming, not_mem_replaced items incoming⟩⟩

private theorem valuesOf_firsts (seen : List κ) :
    valuesOf k (firsts seen items) = if k ∈ seen then [] else (valuesOf k items).take 1 := by
  induction items generalizing seen with
  | nil =>
    rw [firsts]
    split <;> rfl
  | cons item items ih =>
    obtain ⟨k', v⟩ := item
    rw [firsts]
    by_cases hSeen : k' ∈ seen
    · rw [if_pos hSeen, ih]
      by_cases hName : k' = k
      · rw [← hName, if_pos hSeen, if_pos hSeen]
      · rw [valuesOf_cons_of_ne hName]
    · rw [if_neg hSeen]
      by_cases hName : k' = k
      · rw [hName] at hSeen
        rw [hName, valuesOf_cons_self, ih, if_pos List.mem_cons_self, if_neg hSeen, valuesOf_cons_self]
        rfl
      · have hCons : k ∈ k' :: seen ↔ k ∈ seen := by
          rw [List.mem_cons, or_iff_right (Ne.symm hName)]
        rw [valuesOf_cons_of_ne hName, ih, valuesOf_cons_of_ne hName]
        simp only [hCons]

theorem dictGet_firsts : dictGet k (firsts [] items) = (valuesOf k items).head? := by
  rw [dictGet, valuesOf_firsts, if_neg List.not_mem_nil]
  cases valuesOf k items <;> rfl

private theorem length_firsts_le (seen : List κ) : (firsts seen items).length ≤ items.length := by
  induction items generalizing seen with
  | nil => exact Nat.le_refl 0
  | cons item items ih =>
    rw [firsts, List.length_cons]
    split
    · exact Nat.le_succ_of_le (ih seen)
    · rw [List.length_cons]
      exact Nat.succ_le_succ (ih _)

private theorem length_firsts_iff (seen : List κ) :
    (firsts seen items).length = items.length ↔ (names items).Nodup ∧ ∀ k ∈ names items, k ∉ seen := by
  induction items generalizing seen with
  | nil => exact iff_of_true rfl ⟨List.nodup_nil, fun k hk => absurd hk List.not_mem_nil⟩
  | cons item items ih =>
    rw [firsts, List.length_cons, names, List.map_cons, List.nodup_cons, List.forall_mem_cons, ← names]
    by_cases hSeen : item.1 ∈ seen
    · have hLess := @length_firsts_le _ _ _ items seen
      rw [if_pos hSeen]
      exact iff_of_false (by omega) fun h => h.2.1 hSeen
    · rw [if_neg hSeen, List.length_cons, Nat.add_right_cancel_iff, ih]
      constructor
      · rintro ⟨hNodup, hApart⟩
        refine ⟨⟨fun hMem => hApart _ hMem List.mem_cons_self, hNodup⟩, hSeen, fun k hk hMem => ?_⟩
        exact hApart k hk (List.mem_cons_of_mem _ hMem)
      · rintro ⟨⟨hNew, hNodup⟩, -, hApart⟩
        refine ⟨hNodup, fun k hk hMem => ?_⟩
        rcases List.mem_cons.mp hMem with rfl | hMem
        · exact hNew hk
        · exact hApart k hk hMem

theorem length_firsts : (firsts [] items).length = items.length ↔ (names items).Nodup := by
  rw [length_firsts_iff]
  exact and_iff_left fun k _ => List.not_mem_nil

end Eggfetch.Text.Pairs
