import Eggfetch.Text.Pairs

/-! Dictionaries in the order of insertion: what is found under a key after an assignment and after an update. -/
namespace Eggfetch.Text
open Pairs

/-- Pairs of which no two have one key. -/
structure Dict (κ V : Type) where
  items : List (κ × V)
  distinct : (names items).Nodup

namespace Dict
variable {κ V : Type} [DecidableEq κ]

def empty : Dict κ V := ⟨[], List.nodup_nil⟩

def get (d : Dict κ V) (key : κ) : Option V := d.items.lookup key

theorem get_eq_none_iff {d : Dict κ V} {key : κ} : d.get key = none ↔ key ∉ names d.items := by
  rw [get, names, List.lookup_eq_none_iff, List.mem_map]
  constructor
  · rintro h ⟨item, hMem, rfl⟩
    exact bne_iff_ne.mp (h item hMem) rfl
  · refine fun h item hMem => bne_iff_ne.mpr ?_
    rintro rfl
    exact h ⟨item, hMem, rfl⟩

def insertNew (d : Dict κ V) (key : κ) (value : V) (h : d.get key = none) : Dict κ V :=
  ⟨d.items ++ [(key, value)], nodup_names_concat.mpr ⟨d.distinct, get_eq_none_iff.mp h⟩⟩

def assign (key : κ) (value : V) (item : κ × V) : κ × V := if item.1 = key then (key, value) else item

theorem names_assign (key : κ) (value : V) (items : List (κ × V)) : names (items.map (assign key value)) = names items := by
  rw [names, List.map_map]
  refine List.map_congr_left fun item _ => ?_
  rw [Function.comp_apply, assign]
  split
  · rename_i h
    exact h.symm
  · rfl

/-- `d[key] = value` -/
def set (d : Dict κ V) (key : κ) (value : V) : Dict κ V :=
  if h : d.get key = none then d.insertNew key value h
  else ⟨d.items.map (assign key value), (names_assign key value d.items).symm ▸ d.distinct⟩

def setdefault (d : Dict κ V) (key : κ) (value : V) : Dict κ V := if h : d.get key = none then d.insertNew key value h else d

def update (d : Dict κ V) (items : List (κ × V)) : Dict κ V := items.foldl (fun d item => d.set item.1 item.2) d

variable (d : Dict κ V) {key other : κ} (value : V)

theorem get_insertNew_self (h : d.get key = none) : (d.insertNew key value h).get key = some value := by
  rw [insertNew, get, List.lookup_append, ← get, h, List.lookup_cons_self]
  rfl

theorem get_insertNew_of_ne (h : d.get key = none) (hNe : other ≠ key) : (d.insertNew key value h).get other = d.get other := by
  rw [insertNew, get, List.lookup_append, ← get, List.lookup_cons, beq_eq_false_iff_ne.mpr hNe, List.lookup_nil, Option.or_none]

theorem lookup_assign (key : κ) (items : List (κ × V)) (other : κ) : (items.map (assign key value)).lookup other =
    if other = key then (items.lookup other).map fun _ => value else items.lookup other := by
  induction items with
  | nil =>
    split <;> rfl
  | cons item items ih =>
    obtain ⟨k, v⟩ := item
    rw [List.map_cons, assign, List.lookup_cons (k := k)]
    by_cases hKey : k = key
    · subst hKey
      rw [if_pos rfl, List.lookup_cons]
      by_cases hOther : other = k
      · rw [hOther, beq_self_eq_true, if_pos rfl]
        rfl
      · rw [beq_eq_false_iff_ne.mpr hOther, if_neg hOther, ih, if_neg hOther]
    · rw [if_neg hKey, List.lookup_cons]
      by_cases hOther : other = k
      · rw [hOther, beq_self_eq_true, if_neg hKey]
      · rw [beq_eq_false_iff_ne.mpr hOther, ih]

theorem get_set_self (key : κ) : (d.set key value).get key = some value := by
  rw [set]
  split
  · rename_i h
    exact d.get_insertNew_self value h
  · rename_i h
    obtain ⟨v, hv⟩ := Option.ne_none_iff_exists'.mp h
    rw [get, lookup_assign, if_pos rfl, ← get, hv]
    rfl

theorem get_set_of_ne (hNe : other ≠ key) : (d.set key value).get other = d.get other := by
  rw [set]
  split
  · rename_i h
    exact d.get_insertNew_of_ne value h hNe
  · rw [get, lookup_assign, if_neg hNe, get]

theorem get_setdefault_self (key : κ) : (d.setdefault key value).get key = some ((d.get key).getD value) := by
  rw [setdefault]
  split
  · rename_i h
    rw [d.get_insertNew_self value h, h]
    rfl
  · rename_i h
    obtain ⟨v, hv⟩ := Option.ne_none_iff_exists'.mp h
    rw [hv]
    rfl

theorem get_setdefault_of_ne (hNe : other ≠ key) : (d.setdefault key value).get other = d.get other := by
  rw [setdefault]
  split
  · rename_i h
    exact d.get_insertNew_of_ne value h hNe
  · rfl

/-- An update with the items of a dictionary finds those first. -/
theorem get_update (e : Dict κ V) (key : κ) : (d.update e.items).get key = (e.get key).or (d.get key) := by
  obtain ⟨items, hDistinct⟩ := e
  rw [update, get.eq_def ⟨items, hDistinct⟩]
  dsimp only
  induction items generalizing d with
  | nil => rfl
  | cons item items ih =>
    obtain ⟨k, v⟩ := item
    rw [names_cons, List.nodup_cons] at hDistinct
    rw [List.foldl_cons, ih (d.set k v) hDistinct.2, List.lookup_cons]
    by_cases hKey : key = k
    · subst hKey
      have hNone : items.lookup key = none := (get_eq_none_iff (d := ⟨items, hDistinct.2⟩)).mpr hDistinct.1
      rw [hNone, beq_self_eq_true, Option.none_or, d.get_set_self]
      rfl
    · rw [beq_eq_false_iff_ne.mpr hKey, d.get_set_of_ne v hKey]

theorem get_empty (key : κ) : (empty : Dict κ V).get key = none := rfl

end Dict

end Eggfetch.Text
