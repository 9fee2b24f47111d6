import Eggfetch.Http.Headers
import Mathlib.Data.List.Forall2

/-! The facade's header container, `compat/httpx/_headers.py`, and the conversion of its
pairs to the native container, `conversion.rs`. -/
namespace Eggfetch.Facade
open Text

abbrev Name := {name : Str // toAsciiLowercase name = name}

/-- A list of pairs, repetitions included. -/
structure Headers where
  items : List (Name × Str)
  deriving DecidableEq

namespace Headers

def empty : Headers := ⟨[]⟩

def getList (h : Headers) (name : Str) : List Str :=
  (h.items.filter fun item => item.1.val = name).map Prod.snd

/-- `get` and `__getitem__`: the repetitions joined, if there are any. -/
def get (h : Headers) (name : Str) : Option Str :=
  if h.getList name = [] then none else some ((utf8 ", ").intercalate (h.getList name))

def contains (h : Headers) (name : Str) : Bool := h.items.any fun item => item.1.val = name

/-- `__setitem__`. Its check for line breaks is the native conversion's, which refuses them
too. -/
def setItem (h : Headers) (name : Name) (value : Str) : Headers :=
  ⟨h.items.filter (fun item => item.1 ≠ name) ++ [(name, value)]⟩

/-- `pop` takes the first repetition only. -/
def pop (h : Headers) (name : Str) : Headers := ⟨h.items.eraseP fun item => item.1.val = name⟩

/-- `multi_items`, as the conversion to Rust sees it. -/
def multiItems (h : Headers) : List (Str × Str) := h.items.map fun item => (item.1.val, item.2)

variable {h : Headers} {name name' : Str}

theorem contains_eq_false_iff : h.contains name = false ↔ h.getList name = [] := by
  simp [contains, getList]

theorem contains_iff : h.contains name = true ↔ h.getList name ≠ [] := by
  rw [← Bool.not_eq_false, contains_eq_false_iff]

/-- `pop` leaves the other repetitions. -/
@[simp] theorem getList_pop_self : (h.pop name).getList name = (h.getList name).tail := by
  simp only [pop, getList]
  induction h.items with
  | nil => rfl
  | cons item items ih =>
    by_cases hname : item.1.val = name
    · simp [hname]
    · simp [hname, ih]

theorem getList_pop_of_ne (hne : name' ≠ name) : (h.pop name).getList name' = h.getList name' := by
  simp only [pop, getList]
  induction h.items with
  | nil => rfl
  | cons item items ih =>
    by_cases hname : item.1.val = name
    · have hother : item.1.val ≠ name' := fun heq => hne (heq.symm.trans hname)
      rw [List.eraseP_cons_of_pos (by simpa using hname), List.filter_cons_of_neg (by simpa using hother)]
    · rw [List.eraseP_cons_of_neg (by simpa using hname), List.filter_cons, List.filter_cons]
      split
      · rw [List.map_cons, List.map_cons, ih]
      · exact ih

@[simp] theorem getList_setItem_self {name : Name} {value : Str} :
    (h.setItem name value).getList name.val = [value] := by
  simp [setItem, getList, List.filter_filter, Subtype.ext_iff]

theorem getList_setItem_of_ne {name : Name} {value : Str} (hne : name' ≠ name.val) :
    (h.setItem name value).getList name' = h.getList name' := by
  have hkeep : ∀ item : Name × Str, (decide (item.1.val = name') && decide (item.1 ≠ name)) =
      decide (item.1.val = name') := by
    intro item
    by_cases heq : item.1.val = name'
    · have hitem : item.1 ≠ name := fun h => hne (heq.symm.trans (congrArg Subtype.val h))
      simp [heq, hitem]
    · simp [heq]
  simp only [getList, setItem, List.filter_append, List.filter_filter, hkeep]
  rw [List.filter_cons_of_neg (by simpa using hne.symm), List.filter_nil, List.append_nil]

end Headers

/-- `python_headers_to_rust`: a later value of a name replaces an earlier one. -/
def pythonHeadersToRust (pairs : List (Str × Str)) : Except Http.HeaderError Http.Headers :=
  pairs.foldlM (fun headers pair => headers.insert pair.1 pair.2) .empty

private theorem getAll_insertPairs {items : List (Name × Str)} {start headers : Http.Headers}
    (hok : (items.map fun item => (item.1.val, item.2)).foldlM
      (fun headers pair => headers.insert pair.1 pair.2) start = .ok headers) (name : Str) :
    headers.getAll name =
      if Headers.getList ⟨items⟩ name = [] then start.getAll name
      else (Headers.getList ⟨items⟩ name).getLast?.toList := by
  induction items generalizing start with
  | nil => cases hok; rfl
  | cons item items ih =>
    rw [List.map_cons, List.foldlM_cons] at hok
    cases hins : start.insert item.1.val item.2 with
    | error e =>
      rw [hins] at hok
      cases hok
    | ok next =>
      rw [hins] at hok
      rw [ih hok]
      have hnext := Http.Headers.insert_ok hins
      rw [item.1.property] at hnext
      by_cases hname : item.1.val = name
      · have hlist : Headers.getList ⟨item :: items⟩ name =
            item.2 :: Headers.getList ⟨items⟩ name := by
          simp [Headers.getList, hname]
        rw [hlist, if_neg (List.cons_ne_nil _ _), hnext, hname]
        split_ifs with hrest
        · rw [hrest]
          exact Http.Headers.getAll_insertRaw_self
        · rw [List.getLast?_cons_of_ne_nil hrest]
      · have hlist : Headers.getList ⟨item :: items⟩ name = Headers.getList ⟨items⟩ name := by
          simp [Headers.getList, hname]
        rw [hlist, hnext, Http.Headers.insertRaw, Http.Headers.getAll_set_of_ne (Ne.symm hname)]

/-- The native container has the last value of each name. -/
theorem getAll_pythonHeadersToRust {h : Headers} {headers : Http.Headers}
    (hok : pythonHeadersToRust h.multiItems = .ok headers) (name : Str) :
    headers.getAll name = (h.getList name).getLast?.toList := by
  have hall := getAll_insertPairs hok name
  split_ifs at hall with hnone
  · rw [hall, hnone]
    rfl
  · exact hall

end Eggfetch.Facade
