import Eggfetch.Text.Pairs
import Eggfetch.Transition.Runs

/-! The facade's `Headers` as a mutable mapping (`_headers.py`). -/
namespace Eggfetch.Facade.Mapping
open Text.Pairs

abbrev Chars := List Char

def hasBreak (s : Chars) : Bool := s.contains '\r' || s.contains '\n'

/-- `str.lower`. -/
structure Casing where
  lower : Chars → Chars
  idem : ∀ s, lower (lower s) = lower s
  breaks : ∀ s, hasBreak (lower s) = hasBreak s

abbrev Casing.Name (casing : Casing) := {name : Chars // casing.lower name = name}

def Casing.name (casing : Casing) (name : Chars) : casing.Name := ⟨casing.lower name, casing.idem name⟩

/-- An argument that may be a text or bytes. -/
inductive Arg
  | str (text : Chars)
  | bytes (content : List UInt8)

/-- `decode("ascii")` of bytes; `none` is the `UnicodeDecodeError`. -/
def Arg.decode : Arg → Option Chars
  | .str text => some text
  | .bytes content => if content.all (· < 0x80) then some (content.map (Char.ofNat ·.toNat)) else none

/-- `_validate`; `false` is the `ValueError`. -/
def validate (name value : Chars) : Bool := !hasBreak name && !hasBreak value

structure Headers (casing : Casing) where
  items : List (casing.Name × Chars)

/-- What `Headers` is built from. -/
inductive Source (casing : Casing)
  | headers (other : Headers casing)
  | pairs (items : List (Arg × Arg))

/-- What `update` takes. -/
inductive Incoming (casing : Casing)
  | headers (other : Headers casing)
  | dict (items : List (Chars × Chars))
  | list (items : List (Arg × Chars))

variable {casing : Casing}

def Source.item (casing : Casing) : Arg × Arg → Option (casing.Name × Chars)
  | (name, value) => do
    let name ← name.decode
    let value ← value.decode
    if validate name value then some (casing.name name, value) else none

def Incoming.items : Incoming casing → Option (List (casing.Name × Chars))
  | .headers other => some other.items
  | .dict items => some (items.map fun (k, v) => (casing.name k, v))
  | .list items => items.mapM fun (k, v) => k.decode.map fun k => (casing.name k, v)

namespace Headers

def init : Source casing → Option (Headers casing)
  | .headers other => some other
  | .pairs items => (items.mapM (Source.item casing)).map Headers.mk

def normalizeName (casing : Casing) (name : Arg) : Option casing.Name := name.decode.map casing.name

def getList (h : Headers casing) (name : casing.Name) : List Chars := valuesOf name h.items

/-- `__getitem__`; `none` is the `KeyError`. -/
def getItem (h : Headers casing) (name : casing.Name) : Option Chars :=
  if h.getList name = [] then none else some (", ".toList.intercalate (h.getList name))

/-- `items`: the first value of every name. -/
def firstItems (h : Headers casing) : List (casing.Name × Chars) := firsts [] h.items

/-- `keys` and `__iter__`. -/
def keys (h : Headers casing) : List casing.Name := names h.firstItems

def len (h : Headers casing) : Nat := h.items.length

def contains (h : Headers casing) (name : casing.Name) : Bool := (names h.items).contains name

def setItem (h : Headers casing) (name value : Chars) : Option (Headers casing) :=
  if validate name value then some ⟨without (casing.name name) h.items ++ [(casing.name name, value)]⟩ else none

def delItem (h : Headers casing) (name : casing.Name) : Option (Headers casing) :=
  let items := without name h.items
  if items.length = h.items.length then none else some ⟨items⟩

def update (h : Headers casing) (items : List (casing.Name × Chars)) : Headers casing :=
  ⟨replace h.items items⟩

def pop (h : Headers casing) (name : casing.Name) : Headers casing := ⟨h.items.eraseP (·.1 = name)⟩

def setdefault (h : Headers casing) (name : casing.Name) (default : Chars) : Headers casing :=
  if h.contains name then h else ⟨h.items ++ [(name, default)]⟩

/-- `none` is the `KeyError` of an empty mapping. -/
def popitem (h : Headers casing) : Option (Headers casing) :=
  match h.items with
  | [] => none
  | _ :: items => some ⟨items⟩

def append (h : Headers casing) (name value : Chars) : Option (Headers casing) :=
  if validate name value then some ⟨h.items ++ [(casing.name name, value)]⟩ else none

end Headers

inductive Op (casing : Casing)
  | setItem (name value : Chars)
  | append (name value : Chars)
  | update (headers : Incoming casing)
  | setdefault (name : Arg) (default : Chars)
  | pop (name : Arg)
  | popitem
  | delItem (name : Arg)
  | clear
  | copy

namespace Headers

/-- One call; `none` is an error, which leaves the headers as they were. -/
def call (h : Headers casing) : Op casing → Option (Headers casing)
  | .setItem name value => h.setItem name value
  | .append name value => h.append name value
  | .update headers => headers.items.map h.update
  | .setdefault name default => (normalizeName casing name).map (h.setdefault · default)
  | .pop name => (normalizeName casing name).map h.pop
  | .popitem => h.popitem
  | .delItem name => (normalizeName casing name).bind h.delItem
  | .clear => some ⟨[]⟩
  | .copy => some h

def step (h : Headers casing) (op : Op casing) : Option (Headers casing) := some ((h.call op).getD h)

/-- What a mutable mapping owes to its user. -/
structure Laws (h : Headers casing) : Prop where
  clean : ∀ item ∈ h.items, validate item.1.val item.2 = true
  lookup : ∀ k ∈ h.keys, h.getItem k = dictGet k h.firstItems
  length : h.len = h.keys.length
  pop : ∀ k, (h.pop k).contains k = false
  delItem : ∀ k next, h.delItem k = some next → next.contains k = false

/-- No name is repeated, and no text has a line break. -/
structure Good (h : Headers casing) : Prop where
  distinct : (names h.items).Nodup
  clean : ∀ item ∈ h.items, validate item.1.val item.2 = true

variable {h next : Headers casing} {k : casing.Name}

theorem contains_eq_false : h.contains k = false ↔ k ∉ names h.items := by
  rw [contains, ← Bool.not_eq_true, List.contains_iff_mem]

theorem contains_eq_false_iff : h.contains k = false ↔ h.getList k = [] := by
  rw [contains_eq_false, getList, valuesOf_eq_nil]

/-- `pop` leaves the other values. -/
theorem getList_pop (h : Headers casing) (k k' : casing.Name) :
    (h.pop k).getList k' = if k' = k then (h.getList k').tail else h.getList k' := by
  rw [getList, getList, pop]
  induction h.items with
  | nil =>
    split <;> rfl
  | cons item items ih =>
    obtain ⟨name, value⟩ := item
    by_cases hName : name = k
    · rw [List.eraseP_cons, decide_eq_true hName, cond_true, hName]
      split
      · next hSame => rw [hSame, valuesOf_cons_self, List.tail_cons]
      · next hOther => rw [valuesOf_cons_of_ne (Ne.symm hOther)]
    · rw [List.eraseP_cons, decide_eq_false hName, cond_false]
      by_cases hSame : name = k'
      · rw [hSame] at hName
        rw [hSame, valuesOf_cons_self, valuesOf_cons_self, ih, if_neg hName, if_neg hName]
      · rw [valuesOf_cons_of_ne hSame, valuesOf_cons_of_ne hSame, ih]

theorem delItem_some (hDel : h.delItem k = some next) : next.items = without k h.items := by
  rw [delItem] at hDel
  split at hDel
  · cases hDel
  · cases hDel
    rfl

/-- The laws hold where no name is repeated and no text has a line break. -/
theorem laws_iff : Laws h ↔ Good h := by
  have hLength : h.len = h.keys.length ↔ (names h.items).Nodup := by
    rw [len, keys, names, List.length_map, firstItems, eq_comm, length_firsts]
  constructor
  · intro hLaws
    exact ⟨hLength.mp hLaws.length, hLaws.clean⟩
  · intro hGood
    have hOne : ∀ k, (h.getList k).length ≤ 1 := nodup_names_iff.mp hGood.distinct
    refine ⟨hGood.clean, fun k _ => ?_, hLength.mpr hGood.distinct, fun k => ?_, fun k next hDel => ?_⟩
    · rw [getItem, firstItems, dictGet_firsts, ← getList]
      cases hValues : h.getList k with
      | nil => rfl
      | cons value rest =>
        have hRest := hOne k
        rw [hValues, List.length_cons] at hRest
        obtain rfl : rest = [] := List.length_eq_zero_iff.mp (by omega)
        rw [if_neg (List.cons_ne_nil _ _), List.intercalate_singleton]
        rfl
    · have hTail := hOne k
      rw [contains_eq_false_iff, getList_pop, if_pos rfl, ← List.length_eq_zero_iff, List.length_tail]
      omega
    · rw [contains_eq_false_iff, getList, delItem_some hDel, valuesOf_without_self]

/-- The values that a name has after a call, in the order of their insertion. -/
def expected (h : Headers casing) (k : casing.Name) : Op casing → List Chars
  | .setItem name value => if k = casing.name name then [value] else h.getList k
  | .append name value => if k = casing.name name then h.getList k ++ [value] else h.getList k
  | .update headers => headers.items.elim (h.getList k) fun items => if k ∈ names items then valuesOf k items else h.getList k
  | .setdefault name default => if normalizeName casing name = some k ∧ h.getList k = [] then [default] else h.getList k
  | .pop name | .delItem name => if normalizeName casing name = some k then [] else h.getList k
  | .popitem => if h.items.head?.map Prod.fst = some k then [] else h.getList k
  | .clear => []
  | .copy => h.getList k

private theorem getList_call (hGood : Good h) {op : Op casing} (hCall : h.call op = some next) :
    next.getList k = h.expected k op := by
  have hOne : ∀ k, (h.getList k).length ≤ 1 := nodup_names_iff.mp hGood.distinct
  have hTail : ∀ k, (h.getList k).tail = [] := by
    intro k
    have hLength := hOne k
    rw [← List.length_eq_zero_iff, List.length_tail]
    omega
  cases op with
  | setItem name value =>
    rw [call, setItem] at hCall
    split at hCall
    · cases hCall
      rw [getList, valuesOf_concat, valuesOf_without_eq, expected, getList]
      split <;> rfl
    · cases hCall
  | append name value =>
    rw [call, append] at hCall
    split at hCall
    · cases hCall
      rw [getList, valuesOf_concat, expected, getList]
    · cases hCall
  | update headers =>
    obtain ⟨items, hItems, rfl⟩ := Option.map_eq_some_iff.mp hCall
    rw [expected, hItems, Option.elim_some, getList, update, valuesOf_replace, getList]
    by_cases hMem : k ∈ names items
    · rw [if_pos hMem, if_pos hMem]
    · rw [if_neg hMem, if_neg hMem]
  | setdefault name default =>
    obtain ⟨name', hName, rfl⟩ := Option.map_eq_some_iff.mp hCall
    rw [expected, hName, setdefault]
    by_cases hContains : h.contains name' = true
    · have hSome : h.getList name' ≠ [] := by
        rw [Ne, ← contains_eq_false_iff, hContains]
        exact Bool.noConfusion
      rw [if_pos hContains, if_neg]
      rintro ⟨hSame, hNil⟩
      obtain rfl := Option.some.inj hSame
      exact hSome hNil
    · have hNil : h.getList name' = [] := contains_eq_false_iff.mp (Bool.not_eq_true _ ▸ hContains)
      rw [if_neg hContains, getList, valuesOf_concat, ← getList]
      by_cases hSame : k = name'
      · rw [if_pos hSame, hSame, if_pos ⟨rfl, hNil⟩, hNil]
        rfl
      · rw [if_neg hSame, if_neg fun h => hSame (Option.some.inj h.1).symm]
  | pop name =>
    obtain ⟨name', hName, rfl⟩ := Option.map_eq_some_iff.mp hCall
    rw [expected, hName, getList_pop, hTail]
    simp only [Option.some.injEq, eq_comm]
  | popitem =>
    rw [call, popitem] at hCall
    rw [expected]
    cases hItems : h.items with
    | nil =>
      rw [hItems] at hCall
      cases hCall
    | cons item items =>
      obtain ⟨name, value⟩ := item
      rw [hItems] at hCall
      cases hCall
      have hValues := hTail k
      rw [getList, hItems] at hValues
      rw [getList, getList, hItems, List.head?_cons, Option.map_some]
      by_cases hSame : name = k
      · rw [hSame, valuesOf_cons_self, List.tail_cons] at hValues
        rw [hSame, if_pos rfl, hValues]
      · rw [valuesOf_cons_of_ne hSame, if_neg fun h => hSame (Option.some.inj h)]
  | delItem name =>
    obtain ⟨name', hName, hDel⟩ := Option.bind_eq_some_iff.mp hCall
    rw [expected, hName, getList, delItem_some hDel, valuesOf_without_eq, getList]
    simp only [Option.some.injEq, eq_comm]
  | clear =>
    cases hCall
    rfl
  | copy =>
    cases hCall
    rfl

/-- What a call has to bring: no second value for a name, and no line break where nothing looks for one. -/
def Admits (h : Headers casing) : Op casing → Prop
  | .append name value => validate name value = true → casing.name name ∉ names h.items
  | .update headers => ∀ items, headers.items = some items → (names items).Nodup ∧ ∀ item ∈ items,
      validate item.1.val item.2 = true
  | .setdefault name default => ∀ n, normalizeName casing name = some n → n ∉ names h.items → validate n.val default = true
  | _ => True

theorem validate_name {name value : Chars} : validate (casing.name name).val value = validate name value := by
  rw [validate, validate, Casing.name, casing.breaks]

theorem Good.sublist (hGood : Good h) {items : List (casing.Name × Chars)} (hItems : items.Sublist h.items) : Good ⟨items⟩ :=
  ⟨hGood.distinct.sublist (hItems.map Prod.fst), fun item hItem => hGood.clean item (hItems.subset hItem)⟩

theorem good_append_iff {xs ys : List (casing.Name × Chars)} (hGood : Good ⟨xs⟩) (hApart : ∀ k ∈ names ys, k ∉ names xs) :
    Good ⟨xs ++ ys⟩ ↔ (names ys).Nodup ∧ ∀ item ∈ ys, validate item.1.val item.2 = true := by
  constructor
  · intro hBoth
    exact ⟨(nodup_names_append.mp hBoth.distinct).2.1, fun item hItem => hBoth.clean item (List.mem_append_right xs hItem)⟩
  · rintro ⟨hDistinct, hClean⟩
    refine ⟨nodup_names_append.mpr ⟨hGood.distinct, hDistinct, hApart⟩, fun item hItem => ?_⟩
    rcases List.mem_append.mp hItem with hOld | hNew
    · exact hGood.clean item hOld
    · exact hClean item hNew

theorem good_concat {items : List (casing.Name × Chars)} (hGood : Good ⟨items⟩) {name : casing.Name} {value : Chars}
    (hApart : name ∉ names items) : Good ⟨items ++ [(name, value)]⟩ ↔ validate name.val value = true := by
  have hNames : ∀ k ∈ names [(name, value)], k ∉ names items := by
    intro k hk
    rw [List.mem_singleton.mp hk]
    exact hApart
  rw [good_append_iff hGood hNames, List.forall_mem_singleton]
  exact and_iff_right (List.nodup_singleton _)

theorem good_call_iff (hGood : Good h) {op : Op casing} (hCall : h.call op = some next) : Good next ↔ h.Admits op := by
  cases op with
  | setItem name value =>
    rw [call, setItem] at hCall
    split at hCall
    · next hValid =>
      cases hCall
      have hApart : casing.name name ∉ names (without (casing.name name) h.items) := fun hMem => (mem_names_without.mp hMem).2 rfl
      rw [good_concat (hGood.sublist without_sublist) hApart, validate_name]
      exact iff_of_true hValid trivial
    · cases hCall
  | append name value =>
    rw [call, append] at hCall
    split at hCall
    · next hValid =>
      cases hCall
      rw [Admits]
      constructor
      · intro hNext _ hMem
        exact (nodup_names_append.mp hNext.distinct).2.2 _ List.mem_cons_self hMem
      · intro hNew
        rw [good_concat hGood (hNew hValid), validate_name]
        exact hValid
    · cases hCall
  | update headers =>
    obtain ⟨items, hItems, rfl⟩ := Option.map_eq_some_iff.mp hCall
    rw [Admits, update, replace, good_append_iff (hGood.sublist List.filter_sublist) (not_mem_replaced h.items items)]
    refine ⟨fun hNew items' hItems' => ?_, fun hNew => hNew items hItems⟩
    obtain rfl := Option.some.inj (hItems.symm.trans hItems')
    exact hNew
  | setdefault name default =>
    obtain ⟨name', hName, rfl⟩ := Option.map_eq_some_iff.mp hCall
    have hAdmits : h.Admits (.setdefault name default) ↔ (name' ∉ names h.items → validate name'.val default = true) := by
      rw [Admits, hName]
      exact ⟨fun hAll => hAll name' rfl, fun hNew n hn => by cases hn; exact hNew⟩
    rw [hAdmits, setdefault]
    by_cases hContains : h.contains name' = true
    · rw [if_pos hContains]
      refine iff_of_true hGood fun hNew => ?_
      rw [contains_eq_false.mpr hNew] at hContains
      cases hContains
    · have hNew : name' ∉ names h.items := contains_eq_false.mp (Bool.not_eq_true _ ▸ hContains)
      rw [if_neg hContains, good_concat hGood hNew]
      exact ⟨fun hValid _ => hValid, fun hAll => hAll hNew⟩
  | pop name =>
    obtain ⟨name', -, rfl⟩ := Option.map_eq_some_iff.mp hCall
    exact iff_of_true (hGood.sublist List.eraseP_sublist) trivial
  | popitem =>
    rw [call, popitem] at hCall
    cases hItems : h.items with
    | nil =>
      rw [hItems] at hCall
      cases hCall
    | cons item items =>
      rw [hItems] at hCall
      cases hCall
      refine iff_of_true (hGood.sublist ?_) trivial
      rw [hItems]
      exact List.sublist_cons_self item items
  | delItem name =>
    obtain ⟨name', -, hDel⟩ := Option.bind_eq_some_iff.mp hCall
    have hNext : Good ⟨without name' h.items⟩ := hGood.sublist without_sublist
    rw [← delItem_some hDel] at hNext
    exact iff_of_true hNext trivial
  | clear =>
    cases hCall
    exact iff_of_true ⟨List.nodup_nil, fun item hItem => absurd hItem List.not_mem_nil⟩ trivial
  | copy =>
    cases hCall
    exact iff_of_true hGood trivial

private theorem admits_of_error {op : Op casing} (hCall : h.call op = none) : h.Admits op := by
  cases op with
  | append name value =>
    intro hValid
    rw [call, append, if_pos hValid] at hCall
    cases hCall
  | update headers =>
    intro items hItems
    rw [call, hItems] at hCall
    cases hCall
  | setdefault name default =>
    intro n hName
    rw [call, hName] at hCall
    cases hCall
  | _ => trivial

end Headers

/-- What headers are built from: no name twice, and a copy of headers that keep the laws. -/
def Source.Admits : Source casing → Prop
  | .headers other => Headers.Good other
  | .pairs items => (items.filterMap fun item => Headers.normalizeName casing item.1).Nodup

namespace Headers
variable {h next : Headers casing}

theorem item_some {item : Arg × Arg} {stored : casing.Name × Chars} (hItem : Source.item casing item = some stored) :
    normalizeName casing item.1 = some stored.1 ∧ validate stored.1.val stored.2 = true := by
  obtain ⟨name, value⟩ := item
  obtain ⟨name', hName, hItem⟩ := Option.bind_eq_some_iff.mp hItem
  obtain ⟨value', -, hItem⟩ := Option.bind_eq_some_iff.mp hItem
  split at hItem
  · next hValid =>
    cases hItem
    refine ⟨?_, ?_⟩
    · rw [normalizeName, hName, Option.map_some]
    · rw [validate_name]
      exact hValid
  · cases hItem

theorem mapM_item {items : List (Arg × Arg)} {stored : List (casing.Name × Chars)}
    (hItems : items.mapM (Source.item casing) = some stored) :
    (items.filterMap fun item => normalizeName casing item.1) = names stored ∧ ∀ item ∈ stored,
    validate item.1.val item.2 = true := by
  induction items generalizing stored with
  | nil =>
    cases hItems
    exact ⟨rfl, fun item hItem => absurd hItem List.not_mem_nil⟩
  | cons item items ih =>
    rw [List.mapM_cons] at hItems
    obtain ⟨first, hFirst, hItems⟩ := Option.bind_eq_some_iff.mp hItems
    obtain ⟨rest, hRest, hItems⟩ := Option.bind_eq_some_iff.mp hItems
    cases hItems
    obtain ⟨hName, hValid⟩ := item_some hFirst
    obtain ⟨hNames, hClean⟩ := ih hRest
    rw [List.filterMap_cons, hName, hNames]
    exact ⟨rfl, List.forall_mem_cons.mpr ⟨hValid, hClean⟩⟩

theorem good_init_iff {source : Source casing} (hInit : init source = some h) : Good h ↔ source.Admits := by
  cases source with
  | headers other =>
    cases hInit
    exact Iff.rfl
  | pairs items =>
    obtain ⟨stored, hStored, rfl⟩ := Option.map_eq_some_iff.mp hInit
    obtain ⟨hNames, hClean⟩ := mapM_item hStored
    rw [Source.Admits, hNames]
    exact ⟨Good.distinct, fun hDistinct => ⟨hDistinct, hClean⟩⟩

/-- The laws hold after a call, and the call has done to the values of every name what it is for. -/
def StepLaws (h : Headers casing) (op : Op casing) (next : Headers casing) : Prop :=
  Laws next ∧ ∀ after, h.call op = some after → ∀ k, after.getList k = h.expected k op

theorem stepLaws_iff (hGood : Good h) {op : Op casing} (hStep : h.step op = some next) : StepLaws h op next ↔ h.Admits op := by
  cases hStep
  rw [StepLaws, laws_iff, and_iff_left fun after hCall k => getList_call hGood hCall]
  cases hCall : h.call op with
  | none => exact iff_of_true hGood (admits_of_error hCall)
  | some next => exact good_call_iff hGood hCall

/-- A run keeps the laws where what it starts with and every call is admitted. -/
theorem run_laws_iff {source : Source casing} (hInit : init source = some h) (ops : List (Op casing)) :
    Laws h ∧ Transition.Along step StepLaws h ops ↔ source.Admits ∧ Transition.Along step (fun h op _ => h.Admits op) h ops := by
  rw [laws_iff, good_init_iff hInit]
  refine and_congr_right fun hSource => ?_
  exact Transition.along_iff_of_good Good ((good_init_iff hInit).mpr hSource) (fun _ _ hLaws => laws_iff.mp hLaws.1)
    fun hGood hStep => stepLaws_iff hGood hStep

end Headers
end Eggfetch.Facade.Mapping
