import Eggfetch.Facade.CopyWith
import Eggfetch.Facade.HeaderMapping

/-! The facade's `QueryParams` as a mapping (`_urls.py`), and the laws of both mappings over runs. -/
namespace Eggfetch.Facade.Mapping
open Text.Pairs

structure QueryParams where
  items : List (Chars × Chars)

/-- What `QueryParams` is built from. -/
inductive QuerySource
  | none
  | text (query : Chars)
  | pairs (items : List (Chars × Chars))
  | params (other : QueryParams)

/-- What `update` and `merge` take. -/
inductive QueryIncoming
  | params (other : QueryParams)
  | pairs (items : List (Chars × Chars))

def QueryIncoming.items : QueryIncoming → List (Chars × Chars)
  | .params other => other.items
  | .pairs items => items

def QuerySource.items (decode : List UInt8 → Chars) : QuerySource → List (Chars × Chars)
  | .none => []
  | .text query => if query = [] then [] else Urls.parseQsl decode query
  | .pairs items => items
  | .params other => other.items

inductive QueryOp
  | add (key value : Chars)
  | set (key value : Chars)
  | remove (key : Chars)
  | update (params : QueryIncoming)
  | merge (params : QueryIncoming)
  | delItem (key : Chars)

namespace QueryParams

/-- `__init__` with its keyword arguments. -/
def init (decode : List UInt8 → Chars) (source : QuerySource) (kwargs : List (Chars × Chars)) : QueryParams :=
  ⟨source.items decode ++ kwargs⟩

def getList (q : QueryParams) (key : Chars) : List Chars := valuesOf key q.items

/-- `__getitem__`: the last value. `none` is the `KeyError`. -/
def getItem (q : QueryParams) (key : Chars) : Option Chars := (q.getList key).getLast?

def firstItems (q : QueryParams) : List (Chars × Chars) := firsts [] q.items

def keys (q : QueryParams) : List Chars := names q.firstItems

def len (q : QueryParams) : Nat := q.items.length

def contains (q : QueryParams) (key : Chars) : Bool := (names q.items).contains key

def add (q : QueryParams) (key value : Chars) : QueryParams := ⟨q.items ++ [(key, value)]⟩

def set (q : QueryParams) (key value : Chars) : QueryParams := ⟨without key q.items ++ [(key, value)]⟩

def remove (q : QueryParams) (key : Chars) : QueryParams := ⟨without key q.items⟩

def update (q : QueryParams) : QueryIncoming → QueryParams
  | .params other => ⟨replace q.items other.items⟩
  | .pairs items => items.foldl (fun q item => q.set item.1 item.2) q

def merge (q : QueryParams) (params : QueryIncoming) : QueryParams := ⟨q.items ++ params.items⟩

def delItem (q : QueryParams) (key : Chars) : Option QueryParams :=
  if (q.remove key).items.length = q.items.length then none else some (q.remove key)

/-- One call; `none` is an error, after which no pair is gone. -/
def call (q : QueryParams) : QueryOp → Option QueryParams
  | .add key value => some (q.add key value)
  | .set key value => some (q.set key value)
  | .remove key => some (q.remove key)
  | .update params => some (q.update params)
  | .merge params => some (q.merge params)
  | .delItem key => q.delItem key

def step (q : QueryParams) (op : QueryOp) : Option QueryParams := some ((q.call op).getD q)

structure Laws (q : QueryParams) : Prop where
  lookup : ∀ key ∈ q.keys, q.getItem key = dictGet key q.firstItems
  length : q.len = q.keys.length
  delItem : ∀ key next, q.delItem key = some next → next.contains key = false

/-- The values that a key has after a call, in the order of their insertion. -/
def expected (q : QueryParams) (k : Chars) : QueryOp → List Chars
  | .add key value => if k = key then q.getList k ++ [value] else q.getList k
  | .set key value => if k = key then [value] else q.getList k
  | .remove key | .delItem key => if k = key then [] else q.getList k
  | .update (.params other) => if k ∈ names other.items then other.getList k else q.getList k
  | .update (.pairs items) => if k ∈ names items then (valuesOf k items).getLast?.toList else q.getList k
  | .merge params => q.getList k ++ valuesOf k params.items

variable {q next : QueryParams} {k : Chars}

theorem contains_eq_false_iff : q.contains k = false ↔ k ∉ names q.items := by
  rw [contains, ← Bool.not_eq_true, List.contains_iff_mem]

theorem delItem_some (hDel : q.delItem k = some next) : next = q.remove k := by
  rw [delItem] at hDel
  split at hDel
  · cases hDel
  · cases hDel
    rfl

/-- The laws hold where no key is repeated. -/
theorem laws_iff : Laws q ↔ (names q.items).Nodup := by
  have hLength : q.len = q.keys.length ↔ (names q.items).Nodup := by
    rw [len, keys, names, List.length_map, firstItems, eq_comm, length_firsts]
  refine ⟨fun hLaws => hLength.mp hLaws.length, fun hDistinct =>
    ⟨fun key _ => ?_, hLength.mpr hDistinct, fun key next hDel => ?_⟩⟩
  · have hOne := nodup_names_iff.mp hDistinct key
    rw [getItem, getList, firstItems, dictGet_firsts]
    cases hValues : valuesOf key q.items with
    | nil => rfl
    | cons value rest =>
      rw [hValues, List.length_cons] at hOne
      obtain rfl : rest = [] := List.length_eq_zero_iff.mp (by omega)
      rfl
  · rw [contains_eq_false_iff, delItem_some hDel, remove]
    exact fun hMem => (mem_names_without.mp hMem).2 rfl

theorem getList_set (q : QueryParams) (key value : Chars) :
    (q.set key value).getList k = if k = key then [value] else q.getList k := by
  rw [getList, set, valuesOf_concat, valuesOf_without_eq, getList]
  split <;> rfl

private theorem getList_setAll (q : QueryParams) (items : List (Chars × Chars)) :
    (items.foldl (fun q item => q.set item.1 item.2) q).getList k =
      if k ∈ names items then (valuesOf k items).getLast?.toList else q.getList k := by
  induction items generalizing q with
  | nil => rfl
  | cons item items ih =>
    obtain ⟨key, value⟩ := item
    rw [List.foldl_cons, ih, getList_set, names_cons]
    by_cases hLater : k ∈ names items
    · have hNe : valuesOf k items ≠ [] := by
        rw [Ne, valuesOf_eq_nil]
        exact not_not_intro hLater
      rw [if_pos hLater, if_pos (List.mem_cons_of_mem key hLater)]
      by_cases hSame : key = k
      · rw [hSame, valuesOf_cons_self, List.getLast?_cons_of_ne_nil hNe]
      · rw [valuesOf_cons_of_ne hSame]
    · rw [if_neg hLater]
      by_cases hSame : k = key
      · rw [if_pos hSame, hSame, if_pos List.mem_cons_self, valuesOf_cons_self, ← hSame, valuesOf_eq_nil.mpr hLater]
        rfl
      · have hNone : k ∉ key :: names items := List.not_mem_cons_of_ne_of_not_mem hSame hLater
        rw [if_neg hSame, if_neg hNone]

theorem getList_call {op : QueryOp} (hCall : q.call op = some next) : next.getList k = q.expected k op := by
  cases op with
  | add key value =>
    cases hCall
    rw [expected, getList, add, valuesOf_concat, getList]
  | set key value =>
    cases hCall
    rw [expected, getList_set]
  | remove key =>
    cases hCall
    rw [expected, getList, remove, valuesOf_without_eq, getList]
  | update params =>
    cases hCall
    cases params with
    | params other =>
      rw [expected, getList, update, valuesOf_replace, getList, getList]
      by_cases hMem : k ∈ names other.items
      · rw [if_pos hMem, if_pos hMem]
      · rw [if_neg hMem, if_neg hMem]
    | pairs items => rw [expected, update, getList_setAll]
  | merge params =>
    cases hCall
    rw [expected, getList, merge, valuesOf_append, getList]
  | delItem key =>
    rw [expected, delItem_some hCall, getList, remove, valuesOf_without_eq, getList]

def Admits (q : QueryParams) : QueryOp → Prop
  | .add key _ => key ∉ names q.items
  | .update (.params other) => (names other.items).Nodup
  | .merge params => (names params.items).Nodup ∧ ∀ key ∈ names params.items, key ∉ names q.items
  | _ => True

theorem distinct_set (hDistinct : (names q.items).Nodup) (key value : Chars) : (names (q.set key value).items).Nodup :=
  nodup_names_concat.mpr ⟨nodup_names_filter hDistinct, fun hMem => (mem_names_without.mp hMem).2 rfl⟩

theorem distinct_call_iff (hDistinct : (names q.items).Nodup) {op : QueryOp} (hCall : q.call op = some next) :
    (names next.items).Nodup ↔ q.Admits op := by
  cases op with
  | add key value =>
    cases hCall
    exact nodup_names_concat.trans (and_iff_right hDistinct)
  | set key value =>
    cases hCall
    exact iff_of_true (distinct_set hDistinct key value) trivial
  | remove key =>
    cases hCall
    exact iff_of_true (nodup_names_filter hDistinct) trivial
  | update params =>
    cases hCall
    cases params with
    | params other => exact nodup_names_replace hDistinct
    | pairs items =>
      refine iff_of_true ?_ trivial
      rw [update]
      induction items generalizing q with
      | nil => exact hDistinct
      | cons item items ih => exact ih (distinct_set hDistinct item.1 item.2)
  | merge params =>
    cases hCall
    exact nodup_names_append.trans (and_iff_right hDistinct)
  | delItem key =>
    obtain rfl := delItem_some hCall
    exact iff_of_true (nodup_names_filter hDistinct) trivial

theorem admits_of_error {op : QueryOp} (hCall : q.call op = none) : q.Admits op := by
  cases op with
  | delItem key => trivial
  | _ => cases hCall

def StepLaws (q : QueryParams) (op : QueryOp) (next : QueryParams) : Prop :=
  Laws next ∧ ∀ after, q.call op = some after → ∀ k, after.getList k = q.expected k op

theorem stepLaws_iff (hDistinct : (names q.items).Nodup) {op : QueryOp} (hStep : q.step op = some next) :
    StepLaws q op next ↔ q.Admits op := by
  cases hStep
  rw [StepLaws, laws_iff, and_iff_left fun after hCall k => getList_call hCall]
  cases hCall : q.call op with
  | none => exact iff_of_true hDistinct (admits_of_error hCall)
  | some next => exact distinct_call_iff hDistinct hCall

theorem query_run_laws_iff (q : QueryParams) (ops : List QueryOp) :
    Laws q ∧ Transition.Along step StepLaws q ops ↔ (names q.items).Nodup ∧
    Transition.Along step (fun q op _ => q.Admits op) q ops := by
  rw [laws_iff]
  refine and_congr_right fun hDistinct => ?_
  exact Transition.along_iff_of_good (fun q => (names q.items).Nodup) hDistinct (fun _ _ hLaws => laws_iff.mp hLaws.1)
    fun hGood hStep => stepLaws_iff hGood hStep

end QueryParams

/-- The laws of both mappings hold in every state of a run, and every call does what it is for, exactly where no
name or key is ever given a second value and no line break comes in unchecked. -/
theorem mappings_lawful {casing : Casing} {source : Source casing} {h : Headers casing} (hInit : Headers.init source = some h)
    (ops : List (Op casing)) (decode : List UInt8 → Chars) (query : QuerySource) (kwargs : List (Chars × Chars))
    (queryOps : List QueryOp) :
    (h.Laws ∧ Transition.Along Headers.step Headers.StepLaws h ops ↔
      source.Admits ∧ Transition.Along Headers.step (fun h op _ => h.Admits op) h ops) ∧
    ((QueryParams.init decode query kwargs).Laws ∧
        Transition.Along QueryParams.step QueryParams.StepLaws (QueryParams.init decode query kwargs) queryOps ↔
      (names (query.items decode ++ kwargs)).Nodup ∧
        Transition.Along QueryParams.step (fun q op _ => q.Admits op) (QueryParams.init decode query kwargs) queryOps) :=
  ⟨Headers.run_laws_iff hInit ops, QueryParams.query_run_laws_iff _ queryOps⟩

def asciiCasing : Casing where
  lower := Urls.asciiLower
  idem := Urls.asciiLower_idem
  breaks s := by
    have hKept : ∀ c, c = '\r' ∨ c = '\n' → ((c ∈ Urls.asciiLower s) ↔ c ∈ s) := by
      intro c hc
      refine Urls.mem_filter_delim (Urls.asciiLower_lowers.delims s) ?_
      rcases hc with rfl | rfl <;> rfl
    rw [hasBreak, hasBreak, Bool.eq_iff_iff, Bool.or_eq_true, Bool.or_eq_true, List.contains_iff_mem, List.contains_iff_mem,
      List.contains_iff_mem, List.contains_iff_mem, hKept _ (Or.inl rfl), hKept _ (Or.inr rfl)]

def single : Headers asciiCasing := ⟨[(asciiCasing.name ['a'], ['1'])]⟩

theorem mappings_lawful_example :
    single.Laws ∧ Transition.Along Headers.step Headers.StepLaws single
    [.setItem ['B'] ['2'], .append ['C'] ['3'], .pop (.str ['b'])] := by
  have hInit : Headers.init (.pairs [(.str ['A'], .str ['1'])]) = some single := rfl
  have hAdmits : (Source.pairs [(.str ['A'], .str ['1'])] : Source asciiCasing).Admits := List.nodup_singleton _
  refine (mappings_lawful hInit _ Urls.decodeText .none [] []).1.mpr ⟨hAdmits, _, rfl, trivial, _, rfl, ?_, _, rfl,
    trivial, trivial⟩
  intro _
  decide

def twice : Headers asciiCasing := ⟨[(asciiCasing.name ['a'], ['1']), (asciiCasing.name ['a'], ['2'])]⟩

/-- A name that is given twice has another value in `items`, is counted twice and is there after `pop`; `setdefault` stores a line
break. -/
theorem not_mappings_lawful : Headers.init (.pairs [(.str ['a'], .str ['1']), (.str ['A'], .str ['2'])]) = some twice ∧
    ¬ twice.Laws ∧
    twice.getItem (asciiCasing.name ['a']) = some "1, 2".toList ∧ dictGet (asciiCasing.name ['a']) twice.firstItems = some ['1'] ∧
    twice.len = 2 ∧ twice.keys.length = 1 ∧ (twice.pop (asciiCasing.name ['a'])).contains (asciiCasing.name ['a']) = true ∧
    ¬ Headers.Laws (single.setdefault (asciiCasing.name ['x']) "v\r\nset-cookie: s".toList) ∧
    ¬ QueryParams.Laws ⟨[(['a'], ['1']), (['a'], ['2'])]⟩ := by
  refine ⟨rfl, fun hLaws => ?_, by decide, by decide, rfl, by decide, by decide, fun hLaws => ?_, fun hLaws => ?_⟩
  · exact absurd hLaws.length (by decide)
  · have hClean := hLaws.clean (asciiCasing.name ['x'], "v\r\nset-cookie: s".toList) (by decide)
    exact absurd hClean (by decide)
  · exact absurd hLaws.length (by decide)

end Eggfetch.Facade.Mapping
