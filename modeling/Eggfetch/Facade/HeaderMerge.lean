import Eggfetch.Facade.HeaderMapping
import Eggfetch.Text.Bytes
import Mathlib.Data.List.Forall2

/-! The headers of a client and of a request merged: `_merge_default_headers` and `Client._merge_headers` (`_client.py`) over
`Headers.update` (`_headers.py`). -/
namespace Eggfetch.Facade.Merge
open Text Text.Pairs Mapping

deriving instance DecidableEq for Arg

/-- The fields of a `Headers` object, in which `update` may leave bytes. -/
abbrev Raw := List (Arg × Arg)

def isText : Arg → Bool
  | .str _ => true
  | .bytes _ => false

/-- The forms that the constructor of `Headers` accepts. -/
inductive Form (casing : Casing)
  | headers (h : Mapping.Headers casing)
  | dict (items : List (Arg × Arg))
  | list (items : List (Arg × Arg))
  | tuple (items : List (Arg × Arg))

section
variable {casing : Casing}

def field (f : casing.Name × Chars) : Arg × Arg := (.str f.1.val, .str f.2)

/-- The fields of a `Headers` object without bytes. -/
def raw (h : Mapping.Headers casing) : Raw := h.items.map field

namespace Form

/-- `Headers(form)` -/
def construct : Form casing → Option (Mapping.Headers casing)
  | headers h => some h
  | dict items | list items | tuple items => Mapping.Headers.init (.pairs items)

/-- `k.lower()` of a key of a dict. -/
def lowerKey (casing : Casing) : Arg → Arg
  | .str key => .str (casing.lower key)
  | .bytes key => .bytes (toAsciiLowercase key)

/-- What `update` adds. -/
def incoming : Form casing → Option Raw
  | headers h => some (raw h)
  | dict items => some (items.map fun (k, v) => (lowerKey casing k, v))
  | list items | tuple items => items.mapM fun (k, v) => (Mapping.Headers.normalizeName casing k).map fun name =>
      (.str name.val, v)

def update (stored : Raw) (form : Form casing) : Option Raw := form.incoming.map (replace stored)

end Form

def mergeDefaultHeaders (defaults : Mapping.Headers casing) : Option (Form casing) → Option Raw
  | none => some (raw defaults)
  | some form => form.update (raw defaults)

def mergeHeaders (client : Raw) : Option (Form casing) → Option Raw
  | none => some client
  | some (.headers h) => (Form.headers h).update client
  | some (.dict items) => (Form.dict items : Form casing).update client
  | some (.list _) | some (.tuple _) => some client

/-- A form that the constructor accepts, with the fields it makes of it. -/
structure Given (casing : Casing) where
  form : Form casing
  made : Mapping.Headers casing
  accepted : form.construct = some made

def fieldsOf : Option (Given casing) → List (casing.Name × Chars)
  | none => []
  | some given => given.made.items

/-- The fields of the request, and in front of them those of the client that the request does not name. -/
def expected (defaults : Mapping.Headers casing) (client request : Option (Given casing)) : List (casing.Name × Chars) :=
  replace (replace defaults.items (fieldsOf client)) (fieldsOf request)

/-- The client stores its headers, and the merge yields what is expected. -/
def Merges (defaults : Mapping.Headers casing) (client request : Option (Given casing)) : Prop :=
  ∃ stored, mergeDefaultHeaders defaults (client.map Given.form) = some stored ∧
    mergeHeaders stored (request.map Given.form) = some ((expected defaults client request).map field)

/-- The client's form holds no bytes that a request with the given names would show. -/
def Plain (given : List casing.Name) : Form casing → Prop
  | .headers _ => True
  | .dict items => ∀ item ∈ items, isText item.1 = true ∧
      (isText item.2 = true ∨ ∃ name ∈ given, Mapping.Headers.normalizeName casing item.1 = some name)
  | .list items | .tuple items => ∀ item ∈ items,
      isText item.2 = true ∨ ∃ name ∈ given, Mapping.Headers.normalizeName casing item.1 = some name

/-- The list ends with the other, and no name of the other occurs before. -/
def EndsWith (fields suffix : List (casing.Name × Chars)) : Prop :=
  ∃ front, fields = front ++ suffix ∧ ∀ name ∈ names front, name ∉ names suffix

def Mergeable (defaults : Mapping.Headers casing) (client request : Option (Given casing)) : Prop :=
  match request with
  | none => ∀ c ∈ client, Plain [] c.form
  | some ⟨.headers h, _, _⟩ => ∀ c ∈ client, Plain (names h.items) c.form
  | some ⟨.dict items, made, _⟩ => (∀ item ∈ items, isText item.1 = true ∧ isText item.2 = true) ∧
      ∀ c ∈ client, Plain (names made.items) c.form
  | some ⟨.list _, made, _⟩ | some ⟨.tuple _, made, _⟩ => (∀ c ∈ client, Plain [] c.form) ∧
      EndsWith (replace defaults.items (fieldsOf client)) made.items

section
variable {κ ν : Type} [DecidableEq κ]

def unnamed (given : List κ) (items : List (κ × ν)) : List (κ × ν) := items.filter fun item => item.1 ∉ given

theorem mem_unnamed {given : List κ} {items : List (κ × ν)} {item : κ × ν} :
    item ∈ unnamed given items ↔ item ∈ items ∧ item.1 ∉ given := by
  rw [unnamed, List.mem_filter, decide_eq_true_iff]

theorem unnamed_append (given : List κ) (xs ys : List (κ × ν)) :
    unnamed given (xs ++ ys) = unnamed given xs ++ unnamed given ys :=
  List.filter_append ..

theorem unnamed_cons_of_mem {given : List κ} {item : κ × ν} {items : List (κ × ν)} (h : item.1 ∈ given) :
    unnamed given (item :: items) = unnamed given items :=
  List.filter_cons_of_neg (by rw [decide_eq_true_iff]; exact not_not_intro h)

theorem unnamed_cons_of_not_mem {given : List κ} {item : κ × ν} {items : List (κ × ν)} (h : item.1 ∉ given) :
    unnamed given (item :: items) = item :: unnamed given items := List.filter_cons_of_pos (decide_eq_true h)

theorem unnamed_eq_self {given : List κ} {items : List (κ × ν)} (h : ∀ item ∈ items, item.1 ∉ given) :
    unnamed given items = items :=
  List.filter_eq_self.mpr fun item hItem => decide_eq_true (h item hItem)

theorem unnamed_eq_nil {given : List κ} {items : List (κ × ν)} (h : ∀ item ∈ items, item.1 ∈ given) : unnamed given items = [] :=
  List.filter_eq_nil_iff.mpr fun item hItem => by
    rw [decide_eq_true_iff]
    exact not_not_intro (h item hItem)

theorem unnamed_nil (items : List (κ × ν)) : unnamed [] items = items := unnamed_eq_self fun _ _ => List.not_mem_nil

theorem replace_nil (items : List (κ × ν)) : replace items [] = items := by
  rw [replace, List.append_nil]
  exact List.filter_eq_self.mpr fun _ _ => rfl

theorem replace_eq (items incoming : List (κ × ν)) : replace items incoming = unnamed (names incoming) items ++ incoming := by
  rw [replace]
  refine congrArg (· ++ incoming) (List.filter_congr fun item _ => ?_)
  rw [Bool.eq_iff_iff, Bool.not_eq_true', ← Bool.not_eq_true, List.contains_iff_mem, decide_eq_true_iff]

end

/-- A stored field beside the one that the constructor makes of the same item. -/
structure Stores (s : Arg × Arg) (f : casing.Name × Chars) : Prop where
  name : isText s.1 = true → s.1 = .str f.1.val
  value : isText s.2 = true → s.2 = .str f.2

theorem stores_field (f : casing.Name × Chars) : Stores (field f) f := ⟨fun _ => rfl, fun _ => rfl⟩

theorem Stores.eq {s : Arg × Arg} {f : casing.Name × Chars} (h : Stores s f) (hName : isText s.1 = true)
    (hValue : isText s.2 = true) :
    s = field f := Prod.ext (h.name hName) (h.value hValue)

def nameArgs (given : List casing.Name) : List Arg := given.map (.str ·.val)

theorem names_map_field (fields : List (casing.Name × Chars)) : names (fields.map field) = nameArgs (names fields) := by
  rw [names, nameArgs, names, List.map_map, List.map_map]
  rfl

theorem mem_nameArgs {given : List casing.Name} {name : casing.Name} : Arg.str name.val ∈ nameArgs given ↔ name ∈ given := by
  rw [nameArgs, List.mem_map]
  constructor
  · rintro ⟨name', hMem, hSame⟩
    rw [← Subtype.ext (Arg.str.inj hSame)]
    exact hMem
  · exact fun hMem => ⟨name, hMem, rfl⟩

theorem isText_of_mem_nameArgs {given : List casing.Name} {name : Arg} (h : name ∈ nameArgs given) : isText name = true := by
  obtain ⟨name', -, rfl⟩ := List.mem_map.mp h
  rfl

/-- Leaving out names commutes with storing. -/
theorem unnamed_map_field (given : List casing.Name) (fields : List (casing.Name × Chars)) :
    unnamed (nameArgs given) (fields.map field) = (unnamed given fields).map field := by
  induction fields with
  | nil => rfl
  | cons f fields ih =>
    by_cases hGiven : f.1 ∈ given
    · have hOut : (field f).1 ∈ nameArgs given := mem_nameArgs.mpr hGiven
      rw [List.map_cons, unnamed_cons_of_mem hOut, unnamed_cons_of_mem hGiven, ih]
    · have hKept : (field f).1 ∉ nameArgs given := fun h => hGiven (mem_nameArgs.mp h)
      rw [List.map_cons, unnamed_cons_of_not_mem hKept, unnamed_cons_of_not_mem hGiven, ih, List.map_cons]

/-- No bytes are left in what a request with these names shows. -/
def Shown (given : List Arg) (stored : Raw) : Prop :=
  ∀ s ∈ stored, isText s.1 = true ∧ (isText s.2 = true ∨ s.1 ∈ given)

section
variable {stored : Raw} {fields : List (casing.Name × Chars)}

private theorem names_of_stores (h : List.Forall₂ Stores stored fields) (hText : ∀ s ∈ stored, isText s.1 = true) :
    names stored = nameArgs (names fields) := by
  induction h with
  | nil => rfl
  | @cons s f stored fields hStores _ ih =>
    obtain ⟨hName, hRest⟩ := List.forall_mem_cons.mp hText
    rw [names_cons, names_cons, ih hRest, hStores.name hName]
    rfl

private theorem unnamed_of_stores {given : List casing.Name} (h : List.Forall₂ Stores stored fields)
    (hShown : Shown (nameArgs given) stored) :
    unnamed (nameArgs given) stored = (unnamed given fields).map field := by
  induction h with
  | nil => rfl
  | @cons s f stored fields hStores _ ih =>
    obtain ⟨⟨hName, hValue⟩, hRest⟩ := List.forall_mem_cons.mp hShown
    by_cases hGiven : f.1 ∈ given
    · have hOut : s.1 ∈ nameArgs given := by
        rw [hStores.name hName]
        exact mem_nameArgs.mpr hGiven
      rw [unnamed_cons_of_mem hOut, unnamed_cons_of_mem hGiven, ih hRest]
    · have hKept : s.1 ∉ nameArgs given := by
        rw [hStores.name hName, mem_nameArgs]
        exact hGiven
      rw [unnamed_cons_of_not_mem hKept, unnamed_cons_of_not_mem hGiven, ih hRest,
        hStores.eq hName (hValue.resolve_right hKept), List.map_cons]

private theorem shown_iff (h : List.Forall₂ Stores stored fields) (defaults : List (casing.Name × Chars))
    (given : List casing.Name) :
    unnamed (nameArgs given) (replace (defaults.map field) stored) = (unnamed given (replace defaults fields)).map field ↔
    Shown (nameArgs given) stored := by
  constructor
  · intro hSame s hs
    have hField : s.1 ∉ nameArgs given → ∃ f : casing.Name × Chars, field f = s := by
      intro hNot
      have hMem : s ∈ unnamed (nameArgs given) (replace (defaults.map field) stored) :=
        mem_unnamed.mpr ⟨List.mem_append_right _ hs, hNot⟩
      rw [hSame] at hMem
      obtain ⟨f, -, hf⟩ := List.mem_map.mp hMem
      exact ⟨f, hf⟩
    by_cases hGiven : s.1 ∈ nameArgs given
    · exact ⟨isText_of_mem_nameArgs hGiven, Or.inr hGiven⟩
    · obtain ⟨f, rfl⟩ := hField hGiven
      exact ⟨rfl, Or.inl rfl⟩
  · intro hShown
    have hNames := names_of_stores h fun s hs => (hShown s hs).1
    rw [replace_eq, replace_eq, hNames, unnamed_map_field, unnamed_append, unnamed_append, List.map_append,
      unnamed_map_field, unnamed_of_stores h hShown]

theorem map_field_iff (h : List.Forall₂ Stores stored fields) :
    stored = fields.map field ↔ ∀ s ∈ stored, isText s.1 = true ∧ isText s.2 = true := by
  constructor
  · rintro rfl s hs
    obtain ⟨f, -, rfl⟩ := List.mem_map.mp hs
    exact ⟨rfl, rfl⟩
  · intro hText
    induction h with
    | nil => rfl
    | @cons s f stored fields hStores _ ih =>
      obtain ⟨⟨hName, hValue⟩, hRest⟩ := List.forall_mem_cons.mp hText
      rw [List.map_cons, hStores.eq hName hValue, ih hRest]

end

theorem item_stores {item : Arg × Arg} {f : casing.Name × Chars} (h : Source.item casing item = some f) :
    Mapping.Headers.normalizeName casing item.1 = some f.1 ∧ Stores (Form.lowerKey casing item.1, item.2) f ∧
      Stores (.str f.1.val, item.2) f := by
  obtain ⟨name, value⟩ := item
  obtain ⟨name', hName, h⟩ := Option.bind_eq_some_iff.mp h
  obtain ⟨value', hValue, h⟩ := Option.bind_eq_some_iff.mp h
  split at h
  · cases h
    have hText : isText value = true → value = .str value' := by
      intro hText
      cases value with
      | str text => exact congrArg Arg.str (Option.some.inj hValue)
      | bytes content => cases hText
    refine ⟨?_, ⟨?_, hText⟩, ⟨fun _ => rfl, hText⟩⟩
    · rw [Mapping.Headers.normalizeName, hName]
      rfl
    · intro hNameText
      cases name with
      | str text =>
        obtain rfl := Option.some.inj hName
        rfl
      | bytes content => cases hNameText
  · cases h

theorem isText_lowerKey (key : Arg) : isText (Form.lowerKey casing key) = isText key := by cases key <;> rfl

theorem lowerKey_mem {given : List casing.Name} {key : Arg} (h : isText key = true) :
    Form.lowerKey casing key ∈ nameArgs given ↔ ∃ name ∈ given, Mapping.Headers.normalizeName casing key = some name := by
  cases key with
  | bytes content => cases h
  | str text =>
    have hName : Mapping.Headers.normalizeName casing (.str text) = some (casing.name text) := rfl
    have hKey : Form.lowerKey casing (.str text) = .str (casing.name text).val := rfl
    rw [hName, hKey, mem_nameArgs]
    exact ⟨fun hMem => ⟨_, hMem, rfl⟩, fun ⟨name, hMem, hSame⟩ => Option.some.inj hSame ▸ hMem⟩

theorem dict_incoming {items : List (Arg × Arg)} {fields : List (casing.Name × Chars)}
    (h : items.mapM (Source.item casing) = some fields) :
    List.Forall₂ Stores (items.map fun (k, v) => (Form.lowerKey casing k, v)) fields := by
  induction items generalizing fields with
  | nil =>
    cases h
    exact .nil
  | cons item items ih =>
    rw [List.mapM_cons] at h
    obtain ⟨f, hFirst, h⟩ := Option.bind_eq_some_iff.mp h
    obtain ⟨rest, hRest, h⟩ := Option.bind_eq_some_iff.mp h
    cases h
    exact .cons (item_stores hFirst).2.1 (ih hRest)

private theorem list_incoming {items : List (Arg × Arg)} {fields : List (casing.Name × Chars)}
    (h : items.mapM (Source.item casing) = some fields) :
    ∃ stored, (items.mapM fun (k, v) => (Mapping.Headers.normalizeName casing k).map fun name =>
      ((.str name.val : Arg), v)) = some stored ∧
      List.Forall₂ Stores stored fields ∧ ∀ given : List casing.Name, Shown (nameArgs given) stored ↔
        ∀ item ∈ items, isText item.2 = true ∨ ∃ name ∈ given, Mapping.Headers.normalizeName casing item.1 = some name := by
  induction items generalizing fields with
  | nil =>
    cases h
    exact ⟨[], rfl, .nil, fun given => iff_of_true (List.forall_mem_nil _) (List.forall_mem_nil _)⟩
  | cons item items ih =>
    rw [List.mapM_cons] at h
    obtain ⟨f, hFirst, h⟩ := Option.bind_eq_some_iff.mp h
    obtain ⟨rest, hRest, h⟩ := Option.bind_eq_some_iff.mp h
    cases h
    obtain ⟨stored, hStored, hStores, hShown⟩ := ih hRest
    obtain ⟨hName, -, hFirst⟩ := item_stores hFirst
    refine ⟨(.str f.1.val, item.2) :: stored, ?_, .cons hFirst hStores, fun given => ?_⟩
    · rw [List.mapM_cons, hStored]
      dsimp only
      rw [hName]
      rfl
    · rw [Shown, List.forall_mem_cons, List.forall_mem_cons, ← Shown, hShown given, hName]
      have hText : isText (.str f.1.val) = true := rfl
      refine and_congr_left fun _ => (and_iff_right hText).trans (or_congr_right (mem_nameArgs.trans ?_))
      exact ⟨fun hMem => ⟨_, hMem, rfl⟩, fun ⟨name, hMem, hSame⟩ => Option.some.inj hSame ▸ hMem⟩

private theorem stores_raw (h : Mapping.Headers casing) : List.Forall₂ Stores (raw h) h.items := by
  rw [raw, List.forall₂_map_left_iff, List.forall₂_same]
  exact fun f _ => stores_field f

private theorem incoming_of_construct {form : Form casing} {made : Mapping.Headers casing} (h : form.construct = some made) :
    ∃ stored, form.incoming = some stored ∧ List.Forall₂ Stores stored made.items ∧
      ∀ given, Shown (nameArgs given) stored ↔ Plain given form := by
  cases form with
  | headers other =>
    cases h
    refine ⟨raw made, rfl, stores_raw made, fun given => iff_of_true (fun s hs => ?_) trivial⟩
    obtain ⟨f, -, rfl⟩ := List.mem_map.mp hs
    exact ⟨rfl, Or.inl rfl⟩
  | dict items =>
    obtain ⟨fields, hFields, rfl⟩ := Option.map_eq_some_iff.mp h
    refine ⟨_, rfl, dict_incoming hFields, fun given => ?_⟩
    rw [Shown, List.forall_mem_map, Plain]
    refine forall₂_congr fun item _ => ?_
    rw [isText_lowerKey]
    exact and_congr_right fun hText => or_congr_right (lowerKey_mem hText)
  | list items =>
    obtain ⟨fields, hFields, rfl⟩ := Option.map_eq_some_iff.mp h
    exact list_incoming hFields
  | tuple items =>
    obtain ⟨fields, hFields, rfl⟩ := Option.map_eq_some_iff.mp h
    exact list_incoming hFields

private theorem mergeDefaultHeaders_eq (defaults : Mapping.Headers casing) (client : Option (Given casing)) :
    ∃ stored, mergeDefaultHeaders defaults (client.map Given.form) = some stored ∧
      (∀ given, unnamed (nameArgs given) stored = (unnamed given (replace defaults.items (fieldsOf client))).map field ↔
        ∀ c ∈ client, Plain given c.form) ∧
      ((∀ s ∈ stored, isText s.1 = true ∧ isText s.2 = true) → ∀ c ∈ client, Plain [] c.form) := by
  cases client with
  | none =>
    have hNone : ∀ given, ∀ c ∈ (none : Option (Given casing)), Plain given c.form :=
      fun _ c hc => absurd hc (Option.not_mem_none c)
    refine ⟨raw defaults, rfl, fun given => iff_of_true ?_ (hNone given), fun _ => hNone []⟩
    rw [fieldsOf, replace_nil, raw, unnamed_map_field]
  | some client =>
    obtain ⟨stored, hStored, hStores, hShown⟩ := incoming_of_construct client.accepted
    refine ⟨replace (raw defaults) stored, ?_, fun given => ?_, fun hText c hc => ?_⟩
    · rw [Option.map_some, mergeDefaultHeaders, Form.update, hStored]
      rfl
    · rw [raw, fieldsOf, shown_iff hStores, hShown]
      exact ⟨fun h c hc => Option.some.inj hc ▸ h, fun h => h client rfl⟩
    · obtain rfl := Option.some.inj hc
      refine (hShown []).mp fun s hs => ?_
      obtain ⟨hName, hValue⟩ := hText s (List.mem_append_right _ hs)
      exact ⟨hName, Or.inl hValue⟩

theorem endsWith_iff (fields suffix : List (casing.Name × Chars)) : fields = replace fields suffix ↔ EndsWith fields suffix := by
  rw [replace_eq]
  constructor
  · intro h
    refine ⟨unnamed (names suffix) fields, h, fun name hName => ?_⟩
    obtain ⟨f, hf, rfl⟩ := List.mem_map.mp hName
    exact (mem_unnamed.mp hf).2
  · rintro ⟨front, rfl, hFront⟩
    have hOut : unnamed (names suffix) suffix = [] := unnamed_eq_nil fun f hf => List.mem_map_of_mem hf
    rw [unnamed_append, unnamed_eq_self fun f hf => hFront f.1 (List.mem_map_of_mem hf), hOut, List.append_nil]

theorem field_injective : Function.Injective (@field casing) := by
  intro f g h
  have hName := Arg.str.inj (congrArg Prod.fst h)
  have hValue := Arg.str.inj (congrArg Prod.snd h)
  exact Prod.ext (Subtype.ext hName) hValue

section
variable {stored : Raw} {clientFields given : List (casing.Name × Chars)} {Clean : List casing.Name → Prop}
  (hClean : ∀ names, unnamed (nameArgs names) stored = (unnamed names clientFields).map field ↔ Clean names)
include hClean

/-- With the request's fields stored as they are, only the client's can be wrong. -/
theorem replaced_iff : replace stored (given.map field) = (replace clientFields given).map field ↔ Clean (names given) := by
  rw [replace_eq, replace_eq, names_map_field, List.map_append, List.append_left_inj, hClean]

theorem kept_iff : stored = clientFields.map field ↔ Clean [] := by
  have hNil := hClean []
  rw [unnamed_nil clientFields] at hNil
  exact Iff.trans (by rw [nameArgs, List.map_nil, unnamed_nil]) hNil

private theorem stored_iff {incoming : Raw} (hStores : List.Forall₂ Stores incoming given) :
    replace stored incoming = (replace clientFields given).map field ↔
      (∀ s ∈ incoming, isText s.1 = true ∧ isText s.2 = true) ∧ Clean (names given) := by
  rw [← map_field_iff hStores]
  constructor
  · intro h
    have hLength : incoming.length = (given.map field).length := by rw [hStores.length_eq, List.length_map]
    have hSplit := h
    rw [replace_eq, replace_eq, List.map_append] at hSplit
    obtain rfl := (List.append_inj' hSplit hLength).2
    exact ⟨rfl, (replaced_iff hClean).mp h⟩
  · rintro ⟨rfl, h⟩
    exact (replaced_iff hClean).mpr h

private theorem ignored_iff (hText : (∀ s ∈ stored, isText s.1 = true ∧ isText s.2 = true) → Clean []) :
    stored = (replace clientFields given).map field ↔ Clean [] ∧ EndsWith clientFields given := by
  constructor
  · intro h
    have hNil : Clean [] := by
      refine hText fun s hs => ?_
      rw [h] at hs
      obtain ⟨f, -, rfl⟩ := List.mem_map.mp hs
      exact ⟨rfl, rfl⟩
    rw [(kept_iff hClean).mpr hNil] at h
    exact ⟨hNil, (endsWith_iff _ _).mp (field_injective.list_map h)⟩
  · rintro ⟨hNil, hEnds⟩
    rw [← (endsWith_iff _ _).mpr hEnds]
    exact (kept_iff hClean).mpr hNil

end

/-- The merge is as it should be exactly if it leaves no bytes in what it shows, and a request that gives a list
or a tuple repeats the last fields of the client. -/
theorem merges_iff (defaults : Mapping.Headers casing) (client request : Option (Given casing)) :
    Merges defaults client request ↔ Mergeable defaults client request := by
  obtain ⟨stored, hStored, hClean, hText⟩ := mergeDefaultHeaders_eq defaults client
  have hMerges : Merges defaults client request ↔
      mergeHeaders stored (request.map Given.form) = some ((expected defaults client request).map field) := by
    rw [Merges, hStored]
    exact ⟨fun ⟨_, hSame, h⟩ => Option.some.inj hSame ▸ h, fun h => ⟨stored, rfl, h⟩⟩
  rw [hMerges, expected]
  cases request with
  | none =>
    rw [Option.map_none, mergeHeaders, Option.some_inj, fieldsOf, replace_nil]
    exact kept_iff hClean
  | some request =>
    obtain ⟨form, made, hAccepted⟩ := request
    rw [Option.map_some]
    cases form with
    | headers h =>
      cases hAccepted
      rw [mergeHeaders, Form.update, Form.incoming, Option.map_some, Option.some_inj]
      exact replaced_iff hClean
    | dict items =>
      obtain ⟨fields, hFields, rfl⟩ := Option.map_eq_some_iff.mp hAccepted
      rw [mergeHeaders, Form.update, Form.incoming, Option.map_some, Option.some_inj]
      refine (stored_iff hClean (dict_incoming hFields)).trans (and_congr_left fun _ => ?_)
      rw [List.forall_mem_map]
      refine forall₂_congr fun item _ => ?_
      rw [isText_lowerKey]
    | list items => exact Option.some_inj.trans (ignored_iff hClean hText)
    | tuple items => exact Option.some_inj.trans (ignored_iff hClean hText)

end

end Eggfetch.Facade.Merge
