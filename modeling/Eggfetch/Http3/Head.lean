import Eggfetch.Http.Headers
import Eggfetch.Pipeline.Request
import Mathlib.Data.List.Nodup

/-! The response head on the HTTP/3 route, `transport/http3.rs`, and on the Hyper routes,
`transport/direct.rs`. The HTTP/3 route copies the received map pair by pair, with an insert
that replaces what a name had. -/
namespace Eggfetch.Http3
open Text Http Pipeline

def fieldValues (fields : List (Str × Str)) (name : Str) : List Str :=
  (fields.filter (·.1 = name)).map (·.2)

/-- The map that a decoder builds of the received fields; names are lower-case. -/
def receivedHeaders (fields : List (Str × Str)) : Headers :=
  fields.foldl (fun h field => h.append field.1 field.2) .empty

/-- An iteration over a map: names in any order, and the values of each in theirs. -/
def Iterates (pairs : List (Str × Str)) (h : Headers) : Prop :=
  ∀ name, fieldValues pairs name = h.getAll name

structure ResponseHead where
  status : Nat
  version : Version
  headers : Headers

/-- The head that `send_request_inner` returns; `pairs` is its iteration over the received
map. -/
def h3ResponseHead (status : Nat) (version : Version) (pairs : List (Str × Str)) : ResponseHead where
  status := status
  version := version
  headers := pairs.foldl (fun h pair => h.insertRaw pair.1 pair.2) .empty

/-- The head that `finish_hyper_response` returns. -/
def hyperResponseHead (status : Nat) (version : Version) (received : Headers) : ResponseHead :=
  ⟨status, version, received⟩

variable {fields pairs : List (Str × Str)} {name : Str} {status : Nat} {version : Version}

theorem fieldValues_append (fields : List (Str × Str)) (field : Str × Str) (name : Str) :
    fieldValues (fields ++ [field]) name =
      fieldValues fields name ++ if field.1 = name then [field.2] else [] := by
  by_cases h : field.1 = name <;> simp [fieldValues, List.filter_append, h]

theorem length_fieldValues (fields : List (Str × Str)) (name : Str) :
    (fieldValues fields name).length = (fields.map Prod.fst).count name := by
  induction fields with
  | nil => rfl
  | cons field fields ih =>
    simp only [fieldValues, List.length_map] at ih
    by_cases h : field.1 = name <;> simp [fieldValues, h, ih]

theorem getAll_receivedHeaders (fields : List (Str × Str)) (name : Str) :
    (receivedHeaders fields).getAll name = fieldValues fields name := by
  induction fields using List.reverseRecOn with
  | nil => rfl
  | append_singleton fields field ih =>
    rw [receivedHeaders, List.foldl_append, ← receivedHeaders, fieldValues_append, ← ih]
    by_cases h : field.1 = name
    · subst h
      simp [Headers.append]
    · have hne : name ≠ field.1 := fun h' => h h'.symm
      simp [Headers.append, h, hne]

/-- The Hyper routes keep every field. -/
theorem hyperResponseHead_getAll :
    (hyperResponseHead status version (receivedHeaders fields)).headers.getAll name = fieldValues fields name :=
  getAll_receivedHeaders fields name

private theorem h3ResponseHead_getAll :
    (h3ResponseHead status version pairs).headers.getAll name = (fieldValues pairs name).getLast?.toList := by
  induction pairs using List.reverseRecOn with
  | nil => rfl
  | append_singleton pairs pair ih =>
    simp only [h3ResponseHead, List.foldl_append, List.foldl_cons, List.foldl_nil] at ih ⊢
    rw [fieldValues_append]
    by_cases h : pair.1 = name
    · subst h
      simp
    · have hne : name ≠ pair.1 := fun h' => h h'.symm
      rw [Headers.insertRaw, Headers.getAll_set_of_ne hne, ih]
      simp [h]

private theorem getLast?_toList_eq_iff {α : Type} (l : List α) : l.getLast?.toList = l ↔ l.length ≤ 1 := by
  constructor
  · intro h
    rw [← h]
    exact Option.length_toList_le
  · intro h
    cases l with
    | nil => rfl
    | cons a l =>
      obtain rfl : l = [] := List.eq_nil_of_length_eq_zero (by simpa using h)
      rfl

/-- The head on the HTTP/3 route has every received field exactly where no name is
repeated. -/
theorem h3ResponseHead_exact_iff (hIterates : Iterates pairs (receivedHeaders fields)) :
    (∀ name, (h3ResponseHead status version pairs).headers.getAll name = fieldValues fields name) ↔
      (fields.map Prod.fst).Nodup := by
  rw [List.nodup_iff_count_le_one]
  apply forall_congr'
  intro name
  have hValues : fieldValues pairs name = fieldValues fields name :=
    (hIterates name).trans (getAll_receivedHeaders fields name)
  rw [h3ResponseHead_getAll, hValues, getLast?_toList_eq_iff, length_fieldValues]

def cookieFields : List (Str × Str) :=
  [(utf8 "set-cookie", utf8 "a=1"), (utf8 "server", utf8 "h3"), (utf8 "set-cookie", utf8 "b=2")]

/-- One of them is lost. -/
theorem set_cookie_lost :
    Iterates cookieFields (receivedHeaders cookieFields) ∧
      ¬ ∀ name, (h3ResponseHead 200 .http3 cookieFields).headers.getAll name = fieldValues cookieFields name := by
  constructor
  · intro name
    exact (getAll_receivedHeaders cookieFields name).symm
  · intro h
    exact absurd (h (utf8 "set-cookie")) (by decide)

theorem h3ResponseHead_exact_iff_example :
    (∀ name, (h3ResponseHead 200 .http3 cookieFields).headers.getAll name = fieldValues cookieFields name) ↔
      (cookieFields.map Prod.fst).Nodup :=
  h3ResponseHead_exact_iff fun name => (getAll_receivedHeaders cookieFields name).symm

end Eggfetch.Http3
