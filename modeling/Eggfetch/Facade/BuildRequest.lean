import Eggfetch.Facade.HeaderMerge
import Eggfetch.Text.Dictionary
import Mathlib

/-! `Client.build_request` (`_client.py`): what a request takes over from its client, and what it leaves to it. Objects that can
change are referred to by their places. -/
namespace Eggfetch.Facade.Merge
open Text Text.Pairs Mapping

/-- A cookie of `http.cookiejar`. -/
structure Cookie (A : Type) where
  domain : Chars
  path : Chars
  name : Chars
  value : Chars
  attributes : A

abbrev CookieKey := Chars × Chars × Chars

/-- A jar has one cookie for each domain, path and name; in which order it lists them is left out. -/
abbrev Jar (A : Type) := Dict CookieKey (Cookie A)

/-- The forms that the constructor of `Cookies` accepts; of values that are no texts, `str` is taken. -/
inductive CookieForm (A : Type)
  | cookies (jar : Jar A)
  | dict (items : List (Chars × Chars))
  | list (items : List (Chars × Chars))
  | tuple (items : List (Chars × Chars))
  | jar (jar : Jar A)

section
variable {casing : Casing} {A : Type} (plain : A)

/-- `Cookies.set`; `plain` are the attributes of a cookie without options. -/
def setPlain (jar : Jar A) (item : Chars × Chars) : Jar A :=
  jar.set ([], ['/'], item.1) ⟨[], ['/'], item.1, item.2, plain⟩

/-- `Cookies(form)` -/
def constructCookies : Option (CookieForm A) → Jar A
  | none => .empty
  | some (.cookies jar) => Dict.empty.update jar.items
  | some (.dict items) | some (.list items) | some (.tuple items) => items.foldl (setPlain plain) .empty
  | some (.jar jar) => jar

/-- The objects of a client and of its requests. -/
structure Heap (A : Type) where
  headers : List Raw
  jars : List (Jar A)
  params : List (List (Chars × Chars))

/-- Where the headers, the cookies and the parameters of a client or a request are. -/
structure Refs where
  headers : Nat
  cookies : Nat
  params : Nat

namespace Heap

def newHeaders (heap : Heap A) (items : Raw) : Heap A × Nat :=
  ({ heap with headers := heap.headers ++ [items] }, heap.headers.length)

def newJar (heap : Heap A) (jar : Jar A) : Heap A × Nat := ({ heap with jars := heap.jars ++ [jar] }, heap.jars.length)

def newParams (heap : Heap A) (items : List (Chars × Chars)) : Heap A × Nat :=
  ({ heap with params := heap.params ++ [items] }, heap.params.length)

def modifyHeaders (heap : Heap A) (ref : Nat) (f : Raw → Raw) : Heap A := { heap with headers := heap.headers.modify ref f }

def modifyJar (heap : Heap A) (ref : Nat) (f : Jar A → Jar A) : Heap A := { heap with jars := heap.jars.modify ref f }

end Heap

/-- `_merge_headers`: the client's headers are copied, and the copy is updated. -/
def mergeHeadersIn (heap : Heap A) (client : Refs) (form : Option (Form casing)) : Heap A × Nat :=
  let (heap, merged) := heap.newHeaders (heap.headers.getD client.headers [])
  (heap.modifyHeaders merged fun items => (mergeHeaders items form).getD items, merged)

/-- `_merge_cookies` -/
def mergeCookiesIn (heap : Heap A) (client : Refs) (form : Option (CookieForm A)) : Heap A × Nat :=
  let (heap, merged) := heap.newJar (Dict.empty.update (heap.jars.getD client.cookies .empty).items)
  match form with
  | some (.cookies jar) => (heap.modifyJar merged (·.update jar.items), merged)
  | some (.dict items) => (heap.modifyJar merged (·.update (constructCookies plain (some (.dict items))).items), merged)
  | _ => (heap, merged)

/-- `_merge_params`: without parameters of its own a request gets the client's object. -/
def mergeParamsIn (heap : Heap A) (client : Refs) : Option (List (Chars × Chars)) → Heap A × Nat
  | none => (heap, client.params)
  | some items => heap.newParams (replace (heap.params.getD client.params []) items)

/-- `if name not in headers: headers[name] = value`, for what the constructor of `Request` makes of the URL and the body. -/
def addMissing (items : Raw) (f : casing.Name × Chars) : Raw :=
  if Arg.str f.1.val ∈ names items then items else items ++ [field f]

def cookieKey (casing : Casing) : Arg := .str (casing.name "cookie".toList).val

/-- The headers in the constructor of `Request`; `none` is the `TypeError` of `get("cookie")`, which joins the values. -/
def initHeaders (heap : Heap A) (ref : Nat) (generated : List (casing.Name × Chars)) : Heap A × Option Unit :=
  if (valuesOf (cookieKey casing) (heap.headers.getD ref [])).all isText then
    (heap.modifyHeaders ref fun items => generated.foldl addMissing items, some ())
  else (heap, none)

structure Arguments (casing : Casing) (A : Type) where
  headers : Option (Given casing)
  cookies : Option (CookieForm A)
  params : Option (List (Chars × Chars))

def buildRequest (heap : Heap A) (client : Refs) (arguments : Arguments casing A) (generated : List (casing.Name × Chars)) :
    Heap A × Option Refs :=
  let (heap, params) := mergeParamsIn heap client arguments.params
  let (heap, headers) := mergeHeadersIn heap client (arguments.headers.map Given.form)
  let (heap, cookies) := mergeCookiesIn plain heap client arguments.cookies
  let (heap, done) := initHeaders heap headers generated
  (heap, done.map fun _ => ⟨headers, cookies, params⟩)

/-- A client with the form its headers were given in. -/
structure ClientState (casing : Casing) (A : Type) where
  heap : Heap A
  refs : Refs
  defaults : Mapping.Headers casing
  given : Option (Given casing)
  stored : Raw
  made : mergeDefaultHeaders defaults (given.map Given.form) = some stored
  headers : heap.headers[refs.headers]? = some stored
  jar : Jar A
  cookies : heap.jars[refs.cookies]? = some jar
  params : refs.params < heap.params.length

/-- The client's objects are what they were. -/
structure Kept (client : ClientState casing A) (heap : Heap A) : Prop where
  headers : heap.headers[client.refs.headers]? = client.heap.headers[client.refs.headers]?
  cookies : heap.jars[client.refs.cookies]? = client.heap.jars[client.refs.cookies]?
  params : heap.params[client.refs.params]? = client.heap.params[client.refs.params]?

/-- The request has the merged fields, in front of those that its constructor adds, and the merged cookies. -/
structure Takes (client : ClientState casing A) (arguments : Arguments casing A) (generated : List (casing.Name × Chars))
    (heap : Heap A) (request : Refs) : Prop where
  headers : heap.headers[request.headers]? =
    some (generated.foldl addMissing ((expected client.defaults client.given arguments.headers).map field))
  cookies : ∃ jar, heap.jars[request.cookies]? = some jar ∧
    ∀ key, jar.get key = ((constructCookies plain arguments.cookies).get key).or (client.jar.get key)

/-- Whatever URL and body the request is for, it takes over what it should, and the client keeps what it has. -/
def Builds (client : ClientState casing A) (arguments : Arguments casing A) : Prop :=
  ∀ generated, Kept client (buildRequest plain client.heap client.refs arguments generated).1 ∧
    ∃ request, (buildRequest plain client.heap client.refs arguments generated).2 = some request ∧
      Takes plain client arguments generated (buildRequest plain client.heap client.refs arguments generated).1 request

/-- Cookies in a list, a tuple or a jar of the standard library are the client's already. -/
def CookiesMergeable (jar : Jar A) (form : Option (CookieForm A)) : Prop :=
  match form with
  | some (.list _) | some (.tuple _) | some (.jar _) =>
    ∀ key cookie, (constructCookies plain form).get key = some cookie → jar.get key = some cookie
  | _ => True

theorem modify_concat {α : Type} (l : List α) (a : α) (f : α → α) : (l ++ [a]).modify l.length f = l ++ [f a] := by
  induction l with
  | nil => rfl
  | cons b l ih => rw [List.cons_append, List.length_cons, List.modify_succ_cons, ih, List.cons_append]

def mergedJar (jar : Jar A) (form : Option (CookieForm A)) : Jar A :=
  match form with
  | some (.cookies other) => (Dict.empty.update jar.items).update other.items
  | some (.dict items) => (Dict.empty.update jar.items).update (constructCookies plain (some (.dict items))).items
  | _ => Dict.empty.update jar.items

theorem mergeCookiesIn_eq (heap : Heap A) (client : Refs) (form : Option (CookieForm A)) : mergeCookiesIn plain heap client form =
    ({ heap with jars := heap.jars ++ [mergedJar plain (heap.jars.getD client.cookies .empty) form] }, heap.jars.length) := by
  cases form with
  | none => rfl
  | some form => cases form with
    | cookies other => simp only [mergeCookiesIn, mergedJar, Heap.newJar, Heap.modifyJar, modify_concat]
    | dict items => simp only [mergeCookiesIn, mergedJar, Heap.newJar, Heap.modifyJar, modify_concat]
    | list items => rfl
    | tuple items => rfl
    | jar other => rfl

theorem mergeHeadersIn_eq (heap : Heap A) (client : Refs) (form : Option (Form casing)) : mergeHeadersIn heap client form =
    ({ heap with headers := heap.headers ++ [(mergeHeaders (heap.headers.getD client.headers []) form).getD
      (heap.headers.getD client.headers [])] }, heap.headers.length) := by
  simp only [mergeHeadersIn, Heap.newHeaders, Heap.modifyHeaders, modify_concat]

private theorem mergedJar_iff (jar : Jar A) (form : Option (CookieForm A)) :
    (∀ key, (mergedJar plain jar form).get key = ((constructCookies plain form).get key).or (jar.get key)) ↔
      CookiesMergeable plain jar form := by
  have hCopy : ∀ (other : Jar A) key, (Dict.empty.update other.items : Jar A).get key = other.get key := by
    intro other key
    rw [Dict.get_update, Dict.get_empty, Option.or_none]
  have hIgnored : ∀ given : Jar A, (∀ key, (Dict.empty.update jar.items : Jar A).get key = (given.get key).or (jar.get key)) ↔
      ∀ key cookie, given.get key = some cookie → jar.get key = some cookie := by
    intro given
    refine forall_congr' fun key => ?_
    rw [hCopy]
    cases given.get key with
    | none => exact iff_of_true rfl fun cookie hNone => nomatch hNone
    | some cookie =>
      rw [Option.some_or]
      exact ⟨fun h cookie' hSome => Option.some.inj hSome ▸ h, fun h => h cookie rfl⟩
  cases form with
  | none =>
    exact iff_of_true (hCopy jar) trivial
  | some form => cases form with
    | cookies other =>
      refine iff_of_true (fun key => ?_) trivial
      rw [mergedJar, constructCookies, Dict.get_update, hCopy, hCopy]
    | dict items =>
      refine iff_of_true (fun key => ?_) trivial
      rw [mergedJar, Dict.get_update, hCopy]
    | list items => exact hIgnored _
    | tuple items => exact hIgnored _
    | jar other => exact hIgnored _

private theorem mergeHeaders_isSome (stored : Raw) (request : Option (Given casing)) :
    ∃ merged, mergeHeaders stored (request.map Given.form) = some merged := by
  cases request with
  | none => exact ⟨stored, rfl⟩
  | some request =>
    obtain ⟨form, made, hAccepted⟩ := request
    cases form <;> exact ⟨_, rfl⟩

private theorem initHeaders_eq (headers : List Raw) (merged : Raw) (jars : List (Jar A)) (params : List (List (Chars × Chars)))
    (generated : List (casing.Name × Chars)) : initHeaders ⟨headers ++ [merged], jars, params⟩ headers.length generated =
      if (valuesOf (cookieKey casing) merged).all isText then
        (⟨headers ++ [generated.foldl addMissing merged], jars, params⟩, some ())
      else (⟨headers ++ [merged], jars, params⟩, none) := by
  have hLast : (headers ++ [merged]).getD headers.length [] = merged := by
    rw [List.getD_eq_getElem?_getD, List.getElem?_concat_length, Option.getD_some]
  rw [initHeaders, hLast, Heap.modifyHeaders, modify_concat]

private theorem mergeParamsIn_eq (heap : Heap A) (client : Refs) (items : Option (List (Chars × Chars))) :
    ∃ added ref, mergeParamsIn heap client items = (⟨heap.headers, heap.jars, heap.params ++ added⟩, ref) := by
  cases items with
  | none => exact ⟨[], client.params, by rw [List.append_nil]; rfl⟩
  | some items => exact ⟨_, _, rfl⟩

section
variable (client : ClientState casing A) (arguments : Arguments casing A)

/-- The heap and the request that a call leaves. -/
theorem buildRequest_eq : ∃ merged added paramsRef, mergeHeaders client.stored (arguments.headers.map Given.form) = some merged ∧
    ∀ generated, buildRequest plain client.heap client.refs arguments generated =
      if (valuesOf (cookieKey casing) merged).all isText then
        (⟨client.heap.headers ++ [generated.foldl addMissing merged], client.heap.jars ++
          [mergedJar plain client.jar arguments.cookies],
          client.heap.params ++ added⟩, some ⟨client.heap.headers.length, client.heap.jars.length, paramsRef⟩)
      else (⟨client.heap.headers ++ [merged], client.heap.jars ++ [mergedJar plain client.jar arguments.cookies],
        client.heap.params ++ added⟩, none) := by
  obtain ⟨merged, hMerged⟩ := mergeHeaders_isSome client.stored arguments.headers
  obtain ⟨added, paramsRef, hParams⟩ := mergeParamsIn_eq client.heap client.refs arguments.params
  have hStored : client.heap.headers.getD client.refs.headers [] = client.stored := by
    rw [List.getD_eq_getElem?_getD, client.headers, Option.getD_some]
  have hJar : client.heap.jars.getD client.refs.cookies .empty = client.jar := by
    rw [List.getD_eq_getElem?_getD, client.cookies, Option.getD_some]
  refine ⟨merged, added, paramsRef, hMerged, fun generated => ?_⟩
  simp only [buildRequest, hParams, mergeHeadersIn_eq, mergeCookiesIn_eq, hStored, hJar, hMerged, Option.getD_some,
    initHeaders_eq]
  split <;> rfl

private theorem kept (generated : List (casing.Name × Chars)) :
    Kept client (buildRequest plain client.heap client.refs arguments generated).1 := by
  obtain ⟨merged, added, paramsRef, -, hBuild⟩ := buildRequest_eq plain client arguments
  have hHeaders : client.refs.headers < client.heap.headers.length := (List.getElem?_eq_some_iff.mp client.headers).1
  have hJars : client.refs.cookies < client.heap.jars.length := (List.getElem?_eq_some_iff.mp client.cookies).1
  rw [hBuild]
  split
  · exact ⟨List.getElem?_append_left hHeaders, List.getElem?_append_left hJars, List.getElem?_append_left client.params⟩
  · exact ⟨List.getElem?_append_left hHeaders, List.getElem?_append_left hJars, List.getElem?_append_left client.params⟩

/-- `build_request` merges as it should exactly if the headers can be merged and cookies that are not given as a
dict or `Cookies` are the client's already. -/
theorem builds_iff : Builds plain client arguments ↔
    Mergeable client.defaults client.given arguments.headers ∧ CookiesMergeable plain client.jar arguments.cookies := by
  obtain ⟨merged, added, paramsRef, hMerged, hBuild⟩ := buildRequest_eq plain client arguments
  have hMerges : Merges client.defaults client.given arguments.headers ↔
      merged = (expected client.defaults client.given arguments.headers).map field := by
    rw [Merges, client.made]
    constructor
    · rintro ⟨stored, hStored, h⟩
      obtain rfl := Option.some.inj hStored
      exact Option.some.inj (hMerged.symm.trans h)
    · exact fun h => ⟨client.stored, rfl, h ▸ hMerged⟩
  rw [← merges_iff, hMerges, ← mergedJar_iff]
  constructor
  · intro h
    obtain ⟨-, request, hRequest, hTakes⟩ := h []
    have hHeaders := hTakes.headers
    obtain ⟨jar, hJar, hGet⟩ := hTakes.cookies
    rw [hBuild] at hRequest hHeaders hJar
    split at hRequest
    · rename_i hText
      obtain rfl := Option.some.inj hRequest
      rw [if_pos hText] at hHeaders hJar
      have hSame : some merged = some ((expected client.defaults client.given arguments.headers).map field) :=
        List.getElem?_concat_length.symm.trans hHeaders
      have hJarSame : some (mergedJar plain client.jar arguments.cookies) = some jar :=
        List.getElem?_concat_length.symm.trans hJar
      obtain rfl := Option.some.inj hJarSame
      exact ⟨Option.some.inj hSame, hGet⟩
    · cases hRequest
  · rintro ⟨rfl, hJar⟩ generated
    refine ⟨kept plain client arguments generated, ⟨client.heap.headers.length, client.heap.jars.length, paramsRef⟩, ?_⟩
    have hText : (valuesOf (cookieKey casing)
        ((expected client.defaults client.given arguments.headers).map field)).all isText = true := by
      rw [List.all_eq_true]
      intro value hValue
      obtain ⟨item, hItem, rfl⟩ := List.mem_map.mp hValue
      obtain ⟨f, -, rfl⟩ := List.mem_map.mp (List.mem_of_mem_filter hItem)
      rfl
    rw [hBuild, if_pos hText]
    exact ⟨rfl, ⟨List.getElem?_concat_length, _, List.getElem?_concat_length, hJar⟩⟩

end

private theorem toLower_toLower (c : Char) : c.toLower.toLower = c.toLower :=
  Char.toLower_eq_of_not_isUpper (by rw [Char.isUpper_toLower_eq_false]; exact Bool.false_ne_true)

private theorem contains_toLower {b : Char} (h : b.isAlpha = false) (s : Chars) :
    (s.map Char.toLower).contains b = s.contains b := by
  have hLower : b.isLower = false := (Bool.or_eq_false_iff.mp h).2
  have hUpper : b.isUpper = false := (Bool.or_eq_false_iff.mp h).1
  rw [Bool.eq_iff_iff, List.contains_iff_mem, List.contains_iff_mem, List.mem_map]
  constructor
  · rintro ⟨c, hMem, hSame⟩
    by_cases hc : c.isUpper = true
    · have hAlpha : c.toLower.isLower = true := by
        rw [Char.isLower_toLower_eq_isAlpha, Char.isAlpha, hc, Bool.true_or]
      rw [hSame, hLower] at hAlpha
      cases hAlpha
    · rw [Char.toLower_eq_of_not_isUpper hc] at hSame
      exact hSame ▸ hMem
  · exact fun hMem => ⟨b, hMem, Char.toLower_eq_of_not_isUpper (by rw [hUpper]; exact Bool.false_ne_true)⟩

/-- `str.lower` of ASCII text. -/
def asciiCasing : Casing where
  lower s := s.map Char.toLower
  idem s := by
    rw [List.map_map]
    exact List.map_congr_left fun c _ => toLower_toLower c
  breaks s := by rw [hasBreak, hasBreak, contains_toLower (by decide), contains_toLower (by decide)]

def oneHeader : ClientState asciiCasing Unit where
  heap := ⟨[[(.str ['x'], .str ['1'])]], [.empty], [[]]⟩
  refs := ⟨0, 0, 0⟩
  defaults := ⟨[]⟩
  given := some ⟨.dict [(.str ['X'], .str ['1'])], ⟨[(asciiCasing.name ['x'], ['1'])]⟩, rfl⟩
  stored := [(.str ['x'], .str ['1'])]
  made := rfl
  headers := rfl
  jar := .empty
  cookies := rfl
  params := Nat.one_pos

/-- A request's headers in a list are left out. -/
theorem not_builds : ¬ ∀ (client : ClientState asciiCasing Unit) (arguments : Arguments asciiCasing Unit),
    Builds () client arguments := by
  intro h
  obtain ⟨-, request, hRequest, hTakes⟩ := h oneHeader
    { headers := some ⟨.list [(.str ['X'], .str ['2'])], ⟨[(asciiCasing.name ['x'], ['2'])]⟩, rfl⟩, cookies := none,
      params := none } []
  obtain rfl := Option.some.inj hRequest
  exact absurd hTakes.headers (by decide)

end

end Eggfetch.Facade.Merge
