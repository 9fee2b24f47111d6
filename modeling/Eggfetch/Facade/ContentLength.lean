import Eggfetch.Facade.Redirection
import Eggfetch.Multipart.Published
import Eggfetch.Proxy.Framed

/-! The `Content-Length` that `Request.__init__` (`_request.py`) writes, and the length of the body that
`prepare_request` of the binding (`request_preparation.rs`) builds from the request and from its redirect
successors. -/
namespace Eggfetch.Facade.Lengths
open Text Pipeline
open Redirection (localEnv localUrl)

/-- The body arguments of `Request`, which exclude one another but for form data with files. -/
inductive Source
  | none
  /-- `content` as bytes or a text -/
  | bytes (content : Str)
  /-- `content` as a file or an iterable -/
  | iterable (source : Nat)
  | json (dumped : Str)
  /-- `data` as a dict, list or tuple -/
  | form (encoded : Str)
  /-- any other `data` -/
  | data (encoded : Str)
  /-- `files`, with `data` or without -/
  | files (form : Nat) (reconstructable : Bool)
  /-- `stream` as a `ByteStream`, and as anything else -/
  | byteStream (content : Str)
  | stream (source : Nat)

namespace Source

/-- `_content`, `_stream`, `_files` and `_multipart_data`. -/
def body : Source → Body
  | none => .empty
  | bytes content | json content | form content | data content => .buffered content
  | iterable source | stream source => .oneShot source
  | files upload reconstructable => .multipart upload reconstructable
  | byteStream content => .byteStream content

def contentType : Source → Option Str
  | json _ => some (utf8 "application/json")
  | form _ => some (utf8 "application/x-www-form-urlencoded")
  | _ => Option.none

/-- `has_stream` -/
def isStream : Source → Bool
  | byteStream _ | stream _ => true
  | _ => false

end Source

def contentTypeName : Name := ⟨contentType, by decide⟩

section
variable {PJ J O S : Type} (env : Env PJ J O)

/-- `Request.__init__`; the method is in upper case. -/
def construct (method : Str) (url : Url) (headers : Headers) (cookies : PJ) (source : Source) : Request PJ where
  method := method
  url := url
  headers :=
    let headers := match source.contentType with
      | some value => if headers.contains contentTypeName.val then headers else headers.setItem contentTypeName value
      | none => headers
    -- A `stream` gets neither a `Host` nor a length.
    if source.isStream then headers else autoHeaders method url source.body headers
  cookies := cookies
  body := source.body

/-- A request, what a send makes of it, and its redirect successors. -/
inductive Derived (request : Request PJ) : Request PJ → Prop
  | start : Derived request request
  | prepared {r : Request PJ} (now : Nat) : Derived request r → Derived request (r.prepareCookieHeader env now)
  | authenticated {r : Request PJ} (auth : Option Str) : Derived request r → Derived request (r.authenticate auth)
  | redirected {r next : Request PJ} {cookies : PJ} {response : Response} :
    Derived request r → buildRedirectRequest env cookies r response = .ok next → Derived request next

/-- `build_multipart_body` of the form and the files of a request. -/
def upload (items : Nat → List (Multipart.Item S)) (fresh : Vector UInt8 50) (draws : Nat → Vector UInt8 50) (form : Nat) :
    Except Multipart.Error (Multipart.RequestBody S) :=
  (Multipart.buildMultipartBody fresh (items form) draws).map Multipart.Upload.body

def declaredLength : Multipart.RequestBody S → Option Nat
  | .bytes data => some data.length
  | .stream _ length => length

variable (uploads : Nat → Except Multipart.Error (Multipart.RequestBody S)) (sourceLength : Nat → Option Nat)

/-- The length that the native engine knows of the body it builds, if it can build one; an iterable that is a buffer has one. -/
def engineLength : Body → Except Multipart.Error (Option Nat)
  | .empty => .ok (some 0)
  | .buffered content => .ok (some content.length)
  | .byteStream _ => .ok none
  | .multipart form _ => (uploads form).map declaredLength
  | .oneShot source => .ok (sourceLength source)

/-- The values of `Content-Length` are the length of the body. -/
def Agrees (request : Request PJ) : Prop :=
  ∀ length, engineLength uploads sourceLength request.body = .ok length →
    ∀ value ∈ request.headers.getList contentLength.val, ∃ n, length = some n ∧ value = utf8 (toString n)

def sizedMethods : List Str := ["POST", "PUT", "PATCH"].map utf8

variable {uploads sourceLength}

private theorem buffered_ne_nil (multipart : Multipart S) : multipart.buffered ≠ [] := by
  have hHead : utf8 "--" ≠ [] := by decide
  rw [Multipart.buffered, Multipart.encodeParts, Multipart.finalBoundary, List.append_assoc]
  exact List.append_ne_nil_of_right_ne_nil _ (List.append_ne_nil_of_left_ne_nil hHead _)

private theorem declaredLength_intoBody (multipart : Multipart S) (draws : Nat → Vector UInt8 50) :
    declaredLength (multipart.intoBody draws) ≠ some 0 := by
  rw [Multipart.intoBody]
  split
  · intro h
    cases h
  · rename_i mp _
    split
    · exact fun h => buffered_ne_nil mp (List.length_eq_zero_iff.mp (Option.some.inj h))
    · intro h
      have hLength : mp.contentLength = some 0 := h
      rw [Multipart.contentLength, Option.bind_eq_bind, Option.bind_eq_some_iff] at hLength
      obtain ⟨sum, -, hTotal⟩ := hLength
      rw [Multipart.checkedAdd] at hTotal
      split at hTotal
      · have hSum := Option.some.inj hTotal
        omega
      · cases hTotal

theorem upload_length_ne {items : Nat → List (Multipart.Item S)} {fresh : Vector UInt8 50}
    {draws : Nat → Vector UInt8 50} {form : Nat}
    {body : Multipart.RequestBody S} (h : upload items fresh draws form = .ok body) : declaredLength body ≠ some 0 := by
  rw [upload, Multipart.buildMultipartBody] at h
  cases hParts : (items form).foldlM Multipart.Item.add (Multipart.withBoundary (.random fresh)) with
  | error e =>
    rw [hParts] at h
    cases h
  | ok multipart =>
    rw [hParts] at h
    cases h
    exact declaredLength_intoBody multipart draws

variable {env} {method : Str} {url : Url} {headers : Headers} {request next : Request PJ} {jar : PJ} {response : Response}

/-- The `Content-Length` of a body in headers that may have one. -/
def sized (method : Str) (body : Body) (headers : Headers) : Headers :=
  match body with
  | .buffered content =>
    if headers.contains contentLength.val then headers else headers.setItem contentLength (utf8 (toString content.length))
  | .empty | .multipart _ _ =>
    if method ∈ sizedMethods ∧ !headers.contains contentLength.val ∧ !headers.contains transferEncoding then
      headers.setItem contentLength (utf8 "0")
    else headers
  | .byteStream _ | .oneShot _ => headers

private theorem autoHeaders_sized (method : Str) (url : Url) (body : Body) (headers : Headers) : ∃ hosted : Headers,
    (∀ name ≠ host, hosted.getList name = headers.getList name) ∧
    autoHeaders method url body headers = sized method body hosted := by
  refine ⟨_, ?_, rfl⟩
  intro name hNe
  split
  · rfl
  · rfl
  · split
    · rfl
    · exact Headers.getList_setItem_of_ne hNe

theorem contains_eq {g h : Headers} {name : Str} (hSame : g.getList name = h.getList name) :
    g.contains name = h.contains name := by
  rw [Bool.eq_iff_iff, Headers.contains_iff, Headers.contains_iff, hSame]

/-- What `Request.__init__` does to the field. -/
theorem length_autoHeaders (method : Str) (url : Url) (body : Body) (headers : Headers) :
    (autoHeaders method url body headers).getList contentLength.val =
      match body with
      | .buffered content =>
        if headers.contains contentLength.val then headers.getList contentLength.val else [utf8 (toString content.length)]
      | .empty | .multipart _ _ =>
        if method ∈ sizedMethods ∧ !headers.contains contentLength.val ∧ !headers.contains transferEncoding then [utf8 "0"]
        else headers.getList contentLength.val
      | .byteStream _ | .oneShot _ => headers.getList contentLength.val := by
  obtain ⟨hosted, hSame, hAuto⟩ := autoHeaders_sized method url body headers
  have hLength : hosted.getList contentLength.val = headers.getList contentLength.val := hSame _ (by decide)
  have hTransfer := contains_eq (hSame transferEncoding (by decide))
  have hSet : ∀ value, (hosted.setItem contentLength value).getList contentLength.val = [value] :=
    fun value => Headers.getList_setItem_self
  rw [hAuto, sized.eq_def]
  cases body with
  | byteStream content => exact hLength
  | oneShot source => exact hLength
  | buffered content =>
    dsimp only
    rw [contains_eq hLength, apply_ite (Headers.getList · contentLength.val), hSet, hLength]
  | empty =>
    dsimp only
    rw [contains_eq hLength, hTransfer, apply_ite (Headers.getList · contentLength.val), hSet, hLength]
  | multipart form reconstructable =>
    dsimp only
    rw [contains_eq hLength, hTransfer, apply_ite (Headers.getList · contentLength.val), hSet, hLength]

/-- A request whose length is right, and stays right when it is redirected. -/
structure Sized (uploads : Nat → Except Multipart.Error (Multipart.RequestBody S)) (sourceLength : Nat → Option Nat)
    (request : Request PJ) : Prop where
  agrees : Agrees uploads sourceLength request
  single : (request.headers.getList contentLength.val).length ≤ 1
  unsized : ∀ form reconstructable, request.body = .multipart form reconstructable → (uploads form).isOk = true →
    request.method ∈ sizedMethods → request.headers.contains transferEncoding = true

theorem Agrees.of_nil (h : request.headers.getList contentLength.val = []) : Agrees uploads sourceLength request := by
  intro length _ value hValue
  rw [h] at hValue
  cases hValue

/-- Headers that are added or taken under other names. -/
theorem Sized.congr (h : Sized uploads sourceLength request) {headers : Headers}
    (hLength : headers.getList contentLength.val = request.headers.getList contentLength.val)
    (hTransfer : headers.getList transferEncoding = request.headers.getList transferEncoding) :
    Sized uploads sourceLength { request with headers := headers } := by
  refine ⟨fun length hBody value hValue => ?_, ?_, fun form reconstructable hBody hOk hMethod => ?_⟩
  · exact h.agrees length hBody value (hLength ▸ hValue)
  · exact hLength ▸ h.single
  · exact (contains_eq hTransfer).trans (h.unsized form reconstructable hBody hOk hMethod)

theorem Sized.prepared (h : Sized uploads sourceLength request) (now : Nat) :
    Sized uploads sourceLength (request.prepareCookieHeader env now) :=
  h.congr (getList_prepareCookies_of_ne _ (by decide)) (getList_prepareCookies_of_ne _ (by decide))

theorem Sized.authenticated (h : Sized uploads sourceLength request) (auth : Option Str) :
    Sized uploads sourceLength (request.authenticate auth) := by
  cases auth with
  | none => exact h
  | some value => exact h.congr (Headers.getList_setItem_of_ne (by decide)) (Headers.getList_setItem_of_ne (by decide))

/-- The redirected request gets its own fields again. -/
theorem Sized.auto (method : Str) (url : Url) {headers : Headers} {body : Body} {r : Request PJ} (hBody : r.body = body)
    (hMethod : r.method = method) (hHeaders : r.headers = autoHeaders method url body headers)
    (hLength : (headers.getList contentLength.val).length ≤ 1)
    (hAgrees : ∀ length, engineLength uploads sourceLength body = .ok length →
      ∀ value ∈ headers.getList contentLength.val, ∃ n, length = some n ∧ value = utf8 (toString n))
    (hUnsized : ∀ form reconstructable, body = .multipart form reconstructable → (uploads form).isOk = true →
      method ∈ sizedMethods → headers.contains transferEncoding = true) : Sized uploads sourceLength r := by
  have hTransfer : (autoHeaders method url body headers).contains transferEncoding = headers.contains transferEncoding :=
    contains_eq (getList_autoHeaders _ _ _ (by decide) (by decide))
  have hList := length_autoHeaders method url body headers
  -- The field is the one that was there, or it is new and right.
  have hCases : (autoHeaders method url body headers).getList contentLength.val = headers.getList contentLength.val ∨
      ∃ n, (autoHeaders method url body headers).getList contentLength.val = [utf8 (toString n)] ∧
        ∀ length, engineLength uploads sourceLength body = .ok length → length = some n := by
    rw [hList]
    cases body with
    | byteStream content => exact Or.inl rfl
    | oneShot source => exact Or.inl rfl
    | buffered content =>
      dsimp only
      split
      · exact Or.inl rfl
      · exact Or.inr ⟨content.length, rfl, fun length hOk => (Except.ok.inj hOk).symm⟩
    | empty =>
      dsimp only
      split
      · exact Or.inr ⟨0, rfl, fun length hOk => (Except.ok.inj hOk).symm⟩
      · exact Or.inl rfl
    | multipart form reconstructable =>
      dsimp only
      split
      · rename_i hNew
        refine Or.inr ⟨0, rfl, fun length hOk => ?_⟩
        cases hUpload : uploads form with
        | error e =>
          rw [engineLength, hUpload] at hOk
          cases hOk
        | ok upload =>
          have hThere := hUnsized form reconstructable rfl (by rw [hUpload]; rfl) hNew.1
          rw [hThere] at hNew
          cases hNew.2.2
      · exact Or.inl rfl
  refine ⟨fun length hOk value hValue => ?_, ?_, fun form reconstructable hMultipart hOk hSized => ?_⟩
  · rw [hBody] at hOk
    rw [hHeaders] at hValue
    rcases hCases with hSame | ⟨n, hNew, hRight⟩
    · exact hAgrees length hOk value (hSame ▸ hValue)
    · rw [hNew] at hValue
      exact ⟨n, hRight length hOk, List.mem_singleton.mp hValue⟩
  · rw [hHeaders]
    rcases hCases with hSame | ⟨n, hNew, -⟩
    · exact hSame ▸ hLength
    · rw [hNew, List.length_singleton]
  · rw [hHeaders, hTransfer]
    exact hUnsized form reconstructable (hBody ▸ hMultipart) hOk (hMethod ▸ hSized)

private theorem buildRedirectRequest_body (h : buildRedirectRequest env jar request response = .ok next) :
    (next.method ≠ request.method ∧ next.method = utf8 "GET" ∧ next.body = .empty) ∨
      (next.method = request.method ∧ next.body = request.body) := by
  have hMethod : redirectMethod request.method response.status = request.method ∨
      redirectMethod request.method response.status = utf8 "GET" := by
    rw [redirectMethod]
    split_ifs <;> first | exact Or.inl rfl | exact Or.inr rfl
  unfold buildRedirectRequest at h
  split at h
  · cases h
  · dsimp only at h
    split at h
    · cases h
    split at h
    · rename_i hDropped
      cases h
      exact Or.inl ⟨hDropped.1, hDropped.2, rfl⟩
    · rename_i hKept
      have hSame : redirectMethod request.method response.status = request.method := by
        rcases hMethod with hSame | hGet
        · exact hSame
        · by_contra hNe
          exact hKept ⟨hNe, hGet⟩
      split at h <;> first | cases h; done | (cases h; exact Or.inr ⟨hSame, rfl⟩)

private theorem getList_redirectedHeaders_body (url : Url) (method : Str) {name : Str}
    (hName : name = contentLength.val ∨ name = transferEncoding) :
    (redirectedHeaders request url method).getList name =
      if method ≠ request.method ∧ method = utf8 "GET" then (request.headers.getList name).tail
          else request.headers.getList name := by
  have hNe : name ≠ cookie ∧ name ≠ authorization ∧ name ≠ hostName.val := by
    rcases hName with rfl | rfl <;> decide
  have hPops : ∀ h : Headers, ((h.pop contentLength.val).pop transferEncoding).getList name = (h.getList name).tail := by
    intro h
    have hApart : contentLength.val ≠ transferEncoding := by decide
    rcases hName with rfl | rfl
    · rw [Headers.getList_pop_of_ne hApart, Headers.getList_pop_self]
    · rw [Headers.getList_pop_self, Headers.getList_pop_of_ne hApart.symm]
  have hCookie : ((request.headers.pop cookie).pop cookie).getList name = request.headers.getList name := by
    rw [Headers.getList_pop_of_ne hNe.1, Headers.getList_pop_of_ne hNe.1]
  have hAuth : ∀ h : Headers, (h.pop authorization).getList name = h.getList name := fun h => Headers.getList_pop_of_ne hNe.2.1
  have hHost : ∀ (h : Headers) value, (h.setItem hostName value).getList name = h.getList name :=
    fun h value => Headers.getList_setItem_of_ne hNe.2.2
  unfold redirectedHeaders
  dsimp only
  generalize hRest : (if url.sameOrigin request.url = true then (request.headers.pop cookie).pop cookie else _) = rest
  have hSame : rest.getList name = request.headers.getList name := by
    rw [← hRest, ← hCookie]
    cases url.host <;> simp only [apply_ite (Headers.getList · name), hAuth, hHost, ite_self]
  rw [apply_ite (Headers.getList · name), hPops, hSame]

theorem Sized.redirected (h : Sized uploads sourceLength request)
    (hNext : buildRedirectRequest env jar request response = .ok next) : Sized uploads sourceLength next := by
  have hLength := @getList_redirectedHeaders_body PJ request next.url next.method _ (Or.inl rfl)
  have hTransfer := @getList_redirectedHeaders_body PJ request next.url next.method _ (Or.inr rfl)
  have hHeaders := buildRedirectRequest_ok hNext
  rcases buildRedirectRequest_body hNext with ⟨hChanged, hGet, hEmpty⟩ | ⟨hMethod, hBody⟩
  · have hNil : (redirectedHeaders request next.url next.method).getList contentLength.val = [] := by
      rw [hLength, if_pos ⟨hChanged, hGet⟩]
      exact List.eq_nil_of_length_eq_zero (by rw [List.length_tail]; have := h.single; omega)
    refine Sized.auto next.method next.url hEmpty rfl (hEmpty ▸ hHeaders) (by rw [hNil]; exact Nat.zero_le 1) ?_ ?_
    · intro length _ value hValue
      rw [hNil] at hValue
      cases hValue
    · intro form reconstructable hMultipart
      cases hMultipart
  · have hKept : ¬ (next.method ≠ request.method ∧ next.method = utf8 "GET") := fun hDropped => hDropped.1 hMethod
    rw [if_neg hKept] at hLength hTransfer
    refine Sized.auto next.method next.url rfl rfl hHeaders (hLength ▸ h.single) ?_ ?_
    · intro length hOk value hValue
      exact h.agrees length (hBody ▸ hOk) value (hLength ▸ hValue)
    · intro form reconstructable hMultipart hOk hSized
      exact (contains_eq hTransfer).trans (h.unsized form reconstructable (hBody ▸ hMultipart) hOk (hMethod ▸ hSized))

theorem Sized.derived {r : Request PJ} (h : Sized uploads sourceLength request) (hDerived : Derived env request r) :
    Sized uploads sourceLength r := by
  induction hDerived with
  | start => exact h
  | prepared now _ ih => exact ih.prepared now
  | authenticated auth _ ih => exact ih.authenticated auth
  | redirected _ hNext ih => exact ih.redirected hNext

def Announced (uploads : Nat → Except Multipart.Error (Multipart.RequestBody S)) (method : Str) (headers : Headers)
    (source : Source) :
    Prop :=
  ∃ form reconstructable, source = .files form reconstructable ∧ (uploads form).isOk = true ∧ method ∈ sizedMethods ∧
    headers.contains transferEncoding = false

private theorem construct_files (method : Str) (url : Url) (headers : Headers) (cookies : PJ) (form : Nat)
    (reconstructable : Bool) :
    construct method url headers cookies (.files form reconstructable) =
      ⟨method, url, autoHeaders method url (.multipart form reconstructable) headers, cookies,
        .multipart form reconstructable, {}, none⟩ :=
  rfl

private theorem construct_sized {cookies : PJ} {source : Source} (hNone : headers.contains contentLength.val = false)
    (hFits : ¬ Announced uploads method headers source) :
    Sized uploads sourceLength (construct method url headers cookies source) := by
  -- The content type is another field.
  obtain ⟨typed, hTyped, hConstruct⟩ : ∃ typed :
    Headers, (∀ name ≠ contentTypeName.val, typed.getList name = headers.getList name) ∧
      (construct method url headers cookies source).headers =
        if source.isStream then typed else autoHeaders method url source.body typed := by
    refine ⟨match source.contentType with
      | some value => if headers.contains contentTypeName.val then headers else headers.setItem contentTypeName value
      | none => headers, ?_, rfl⟩
    intro name hNe
    split
    · split
      · rfl
      · exact Headers.getList_setItem_of_ne hNe
    · rfl
  have hNil : typed.getList contentLength.val = [] :=
    (hTyped _ (by decide)).trans (Headers.contains_eq_false_iff.mp hNone)
  have hTransfer : typed.contains transferEncoding = headers.contains transferEncoding := contains_eq (hTyped _ (by decide))
  cases hStream : source.isStream with
  | true =>
    rw [hStream, if_pos rfl] at hConstruct
    have hEmpty : (construct method url headers cookies source).headers.getList contentLength.val = [] := by rw [hConstruct, hNil]
    refine ⟨Agrees.of_nil hEmpty, by rw [hEmpty]; exact Nat.zero_le 1, fun form reconstructable hMultipart => ?_⟩
    cases source <;> first | cases hStream; done | cases hMultipart
  | false =>
    rw [hStream, if_neg Bool.false_ne_true] at hConstruct
    refine Sized.auto method url rfl rfl hConstruct (by rw [hNil]; exact Nat.zero_le 1) ?_ ?_
    · intro length _ value hValue
      rw [hNil] at hValue
      cases hValue
    · intro form reconstructable hMultipart hOk hMethod
      by_contra hAbsent
      refine hFits ⟨form, reconstructable, ?_, hOk, hMethod, by rw [← hTransfer]; exact Bool.eq_false_iff.mpr hAbsent⟩
      cases source <;> first | cases hMultipart; done | (cases hMultipart; rfl)

private theorem applyContentLength_of_agrees {length : Option Nat} {sent : Proxy.HeaderMap} {body : Proxy.RequestBody}
    (hAgrees : Agrees uploads sourceLength request) (hLength : engineLength uploads sourceLength request.body = .ok length)
    (hBody : body.declaredLength = length) (hFits : ∀ n ∈ length, n ≤ Proxy.u64Max)
    (hSent : sent.get Proxy.contentLength = (request.headers.getList contentLength.val).getLast?) :
    (Proxy.applyContentLength sent body).isOk = true := by
  have hKnown : Proxy.knownLength body = .ok length := by
    rw [Proxy.knownLength, hBody]
    cases length with
    | none => rfl
    | some n => exact if_neg (hFits n rfl).not_gt
  have hSupplied : Proxy.suppliedLength sent = .ok none ∨ ∃ n, length = some n ∧ Proxy.suppliedLength sent = .ok (some n) := by
    rw [Proxy.suppliedLength, hSent]
    cases hLast : (request.headers.getList contentLength.val).getLast? with
    | none => exact Or.inl rfl
    | some value =>
      obtain ⟨n, rfl, rfl⟩ := hAgrees length hLength value (List.mem_of_getLast? hLast)
      have hVisible : Http.isVisibleAscii (Proxy.decimalBytes n) = true := by
        refine List.all_eq_true.mpr fun b hb => ?_
        have hDigit := List.all_eq_true.mp (Proxy.decimalBytes_digits n) b hb
        simp only [isDigit, Bool.and_eq_true, decide_eq_true_eq, UInt8.le_iff_toNat_le, UInt8.reduceToNat] at hDigit
        simp only [Bool.or_eq_true, Bool.and_eq_true, decide_eq_true_eq, UInt8.le_iff_toNat_le, UInt8.lt_iff_toNat_lt,
          UInt8.reduceToNat]
        omega
      have hParse : parseUnsigned Proxy.u64Max (Proxy.decimalBytes n) = some n := by
        rw [Proxy.parseUnsigned_digits Proxy.u64Max (Proxy.decimalBytes_ne_nil n) (Proxy.decimalBytes_digits n),
          Proxy.decimal_decimalBytes,
          if_pos (hFits n rfl)]
      refine Or.inr ⟨n, rfl, ?_⟩
      have hText : utf8 (toString n) = Proxy.decimalBytes n := rfl
      dsimp only
      rw [hText, hVisible, Proxy.parseU64, hParse]
      rfl
  rw [Proxy.applyContentLength, hKnown]
  rcases hSupplied with hNone | ⟨n, rfl, hSome⟩
  · rw [hNone]
    cases length <;> rfl
  · rw [hSome]
    dsimp only
    rw [if_neg (not_not_intro rfl)]
    rfl

end

section
variable {PJ J O S : Type} (env : Env PJ J O)

/-- A field that announces the wrong length. -/
theorem not_agrees_announced {uploads : Nat → Except Multipart.Error (Multipart.RequestBody S)} {sourceLength : Nat → Option Nat}
    (hUploads : ∀ form body, uploads form = .ok body → declaredLength body ≠ some 0) {method : Str} (url : Url)
    {headers : Headers}
    (cookies : PJ) {source : Source} (hNone : headers.contains contentLength.val = false)
    (hAnnounced : Announced uploads method headers source) :
    ¬ Agrees uploads sourceLength (construct method url headers cookies source) := by
  obtain ⟨form, reconstructable, rfl, hOk, hMethod, hTransfer⟩ := hAnnounced
  intro hAgrees
  have hList := length_autoHeaders method url (.multipart form reconstructable) headers
  dsimp only at hList
  rw [if_pos ⟨hMethod, by rw [hNone]; rfl, by rw [hTransfer]; rfl⟩] at hList
  cases hUpload : uploads form with
  | error e =>
    rw [hUpload] at hOk
    cases hOk
  | ok body =>
    have hLength : engineLength uploads sourceLength (.multipart form reconstructable) = .ok (declaredLength body) := by
      rw [engineLength, hUpload]
      rfl
    rw [construct_files] at hAgrees
    obtain ⟨n, hSome, hZero⟩ := hAgrees _ hLength (utf8 "0") (hList ▸ List.mem_singleton_self _)
    have hParsed := Proxy.decimal_decimalBytes n
    rw [Proxy.decimalBytes, ← hZero] at hParsed
    obtain rfl : 0 = n := hParsed
    exact hUploads form body hUpload hSome

/-- Without a length of the caller, the request and everything that is derived from it announces the length of
its body exactly if it does not send files by one of the three methods without a `Transfer-Encoding`; a length
that agrees is accepted. -/
theorem lengths_agree_iff (items : Nat → List (Multipart.Item S)) (fresh : Vector UInt8 50) (draws : Nat → Vector UInt8 50)
    (sourceLength : Nat → Option Nat) (method : Str) (url : Url) (headers : Headers) (cookies : PJ) (source : Source)
    (hNone : headers.contains contentLength.val = false) :
    ((∀ r, Derived env (construct method url headers cookies source) r → Agrees (upload items fresh draws) sourceLength r) ↔
      ¬ Announced (upload items fresh draws) method headers source) ∧
    ∀ (r : Request PJ) (length : Option Nat) (sent : Proxy.HeaderMap) (body : Proxy.RequestBody),
      Agrees (upload items fresh draws) sourceLength r →
      engineLength (upload items fresh draws) sourceLength r.body = .ok length → body.declaredLength = length →
      (∀ n ∈ length, n ≤ Proxy.u64Max) → sent.get Proxy.contentLength = (r.headers.getList contentLength.val).getLast? →
      (Proxy.applyContentLength sent body).isOk = true := by
  refine ⟨⟨fun hAll hAnnounced => ?_, fun hFits r hDerived => ?_⟩, fun r length sent body hAgrees hLength hBody hSmall hSent =>
    applyContentLength_of_agrees hAgrees hLength hBody hSmall hSent⟩
  · exact not_agrees_announced (fun form body => upload_length_ne) url cookies hNone hAnnounced (hAll _ .start)
  · exact ((construct_sized hNone hFits).derived hDerived).agrees

end

def oneFile (_ : Nat) : List (Multipart.Item Unit) := [.bytes "f" "f" "text/plain" [0x78]]

def zeros : Vector UInt8 50 := Vector.replicate 50 0

/-- A `QUERY` with a file announces no length. -/
theorem lengths_agree_query : Agrees (upload oneFile zeros fun _ => zeros) (fun _ => none)
    (construct (utf8 "QUERY") localUrl .empty () (.files 0 true)) := by
  have hIff := lengths_agree_iff localEnv oneFile zeros (fun _ => zeros) (fun _ => none) (utf8 "QUERY") localUrl .empty ()
    (.files 0 true) rfl
  refine hIff.1.mpr ?_ _ .start
  rintro ⟨form, reconstructable, -, -, hMethod, -⟩
  exact absurd hMethod (by decide)

/-- A `POST` with a file announces a length of zero. -/
theorem not_lengths_agree : ¬ ∀ (method : Str) (headers : Headers) (source : Source) (r : Request Unit),
    headers.contains contentLength.val = false → Derived localEnv (construct method localUrl headers () source) r →
      Agrees (upload oneFile zeros fun _ => zeros) (fun _ => none) r := by
  intro hAll
  have hAnnounced : Announced (upload oneFile zeros fun _ => zeros) (utf8 "POST") .empty (.files 0 true) :=
    ⟨0, true, rfl, by decide, by decide, rfl⟩
  exact not_agrees_announced (fun form body => upload_length_ne) localUrl () rfl hAnnounced
    (hAll (utf8 "POST") .empty (.files 0 true) _ rfl .start)

end Eggfetch.Facade.Lengths
