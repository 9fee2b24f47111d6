import Eggfetch.Facade.Client
import Eggfetch.Facade.Extensions

/-! The arguments of the native call: `_build_native_kwargs` of the client (`_client.py`) beside those of `HTTPTransport` and
`AsyncHTTPTransport` (`_transports.py`). -/
namespace Eggfetch.Facade.Arguments
open Text

/-- What the builders read of a request; `O` are the streams, files and other objects of Python. -/
structure Request (O : Type) where
  method : Str
  /-- `str(request.url)` -/
  url : Str
  headers : Headers
  content : Option Str
  stream : Option O
  files : Option O
  multipartData : Option O
  extensions : Extensions O

inductive Content (O : Type)
  | bytes (content : Str)
  | stream (o : O)

/-- The `timeout` of the native call. -/
inductive TimeoutArg
  | useClientDefault
  | none
  | phases (timeout : Phases)

/-- The keyword arguments of the native `request` and `stream`; `none` where there is none. -/
structure Kwargs (O : Type) where
  method : Str
  url : Str
  headers : Option (List (Str × Str))
  content : Option (Content O)
  files : Option O
  data : Option O
  followRedirects : Option Bool
  timeout : Option (Option Phases)
  extensions : Option (Extensions O)

section
variable {O : Type}

/-- `if request.headers: kwargs["headers"] = _convert_headers(request.headers)` -/
def headersArg (headers : Headers) : Option (List (Str × Str)) := if headers.items = [] then none else some headers.multiItems

def contentArg (request : Request O) : Option (Content O) :=
  match request.content, request.stream with
  | none, some stream => some (.stream stream)
  | some content, _ => some (.bytes content)
  | none, none => none

/-- `if request.extensions: kwargs["extensions"] = request.extensions` -/
def extensionsArg (extensions : Extensions O) : Option (Extensions O) :=
  if extensions.items.isEmpty then none else some extensions

def buildNativeKwargs (request : Request O) (followRedirects : Option Bool) (timeout : TimeoutArg) : Kwargs O where
  method := request.method
  url := request.url
  headers := headersArg request.headers
  content := contentArg request
  files := request.files
  data := if request.files.isSome then request.multipartData else none
  followRedirects := followRedirects
  timeout :=
    match timeout with
    | .useClientDefault => none
    | .none => some none
    | .phases timeout => some (some timeout)
  extensions := none

/-- The native branch of `_send_single_request`. -/
def sendNative (timeout : Phases) (request : Request O) : Except TimeoutError (Kwargs O) :=
  (request.extensions.requestTimeout timeout).map fun effective =>
    { buildNativeKwargs request (some false) (.phases effective) with extensions := extensionsArg request.extensions }

/-- The transports pass a timeout only if the extensions have a dict of them. -/
def timeoutArg (extensions : Extensions O) : Except TimeoutError (Option (Option Phases)) :=
  match extensions.get Extensions.timeoutKey with
  | some (.dict value) => (Phases.ofDict value).map fun timeout => some (some timeout)
  | _ => .ok none

/-- The body of `handle_request` and of `handle_async_request`. -/
def transportKwargs (request : Request O) : Except TimeoutError (Kwargs O) :=
  (timeoutArg request.extensions).map fun timeout =>
    { method := request.method, url := request.url, headers := headersArg request.headers, content := contentArg request
      files := request.files, data := none, followRedirects := none, timeout := timeout
      extensions := extensionsArg request.extensions }

def handleRequest (request : Request O) : Except TimeoutError (Kwargs O) := transportKwargs request

def handleAsyncRequest (request : Request O) : Except TimeoutError (Kwargs O) := transportKwargs request

/-- The first lines of `_send_single_request`; the cookies of the jar make the text `cookies`. -/
def prepare (timeout : Phases) (started : O) (cookies : Option Str) (request : Request O) : Request O :=
  { request with
    headers := prepareCookies cookies request.headers
    extensions := Extensions.ensureTimeout (request.extensions.setdefault Extensions.startedKey (.object started)) timeout }

/-- What is compared: all but `follow_redirects`. -/
def handed (kwargs : Except TimeoutError (Kwargs O)) : Option (Kwargs O) :=
  kwargs.toOption.map fun k => { k with followRedirects := none }

/-- The request, sent by a client with an explicit transport or without one, reaches the native engine as the same call, or does
not reach it. -/
structure SameCall (timeout : Phases) (started : O) (cookies : Option Str) (request : Request O) : Prop where
  sync : handed (handleRequest (prepare timeout started cookies request)) =
    handed (sendNative timeout (prepare timeout started cookies request))
  async : handed (handleAsyncRequest (prepare timeout started cookies request)) =
    handed (sendNative timeout (prepare timeout started cookies request))

/-- The caller's `timeout` extension, if any, is a dict, and unless its values are refused there is no form data with files. -/
def Request.Transportable (request : Request O) : Prop :=
  match request.extensions.get Extensions.timeoutKey with
  | some (.object _) => False
  | some (.dict value) => (Phases.ofDict value).isOk = true → request.files.isSome = true → request.multipartData = none
  | none => request.files.isSome = true → request.multipartData = none

variable {request : Request O} {value : Dict Str PhaseValue} (timeout : Phases) {started : O} {cookies : Option Str}

private theorem timeout_prepare : (prepare timeout started cookies request).extensions.get Extensions.timeoutKey =
    some ((request.extensions.get Extensions.timeoutKey).getD (.dict timeout.asDict)) := by
  have hKeys : Extensions.timeoutKey ≠ Extensions.startedKey := by decide
  rw [prepare, Extensions.ensureTimeout, Dict.get_setdefault_self, Dict.get_setdefault_of_ne _ _ hKeys]

private theorem handed_dict (h : request.extensions.get Extensions.timeoutKey = some (.dict value)) :
    handed (transportKwargs request) = handed (sendNative timeout request) ↔
      ((Phases.ofDict value).isOk = true → request.files.isSome = true → request.multipartData = none) := by
  rw [sendNative, Extensions.requestTimeout_dict timeout h, transportKwargs, timeoutArg, h]
  dsimp only
  cases hPhases : Phases.ofDict value with
  | error e => exact iff_of_true rfl fun hOk => nomatch hOk
  | ok phases =>
    have hOk : (Except.ok phases : Except TimeoutError Phases).isOk = true := rfl
    constructor
    · intro hSame _ hFiles
      have hData := congrArg (Option.map Kwargs.data) hSame
      have hData : some none = some (if request.files.isSome then request.multipartData else none) := hData
      rw [if_pos hFiles] at hData
      exact (Option.some.inj hData).symm
    · intro hNone
      have hData : none = if request.files.isSome then request.multipartData else none := by
        split
        · rename_i hFiles
          exact (hNone hOk hFiles).symm
        · rfl
      rw [Except.map, Except.map, Except.map, buildNativeKwargs, ← hData]
      rfl

private theorem handed_object {o : O} (h : request.extensions.get Extensions.timeoutKey = some (.object o)) :
    handed (transportKwargs request) ≠ handed (sendNative timeout request) := by
  rw [sendNative, Extensions.requestTimeout, transportKwargs, timeoutArg, h]
  intro hSame
  have hTimeout := congrArg (Option.map Kwargs.timeout) hSame
  cases hTimeout

/-- Both transports hand the engine what the client does exactly if the timeout extension that the caller may have set is a
dict and there is no form data with files, except that nothing is handed if the dict is refused. -/
theorem sameCall_iff (timeout : Phases) (started : O) (cookies : Option Str) (request : Request O) :
    SameCall timeout started cookies request ↔ request.Transportable := by
  have hTimeout := @timeout_prepare O request timeout started cookies
  have hCall : SameCall timeout started cookies request ↔ handed (transportKwargs (prepare timeout started cookies request)) =
      handed (sendNative timeout (prepare timeout started cookies request)) := ⟨SameCall.sync, fun h => ⟨h, h⟩⟩
  rw [hCall, Request.Transportable]
  cases hGiven : request.extensions.get Extensions.timeoutKey with
  | none =>
    rw [hGiven, Option.getD_none] at hTimeout
    rw [handed_dict timeout hTimeout, Phases.ofDict_asDict]
    exact ⟨fun h => h rfl, fun h _ => h⟩
  | some given =>
    rw [hGiven, Option.getD_some] at hTimeout
    cases given with
    | dict value => exact handed_dict timeout hTimeout
    | object o => exact iff_of_false (handed_object timeout hTimeout) id

/-- A form field sent with a file: the transports leave it out. -/
theorem not_sameCall : ¬ ∀ (timeout : Phases) (started : Nat) (cookies : Option Str) (request : Request Nat),
    SameCall timeout started cookies request := by
  intro h
  have hSame := (h ⟨none, none, none, none⟩ 0 none { method := utf8 "POST", url := utf8 "http://localhost/", headers := .empty
                                                     content := none, stream := none, files := some 1, multipartData := some 2
                                                     extensions := ⟨[], List.nodup_nil⟩ }).sync
  have hData : some none = some (some 2) := congrArg (Option.map Kwargs.data) hSame
  cases hData

end

end Eggfetch.Facade.Arguments
