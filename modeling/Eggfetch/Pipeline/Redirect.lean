import Eggfetch.Pipeline.Hop

/-! The redirect engine of `redirect.rs` and the loop of `pipeline/redirect.rs`. The server
answers and the clock are given as a list of replies, one for each dispatched hop. -/
namespace Eggfetch.Pipeline
open Text Http

variable {O J : Type}

def isRedirectStatus (status : Nat) : Bool := status ∈ [301, 302, 303, 307, 308]

def redirectMethod (status : Nat) (current : Method) : Method :=
  if status = 303 then (if current = utf8 "HEAD" then utf8 "HEAD" else utf8 "GET")
  else if status = 301 ∨ status = 302 then
    (if current = utf8 "POST" then utf8 "GET" else current)
  else current

def dropsBodyOnRedirect (status : Nat) (current : Method) : Bool :=
  if status = 303 then current ≠ utf8 "HEAD"
  else current = utf8 "POST" ∧ redirectMethod status current = utf8 "GET"

def isHttpsDowngrade (source target : Url) : Bool :=
  source.scheme = utf8 "https" ∧ target.scheme = utf8 "http"

def checkHttpsDowngrade (source target : Url) (policy : RedirectDowngradePolicy) : Except Error Unit :=
  if policy = .deny ∧ isHttpsDowngrade source target then
    .error (.invalidRedirectLocation (utf8 "redirect downgrade from https to http is not allowed"))
  else .ok ()

def validateRedirectUrl (url : Url) : Except Error Unit :=
  if url.username ≠ [] ∨ url.password.isSome then
    .error (.invalidRedirectLocation (utf8 "redirect URL userinfo is not supported"))
  else if url.scheme = utf8 "http" ∨ url.scheme = utf8 "https" then .ok ()
  else
    .error (.unsupported (utf8 "redirect to unsupported scheme '" ++ url.scheme ++
      utf8 "': only http and https are allowed"))

def bodyHeaders : List Str := ["content-length", "content-type", "transfer-encoding"].map utf8

def crossOriginHeaders : List Str := [cookie, host, utf8 "referer", utf8 "origin"]

def stripHeadersForRedirect (headers : Headers) (originalUrl newUrl : Url) (dropBody : Bool) : Headers :=
  let headers := headers.removeAll [authorization, proxyAuthorization]
  let headers :=
    if !originalUrl.sameOrigin newUrl then headers.removeAll crossOriginHeaders else headers
  if dropBody then headers.removeAll bodyHeaders else headers

def RequestBody.tryCloneForRedirect : RequestBody → Except Error RequestBody
  | .empty => .ok .empty
  | .bytes data => .ok (.bytes data)
  | .stream _ => .error .bodyNotReplayableForRedirect

/-- Resolution of a reference against a base URL, with the text of its failure. -/
abbrev Join := Url → Str → Except Str Url

def buildRedirectRequest (join : Join) (url : Url) (headers : Headers) (body : RequestBody)
    (location : Str) (dropBody : Bool) (downgrade : RedirectDowngradePolicy) :
    Except Error (Url × Headers × RequestBody) :=
  match join url location with
  | .error reason => .error (.invalidRedirectLocation reason)
  | .ok newUrl =>
    match validateRedirectUrl newUrl with
    | .error e => .error e
    | .ok () =>
      match checkHttpsDowngrade url newUrl downgrade with
      | .error e => .error e
      | .ok () =>
        let newHeaders := stripHeadersForRedirect headers url newUrl dropBody
        if dropBody then .ok (newUrl, newHeaders, .empty)
        else
          match body.tryCloneForRedirect with
          | .error e => .error e
          | .ok newBody => .ok (newUrl, newHeaders, newBody)

structure RedirectHop where
  method : Method
  url : Url
  headers : Headers
  body : RequestBody
  version : Version

/-- The next hop, with the bytes that a later hop may replay. -/
def advanceRedirectHop (join : Join) (curMethod : Method) (curUrl : Url) (curHeaders : Headers)
    (replayBody : Option Str) (status : Nat) (location : Str) (downgrade : RedirectDowngradePolicy) :
    Except Error (RedirectHop × Option Str) :=
  let newMethod := redirectMethod status curMethod
  let dropBody := dropsBodyOnRedirect status curMethod
  let replayBody := if dropBody then some [] else replayBody
  match replayBody with
  | none => .error .bodyNotReplayableForRedirect
  | some payload =>
    let manualAuthorization := curHeaders.get authorization
    let tempBody := if dropBody then .empty else .bytes payload
    match buildRedirectRequest join curUrl curHeaders tempBody location dropBody downgrade with
    | .error e => .error e
    | .ok (newUrl, newHeaders, newBody) =>
      let headers := match manualAuthorization with
        | some value =>
          if curUrl.sameOrigin newUrl then newHeaders.insertRaw authorization value else newHeaders
        | none => newHeaders
      .ok (⟨newMethod, newUrl, headers, newBody, .http11⟩, some payload)

/-- The local variables of the loop. -/
structure LoopState (J : Type) where
  method : Method
  url : Url
  headers : Headers
  body : RequestBody
  version : Version
  replayBody : Option Str
  prevUrl : Option Url
  credentialsAllowed : Bool
  cookieHeaderAllowed : Bool
  redirectCount : Nat
  history : List Response
  jar : J

inductive Outcome where
  | ok (response : Response) (history : List Response)
  | error (e : Error)
  /-- The last dispatched hop has no reply yet. -/
  | waiting

/-- What the transport returns for a hop, and the time since the start when the next
hop begins. -/
structure Reply where
  result : Except Error Response
  elapsed : Duration

/-- The requests handed to the transport, in order, and how the call ends. -/
structure Trace (O J : Type) where
  hops : List (Request O)
  outcome : Outcome
  jar : J

/-- What the loop reads and never changes. -/
structure LoopParams (O J : Type) where
  store : CookieStore J
  join : Join
  config : ClientConfig
  policy : RedirectPolicy
  params : HopBuildParams O

def hopTimeout (timeout : Timeout) (elapsed : Duration) : Except Error Timeout :=
  match timeout.total with
  | some total =>
    if total ≤ elapsed then .error (.timeout .total elapsed)
    else .ok { timeout with total := some (total - elapsed) }
  | none => .ok timeout

def LoopState.isCrossOrigin (st : LoopState J) : Bool := st.prevUrl.any fun prev => !prev.sameOrigin st.url

def LoopState.enter (st : LoopState J) : LoopState J :=
  if st.isCrossOrigin then { st with credentialsAllowed := false, cookieHeaderAllowed := false } else st

def LoopState.hopParams (l : LoopParams O J) (st : LoopState J) (timeout : Timeout) : HopBuildParams O :=
  { l.params with
    method := st.method
    url := st.url
    headers := st.headers
    body := st.body
    version := st.version
    timeout := timeout
    isFirstHop := st.prevUrl.isNone
    preserveResolvedTarget := !st.isCrossOrigin
    credentialsAllowed := st.credentialsAllowed
    cookieAllowed := st.cookieHeaderAllowed }

def LoopState.prepare (l : LoopParams O J) (st : LoopState J) (elapsed : Duration) :
    Except Error (Request O × LoopState J) :=
  match hopTimeout l.params.timeout elapsed with
  | .error e => .error e
  | .ok timeout =>
    if st.isCrossOrigin ∧
        (l.params.transportHints.resolvedTarget.isSome ∨ l.params.proxiedTarget.isSome) then
      .error .resolvedTargetRedirect
    else
      match buildHopRequest l.store l.config st.jar (st.enter.hopParams l timeout) with
      | .error e => .error e
      | .ok (hop, jar) => .ok (hop, { st.enter with jar := jar })

/-- The loop after a response: an end, or the state of the next hop. -/
def LoopState.follow (l : LoopParams O J) (st : LoopState J) (response : Response) :
    Except Outcome (LoopState J) :=
  if !isRedirectStatus response.status ∨ !l.policy.follow then .error (.ok response st.history)
  else
    match response.headers.get (utf8 "location") with
    | none => .error (.ok response st.history)
    | some location =>
      if !isVisibleAscii location then
        .error (.error (.invalidRedirectLocation (utf8 "failed to convert header to a str")))
      else
        let redirectCount := st.redirectCount + 1
        if l.policy.maxRedirects < redirectCount then
          .error (.error (.tooManyRedirects (redirectCount - 1) l.policy.maxRedirects))
        else
          match advanceRedirectHop l.join st.method st.url st.headers st.replayBody response.status
              location l.policy.downgrade with
          | .error e => .error (.error e)
          | .ok (hop, replayBody) =>
            .ok { st with
              method := hop.method
              url := hop.url
              headers := hop.headers
              body := hop.body
              version := hop.version
              replayBody := replayBody
              prevUrl := some st.url
              redirectCount := redirectCount
              history := st.history ++ [response] }

def LoopState.loop (l : LoopParams O J) (st : LoopState J) (elapsed : Duration) : List Reply → Trace O J
  | [] =>
    match st.prepare l elapsed with
    | .error e => ⟨[], .error e, st.jar⟩
    | .ok (hop, st) => ⟨[hop], .waiting, st.jar⟩
  | reply :: replies =>
    match st.prepare l elapsed with
    | .error e => ⟨[], .error e, st.jar⟩
    | .ok (hop, st) =>
      match reply.result with
      | .error e => ⟨[hop], .error e, st.jar⟩
      | .ok response =>
        let jar := updateCookieJar l.store st.jar response
        match { st with jar := jar }.follow l response with
        | .error outcome => ⟨[hop], outcome, jar⟩
        | .ok st =>
          let rest := st.loop l reply.elapsed replies
          ⟨hop :: rest.hops, rest.outcome, rest.jar⟩

def LoopState.start (params : HopBuildParams O) (jar : J) : LoopState J where
  method := params.method
  url := params.url
  headers := params.headers
  body := params.body
  version := params.version
  replayBody := match params.body with
    | .empty => some []
    | .bytes data => some data
    | .stream _ => none
  prevUrl := none
  credentialsAllowed := true
  cookieHeaderAllowed := true
  redirectCount := 0
  history := []
  jar := jar

def sendFirstHop (store : CookieStore J) (config : ClientConfig) (jar : J) (params : HopBuildParams O) :
    List Reply → Trace O J
  | replies =>
    match buildHopRequest store config jar params with
    | .error e => ⟨[], .error e, jar⟩
    | .ok (hop, jar) =>
      match replies with
      | [] => ⟨[hop], .waiting, jar⟩
      | reply :: _ =>
        match reply.result with
        | .error e => ⟨[hop], .error e, jar⟩
        | .ok response => ⟨[hop], .ok response [], updateCookieJar store jar response⟩

def sendWithRedirects (store : CookieStore J) (join : Join) (config : ClientConfig) (jar : J)
    (request : Request O) (elapsed : Duration) (replies : List Reply) : Trace O J :=
  let policy := request.redirect.getD config.redirect
  let params := prepareFirstHop config request
  if !policy.follow then sendFirstHop store config jar params replies
  else (LoopState.start params jar).loop ⟨store, join, config, policy, params⟩ elapsed replies

end Eggfetch.Pipeline
