import Eggfetch.Facade.NativeArguments
import Eggfetch.Facade.Nonces

/-! The request that `DigestAuth.auth_flow` (`_auth.py`) yields behind a challenge: what it keeps of the request that was
challenged. -/
namespace Eggfetch.Facade.FollowUp
open Text

/-- A request as `Request.__init__` (`_request.py`) leaves it. `host` is the `Host` that it makes of its URL; `PJ` are the
cookies. -/
structure Request (O PJ : Type) extends Arguments.Request O where
  host : Option Str
  path : List Char
  query : List Char
  cookies : PJ

inductive ContentError
  | requestNotRead
  deriving DecidableEq

section
variable {O PJ : Type}

namespace Request

/-- `Request.content` -/
def readContent (request : Request O PJ) : Except ContentError Str :=
  match request.content, request.stream with
  | none, some _ => .error .requestNotRead
  | content, _ => .ok (content.getD [])

/-- The `Host` and the `Content-Length` that a request with `content` gives itself. -/
def autoHeaders (host : Option Str) (content : Str) (headers : Headers) : Headers :=
  let headers := match host with
    | none => headers
    | some host => if headers.contains hostName.val then headers else headers.setItem hostName host
  if headers.contains contentLength.val then headers else headers.setItem contentLength (utf8 (toString content.length))

/-- `Request(method, url, headers=headers, content=content)` with the `Authorization` that is then set; the
method is in upper case already. The two requests share one `Headers` object in the source; here the first keeps
what it was sent with. -/
def authenticated (empty : PJ) (request : Request O PJ) (content : Str) (value : Str) : Request O PJ where
  method := request.method
  url := request.url
  headers := (autoHeaders request.host content request.headers).setItem authorizationName value
  content := some content
  stream := none
  files := none
  multipartData := none
  extensions := .empty
  host := request.host
  path := request.path
  query := request.query
  cookies := empty

/-- The body as it is dispatched: the bytes or the stream, the files and their form data. -/
def body (request : Request O PJ) : Arguments.Content O × Option O × Option O :=
  let kwargs := Arguments.buildNativeKwargs request.toRequest (some false) .useClientDefault
  (kwargs.content.getD (.bytes []), kwargs.files, kwargs.data)

end Request

/-- What the server answers to the first request, and the cnonce that would be drawn. -/
structure Answer where
  status : Nat
  challenge : Option Auth.WwwAuthenticate
  cnonce : List Char

/-- What the digest is made of; `text` reads the bytes of the method. -/
def exchange (text : Str → List Char) (request : Request O PJ) (answer : Answer) : Auth.Exchange where
  method := text request.method
  path := request.path
  query := request.query
  content := request.readContent.toOption
  status := answer.status
  challenge := answer.challenge
  cnonce := answer.cnonce

section
variable (alnum : Char → Bool) (md5 sha256 : List UInt8 → List Char) (text : Str → List Char) (empty : PJ)

/-- `auth_flow` behind its first request. -/
def authFlow (username password : List Char) (nonceCount : Nat) (request : Request O PJ) (answer : Answer) :
    Except ContentError (Option (Request O PJ)) :=
  match (Auth.authFlow alnum md5 sha256 username password (exchange text request answer) nonceCount).2 with
  | none => .ok none
  | some header => do
    let content ← request.readContent
    return some (request.authenticated empty content (Auth.encode header.render))

def Answer.Challenges (answer : Answer) : Prop :=
  ∃ header, answer.challenge = some header ∧ answer.status = 401 ∧ Auth.lower (header.render.take 6) = "digest".toList ∧
    Auth.parseChallenge alnum header.render ≠ none

end

/-- The fields other than `Authorization`. -/
def others (headers : Headers) : List (Name × Str) := headers.items.filter fun item => item.1 ≠ authorizationName

/-- A follow-up that differs only in its `Authorization`. Of the extensions the start of `elapsed` is each
dispatch's own, and a missing timeout is the client's. -/
structure Repeats (timeout : Phases) (request followUp : Request O PJ) : Prop where
  method : followUp.method = request.method
  url : followUp.url = request.url
  headers : others followUp.headers = others request.headers
  body : followUp.body = request.body
  extensions : ∀ key ≠ Extensions.startedKey,
    (followUp.extensions.ensureTimeout timeout).get key = (request.extensions.ensureTimeout timeout).get key
  cookies : followUp.cookies = request.cookies

/-- A request of which the four arguments say everything. -/
structure Rebuildable (timeout : Phases) (empty : PJ) (request : Request O PJ) : Prop where
  host : request.host ≠ none → request.headers.contains hostName.val = true
  length : request.headers.contains contentLength.val = true
  files : request.files = none
  extensions : ∀ key ≠ Extensions.startedKey, key ≠ Extensions.timeoutKey → request.extensions.get key = none
  timeout : ∀ value ∈ request.extensions.get Extensions.timeoutKey, value = .dict timeout.asDict
  cookies : request.cookies = empty

variable {request : Request O PJ} {timeout : Phases} {empty : PJ} {content value : Str}

theorem others_setItem (h : Headers) (value : Str) : others (h.setItem authorizationName value) = others h := by
  have hNew : [(authorizationName, value)].filter (fun item : Name × Str => item.1 ≠ authorizationName) = [] := by
    rw [List.filter_singleton, decide_eq_false (not_not_intro rfl)]
    rfl
  rw [others, others, Headers.setItem, List.filter_append, List.filter_filter, hNew, List.append_nil]
  exact List.filter_congr fun item _ => Bool.and_self _

private theorem setItem_new {h : Headers} {name : Name} (hNew : h.contains name.val = false) (value : Str) :
    (h.setItem name value).items = h.items ++ [(name, value)] := by
  have hNone := List.any_eq_false.mp hNew
  rw [Headers.setItem]
  dsimp only
  rw [List.filter_eq_self.mpr fun item hItem => ?_]
  refine decide_eq_true fun hEq => hNone item hItem ?_
  exact decide_eq_true (congrArg Subtype.val hEq)

private theorem length_others_setItem {h : Headers} {name : Name} (hNe : name ≠ authorizationName)
    (hNew : h.contains name.val = false)
    (value : Str) : (others (h.setItem name value)).length = (others h).length + 1 := by
  have hKept : [(name, value)].filter (fun item : Name × Str => item.1 ≠ authorizationName) = [(name, value)] := by
    rw [List.filter_singleton, decide_eq_true hNe]
    rfl
  rw [others, setItem_new hNew, List.filter_append, hKept, List.length_append, List.length_singleton, others]

private theorem others_autoHeaders (host : Option Str) (content : Str) (h : Headers) :
    others (Request.autoHeaders host content h) = others h ↔
      (host ≠ none → h.contains hostName.val = true) ∧ h.contains contentLength.val = true := by
  have hHostNe : hostName ≠ authorizationName := by decide
  have hLengthNe : contentLength ≠ authorizationName := by decide
  have hNames : contentLength.val ≠ hostName.val := by decide
  -- Each of the two fields is there or makes the list longer.
  have hLength : ∀ g : Headers, (others g).length ≤ (others (if g.contains contentLength.val then g
      else g.setItem contentLength (utf8 (toString content.length)))).length := by
    intro g
    split
    · exact le_rfl
    · rename_i hNew
      rw [length_others_setItem hLengthNe (Bool.eq_false_iff.mpr hNew)]
      exact Nat.le_succ _
  unfold Request.autoHeaders
  cases host with
  | none =>
    dsimp only
    split
    · rename_i hThere
      exact iff_of_true rfl ⟨fun h => absurd rfl h, hThere⟩
    · rename_i hNew
      refine iff_of_false (fun hSame => ?_) fun h => hNew h.2
      have hCount := congrArg List.length hSame
      rw [length_others_setItem hLengthNe (Bool.eq_false_iff.mpr hNew)] at hCount
      exact Nat.succ_ne_self _ hCount
  | some host =>
    dsimp only
    by_cases hHost : h.contains hostName.val = true
    · rw [if_pos hHost]
      split
      · rename_i hThere
        exact iff_of_true rfl ⟨fun _ => hHost, hThere⟩
      · rename_i hNew
        refine iff_of_false (fun hSame => ?_) fun h => hNew h.2
        have hCount := congrArg List.length hSame
        rw [length_others_setItem hLengthNe (Bool.eq_false_iff.mpr hNew)] at hCount
        exact Nat.succ_ne_self _ hCount
    · rw [if_neg hHost]
      refine iff_of_false (fun hSame => ?_) fun h => hHost (h.1 (Option.some_ne_none _))
      have hCount := hLength (h.setItem hostName host)
      rw [hSame, length_others_setItem hHostNe (Bool.eq_false_iff.mpr hHost)] at hCount
      exact Nat.not_succ_le_self _ hCount

private theorem body_eq_iff (h : request.readContent = .ok content) :
    (request.authenticated empty content value).body = request.body ↔ request.files = none := by
  have hFollow : (request.authenticated empty content value).body = (.bytes content, none, none) := rfl
  have hContent : (Arguments.contentArg request.toRequest).getD (.bytes []) = .bytes content := by
    rw [Request.readContent] at h
    rw [Arguments.contentArg]
    cases hBytes : request.content with
    | some bytes =>
      rw [hBytes] at h
      cases hStream : request.stream <;> (rw [hStream] at h; cases h; rfl)
    | none =>
      rw [hBytes] at h
      cases hStream : request.stream with
      | none =>
        rw [hStream] at h
        cases h
        rfl
      | some stream =>
        rw [hStream] at h
        cases h
  have hBody : request.body = (.bytes content, request.files, if request.files.isSome then request.multipartData else none) := by
    rw [← hContent]
    rfl
  rw [hFollow, hBody]
  constructor
  · intro hSame
    exact (Prod.mk.inj (Prod.mk.inj hSame).2).1.symm
  · intro hNone
    rw [hNone]
    rfl

private theorem extensions_eq_iff {extensions : Extensions O} :
    (∀ key ≠ Extensions.startedKey, (Extensions.ensureTimeout (.empty : Extensions O) timeout).get key =
      (extensions.ensureTimeout timeout).get key) ↔
    (∀ key ≠ Extensions.startedKey, key ≠ Extensions.timeoutKey → extensions.get key = none) ∧
      ∀ value ∈ extensions.get Extensions.timeoutKey, value = .dict timeout.asDict := by
  have hKeys : Extensions.timeoutKey ≠ Extensions.startedKey := by decide
  have hOther : ∀ (e : Extensions O) {key}, key ≠ Extensions.timeoutKey → (e.ensureTimeout timeout).get key = e.get key :=
    fun e key hNe => e.get_setdefault_of_ne _ hNe
  have hSelf : ∀ e : Extensions O, (e.ensureTimeout timeout).get Extensions.timeoutKey =
      some ((e.get Extensions.timeoutKey).getD (.dict timeout.asDict)) := fun e => e.get_setdefault_self _ _
  constructor
  · intro hSame
    refine ⟨fun key hStarted hTimeout => ?_, fun value hValue => ?_⟩
    · rw [← hOther extensions hTimeout, ← hSame key hStarted, hOther _ hTimeout, Dict.get_empty]
    · have hTimeout := hSame Extensions.timeoutKey hKeys
      rw [hSelf, hSelf, Dict.get_empty, hValue] at hTimeout
      exact (Option.some.inj hTimeout).symm
  · rintro ⟨hNone, hTimeout⟩ key hStarted
    by_cases hKey : key = Extensions.timeoutKey
    · rw [hKey, hSelf, hSelf, Dict.get_empty]
      cases hGet : extensions.get Extensions.timeoutKey with
      | none => rfl
      | some value => rw [hTimeout value hGet, Option.getD_none, Option.getD_some]
    · rw [hOther _ hKey, hOther _ hKey, Dict.get_empty, hNone key hStarted hKey]

private theorem repeats_iff (h : request.readContent = .ok content) :
    Repeats timeout request (request.authenticated empty content value) ↔ Rebuildable timeout empty request := by
  have hHeaders : others (request.authenticated empty content value).headers = others request.headers ↔ _ :=
    (others_setItem _ value) ▸ others_autoHeaders request.host content request.headers
  constructor
  · intro hRepeats
    obtain ⟨hHost, hLength⟩ := hHeaders.mp hRepeats.headers
    obtain ⟨hNone, hTimeout⟩ := extensions_eq_iff.mp hRepeats.extensions
    exact ⟨hHost, hLength, (body_eq_iff h).mp hRepeats.body, hNone, hTimeout, hRepeats.cookies.symm⟩
  · intro hRebuildable
    exact ⟨rfl, rfl, hHeaders.mpr ⟨hRebuildable.host, hRebuildable.length⟩, (body_eq_iff h).mpr hRebuildable.files,
      extensions_eq_iff.mpr ⟨hRebuildable.extensions, hRebuildable.timeout⟩, hRebuildable.cookies.symm⟩

variable {alnum : Char → Bool} {md5 sha256 : List UInt8 → List Char} {text : Str → List Char} {username password : List Char}
  {nonceCount : Nat} {answer : Answer}

private theorem authFlow_ne_none_iff : (Auth.authFlow alnum md5 sha256 username password (exchange text request answer)
    nonceCount).2 ≠ none ↔
    answer.Challenges alnum := by
  rw [Answer.Challenges, Auth.authFlow]
  split
  · rename_i hNo
    refine iff_of_false (fun h => h rfl) ?_
    rintro ⟨header, hHeader, hStatus, hDigest, -⟩
    rcases hNo with hNo | hNo
    · exact hNo hStatus
    · refine hNo ?_
      have hText : (exchange text request answer).wwwAuthenticate = header.render := by
        rw [Auth.Exchange.wwwAuthenticate, exchange, hHeader]
        rfl
      rw [hText, hDigest]
  · rename_i hYes
    rw [not_or, not_not, not_not] at hYes
    cases hHeader : answer.challenge with
    | none =>
      have hText : (exchange text request answer).wwwAuthenticate = [] := by
        rw [Auth.Exchange.wwwAuthenticate, exchange, hHeader]
        rfl
      rw [hText] at hYes
      exact absurd hYes.2 (by decide)
    | some header =>
      have hText : (exchange text request answer).wwwAuthenticate = header.render := by
        rw [Auth.Exchange.wwwAuthenticate, exchange, hHeader]
        rfl
      rw [hText] at hYes ⊢
      cases hParse : Auth.parseChallenge alnum header.render with
      | none =>
        refine iff_of_false (fun h => h rfl) ?_
        rintro ⟨other, hOther, -, -, hSome⟩
        cases hOther
        exact hSome hParse
      | some challenge =>
        refine iff_of_true (Option.some_ne_none _) ⟨header, rfl, hYes.1, hYes.2, ?_⟩
        rw [hParse]
        exact Option.some_ne_none _

/-- Behind a challenge that can be read the follow-up repeats the request exactly if the request is one that can
be rebuilt from its method, URL, headers and content; a stream that was not read is an error. -/
theorem followUp_repeats_iff (alnum : Char → Bool) (md5 sha256 : List UInt8 → List Char) (text : Str → List Char)
    (username password : List Char) (nonceCount : Nat) (timeout : Phases) (empty : PJ) (request : Request O PJ)
    (answer : Answer) :
    (∀ followUp, authFlow alnum md5 sha256 text empty username password nonceCount request answer = .ok (some followUp) →
      Repeats timeout request followUp) ↔
    (answer.Challenges alnum → request.content ≠ none ∨ request.stream = none → Rebuildable timeout empty request) := by
  have hReadable : (request.content ≠ none ∨ request.stream = none) ↔ ∃ content, request.readContent = .ok content := by
    rw [Request.readContent]
    cases request.content with
    | none => cases request.stream with
      | none => exact iff_of_true (Or.inr rfl) ⟨_, rfl⟩
      | some stream => exact iff_of_false (fun h => h.elim (fun h => h rfl) fun h => nomatch h) fun ⟨_, h⟩ => nomatch h
    | some content => cases request.stream <;> exact iff_of_true (Or.inl (Option.some_ne_none _)) ⟨_, rfl⟩
  rw [hReadable, ← @authFlow_ne_none_iff O PJ request alnum md5 sha256 text username password nonceCount answer, authFlow]
  cases (Auth.authFlow alnum md5 sha256 username password (exchange text request answer) nonceCount).2 with
  | none => exact iff_of_true (fun _ h => nomatch h) fun h => absurd rfl h
  | some header =>
    cases hContent : request.readContent with
    | error e => exact iff_of_true (fun _ h => nomatch h) fun _ ⟨_, h⟩ => nomatch h
    | ok content =>
      have hOne : (∀ followUp, (Except.ok (some (request.authenticated empty content (Auth.encode header.render))) :
          Except ContentError (Option (Request O PJ))) = .ok (some followUp) → Repeats timeout request followUp) ↔
          Repeats timeout request (request.authenticated empty content (Auth.encode header.render)) :=
        ⟨fun h => h _ rfl, fun h followUp hEq => Option.some.inj (Except.ok.inj hEq) ▸ h⟩
      refine hOne.trans ((repeats_iff hContent).trans ⟨fun h _ _ => h, fun h => h (Option.some_ne_none _) ⟨content, rfl⟩⟩)

end

/-- `GET /` -/
def bare : Request Nat Unit where
  method := utf8 "GET"
  url := utf8 "http://localhost/"
  headers := Headers.empty.setItem hostName (utf8 "localhost")
  content := none
  stream := none
  files := none
  multipartData := none
  extensions := .empty
  host := some (utf8 "localhost")
  path := ['/']
  query := []
  cookies := ()

/-- Its follow-up has a `Content-Length`. -/
theorem not_followUp_repeats : ¬ ∀ (request : Request Nat Unit) (answer : Answer) (followUp : Request Nat Unit),
    authFlow (fun _ => false) Auth.sumHash Auth.sumHash (fun _ => []) () "u".toList "p".toList 0 request answer =
    .ok (some followUp) →
      Repeats ⟨none, none, none, none⟩ request followUp := by
  intro hAll
  let answer : Answer := ⟨401, some (Auth.offered "a" (by decide) Auth.charset), []⟩
  have hChallenges : answer.Challenges (fun _ => false) := by
    refine ⟨_, rfl, rfl, rfl, ?_⟩
    rw [Auth.offered_parse]
    exact Option.some_ne_none _
  have hRebuildable := (followUp_repeats_iff (fun _ => false) Auth.sumHash Auth.sumHash (fun _ => []) "u".toList "p".toList 0
    ⟨none, none, none, none⟩ () bare answer).mp (hAll bare answer) hChallenges (Or.inr rfl)
  exact absurd hRebuildable.length (by decide)

end Eggfetch.Facade.FollowUp
