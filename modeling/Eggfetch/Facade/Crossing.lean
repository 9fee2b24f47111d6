import Eggfetch.Facade.Chain

/-! Credentials along a redirect chain of the facade. The facade strips them from its own
requests, one repetition of `Authorization` and every `Cookie`; the native client then adds
its default headers, which were taken from the client when it was built. -/
namespace Eggfetch.Facade
open Text Pipeline

variable {PJ J O : Type} {env : Env PJ J O} {client : Client PJ J} {request : Request PJ}
  {follow : Bool} {history now : Nat} {replies : List Reply}

def secretNames : List Str := [authorization, cookie]

def afterCrossing : List (Hop PJ J O) → List (Hop PJ J O)
  | a :: b :: rest => if crosses a.request.url b.request.url then b :: rest else afterCrossing (b :: rest)
  | _ => []

/-- The default headers that the native client has, or will be built with. -/
def Client.defaultHeaders (env : Env PJ J O) (client : Client PJ J) : Http.Headers :=
  match client.ensureClient env with
  | .ok native => native.defaultHeaders
  | .error _ => .empty

/-- The `Cookie` header that the jars give a hop: the facade's, else the native one's. -/
def Hop.jarCookie (env : Env PJ J O) (hop : Hop PJ J O) : Option Str :=
  env.cookieText hop.request.cookies hop.request.url hop.now <|>
    ((env.store hop.now).cookiesForUrl hop.jar hop.built.url).1

/-- A hop as the native client makes it from the facade's headers and these defaults. -/
structure Hop.BuiltWith (env : Env PJ J O) (defaults : Http.Headers) (hop : Hop PJ J O) : Prop where
  values : ∀ name, name ≠ cookie → name ≠ contentType →
    hop.built.headers.getAll name = sentValues defaults hop.request.headers name
  cookies : hop.built.headers.getAll cookie =
    if sentValues defaults hop.request.headers cookie = [] then
      ((env.store hop.now).cookiesForUrl hop.jar hop.built.url).1.toList
    else sentValues defaults hop.request.headers cookie
  typed : hop.built.headers.getAll contentType =
    if hop.request.headers.getList contentType = [] ∧ (nativeBody env hop.request.body).1.isSome then
      (nativeBody env hop.request.body).1.toList
    else sentValues defaults hop.request.headers contentType
  parsed : env.parse hop.request.url.text = .ok hop.built.url

theorem hop_builtWith (client : Client PJ J) (request : Request PJ) (follow : Bool)
    (history now : Nat) (replies : List Reply) :
    ∀ hop ∈ (client.sendHandlingRedirects env request follow history now replies).hops,
      hop.BuiltWith env (client.defaultHeaders env) := by
  refine hop_invariant (Q := Hop.BuiltWith env (client.defaultHeaders env))
    (I := fun next _ => ∀ native, next.ensureClient env = .ok native →
      native.defaultHeaders = client.defaultHeaders env) ?_ ?_ ?_ follow history now replies
  · intro next request now reply hop hdefaults hhop
    obtain ⟨native, -, hensure, -⟩ := ensureClient_sent hhop
    obtain ⟨hrequest, hnow⟩ := dispatch_request hhop
    rw [← hdefaults native hensure]
    refine ⟨fun name hcookie htype => ?_, ?_, ?_, ?_⟩
    · rw [dispatch_getAll hhop hensure hcookie htype, hrequest]
    · rw [dispatch_cookie hhop hensure, hrequest, hnow]
    · rw [dispatch_contentType hhop hensure, hrequest]
    · rw [hrequest, dispatch_url hhop]
  · intro next request now reply hop response after hdefaults hhop _ native' hensure'
    obtain ⟨native, jar, hensure, hsent⟩ := ensureClient_sent hhop
    obtain rfl := Except.ok.inj (hsent.symm.trans hensure')
    exact hdefaults native hensure
  · intro native hensure
    simp only [Client.defaultHeaders, hensure]

theorem prepareCookieHeader_authorization :
    (request.prepareCookieHeader env now).headers.getList authorization =
      request.headers.getList authorization := getList_prepareCookies_of_ne _ (by decide)

section next
variable {jar : PJ} {response : Response} {next : Request PJ}

theorem next_cookie
    (h : buildRedirectRequest env jar (request.prepareCookieHeader env now) response = .ok next) :
    next.headers.getList cookie = [] := by
  rw [buildRedirectRequest_ok h, getList_autoHeaders _ _ _ (by decide) (by decide),
    getList_redirectedHeaders_cookie]
  have hle := length_prepareCookies_le request.headers
    (env.cookieText request.cookies request.url now)
  apply List.eq_nil_of_length_eq_zero
  rw [List.length_tail, List.length_tail]
  show (List.length (Headers.getList (prepareCookies _ _) cookie)) - 1 - 1 = 0
  omega

theorem next_authorization
    (h : buildRedirectRequest env jar (request.prepareCookieHeader env now) response = .ok next) :
    next.headers.getList authorization =
      if crosses request.url next.url then (request.headers.getList authorization).tail
      else request.headers.getList authorization := by
  rw [buildRedirectRequest_ok h, getList_autoHeaders _ _ _ (by decide) (by decide),
    getList_redirectedHeaders_authorization, prepareCookieHeader_authorization]
  rfl

end next

/-- The first hop of a call is that of its request. -/
theorem head_request {hop : Hop PJ J O} {rest : List (Hop PJ J O)}
    (h : (client.sendHandlingRedirects env request follow history now replies).hops = hop :: rest) :
    hop.request = request.prepareCookieHeader env now := by
  have hfirst : ∀ hop, (client.sendSingleRequest env request now replies.head?).hop = some hop →
      hop.request = request.prepareCookieHeader env now := fun hop hhop => (dispatch_request hhop).1
  rcases sendHandlingRedirects_cases env client request follow history now replies with hnil |
    ⟨first, hsent, hone⟩ | ⟨first, _, _, _, _, hsent, -, -, -, hmore⟩
  · rw [hnil] at h
    cases h
  · rw [hone] at h
    obtain ⟨rfl, -⟩ := List.cons.inj h
    exact hfirst _ hsent
  · rw [hmore] at h
    obtain ⟨rfl, -⟩ := List.cons.inj h
    exact hfirst _ hsent

private theorem afterCrossing_cons {first : Hop PJ J O} {next : Request PJ}
    (hfirst : first.request.url = request.url) :
    let rest := (client.sendHandlingRedirects env next follow history now replies).hops
    afterCrossing (first :: rest) =
      if crosses request.url next.url then rest else afterCrossing rest := by
  dsimp only
  cases hrest : (client.sendHandlingRedirects env next follow history now replies).hops with
  | nil => simp [afterCrossing]
  | cons hop hops =>
    have hurl : hop.request.url = next.url := by
      rw [head_request hrest]
      rfl
    rw [afterCrossing, hfirst, hurl]

/-- A call whose chain crosses follows a redirect. -/
theorem afterCrossing_cases
    (h : afterCrossing (client.sendHandlingRedirects env request follow history now replies).hops ≠ []) :
    let sent := client.sendSingleRequest env request now replies.head?
    ∃ hop reply rest response next, sent.hop = some hop ∧ replies = reply :: rest ∧
      sent.result = .ok (some response) ∧
      buildRedirectRequest env sent.client.cookies (request.prepareCookieHeader env now) response =
        .ok next ∧
      let hops := (sent.client.sendHandlingRedirects env next follow (history + 1) reply.elapsed rest).hops
      afterCrossing (client.sendHandlingRedirects env request follow history now replies).hops =
        if crosses request.url next.url then hops else afterCrossing hops := by
  rcases sendHandlingRedirects_cases env client request follow history now replies with hnil |
    ⟨first, -, hone⟩ | ⟨hop, reply, rest, response, next, hhop, hreplies, hresult, hbuild, hmore⟩
  · exact absurd (by rw [hnil]; rfl) h
  · exact absurd (by rw [hone]; rfl) h
  · refine ⟨hop, reply, rest, response, next, hhop, hreplies, hresult, hbuild, ?_⟩
    rw [hmore]
    apply afterCrossing_cons
    rw [(dispatch_request hhop).1]
    rfl

theorem tail_cookie (client : Client PJ J) (request : Request PJ) (follow : Bool)
    (history now : Nat) (replies : List Reply) :
    ∀ hop ∈ (client.sendHandlingRedirects env request follow history now replies).hops.tail,
      hop.request.headers.getList cookie =
        (env.cookieText hop.request.cookies hop.request.url hop.now).toList := by
  intro hop hmem
  rcases sendHandlingRedirects_cases env client request follow history now replies with hnil |
    ⟨first, -, hone⟩ | ⟨first, _, _, _, next, -, -, -, hbuild, hmore⟩
  · rw [hnil] at hmem
    cases hmem
  · rw [hone] at hmem
    cases hmem
  · rw [hmore, List.tail_cons] at hmem
    refine hop_invariant (I := fun _ next => next.headers.getList cookie = [])
      (Q := fun hop => hop.request.headers.getList cookie =
        (env.cookieText hop.request.cookies hop.request.url hop.now).toList)
      ?_ ?_ (next_cookie hbuild) _ _ _ _ hop hmem
    · intro client request now reply hop hnone hhop
      obtain ⟨hrequest, hnow⟩ := dispatch_request hhop
      rw [hrequest, hnow]
      exact getList_prepareCookies_of_none _ hnone
    · intro _ _ _ _ _ _ _ _ _ hbuild
      exact next_cookie hbuild

/-- A crossing takes one repetition of `Authorization`, and a chain never adds one. -/
theorem crossed_authorization (client : Client PJ J) (request : Request PJ) (follow : Bool)
    (history now : Nat) (replies : List Reply) :
    ∀ hop ∈ afterCrossing (client.sendHandlingRedirects env request follow history now replies).hops,
      hop.request.headers.getList authorization <:+ (request.headers.getList authorization).tail := by
  induction replies generalizing client request history now with
  | nil =>
    intro hop hmem
    obtain ⟨_, _, _, _, _, -, hreplies, -⟩ := afterCrossing_cases (List.ne_nil_of_mem hmem)
    cases hreplies
  | cons reply replies ih =>
    intro hop hmem
    obtain ⟨first, _, _, response, next, hfirst, hreplies, -, hbuild, hafter⟩ :=
      afterCrossing_cases (List.ne_nil_of_mem hmem)
    obtain ⟨rfl, rfl⟩ := List.cons.inj hreplies
    rw [hafter] at hmem
    have hnext := next_authorization hbuild
    split_ifs at hmem hnext with hcross
    · have hstart : next.headers.getList authorization <:+ (request.headers.getList authorization).tail :=
        hnext ▸ List.suffix_rfl
      refine hop_invariant
        (I := fun _ later => later.headers.getList authorization <:+
          (request.headers.getList authorization).tail)
        (Q := fun hop => hop.request.headers.getList authorization <:+
          (request.headers.getList authorization).tail)
        ?_ ?_ hstart _ _ _ _ hop hmem
      · intro _ later _ _ _ hlater hhop
        rw [(dispatch_request hhop).1, prepareCookieHeader_authorization]
        exact hlater
      · intro _ later _ _ _ _ _ hlater _ hbuild
        rw [next_authorization hbuild]
        split_ifs
        · exact (List.tail_suffix _).trans hlater
        · exact hlater
    · rw [← hnext]
      exact ih _ _ _ _ hop hmem

/-- The hop that crosses carries the other repetitions. -/
theorem crossing_authorization {hop : Hop PJ J O} {hops : List (Hop PJ J O)}
    (h : afterCrossing (client.sendHandlingRedirects env request follow history now replies).hops =
      hop :: hops) :
    hop.request.headers.getList authorization = (request.headers.getList authorization).tail := by
  induction replies generalizing client request history now with
  | nil =>
    obtain ⟨_, _, _, _, _, -, hreplies, -⟩ := afterCrossing_cases (by rw [h]; exact List.cons_ne_nil _ _)
    cases hreplies
  | cons reply replies ih =>
    obtain ⟨first, _, _, response, next, hfirst, hreplies, -, hbuild, hafter⟩ :=
      afterCrossing_cases (by rw [h]; exact List.cons_ne_nil _ _)
    obtain ⟨rfl, rfl⟩ := List.cons.inj hreplies
    rw [hafter] at h
    have hnext := next_authorization hbuild
    split_ifs at h hnext with hcross
    · rw [← hnext, head_request h, prepareCookieHeader_authorization]
    · rw [← hnext]
      exact ih h

end Eggfetch.Facade
