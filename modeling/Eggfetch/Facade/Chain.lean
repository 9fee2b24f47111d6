import Eggfetch.Facade.Dispatch

/-! Redirect chains of the facade: what a call does with its hops, and the `Cookie` and
`Authorization` headers along a chain. -/
namespace Eggfetch.Facade
open Text Pipeline

variable {PJ J O : Type} {env : Env PJ J O} {client : Client PJ J} {native : Native J}
  {request next : Request PJ} {now : Nat} {reply : Option Reply} {hop : Hop PJ J O}
  {response : Response} {headers : Headers} {name : Str}

private theorem getList_addCookieHeader_of_ne (text : Option Str) (hne : name ≠ cookie) :
    (addCookieHeader text headers).getList name = headers.getList name := by
  simp only [addCookieHeader]
  split
  · split_ifs
    · rfl
    · exact Headers.getList_setItem_of_ne hne
  · rfl

theorem getList_prepareCookies_of_ne (text : Option Str) (hne : name ≠ cookie) :
    (prepareCookies text headers).getList name = headers.getList name := by
  have hgenerated : (addCookieHeader text (headers.pop cookie)).getList name = headers.getList name := by
    rw [getList_addCookieHeader_of_ne text hne, Headers.getList_pop_of_ne hne]
  simp only [prepareCookies]
  split
  · exact hgenerated
  · exact hgenerated
  · rw [Headers.getList_setItem_of_ne hne, hgenerated]

/-- Without an explicit `Cookie` header the jar has its way. -/
theorem getList_prepareCookies_of_none (text : Option Str) (hnone : headers.getList cookie = []) :
    (prepareCookies text headers).getList cookie = text.toList := by
  have hpop : (headers.pop cookie).getList cookie = [] := by
    rw [Headers.getList_pop_self, hnone]
    rfl
  have hget : headers.get cookie = none := if_pos hnone
  simp only [prepareCookies, hget, addCookieHeader]
  cases text with
  | none => exact hpop
  | some text =>
    simp only [Headers.contains_eq_false_iff.mpr hpop, Bool.false_eq_true, if_false]
    exact @Headers.getList_setItem_self _ cookieName text

/-- An empty text is the text of a single empty header. -/
theorem Headers.get_eq_some_nil : headers.get name = some [] ↔ headers.getList name = [[]] := by
  rw [Headers.get]
  match headers.getList name with
  | [] => simp
  | [value] => simp
  | value :: second :: rest =>
    have hcomma : utf8 ", " ≠ [] := by decide
    simp [List.intercalate_cons_cons, hcomma]

/-- At most one `Cookie` header is left. -/
theorem length_prepareCookies_le (headers : Headers) (text : Option Str) :
    ((prepareCookies text headers).getList cookie).length ≤ 1 := by
  have hsingle : ∀ (h : Headers) value, (h.setItem cookieName value).getList cookie = [value] :=
    fun h value => @Headers.getList_setItem_self h cookieName value
  have hgenerated : ∀ h : Headers, h.getList cookie = [] →
      ((addCookieHeader text h).getList cookie).length ≤ 1 := by
    intro h hnone
    simp only [addCookieHeader]
    split
    · rw [if_neg (by simp [Headers.contains_eq_false_iff.mpr hnone]), hsingle]
      exact le_rfl
    · simp [hnone]
  simp only [prepareCookies]
  split
  · rename_i hget
    apply hgenerated
    rw [Headers.getList_pop_self]
    simp only [Headers.get, ite_eq_left_iff, reduceCtorEq, imp_false, not_not] at hget
    rw [hget]
    rfl
  · rename_i hget
    apply hgenerated
    rw [Headers.getList_pop_self, Headers.get_eq_some_nil.mp hget]
    rfl
  · rw [hsingle]
    exact le_rfl

theorem getList_autoHeaders (method : Str) (url : Url) (body : Body) (hhost : name ≠ host)
    (hlength : name ≠ contentLength.val) :
    (autoHeaders method url body headers).getList name = headers.getList name := by
  have hset : ∀ (h : Headers) value, (h.setItem contentLength value).getList name = h.getList name :=
    fun h value => Headers.getList_setItem_of_ne hlength
  have hhosted : ∀ (h : Headers) value, (h.setItem hostName value).getList name = h.getList name :=
    fun h value => Headers.getList_setItem_of_ne hhost
  simp only [autoHeaders]
  split <;> split <;> simp only [apply_ite (Headers.getList · name), hset, hhosted, ite_self]

/-- A redirect keeps an `Authorization` header, but for its first repetition when the hop
crosses. -/
theorem getList_redirectedHeaders_authorization (url : Url) (method : Str) :
    (redirectedHeaders request url method).getList authorization =
      if crosses request.url url then (request.headers.getList authorization).tail
      else request.headers.getList authorization := by
  have hcookie : ∀ h : Headers, (h.pop cookie).getList authorization = h.getList authorization :=
    fun h => Headers.getList_pop_of_ne (by decide)
  have hlength : ∀ h : Headers, ((h.pop contentLength.val).pop transferEncoding).getList authorization =
      h.getList authorization := by
    intro h
    rw [Headers.getList_pop_of_ne (by decide), Headers.getList_pop_of_ne (by decide)]
  have hhost : ∀ (h : Headers) value, (h.setItem hostName value).getList authorization =
      h.getList authorization := fun h value => Headers.getList_setItem_of_ne (by decide)
  simp only [redirectedHeaders, apply_ite (Headers.getList · authorization), hlength, ite_self]
  cases hsame : url.sameOrigin request.url with
  | true => simp [crosses, hsame, hcookie]
  | false =>
    cases hhttps : request.url.isHttpsRedirect url <;> cases url.host <;>
      simp [crosses, hsame, hhttps, hcookie, hhost]

theorem getList_redirectedHeaders_cookie (url : Url) (method : Str) :
    (redirectedHeaders request url method).getList cookie = (request.headers.getList cookie).tail.tail := by
  have hauth : ∀ h : Headers, (h.pop authorization).getList cookie = h.getList cookie :=
    fun h => Headers.getList_pop_of_ne (by decide)
  have hlength : ∀ h : Headers, ((h.pop contentLength.val).pop transferEncoding).getList cookie =
      h.getList cookie := by
    intro h
    rw [Headers.getList_pop_of_ne (by decide), Headers.getList_pop_of_ne (by decide)]
  have hhost : ∀ (h : Headers) value, (h.setItem hostName value).getList cookie = h.getList cookie :=
    fun h value => Headers.getList_setItem_of_ne (by decide)
  simp only [redirectedHeaders, apply_ite (Headers.getList · cookie), hlength, ite_self]
  cases url.sameOrigin request.url <;> cases request.url.isHttpsRedirect url <;> cases url.host <;>
    simp [hauth, hhost]

private theorem redirectHeaders_ok {url : Url} {method : Str} {headers : Headers}
    (h : redirectHeaders request url method = .ok headers) : redirectedHeaders request url method = headers := by
  unfold redirectHeaders at h
  split at h
  · exact Except.ok.inj h
  · cases h

theorem buildRedirectRequest_ok {jar : PJ} (h : buildRedirectRequest env jar request response = .ok next) :
    next.headers = autoHeaders next.method next.url next.body
      (redirectedHeaders request next.url next.method) := by
  unfold buildRedirectRequest at h
  split at h
  · cases h
  · dsimp only at h
    split at h
    · cases h
    · rename_i hheaders
      obtain rfl := redirectHeaders_ok hheaders
      split at h
      · cases h
        rfl
      · split at h <;> first | cases h; rfl | cases h

/-- The native client of a client that has sent a request. -/
theorem ensureClient_sent (h : (client.dispatch env request now reply).hop = some hop) :
    ∃ native jar, client.ensureClient env = .ok native ∧
      (client.dispatch env request now reply).client.ensureClient env = .ok { native with jar := jar } := by
  obtain ⟨native, -, -, jar, hensure, -, -, -, hsettle⟩ := dispatch_spec h
  rw [hsettle]
  cases reply with
  | none => exact ⟨native, jar, hensure, rfl⟩
  | some reply =>
    cases hresult : reply.result with
    | error e => exact ⟨native, jar, hensure, by simp [Client.settle, hresult, Client.ensureClient]⟩
    | ok response =>
      exact ⟨native, updateCookieJar (env.store hop.now) jar response, hensure,
        by simp [Client.settle, hresult, Client.ensureClient]⟩

theorem Sent.hop_cases (sent : Sent PJ J O) :
    sent.hop.toList = [] ∨ ∃ hop, sent.hop = some hop ∧ sent.hop.toList = [hop] := by
  cases sent.hop with
  | none => exact .inl rfl
  | some hop => exact .inr ⟨hop, rfl, rfl⟩

/-- A call has no hop, or it has one, or a first one and then the hops of the next call, when
the reply to the first one is a redirect that the facade follows. -/
theorem sendHandlingRedirects_cases (env : Env PJ J O) (client : Client PJ J) (request : Request PJ)
    (follow : Bool) (history now : Nat) (replies : List Reply) :
    let sent := client.sendSingleRequest env request now replies.head?
    let hops := (client.sendHandlingRedirects env request follow history now replies).hops
    hops = [] ∨ (∃ hop, sent.hop = some hop ∧ hops = [hop]) ∨
      ∃ hop reply rest response next, sent.hop = some hop ∧ replies = reply :: rest ∧
        sent.result = .ok (some response) ∧
        buildRedirectRequest env sent.client.cookies (request.prepareCookieHeader env now) response =
          .ok next ∧
        hops = hop ::
          (sent.client.sendHandlingRedirects env next follow (history + 1) reply.elapsed rest).hops := by
  cases replies with
  | nil =>
    by_cases hmax : client.maxRedirects < history
    · simp [Client.sendHandlingRedirects, hmax]
    · simp only [Client.sendHandlingRedirects, hmax, if_false, List.head?_nil]
      exact (Sent.hop_cases _).imp_right .inl
  | cons reply rest =>
    by_cases hmax : client.maxRedirects < history
    · simp [Client.sendHandlingRedirects, hmax]
    · simp only [Client.sendHandlingRedirects, hmax, if_false, List.head?_cons]
      have hstop := Sent.hop_cases (client.sendSingleRequest env request now (some reply))
      cases hresult : (client.sendSingleRequest env request now (some reply)).result with
      | error e => exact hstop.imp_right .inl
      | ok answer =>
        cases answer with
        | none => exact hstop.imp_right .inl
        | some response =>
          simp only
          split
          · exact hstop.imp_right .inl
          · cases hbuild : buildRedirectRequest env
                (client.sendSingleRequest env request now (some reply)).client.cookies
                (request.prepareCookieHeader env now) response with
            | error e => exact hstop.imp_right .inl
            | ok next =>
              simp only
              split
              · exact hstop.imp_right .inl
              · obtain ⟨hop, hhop⟩ := dispatch_hop_of_ok hresult
                refine .inr (.inr ⟨hop, reply, rest, response, next, hhop, rfl, rfl, hbuild, ?_⟩)
                rw [Client.sendSingleRequest, hhop]
                rfl

/-- What holds of a client and a request, and is kept when a redirect is followed, gives
what holds of every hop. -/
theorem hop_invariant {I : Client PJ J → Request PJ → Prop} {Q : Hop PJ J O → Prop}
    (hhop : ∀ client request now reply hop, I client request →
      (client.sendSingleRequest env request now reply).hop = some hop → Q hop)
    (hnext : ∀ client request now reply hop response next, I client request →
      (client.sendSingleRequest env request now reply).hop = some hop →
      buildRedirectRequest env (client.sendSingleRequest env request now reply).client.cookies
        (request.prepareCookieHeader env now) response = .ok next →
      I (client.sendSingleRequest env request now reply).client next)
    {client : Client PJ J} {request : Request PJ} (hI : I client request) (follow : Bool)
    (history now : Nat) (replies : List Reply) :
    ∀ hop ∈ (client.sendHandlingRedirects env request follow history now replies).hops, Q hop := by
  induction replies generalizing client request history now with
  | nil =>
    intro hop hmem
    rcases sendHandlingRedirects_cases env client request follow history now [] with hnil |
      ⟨first, hfirst, hone⟩ | ⟨first, reply, rest, response, next, -, hreplies, -⟩
    · rw [hnil] at hmem
      cases hmem
    · rw [hone, List.mem_singleton] at hmem
      exact hmem ▸ hhop _ _ _ _ _ hI hfirst
    · cases hreplies
  | cons reply replies ih =>
    intro hop hmem
    rcases sendHandlingRedirects_cases env client request follow history now (reply :: replies) with
      hnil | ⟨first, hfirst, hone⟩ | ⟨first, _, _, response, next, hfirst, hreplies, -, hbuild, hmore⟩
    · rw [hnil] at hmem
      cases hmem
    · rw [hone, List.mem_singleton] at hmem
      exact hmem ▸ hhop _ _ _ _ _ hI hfirst
    · obtain ⟨rfl, rfl⟩ := List.cons.inj hreplies
      rw [hmore, List.mem_cons] at hmem
      rcases hmem with rfl | hmem
      · exact hhop _ _ _ _ _ hI hfirst
      · exact ih (hnext _ _ _ _ _ _ _ hI hfirst hbuild) _ _ hop hmem

end Eggfetch.Facade
