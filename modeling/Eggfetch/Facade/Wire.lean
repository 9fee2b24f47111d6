import Eggfetch.Facade.Crossing

/-! When the wire has the headers of the facade's request and no others. The native client
folds repetitions to the last one and adds what its own defaults, its own jar and a
multipart body bring; the last steps drop what HTTP/2 forbids and add what is for a proxy. Which
of these happens is settled by the request and by the state of the native client before the hop. -/
namespace Eggfetch.Facade
open Text Pipeline

variable {PJ J O : Type}

/-- The framing and negotiation fields that the engine sets itself. -/
def engineHeaders : List Str :=
  ["host", "content-length", "transfer-encoding", "accept-encoding", "user-agent"].map utf8

/-- Where the hop goes out, it has each header with the values, in order, that the facade's request has. -/
def Hop.Exact (env : Env PJ J O) (http2Only : Bool) (hop : Hop PJ J O) : Prop :=
  ∀ headers ∈ hop.sent env http2Only, ∀ name ∉ engineHeaders, headers.getAll name = hop.request.headers.getList name

/-- `write_proxy_request` writes the hop into the tunnel of a proxy. -/
def Hop.writtenOut (env : Env PJ J O) (hop : Hop PJ J O) : Bool :=
  (env.resolveProxy hop.built.url).any fun
    | .http _ _ => hop.built.url.scheme ≠ utf8 "http" && !hop.built.transportHints.target.all ((utf8 "/").isPrefixOf ·)
    | .socks _ => false

/-- HTTP/2 forbids these values of a field. -/
def forbidden (name : Str) (values : List Str) : Bool :=
  name ∈ Http.H2_FORBIDDEN_HEADERS || name = utf8 "te" && !values.head?.all Http.teAllowed

/-- What HTTP/2 forbids goes from every hop of a client for it alone, what is for a proxy from a hop that is written out. -/
def Hop.drops (env : Env PJ J O) (http2Only : Bool) (hop : Hop PJ J O) (name : Str) (values : List Str) : Bool :=
  http2Only && forbidden name values || name = proxyAuthorization && hop.writtenOut env

/-- What a hop gets for the proxy that forwards it. -/
def Hop.added (env : Env PJ J O) (hop : Hop PJ J O) (name : Str) : List Str :=
  (env.resolveProxy hop.built.url).elim [] fun
    | .http auth own =>
      if hop.built.url.scheme = utf8 "http" then (forwardHeaders auth own .empty).getAll name else []
    | .socks _ => []

/-- Nothing is folded, dropped or added: by these default headers, by the native jar, by the body or for a proxy. -/
structure Hop.Unaltered (env : Env PJ J O) (defaults : Http.Headers) (http2Only : Bool) (hop : Hop PJ J O) : Prop where
  /-- The first value is the last, and the others are what the proxy gets. -/
  repeated : ∀ name ∉ engineHeaders, (hop.request.headers.getList name).tail = hop.added env name ∧
    (hop.request.headers.getList name).head? = (hop.request.headers.getList name).getLast?
  kept : ∀ name ∉ engineHeaders, hop.request.headers.getList name ≠ [] →
    hop.drops env http2Only name (hop.request.headers.getList name) = false
  defaults : ∀ name ∉ engineHeaders, hop.request.headers.getList name = [] →
    defaults.getAll name = [] ∨ hop.drops env http2Only name (defaults.getAll name) = true
  jar : hop.request.headers.getList cookie = [] → ∀ url, env.parse hop.request.url.text = .ok url →
    ((env.store hop.now).cookiesForUrl hop.jar url).1 = none
  body : hop.request.headers.getList contentType = [] → (nativeBody env hop.request.body).1 = none

/-- What the caller does with a client: calls, which may follow redirects, and assignments to
`client.headers` and `client.cookies`. -/
inductive Action (PJ : Type) where
  | call (request : Request PJ) (follow : Bool) (now : Nat) (replies : List Reply)
  | setHeaders (headers : Headers)
  | setCookies (cookies : PJ)

/-- The hops of a history, each with the client at the start of its call. -/
def Client.hops (env : Env PJ J O) (client : Client PJ J) :
    List (Action PJ) → List (Client PJ J × Hop PJ J O)
  | [] => []
  | .call request follow now replies :: actions =>
    let trace := client.sendHandlingRedirects env request follow 0 now replies
    trace.hops.map (client, ·) ++ trace.client.hops env actions
  | .setHeaders headers :: actions => { client with headers := headers }.hops env actions
  | .setCookies cookies :: actions => { client with cookies := cookies }.hops env actions

variable {env : Env PJ J O} {hop : Hop PJ J O} {defaults : Http.Headers} {http2Only : Bool} {name : Str}

private theorem hops_builtWith (client : Client PJ J) (actions : List (Action PJ)) :
    ∀ sent ∈ client.hops env actions, sent.2.BuiltWith env (sent.1.defaultHeaders env) := by
  induction actions generalizing client with
  | nil => exact fun _ hsent => absurd hsent List.not_mem_nil
  | cons action actions ih =>
    intro sent hsent
    cases action with
    | setHeaders headers => exact ih _ sent hsent
    | setCookies cookies => exact ih _ sent hsent
    | call request follow now replies =>
      rcases List.mem_append.mp hsent with hcall | hlater
      · obtain ⟨hop, hhop, rfl⟩ := List.mem_map.mp hcall
        exact hop_builtWith client request follow 0 now replies hop hhop
      · exact ih _ sent hlater

private theorem prepared_getAll (http2Only : Bool) (headers : Http.Headers) (name : Str) :
    (if http2Only then Http.stripH2ForbiddenHeaders headers else headers).getAll name =
      if http2Only && forbidden name (headers.getAll name) then [] else headers.getAll name := by
  cases http2Only with
  | false => rfl
  | true =>
    rw [if_pos rfl, Http.getAll_stripH2ForbiddenHeaders, forbidden, Bool.true_and, Http.Headers.get]
    by_cases hforbidden : name ∈ Http.H2_FORBIDDEN_HEADERS
    · simp [hforbidden]
    · by_cases hte : name = utf8 "te"
      · subst hte
        simp [hforbidden]
      · simp [hforbidden, hte]

/-- What a hop that goes out has under a name; nothing is added where something is dropped. -/
private theorem sent_getAll {headers : Http.Headers} (h : hop.sent env http2Only = some headers) (name : Str) :
    headers.getAll name = (if hop.drops env http2Only name (hop.built.headers.getAll name) then []
        else hop.built.headers.getAll name) ++ hop.added env name ∧
      ∀ values, hop.drops env http2Only name values = true → hop.added env name = [] := by
  have hprepared := prepared_getAll http2Only hop.built.headers name
  rw [Hop.sent] at h
  generalize (if http2Only = true then Http.stripH2ForbiddenHeaders hop.built.headers else hop.built.headers) =
    prepared at h hprepared
  split at h
  · cases h
  cases hproxy : env.resolveProxy hop.built.url with
  | none =>
    rw [hproxy] at h
    cases h
    simp [Hop.drops, Hop.added, Hop.writtenOut, hproxy, hprepared]
  | some proxy =>
    rw [hproxy] at h
    dsimp only at h
    split at h
    · cases h
    cases proxy with
    | socks auth =>
      cases h
      simp [Hop.drops, Hop.added, Hop.writtenOut, hproxy, hprepared]
    | http auth own =>
      dsimp only at h
      by_cases hplain : hop.built.url.scheme = utf8 "http"
      · rw [if_pos hplain] at h
        split at h
        · cases h
        · rename_i hboth
          cases h
          rw [Bool.not_eq_true] at hboth
          subst hboth
          simp [Hop.drops, Hop.added, Hop.writtenOut, hproxy, hplain, forwardHeaders, hprepared, Http.Headers.empty]
      · rw [if_neg hplain] at h
        split at h
        · rename_i hpath
          cases h
          simp [Hop.drops, Hop.added, Hop.writtenOut, hproxy, hplain, hprepared, hpath]
        · rename_i hpath
          cases h
          by_cases hname : name = proxyAuthorization
          · subst hname
            simp [Hop.drops, Hop.added, Hop.writtenOut, hproxy, hplain, hpath]
          · simp [Hop.drops, Hop.added, Hop.writtenOut, hproxy, hplain, hprepared, hname, Http.Headers.remove]

/-- A field goes out as the facade has it where it is neither folded nor dropped, and nothing else gets its name. -/
private theorem handed_eq_iff {drops : List Str → Bool} {built facade added : List Str}
    (hlast : facade ≠ [] → built = facade.getLast?.toList)
    (hhead : ∀ values other, values.head? = other.head? → drops values = drops other)
    (hadded : ∀ values, drops values = true → added = []) :
    (if drops built then [] else built) ++ added = facade ↔
      (facade.tail = added ∧ facade.head? = facade.getLast?) ∧ (facade ≠ [] → drops facade = false) ∧
        (facade = [] → built = [] ∨ drops built = true) := by
  cases facade with
  | nil =>
    cases hdrops : drops built with
    | true => simp [hadded _ hdrops]
    | false =>
      rw [if_neg Bool.false_ne_true, List.append_eq_nil_iff]
      refine ⟨fun h => ⟨⟨h.2.symm, rfl⟩, fun h => absurd rfl h, fun _ => .inl h.1⟩, fun h => ?_⟩
      exact ⟨(h.2.2 rfl).resolve_right Bool.false_ne_true, h.1.1.symm⟩
  | cons first rest =>
    obtain ⟨last, hvalue⟩ : ∃ last, (first :: rest).getLast? = some last := ⟨_, List.getLast?_cons⟩
    have hsame (h : first = last) : drops (first :: rest) = drops [last] := hhead _ _ (by rw [h]; rfl)
    rw [hlast (List.cons_ne_nil _ _), hvalue, Option.toList_some]
    cases hdrops : drops [last] with
    | true =>
      refine iff_of_false (fun h => ?_) fun h => ?_
      · rw [if_pos rfl, hadded _ hdrops] at h
        cases h
      · have hkept := h.2.1 (List.cons_ne_nil _ _)
        rw [hsame (Option.some.inj h.1.2), hdrops] at hkept
        cases hkept
    | false =>
      rw [if_neg Bool.false_ne_true, List.singleton_append, List.cons.injEq]
      refine ⟨fun h => ⟨⟨h.2.symm, congrArg some h.1.symm⟩, fun _ => (hsame h.1.symm).trans hdrops, fun h =>
        nomatch h⟩, fun h => ?_⟩
      exact ⟨(Option.some.inj h.1.2).symm, h.1.1.symm⟩

/-- What the native client makes of a header that the facade's request has. -/
private theorem Hop.BuiltWith.last (hbuilt : hop.BuiltWith env defaults) (h : hop.request.headers.getList name ≠ []) :
    hop.built.headers.getAll name = (hop.request.headers.getList name).getLast?.toList := by
  have hsent : sentValues defaults hop.request.headers name = (hop.request.headers.getList name).getLast?.toList := if_neg h
  by_cases hcookie : name = cookie
  · subst hcookie
    rw [hbuilt.cookies, if_neg (fun hnone => h (sentValues_nil.mp hnone).1), hsent]
  · by_cases htype : name = contentType
    · subst htype
      rw [hbuilt.typed, if_neg (fun hnone => h hnone.1), hsent]
    · rw [hbuilt.values name hcookie htype, hsent]

/-- What goes out under a name that the facade's request does not have. -/
private theorem Hop.BuiltWith.missing_iff (hbuilt : hop.BuiltWith env defaults) (h : hop.request.headers.getList name = []) :
    hop.built.headers.getAll name = [] ∨ hop.drops env http2Only name (hop.built.headers.getAll name) = true ↔
      (defaults.getAll name = [] ∨ hop.drops env http2Only name (defaults.getAll name) = true) ∧
        (name = cookie → ((env.store hop.now).cookiesForUrl hop.jar hop.built.url).1 = none) ∧
          (name = contentType → (nativeBody env hop.request.body).1 = none) := by
  have hsent : sentValues defaults hop.request.headers name = defaults.getAll name := if_pos h
  by_cases hcookie : name = cookie
  · subst hcookie
    have hkept : ∀ values, hop.drops env http2Only cookie values = false := by
      have hname : forbidden cookie = fun _ => false := rfl
      intro values
      simp [Hop.drops, hname, show cookie ≠ proxyAuthorization by decide]
    simp only [hbuilt.cookies, hsent, hkept, Bool.false_eq_true, or_false, forall_true_left,
      show (cookie = contentType) = False from by decide, false_imp_iff, and_true]
    by_cases hnone : defaults.getAll cookie = []
    · simp [hnone]
    · simp [hnone]
  · by_cases htype : name = contentType
    · subst htype
      have hkept : ∀ values, hop.drops env http2Only contentType values = false := by
        have hname : forbidden contentType = fun _ => false := rfl
        intro values
        simp [Hop.drops, hname, show contentType ≠ proxyAuthorization by decide]
      simp only [hbuilt.typed, hsent, h, hkept, hcookie, Bool.false_eq_true, or_false, forall_true_left, false_imp_iff, true_and]
      cases (nativeBody env hop.request.body).1 <;> simp
    · rw [hbuilt.values name hcookie htype, hsent]
      simp [hcookie, htype]

private theorem Hop.BuiltWith.exact_iff_unaltered (hbuilt : hop.BuiltWith env defaults) :
    hop.Exact env http2Only ↔ ((hop.sent env http2Only).isSome → hop.Unaltered env defaults http2Only) := by
  rw [Hop.Exact]
  cases hsent : hop.sent env http2Only with
  | none => exact iff_of_true (fun _ h => nomatch h) fun h => nomatch h
  | some headers =>
    have hhead (name : Str) (values other : List Str) (h : values.head? = other.head?) :
        hop.drops env http2Only name values = hop.drops env http2Only name other := by
      rw [Hop.drops, Hop.drops, forbidden, forbidden, h]
    have hname (name : Str) := (sent_getAll hsent name).1 ▸
      handed_eq_iff (@Hop.BuiltWith.last _ _ _ _ _ _ name hbuilt) (hhead name) (sent_getAll hsent name).2
    simp only [Option.mem_some_iff, forall_eq', Option.isSome_some, forall_true_left]
    constructor
    · intro hexact
      have hall := fun name hengine => (hname name).mp (hexact name hengine)
      have hmissing := fun name hengine hnone => (hbuilt.missing_iff hnone).mp ((hall name hengine).2.2 hnone)
      refine ⟨fun name hengine => (hall name hengine).1, fun name hengine => (hall name hengine).2.1,
        fun name hengine hnone => (hmissing name hengine hnone).1, fun hnone url hparse => ?_, fun hnone => ?_⟩
      · obtain rfl := Except.ok.inj (hbuilt.parsed.symm.trans hparse)
        exact (hmissing cookie (by decide) hnone).2.1 rfl
      · exact (hmissing contentType (by decide) hnone).2.2 rfl
    · intro h name hengine
      refine (hname name).mpr ⟨h.repeated name hengine, h.kept name hengine, fun hnone => (hbuilt.missing_iff hnone).mpr ?_⟩
      refine ⟨h.defaults name hengine hnone, ?_, ?_⟩
      · rintro rfl
        exact h.jar hnone _ hbuilt.parsed
      · rintro rfl
        exact h.body hnone

/-- The hops of a history that go out are all exact when nothing alters any of them, and only then. -/
theorem wire_exact_iff (env : Env PJ J O) (client : Client PJ J) (actions : List (Action PJ)) :
    (∀ sent ∈ client.hops env actions, sent.2.Exact env sent.1.http2Only) ↔
      ∀ sent ∈ client.hops env actions, (sent.2.sent env sent.1.http2Only).isSome →
        sent.2.Unaltered env (sent.1.defaultHeaders env) sent.1.http2Only :=
  forall₂_congr fun sent hsent => (hops_builtWith client actions sent hsent).exact_iff_unaltered

private def oneSite : Env Unit Unit Unit where
  cookieText _ _ _ := none
  extractCookies _ _ _ _ := ()
  redirectUrl _ _ := .error []
  parse _ := .ok { scheme := utf8 "http", host := some (utf8 "a"), path := utf8 "/" }
  join _ _ := .error []
  store _ := ⟨fun _ _ => (none, ()), fun _ _ _ => ()⟩
  emptyJar := ()
  multipart _ := ([], .empty)
  iterator _ := 0
  options := ()

private def tokenHeaders : Headers := ⟨[(⟨utf8 "x-token", by decide⟩, utf8 "t")]⟩

private def tokenClient : Client Unit Unit := { headers := tokenHeaders, cookies := () }

private def getPage (headers : Headers) : Action Unit :=
  .call { method := utf8 "GET", url := ⟨utf8 "http://a/", utf8 "http", some (utf8 "a"), none⟩
          headers := headers, cookies := () } false 0 []

/-- A request with the token, then `del client.headers["x-token"]` and a request without. -/
private def tokenRemoved : List (Action Unit) :=
  [getPage tokenHeaders, .setHeaders .empty, getPage .empty]

private theorem token_hops :
    (tokenClient.hops oneSite tokenRemoved).map (fun sent => (sent.1.http2Only,
      sent.2.request.headers.getList (utf8 "x-token"), sent.2.built.headers.getAll (utf8 "x-token"))) =
      [(false, [utf8 "t"], [utf8 "t"]), (false, [], [utf8 "t"])] := by
  decide

/-- A header that was removed from `client.headers` goes out with the next request. -/
theorem removed_header_sent :
    ¬ ∀ (env : Env Unit Unit Unit) (client : Client Unit Unit) (actions : List (Action Unit)),
      ∀ sent ∈ client.hops env actions, sent.2.Exact env sent.1.http2Only := by
  intro hall
  have hsent : ((false, [], [utf8 "t"]) : Bool × List Str × List Str) ∈ (tokenClient.hops oneSite tokenRemoved).map
      (fun sent => (sent.1.http2Only, sent.2.request.headers.getList (utf8 "x-token"),
        sent.2.built.headers.getAll (utf8 "x-token"))) := by
    rw [token_hops]
    exact List.mem_cons_of_mem _ List.mem_cons_self
  obtain ⟨sent, hmem, hvalues⟩ := List.mem_map.mp hsent
  simp only [Prod.mk.injEq] at hvalues
  obtain ⟨hboth, hrequest, hbuilt⟩ := hvalues
  have hout : sent.2.sent oneSite sent.1.http2Only = some sent.2.built.headers := by
    rw [hboth]
    rfl
  have hexact := hall oneSite tokenClient tokenRemoved sent hmem _ hout (utf8 "x-token") (by decide)
  rw [hrequest, hbuilt] at hexact
  cases hexact

end Eggfetch.Facade
