import Eggfetch.Pipeline.Secrecy
import Mathlib.Data.List.Chain

/-! Transport hints along a redirect chain. A later hop gets the SNI override back when its
origin is that of the hop before, whatever the origin the override was meant for: hints stay
on the first origin as long as no redirect stays on another one. -/
namespace Eggfetch.Pipeline
open Text Http

variable {O J : Type}

def Hinted (hop : Request O) : Prop :=
  hop.transportHints.target ≠ none ∨ hop.transportHints.sniHostname ≠ none ∨
    hop.transportHints.resolvedTarget ≠ none ∨ hop.proxiedTarget ≠ none

def Request.withSni (request : Request O) (sniHostname : Option Str) : Request O :=
  { request with transportHints := { request.transportHints with sniHostname := sniHostname } }

/-- The hops on an origin other than that of `url`. -/
def foreignHops (url : Url) (hops : List (Request O)) : List (Request O) :=
  hops.filter fun hop => hop.url.origin ≠ url.origin

/-- What a redirect chain does with transport hints. -/
structure HintsConfined (store : CookieStore J) (join : Join) (config : ClientConfig) (jar : J)
    (request : Request O) (elapsed : Duration) (replies : List Reply) : Prop where
  attached : ∀ hop ∈ (sendWithRedirects store join config jar request elapsed replies).hops,
    Hinted hop → hop.url.origin = request.url.origin
  independent : ∀ sniHostname,
    foreignHops request.url
        (sendWithRedirects store join config jar (request.withSni sniHostname) elapsed replies).hops =
      foreignHops request.url (sendWithRedirects store join config jar request elapsed replies).hops

def redirectUrl (join : Join) (url : Url) (reply : Reply) : Option Url :=
  match reply.result with
  | .error _ => none
  | .ok response =>
    if isRedirectStatus response.status then
      match (response.headers.get (utf8 "location")).map (join url) with
      | some (.ok newUrl) => some newUrl
      | _ => none
    else none

def redirectUrls (join : Join) (url : Url) : List Reply → List Url
  | [] => [url]
  | reply :: replies =>
    match redirectUrl join url reply with
    | none => [url]
    | some newUrl => url :: redirectUrls join newUrl replies

/-- No step of the chain stays on an origin other than that of `url`. -/
def LeavesForeign (url : Url) (urls : List Url) : Prop :=
  urls.IsChain fun a b => a.sameOrigin b → b.origin = url.origin

/-- Results that differ in what `f` forgets. -/
private theorem map_eq_map_cases {α β : Type} {f : α → β} {x y : Except Error α} (h : x.map f = y.map f) :
    (∃ e, x = .error e ∧ y = .error e) ∨ ∃ a b, x = .ok a ∧ y = .ok b ∧ f a = f b := by
  cases x with
  | error e =>
    cases y with
    | error e' => exact .inl ⟨e, rfl, (Except.error.inj h) ▸ rfl⟩
    | ok b => cases h
  | ok a =>
    cases y with
    | error e' => cases h
    | ok b => exact .inr ⟨a, b, rfl, rfl, Except.ok.inj h⟩

private theorem isChain_and {α : Type} {R S : α → α → Prop} {l : List α} (hR : l.IsChain R)
    (hS : l.IsChain S) : l.IsChain fun a b => R a b ∧ S a b := by
  induction l with
  | nil => exact List.isChain_nil
  | cons a l ih =>
    obtain ⟨hheadR, htailR⟩ := List.isChain_cons.mp hR
    obtain ⟨hheadS, htailS⟩ := List.isChain_cons.mp hS
    exact List.isChain_cons.mpr ⟨fun b hb => ⟨hheadR b hb, hheadS b hb⟩, ih htailR htailS⟩

section
variable {l : LoopParams O J} {st st' next : LoopState J} {hop : Request O}

/-- The hints of a hop that follows one to `url`; a pinned one does not cross. -/
structure Carries (l : LoopParams O J) (url : Url) (hop : Request O) : Prop where
  hints : hop.transportHints =
    if url.sameOrigin hop.url then
      { resolvedTarget := l.params.transportHints.resolvedTarget
        sniHostname := l.params.transportHints.sniHostname }
    else {}
  proxied : hop.proxiedTarget = if url.sameOrigin hop.url then l.params.proxiedTarget else none
  pinned : l.params.transportHints.resolvedTarget.isSome ∨ l.params.proxiedTarget.isSome →
    url.sameOrigin hop.url = true

theorem LoopState.isCrossOrigin_of_prevUrl {url : Url} (hprev : st.prevUrl = some url) :
    st.isCrossOrigin = !url.sameOrigin st.url := by
  simp [isCrossOrigin, hprev]

theorem LoopState.enter_prevUrl : st.enter.prevUrl = st.prevUrl := by
  unfold enter
  split <;> rfl

theorem LoopState.enter_url : st.enter.url = st.url := by
  unfold enter
  split <;> rfl

theorem LoopState.enter_isCrossOrigin : st.enter.isCrossOrigin = st.isCrossOrigin := by
  unfold enter
  split <;> rfl

private theorem LoopState.prepare_request {elapsed : Duration} (hprep : st.prepare l elapsed = .ok (hop, st')) :
    ∃ timeout headers, hop = (st.enter.hopParams l timeout).request headers ∧
      (st.isCrossOrigin = true → l.params.transportHints.resolvedTarget.isSome = false ∧
        l.params.proxiedTarget.isSome = false) := by
  unfold LoopState.prepare at hprep
  split at hprep
  · cases hprep
  · rename_i timeout _
    split at hprep
    · cases hprep
    · rename_i hpin
      split at hprep
      · cases hprep
      · rename_i hbuild
        obtain ⟨rfl, -⟩ := Prod.mk.inj (Except.ok.inj hprep)
        obtain ⟨headers, rfl, -⟩ := buildHopRequest_ok hbuild
        exact ⟨timeout, headers, rfl, by simpa using hpin⟩

theorem LoopState.prepare_carries {elapsed : Duration} (hprep : st.prepare l elapsed = .ok (hop, st'))
    {url : Url} (hprev : st.prevUrl = some url) : Carries l url hop := by
  obtain ⟨timeout, headers, rfl, hpin⟩ := prepare_request hprep
  have hurl : ((st.enter.hopParams l timeout).request headers).url = st.url := enter_url
  have hfirst : st.enter.prevUrl.isNone = false := by
    rw [enter_prevUrl, hprev]
    rfl
  have hcross : st.enter.isCrossOrigin = !url.sameOrigin st.url := by
    rw [enter_isCrossOrigin, isCrossOrigin_of_prevUrl hprev]
  rw [isCrossOrigin_of_prevUrl hprev] at hpin
  refine ⟨?_, ?_, fun hpinned => ?_⟩
  · rw [hurl]
    simp [HopBuildParams.request, HopBuildParams.hopHints, hopParams, hfirst, hcross]
  · rw [hurl]
    simp [HopBuildParams.request, hopParams, hfirst, hcross]
  · rw [hurl]
    cases hsame : url.sameOrigin st.url with
    | true => rfl
    | false =>
      obtain ⟨hresolved, hproxied⟩ := hpin (by simp [hsame])
      simp [hresolved, hproxied] at hpinned

theorem LoopState.loop_carries (l : LoopParams O J) (st : LoopState J) (elapsed : Duration)
    (replies : List Reply) :
    (∀ url ∈ st.prevUrl, ∀ hop ∈ (st.loop l elapsed replies).hops.head?, Carries l url hop) ∧
      (st.loop l elapsed replies).hops.IsChain fun a b => Carries l a.url b := by
  refine loop_induction l (P := fun st hops => (∀ url ∈ st.prevUrl, ∀ hop ∈ hops.head?, Carries l url hop) ∧
    hops.IsChain fun a b => Carries l a.url b) ?_ ?_ ?_ st elapsed replies
  · intro st
    refine ⟨fun _ _ _ hhead => ?_, List.isChain_nil⟩
    cases hhead
  · intro st elapsed hop st' hprep
    refine ⟨fun url hprev b hhead => ?_, List.isChain_singleton _⟩
    obtain rfl := Option.some.inj hhead
    exact prepare_carries hprep hprev
  · intro st elapsed hop st' jar response next rest hprep hnext _ ih
    constructor
    · intro url hprev b hhead
      obtain rfl := Option.some.inj hhead
      exact prepare_carries hprep hprev
    · refine List.isChain_cons.mpr ⟨ih.1 _ ?_, ih.2⟩
      obtain ⟨hurl, henter⟩ := prepare_ok hprep
      rw [(follow_ok hnext).2.1, hurl, henter]
      unfold LoopState.enter
      split <;> rfl

private theorem LoopState.follow_redirectUrl {reply : Reply} {response : Response}
    (hresult : reply.result = .ok response) (hnext : st.follow l response = .ok next) :
    redirectUrl l.join st.url reply = some next.url := by
  obtain ⟨hstatus, hlocation⟩ := follow_location hnext
  simp only [redirectUrl, hresult, hstatus, hlocation, if_true]

private theorem LoopState.loop_urls (l : LoopParams O J) (st : LoopState J) (elapsed : Duration)
    (replies : List Reply) :
    (st.loop l elapsed replies).hops.map (·.url) <+: redirectUrls l.join st.url replies := by
  induction replies generalizing st elapsed with
  | nil =>
    rcases st.loop_cases l elapsed [] with hnil | ⟨_, _, hprep, hhops⟩ | ⟨_, _, _, _, _, _, hcons, _⟩
    · simp [hnil]
    · simp [hhops, (prepare_ok hprep).1, redirectUrls]
    · cases hcons
  | cons reply replies ih =>
    rcases st.loop_cases l elapsed (reply :: replies) with
      hnil | ⟨_, _, hprep, hhops⟩ | ⟨hop, st', _, _, response, next, hcons, hresult, hprep, hnext, hhops⟩
    · simp [hnil]
    · rw [hhops, redirectUrls]
      cases redirectUrl l.join st.url reply <;> simp [(prepare_ok hprep).1]
    · obtain ⟨rfl, rfl⟩ := List.cons.inj hcons
      have hurl : ({ st' with jar := updateCookieJar l.store st'.jar response } : LoopState J).url = st.url := by
        rw [(prepare_ok hprep).2]
        exact enter_url
      have hlead := follow_redirectUrl hresult hnext
      rw [hurl] at hlead
      rw [hhops, redirectUrls, hlead, List.map_cons, (prepare_ok hprep).1]
      exact List.prefix_cons_inj _ |>.mpr (ih next _)

end

section
variable (store : CookieStore J) (config : ClientConfig) (jar : J) (params : HopBuildParams O)

private theorem buildHopRequest_hints (hints : TransportHints) :
    buildHopRequest store config jar { params with transportHints := hints } =
      (buildHopRequest store config jar params).map fun p =>
        ({ p.1 with transportHints := { params with transportHints := hints }.hopHints }, p.2) := by
  have hcookies : { params with transportHints := hints }.withCookies store jar =
      params.withCookies store jar := rfl
  unfold buildHopRequest
  rw [hcookies]
  cases params.withCookies store jar with
  | error e => rfl
  | ok p =>
    dsimp only
    split
    · rename_i hresolve
      simp only [hresolve, Except.map]
    · rename_i hresolve
      simp only [hresolve, Except.map]
      rfl
    · rename_i auth hresolve
      simp only [hresolve]
      cases auth.apply p.1 <;> rfl

def HopBuildParams.withSni (params : HopBuildParams O) (sniHostname : Option Str) : HopBuildParams O :=
  { params with transportHints := { params.transportHints with sniHostname := sniHostname } }

def eraseSni (p : Request O × J) : Request O × J := (p.1.withSni none, p.2)

theorem buildHopRequest_withSni (sniHostname : Option Str) :
    (buildHopRequest store config jar (params.withSni sniHostname)).map eraseSni =
      (buildHopRequest store config jar params).map eraseSni := by
  unfold HopBuildParams.withSni
  rw [buildHopRequest_hints]
  cases hbuild : buildHopRequest store config jar params with
  | error e => rfl
  | ok p =>
    obtain ⟨headers, hhop, -⟩ := buildHopRequest_ok hbuild
    simp only [Except.map, eraseSni, Request.withSni, hhop, HopBuildParams.request]
    unfold HopBuildParams.hopHints
    cases params.isFirstHop <;> cases params.preserveResolvedTarget <;> rfl

end

section
variable {l : LoopParams O J} {st : LoopState J}

def LoopParams.withSni (l : LoopParams O J) (sniHostname : Option Str) : LoopParams O J :=
  { l with params := l.params.withSni sniHostname }

theorem LoopState.prepare_withSni (sniHostname : Option Str) (elapsed : Duration) :
    (st.prepare (l.withSni sniHostname) elapsed).map
        (fun p : Request O × LoopState J => (p.1.withSni none, p.2)) =
      (st.prepare l elapsed).map fun p => (p.1.withSni none, p.2) := by
  unfold prepare
  have htimeout : (l.withSni sniHostname).params.timeout = l.params.timeout := rfl
  rw [htimeout]
  cases hopTimeout l.params.timeout elapsed with
  | error e => rfl
  | ok timeout =>
    dsimp only
    have hpin : ((l.withSni sniHostname).params.transportHints.resolvedTarget,
        (l.withSni sniHostname).params.proxiedTarget) =
        (l.params.transportHints.resolvedTarget, l.params.proxiedTarget) := rfl
    obtain ⟨hresolved, hproxied⟩ := Prod.mk.inj hpin
    rw [hresolved, hproxied]
    split
    · rfl
    · have hparams : st.enter.hopParams (l.withSni sniHostname) timeout =
          (st.enter.hopParams l timeout).withSni sniHostname := rfl
      have hbuild := buildHopRequest_withSni l.store l.config st.jar (st.enter.hopParams l timeout) sniHostname
      rw [← hparams] at hbuild
      have hstore : (l.withSni sniHostname).store = l.store := rfl
      have hconfig : (l.withSni sniHostname).config = l.config := rfl
      rw [hstore, hconfig]
      generalize buildHopRequest l.store l.config st.jar
        (st.enter.hopParams (l.withSni sniHostname) timeout) = built at hbuild ⊢
      generalize buildHopRequest l.store l.config st.jar (st.enter.hopParams l timeout) = built' at hbuild ⊢
      cases built <;> cases built' <;> simp_all [Except.map, eraseSni]

private theorem LoopState.loop_withSni (l : LoopParams O J) (st : LoopState J) (sniHostname : Option Str)
    (elapsed : Duration) (replies : List Reply) :
    (st.loop (l.withSni sniHostname) elapsed replies).hops.map (·.withSni none) =
      (st.loop l elapsed replies).hops.map (·.withSni none) := by
  induction replies generalizing st elapsed with
  | nil =>
    rcases map_eq_map_cases (st.prepare_withSni (l := l) sniHostname elapsed) with
      ⟨e, hleft, hright⟩ | ⟨p', p, hleft, hright, heq⟩
    · simp only [loop, hleft, hright]
    · simp only [loop, hleft, hright, List.map_cons, (Prod.mk.inj heq).1, List.map_nil]
  | cons reply replies ih =>
    rcases map_eq_map_cases (st.prepare_withSni (l := l) sniHostname elapsed) with
      ⟨e, hleft, hright⟩ | ⟨p', p, hleft, hright, heq⟩
    · simp only [loop, hleft, hright]
    · obtain ⟨hhop, hstate⟩ := Prod.mk.inj heq
      have hstore : (l.withSni sniHostname).store = l.store := rfl
      simp only [loop, hleft, hright, hstate, hstore]
      cases reply.result with
      | error e => exact congrArg (fun hop => [hop]) hhop
      | ok response =>
        dsimp only
        rw [show ∀ st : LoopState J, st.follow (l.withSni sniHostname) response = st.follow l response from
          fun _ => follow_congr rfl rfl response]
        cases { p.2 with jar := updateCookieJar l.store p.2.jar response }.follow l response with
        | error outcome => exact congrArg (fun hop => [hop]) hhop
        | ok next => simp only [List.map_cons, hhop, ih]

end

section
variable (store : CookieStore J) (join : Join) (config : ClientConfig) (jar : J) (request : Request O)
  (elapsed : Duration) (replies : List Reply)

theorem sendWithRedirects_withSni (sniHostname : Option Str) :
    (sendWithRedirects store join config jar (request.withSni sniHostname) elapsed replies).hops.map
        (·.withSni none) =
      (sendWithRedirects store join config jar request elapsed replies).hops.map (·.withSni none) := by
  have hredirect : (request.withSni sniHostname).redirect = request.redirect := rfl
  cases hfollow : (request.redirect.getD config.redirect).follow with
  | true =>
    rw [sendWithRedirects_loop hfollow, sendWithRedirects_loop (hredirect ▸ hfollow), hredirect]
    exact LoopState.loop_withSni
      ⟨store, join, config, request.redirect.getD config.redirect, prepareFirstHop config request⟩
      _ sniHostname elapsed replies
  | false =>
    have hparams : prepareFirstHop config (request.withSni sniHostname) =
        (prepareFirstHop config request).withSni sniHostname := rfl
    have hbuild := buildHopRequest_withSni store config jar (prepareFirstHop config request) sniHostname
    rw [sendWithRedirects_single hfollow, sendWithRedirects_single (hredirect ▸ hfollow), hparams]
    rcases map_eq_map_cases hbuild with ⟨e, hleft, hright⟩ | ⟨p', p, hleft, hright, heq⟩
    · simp only [sendFirstHop, hleft, hright]
    · have hhop : p'.1.withSni none = p.1.withSni none := (Prod.mk.inj heq).1
      simp only [sendFirstHop, hleft, hright]
      cases replies with
      | nil => exact congrArg (fun hop => [hop]) hhop
      | cons reply replies =>
        dsimp only
        cases reply.result <;> exact congrArg (fun hop => [hop]) hhop

/-- The hops of a redirect chain: the first goes to the request's URL, a later one follows its
predecessor. -/
theorem sendWithRedirects_hops :
    (∀ hop ∈ (sendWithRedirects store join config jar request elapsed replies).hops.head?,
        hop.url = request.url) ∧
      (sendWithRedirects store join config jar request elapsed replies).hops.IsChain fun a b =>
        Carries ⟨store, join, config, request.redirect.getD config.redirect, prepareFirstHop config request⟩
          a.url b := by
  cases hfollow : (request.redirect.getD config.redirect).follow with
  | true =>
    rw [sendWithRedirects_loop hfollow]
    exact ⟨LoopState.loop_head, (LoopState.loop_carries _ _ elapsed replies).2⟩
  | false =>
    rw [sendWithRedirects_single hfollow]
    rcases sendFirstHop_hops store config jar (prepareFirstHop config request) replies with
      hnil | ⟨hop, jar', hbuild, hone⟩
    · simp [hnil]
    · obtain ⟨headers, rfl, -⟩ := buildHopRequest_ok hbuild
      rw [hone]
      exact ⟨fun b hb => by cases hb; rfl, List.isChain_singleton _⟩

theorem sendWithRedirects_urls :
    (sendWithRedirects store join config jar request elapsed replies).hops.map (·.url) <+:
      redirectUrls join request.url replies := by
  cases hfollow : (request.redirect.getD config.redirect).follow with
  | true =>
    rw [sendWithRedirects_loop hfollow]
    exact LoopState.loop_urls _ _ elapsed replies
  | false =>
    rw [sendWithRedirects_single hfollow]
    rcases sendFirstHop_hops store config jar (prepareFirstHop config request) replies with
      hnil | ⟨hop, jar', hbuild, hone⟩
    · simp [hnil]
    · obtain ⟨headers, rfl, -⟩ := buildHopRequest_ok hbuild
      rw [hone]
      cases replies with
      | nil => exact List.prefix_refl _
      | cons reply replies =>
        rw [redirectUrls]
        cases redirectUrl join request.url reply <;> exact ⟨_, rfl⟩

theorem Request.withSni_of_not_hinted {hop : Request O} (hbare : ¬ Hinted hop) : hop.withSni none = hop := by
  have hsni : hop.transportHints.sniHostname = none := by
    by_contra hsome
    exact hbare (.inr (.inl hsome))
  unfold withSni
  rw [← hsni]

private theorem Carries.same {l : LoopParams O J} {url : Url} {hop : Request O} (hcarries : Carries l url hop)
    (hhinted : Hinted hop) : url.sameOrigin hop.url = true := by
  cases hsame : url.sameOrigin hop.url with
  | true => rfl
  | false =>
    obtain ⟨hhints, hproxied, -⟩ := hcarries
    simp only [hsame, Bool.false_eq_true, if_false] at hhints hproxied
    simp [Hinted, hhints, hproxied] at hhinted

theorem LeavesForeign.attached
    (hleaves : LeavesForeign request.url
      ((sendWithRedirects store join config jar request elapsed replies).hops.map (·.url))) :
    ∀ hop ∈ (sendWithRedirects store join config jar request elapsed replies).hops,
      Hinted hop → hop.url.origin = request.url.origin := by
  obtain ⟨hhead, hcarries⟩ := sendWithRedirects_hops store join config jar request elapsed replies
  have hleaves' := (List.isChain_map _).mp hleaves
  refine (isChain_and hcarries hleaves').induction (fun hop => Hinted hop → hop.url.origin = request.url.origin) _ ?_ ?_
  · rintro a b ⟨hcarried, hleave⟩ - hhinted
    exact hleave (hcarried.same hhinted)
  · intro hne _
    rw [hhead _ (List.head?_eq_some_head hne)]

private theorem foreignHops_erase {url : Url} {hops : List (Request O)}
    (hattached : ∀ hop ∈ hops, Hinted hop → hop.url.origin = url.origin) :
    foreignHops url hops = foreignHops url (hops.map (·.withSni none)) := by
  have hbare : ∀ hop ∈ foreignHops url hops, hop.withSni none = hop := by
    intro hop hmem
    obtain ⟨hin, hforeign⟩ := List.mem_filter.mp hmem
    exact Request.withSni_of_not_hinted fun hhinted => by simp [hattached hop hin hhinted] at hforeign
  calc foreignHops url hops
      = (foreignHops url hops).map (·.withSni none) := ((List.map_congr_left hbare).trans (List.map_id _)).symm
    _ = foreignHops url (hops.map (·.withSni none)) := by
      unfold foreignHops
      rw [List.filter_map]
      rfl

private theorem foreignHops_sni :
    ∀ hop ∈ foreignHops request.url (sendWithRedirects store join config jar request elapsed replies).hops,
      hop.transportHints.sniHostname = none ∨
        hop.transportHints.sniHostname = request.transportHints.sniHostname := by
  intro hop hmem
  obtain ⟨hin, hforeign⟩ := List.mem_filter.mp hmem
  obtain ⟨hhead, hcarries⟩ := sendWithRedirects_hops store join config jar request elapsed replies
  refine hcarries.induction (fun hop => hop.url.origin ≠ request.url.origin →
    hop.transportHints.sniHostname = none ∨
      hop.transportHints.sniHostname = request.transportHints.sniHostname) _ ?_ ?_ hop hin
      (by simpa using hforeign)
  · intro a b hcarried _ _
    rw [hcarried.hints]
    split
    · exact .inr rfl
    · exact .inl rfl
  · intro hne hforeign
    rw [hhead _ (List.head?_eq_some_head hne)] at hforeign
    exact absurd rfl hforeign

private theorem sendWithRedirects_withSni_urls (sniHostname : Option Str) :
    (sendWithRedirects store join config jar (request.withSni sniHostname) elapsed replies).hops.map (·.url) =
      (sendWithRedirects store join config jar request elapsed replies).hops.map (·.url) := by
  have hurls := congrArg (List.map (·.url)) (sendWithRedirects_withSni store join config jar request elapsed replies
    sniHostname)
  rw [List.map_map, List.map_map] at hurls
  exact hurls

end

/-- Hints stay on the first origin when no step of the chain stays on another one, and only
if no step that is dispatched does. -/
theorem hints_confined (store : CookieStore J) (join : Join) (config : ClientConfig) (jar : J)
    (request : Request O) (elapsed : Duration) (replies : List Reply) :
    (LeavesForeign request.url (redirectUrls join request.url replies) →
      HintsConfined store join config jar request elapsed replies) ∧
    (HintsConfined store join config jar request elapsed replies →
      LeavesForeign request.url
        ((sendWithRedirects store join config jar request elapsed replies).hops.map (·.url))) := by
  constructor
  · intro hchain
    have hleaves : LeavesForeign request.url
        ((sendWithRedirects store join config jar request elapsed replies).hops.map (·.url)) :=
      hchain.prefix (sendWithRedirects_urls store join config jar request elapsed replies)
    refine ⟨hleaves.attached, fun sniHostname => ?_⟩
    have hleaves' : LeavesForeign (request.withSni sniHostname).url
        ((sendWithRedirects store join config jar (request.withSni sniHostname) elapsed replies).hops.map
          (·.url)) := by
      rw [sendWithRedirects_withSni_urls]
      exact hleaves
    rw [foreignHops_erase hleaves.attached, ← sendWithRedirects_withSni store join config jar request elapsed replies sniHostname]
    exact foreignHops_erase hleaves'.attached
  · intro hconfined
    -- an override that no hop of the other run has
    obtain ⟨sniHostname, hfresh⟩ : ∃ sniHostname : Str, some sniHostname ≠ request.transportHints.sniHostname := by
      cases request.transportHints.sniHostname with
      | none => exact ⟨[], by simp⟩
      | some name => exact ⟨0 :: name, by simp⟩
    rw [← sendWithRedirects_withSni_urls store join config jar request elapsed replies (some sniHostname)]
    refine List.isChain_map _ |>.mpr 
      ((sendWithRedirects_hops store join config jar (request.withSni (some sniHostname)) elapsed
        replies).2.imp_of_mem_imp ?_)
    intro a b _ hb hcarried hsame
    by_contra hforeign
    have hmem : b ∈ foreignHops request.url
        (sendWithRedirects store join config jar (request.withSni (some sniHostname)) elapsed replies).hops :=
      List.mem_filter.mpr ⟨hb, by simpa using hforeign⟩
    rw [hconfined.independent] at hmem
    have hsni : b.transportHints.sniHostname = some sniHostname := by
      rw [hcarried.hints, if_pos hsame]
      rfl
    rcases foreignHops_sni store join config jar request elapsed replies b hmem with hnone | hsome
    · cases hsni.symm.trans hnone
    · exact hfresh (hsni.symm.trans hsome)

private def sniRequest : Request Unit :=
  { method := utf8 "GET", url := siteA, options := ()
    transportHints := { sniHostname := some (utf8 "front") } }

private def twoForeignHops : List Reply := [redirectTo siteA "https://b/", redirectTo siteB "/next"]

/-- The override and the origin of every hop. -/
private theorem twoForeignHops_hints :
    ((sendWithRedirects noCookies joinSites following () sniRequest 0 twoForeignHops).hops.map
      fun hop => (hop.transportHints.sniHostname, hop.url.origin)) =
      [(some (utf8 "front"), siteA.origin), (none, siteB.origin), (some (utf8 "front"), siteB.origin)] := by
  decide

/-- The second hop on the other site gets the override. -/
theorem hints_leak :
    ¬ ∀ (store : CookieStore Unit) (join : Join) (config : ClientConfig) (jar : Unit)
      (request : Request Unit) (elapsed : Duration) (replies : List Reply),
      HintsConfined store join config jar request elapsed replies := by
  intro hall
  have hattached := (hall noCookies joinSites following () sniRequest 0 twoForeignHops).attached
  have hleak : (some (utf8 "front"), siteB.origin) ∈
      (sendWithRedirects noCookies joinSites following () sniRequest 0 twoForeignHops).hops.map
        fun hop => (hop.transportHints.sniHostname, hop.url.origin) := by
    rw [twoForeignHops_hints]
    exact .tail _ (.tail _ (.head _))
  obtain ⟨hop, hmem, hhop⟩ := List.mem_map.mp hleak
  obtain ⟨hsni, horigin⟩ := Prod.mk.inj hhop
  have hsame := hattached hop hmem (.inr (.inl (by simp [hsni])))
  rw [horigin] at hsame
  exact absurd hsame (by decide)

end Eggfetch.Pipeline
