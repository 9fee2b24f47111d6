import Eggfetch.Facade.Crossing

/-! Two calls that differ in nothing but the values of secret headers. The facade treats
their headers alike, so that they stay in step up to the crossing, and what is left after
it is the same. -/
namespace Eggfetch.Facade
open Text Pipeline

variable {PJ J O : Type} {env : Env PJ J O} {h h' : Headers} {name : Str}

/-- The same field but for the value of a secret. An empty `Cookie` is none to the facade. -/
structure SameField (a b : Name × Str) : Prop where
  name : a.1 = b.1
  value : a.1.val ∉ secretNames → a.2 = b.2
  explicit : a.1.val = cookie → (a.2 = [] ↔ b.2 = [])

def SameHeaders (h h' : Headers) : Prop := List.Forall₂ SameField h.items h'.items

structure SameRequest (request request' : Request PJ) : Prop where
  rest : request' = { request with headers := request'.headers }
  headers : SameHeaders request.headers request'.headers

/-- Clients whose native clients are the same, or will be. -/
structure SameEngine (env : Env PJ J O) (client client' : Client PJ J) : Prop where
  native : client.ensureClient env = client'.ensureClient env
  cookies : client.cookies = client'.cookies
  maxRedirects : client.maxRedirects = client'.maxRedirects

theorem SameField.refl (a : Name × Str) : SameField a a := ⟨rfl, fun _ => rfl, fun _ => Iff.rfl⟩

namespace SameHeaders

theorem filter {l l' : List (Name × Str)} (hsame : List.Forall₂ SameField l l') (p : Name → Bool) :
    List.Forall₂ SameField (l.filter fun item => p item.1) (l'.filter fun item => p item.1) := by
  induction hsame with
  | nil => exact .nil
  | cons hfield _ ih =>
    rw [List.filter_cons, List.filter_cons, ← hfield.name]
    split
    · exact .cons hfield ih
    · exact ih

theorem pop (hsame : SameHeaders h h') (name : Str) : SameHeaders (h.pop name) (h'.pop name) := by
  obtain ⟨items⟩ := h
  obtain ⟨items'⟩ := h'
  change List.Forall₂ SameField items items' at hsame
  show List.Forall₂ SameField (items.eraseP _) (items'.eraseP _)
  induction hsame with
  | nil => exact .nil
  | @cons a b _ _ hfield hrest ih =>
    by_cases hname : a.1.val = name
    · rw [List.eraseP_cons_of_pos (by simpa using hname),
        List.eraseP_cons_of_pos (by simpa [← hfield.name] using hname)]
      exact hrest
    · rw [List.eraseP_cons_of_neg (by simpa using hname),
        List.eraseP_cons_of_neg (by simpa [← hfield.name] using hname)]
      exact .cons hfield ih

theorem setItem (hsame : SameHeaders h h') {name : Name} {value value' : Str}
    (hfield : SameField (name, value) (name, value')) :
    SameHeaders (h.setItem name value) (h'.setItem name value') :=
  List.rel_append (filter hsame fun other => other ≠ name) (.cons hfield .nil)

/-- The values of a name, one by one. -/
theorem getList (hsame : SameHeaders h h') (name : Str) :
    List.Forall₂ (fun a b => (name ∉ secretNames → a = b) ∧ (name = cookie → (a = [] ↔ b = [])))
      (h.getList name) (h'.getList name) := by
  have hitems := filter hsame fun other => other.val = name
  have hnames : ∀ item ∈ h.items.filter (fun item => item.1.val = name), item.1.val = name := by
    intro item hitem
    simpa using (List.mem_filter.mp hitem).2
  unfold Headers.getList
  generalize h.items.filter (fun item => item.1.val = name) = l,
    h'.items.filter (fun item => item.1.val = name) = l' at hitems hnames ⊢
  induction hitems with
  | nil => exact .nil
  | @cons a b _ _ hfield _ ih =>
    obtain rfl := hnames a List.mem_cons_self
    exact .cons ⟨hfield.value, hfield.explicit⟩ (ih fun item hitem => hnames item (List.mem_cons_of_mem _ hitem))

theorem getList_nil (hsame : SameHeaders h h') : h.getList name = [] ↔ h'.getList name = [] := by
  rw [← List.length_eq_zero_iff, ← List.length_eq_zero_iff, (hsame.getList name).length_eq]

theorem contains (hsame : SameHeaders h h') (name : Str) : h.contains name = h'.contains name := by
  rw [Bool.eq_iff_iff, Headers.contains_iff, Headers.contains_iff, ne_eq, hsame.getList_nil]

theorem get_none (hsame : SameHeaders h h') : h.get name = none ↔ h'.get name = none := by
  simp only [Headers.get, ite_eq_left_iff, reduceCtorEq, imp_false, not_not, hsame.getList_nil]

theorem get_cookie_nil (hsame : SameHeaders h h') : h.get cookie = some [] ↔ h'.get cookie = some [] := by
  rw [Headers.get_eq_some_nil, Headers.get_eq_some_nil]
  have hvalues := hsame.getList cookie
  generalize h.getList cookie = l, h'.getList cookie = l' at hvalues
  cases hvalues with
  | nil => exact Iff.rfl
  | cons hvalue hrest =>
    cases hrest with
    | nil => simpa using hvalue.2 rfl
    | cons => simp

/-- Without secrets there is nothing left to differ. -/
theorem eq (hsame : SameHeaders h h') (hnone : ∀ name ∈ secretNames, h.getList name = []) : h = h' := by
  have hclear : ∀ item ∈ h.items, item.1.val ∉ secretNames := by
    intro item hitem hsecret
    have hvalue : item.2 ∈ h.getList item.1.val :=
      List.mem_map.mpr ⟨item, List.mem_filter.mpr ⟨hitem, by simp⟩, rfl⟩
    rw [hnone _ hsecret] at hvalue
    cases hvalue
  obtain ⟨items⟩ := h
  obtain ⟨items'⟩ := h'
  change List.Forall₂ SameField items items' at hsame
  change ∀ item ∈ items, item.1.val ∉ secretNames at hclear
  clear hnone
  refine congrArg Headers.mk ?_
  induction hsame with
  | nil => rfl
  | @cons a b l l' hfield _ ih =>
    have hfirst : a = b := Prod.ext hfield.name (hfield.value (hclear a List.mem_cons_self))
    rw [hfirst, ih fun item hitem => hclear item (List.mem_cons_of_mem _ hitem)]

theorem setSame (hsame : SameHeaders h h') (name : Name) (value : Str) :
    SameHeaders (h.setItem name value) (h'.setItem name value) :=
  hsame.setItem (SameField.refl (name, value))

theorem setMissing (hsame : SameHeaders h h') (name : Name) (value : Str) :
    SameHeaders (if h.contains name.val then h else h.setItem name value)
      (if h'.contains name.val then h' else h'.setItem name value) := by
  rw [hsame.contains]
  split
  · exact hsame
  · exact hsame.setSame name value

theorem addCookieHeader (hsame : SameHeaders h h') (text : Option Str) :
    SameHeaders (addCookieHeader text h) (Facade.addCookieHeader text h') := by
  unfold Facade.addCookieHeader
  cases text with
  | none => exact hsame
  | some text => exact hsame.setMissing cookieName text

end SameHeaders

private theorem mergeCookies_ne_nil {explicit : Str} (generated : Str) (hne : explicit ≠ []) :
    mergeCookies explicit generated ≠ [] := by
  intro hnil
  unfold mergeCookies at hnil
  dsimp only at hnil
  split_ifs at hnil with hadditions
  · exact hne hnil
  · rw [List.intercalate_cons_of_ne_nil hadditions, List.append_eq_nil_iff] at hnil
    exact hne (List.append_eq_nil_iff.mp hnil.1).1

private theorem SameHeaders.prepareCookies (hsame : SameHeaders h h') (text : Option Str) :
    SameHeaders (prepareCookies text h) (Facade.prepareCookies text h') := by
  have hgenerated := (hsame.pop cookie).addCookieHeader text
  unfold Facade.prepareCookies
  rcases hget : h.get cookie with _ | ⟨_ | ⟨first, explicit⟩⟩
  · rw [hsame.get_none.mp hget]
    exact hgenerated
  · rw [hsame.get_cookie_nil.mp hget]
    exact hgenerated
  · rcases hget' : h'.get cookie with _ | ⟨_ | ⟨first', explicit'⟩⟩
    · rw [hsame.get_none.mpr hget'] at hget
      cases hget
    · rw [hsame.get_cookie_nil.mpr hget'] at hget
      cases hget
    · have hsecret : cookieName.val ∈ secretNames := by decide
      refine hgenerated.setItem ⟨rfl, fun hclear => absurd hsecret hclear, fun _ => ?_⟩
      apply iff_of_false
      · split
        · exact List.cons_ne_nil _ _
        · exact List.cons_ne_nil _ _
        · exact mergeCookies_ne_nil _ (List.cons_ne_nil _ _)
      · split
        · exact List.cons_ne_nil _ _
        · exact List.cons_ne_nil _ _
        · exact mergeCookies_ne_nil _ (List.cons_ne_nil _ _)

theorem SameHeaders.autoHeaders (hsame : SameHeaders h h') (method : Str) (url : Url) (body : Body) :
    SameHeaders (autoHeaders method url body h) (Facade.autoHeaders method url body h') := by
  have hzero : ∀ {a a' : Headers}, SameHeaders a a' → SameHeaders
      (if method ∈ ["POST", "PUT", "PATCH"].map utf8 ∧ !a.contains contentLength.val ∧
        !a.contains transferEncoding then a.setItem contentLength (utf8 "0") else a)
      (if method ∈ ["POST", "PUT", "PATCH"].map utf8 ∧ !a'.contains contentLength.val ∧
        !a'.contains transferEncoding then a'.setItem contentLength (utf8 "0") else a') := by
    intro a a' ha
    simp only [ha.contains]
    split
    · exact ha.setSame _ _
    · exact ha
  have hhosted := fun host => hsame.setMissing hostName (requestHost url host)
  unfold Facade.autoHeaders
  cases url.host with
  | none =>
    cases body with
    | buffered content => exact hsame.setMissing _ _
    | empty | multipart form reconstructable => exact hzero hsame
    | byteStream | oneShot => exact hsame
  | some host =>
    cases body with
    | buffered content => exact (hhosted host).setMissing _ _
    | empty | multipart form reconstructable => exact hzero (hhosted host)
    | oneShot => exact hhosted host
    | byteStream => exact hsame

variable {client client' : Client PJ J} {request request' next next' : Request PJ} {now : Nat}
  {follow : Bool} {history : Nat} {replies : List Reply} {reply : Option Reply} {hop hop' : Hop PJ J O}
  {response : Response} {native : Native J}

theorem SameHeaders.redirectedHeaders (hsame : SameHeaders request.headers h') (url : Url) (method : Str) :
    SameHeaders (redirectedHeaders request url method)
      (Facade.redirectedHeaders { request with headers := h' } url method) := by
  have hcookies := (hsame.pop cookie).pop cookie
  have hbody : ∀ {a a' : Headers}, SameHeaders a a' → SameHeaders
      (if method ≠ request.method ∧ method = utf8 "GET" then
        (a.pop contentLength.val).pop transferEncoding else a)
      (if method ≠ request.method ∧ method = utf8 "GET" then
        (a'.pop contentLength.val).pop transferEncoding else a') := by
    intro a a' ha
    split
    · exact (ha.pop _).pop _
    · exact ha
  unfold Facade.redirectedHeaders
  apply hbody
  dsimp only
  split
  · exact hcookies
  · have hstripped : SameHeaders
        (if request.url.isHttpsRedirect url then (request.headers.pop cookie).pop cookie
          else ((request.headers.pop cookie).pop cookie).pop authorization)
        (if request.url.isHttpsRedirect url then (h'.pop cookie).pop cookie
          else ((h'.pop cookie).pop cookie).pop authorization) := by
      split
      · exact hcookies
      · exact hcookies.pop _
    cases url.host with
    | none => exact hstripped
    | some host => exact hstripped.setSame _ _

theorem SameRequest.prepareCookieHeader (hsame : SameRequest request request') :
    SameRequest (request.prepareCookieHeader env now) (request'.prepareCookieHeader env now) := by
  obtain ⟨hrest, hheaders⟩ := hsame
  rw [hrest]
  exact ⟨rfl, hheaders.prepareCookies _⟩

theorem SameRequest.redirected {jar : PJ} (hsame : SameRequest request request')
    (hnext : buildRedirectRequest env jar request response = .ok next)
    (hnext' : buildRedirectRequest env jar request' response = .ok next') : SameRequest next next' := by
  have hheaders := buildRedirectRequest_ok hnext
  have hheaders' := buildRedirectRequest_ok hnext'
  rw [hsame.rest] at hnext' hheaders'
  have hrest : next' = { next with headers := next'.headers } := by
    unfold buildRedirectRequest at hnext hnext'
    have hurl : redirectUrl env { request with headers := request'.headers } response =
        redirectUrl env request response := rfl
    rw [hurl] at hnext'
    cases htarget : redirectUrl env request response with
    | error e =>
      rw [htarget] at hnext
      cases hnext
    | ok url =>
      rw [htarget] at hnext hnext'
      dsimp only at hnext hnext'
      split at hnext
      · cases hnext
      split at hnext'
      · cases hnext'
      split at hnext
      · rename_i hget
        rw [if_pos hget] at hnext'
        cases hnext
        cases hnext'
        rfl
      · rename_i hget
        rw [if_neg hget] at hnext'
        split at hnext
        · cases hnext
        · cases hnext
        · split at hnext'
          · cases hnext'
          · cases hnext'
          · cases hnext
            cases hnext'
            rfl
  refine ⟨hrest, ?_⟩
  rw [hheaders, hheaders', hrest]
  exact (hsame.headers.redirectedHeaders _ _).autoHeaders _ _ _

theorem SameEngine.dispatch (hengine : SameEngine env client client') :
    (client.dispatch env request now reply).hop = (client'.dispatch env request now reply).hop ∧
      (client.dispatch env request now reply).result = (client'.dispatch env request now reply).result ∧
      SameEngine env (client.dispatch env request now reply).client
        (client'.dispatch env request now reply).client := by
  cases hensure : client.ensureClient env with
  | error e =>
    have hensure' := hengine.native.symm.trans hensure
    simp only [Client.dispatch, hensure, hensure']
    exact ⟨trivial, trivial, hengine⟩
  | ok native =>
    have hensure' := hengine.native.symm.trans hensure
    simp only [Client.dispatch, hensure, hensure']
    cases hrequest : nativeRequest env native request with
    | error e => exact ⟨rfl, rfl, rfl, hengine.cookies, hengine.maxRedirects⟩
    | ok nativeRequest' =>
      dsimp only
      split
      · exact ⟨rfl, rfl, rfl, hengine.cookies, hengine.maxRedirects⟩
      · exact ⟨rfl, rfl, rfl, hengine.cookies, hengine.maxRedirects⟩
      · exact ⟨rfl, rfl, rfl, by rw [hengine.cookies], hengine.maxRedirects⟩

theorem SameEngine.settle (hengine : SameEngine env client client') (jar : J)
    (hurl : hop.request.url = hop'.request.url) (hnow : hop.now = hop'.now) :
    SameEngine env (client.settle env native hop jar reply).client
      (client'.settle env native hop' jar reply).client := by
  cases reply with
  | none => exact ⟨rfl, hengine.cookies, hengine.maxRedirects⟩
  | some reply =>
    simp only [Client.settle, hurl, hnow, hengine.cookies]
    split
    · exact ⟨rfl, rfl, hengine.maxRedirects⟩
    · exact ⟨rfl, rfl, hengine.maxRedirects⟩

private theorem SameEngine.dispatch_same (hengine : SameEngine env client client')
    (hsame : SameRequest request request')
    (hhop : (client.dispatch env request now reply).hop = some hop)
    (hhop' : (client'.dispatch env request' now reply).hop = some hop') :
    SameEngine env (client.dispatch env request now reply).client
      (client'.dispatch env request' now reply).client := by
  obtain ⟨native, call, headers, jar, hensure, hrequest, hcookies, hwire, hsettle⟩ := dispatch_spec hhop
  obtain ⟨native', call', headers', jar', hensure', hrequest', hcookies', hwire', hsettle'⟩ :=
    dispatch_spec hhop'
  obtain rfl : native = native' := Except.ok.inj (hensure.symm.trans (hengine.native.trans hensure'))
  have hurl : request.url = request'.url := by rw [hsame.rest]
  have hcall : (prepareFirstHop native.config call').url = (prepareFirstHop native.config call).url := by
    have hparse := nativeRequest_url hrequest
    rw [hurl, nativeRequest_url hrequest'] at hparse
    exact Except.ok.inj hparse
  have hvalues : (prepareFirstHop native.config call).headers.getAll cookie = [] ↔
      (prepareFirstHop native.config call').headers.getAll cookie = [] := by
    show (mergedHeaders _ _).getAll cookie = [] ↔ (mergedHeaders _ _).getAll cookie = []
    rw [getAll_merged hrequest (by decide), getAll_merged hrequest' (by decide), sentValues_nil,
      sentValues_nil, hsame.headers.getList_nil]
  have hjar : jar = jar' := by
    rw [withCookies_jar rfl hcookies, withCookies_jar rfl hcookies', hcall]
    by_cases hnone : (prepareFirstHop native.config call').headers.getAll cookie = []
    · rw [if_pos (hvalues.mpr hnone), if_pos hnone]
    · rw [if_neg (mt hvalues.mp hnone), if_neg hnone]
  rw [hsettle, hsettle', hjar]
  apply hengine.settle
  · rw [hwire, hwire']
    exact hurl
  · rw [hwire, hwire']

private theorem SameEngine.hops (hengine : SameEngine env client client') (request : Request PJ) (follow : Bool)
    (history now : Nat) (replies : List Reply) :
    (client.sendHandlingRedirects env request follow history now replies).hops =
      (client'.sendHandlingRedirects env request follow history now replies).hops := by
  induction replies generalizing client client' request history now with
  | nil =>
    have hsent := @SameEngine.dispatch _ _ _ _ _ _ (request.prepareCookieHeader env now) now none hengine
    simp only [Client.sendHandlingRedirects, Client.sendSingleRequest, hengine.maxRedirects, hsent.1]
    split <;> rfl
  | cons reply replies ih =>
    obtain ⟨hhop, hresult, hclients⟩ :=
      @SameEngine.dispatch _ _ _ _ _ _ (request.prepareCookieHeader env now) now (some reply) hengine
    simp only [Client.sendHandlingRedirects, Client.sendSingleRequest, hengine.maxRedirects, hhop,
      hresult, hclients.cookies]
    split
    · rfl
    · split
      · split
        · rfl
        · split
          · rfl
          · split
            · rfl
            · rw [ih hclients]
      · rfl

/-- Two calls with one engine whose requests differ in secrets, of which a crossing takes
all, are the same from the crossing on. -/
theorem SameEngine.afterCrossing_eq (hengine : SameEngine env client client')
    (hsame : SameRequest request request')
    (hsingle : (request.headers.getList authorization).length ≤ 1)
    (hcross : afterCrossing (client.sendHandlingRedirects env request follow history now replies).hops ≠ [])
    (hcross' :
      afterCrossing (client'.sendHandlingRedirects env request' follow history now replies).hops ≠ []) :
    afterCrossing (client.sendHandlingRedirects env request follow history now replies).hops =
      afterCrossing (client'.sendHandlingRedirects env request' follow history now replies).hops := by
  induction replies generalizing client client' request request' history now with
  | nil =>
    obtain ⟨_, _, _, _, _, -, hreplies, -⟩ := afterCrossing_cases hcross
    cases hreplies
  | cons reply replies ih =>
    obtain ⟨hop, _, _, response, next, hhop, hreplies, hresult, hbuild, hafter⟩ :=
      afterCrossing_cases hcross
    obtain ⟨rfl, rfl⟩ := List.cons.inj hreplies
    obtain ⟨hop', _, _, response', next', hhop', hreplies', hresult', hbuild', hafter'⟩ :=
      afterCrossing_cases hcross'
    obtain ⟨rfl, rfl⟩ := List.cons.inj hreplies'
    rw [hafter] at hcross ⊢
    rw [hafter'] at hcross' ⊢
    have hsent : SameEngine env (client.sendSingleRequest env request now (reply :: replies).head?).client
        (client'.sendSingleRequest env request' now (reply :: replies).head?).client :=
      hengine.dispatch_same hsame.prepareCookieHeader hhop hhop'
    obtain rfl : response = response' :=
      Except.ok.inj ((dispatch_response hresult).symm.trans (dispatch_response hresult'))
    rw [← hsent.cookies] at hbuild'
    have hnext : SameRequest next next' := hsame.prepareCookieHeader.redirected hbuild hbuild'
    have hurls : crosses request'.url next'.url = crosses request.url next.url := by
      rw [hsame.rest, hnext.rest]
    rw [hurls] at hcross' ⊢
    have hauth := next_authorization hbuild
    cases hcrosses : crosses request.url next.url with
    | true =>
      rw [hcrosses, if_pos rfl] at hauth
      have hnone : ∀ name ∈ secretNames, next.headers.getList name = [] := by
        intro name hname
        rcases List.mem_cons.mp hname with rfl | hname
        · rw [hauth]
          exact List.eq_nil_of_length_eq_zero (by rw [List.length_tail]; omega)
        · rw [List.mem_singleton.mp hname]
          exact next_cookie hbuild
      obtain rfl : next = next' := by
        rw [hnext.rest, ← hnext.headers.eq hnone]
      exact hsent.hops _ _ _ _ _
    | false =>
      rw [hcrosses] at hcross hcross' hauth
      exact ih hsent hnext (hauth ▸ hsingle) hcross hcross'

end Eggfetch.Facade
