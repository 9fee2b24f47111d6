import Eggfetch.Facade.Authority
import Eggfetch.Facade.Chain

/-! The `Host` header of a new request and of a redirect. -/
namespace Eggfetch.Facade.Urls
open Text Pipeline

/-- The one `Host` is the authority of the URL, in any case of letters. -/
def HostCorrect (headers : Headers) (u : HttpUrl) : Prop :=
  ∃ text, headers.getList host = [encode text] ∧ asciiLower text = asciiLower u.hostField

def HttpUrl.Unbracketed (u : HttpUrl) : Prop := ∀ text valid, u.authority.host ≠ .ipv6 text valid

theorem utf8_eq (s : String) : utf8 s = encode s.toList := by
  rw [utf8, encode, String.toUTF8_eq_toByteArray, ← String.utf8Encode_toList, List.utf8Encode,
    List.toList_data_toByteArray]

private theorem encode_injective {s t : List Char} (h : encode s = encode t) : s = t := by
  have hEncode : s.utf8Encode = t.utf8Encode := congrArg List.toByteArray h
  have hDecode := congrArg ByteArray.utf8Decode? hEncode
  rw [List.utf8Decode?_utf8Encode, List.utf8Decode?_utf8Encode] at hDecode
  exact congrArg Array.toList (Option.some.inj hDecode)

theorem hostCorrect_iff {headers : Headers} {u : HttpUrl} {text : List Char} (h : headers.getList host = [encode text]) :
    HostCorrect headers u ↔ asciiLower text = asciiLower u.hostField := by
  rw [HostCorrect, h]
  constructor
  · rintro ⟨other, hEq, hField⟩
    rw [encode_injective (List.cons.inj hEq).1]
    exact hField
  · exact fun hField => ⟨text, rfl, hField⟩

def portSuffix (port : Option Nat) : List Char := port.elim [] fun port => ':' :: (toString port).toList

section
variable {u : HttpUrl}

private theorem hostField_eq : u.hostField =
    u.authority.host.render ++ portSuffix (u.authority.portNumber.filter fun port => decide (port ≠ u.defaultPort)) := by
  rw [HttpUrl.hostField]
  cases u.authority.portNumber with
  | none => rfl
  | some port =>
    simp only [Option.filter_some]
    by_cases hDefault : port = u.defaultPort
    · rw [if_pos hDefault, decide_eq_false (not_not_intro hDefault)]
      rfl
    · rw [if_neg hDefault, decide_eq_true hDefault]
      rfl

private theorem portSuffix_inj {shown due : Option Nat} (hShown : shown = none ∨ due = none ∨ shown = due) :
    asciiLower (portSuffix shown) = asciiLower (portSuffix due) ↔ shown = due := by
  refine ⟨fun hEq => ?_, fun hEq => by rw [hEq]⟩
  rcases hShown with rfl | rfl | hSame
  · cases due with
    | none => rfl
    | some port => cases hEq
  · cases shown with
    | none => rfl
    | some port => cases hEq
  · exact hSame

private theorem eq_bracket {c : Char} (h : c.toLower = '[') : c = '[' := by
  rcases toLower_cases c with ⟨hLow, hHigh, hNat⟩ | ⟨-, hSame⟩
  · rw [h] at hNat
    have hCode : '['.toNat = 91 := rfl
    omega
  · rw [← hSame, h]

/-- A host without brackets before the port is the authority exactly when none are due, and the port is shown when it has to
be. -/
theorem hostField_iff {name : List Char} (hName : asciiLower name = asciiLower u.authority.host.text) {shown : Option Nat}
    (hShown : shown = none ∨ shown = u.authority.portNumber) :
    asciiLower (name ++ portSuffix shown) = asciiLower u.hostField ↔
      u.Unbracketed ∧ shown = u.authority.portNumber.filter fun port => decide (port ≠ u.defaultPort) := by
  have hDue : ∀ {due : Option Nat}, due = u.authority.portNumber.filter (fun port => decide (port ≠ u.defaultPort)) →
      shown = none ∨ due = none ∨ shown = due := by
    rintro due rfl
    rcases hShown with rfl | rfl
    · exact Or.inl rfl
    · cases u.authority.portNumber with
      | none => exact Or.inl rfl
      | some port =>
        rw [Option.filter_some]
        split
        · exact Or.inr (Or.inr rfl)
        · exact Or.inr (Or.inl rfl)
  rw [hostField_eq, asciiLower_append, asciiLower_append, hName, ← portSuffix_inj (hDue rfl)]
  cases hHost : u.authority.host with
  | regName text valid =>
    have hNot : u.Unbracketed := fun other hValid hEq => by rw [hHost] at hEq; cases hEq
    rw [HostName.text, HostName.render, List.append_cancel_left_eq]
    exact (and_iff_right hNot).symm
  | ipv6 text valid =>
    refine iff_of_false (fun hEq => ?_) fun hAnd => hAnd.1 text valid hHost
    rw [HostName.text, HostName.render] at hEq
    cases text with
    | nil => exact valid.1 rfl
    | cons c text =>
      have hHead : c.toLower = '[' := (List.cons.inj hEq).1
      have hChar := List.all_eq_true.mp valid.2 c List.mem_cons_self
      rw [eq_bracket hHead] at hChar
      cases hChar

end

theorem filter_cases (port : Option Nat) (p : Nat → Bool) : port.filter p = none ∨ port.filter p = port := by
  cases port with
  | none => exact Or.inl rfl
  | some port =>
    rw [Option.filter_some]
    split
    · exact Or.inr rfl
    · exact Or.inl rfl

theorem withPort_eq (name : List Char) (port : Nat) : withPort (encode name) port = encode (name ++ portSuffix (some port)) := by
  have hColon : (":" : String).toList = [':'] := rfl
  rw [withPort, utf8_eq, utf8_eq, encode, encode, encode, ← List.flatMap_append, ← List.flatMap_append, hColon, List.append_assoc]
  rfl

theorem requestHost_eq {u : HttpUrl} {url : Url} (hScheme : url.scheme = utf8 u.scheme) (name : List Char) :
    requestHost url (encode name) =
      encode (name ++ portSuffix (url.port.filter fun port => decide (port ≠ 0 ∧ port ≠ u.defaultPort))) := by
  have hTest : ∀ port, (port ≠ 0 ∧ ((url.scheme = utf8 "http" ∧ port ≠ 80) ∨ (url.scheme = utf8 "https" ∧ port ≠ 443))) ↔
      (port ≠ 0 ∧ port ≠ u.defaultPort) := by
    intro port
    have hPlain : utf8 "https" ≠ utf8 "http" := by decide
    rw [hScheme, HttpUrl.scheme, HttpUrl.defaultPort]
    cases u.secure with
    | true => simp [hPlain]
    | false => simp [hPlain.symm]
  rw [requestHost]
  cases url.port with
  | none =>
    rw [Option.filter_none, portSuffix, Option.elim_none, List.append_nil]
  | some port =>
    simp only [hTest, Option.filter_some]
    split
    · next hShown => rw [decide_eq_true hShown, if_pos rfl, withPort_eq]
    · next hHidden => rw [decide_eq_false hHidden, if_neg Bool.false_ne_true, portSuffix, Option.elim_none, List.append_nil]

theorem redirectHost_eq (url : Url) (name : List Char) :
    redirectHost url (encode name) = encode (name ++
      portSuffix (url.port.filter fun port => decide (¬ (port = 80 ∨ port = 443)))) := by
  rw [redirectHost]
  cases url.port with
  | none => rw [Option.filter_none, portSuffix, Option.elim_none, List.append_nil]
  | some port =>
    simp only [Option.filter_some]
    split
    · next hHidden =>
      rw [decide_eq_false (not_not_intro hHidden), if_neg Bool.false_ne_true, portSuffix, Option.elim_none, List.append_nil]
    · next hShown => rw [decide_eq_true hShown, if_pos rfl, withPort_eq]

theorem length_host (method : Str) (body : Body) (headers : Headers) :
    (match body with
      | .buffered content =>
        if headers.contains contentLength.val then headers else headers.setItem contentLength (utf8 (toString content.length))
      | .empty | .multipart _ _ =>
        if method ∈ ["POST", "PUT", "PATCH"].map utf8 ∧ !headers.contains contentLength.val ∧
          !headers.contains transferEncoding then
          headers.setItem contentLength (utf8 "0")
        else headers
      | .byteStream _ | .oneShot _ => headers : Headers).getList host = headers.getList host := by
  have hNe : host ≠ contentLength.val := by decide
  cases body with
  | buffered content =>
    simp only
    split
    · rfl
    · exact Headers.getList_setItem_of_ne hNe
  | empty =>
    simp only
    split
    · exact Headers.getList_setItem_of_ne hNe
    · rfl
  | multipart form reconstructable =>
    simp only
    split
    · exact Headers.getList_setItem_of_ne hNe
    · rfl
  | byteStream content => rfl
  | oneShot source => rfl

private theorem autoHeaders_host {method : Str} {url : Url} {body : Body} {headers : Headers} {h : Str}
    (hHost : url.host = some h)
    (hNone : headers.getList host = []) (hBody : ∀ content, body ≠ .byteStream content) :
    (autoHeaders method url body headers).getList host = [requestHost url h] := by
  unfold autoHeaders
  refine (length_host method body _).trans ?_
  rw [hHost]
  have hContains : headers.contains hostName.val = false := Headers.contains_eq_false_iff.mpr hNone
  cases body with
  | byteStream content => exact absurd rfl (hBody content)
  | _ =>
    simp only [hContains, Bool.false_eq_true, if_false]
    exact Headers.getList_setItem_self

private theorem autoHeaders_keeps {method : Str} {url : Url} {body : Body} {headers : Headers}
    (hSome : headers.getList host ≠ []) :
    (autoHeaders method url body headers).getList host = headers.getList host := by
  unfold autoHeaders
  refine (length_host method body _).trans ?_
  have hContains : headers.contains hostName.val = true := Headers.contains_iff.mpr hSome
  split
  · rfl
  · rfl
  · rw [if_pos hContains]

private theorem redirectedHeaders_host {PJ : Type} {request : Request PJ} {url : Url} {method : Str} {h : Str}
    (hHost : url.host = some h)
    (hCross : url.sameOrigin request.url = false) :
    (redirectedHeaders request url method).getList host = [redirectHost url h] := by
  have hLength : ∀ headers : Headers, ((headers.pop contentLength.val).pop transferEncoding).getList host =
      headers.getList host := by
    intro headers
    rw [Headers.getList_pop_of_ne (by decide), Headers.getList_pop_of_ne (by decide)]
  rw [redirectedHeaders]
  simp only [hCross, hHost, Bool.false_eq_true, if_false]
  split
  · exact (hLength _).trans Headers.getList_setItem_self
  · exact Headers.getList_setItem_self

/-- Where the facade writes the authority of a URL into `Host`, at construction and on a redirect to another origin. -/
theorem hostHeader_correct (u : HttpUrl) : ∃ url, view u = some url ∧
    (∀ (method : Str) (body : Body) (headers : Headers), headers.getList host = [] → (∀ content, body ≠ .byteStream content) →
      (HostCorrect (autoHeaders method url body headers) u ↔ u.Unbracketed ∧ u.authority.portNumber ≠ some 0)) ∧
    ∀ {PJ J O : Type} (env : Env PJ J O) (clientCookies : PJ) (request next : Request PJ) (response : Pipeline.Response),
      buildRedirectRequest env clientCookies request response = .ok next → next.url = url → url.sameOrigin request.url = false →
      (HostCorrect next.headers u ↔
        u.Unbracketed ∧ ∀ port ∈ u.authority.portNumber, port = 80 ∨ port = 443 → port = u.defaultPort) := by
  obtain ⟨name, hHostname, hName⟩ := u.hostname_parts
  refine ⟨⟨encode (u.parts.scheme ++ "://".toList ++ u.parts.netloc ++ u.path), utf8 u.scheme, some (encode name),
    u.authority.portNumber⟩, ?_, ?_, ?_⟩
  · rw [view, u.port_parts, hHostname]
    rfl
  · intro method body headers hNone hBody
    rw [hostCorrect_iff ((autoHeaders_host rfl hNone hBody).trans (congrArg (fun value => [value]) (requestHost_eq rfl name))),
      hostField_iff hName (filter_cases _ _)]
    refine and_congr_right fun _ => ?_
    cases u.authority.portNumber with
    | none => exact iff_of_true rfl (fun hEq => by cases hEq)
    | some port =>
      have hZero : (0 : Nat) ≠ u.defaultPort := by
        rw [HttpUrl.defaultPort]
        split <;> decide
      have hSome : some port ≠ some 0 ↔ port ≠ 0 := (Option.some_injective Nat).ne_iff
      rw [hSome, Option.filter_some, Option.filter_some]
      by_cases hPort : port = 0
      · subst hPort
        rw [decide_eq_true hZero, if_pos rfl]
        exact iff_of_false (fun hEq => by cases hEq) (not_not_intro rfl)
      · exact iff_of_true (by simp only [ne_eq, hPort, not_false_iff, true_and]) hPort
  · intro PJ J O env clientCookies request next response hNext hUrl hCross
    rw [← hUrl] at hCross
    have hRedirect : (redirectedHeaders request next.url next.method).getList host = [redirectHost next.url (encode name)] :=
      redirectedHeaders_host (by rw [hUrl]) hCross
    have hKeeps : next.headers.getList host = [redirectHost next.url (encode name)] := by
      rw [buildRedirectRequest_ok hNext, autoHeaders_keeps (by rw [hRedirect]; exact List.cons_ne_nil _ _), hRedirect]
    rw [redirectHost_eq] at hKeeps
    rw [hostCorrect_iff hKeeps, hUrl, hostField_iff hName (filter_cases _ _)]
    refine and_congr_right fun _ => ?_
    cases u.authority.portNumber with
    | none => exact iff_of_true rfl (fun port hPort => by cases hPort)
    | some port =>
      have hDefault : u.defaultPort = 80 ∨ u.defaultPort = 443 := by
        rw [HttpUrl.defaultPort]
        split
        · exact Or.inr rfl
        · exact Or.inl rfl
      simp only [Option.filter_some, Option.mem_def, Option.some.injEq, forall_eq']
      by_cases hEq : port = u.defaultPort
      · refine iff_of_true ?_ fun _ => hEq
        rw [decide_eq_false (not_not_intro (hEq ▸ hDefault)), decide_eq_false (not_not_intro hEq)]
      · rw [decide_eq_true hEq, if_pos rfl]
        by_cases hOther : port = 80 ∨ port = 443
        · rw [decide_eq_false (not_not_intro hOther), if_neg Bool.false_ne_true]
          exact iff_of_false (fun hNone => by cases hNone) fun hAll => hEq (hAll hOther)
        · rw [decide_eq_true hOther, if_pos rfl]
          exact iff_of_true rfl fun hYes => absurd hYes hOther

/-- `http://[::1]/`. -/
def loopback : HttpUrl where
  secure := false
  authority := ⟨none, .ipv6 "::1".toList (by decide), none, by decide⟩
  path := ['/']
  query := []
  fragment := []

/-- The brackets of an IPv6 literal are lost. -/
theorem not_hostHeader_correct : ¬ ∀ (u : HttpUrl) (url : Url), view u = some url →
    ∀ (method : Str) (body : Body) (headers : Headers), headers.getList host = [] → (∀ content, body ≠ .byteStream content) →
      HostCorrect (autoHeaders method url body headers) u := by
  intro hAll
  have hView : view loopback = some ⟨utf8 "http://[::1]/", utf8 "http", some (encode "::1".toList), none⟩ := by decide
  have hCorrect := hAll loopback _ hView (utf8 "GET") .empty .empty rfl (fun _ hBody => by cases hBody)
  have hHost : (autoHeaders (utf8 "GET") ⟨utf8 "http://[::1]/", utf8 "http", some (encode "::1".toList), none⟩ .empty
    .empty).getList
      host = [encode "::1".toList] := by
    decide
  have hField := (hostCorrect_iff hHost).mp hCorrect
  revert hField
  decide

end Eggfetch.Facade.Urls
