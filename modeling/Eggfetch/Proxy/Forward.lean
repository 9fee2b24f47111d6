import Eggfetch.Proxy.Wire

/-! The fields that a forward proxy receives, from Hyper and from the client's own writer. The
writer leaves out what the origin request names already, and every credential that is not the
configured one; the request for Hyper keeps them. -/
namespace Eggfetch.Proxy
open Text Http

def ownFields (lib : Library) (uri : Str) (request : ProxyRequest) : List Field :=
  (hostFields lib uri request.headers ++ framingFields request.body request.headers request.proxyHeaders).map Field.lower

def credentialFields (lib : Library) (auth : Option ProxyAuth) : List Field := (authFields lib auth).map Field.lower

def takenFields (lib : Library) (request : ProxyRequest) : List Field :=
  originFields request.headers ++ proxyOnlyFields request.headers request.proxyHeaders ++ credentialFields lib request.auth

def handedFields (lib : Library) (request : ProxyRequest) : List Field :=
  request.headers.iter ++ credentialFields lib request.auth ++
    request.proxyHeaders.iter.filter fun field => !(isProxyAuthorization field && request.auth.isSome)

/-- Both paths send the same fields: the origin's without a credential of its own, the
proxy-only ones that the origin does not name, and one credential at most. -/
structure FieldsKept (lib : Library) (request : ProxyRequest) (wire : Str) (hyper : HyperRequest) : Prop where
  same : (fieldsOf wire).Perm (hyper.fields ++ lib.hyperAdds hyper)
  kept : ∃ own auth,
    (∀ field ∈ own, (field.name = host ∨ field.name = transferEncoding) ∧ request.headers.contains field.name = false) ∧
    (own.map Field.name).Nodup ∧
    auth.length ≤ 1 ∧ (∀ field ∈ auth, field.name = proxyAuthorization) ∧
    (fieldsOf wire).Perm (own ++ originFields request.headers ++
      proxyOnlyFields request.headers request.proxyHeaders ++ auth)

/-- When they do. -/
structure ForwardAgrees (lib : Library) (request : ProxyRequest) (hyper : HyperRequest) : Prop where
  disjoint : ∀ field ∈ request.proxyHeaders.iter, isProxyAuthorization field = false →
    request.headers.contains field.name = false
  credentials : request.auth = none →
    request.headers.contains proxyAuthorization = false ∧ request.proxyHeaders.contains proxyAuthorization = false
  own : ∀ uri, absoluteUri lib request = .ok uri → (ownFields lib uri request).Perm (lib.hyperAdds hyper)

section
variable {lib : Library} {request : ProxyRequest} {wire uri : Str} {hyper : HyperRequest} {headers : HeaderMap}
  {field : Field}

theorem isProxyAuthorization_iff (h : field ∈ headers.iter) :
    isProxyAuthorization field = true ↔ field.name = proxyAuthorization := by
  have hlower : toAsciiLowercase proxyAuthorization = proxyAuthorization := by decide
  rw [isProxyAuthorization, eqIgnoreAsciiCase, (headers.names_valid field h).2, hlower, decide_eq_true_iff]

theorem originFields_eq (h : headers.contains proxyAuthorization = false) : originFields headers = headers.iter := by
  refine List.filter_eq_self.mpr fun field hmem => ?_
  have hne := contains_eq_false.mp h field hmem
  simpa using fun hauth => hne ((isProxyAuthorization_iff hmem).mp hauth)

theorem map_lower_filter (headers : HeaderMap) (keep : Field → Bool) :
    (headers.iter.filter keep).map Field.lower = headers.iter.filter keep := by
  refine (List.map_congr_left fun field hmem => ?_).trans (List.map_id _)
  exact HeaderMap.lower_eq (List.mem_filter.mp hmem).1

theorem name_own (h : field ∈ ownFields lib uri request) :
    (field.name = host ∨ field.name = transferEncoding) ∧ request.headers.contains field.name = false := by
  obtain ⟨written, hmem, rfl⟩ := List.mem_map.mp h
  rcases List.mem_append.mp hmem with hhost | hframing
  · unfold hostFields at hhost
    split at hhost
    · cases hhost
    · rename_i hcontains
      cases hparse : lib.parseUrl uri with
      | none =>
        rw [hparse] at hhost
        cases hhost
      | some parsed =>
        rw [hparse] at hhost
        obtain rfl := List.mem_singleton.mp hhost
        have hname : toAsciiLowercase (utf8 "Host") = host := by decide
        exact ⟨.inl hname, by rw [Field.lower, hname]; simpa using hcontains⟩
  · unfold framingFields at hframing
    split at hframing
    · rename_i hcontains
      obtain rfl := List.mem_singleton.mp hframing
      have hname : toAsciiLowercase (utf8 "Transfer-Encoding") = transferEncoding := by decide
      simp only [Bool.and_eq_true, Bool.not_eq_true'] at hcontains
      exact ⟨.inr hname, by rw [Field.lower, hname]; exact hcontains.1.2⟩
    · cases hframing

theorem nodup_own : ((ownFields lib uri request).map Field.name).Nodup := by
  have hnodup : ([host] ++ [transferEncoding]).Nodup := by decide
  refine hnodup.sublist ?_
  rw [ownFields, List.map_append, List.map_append]
  refine List.Sublist.append ?_ ?_
  · unfold hostFields
    split
    · exact List.nil_sublist _
    · cases lib.parseUrl uri with
      | none => exact List.nil_sublist _
      | some parsed =>
        have hname : toAsciiLowercase (utf8 "Host") = host := by decide
        simp [Field.lower, hname]
  · unfold framingFields
    split
    · have hname : toAsciiLowercase (utf8 "Transfer-Encoding") = transferEncoding := by decide
      simp [Field.lower, hname]
    · exact List.nil_sublist _

theorem name_credential (h : field ∈ credentialFields lib request.auth) : field.name = proxyAuthorization := by
  have hname : toAsciiLowercase (utf8 "Proxy-Authorization") = proxyAuthorization := by decide
  unfold credentialFields authFields at h
  cases hauth : request.auth with
  | none =>
    rw [hauth] at h
    cases h
  | some auth =>
    rw [hauth] at h
    obtain rfl := List.mem_singleton.mp h
    exact hname

theorem cr_not_mem_absoluteUri (hlib : lib.Clean) (h : validateForwardTarget request.target = .ok ())
    (huri : absoluteUri lib request = .ok uri) : cr ∉ uri := by
  unfold absoluteUri at huri
  cases htarget : request.target with
  | none =>
    rw [htarget] at huri
    obtain rfl := Except.ok.inj huri
    exact hlib.asStr _
  | some target =>
    rw [htarget] at huri h
    have hvalid : validateTarget target = .ok () := by
      cases hvalidate : validateTarget target with
      | ok value => rfl
      | error e =>
        simp only [validateForwardTarget, hvalidate] at h
        cases h
    dsimp only at huri
    unfold targetExtensionStr at huri
    split at huri
    · cases huri
    · obtain rfl := Except.ok.inj huri
      exact cr_not_mem_of_validateTarget hvalid

theorem hyper_fields (h : sendHttpProxyRequestHyper lib request = .ok hyper) :
    hyper.fields = handedFields lib request := by
  have hname : toAsciiLowercase (utf8 "Proxy-Authorization") = proxyAuthorization := by decide
  unfold sendHttpProxyRequestHyper at h
  cases huri : absoluteUri lib request with
  | error e =>
    rw [huri] at h
    cases h
  | ok uri =>
    cases hparse : parseRequestUri lib (utf8 "invalid forward-proxy target: ") uri with
    | error e =>
      simp only [huri, bind, Except.bind, hparse] at h
      cases h
    | ok parsed =>
      simp only [huri, bind, Except.bind, hparse] at h
      obtain rfl := Except.ok.inj h
      cases hauth : request.auth with
      | none => simp [handedFields, credentialFields, authFields, hauth]
      | some auth => simp [handedFields, credentialFields, authFields, Field.lower, hname, hauth]

private theorem routes (hmanual : sendProxyRoute lib false request = .ok (.wire wire))
    (hhyper : sendProxyRoute lib true request = .ok (.hyper hyper)) :
    (request.headers.contains proxyAuthorization = false ∨ request.auth = none) ∧
      validateForwardTarget request.target = .ok () ∧ sendHttpProxyRequestHyper lib request = .ok hyper ∧
      ∃ uri, absoluteUri lib request = .ok uri ∧
        writeProxyRequest lib request.method uri request.version request.headers request.auth request.proxyHeaders
          request.body = .ok wire := by
  unfold sendProxyRoute at hmanual hhyper
  split at hmanual
  · cases hmanual
  · rename_i hconflict
    rw [if_neg hconflict] at hhyper
    split at hmanual
    · rename_i hscheme
      rw [if_pos hscheme] at hhyper
      unfold sendHttpProxyRequest at hmanual hhyper
      split at hmanual
      · cases hmanual
      · rename_i hpolicy
        rw [if_neg hpolicy] at hhyper
        cases hvalid : validateForwardTarget request.target with
        | error e =>
          rw [hvalid] at hmanual
          cases hmanual
        | ok value =>
          refine ⟨?_, rfl, ?_, ?_⟩
          · simpa [Option.isSome_iff_ne_none, or_iff_not_imp_left] using hconflict
          · simp only [hvalid, bind, Except.bind, if_true] at hhyper
            cases hsend : sendHttpProxyRequestHyper lib request with
            | error e =>
              rw [hsend] at hhyper
              cases hhyper
            | ok sent =>
              rw [hsend] at hhyper
              cases hhyper
              rfl
          · simp only [hvalid, bind, Except.bind, Bool.false_eq_true, if_false] at hmanual
            cases huri : absoluteUri lib request with
            | error e =>
              rw [huri] at hmanual
              cases hmanual
            | ok uri =>
              simp only [huri] at hmanual
              cases hwrite : writeProxyRequest lib request.method uri request.version request.headers request.auth
                  request.proxyHeaders request.body with
              | error e =>
                rw [hwrite] at hmanual
                cases hmanual
              | ok bytes =>
                rw [hwrite] at hmanual
                cases hmanual
                exact ⟨uri, rfl, hwrite⟩
    · rename_i hscheme
      rw [if_neg hscheme] at hhyper
      split at hmanual
      · rename_i hsecure
        rw [if_pos hsecure] at hhyper
        cases (Except.ok.inj (hmanual.symm.trans hhyper))
      · cases hmanual

private theorem wire_fields (uri : Str) :
    ((writtenFields lib uri request.headers request.auth request.proxyHeaders request.body).map Field.lower).Perm
      (ownFields lib uri request ++ takenFields lib request) := by
  have horigin : (originFields request.headers).map Field.lower = originFields request.headers := map_lower_filter _ _
  have hproxy : (proxyOnlyFields request.headers request.proxyHeaders).map Field.lower =
      proxyOnlyFields request.headers request.proxyHeaders := map_lower_filter _ _
  simp only [writtenFields, ownFields, takenFields, credentialFields, List.map_append, horigin, hproxy, List.append_assoc]
  refine List.Perm.append_left _ ?_
  -- the framing stands after the fields that are taken over
  exact ((List.perm_append_comm_assoc _ _ _).trans ((List.perm_append_comm_assoc _ _ _).append_left _)).symm

private theorem taken_perm (hdispatch : request.headers.contains proxyAuthorization = false ∨ request.auth = none)
    (hdisjoint : ∀ field ∈ request.proxyHeaders.iter, isProxyAuthorization field = false →
      request.headers.contains field.name = false)
    (hcredentials : request.auth = none →
      request.headers.contains proxyAuthorization = false ∧ request.proxyHeaders.contains proxyAuthorization = false) :
    (takenFields lib request).Perm (handedFields lib request) := by
  have horigin := originFields_eq (hdispatch.elim id fun hnone => (hcredentials hnone).1)
  have hproxy : proxyOnlyFields request.headers request.proxyHeaders =
      request.proxyHeaders.iter.filter fun field => !(isProxyAuthorization field && request.auth.isSome) := by
    refine List.filter_congr fun field hmem => ?_
    cases hauth : isProxyAuthorization field with
    | false => simp [hdisjoint field hmem hauth]
    | true =>
      cases hrequest : request.auth with
      | some auth => rfl
      | none =>
        have hne := contains_eq_false.mp (hcredentials hrequest).2 field hmem
        exact absurd ((isProxyAuthorization_iff hmem).mp hauth) hne
  rw [takenFields, handedFields, horigin, hproxy, List.append_assoc, List.append_assoc]
  exact List.perm_append_comm.append_left _

def countName (name : Str) (fields : List Field) : Nat := fields.countP (·.name == name)

theorem countName_append (name : Str) (fields more : List Field) :
    countName name (fields ++ more) = countName name fields + countName name more := List.countP_append

theorem countName_perm (name : Str) {fields more : List Field} (h : fields.Perm more) :
    countName name fields = countName name more := h.countP_eq _

theorem countName_eq_zero {name : Str} {fields : List Field} (h : ∀ field ∈ fields, field.name ≠ name) :
    countName name fields = 0 := List.countP_eq_zero.mpr fun field hmem => by simpa using h field hmem

theorem countName_pos {name : Str} {fields : List Field} (hmem : field ∈ fields) (hname : field.name = name) :
    0 < countName name fields := List.countP_pos_iff.mpr ⟨field, hmem, by simpa using hname⟩

private theorem countName_written {name : Str} (hname : name ≠ proxyAuthorization)
    (hcontains : request.headers.contains name = true) :
    countName name (ownFields lib uri request ++ takenFields lib request) = countName name request.headers.iter := by
  have hown : countName name (ownFields lib uri request) = 0 := countName_eq_zero fun field hmem hfield => by
    have habsent := (name_own hmem).2
    rw [hfield, hcontains] at habsent
    cases habsent
  have hproxy : countName name (proxyOnlyFields request.headers request.proxyHeaders) = 0 :=
    countName_eq_zero fun field hmem hfield => by
      have hkeep := (List.mem_filter.mp hmem).2
      simp [hfield, hcontains] at hkeep
  have hcredential : countName name (credentialFields lib request.auth) = 0 :=
    countName_eq_zero fun field hmem hfield => hname (hfield.symm.trans (name_credential hmem))
  have horigin : countName name (originFields request.headers) = countName name request.headers.iter := by
    rw [countName, originFields, List.countP_filter]
    refine List.countP_congr fun field hmem => ?_
    have hauth : field.name = name → isProxyAuthorization field = false := fun hfield => by
      have hne : ¬ isProxyAuthorization field = true := fun h => hname (hfield.symm.trans ((isProxyAuthorization_iff hmem).mp h))
      simpa using hne
    simp only [Bool.and_eq_true, beq_iff_eq, Bool.not_eq_true', and_iff_left_iff_imp]
    exact hauth
  simp only [takenFields, countName_append, hown, hproxy, hcredential, horigin, Nat.zero_add, Nat.add_zero]

private theorem countName_credential (hauth : request.auth = none) :
    countName proxyAuthorization (ownFields lib uri request ++ takenFields lib request) = 0 := by
  have hown : countName proxyAuthorization (ownFields lib uri request) = 0 := countName_eq_zero fun field hmem hfield => by
    rcases (name_own hmem).1 with hname | hname
    · exact absurd (hname.symm.trans hfield) (by decide)
    · exact absurd (hname.symm.trans hfield) (by decide)
  have horigin : countName proxyAuthorization (originFields request.headers) = 0 :=
    countName_eq_zero fun field hmem hfield => by
      obtain ⟨hmem, hkeep⟩ := List.mem_filter.mp hmem
      simp [(isProxyAuthorization_iff hmem).mpr hfield] at hkeep
  have hproxy : countName proxyAuthorization (proxyOnlyFields request.headers request.proxyHeaders) = 0 :=
    countName_eq_zero fun field hmem hfield => by
      obtain ⟨hmem, hkeep⟩ := List.mem_filter.mp hmem
      simp [(isProxyAuthorization_iff hmem).mpr hfield] at hkeep
  have hcredential : credentialFields lib request.auth = [] := by rw [hauth]; rfl
  rw [takenFields, hcredential]
  simp only [countName_append, hown, horigin, hproxy]
  rfl

private theorem disjoint_of_perm {adds : List Field}
    (h : (ownFields lib uri request ++ takenFields lib request).Perm (handedFields lib request ++ adds))
    (hmem : field ∈ request.proxyHeaders.iter) (hauth : isProxyAuthorization field = false) :
    request.headers.contains field.name = false := by
  by_contra hcontains
  have hname : field.name ≠ proxyAuthorization := fun hname => by
    rw [(isProxyAuthorization_iff hmem).mpr hname] at hauth
    cases hauth
  have hcount := countName_perm field.name h
  have hhanded : field ∈ request.proxyHeaders.iter.filter fun field => !(isProxyAuthorization field && request.auth.isSome) :=
    List.mem_filter.mpr ⟨hmem, by simp [hauth]⟩
  have hpos := countName_pos hhanded rfl
  rw [countName_written hname (by simpa using hcontains), handedFields] at hcount
  simp only [countName_append] at hcount
  omega

private theorem credentials_of_perm {adds : List Field}
    (h : (ownFields lib uri request ++ takenFields lib request).Perm (handedFields lib request ++ adds))
    (hauth : request.auth = none) :
    request.headers.contains proxyAuthorization = false ∧ request.proxyHeaders.contains proxyAuthorization = false := by
  have hcount := countName_perm proxyAuthorization h
  rw [countName_credential hauth, handedFields] at hcount
  simp only [countName_append] at hcount
  refine ⟨contains_eq_false.mpr fun field hmem hname => ?_, contains_eq_false.mpr fun field hmem hname => ?_⟩
  · have hpos := countName_pos hmem hname
    omega
  · have hhanded : field ∈ request.proxyHeaders.iter.filter
        fun field => !(isProxyAuthorization field && request.auth.isSome) :=
      List.mem_filter.mpr ⟨hmem, by simp [hauth]⟩
    have hpos := countName_pos hhanded hname
    omega

private theorem length_credentialFields : (credentialFields lib request.auth).length ≤ 1 := by
  cases hauth : request.auth with
  | none => exact Nat.zero_le _
  | some auth => exact Nat.le_refl _

end

/-- For every pair of header sets and credential that the dispatch lets through: both paths
send the same fields if and only if no proxy-only name is one of the origin's, no credential is
set by hand, and Hyper adds what the writer adds. -/
theorem forward_fields_iff {lib : Library} {request : ProxyRequest} {wire : Str} {hyper : HyperRequest}
    (hlib : lib.Clean) (hmanual : sendProxyRoute lib false request = .ok (.wire wire))
    (hhyper : sendProxyRoute lib true request = .ok (.hyper hyper)) :
    FieldsKept lib request wire hyper ↔ ForwardAgrees lib request hyper := by
  obtain ⟨hdispatch, hvalid, hsend, uri, huri, hwrite⟩ := routes hmanual hhyper
  have hwire : (fieldsOf wire).Perm (ownFields lib uri request ++ takenFields lib request) := by
    rw [fieldsOf_write hlib request.method_token (cr_not_mem_absoluteUri hlib hvalid huri) hwrite]
    exact wire_fields uri
  have hhanded := hyper_fields hsend
  constructor
  · intro hkept
    have hperm := hwire.symm.trans hkept.same
    rw [hhanded] at hperm
    have hdisjoint : ∀ field ∈ request.proxyHeaders.iter, isProxyAuthorization field = false →
        request.headers.contains field.name = false := fun field hmem hauth => disjoint_of_perm hperm hmem hauth
    have hcredentials := credentials_of_perm hperm
    refine ⟨hdisjoint, hcredentials, fun uri' huri' => ?_⟩
    obtain rfl := Except.ok.inj (huri.symm.trans huri')
    have htaken : (takenFields lib request).Perm (handedFields lib request) := taken_perm hdispatch hdisjoint hcredentials
    have hswap := (hperm.trans List.perm_append_comm).trans (htaken.symm.append_left _)
    exact (List.perm_append_right_iff _).mp hswap
  · intro hagrees
    have htaken : (takenFields lib request).Perm (handedFields lib request) :=
      taken_perm hdispatch hagrees.disjoint hagrees.credentials
    refine ⟨?_, ownFields lib uri request, credentialFields lib request.auth, fun field hmem => name_own hmem, nodup_own,
      length_credentialFields, fun field hmem => name_credential hmem, ?_⟩
    · rw [hhanded]
      exact hwire.trans (((hagrees.own uri huri).append htaken).trans List.perm_append_comm)
    · simpa only [takenFields, List.append_assoc] using hwire

def exampleUrl : Url := { scheme := utf8 "http", host := some (utf8 "example.com"), path := utf8 "/" }

def exampleLibrary : Library where
  parseUrl text := if text = utf8 "http://example.com/" then some exampleUrl else none
  asStr _ := utf8 "http://example.com/"
  parseUri _ := .ok ⟨utf8 "http", utf8 "example.com", none⟩
  base64 _ := utf8 "dTpw"
  hyperAdds request := if request.fields.any (·.name == host) then [] else [⟨host, request.uri.host⟩]

theorem exampleLibrary_clean : exampleLibrary.Clean where
  asStr _ := (by decide : cr ∉ utf8 "http://example.com/")
  host text parsed h := by
    simp only [exampleLibrary] at h
    split at h
    · obtain rfl := Option.some.inj h
      decide
    · cases h
  base64 _ := (by decide : cr ∉ utf8 "dTpw")

def exampleRequest (headers proxyHeaders : HeaderMap) : ProxyRequest where
  url := exampleUrl
  method := utf8 "GET"
  method_token := get_token
  headers := headers
  body := .empty
  version := .http11
  auth := some (.basic (utf8 "u") (utf8 "p"))
  proxyHeaders := proxyHeaders
  target := none
  proxiedTarget := none
  http2Only := false

def originNote : HeaderMap := ⟨[⟨utf8 "x-note", utf8 "1"⟩], by decide, by decide⟩
def proxyNote : HeaderMap := ⟨[⟨utf8 "x-note", utf8 "2"⟩], by decide, by decide⟩
def proxyVia : HeaderMap := ⟨[⟨utf8 "x-via", utf8 "2"⟩], by decide, by decide⟩

set_option maxRecDepth 20000 in
/-- With different names both paths send the same. -/
theorem forward_fields_apart : ∃ wire hyper, FieldsKept exampleLibrary (exampleRequest originNote proxyVia) wire hyper :=
  ⟨utf8 "GET http://example.com/ HTTP/1.1\r\nHost: example.com\r\nx-note: 1\r\nx-via: 2\r\nProxy-Authorization: Basic dTpw\r\n\r\n",
    ⟨utf8 "GET", ⟨utf8 "http", utf8 "example.com", none⟩, .http11,
      [⟨utf8 "x-note", utf8 "1"⟩, ⟨proxyAuthorization, utf8 "Basic dTpw"⟩, ⟨utf8 "x-via", utf8 "2"⟩], .empty⟩,
    (forward_fields_iff exampleLibrary_clean rfl rfl).mpr
      ⟨by decide, (by intro h; cases h), fun uri huri => by obtain rfl := Except.ok.inj huri; exact List.Perm.of_eq rfl⟩⟩

set_option maxRecDepth 20000 in
/-- Hyper is handed both values of a shared name, the writer sends one. -/
theorem shared_name_sent_twice : ∃ wire hyper,
    sendProxyRoute exampleLibrary false (exampleRequest originNote proxyNote) = .ok (.wire wire) ∧
    sendProxyRoute exampleLibrary true (exampleRequest originNote proxyNote) = .ok (.hyper hyper) ∧
    ¬ FieldsKept exampleLibrary (exampleRequest originNote proxyNote) wire hyper := by
  refine ⟨utf8 "GET http://example.com/ HTTP/1.1\r\nHost: example.com\r\nx-note: 1\r\nProxy-Authorization: Basic dTpw\r\n\r\n",
    ⟨utf8 "GET", ⟨utf8 "http", utf8 "example.com", none⟩, .http11,
      [⟨utf8 "x-note", utf8 "1"⟩, ⟨proxyAuthorization, utf8 "Basic dTpw"⟩, ⟨utf8 "x-note", utf8 "2"⟩], .empty⟩,
    rfl, rfl, fun hkept => ?_⟩
  have hlength := hkept.same.length_eq
  revert hlength
  decide

end Eggfetch.Proxy
