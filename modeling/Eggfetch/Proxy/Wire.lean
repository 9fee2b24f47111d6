import Eggfetch.Proxy.Head
import Eggfetch.Proxy.Request
import Eggfetch.Text.Chars

/-! The header fields of a request as its reader finds them: the fields that the client writes,
in order, whatever the body holds. -/
namespace Eggfetch.Proxy
open Text Http
open Pipeline (Version)

def Field.lower (field : Field) : Field := { field with name := toAsciiLowercase field.name }

def fieldOf (line : Str) : Field :=
  let parts := splitOnce colon line
  ⟨toAsciiLowercase parts.1, parts.2.drop 1⟩

/-- The fields of a request: the lines after the first, up to the empty one. -/
def fieldsOf (wire : Str) : List Field :=
  (((splitOnPair cr lf wire).drop 1).takeWhile fun line => !line.isEmpty).map fieldOf

/-- A field that a line can hold. -/
structure Field.Clean (field : Field) : Prop where
  name_colon : colon ∉ field.name
  name_cr : cr ∉ field.name
  value_cr : cr ∉ field.value

def fieldLine (field : Field) : Str := field.name ++ utf8 ": " ++ field.value ++ crlf

section
variable {field : Field} {fields : List Field}

private theorem fieldOf_text (h : field.Clean) : fieldOf (field.name ++ utf8 ": " ++ field.value) = field.lower := by
  have hsplit : field.name ++ utf8 ": " ++ field.value = field.name ++ colon :: (0x20 :: field.value) := by
    have htext : utf8 ": " = [colon, 0x20] := by decide
    rw [htext, List.append_assoc]
    rfl
  rw [fieldOf, hsplit, splitOnce_append h.name_colon]
  rfl

private theorem cr_not_mem_text (h : field.Clean) : cr ∉ field.name ++ utf8 ": " ++ field.value := by
  have htext : cr ∉ utf8 ": " := by decide
  simp [h.name_cr, h.value_cr, htext]

private theorem fieldsOf_lines {line : Str} (hline : cr ∉ line) (hfields : ∀ field ∈ fields, field.Clean) (body : Str) :
    fieldsOf (line ++ crlf ++ fields.flatMap fieldLine ++ crlf ++ body) = fields.map Field.lower := by
  have hlines : ∀ fields : List Field, (∀ field ∈ fields, field.Clean) →
      (splitOnPair cr lf (fields.flatMap fieldLine ++ crlf ++ body)).takeWhile (fun line => !line.isEmpty) =
        fields.map fun field => field.name ++ utf8 ": " ++ field.value := by
    intro fields hclean
    induction fields with
    | nil =>
      have hempty : splitOnPair cr lf (crlf ++ body) = [] :: splitOnPair cr lf body :=
        splitOnPair_append lf List.not_mem_nil body
      simp [hempty]
    | cons field fields ih =>
      have hfield := hclean field List.mem_cons_self
      have hsplit : (field :: fields).flatMap fieldLine ++ crlf ++ body =
          (field.name ++ utf8 ": " ++ field.value) ++ cr :: lf :: (fields.flatMap fieldLine ++ crlf ++ body) := by
        simp [fieldLine, crlf]
      have hne : (field.name ++ utf8 ": " ++ field.value).isEmpty = false := by
        have htext : utf8 ": " = [colon, 0x20] := by decide
        simp [htext]
      rw [hsplit, splitOnPair_append lf (cr_not_mem_text hfield), List.takeWhile_cons, hne,
        ih fun field hmem => hclean field (List.mem_cons_of_mem _ hmem)]
      rfl
  have hsplit : line ++ crlf ++ fields.flatMap fieldLine ++ crlf ++ body =
      line ++ cr :: lf :: (fields.flatMap fieldLine ++ crlf ++ body) := by
    simp [crlf]
  rw [fieldsOf, hsplit, splitOnPair_append lf hline, List.drop_one, List.tail_cons, hlines fields hfields,
    List.map_map]
  exact List.map_congr_left fun field hmem => fieldOf_text (hfields field hmem)

end

section
variable (lib : Library)

def hostFields (uri : Str) (headers : HeaderMap) : List Field :=
  if headers.contains host then []
  else
    match lib.parseUrl uri with
    | some parsed => [⟨utf8 "Host", hostText parsed⟩]
    | none => []

def originFields (headers : HeaderMap) : List Field := headers.iter.filter fun field => !isProxyAuthorization field

def proxyOnlyFields (headers proxyHeaders : HeaderMap) : List Field :=
  proxyHeaders.iter.filter fun field => !isProxyAuthorization field && !headers.contains field.name

def framingFields (body : RequestBody) (headers proxyHeaders : HeaderMap) : List Field :=
  if body.isChunked && !headers.contains transferEncoding && !proxyHeaders.contains transferEncoding then
    [⟨utf8 "Transfer-Encoding", utf8 "chunked"⟩]
  else []

def authFields (auth : Option ProxyAuth) : List Field :=
  match auth with
  | some auth => [⟨utf8 "Proxy-Authorization", auth.headerValue lib⟩]
  | none => []

/-- Everything that `write_proxy_request` writes as header fields. -/
def writtenFields (uri : Str) (headers : HeaderMap) (auth : Option ProxyAuth) (proxyHeaders : HeaderMap)
    (body : RequestBody) : List Field :=
  hostFields lib uri headers ++ originFields headers ++ proxyOnlyFields headers proxyHeaders ++
    framingFields body headers proxyHeaders ++ authFields lib auth

variable {lib} {method uri wire : Str} {version : Version} {headers proxyHeaders : HeaderMap}
  {auth : Option ProxyAuth} {body : RequestBody} (out : Str)

theorem pushHeaderLine_eq (field : Field) : pushHeaderLine out field = out ++ [field].flatMap fieldLine := by
  simp [pushHeaderLine, fieldLine]

theorem pushHost_eq : pushHost lib uri headers out = out ++ (hostFields lib uri headers).flatMap fieldLine := by
  unfold pushHost hostFields
  split
  · simp
  · cases lib.parseUrl uri with
    | some parsed => exact pushHeaderLine_eq out _
    | none => simp

/-- A fold that skips some fields writes the others. -/
theorem foldl_push (keep : Field → Bool) (fields : List Field) :
    fields.foldl (fun out field => if keep field then pushHeaderLine out field else out) out =
      out ++ (fields.filter keep).flatMap fieldLine := by
  induction fields generalizing out with
  | nil => simp
  | cons field fields ih =>
    rw [List.foldl_cons, ih, List.filter_cons]
    split
    · rw [pushHeaderLine_eq, List.append_assoc, ← List.flatMap_append]
      rfl
    · rfl

theorem pushHeaders_eq : pushHeaders headers out = out ++ (originFields headers).flatMap fieldLine := by
  rw [originFields, ← foldl_push out]
  unfold pushHeaders
  congr 1
  funext out field
  cases isProxyAuthorization field <;> rfl

theorem pushProxyHeaders_eq :
    pushProxyHeaders headers proxyHeaders out = out ++ (proxyOnlyFields headers proxyHeaders).flatMap fieldLine := by
  rw [proxyOnlyFields, ← foldl_push out]
  unfold pushProxyHeaders
  congr 1
  funext out field
  cases isProxyAuthorization field <;> cases headers.contains field.name <;> rfl

private theorem get_eq_none {name : Str} : headers.get name = none ↔ headers.contains name = false := by
  simp [HeaderMap.get, HeaderMap.contains]

private theorem pushTransferEncoding_ok {out' : Str}
    (h : pushTransferEncoding body.isChunked headers proxyHeaders out = .ok out') :
    out' = out ++ (framingFields body headers proxyHeaders).flatMap fieldLine := by
  unfold pushTransferEncoding at h
  unfold framingFields
  cases hchunked : body.isChunked with
  | false =>
    rw [hchunked] at h
    obtain rfl := Except.ok.inj h
    simp
  | true =>
    rw [hchunked, if_pos rfl] at h
    cases hheaders : headers.get transferEncoding with
    | some value =>
      have hcontains : headers.contains transferEncoding = true := by
        by_contra hnone
        cases hheaders.symm.trans (get_eq_none.mpr (by simpa using hnone))
      rw [hheaders, Option.some_or] at h
      dsimp only at h
      split at h
      · obtain rfl := Except.ok.inj h
        simp [hcontains]
      · cases h
    | none =>
      rw [hheaders, Option.none_or] at h
      cases hproxy : proxyHeaders.get transferEncoding with
      | some value =>
        have hcontains : proxyHeaders.contains transferEncoding = true := by
          by_contra hnone
          cases hproxy.symm.trans (get_eq_none.mpr (by simpa using hnone))
        rw [hproxy] at h
        dsimp only at h
        split at h
        · obtain rfl := Except.ok.inj h
          simp [hcontains]
        · cases h
      | none =>
        rw [hproxy] at h
        obtain rfl := Except.ok.inj h
        rw [pushHeaderLine_eq]
        simp [get_eq_none.mp hheaders, get_eq_none.mp hproxy]

private theorem pushTransferEncoding_coding {out' : Str}
    (h : pushTransferEncoding true headers proxyHeaders out = .ok out') :
    ∀ value ∈ (headers.get transferEncoding).or (proxyHeaders.get transferEncoding),
      eqIgnoreAsciiCase value (utf8 "chunked") = true := by
  intro value hvalue
  rw [pushTransferEncoding, if_pos rfl, Option.mem_def.mp hvalue] at h
  dsimp only at h
  split at h
  · assumption
  · cases h

private theorem pushProxyAuth_eq : pushProxyAuth lib auth out = out ++ (authFields lib auth).flatMap fieldLine := by
  cases auth with
  | none => simp [pushProxyAuth, authFields]
  | some auth => exact pushHeaderLine_eq out _

/-- The head is the request line and the fields. -/
theorem writeProxyRequest_ok (h : writeProxyRequest lib method uri version headers auth proxyHeaders body = .ok wire) :
    ∃ sent, wire = requestLine method uri version ++ crlf ++
        (writtenFields lib uri headers auth proxyHeaders body).flatMap fieldLine ++ crlf ++ sent ∧
      writeProxyBody body body.isChunked = .ok sent ∧
      (body.isChunked = true → ∀ value ∈ (headers.get transferEncoding).or (proxyHeaders.get transferEncoding),
        eqIgnoreAsciiCase value (utf8 "chunked") = true) := by
  unfold writeProxyRequest at h
  split at h
  · cases h
  · dsimp only [bind, Except.bind] at h
    split at h
    · cases h
    · rename_i out' hpush
      split at h
      · cases h
      · have hout := pushTransferEncoding_ok _ hpush
        cases hbody : writeProxyBody body body.isChunked with
        | error e =>
          rw [hbody] at h
          cases h
        | ok sent =>
          rw [hbody] at h
          obtain rfl := Except.ok.inj h
          refine ⟨sent, ?_, rfl, fun hchunked => pushTransferEncoding_coding _ (hchunked ▸ hpush)⟩
          rw [pushProxyAuth_eq, hout, pushProxyHeaders_eq, pushHeaders_eq, pushHost_eq, writtenFields]
          simp

end

/-- No text of the libraries has a line end: not a serialized URL, not a host, not an encoding. -/
structure Library.Clean (lib : Library) : Prop where
  asStr : ∀ url, cr ∉ lib.asStr url
  host : ∀ text parsed, lib.parseUrl text = some parsed → cr ∉ parsed.host.getD []
  base64 : ∀ s, cr ∉ lib.base64 s

section
variable {lib : Library} {method uri wire : Str} {version : Version} {headers proxyHeaders : HeaderMap}
  {auth : Option ProxyAuth} {body : RequestBody} {field : Field}

theorem get_token : validateHeaderName (utf8 "GET") = true := by decide

theorem contains_eq_false {name : Str} : headers.contains name = false ↔ ∀ field ∈ headers.iter, field.name ≠ name := by
  simp [HeaderMap.contains]

theorem cr_not_mem_of_validateTarget {target : Str} (h : validateTarget target = .ok ()) : cr ∉ target := by
  intro hmem
  unfold validateTarget at h
  split at h
  · cases h
  · split at h
    · cases h
    · rename_i hcontrols
      exact hcontrols (List.any_eq_true.mpr ⟨cr, hmem, by decide⟩)

theorem HeaderMap.clean (h : field ∈ headers.iter) : field.Clean where
  name_colon := fun hmem => (mem_of_validateHeaderName (headers.names_valid field h).1 hmem).2.2.2.2 rfl
  name_cr := fun hmem => (mem_of_validateHeaderName (headers.names_valid field h).1 hmem).2.2.1 rfl
  value_cr := fun hmem => (mem_of_validateHeaderValue (headers.values_valid field h) hmem).1 rfl

theorem HeaderMap.lower_eq (h : field ∈ headers.iter) : field.lower = field := by
  rw [Field.lower, (headers.names_valid field h).2]

private theorem cr_not_mem_withPort {name : Str} (h : cr ∉ name) (port : Option Nat) : cr ∉ withPort name port := by
  cases port with
  | none => exact h
  | some port =>
    have hcolon : cr ∉ utf8 ":" := by decide
    have hport : cr ∉ utf8 (toString port) := by
      intro hmem
      obtain ⟨c, hc, hnat⟩ := mem_utf8_ascii hmem (by decide)
      rw [Nat.toString_eq_repr, Nat.toList_repr] at hc
      have hdigit := Nat.isDigit_of_mem_toDigits (by decide) (by decide) hc
      have hcr : c = '\r' := by
        rw [← Char.ofNat_toNat c, hnat]
        rfl
      subst hcr
      cases hdigit
    simp only [withPort, List.mem_append, not_or]
    exact ⟨⟨h, hcolon⟩, hport⟩

private theorem written_clean (hlib : lib.Clean) (h : field ∈ writtenFields lib uri headers auth proxyHeaders body) :
    field.Clean := by
  simp only [writtenFields, List.mem_append] at h
  rcases h with (((hhost | horigin) | hproxy) | hframing) | hauth
  · unfold hostFields at hhost
    split at hhost
    · cases hhost
    · cases hparse : lib.parseUrl uri with
      | none =>
        rw [hparse] at hhost
        cases hhost
      | some parsed =>
        rw [hparse] at hhost
        obtain rfl := List.mem_singleton.mp hhost
        exact ⟨(by decide : colon ∉ utf8 "Host"), (by decide : cr ∉ utf8 "Host"),
          cr_not_mem_withPort (hlib.host uri parsed hparse) _⟩
  · exact HeaderMap.clean (List.mem_filter.mp horigin).1
  · exact HeaderMap.clean (List.mem_filter.mp hproxy).1
  · unfold framingFields at hframing
    split at hframing
    · obtain rfl := List.mem_singleton.mp hframing
      exact ⟨by decide, by decide, by decide⟩
    · cases hframing
  · cases auth with
    | none => cases hauth
    | some auth =>
      obtain rfl := List.mem_singleton.mp hauth
      cases auth with
      | basic username password =>
        have hbasic : cr ∉ utf8 "Basic " := by decide
        refine ⟨(by decide : colon ∉ utf8 "Proxy-Authorization"), (by decide : cr ∉ utf8 "Proxy-Authorization"), ?_⟩
        simp [ProxyAuth.headerValue, hbasic, hlib.base64]

/-- The fields that a request has on the wire are the ones that were written. -/
theorem fieldsOf_write (hlib : lib.Clean) (hmethod : validateHeaderName method = true) (huri : cr ∉ uri)
    (h : writeProxyRequest lib method uri version headers auth proxyHeaders body = .ok wire) :
    fieldsOf wire = (writtenFields lib uri headers auth proxyHeaders body).map Field.lower := by
  obtain ⟨sent, rfl, -⟩ := writeProxyRequest_ok h
  refine fieldsOf_lines ?_ (fun field hmem => written_clean hlib hmem) sent
  have hspace : cr ∉ utf8 " " := by decide
  have hversion : cr ∉ versionStr version := by cases version <;> decide
  have hname : cr ∉ method := fun hmem => (mem_of_validateHeaderName hmethod hmem).2.2.1 rfl
  simp [requestLine, hspace, hversion, hname, huri]

end

end Eggfetch.Proxy
