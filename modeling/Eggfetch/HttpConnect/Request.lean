import Eggfetch.HttpConnect.Target
import Eggfetch.Proxy.RequestHead

/-! The encoder of a `CONNECT` request, and what a parser finds in its bytes. -/
namespace Eggfetch.HttpConnect
open Text Http
open Proxy (cr lf crlf colon trimOws RequestHead parseRequestHead)

structure ConnectRequest where
  target : ConnectTarget
  proxyAuthorization : Option Str
  extraHeaders : List (Str × Str)
  maxHeadBytes : Nat

def validateHeaderName (name : Str) : Except ConnectError Unit := validateName .invalidHeader name

def isFramingControl (b : UInt8) : Bool := b ≤ 0x08 || (0x0a ≤ b && b ≤ 0x1f) || b == 0x7f

def refuseIf (bad : Bool) (error : ConnectError) : Except ConnectError Unit := if bad then .error error else .ok ()

def validateHeaderValueBytes (value : Str) : Except ConnectError Unit := refuseIf (value.any isFramingControl) .invalidHeader

def usizeMax : Nat := 2 ^ 64 - 1

/-- `checked_add`, and the check of the sum. -/
def addLength (max len chunk : Nat) : Except ConnectError Nat :=
  if usizeMax < len + chunk then .error (.requestHeadTooLarge usizeMax max)
  else if max < len + chunk then .error (.requestHeadTooLarge (len + chunk) max)
  else .ok (len + chunk)

def isNamed (name : Str) (header : Str × Str) : Bool := eqIgnoreAsciiCase header.1 name

def isProxyAuthorization : Str × Str → Bool := isNamed (utf8 "proxy-authorization")

def isHost : Str × Str → Bool := isNamed (utf8 "host")

/-- Checks the extra headers and counts the authorizations among them. -/
def countAuthorizations : List (Str × Str) → Nat → Except ConnectError Nat
  | [], count => .ok count
  | header :: rest, count => do
    validateHeaderName header.1
    validateHeaderValueBytes header.2
    refuseIf (isHost header) .reservedHeader
    countAuthorizations rest (if isProxyAuthorization header then count + 1 else count)

def requestLineText (authority : Str) : Str := utf8 "CONNECT " ++ authority ++ utf8 " HTTP/1.1\r\n"

def hostLineText (authority : Str) : Str := utf8 "Host: " ++ authority ++ utf8 "\r\n"

def authorizationText : Option Str → Str
  | some auth => utf8 "Proxy-Authorization: " ++ auth ++ utf8 "\r\n"
  | none => []

def headerText (header : Str × Str) : Str := header.1 ++ utf8 ": " ++ header.2 ++ utf8 "\r\n"

def chunkLengths (request : ConnectRequest) (authority : Str) : List Nat :=
  [(requestLineText authority).length, (hostLineText authority).length,
    request.proxyAuthorization.elim 0 fun auth => (utf8 "Proxy-Authorization: ").length + auth.length + 2] ++
  request.extraHeaders.map (fun header => header.1.length + (2 + header.2.length + 2)) ++ [2]

def encodeConnectRequest (request : ConnectRequest) : Except ConnectError Str := do
  let authority := bytesOf request.target.authority
  request.proxyAuthorization.elim (.ok ()) validateHeaderValueBytes
  let count ← countAuthorizations request.extraHeaders 0
  refuseIf (request.proxyAuthorization.isSome && 0 < count) .duplicateAuthorization
  refuseIf (1 < count) .duplicateAuthorization
  let _ ← (chunkLengths request authority).foldlM (addLength request.maxHeadBytes) 0
  pure (requestLineText authority ++ hostLineText authority ++ authorizationText request.proxyAuthorization ++
    request.extraHeaders.flatMap headerText ++ utf8 "\r\n")

section
variable {request : ConnectRequest} {bytes : Str} {headers : List (Str × Str)}

theorem bind_eq_ok {α β : Type} {x : Except ConnectError α} {f : α → Except ConnectError β} {b : β} :
    (x >>= f) = .ok b ↔ ∃ a, x = .ok a ∧ f a = .ok b := by
  cases x with
  | error e => simp [bind, Except.bind]
  | ok a => simp [bind, Except.bind]

theorem refuseIf_eq_ok {bad : Bool} {error : ConnectError} {u : Unit} : refuseIf bad error = .ok u ↔ bad = false := by
  cases bad <;> simp [refuseIf]

theorem validateHeaderValueBytes_ok {value : Str} {u : Unit} (h : validateHeaderValueBytes value = .ok u) :
    ∀ b ∈ value, isFramingControl b = false := by
  have hNone := refuseIf_eq_ok.mp h
  simpa using hNone

theorem countAuthorizations_ok {count total : Nat} (h : countAuthorizations headers count = .ok total) :
    (∀ header ∈ headers, Http.validateHeaderName header.1 = true ∧ (∀ b ∈ header.2, isFramingControl b = false) ∧
        isHost header = false) ∧ total = count + (headers.filter isProxyAuthorization).length := by
  induction headers generalizing count with
  | nil =>
    cases h
    simp
  | cons header rest ih =>
    rw [countAuthorizations] at h
    obtain ⟨_, hName, h⟩ := bind_eq_ok.mp h
    obtain ⟨_, hValue, h⟩ := bind_eq_ok.mp h
    obtain ⟨_, hHost, h⟩ := bind_eq_ok.mp h
    obtain ⟨hRest, hTotal⟩ := ih h
    have hFirst := And.intro (validateHeaderValueBytes_ok hValue) (refuseIf_eq_ok.mp hHost)
    refine ⟨List.forall_mem_cons.mpr ⟨⟨(validateName_eq_ok.mp hName).1, hFirst⟩, hRest⟩, ?_⟩
    rw [hTotal, List.filter_cons]
    split_ifs with hAuth
    · rw [List.length_cons]
      omega
    · rfl

theorem foldlM_addLength {max len total : Nat} {chunks : List Nat} (h : chunks.foldlM (addLength max) len = .ok total)
    (hLen : len ≤ max) : total = len + chunks.sum ∧ total ≤ max := by
  induction chunks generalizing len with
  | nil =>
    cases h
    exact ⟨rfl, hLen⟩
  | cons chunk chunks ih =>
    rw [List.foldlM_cons] at h
    obtain ⟨next, hNext, h⟩ := bind_eq_ok.mp h
    unfold addLength at hNext
    split_ifs at hNext with hOverflow hMax
    cases hNext
    obtain ⟨hTotal, hFits⟩ := ih h (Nat.not_lt.mp hMax)
    refine ⟨?_, hFits⟩
    rw [hTotal, List.sum_cons, Nat.add_assoc]

def headText (request : ConnectRequest) (authority : Str) : Str :=
  requestLineText authority ++ hostLineText authority ++ authorizationText request.proxyAuthorization ++
    request.extraHeaders.flatMap headerText ++ utf8 "\r\n"

private theorem length_headText (request : ConnectRequest) (authority : Str) :
    (headText request authority).length = (chunkLengths request authority).sum := by
  have hAuth : (authorizationText request.proxyAuthorization).length =
      request.proxyAuthorization.elim 0 fun auth => (utf8 "Proxy-Authorization: ").length + auth.length + 2 := by
    cases request.proxyAuthorization with
    | none => rfl
    | some auth => simp only [authorizationText, List.length_append, Option.elim_some]; rfl
  have hHeaders : (request.extraHeaders.flatMap headerText).length =
      (request.extraHeaders.map fun header => header.1.length + (2 + header.2.length + 2)).sum := by
    rw [List.length_flatMap]
    congr 2
    funext header
    have hColon : (utf8 ": ").length = 2 := by decide
    have hEnd : (utf8 "\r\n").length = 2 := by decide
    simp only [headerText, List.length_append, hColon, hEnd]
    omega
  have hEnd : (utf8 "\r\n").length = 2 := by decide
  simp only [headText, chunkLengths, List.length_append, List.sum_append, hAuth, hHeaders, List.sum_cons, List.sum_nil, hEnd]
  omega

/-- What a request that is encoded has passed. -/
structure Encodable (request : ConnectRequest) : Prop where
  auth_value : ∀ auth ∈ request.proxyAuthorization, ∀ b ∈ auth, isFramingControl b = false
  headers : ∀ header ∈ request.extraHeaders,
    Http.validateHeaderName header.1 = true ∧ (∀ b ∈ header.2, isFramingControl b = false) ∧ isHost header = false
  auth_once : (request.extraHeaders.filter isProxyAuthorization).length ≤ 1
  auth_alone : request.proxyAuthorization.isSome → request.extraHeaders.filter isProxyAuthorization = []

theorem encodeConnectRequest_ok (h : encodeConnectRequest request = .ok bytes) :
    Encodable request ∧ bytes = headText request (bytesOf request.target.authority) ∧
      bytes.length ≤ request.maxHeadBytes := by
  unfold encodeConnectRequest at h
  dsimp only at h
  obtain ⟨_, hAuth, h⟩ := bind_eq_ok.mp h
  obtain ⟨count, hCount, h⟩ := bind_eq_ok.mp h
  obtain ⟨_, hAlone, h⟩ := bind_eq_ok.mp h
  obtain ⟨_, hOnce, h⟩ := bind_eq_ok.mp h
  obtain ⟨total, hTotal, h⟩ := bind_eq_ok.mp h
  cases h
  obtain ⟨hHeaders, hCount⟩ := countAuthorizations_ok hCount
  rw [Nat.zero_add] at hCount
  obtain ⟨hSum, hFits⟩ := foldlM_addLength hTotal (Nat.zero_le _)
  have hOnce := refuseIf_eq_ok.mp hOnce
  have hAlone := refuseIf_eq_ok.mp hAlone
  simp only [decide_eq_false_iff_not, Nat.not_lt, Bool.and_eq_false_iff, Nat.le_zero] at hOnce hAlone
  refine ⟨⟨?_, hHeaders, by omega, ?_⟩, rfl, ?_⟩
  · intro auth hSome
    rw [Option.mem_def.mp hSome] at hAuth
    exact validateHeaderValueBytes_ok hAuth
  · intro hSome
    rw [hSome] at hAlone
    simp only [Bool.true_eq_false, false_or] at hAlone
    exact List.eq_nil_of_length_eq_zero (by omega)
  · change (headText request (bytesOf request.target.authority)).length ≤ _
    rw [length_headText, ← Nat.zero_add (List.sum _), ← hSum]
    exact hFits

end

def writtenFields (request : ConnectRequest) (authority : Str) : List (Str × Str) :=
  (utf8 "Host", authority) :: (request.proxyAuthorization.toList.map fun auth => (utf8 "Proxy-Authorization", auth)) ++
    request.extraHeaders

/-- `target` is the authority of a host and a port. -/
def SplitsAs (target : Str) (shown : List Char) (port : UInt16) : Prop :=
  HostForm shown ∧ target = bytesOf (shown ++ ':' :: decimalText port)

/-- A parser finds one `CONNECT` head in `bytes`: its target can be split in one way, into the host,
in brackets if it is a bare IPv6 literal, and the port. -/
structure ParsesAs (host : List Char) (port : UInt16) (request : ConnectRequest) (bytes : Str) (head : RequestHead)
    (shown : List Char) : Prop where
  parsed : parseRequestHead bytes = some (head, [])
  method : head.method = utf8 "CONNECT"
  version : head.version = utf8 "HTTP/1.1"
  target : SplitsAs head.target shown port
  target_host : shown = host ∨ shown = '[' :: host ++ [']']
  target_unique : ∀ shown' port', SplitsAs head.target shown' port' → shown' = shown ∧ port' = port
  fields : head.fields = (writtenFields request head.target).map Proxy.trimmed
  host_once : (head.fields.filter isHost).map Prod.snd = [head.target]
  auth_once : (head.fields.filter isProxyAuthorization).length ≤ 1
  length : bytes.length ≤ request.maxHeadBytes

section
variable {host shown : List Char} {port : UInt16} {request : ConnectRequest} {bytes authority : Str}

private theorem isForbidden_of_isDigit {c : Char} (h : c.isDigit = true) : isForbidden c = false := by
  have hRange : 0x30 ≤ c.toNat ∧ c.toNat ≤ 0x39 := by
    simpa [Char.isDigit, UInt32.le_iff_toNat_le] using h
  have hNe (d : Char) (hOut : d.toNat < 0x30 ∨ 0x39 < d.toNat) : c ≠ d := by
    rintro rfl
    omega
  have hControl : isControl c = false := by
    simp only [isControl, Bool.or_eq_false_iff, Bool.and_eq_false_iff, decide_eq_false_iff_not]
    omega
  simp only [isForbidden, hControl, List.contains_cons, List.contains_nil, Bool.or_eq_false_iff, beq_eq_false_iff_ne]
  refine ⟨⟨⟨⟨⟨?_, ?_⟩, trivial⟩, ?_⟩, ?_⟩, ?_, ?_, ?_, ?_, trivial⟩
  all_goals exact hNe _ (by decide)

theorem HostForm.not_forbidden (h : HostForm shown) (port : UInt16) :
    ∀ c ∈ shown ++ ':' :: decimalText port, isForbidden c = false := by
  intro c hMem
  rcases List.mem_append.mp hMem with hShown | hPort
  · cases h with
    | name hName => exact (hName.clean c hShown).1
    | ipv6 hLiteral =>
      simp only [List.cons_append, List.mem_cons, List.mem_append, List.not_mem_nil, or_false] at hShown
      rcases hShown with rfl | hText | rfl
      · rfl
      · exact (hLiteral.clean c hText).1
      · rfl
  · rcases List.mem_cons.mp hPort with rfl | hDigits
    · rfl
    · exact isForbidden_of_isDigit (Nat.isDigit_of_mem_toDigits (by decide) (by decide) hDigits)

private theorem bytesOf_clean {text : List Char} (h : ∀ c ∈ text, isForbidden c = false) {b : UInt8} (hb : b ∈ bytesOf text) :
    b ≠ cr ∧ b ≠ lf ∧ b ≠ 0x20 ∧ b ≠ 0x09 := by
  have hNe (c : Char) (hAscii : c.toNat < 0x80) (hBad : isForbidden c = true) : b.toNat ≠ c.toNat := by
    intro hCode
    have hByte : b < 0x80 := by
      rw [UInt8.lt_iff_toNat_lt, hCode]
      exact hAscii
    have hGood := h c (mem_of_mem_bytesOf hb hByte hCode)
    rw [hBad] at hGood
    cases hGood
  refine ⟨?_, ?_, ?_, ?_⟩
  · rintro rfl
    exact hNe '\r' (by decide) (by decide) rfl
  · rintro rfl
    exact hNe '\n' (by decide) (by decide) rfl
  · rintro rfl
    exact hNe ' ' (by decide) (by decide) rfl
  · rintro rfl
    exact hNe '\t' (by decide) (by decide) rfl

theorem headText_eq (request : ConnectRequest) (authority : Str) :
    headText request authority = Proxy.startLine (utf8 "CONNECT") authority (utf8 "HTTP/1.1") ++ crlf ++
      (((writtenFields request authority).map Proxy.fieldText).flatMap (· ++ crlf) ++ (crlf ++ [])) := by
  have hEnd : utf8 "\r\n" = crlf := by decide
  have hColon : utf8 ": " = [colon, 0x20] := by decide
  have hLine : requestLineText authority = Proxy.startLine (utf8 "CONNECT") authority (utf8 "HTTP/1.1") ++ crlf := by
    have hMethod : utf8 "CONNECT " = utf8 "CONNECT" ++ [0x20] := by decide
    have hVersion : utf8 " HTTP/1.1\r\n" = 0x20 :: (utf8 "HTTP/1.1" ++ crlf) := by decide
    simp [requestLineText, Proxy.startLine, hMethod, hVersion]
  have hHost : hostLineText authority = Proxy.fieldText (utf8 "Host", authority) ++ crlf := by
    have hName : utf8 "Host: " = utf8 "Host" ++ [colon, 0x20] := by decide
    simp [hostLineText, Proxy.fieldText, hName, hEnd]
  have hAuth : authorizationText request.proxyAuthorization =
      ((request.proxyAuthorization.toList.map fun auth => (utf8 "Proxy-Authorization", auth)).map
        Proxy.fieldText).flatMap (· ++ crlf) := by
    have hName : utf8 "Proxy-Authorization: " = utf8 "Proxy-Authorization" ++ [colon, 0x20] := by decide
    cases request.proxyAuthorization with
    | none => rfl
    | some auth => simp [authorizationText, Proxy.fieldText, hName, hEnd]
  have hHeaders : request.extraHeaders.flatMap headerText =
      (request.extraHeaders.map Proxy.fieldText).flatMap (· ++ crlf) := by
    rw [List.flatMap_map]
    congr 1
    funext header
    simp [headerText, Proxy.fieldText, hColon, hEnd]
  rw [headText, hLine, hHost, hAuth, hHeaders, hEnd, writtenFields]
  simp only [List.cons_append, List.map_cons, List.map_append, List.flatMap_cons, List.flatMap_append, List.append_assoc,
    List.append_nil]

private theorem isLine_value {value : Str} (h : ∀ b ∈ value, isFramingControl b = false) : Proxy.isLine value = true := by
  refine Proxy.isLine_iff.mpr ⟨fun hMem => ?_, fun hMem => ?_⟩
  · have hControl := h cr hMem
    revert hControl
    decide
  · have hControl := h lf hMem
    revert hControl
    decide

private theorem writtenFields_valid (h : Encodable request) (hAuthority : Proxy.isLine authority = true) :
    ∀ field ∈ writtenFields request authority, Http.validateHeaderName field.1 = true ∧ Proxy.isLine field.2 = true := by
  intro field hMem
  simp only [writtenFields, List.mem_append, List.mem_cons, List.mem_map, Option.mem_toList] at hMem
  rcases hMem with (rfl | ⟨auth, hAuth, rfl⟩) | hExtra
  · have hName : Http.validateHeaderName (utf8 "Host") = true := by decide
    exact ⟨hName, hAuthority⟩
  · have hName : Http.validateHeaderName (utf8 "Proxy-Authorization") = true := by decide
    exact ⟨hName, isLine_value (h.auth_value auth hAuth)⟩
  · obtain ⟨hName, hValue, -⟩ := h.headers field hExtra
    exact ⟨hName, isLine_value hValue⟩

private theorem filter_isHost (h : Encodable request) (authority : Str) :
    (writtenFields request authority).filter isHost = [(utf8 "Host", authority)] := by
  have hNames : eqIgnoreAsciiCase (utf8 "Host") (utf8 "host") = true ∧
      eqIgnoreAsciiCase (utf8 "Proxy-Authorization") (utf8 "host") = false := by decide
  have hHost : isHost (utf8 "Host", authority) = true := hNames.1
  have hAuth : ∀ field ∈ request.proxyAuthorization.toList.map (fun auth => (utf8 "Proxy-Authorization", auth)),
      isHost field = false := by
    intro field hMem
    obtain ⟨auth, -, rfl⟩ := List.mem_map.mp hMem
    exact hNames.2
  have hExtra : ∀ field ∈ request.extraHeaders, isHost field = false := fun field hMem => (h.headers field hMem).2.2
  rw [writtenFields, List.cons_append, List.filter_cons, if_pos hHost, List.filter_append]
  rw [List.filter_eq_nil_iff.mpr fun field hMem => by simp [hAuth field hMem]]
  rw [List.filter_eq_nil_iff.mpr fun field hMem => by simp [hExtra field hMem]]
  rfl

private theorem filter_isProxyAuthorization (h : Encodable request) (authority : Str) :
    ((writtenFields request authority).filter isProxyAuthorization).length ≤ 1 := by
  have hNames : eqIgnoreAsciiCase (utf8 "Host") (utf8 "proxy-authorization") = false ∧
      eqIgnoreAsciiCase (utf8 "Proxy-Authorization") (utf8 "proxy-authorization") = true := by decide
  have hHost : isProxyAuthorization (utf8 "Host", authority) = false := hNames.1
  have hAuthField (auth : Str) : isProxyAuthorization (utf8 "Proxy-Authorization", auth) = true := hNames.2
  rw [writtenFields, List.cons_append, List.filter_cons_of_neg (by simp [hHost]), List.filter_append, List.length_append]
  cases hAuth : request.proxyAuthorization with
  | none =>
    have hOnce := h.auth_once
    simpa using hOnce
  | some auth =>
    have hAlone := h.auth_alone (by rw [hAuth]; rfl)
    simp [hAlone, hAuthField]

private theorem filter_parsed (name : Str) (fields : List (Str × Str)) :
    (fields.map Proxy.trimmed).filter (isNamed name) = (fields.filter (isNamed name)).map Proxy.trimmed := by
  rw [List.filter_map]
  rfl

theorem encodeConnectRequest_parsesAs (h : encodeConnectRequest request = .ok bytes)
    (hName : ¬ BracketsName request.target.host) :
    ∃ head shown, ParsesAs request.target.host request.target.port request bytes head shown := by
  obtain ⟨hEncodable, rfl, hLength⟩ := encodeConnectRequest_ok h
  have hCases : BracketsName request.target.host ∨ ∃ shown, HostForm shown ∧
      (shown = request.target.host ∨ shown = '[' :: request.target.host ++ [']']) ∧
      authorityForm request.target.host request.target.port =
        shown ++ ':' :: decimalText request.target.port :=
    authorityForm_cases request.target.host_valid
  rcases hCases with hBad | hGood
  · exact absurd hBad hName
  obtain ⟨shown, hForm, hHost, hAuthority⟩ := hGood
  have hAuthority : bytesOf request.target.authority = bytesOf (shown ++ ':' :: decimalText request.target.port) := by
    rw [ConnectTarget.authority, hAuthority]
  have hClean : ∀ b ∈ bytesOf request.target.authority, b ≠ cr ∧ b ≠ lf ∧ b ≠ 0x20 ∧ b ≠ 0x09 := by
    rw [hAuthority]
    exact fun b hMem => bytesOf_clean (hForm.not_forbidden request.target.port) hMem
  generalize hTarget : bytesOf request.target.authority = authority at *
  have hIsLine : Proxy.isLine authority = true :=
    Proxy.isLine_iff.mpr ⟨fun hMem => (hClean cr hMem).1 rfl, fun hMem => (hClean lf hMem).2.1 rfl⟩
  have hSpace : 0x20 ∉ authority := fun hMem => (hClean 0x20 hMem).2.2.1 rfl
  have hTrim : trimOws authority = authority := by
    refine Proxy.trimOws_of_no_ows fun b hMem => ?_
    simp [Proxy.isOws, (hClean b hMem).2.2]
  have hMethod : (0x20 : UInt8) ∉ utf8 "CONNECT" ∧ Proxy.isLine (utf8 "CONNECT") = true := by decide
  have hVersion : (0x20 : UInt8) ∉ utf8 "HTTP/1.1" ∧ Proxy.isLine (utf8 "HTTP/1.1") = true := by decide
  have hLine := Proxy.isLine_startLine.mpr ⟨hMethod.2, hIsLine, hVersion.2⟩
  have hParsed :=
    Proxy.parseRequestHead_eq hMethod.1 hSpace hVersion.1 hLine (writtenFields_valid hEncodable hIsLine) []
  rw [← headText_eq] at hParsed
  refine ⟨_, shown, hParsed, rfl, rfl, ⟨hForm, hAuthority⟩, hHost, ?_, rfl, ?_, ?_, hLength⟩
  · rintro shown' port' ⟨-, hSplit⟩
    have hText := String.ofList_inj.mp (utf8_inj.mp (hSplit.symm.trans hAuthority))
    exact authority_inj hText
  · have hHosts := filter_parsed (utf8 "host") (writtenFields request authority)
    rw [← isHost, filter_isHost hEncodable] at hHosts
    simp [hHosts, Proxy.trimmed, hTrim]
  · have hAuths := filter_parsed (utf8 "proxy-authorization") (writtenFields request authority)
    rw [← isProxyAuthorization] at hAuths
    rw [hAuths, List.length_map]
    exact filter_isProxyAuthorization hEncodable authority

def MalformedBrackets (host : List Char) : Prop :=
  ('[' ∈ host ∨ ']' ∈ host) ∧ ¬ ∃ inner, host = '[' :: inner ++ [']'] ∧ Ipv6Text inner

/-- Each request to a host that is accepted and encoded parses as meant, and malformed brackets are
refused. -/
def ConnectsTo (host : List Char) (port : UInt16) (auth : Option Str) (extra : List (Str × Str)) (max : Nat) : Prop :=
  (∀ target bytes, ConnectTarget.new host port = .ok target → encodeConnectRequest ⟨target, auth, extra, max⟩ = .ok bytes →
    ∃ head shown, ParsesAs host port ⟨target, auth, extra, max⟩ bytes head shown) ∧
  (MalformedBrackets host → ∃ e, ConnectTarget.new host port = .error e)

variable {target : ConnectTarget}

theorem ConnectTarget.new_eq_ok (h : ConnectTarget.new host port = .ok target) :
    target.host = host ∧ target.port = port ∧ port ≠ 0 := by
  unfold ConnectTarget.new at h
  split_ifs at h with hPort
  split at h
  · cases h
  · cases h
    exact ⟨rfl, rfl, hPort⟩

theorem ConnectTarget.new_error (h : ∀ target, ConnectTarget.new host port ≠ .ok target) :
    ∃ e, ConnectTarget.new host port = .error e := by
  cases hNew : ConnectTarget.new host port with
  | error e => exact ⟨e, rfl⟩
  | ok target => exact absurd hNew (h target)

theorem Clean.no_brackets {text : List Char} (h : Clean text) : '[' ∉ text ∧ ']' ∉ text :=
  ⟨fun hMem => (h _ hMem).2.1 rfl, fun hMem => (h _ hMem).2.2 rfl⟩

/-- An accepted host has no brackets, or brackets around an IPv6 literal, or brackets around a name. -/
theorem not_malformedBrackets (h : validateHost host = .ok ()) (hName : ¬ BracketsName host) :
    ¬ MalformedBrackets host := by
  rintro ⟨hBrackets, hNone⟩
  rcases validateHost_cases h with hGood | hGood | ⟨inner, hHost, hGood | hGood⟩
  · exact hBrackets.elim hGood.clean.no_brackets.1 hGood.clean.no_brackets.2
  · exact hBrackets.elim hGood.clean.no_brackets.1 hGood.clean.no_brackets.2
  · exact hNone ⟨inner, hHost, hGood⟩
  · exact hName ⟨inner, hHost, hGood⟩

theorem BracketsName.malformed (h : BracketsName host) : MalformedBrackets host := by
  obtain ⟨name, rfl, hName⟩ := h
  refine ⟨.inl List.mem_cons_self, ?_⟩
  rintro ⟨inner, hHost, hLiteral⟩
  have hSame : stripBrackets ('[' :: name ++ [']']) = some inner := by rw [hHost, stripBrackets_brackets]
  rw [stripBrackets_brackets] at hSame
  cases hSame
  exact hName.no_colon (isIpv6Literal_colon hLiteral.literal)

/-- Brackets around a name are accepted, with any port but 0. -/
theorem BracketsName.not_error (h : BracketsName host) (hPort : port ≠ 0) : ¬ ∃ e, ConnectTarget.new host port = .error e := by
  rintro ⟨e, hError⟩
  have hValid := validateHost_brackets h
  unfold ConnectTarget.new at hError
  rw [dif_neg hPort] at hError
  split at hError
  · rename_i hHost
    rw [hValid] at hHost
    cases hHost
  · cases hError

theorem connectsTo_iff (host : List Char) (port : UInt16) (auth : Option Str) (extra : List (Str × Str)) (max : Nat) :
    ConnectsTo host port auth extra max ↔ port = 0 ∨ ¬ BracketsName host := by
  constructor
  · rintro ⟨-, hRefused⟩
    by_contra hBad
    obtain ⟨hPort, hName⟩ := not_or.mp hBad
    have hName := not_not.mp hName
    exact hName.not_error hPort (hRefused hName.malformed)
  · intro hGood
    constructor
    · intro target bytes hNew hEncode
      obtain ⟨rfl, rfl, hPort⟩ := ConnectTarget.new_eq_ok hNew
      exact encodeConnectRequest_parsesAs hEncode (hGood.resolve_left hPort)
    · intro hMalformed
      refine ConnectTarget.new_error fun target hNew => ?_
      obtain ⟨rfl, rfl, hPort⟩ := ConnectTarget.new_eq_ok hNew
      exact not_malformedBrackets target.host_valid (hGood.resolve_left hPort) hMalformed

/-- `[example.com]:443` is accepted. -/
theorem not_connectsTo : ¬ ∀ host port auth extra max, ConnectsTo host port auth extra max := by
  intro hAll
  have hAllClean : "example.com".toList.all (fun c => !isForbidden c && c != '[' && c != ']') = true := by decide
  have hClean : ∀ c ∈ "example.com".toList, isForbidden c = false ∧ c ≠ '[' ∧ c ≠ ']' := by
    intro c hMem
    simpa [and_assoc] using List.all_eq_true.mp hAllClean c hMem
  have hColon : ':' ∉ "example.com".toList := by decide
  have hNe : "example.com".toList ≠ [] := by decide
  have hName : BracketsName ('[' :: "example.com".toList ++ [']']) := ⟨_, rfl, hNe, hClean, hColon⟩
  exact hName.not_error (by decide : (443 : UInt16) ≠ 0) ((hAll _ 443 none [] 65536).2 hName.malformed)

end

end Eggfetch.HttpConnect
