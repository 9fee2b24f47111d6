import Eggfetch.Http.Headers
import Eggfetch.Text.Ip
import Eggfetch.Text.Unique

/-! Errors of the `CONNECT` wire, header names, and targets in authority form. -/
namespace Eggfetch.HttpConnect
open Text Http

/-- Neutral `CONNECT` wire error. -/
inductive ConnectError where
  | invalidTarget
  | invalidHeader
  | invalidCredentials
  | duplicateAuthorization
  | reservedHeader
  | requestHeadTooLarge (len max : Nat)
  | io (text : Str)
  | malformedStatus
  | malformedHeader
  | statusLineTooLarge (max : Nat)
  | headerLineTooLarge (max : Nat)
  | responseHeadTooLarge (max : Nat)
  | tooManyHeaders (max : Nat)
  | unexpectedEof
  deriving DecidableEq, Repr

/-- HTTP `tchar`. -/
def isTokenByte (b : UInt8) : Bool :=
  isDigit b || (0x41 ≤ b && b ≤ 0x5a) || (0x61 ≤ b && b ≤ 0x7a) || (utf8 "!#$%&'*+-.^_\x60|~").contains b

def maxNameLen : Nat := 256

/-- Requests and responses check a name alike and report it by different errors. -/
def validateName (error : ConnectError) (name : Str) : Except ConnectError Unit :=
  if name.isEmpty ∨ maxNameLen < name.length then .error error
  else if name.all isTokenByte then .ok ()
  else .error error

theorem validateName_eq_ok {error : ConnectError} {name : Str} :
    validateName error name = .ok () ↔ validateHeaderName name = true ∧ name.length ≤ maxNameLen := by
  have hToken : validateHeaderName name = (!name.isEmpty && name.all isTokenByte) := rfl
  unfold validateName
  rw [hToken]
  split_ifs with hBad hAll
  · refine iff_of_false (by simp) fun hGood => ?_
    rcases hBad with hEmpty | hLong
    · simp [hEmpty] at hGood
    · exact absurd hGood.2 (Nat.not_le.mpr hLong)
  · obtain ⟨hNe, hLength⟩ := not_or.mp hBad
    exact iff_of_true rfl ⟨by simp [hNe, hAll], Nat.not_lt.mp hLength⟩
  · exact iff_of_false (by simp) (by simp [hAll])

def isControl (c : Char) : Bool := c.toNat ≤ 0x1f || (0x7f ≤ c.toNat && c.toNat ≤ 0x9f)

/-- The characters that `validate_host_inner` refuses in a host. -/
def isForbidden (c : Char) : Bool :=
  c == '\r' || c == '\n' || isControl c || c == ' ' || c == '\x7f' || ['/', '?', '#', '@'].contains c

def stripBrackets (host : List Char) : Option (List Char) :=
  if host.head? = some '[' ∧ host.getLast? = some ']' ∧ 2 ≤ host.length then some host.tail.dropLast else none

def bytesOf (text : List Char) : Str := utf8 (String.ofList text)

/-- `Ipv6Addr` parses what stands before a zone. -/
def isIpv6Literal (text : List Char) : Bool := (parseIpv6Addr (bytesOf (text.takeWhile (· != '%')))).isSome

def validateHostInner (host : List Char) : Except ConnectError Unit :=
  if host.isEmpty then .error .invalidTarget
  else if host.any isForbidden then .error .invalidTarget
  else if host.contains ':' && !isIpv6Literal host then .error .invalidTarget
  else .ok ()

def validateHost (host : List Char) : Except ConnectError Unit :=
  if host.isEmpty then .error .invalidTarget
  else if host.contains '[' || host.contains ']' then
    match stripBrackets host with
    | none => .error .invalidTarget
    | some inner =>
      if inner.isEmpty || inner.contains '[' || inner.contains ']' then .error .invalidTarget
      else validateHostInner inner
  else validateHostInner host

/-- A host and port that were validated. -/
structure ConnectTarget where
  host : List Char
  port : UInt16
  host_valid : validateHost host = .ok ()
  port_ne_zero : port ≠ 0

def ConnectTarget.new (host : List Char) (port : UInt16) : Except ConnectError ConnectTarget :=
  if hPort : port = 0 then .error .invalidTarget
  else
    match hHost : validateHost host with
    | .error e => .error e
    | .ok () => .ok ⟨host, port, hHost, hPort⟩

def decimalText (port : UInt16) : List Char := Nat.toDigits 10 port.toNat

def authorityForm (host : List Char) (port : UInt16) : List Char :=
  match stripBrackets host with
  | some inner => '[' :: inner ++ ']' :: ':' :: decimalText port
  | none =>
    if host.contains ':' then '[' :: host ++ ']' :: ':' :: decimalText port
    else host ++ ':' :: decimalText port

def ConnectTarget.authority (target : ConnectTarget) : List Char := authorityForm target.host target.port

/-- Text that an authority can hold: no control, space, delimiter or bracket. -/
def Clean (text : List Char) : Prop := ∀ c ∈ text, isForbidden c = false ∧ c ≠ '[' ∧ c ≠ ']'

/-- A registered name; an IPv4 literal is one. -/
structure RegisteredName (name : List Char) : Prop where
  ne_nil : name ≠ []
  clean : Clean name
  no_colon : ':' ∉ name

/-- An IPv6 literal, perhaps with a zone. -/
structure Ipv6Text (text : List Char) : Prop where
  literal : isIpv6Literal text = true
  clean : Clean text

/-- The hosts of an authority. -/
inductive HostForm : List Char → Prop
  | name {name : List Char} (h : RegisteredName name) : HostForm name
  | ipv6 {text : List Char} (h : Ipv6Text text) : HostForm ('[' :: text ++ [']'])

def BracketsName (host : List Char) : Prop := ∃ name, host = '[' :: name ++ [']'] ∧ RegisteredName name

variable {host inner : List Char} {port : UInt16}

theorem mem_of_mem_bytesOf {c : Char} {b : UInt8} {text : List Char} (h : b ∈ bytesOf text) (hAscii : b < 0x80)
    (hCode : b.toNat = c.toNat) : c ∈ text := by
  obtain ⟨c', hMem, hCode'⟩ := mem_utf8_ascii h hAscii
  rw [String.toList_ofList] at hMem
  rwa [Char.toNat_inj.mp (hCode'.trans hCode)] at hMem

theorem isIpv6Literal_colon (h : isIpv6Literal host = true) : ':' ∈ host := by
  by_contra hColon
  have hBytes : Ip.separator ∉ bytesOf (host.takeWhile (· != '%')) := by
    intro hMem
    have hPart : ':' ∈ host.takeWhile (· != '%') := mem_of_mem_bytesOf hMem (by decide) (by decide)
    exact hColon ((List.takeWhile_prefix _).subset hPart)
  rw [isIpv6Literal, parseIpv6Addr_colon hBytes] at h
  cases h

theorem stripBrackets_brackets (inner : List Char) : stripBrackets ('[' :: inner ++ [']']) = some inner := by
  have hLast : ('[' :: inner ++ [']']).getLast? = some ']' := List.getLast?_concat
  have hLength : 2 ≤ ('[' :: inner ++ [']']).length := by simp
  rw [stripBrackets, if_pos ⟨rfl, hLast, hLength⟩, List.cons_append, List.tail_cons, List.dropLast_concat]

theorem eq_of_stripBrackets (h : stripBrackets host = some inner) : host = '[' :: inner ++ [']'] := by
  unfold stripBrackets at h
  split_ifs at h with hShape
  obtain ⟨hHead, hLast, hLength⟩ := hShape
  obtain ⟨rest, rfl⟩ := List.head?_eq_some_iff.mp hHead
  have hNe : rest ≠ [] := by
    rintro rfl
    cases hLength
    contradiction
  obtain ⟨before, hBefore⟩ := List.getLast?_eq_some_iff.mp hLast
  have hRest : rest = rest.dropLast ++ [']'] := by
    cases before with
    | nil => cases hBefore
    | cons c before =>
      have hRest : rest = before ++ [']'] := (List.cons.inj hBefore).2
      rw [hRest, List.dropLast_concat]
  cases h
  rw [List.tail_cons, List.cons_append, ← hRest]

theorem validateHostInner_eq_ok :
    validateHostInner host = .ok () ↔
      host ≠ [] ∧ (∀ c ∈ host, isForbidden c = false) ∧ (':' ∈ host → isIpv6Literal host = true) := by
  unfold validateHostInner
  split_ifs with hEmpty hForbidden hColon
  · exact iff_of_false (by simp) fun h => h.1 (List.isEmpty_iff.mp hEmpty)
  · refine iff_of_false (by simp) fun h => ?_
    obtain ⟨c, hMem, hBad⟩ := List.any_eq_true.mp hForbidden
    rw [h.2.1 c hMem] at hBad
    cases hBad
  · refine iff_of_false (by simp) fun h => ?_
    simp only [Bool.and_eq_true, List.contains_iff_mem, Bool.not_eq_true'] at hColon
    rw [h.2.2 hColon.1] at hColon
    cases hColon.2
  · simp only [List.any_eq_true, not_exists, not_and, Bool.not_eq_true] at hForbidden
    refine iff_of_true rfl ⟨fun hNil => hEmpty (List.isEmpty_iff.mpr hNil), hForbidden, fun hMem => ?_⟩
    by_contra hLiteral
    exact hColon (by simp [hMem, hLiteral])

private theorem validateHostInner_cases (h : validateHostInner host = .ok ()) (hOpen : '[' ∉ host) (hClose : ']' ∉ host) :
    RegisteredName host ∨ Ipv6Text host := by
  obtain ⟨hNe, hForbidden, hLiteral⟩ := validateHostInner_eq_ok.mp h
  have hClean : Clean host := fun c hMem =>
    ⟨hForbidden c hMem, fun hEq => hOpen (hEq ▸ hMem), fun hEq => hClose (hEq ▸ hMem)⟩
  by_cases hColon : ':' ∈ host
  · exact .inr ⟨hLiteral hColon, hClean⟩
  · exact .inl ⟨hNe, hClean, hColon⟩

/-- The hosts that are accepted. -/
theorem validateHost_cases (h : validateHost host = .ok ()) :
    RegisteredName host ∨ Ipv6Text host ∨ ∃ inner, host = '[' :: inner ++ [']'] ∧ (Ipv6Text inner ∨ RegisteredName inner) := by
  unfold validateHost at h
  split_ifs at h with hEmpty hBrackets
  · cases hStrip : stripBrackets host with
    | none =>
      rw [hStrip] at h
      cases h
    | some inner =>
      rw [hStrip] at h
      dsimp only at h
      split_ifs at h with hBad
      simp only [Bool.or_eq_true, List.contains_iff_mem, not_or] at hBad
      refine .inr (.inr ⟨inner, eq_of_stripBrackets hStrip, ?_⟩)
      exact (validateHostInner_cases h hBad.1.2 hBad.2).symm
  · simp only [Bool.or_eq_true, List.contains_iff_mem, not_or] at hBrackets
    rcases validateHostInner_cases h hBrackets.1 hBrackets.2 with hName | hLiteral
    · exact .inl hName
    · exact .inr (.inl hLiteral)

/-- Brackets around a name are accepted too. -/
theorem validateHost_brackets (h : BracketsName host) : validateHost host = .ok () := by
  obtain ⟨name, rfl, hNe, hClean, hColon⟩ := h
  have hInner : validateHostInner name = .ok () :=
    validateHostInner_eq_ok.mpr ⟨hNe, fun c hMem => (hClean c hMem).1, fun hMem => absurd hMem hColon⟩
  have hOpen : '[' ∉ name := fun hMem => (hClean _ hMem).2.1 rfl
  have hClose : ']' ∉ name := fun hMem => (hClean _ hMem).2.2 rfl
  unfold validateHost
  rw [stripBrackets_brackets]
  simp [hNe, hOpen, hClose, hInner]

theorem Clean.stripBrackets (h : Clean host) : stripBrackets host = none := by
  cases hStrip : HttpConnect.stripBrackets host with
  | none => rfl
  | some inner =>
    have hHost := eq_of_stripBrackets hStrip
    have hMem : '[' ∈ host := by
      rw [hHost]
      exact List.mem_cons_self
    exact absurd rfl (h _ hMem).2.1

/-- The authority is a host, brackets put around a bare IPv6 literal, and the port. -/
theorem authorityForm_cases (h : validateHost host = .ok ()) :
    BracketsName host ∨
      ∃ shown, HostForm shown ∧ (shown = host ∨ shown = '[' :: host ++ [']']) ∧
        authorityForm host port = shown ++ ':' :: decimalText port := by
  rcases validateHost_cases h with hName | hLiteral | ⟨inner, rfl, hLiteral | hName⟩
  · refine .inr ⟨host, .name hName, .inl rfl, ?_⟩
    rw [authorityForm, hName.clean.stripBrackets]
    simp [hName.no_colon]
  · refine .inr ⟨_, .ipv6 hLiteral, .inr rfl, ?_⟩
    rw [authorityForm, hLiteral.clean.stripBrackets]
    simp [isIpv6Literal_colon hLiteral.literal]
  · refine .inr ⟨_, .ipv6 hLiteral, .inl rfl, ?_⟩
    rw [authorityForm, stripBrackets_brackets]
    simp
  · exact .inl ⟨inner, rfl, hName⟩

private theorem colon_not_mem_decimalText (port : UInt16) : ':' ∉ decimalText port := by
  intro hMem
  have hDigit := Nat.isDigit_of_mem_toDigits (by decide) (by decide) hMem
  revert hDigit
  decide

/-- An authority tells its host and its port. -/
theorem authority_inj {shown shown' : List Char} {port' : UInt16}
    (h : shown ++ ':' :: decimalText port = shown' ++ ':' :: decimalText port') : shown = shown' ∧ port = port' := by
  obtain ⟨hShown, hPort⟩ := (append_last_sep_inj (colon_not_mem_decimalText port) (colon_not_mem_decimalText port')).mp h
  exact ⟨hShown, UInt16.toNat_inj.mp ((toDigits_inj (by decide) (by decide)).mp hPort)⟩

end Eggfetch.HttpConnect
