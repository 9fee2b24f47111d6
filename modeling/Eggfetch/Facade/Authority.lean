import Eggfetch.Facade.Client
import Eggfetch.Facade.Urls

/-! The authority of a URL, and the `Host` header that the facade makes of it. -/
namespace Eggfetch.Facade.Urls
open Text

def isRegNameChar (c : Char) : Bool := c.isAlphanum || "-._~%!$&'()*+,;=".toList.contains c

def isAddressChar (c : Char) : Bool := c.isAlphanum || c == ':' || c == '.'

def isUserinfoChar (c : Char) : Bool := isRegNameChar c || c == ':'

inductive HostName where
  | regName (text : List Char) (valid : text ≠ [] ∧ text.all isRegNameChar = true)
  | ipv6 (text : List Char) (valid : text ≠ [] ∧ text.all isAddressChar = true)

def HostName.text : HostName → List Char
  | .regName text _ => text
  | .ipv6 text _ => text

def HostName.render : HostName → List Char
  | .regName text _ => text
  | .ipv6 text _ => '[' :: (text ++ [']'])

/-- `[userinfo "@"] host [":" *DIGIT]`. -/
structure Authority where
  userinfo : Option (List Char)
  host : HostName
  port : Option (List Char)
  valid : (∀ info ∈ userinfo, info.all isUserinfoChar = true) ∧
    ∀ digits ∈ port, digits.all Char.isDigit = true ∧ SplitResult.number digits ≤ 65535

namespace Authority

def hostPort (a : Authority) : List Char := a.host.render ++ a.port.elim [] fun digits => ':' :: digits

def render (a : Authority) : List Char := (a.userinfo.elim [] fun info => info ++ ['@']) ++ a.hostPort

def portNumber (a : Authority) : Option Nat := (a.port.filter fun digits => decide (digits ≠ [])).map SplitResult.number

end Authority

/-- An `http` or `https` URL. -/
structure HttpUrl where
  secure : Bool
  authority : Authority
  path : List Char
  query : List Char
  fragment : List Char

namespace HttpUrl

def scheme (u : HttpUrl) : String := if u.secure then "https" else "http"

def defaultPort (u : HttpUrl) : Nat := if u.secure then 443 else 80

/-- What `urlsplit` makes of it. -/
def parts (u : HttpUrl) : SplitResult := ⟨u.scheme.toList, u.authority.render, u.path, u.query, u.fragment⟩

/-- The authority as the `Host` field carries it: the host, and the port if it is not the default of the scheme. -/
def hostField (u : HttpUrl) : List Char :=
  u.authority.host.render ++
    match u.authority.portNumber with
    | some port => if port = u.defaultPort then [] else ':' :: (toString port).toList
    | none => []

end HttpUrl

def encode (s : List Char) : Str := s.flatMap String.utf8EncodeChar

def asciiLower (s : List Char) : List Char := s.map Char.toLower

def view (u : HttpUrl) : Option Url :=
  u.parts.port.map fun port => ⟨encode (u.parts.scheme ++ "://".toList ++ u.parts.netloc ++ u.path), utf8 u.scheme,
    (u.parts.hostname asciiLower).map encode, port⟩

section
variable {c : Char} {s : List Char}

private theorem alphanum_range (h : c.isAlphanum = true) :
    c.toNat ≤ 122 ∧ c.toNat ≠ 58 ∧ c.toNat ≠ 64 ∧ c.toNat ≠ 91 ∧ c.toNat ≠ 93 := by
  have hAlpha : c.isAlpha = (decide (c.val ≥ 65 ∧ c.val ≤ 90) || c.val ≥ 97 && c.val ≤ 122) := rfl
  simp only [Char.isAlphanum, hAlpha, Char.isDigit, Bool.or_eq_true, Bool.and_eq_true, decide_eq_true_iff, ge_iff_le,
    UInt32.le_iff_toNat_le] at h
  have hVal : c.toNat = c.val.toNat := rfl
  rw [hVal]
  rcases h with (⟨hLow, hHigh⟩ | ⟨hLow, hHigh⟩) | ⟨hLow, hHigh⟩ <;> simp at hLow hHigh <;> omega

/-- ASCII, and not one of `:`, `@`, `[` and `]`. -/
def isHostSafe (c : Char) : Bool := c.toNat < 128 && c != ':' && c != '@' && c != '[' && c != ']'

theorem alphanum_safe (h : c.isAlphanum = true) : isHostSafe c = true := by
  obtain ⟨hHigh, hColon, hAt, hOpen, hClose⟩ := alphanum_range h
  have hNe : ∀ d : Char, c.toNat ≠ d.toNat → (c != d) = true := fun d hne => bne_iff_ne.mpr fun hEq => hne (by rw [hEq])
  rw [isHostSafe, hNe ':' hColon, hNe '@' hAt, hNe '[' hOpen, hNe ']' hClose, decide_eq_true (by omega : c.toNat < 128)]
  rfl

theorem regName_safe (h : isRegNameChar c = true) : isHostSafe c = true := by
  have hList : ("-._~%!$&'()*+,;=".toList.all isHostSafe) = true := by decide
  rw [isRegNameChar, Bool.or_eq_true] at h
  rcases h with h | h
  · exact alphanum_safe h
  · exact List.all_eq_true.mp hList c (List.contains_iff_mem.mp h)

theorem address_cases (h : isAddressChar c = true) : isHostSafe c = true ∨ c = ':' := by
  rw [isAddressChar, Bool.or_eq_true, Bool.or_eq_true, beq_iff_eq, beq_iff_eq] at h
  rcases h with (h | rfl) | rfl
  · exact Or.inl (alphanum_safe h)
  · exact Or.inr rfl
  · exact Or.inl rfl

theorem not_mem_of_safe {d : Char} (h : ∀ c ∈ s, isHostSafe c = true) (hd : isHostSafe d = false) : d ∉ s := by
  intro hMem
  rw [h d hMem] at hd
  cases hd

theorem digit_safe (h : c.isDigit = true) : isHostSafe c = true :=
  alphanum_safe (by rw [Char.isAlphanum, h, Bool.or_true])

end

theorem toLower_cases (c : Char) :
    (65 ≤ c.toNat ∧ c.toNat ≤ 90 ∧ c.toLower.toNat = c.toNat + 32) ∨ (¬ (65 ≤ c.toNat ∧ c.toNat ≤ 90) ∧ c.toLower = c) := by
  have hNat : c.toNat = c.val.toNat := rfl
  by_cases h : c.val ≥ 'A'.val ∧ c.val ≤ 'Z'.val
  · have hVal : c.toLower.val = c.val + ('a'.val - 'A'.val) := congrArg Char.val (dif_pos h)
    have hLower : c.toLower.toNat = c.toLower.val.toNat := rfl
    simp only [ge_iff_le, UInt32.le_iff_toNat_le] at h
    rw [hLower, hVal, UInt32.toNat_add, hNat]
    simp at h ⊢
    exact Or.inl ⟨h.1, h.2, by omega⟩
  · refine Or.inr ⟨?_, dif_neg h⟩
    simp only [ge_iff_le, UInt32.le_iff_toNat_le] at h
    simp at h
    omega

theorem isAlpha_iff {c : Char} : c.isAlpha = true ↔ (65 ≤ c.toNat ∧ c.toNat ≤ 90) ∨ (97 ≤ c.toNat ∧ c.toNat ≤ 122) := by
  have hNat : c.toNat = c.val.toNat := rfl
  have hAlpha : c.isAlpha = (decide (c.val ≥ 65 ∧ c.val ≤ 90) || c.val ≥ 97 && c.val ≤ 122) := rfl
  simp only [hAlpha, Bool.or_eq_true, Bool.and_eq_true, decide_eq_true_iff, ge_iff_le, UInt32.le_iff_toNat_le, hNat]
  simp

theorem isDigit_iff {c : Char} : c.isDigit = true ↔ 48 ≤ c.toNat ∧ c.toNat ≤ 57 := by
  have hNat : c.toNat = c.val.toNat := rfl
  simp only [Char.isDigit, Bool.and_eq_true, decide_eq_true_iff, ge_iff_le, UInt32.le_iff_toNat_le, hNat]
  simp

theorem toLower_toLower (c : Char) : c.toLower.toLower = c.toLower := by
  rcases toLower_cases c with ⟨hLow, hHigh, hNat⟩ | ⟨-, hSame⟩
  · rcases toLower_cases c.toLower with ⟨-, hBound, -⟩ | ⟨-, hSame⟩
    · omega
    · exact hSame
  · rw [hSame, hSame]

theorem asciiLower_idem (s : List Char) : asciiLower (asciiLower s) = asciiLower s := by
  rw [asciiLower, asciiLower, List.map_map]
  exact List.map_congr_left fun c _ => toLower_toLower c

theorem asciiLower_append (s t : List Char) : asciiLower (s ++ t) = asciiLower s ++ asciiLower t := List.map_append

namespace Authority

variable (a : Authority)

theorem regName_text {text : List Char} (h : text.all isRegNameChar = true) : ∀ c ∈ text, isHostSafe c = true :=
  fun c hc => regName_safe (List.all_eq_true.mp h c hc)

theorem port_safe : ∀ digits ∈ a.port, ∀ c ∈ digits, isHostSafe c = true :=
  fun digits hPort c hc => digit_safe (List.all_eq_true.mp (a.valid.2 digits hPort).1 c hc)

private theorem hostPort_at : '@' ∉ a.hostPort := by
  have hPort := a.port_safe
  rw [hostPort, List.mem_append]
  rintro (hHost | hTail)
  · cases hName : a.host with
    | regName text valid =>
      rw [hName] at hHost
      exact not_mem_of_safe (regName_text valid.2) rfl hHost
    | ipv6 text valid =>
      rw [hName, HostName.render, List.mem_cons, List.mem_append, List.mem_singleton] at hHost
      rcases hHost with hEq | hText | hEq
      · cases hEq
      · rcases address_cases (List.all_eq_true.mp valid.2 _ hText) with hSafe | hEq
        · cases hSafe
        · cases hEq
      · cases hEq
  · cases hCases : a.port with
    | none =>
      rw [hCases] at hTail
      cases hTail
    | some digits =>
      rw [hCases, Option.elim_some, List.mem_cons] at hTail
      rcases hTail with hEq | hMem
      · cases hEq
      · exact not_mem_of_safe (hPort digits hCases) rfl hMem

theorem rpartition_render : (rpartition '@' a.render).2.2 = a.hostPort := by
  rw [render]
  cases a.userinfo with
  | none => rw [Option.elim_none, List.nil_append, rpartition_whole a.hostPort_at]
  | some info => rw [Option.elim_some, List.append_assoc, List.singleton_append, rpartition_cut a.hostPort_at]

end Authority

namespace HttpUrl

variable (u : HttpUrl)

/-- The host is read without its brackets, and the port as it is written. -/
theorem hostinfo_parts : u.parts.hostinfo =
    (u.authority.host.text, u.authority.port.filter fun digits => decide (digits ≠ [])) := by
  have hPort : (partition ':' (u.authority.port.elim [] fun digits => ':' :: digits)).2.2 = u.authority.port.getD [] := by
    cases u.authority.port with
    | none => rfl
    | some digits => exact congrArg (fun cut => cut.2.2) (partition_cut (s := []) List.not_mem_nil digits)
  have hFilter : (if u.authority.port.getD [] = [] then none else some (u.authority.port.getD [])) =
      u.authority.port.filter fun digits => decide (digits ≠ []) := by
    cases u.authority.port with
    | none => rfl
    | some digits =>
      rw [Option.getD_some, Option.filter_some]
      by_cases hNil : digits = []
      · rw [if_pos hNil, decide_eq_false (not_not_intro hNil), if_neg Bool.false_ne_true]
      · rw [if_neg hNil, decide_eq_true hNil, if_pos rfl]
  rw [SplitResult.hostinfo, parts, u.authority.rpartition_render, Authority.hostPort]
  cases hHost : u.authority.host with
  | regName text valid =>
    have hSafe := Authority.regName_text valid.2
    have hColon : ':' ∉ text := not_mem_of_safe hSafe rfl
    have hOpen : '[' ∉ text ++ u.authority.port.elim [] fun digits => ':' :: digits := by
      rw [List.mem_append, not_or]
      refine ⟨not_mem_of_safe hSafe rfl, ?_⟩
      have hDigits := u.authority.port_safe
      cases hCases : u.authority.port with
      | none => exact List.not_mem_nil
      | some digits => exact List.not_mem_cons_of_ne_of_not_mem (by decide) (not_mem_of_safe (hDigits digits hCases) rfl)
    have hCut : partition ':' (text ++ u.authority.port.elim [] fun digits => ':' :: digits) =
        (text, u.authority.port.isSome, u.authority.port.getD []) := by
      cases u.authority.port with
      | none => rw [Option.elim_none, List.append_nil, partition_whole hColon]; rfl
      | some digits => exact partition_cut hColon digits
    simp only [HostName.render, partition_whole hOpen, hCut, Bool.false_eq_true, if_false, hFilter, HostName.text]
  | ipv6 text valid =>
    have hClose : ']' ∉ text := by
      intro hMem
      rcases address_cases (List.all_eq_true.mp valid.2 _ hMem) with hSafe | hEq
      · cases hSafe
      · cases hEq
    have hOuter := partition_cut (c := '[') (s := []) List.not_mem_nil
      (text ++ [']'] ++ u.authority.port.elim [] fun digits => ':' :: digits)
    have hInner := partition_cut hClose (u.authority.port.elim [] fun digits => ':' :: digits)
    rw [List.nil_append, List.append_assoc, List.singleton_append] at hOuter
    simp only [HostName.render, List.cons_append, List.append_assoc, List.nil_append, hOuter, hInner, hPort, if_true, hFilter,
      HostName.text]

theorem port_parts : u.parts.port = some u.authority.portNumber := by
  rw [SplitResult.port, u.hostinfo_parts, Authority.portNumber]
  cases hPort : u.authority.port with
  | none => rfl
  | some digits =>
    obtain ⟨hDigits, hNumber⟩ := u.authority.valid.2 digits hPort
    simp only [Option.filter_some]
    by_cases hNil : digits = []
    · rw [decide_eq_false (not_not_intro hNil)]
      rfl
    · rw [decide_eq_true hNil, if_pos rfl]
      simp only [hDigits, if_true, if_pos hNumber, Option.map_some]

/-- The host that is read off differs from the written one in the case of letters only. -/
theorem hostname_parts : ∃ name, u.parts.hostname asciiLower = some name ∧
    asciiLower name = asciiLower u.authority.host.text := by
  have hNe : u.authority.host.text ≠ [] := by
    cases u.authority.host with
    | regName text valid => exact valid.1
    | ipv6 text valid => exact valid.1
  simp only [SplitResult.hostname, u.hostinfo_parts, if_neg hNe]
  refine ⟨_, rfl, ?_⟩
  rcases exists_first '%' u.authority.host.text with hNone | ⟨x, y, hSplit, hx⟩
  · rw [partition_whole hNone]
    simp only [Bool.false_eq_true, if_false, List.append_nil, asciiLower_idem]
  · rw [hSplit, partition_cut hx]
    simp only [if_true]
    rw [asciiLower_append, asciiLower_idem, asciiLower_append]

end HttpUrl
end Eggfetch.Facade.Urls
