import Eggfetch.Text.Bytes

/-! The `Alt-Svc` header value of `alt_svc.rs`: alternatives, authorities and the
first usable `h3` alternative. -/
namespace Eggfetch.AltSvc
open Text

def altSvcMaxHeaderBytes : Nat := 8192
def altSvcMaxAlternatives : Nat := 16
def altSvcDefaultMaSecs : Nat := 86400

def u64Max : Nat := 2 ^ 64 - 1
def u16Max : Nat := 2 ^ 16 - 1

/-- Nanoseconds since an arbitrary start, bounded as `Instant` is on a 64-bit target. -/
abbrev Instant := Nat

def secs (n : Nat) : Nat := n * 10 ^ 9

def Instant.checkedAdd (now : Instant) (duration : Nat) : Option Instant :=
  if now + duration < secs (2 ^ 63) then some (now + duration) else none

def quote : UInt8 := 0x22
def backslash : UInt8 := 0x5c
def comma : UInt8 := 0x2c
def semicolon : UInt8 := 0x3b
def equals : UInt8 := 0x3d
def colon : UInt8 := 0x3a
def atSign : UInt8 := 0x40
def openBracket : UInt8 := 0x5b
def closeBracket : UInt8 := 0x5d

/-- `AltSvcOrigin`, built by `new`. -/
structure AltSvcOrigin where
  scheme : Str
  host : Str
  port : Nat
  deriving DecidableEq, Repr

def AltSvcOrigin.new (scheme host : Str) (port : Nat) : Option AltSvcOrigin :=
  if host.isEmpty ∨ port = 0 then none
  else
    let host := toAsciiLowercase ((trim host).rdropWhile (· == 0x2e))
    if host.isEmpty ∨ 253 < host.length then none
    else if host.any (· ∈ utf8 "@/?# \t\r\n") then none
    else some ⟨toAsciiLowercase scheme, host, port⟩

structure ParsedAlternative where
  protocol : Str
  authority : Str
  ma : Option Nat
  deriving DecidableEq, Repr

def isClearValue (value : Str) : Bool :=
  eqIgnoreAsciiCase (trim (trimMatches quote (trim value))) (utf8 "clear")

/-- One scan of `split_header_list`; `part` is what stands since the last comma. -/
def splitHeaderListFrom (part : Str) (inQuotes escaped : Bool) : Str → List Str
  | [] => [part]
  | b :: rest =>
    if escaped then splitHeaderListFrom (part ++ [b]) inQuotes false rest
    else if b = backslash ∧ inQuotes then splitHeaderListFrom (part ++ [b]) inQuotes true rest
    else if b = quote then splitHeaderListFrom (part ++ [b]) (!inQuotes) false rest
    else if b = comma ∧ !inQuotes then part :: splitHeaderListFrom [] inQuotes false rest
    else splitHeaderListFrom (part ++ [b]) inQuotes false rest

def splitHeaderList (value : Str) : List Str := splitHeaderListFrom [] false false value

/-- The UTF-8 encoding of `c as char`. -/
def latin1Char (c : UInt8) : Str :=
  if c < 0x80 then [c] else [(0xc0 : UInt8) ||| (c >>> 6), (0x80 : UInt8) ||| (c &&& 0x3f)]

/-- The loop of `parse_quoted_string` after the opening quote. -/
def parseQuotedFrom (out : Str) : Str → Option (Str × Str)
  | [] => none
  | b :: rest =>
    if b = backslash then
      match rest with
      | [] => none
      | c :: rest =>
        if c ≠ quote ∧ c ≠ backslash then none
        else if 512 ≤ out.length then none
        else parseQuotedFrom (out ++ [c]) rest
    else if b = quote then some (out, rest)
    else if b < 0x20 ∨ b = 0x7f then none
    else if 512 ≤ out.length then none
    else parseQuotedFrom (out ++ latin1Char b) rest

def parseQuotedString : Str → Option (Str × Str)
  | b :: rest => if b = quote then parseQuotedFrom [] rest else none
  | [] => none

def isToken (s : Str) : Bool :=
  !s.isEmpty && s.all fun b => 0x20 < b && b < 0x7f && !(utf8 "()<>@,;:\\\"/[]?=\x7b\x7d \t").contains b

/-- The loop over the parameters; `none` when an `ma` is invalid. -/
def parseMa (ma : Option Nat) : List Str → Option (Option Nat)
  | [] => some ma
  | param :: rest =>
    let param := trim param
    if param.isEmpty then parseMa ma rest
    else
      let name := trim (param.takeWhile (· != equals))
      let pvalue := (param.dropWhile (· != equals)).tail?.map trim
      if eqIgnoreAsciiCase name (utf8 "ma") then
        match pvalue.bind fun v => parseUnsigned u64Max (trimMatches quote (trim v)) with
        | some n => parseMa (some n) rest
        | none => none
      else parseMa ma rest

/-- The body of the loop of `parse_alternatives`. -/
def parseAlternative (part : Str) : Option ParsedAlternative :=
  let part := trim part
  if part.isEmpty ∨ eqIgnoreAsciiCase part (utf8 "clear") ∨ ¬ part.contains equals then none
  else
    let proto := trim (part.takeWhile (· != equals))
    let rest := trimStart (part.dropWhile (· != equals)).tail
    if proto.isEmpty ∨ ¬ isToken proto then none
    else
      match parseQuotedString rest with
      | none => none
      | some (authority, params) =>
        (parseMa none (params.splitOn semicolon).tail).map fun ma => ⟨proto, authority, ma⟩

def parseAlternatives (value : Str) : List ParsedAlternative :=
  ((splitHeaderList value).filterMap parseAlternative).take altSvcMaxAlternatives

def parsePort (s : Str) : Option Nat :=
  if s.isEmpty then none
  else
    match parseUnsigned u16Max s with
    | some 0 | none => none
    | some port => some port

def parseAuthority (authority : Str) : Option (Str × Nat) :=
  if authority.isEmpty ∨ 512 < authority.length ∨ authority.contains atSign then none
  else if authority.head? = some openBracket then
    let rest := authority.tail
    if ¬ rest.contains closeBracket then none
    else
      let host := rest.takeWhile (· != closeBracket)
      match (rest.dropWhile (· != closeBracket)).tail with
      | b :: portStr =>
        if b ≠ colon ∨ host.isEmpty then none
        else (parsePort portStr).map fun port => (toAsciiLowercase host, port)
      | [] => none
  else
    match rfind colon authority with
    | none => none
    | some i =>
      let host := authority.take i
      match parsePort (authority.drop (i + 1)) with
      | none => none
      | some port =>
        if host.isEmpty then some ([], port)
        else if host.any (· ∈ utf8 " \t\r\n/?#") then none
        else some (toAsciiLowercase host, port)

/-- What the loop of `learn_counted` accepts of one alternative: host, port, expiry. -/
def usableAlternative (origin : AltSvcOrigin) (now : Instant) (alt : ParsedAlternative) :
    Option (Str × Nat × Instant) :=
  if ¬ eqIgnoreAsciiCase alt.protocol (utf8 "h3") then none
  else
    match parseAuthority alt.authority with
    | none => none
    | some (host, port) =>
      let maSecs := alt.ma.getD altSvcDefaultMaSecs
      if maSecs = 0 then none
      else
        (now.checkedAdd (secs maSecs)).map fun expiresAt =>
          (if host.isEmpty then origin.host else host, port, expiresAt)

def best (origin : AltSvcOrigin) (combined : Str) (now : Instant) : Option (Str × Nat × Instant) :=
  (parseAlternatives combined).findSome? (usableAlternative origin now)

end Eggfetch.AltSvc
