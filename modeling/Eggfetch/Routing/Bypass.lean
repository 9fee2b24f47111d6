import Eggfetch.Routing.Decision
import Eggfetch.Routing.Networks

/-! The hosts that a native `NO_PROXY` list sends around the proxy: names by their labels, and
addresses by literals and networks. -/
namespace Eggfetch.Routing
open Text

/-- Something, a dot and the domain, in any case of the letters. -/
def Subdomain (host domain : Str) : Prop :=
  ∃ before, toAsciiLowercase host = before ++ dot :: toAsciiLowercase domain

def withoutDots (s : Str) : Str := s.dropWhile (· == dot)

namespace NoProxyRule

def native : NoProxyRule → Bool
  | wildcard | localhost | host _ | domainSuffix _ | hostPort _ _ | ipNetwork _ _ => true
  | _ => false

def dotted : NoProxyRule → Bool
  | domainSuffix _ => true
  | hostPort h _ => h.head? == some dot
  | _ => false

def hostText : NoProxyRule → Option Str
  | host h => some h
  | domainSuffix suffix => some suffix
  | hostPort h _ => some h
  | _ => none

/-- The host that the text names, without leading dots and brackets. -/
def hostPart (rule : NoProxyRule) : Option Str :=
  rule.hostText.map fun text => if rule.dotted then withoutDots text else trimBrackets (withoutDots text)

def seenHost (rule : NoProxyRule) (host : Str) : Str := if rule.dotted then host else trimBrackets host

def takesPort (scheme : Str) (port : Option Nat) : NoProxyRule → Bool
  | hostPort _ p => portMatches scheme port p
  | _ => true

end NoProxyRule

def Bare (host : Str) : Prop := openBracket ∉ host ∧ closeBracket ∉ host

instance (host : Str) : Decidable (Bare host) := inferInstanceAs (Decidable (_ ∧ _))

/-- `std::net` reads the addresses. -/
structure Library.ReadsIps (lib : Library) : Prop where
  ipv4 : lib.parseIpv4 = parseIpv4Addr
  ipv6 : lib.parseIpv6 = parseIpv6Addr

/-- An address in a URL: an IPv4 one, or an IPv6 one in brackets. -/
inductive Literal : Str → IpAddr → Prop
  | v4 {host : Str} {bits : BitVec 32} : Bare host → parseIpv4Addr host = some bits → Literal host (.v4 bits)
  | v6 {host : Str} {bits : BitVec 128} : Bare host → parseIpv6Addr host = some bits →
      Literal (openBracket :: host ++ [closeBracket]) (.v6 bits)

def UrlHost (host : Str) : Prop := Bare host ∨ ∃ address, Literal host address

def IpAddr.IsLoopback (address : IpAddr) : Prop := address = .v4 0x7f000001 ∨ address = .v6 1

/-- A rule speaks of an address: of all hosts, of its network, of loopback addresses or of its literal. -/
def NoProxyRule.Covers (host : Str) (address : IpAddr) : NoProxyRule → Prop
  | wildcard => True
  | localhost => address.IsLoopback
  | ipNetwork network width => address.AgreeOn width network
  | rule => rule.dotted = false ∧ ∃ part ∈ rule.hostPart, eqIgnoreAsciiCase (trimBrackets host) part = true

/-- One rule decides on one host as it should. -/
structure MatchedRightly (lib : Library) (scheme host : Str) (port : Option Nat) (rule : NoProxyRule) : Prop where
  name : (∀ address, ¬Literal host address) → ∀ part ∈ rule.hostPart,
    (rule.isMatch lib scheme host port = true ↔
      rule.takesPort scheme port = true ∧ (rule.dotted = false ∧ eqIgnoreAsciiCase host part = true ∨ Subdomain host part))
  literal : ∀ address, Literal host address → rule.isMatch lib scheme host port = true → rule.Covers host address
  nonempty : ∀ part ∈ rule.hostPart, part ≠ []

/-- Dots, then brackets that open, then brackets that close, and nothing else. -/
def OnlyMarks (text : Str) : Prop :=
  ∃ dots opens closes, text = List.replicate dots dot ++ List.replicate opens openBracket ++ List.replicate closes closeBracket

def OnlyDots (text : Str) : Prop := ∃ dots, text = List.replicate dots dot

/-- The rule has a host, and an address is not taken for one of its subdomains. -/
structure NamesHost (scheme host : Str) (port : Option Nat) (rule : NoProxyRule) : Prop where
  apart : ∀ address, Literal host address → ∀ part ∈ rule.hostPart, rule.takesPort scheme port = true →
    ¬Subdomain (rule.seenHost host) part
  named : ∀ text ∈ rule.hostText, if rule.dotted then ¬OnlyDots text else ¬OnlyMarks text

section
variable {host domain s : Str}

theorem endsAtLabel_iff {suffix : Str} : endsAtLabel host suffix = true ↔ ∃ before, host = before ++ dot :: suffix := by
  simp only [endsAtLabel, Bool.and_eq_true, decide_eq_true_eq, beq_iff_eq, List.isSuffixOf_iff_suffix]
  constructor
  · rintro ⟨⟨hLess, hDot⟩, before, rfl⟩
    rw [List.length_append] at hLess hDot
    have hPos : before.length - 1 < before.length := by omega
    rw [Nat.add_sub_cancel, List.getElem?_append_left hPos] at hDot
    have hLast : before.drop (before.length - 1) = [dot] := by
      rw [List.drop_eq_getElem?_toList_append, hDot, List.drop_eq_nil_of_le (by omega)]
      rfl
    refine ⟨before.take (before.length - 1), ?_⟩
    rw [← List.singleton_append, ← List.append_assoc, ← hLast, List.take_append_drop]
  · rintro ⟨before, rfl⟩
    have hLess : suffix.length < (before ++ dot :: suffix).length := by
      rw [List.length_append, List.length_cons]
      omega
    have hIndex : (before ++ dot :: suffix).length - suffix.length - 1 = before.length := by
      rw [List.length_append, List.length_cons]
      omega
    refine ⟨⟨hLess, ?_⟩, before ++ [dot], by simp⟩
    rw [hIndex, List.getElem?_append_right (Nat.le_refl _), Nat.sub_self]
    rfl

theorem matchesDomainSuffix_iff : matchesDomainSuffix host s = true ↔ Subdomain host (withoutDots s) := endsAtLabel_iff

theorem matchesHostRule_iff :
    matchesHostRule host s = true ↔ eqIgnoreAsciiCase (trimBrackets host) (trimBrackets (withoutDots s)) = true ∨
      Subdomain (trimBrackets host) (trimBrackets (withoutDots s)) := by
  rw [matchesHostRule, Bool.or_eq_true, beq_iff_eq, endsAtLabel_iff, eqIgnoreAsciiCase, decide_eq_true_eq]
  rfl

theorem onlyDots_iff : OnlyDots s ↔ withoutDots s = [] := by
  rw [withoutDots, List.dropWhile_eq_nil_iff]
  constructor
  · rintro ⟨dots, rfl⟩ b hMem
    exact beq_iff_eq.mpr (List.eq_of_mem_replicate hMem)
  · intro hDots
    exact ⟨s.length, List.eq_replicate_of_mem fun b hMem => beq_iff_eq.mp (hDots b hMem)⟩

private theorem trimBrackets_nil_iff : trimBrackets s = [] ↔ ∃ opens closes, s = List.replicate opens openBracket ++
    List.replicate closes closeBracket := by
  rw [trimBrackets, List.rdropWhile_eq_nil_iff]
  constructor
  · intro hCloses
    have hOpens : ∀ b ∈ s.takeWhile (· == openBracket), b = openBracket := by
      intro b hMem
      have hHolds := List.mem_takeWhile_imp hMem
      exact beq_iff_eq.mp hHolds
    have hRest : ∀ b ∈ s.dropWhile (· == openBracket), b = closeBracket := fun b hMem => beq_iff_eq.mp (hCloses b hMem)
    refine ⟨(s.takeWhile (· == openBracket)).length, (s.dropWhile (· == openBracket)).length, ?_⟩
    rw [← List.eq_replicate_of_mem hOpens, ← List.eq_replicate_of_mem hRest, List.takeWhile_append_dropWhile]
  · rintro ⟨opens, closes, rfl⟩ b hMem
    have hOpens : ∀ c ∈ List.replicate opens openBracket, (c == openBracket) = true :=
      fun c hOpen => beq_iff_eq.mpr (List.eq_of_mem_replicate hOpen)
    rw [List.dropWhile_append_of_pos hOpens] at hMem
    have hClose := (List.dropWhile_suffix _).subset hMem
    exact beq_iff_eq.mpr (List.eq_of_mem_replicate hClose)

theorem onlyMarks_iff : OnlyMarks s ↔ trimBrackets (withoutDots s) = [] := by
  rw [trimBrackets_nil_iff, withoutDots]
  constructor
  · rintro ⟨dots, opens, closes, rfl⟩
    refine ⟨opens, closes, ?_⟩
    have hDots : ∀ b ∈ List.replicate dots dot, (b == dot) = true := fun b hMem => beq_iff_eq.mpr (List.eq_of_mem_replicate hMem)
    rw [List.append_assoc, List.dropWhile_append_of_pos hDots]
    apply dropWhile_self
    intro hHead
    rcases List.mem_append.mp (List.mem_of_mem_head? hHead) with hOpen | hClose
    · exact absurd (List.eq_of_mem_replicate hOpen) (by decide)
    · exact absurd (List.eq_of_mem_replicate hClose) (by decide)
  · rintro ⟨opens, closes, hRest⟩
    have hDots : ∀ b ∈ s.takeWhile (· == dot), b = dot := by
      intro b hMem
      have hHolds := List.mem_takeWhile_imp hMem
      exact beq_iff_eq.mp hHolds
    refine ⟨(s.takeWhile (· == dot)).length, opens, closes, ?_⟩
    rw [← List.eq_replicate_of_mem hDots, List.append_assoc, ← hRest, List.takeWhile_append_dropWhile]

end

section
variable {lib : Library} {scheme host : Str} {port : Option Nat} {rule : NoProxyRule} {part : Str}

private theorem isMatch_part (hPart : part ∈ rule.hostPart) :
    rule.isMatch lib scheme host port = true ↔ rule.takesPort scheme port = true ∧
      (rule.dotted = false ∧ eqIgnoreAsciiCase (rule.seenHost host) part = true ∨ Subdomain (rule.seenHost host) part) := by
  cases rule with
  | host h =>
    obtain rfl := Option.some.inj hPart
    rw [NoProxyRule.isMatch, matchesHostRule_iff]
    simp [NoProxyRule.takesPort, NoProxyRule.dotted, NoProxyRule.seenHost]
  | domainSuffix suffix =>
    obtain rfl := Option.some.inj hPart
    rw [NoProxyRule.isMatch, matchesDomainSuffix_iff]
    simp [NoProxyRule.takesPort, NoProxyRule.dotted, NoProxyRule.seenHost]
  | hostPort h p =>
    obtain rfl := Option.some.inj hPart
    rw [NoProxyRule.isMatch, Bool.and_eq_true]
    by_cases hDot : h.head? = some dot
    · have hDotted : (NoProxyRule.hostPort h p).dotted = true := beq_iff_eq.mpr hDot
      rw [if_pos hDot, matchesDomainSuffix_iff, NoProxyRule.seenHost, hDotted]
      simp [NoProxyRule.takesPort]
    · have hDotted : (NoProxyRule.hostPort h p).dotted = false := beq_eq_false_iff_ne.mpr hDot
      rw [if_neg hDot, matchesHostRule_iff, NoProxyRule.seenHost, hDotted]
      simp [NoProxyRule.takesPort]
  | _ => cases hPart

private theorem parseBracketed_native {entry : Str} (h : parseBracketed entry false = some (.ok rule)) : rule.native = true := by
  unfold parseBracketed at h
  split at h
  · cases h
  · split at h
    · split at h
      · cases h
      · dsimp only at h
        split at h
        · obtain rfl := Except.ok.inj (Option.some.inj h)
          rw [if_neg Bool.false_ne_true]
          rfl
        · split at h
          · obtain ⟨n, rfl⟩ := parsePort_ok (Option.some.inj h)
            rw [if_neg Bool.false_ne_true]
            rfl
          · cases h
    · cases h

private theorem parseHost_native {entry : Str} (h : parseHost entry false = .ok rule) : rule.native = true := by
  unfold parseHost at h
  split at h
  · dsimp only at h
    split at h
    · cases h
    · obtain ⟨n, rfl⟩ := parsePort_ok h
      rfl
  · split at h
    · split at h
      · cases h
      · obtain rfl := Except.ok.inj h
        rfl
    · obtain rfl := Except.ok.inj h
      rfl

private theorem parseNetwork_native {entry network width : Str} (h : parseNetwork lib entry network width = .ok rule) :
    rule.native = true := by
  unfold parseNetwork at h
  split at h
  · cases h
  · split at h
    · cases h
    · dsimp only at h
      split at h
      · split at h
        · cases h
        · obtain rfl := Except.ok.inj h
          rfl
      · split at h
        · cases h
        · obtain rfl := Except.ok.inj h
          rfl

theorem parseEntry_native {entry : Str} (h : parseEntry lib entry false = .ok rule) : rule.native = true := by
  unfold parseEntry at h
  split at h
  · obtain rfl := Except.ok.inj h
    rfl
  · split at h
    · obtain rfl := Except.ok.inj h
      rfl
    · have hPlain : parsePlainEntry lib entry false = .ok rule := h
      unfold parsePlainEntry at hPlain
      split at hPlain
      · obtain rfl := Except.ok.inj hPlain
        rfl
      · split at hPlain
        · exact parseNetwork_native hPlain
        · cases hBracketed : parseBracketed entry false with
          | none =>
            rw [hBracketed] at hPlain
            exact parseHost_native hPlain
          | some result =>
            rw [hBracketed] at hPlain
            obtain rfl : result = .ok rule := hPlain
            exact parseBracketed_native hBracketed

theorem Literal.parseIp {address : IpAddr} (hLib : lib.ReadsIps) (h : Literal host address) :
    lib.parseIp (trimBrackets host) = some address ∧ lib.parseIp (stripBrackets host) = some address := by
  cases h with
  | v4 hBare hParse =>
    rw [trimBrackets_self hBare.1 hBare.2, stripBrackets_self hBare.1, Library.parseIp, hLib.ipv4, hParse]
    exact ⟨rfl, rfl⟩
  | @v6 inner bits hBare hParse =>
    have hStrip : stripBrackets (openBracket :: inner ++ [closeBracket]) = inner := by
      rw [stripBrackets, if_pos ⟨rfl, List.getLast?_concat, by simp⟩]
      exact List.dropLast_concat
    have hColon : Ip.separator ∈ inner := by
      by_contra hNone
      rw [parseIpv6Addr_colon hNone] at hParse
      cases hParse
    rw [trimBrackets_bracketed hBare.1 hBare.2, hStrip, Library.parseIp, hLib.ipv4, hLib.ipv6, hParse, parseIpv4Addr_colon hColon]
    exact ⟨rfl, rfl⟩

theorem Literal.not_localhost {address : IpAddr} (h : Literal host address) :
    eqIgnoreAsciiCase host (utf8 "localhost") = false := by
  rw [eqIgnoreAsciiCase, decide_eq_false_iff_not]
  intro hLower
  cases hHost : host with
  | nil =>
    rw [hHost] at hLower
    exact absurd hLower (by decide)
  | cons b rest =>
    rw [hHost] at hLower h
    have hFirst : asciiLower b = 0x6c := (List.cons.inj hLower).1
    cases h with
    | v4 _ hParse =>
      have hNone : digitValue 10 b = none := by
        have hDigit : isDigit b = false := by
          by_contra hDigit
          simp only [isDigit, Bool.not_eq_false, Bool.and_eq_true, decide_eq_true_eq] at hDigit
          have hUpper : ¬(65 ≤ b ∧ b ≤ 90) := fun hUpper => absurd (UInt8.le_trans hUpper.1 hDigit.2) (by decide)
          rw [asciiLower, if_neg hUpper] at hFirst
          rw [hFirst] at hDigit
          exact absurd hDigit.2 (by decide)
        rw [digitValue, hDigit, hFirst]
        rfl
      rw [parseIpv4Addr_none hNone] at hParse
      cases hParse
    | v6 => exact absurd hFirst (by decide)

theorem isLoopback_iff {address : IpAddr} (hLib : lib.ReadsIps) (h : Literal host address) :
    isLoopback lib host = true ↔ address.IsLoopback := by
  rw [isLoopback, (h.parseIp hLib).2, Bool.or_eq_true, beq_iff_eq, beq_iff_eq, Option.some.injEq, Option.some.injEq]
  rfl

theorem seenHost_of_bare (h : Bare host) : rule.seenHost host = host := by
  rw [NoProxyRule.seenHost]
  split_ifs
  · rfl
  · exact trimBrackets_self h.1 h.2

theorem named_iff : (∀ part ∈ rule.hostPart, part ≠ []) ↔
    ∀ text ∈ rule.hostText, if rule.dotted then ¬OnlyDots text else ¬OnlyMarks text := by
  rw [NoProxyRule.hostPart]
  cases rule.hostText with
  | none => simp
  | some text =>
    split_ifs with hDotted
    · simp [onlyDots_iff]
    · simp [onlyMarks_iff]

private theorem hostPart_ne_dotted (hNative : rule.native = true) (h : rule.hostPart = none) :
    rule = .wildcard ∨ rule = .localhost ∨ ∃ network width, rule = .ipNetwork network width := by
  cases rule with
  | wildcard => exact .inl rfl
  | localhost => exact .inr (.inl rfl)
  | ipNetwork network width => exact .inr (.inr ⟨network, width, rfl⟩)
  | host | domainSuffix | hostPort => cases h
  | _ => cases hNative

private theorem covers_part (hPart : part ∈ rule.hostPart) {address : IpAddr} :
    rule.Covers host address ↔ rule.dotted = false ∧ eqIgnoreAsciiCase (trimBrackets host) part = true := by
  have hSome : ∀ q ∈ rule.hostPart, q = part := fun q hq => Option.some.inj (hq.symm.trans hPart)
  have hOne : (∃ q ∈ rule.hostPart, eqIgnoreAsciiCase (trimBrackets host) q = true) ↔
      eqIgnoreAsciiCase (trimBrackets host) part = true :=
    ⟨fun ⟨q, hq, hEq⟩ => hSome q hq ▸ hEq, fun hEq => ⟨part, hPart, hEq⟩⟩
  cases rule with
  | host | domainSuffix | hostPort => exact and_congr_right fun _ => hOne
  | _ => cases hPart

private theorem covers_bare {address : IpAddr} (hLib : lib.ReadsIps) (hNative : rule.native = true) (hFits : rule.Fits)
    (hNone : rule.hostPart = none) (hLiteral : Literal host address) (h : rule.isMatch lib scheme host port = true) :
    rule.Covers host address := by
  rcases hostPart_ne_dotted hNative hNone with rfl | rfl | ⟨network, width, rfl⟩
  · trivial
  · rw [NoProxyRule.isMatch, hLiteral.not_localhost, Bool.false_or] at h
    exact (isLoopback_iff hLib hLiteral).mp h
  · rw [NoProxyRule.isMatch, (hLiteral.parseIp hLib).1] at h
    exact (ipInNetwork_iff hFits).mp h

private theorem matchedRightly_iff (hLib : lib.ReadsIps) (hHost : UrlHost host) (hNative : rule.native = true)
    (hFits : rule.Fits) :
    MatchedRightly lib scheme host port rule ↔ NamesHost scheme host port rule := by
  constructor
  · rintro ⟨-, hLiteral, hNonempty⟩
    refine ⟨?_, named_iff.mp hNonempty⟩
    intro address hAddress part hPart hPort hSub
    have hMatch : rule.isMatch lib scheme host port = true := (isMatch_part hPart).mpr ⟨hPort, .inr hSub⟩
    obtain ⟨hPlain, hEqual⟩ := (covers_part hPart).mp (hLiteral address hAddress hMatch)
    obtain ⟨before, hBefore⟩ := hSub
    rw [NoProxyRule.seenHost, hPlain, if_neg Bool.false_ne_true, of_decide_eq_true hEqual] at hBefore
    have hLength := congrArg List.length hBefore
    rw [List.length_append, List.length_cons] at hLength
    omega
  · rintro ⟨hApart, hNamed⟩
    refine ⟨?_, ?_, named_iff.mpr hNamed⟩
    · intro hName part hPart
      have hBare : Bare host := hHost.resolve_right fun ⟨address, hAddress⟩ => hName address hAddress
      rw [isMatch_part hPart, seenHost_of_bare hBare]
    · intro address hAddress hMatch
      cases hPart : rule.hostPart with
      | none => exact covers_bare hLib hNative hFits hPart hAddress hMatch
      | some part =>
        obtain ⟨hPort, hHolds⟩ := (isMatch_part hPart).mp hMatch
        obtain ⟨hPlain, hEqual⟩ := hHolds.resolve_right (hApart address hAddress part hPart hPort)
        rw [NoProxyRule.seenHost, hPlain] at hEqual
        exact (covers_part hPart).mpr ⟨hPlain, hEqual⟩

private theorem mem_parseRules {s : Str} {rules : List NoProxyRule} {exactLocalhost : Bool}
    (h : parseRules lib s exactLocalhost = .ok rules) (hRule : rule ∈ rules) :
    ∃ entry, parseEntry lib entry exactLocalhost = .ok rule := by
  rw [parseRules] at h
  generalize ((s.splitOn 0x2c).map trim).filter (!·.isEmpty) = entries at h
  induction entries generalizing rules with
  | nil =>
    rw [List.mapM_nil] at h
    cases h
    cases hRule
  | cons entry entries ih =>
    rw [List.mapM_cons] at h
    cases hEntry : parseEntry lib entry exactLocalhost with
    | error e =>
      rw [hEntry] at h
      cases h
    | ok first =>
      cases hRest : entries.mapM (parseEntry lib · exactLocalhost) with
      | error e =>
        rw [hEntry, hRest] at h
        cases h
      | ok rest =>
        rw [hEntry, hRest] at h
        cases h
        rcases List.mem_cons.mp hRule with rfl | hRule
        · exact ⟨entry, hEntry⟩
        · exact ih hRule hRest

/-- A native list sends a host around the proxy as it should exactly if each of its rules has a host,
and none takes an address for a subdomain. -/
theorem rules_matchedRightly_iff {s : Str} {rules : List NoProxyRule} (hLib : lib.ReadsIps)
    (hRules : parseRules lib s false = .ok rules) (hHost : UrlHost host) :
    (∀ rule ∈ rules, MatchedRightly lib scheme host port rule) ↔ ∀ rule ∈ rules, NamesHost scheme host port rule := by
  refine forall₂_congr fun rule hRule => ?_
  obtain ⟨entry, hEntry⟩ := mem_parseRules hRules hRule
  exact matchedRightly_iff hLib hHost (parseEntry_native hEntry) (parseEntry_fits hEntry)

end

theorem addressLibrary_readsIps : addressLibrary.ReadsIps := ⟨rfl, rfl⟩

/-- `example.com` speaks of `www.example.com`, a name. -/
theorem rules_matchedRightly_example :
    MatchedRightly addressLibrary (utf8 "http") (utf8 "www.example.com") none (.host (utf8 "example.com")) := by
  have hRules : parseRules addressLibrary (utf8 "example.com") false = .ok [.host (utf8 "example.com")] := by decide
  have hBare : Bare (utf8 "www.example.com") := by decide
  refine (rules_matchedRightly_iff addressLibrary_readsIps hRules (.inl hBare)).mpr (fun rule hRule => ?_) _ List.mem_cons_self
  obtain rfl := List.mem_singleton.mp hRule
  constructor
  · intro address hAddress
    have hNone : parseIpv4Addr (utf8 "www.example.com") = none := by decide
    cases hAddress with
    | v4 _ hParse =>
      rw [hNone] at hParse
      cases hParse
  · intro text hText
    obtain rfl := Option.some.inj hText
    rw [if_neg (by decide), onlyMarks_iff]
    decide

/-- `2.3` sends the address 10.1.2.3 around the proxy. -/
theorem not_rules_matchedRightly :
    ¬ ∀ lib s rules scheme host port, lib.ReadsIps → parseRules lib s false = .ok rules → UrlHost host →
      ∀ rule ∈ rules, MatchedRightly lib scheme host port rule := by
  intro hAll
  have hRules : parseRules addressLibrary (utf8 "2.3") false = .ok [.host (utf8 "2.3")] := by decide
  have hAddress : Literal (utf8 "10.1.2.3") (.v4 0x0a010203) := .v4 (by decide) (by decide)
  have hRight := hAll addressLibrary (utf8 "2.3") _ (utf8 "http") (utf8 "10.1.2.3") none addressLibrary_readsIps hRules
    (.inr ⟨_, hAddress⟩) _ (List.mem_singleton_self _)
  have hMatch : (NoProxyRule.host (utf8 "2.3")).isMatch addressLibrary (utf8 "http") (utf8 "10.1.2.3") none = true := by
    decide
  obtain ⟨-, part, hPart, hEqual⟩ := hRight.literal _ hAddress hMatch
  obtain rfl := Option.some.inj hPart
  exact absurd hEqual (by decide)

end Eggfetch.Routing
