import Eggfetch.AltSvc.Items
import Eggfetch.Text.Lines
import Eggfetch.Text.Numbers
import Eggfetch.Text.Slices

/-! The endpoint that a list of alternatives advertises. -/
namespace Eggfetch.AltSvc
open Text

/-- `host ":" port`, with the host missing or in brackets. -/
inductive Names : Str → Str → Nat → Prop
  | named {host portStr : Str} {port : Nat} : host.head? ≠ some openBracket → (∀ b ∈ host, b ∉ utf8 " \t\r\n/?#") →
    parseUnsigned u16Max portStr = some port → port ≠ 0 → Names (host ++ colon :: portStr) (toAsciiLowercase host) port
  | bracketed {host portStr : Str} {port : Nat} : host ≠ [] → closeBracket ∉ host →
    parseUnsigned u16Max portStr = some port → port ≠ 0 →
    Names (openBracket :: (host ++ closeBracket :: colon :: portStr)) (toAsciiLowercase host) port

/-- An authority without user information, of at most 512 bytes. -/
def ValidAuthority (authority host : Str) (port : Nat) : Prop :=
  authority.length ≤ 512 ∧ atSign ∉ authority ∧ Names authority host port

theorem parsePort_iff {s : Str} {port : Nat} : parsePort s = some port ↔ parseUnsigned u16Max s = some port ∧ port ≠ 0 := by
  rw [parsePort]
  cases s with
  | nil => simp [parseUnsigned]
  | cons b s =>
    rw [if_neg (by simp)]
    cases hParse : parseUnsigned u16Max (b :: s) with
    | none => simp
    | some n =>
      cases n with
      | zero => simp [eq_comm]
      | succ n => simp [eq_comm]; omega

private theorem colon_not_mem {portStr : Str} {port : Nat} (h : parseUnsigned u16Max portStr = some port) : colon ∉ portStr := by
  intro hMem
  rcases parseUnsigned_bytes h colon hMem with hPlus | hDigit
  · exact absurd hPlus (by decide)
  · exact absurd hDigit (by decide)

private theorem rfind_colon {host portStr : Str} {port : Nat} (h : parseUnsigned u16Max portStr = some port) :
    rfind colon (host ++ colon :: portStr) = some host.length := by
  have hReverse : (host ++ colon :: portStr).reverse = portStr.reverse ++ colon :: host.reverse := by
    rw [List.reverse_append, List.reverse_cons, List.append_assoc, List.singleton_append]
  rw [rfind, hReverse, idxOf?_append_cons fun hMem => colon_not_mem h (List.mem_reverse.mp hMem), Option.map_some]
  refine congrArg some ?_
  rw [List.length_append, List.length_cons, List.length_reverse]
  omega

private theorem parseAuthority_bounded {authority : Str} (hLength : authority.length ≤ 512) (hUser : atSign ∉ authority)
    (hNe : authority ≠ []) : ¬ (authority.isEmpty ∨ 512 < authority.length ∨ authority.contains atSign) := by
  rintro (hEmpty | hLong | hMem)
  · exact hNe (List.isEmpty_iff.mp hEmpty)
  · omega
  · exact hUser (List.contains_iff_mem.mp hMem)

private theorem parseAuthority_of_valid {authority host : Str} {port : Nat} (h : ValidAuthority authority host port) :
    parseAuthority authority = some (host, port) := by
  obtain ⟨hLength, hUser, hNames⟩ := h
  cases hNames with
  | @named name portStr port hHead hName hParse hPort =>
    have hBounded := parseAuthority_bounded hLength hUser (by simp)
    have hFirst : (name ++ colon :: portStr).head? ≠ some openBracket := by
      cases name with
      | nil => exact fun hEq => absurd (Option.some.inj hEq) (by decide)
      | cons b name => exact hHead
    have hDrop : (name ++ colon :: portStr).drop (name.length + 1) = portStr := by simp
    rw [parseAuthority, if_neg hBounded, if_neg hFirst, rfind_colon hParse]
    simp only [List.take_left, hDrop, parsePort_iff.mpr ⟨hParse, hPort⟩]
    by_cases hEmpty : name = []
    · rw [hEmpty]
      rfl
    · have hAny : (name.any fun b => decide (b ∈ utf8 " \t\r\n/?#")) = false := by
        rw [List.any_eq_false]
        exact fun b hb => by simpa using hName b hb
      rw [if_neg fun h => hEmpty (List.isEmpty_iff.mp h), if_neg (by rw [hAny]; decide)]
  | @bracketed name portStr port hNe hName hParse hPort =>
    have hBounded := parseAuthority_bounded hLength hUser (by simp)
    have hContains : (name ++ closeBracket :: colon :: portStr).contains closeBracket = true :=
      List.contains_iff_mem.mpr (List.mem_append_right name List.mem_cons_self)
    rw [parseAuthority, if_neg hBounded, if_pos List.head?_cons, List.tail_cons]
    simp only [hContains, not_true_eq_false, if_false, takeWhile_cut hName, dropWhile_cut hName, List.tail_cons]
    rw [if_neg, parsePort_iff.mpr ⟨hParse, hPort⟩, Option.map_some]
    rintro (hColon | hEmpty)
    · exact hColon rfl
    · exact hNe (List.isEmpty_iff.mp hEmpty)

private theorem valid_of_parseAuthority {authority host : Str} {port : Nat} (h : parseAuthority authority = some (host, port)) :
    ValidAuthority authority host port := by
  rw [parseAuthority] at h
  by_cases hBad : authority.isEmpty ∨ 512 < authority.length ∨ authority.contains atSign
  · rw [if_pos hBad] at h
    cases h
  · rw [if_neg hBad] at h
    obtain ⟨-, hLength, hUser⟩ : ¬ authority.isEmpty = true ∧ ¬ 512 < authority.length ∧ ¬ authority.contains atSign = true :=
      ⟨fun h => hBad (Or.inl h), fun h => hBad (Or.inr (Or.inl h)), fun h => hBad (Or.inr (Or.inr h))⟩
    refine ⟨Nat.not_lt.mp hLength, fun hMem => hUser (List.contains_iff_mem.mpr hMem), ?_⟩
    by_cases hFirst : authority.head? = some openBracket
    · obtain ⟨rest, rfl⟩ : ∃ rest, authority = openBracket :: rest := by
        cases authority with
        | nil => cases hFirst
        | cons b rest => exact ⟨rest, by rw [Option.some.inj hFirst]⟩
      rw [if_pos hFirst, List.tail_cons] at h
      dsimp only at h
      by_cases hClose : closeBracket ∈ rest
      · obtain ⟨name, tail, rfl, hName⟩ := List.eq_append_cons_of_mem hClose
        rw [if_neg (not_not.mpr (List.contains_iff_mem.mpr hClose)), takeWhile_cut hName, dropWhile_cut hName,
          List.tail_cons] at h
        cases tail with
        | nil => cases h
        | cons b portStr =>
          dsimp only at h
          split_ifs at h with hBad
          obtain ⟨n, hPort, hEq⟩ := Option.map_eq_some_iff.mp h
          obtain ⟨hParse, hPositive⟩ := parsePort_iff.mp hPort
          obtain ⟨rfl, rfl⟩ := Prod.mk.inj hEq
          obtain rfl : b = colon := not_not.mp fun hb => hBad (Or.inl hb)
          exact Names.bracketed (fun hNil => hBad (Or.inr (List.isEmpty_iff.mpr hNil))) hName hParse hPositive
      · rw [if_pos fun hMem => hClose (List.contains_iff_mem.mp hMem)] at h
        cases h
    · rw [if_neg hFirst] at h
      cases hColon : rfind colon authority with
      | none =>
        rw [hColon] at h
        cases h
      | some i =>
        rw [hColon] at h
        dsimp only at h
        cases hPort : parsePort (authority.drop (i + 1)) with
        | none =>
          rw [hPort] at h
          cases h
        | some n =>
          rw [hPort] at h
          obtain ⟨hParse, hPositive⟩ := parsePort_iff.mp hPort
          have hSplit := rfind_append hColon
          have hHead : (authority.take i).head? ≠ some openBracket := by
            intro hEq
            rw [← hSplit, List.head?_append, hEq] at hFirst
            exact hFirst rfl
          rw [← hSplit]
          dsimp only at h
          by_cases hEmpty : (authority.take i).isEmpty = true
          · rw [if_pos hEmpty] at h
            obtain ⟨rfl, rfl⟩ := Prod.mk.inj (Option.some.inj h)
            rw [List.isEmpty_iff.mp hEmpty]
            exact @Names.named [] _ _ (by simp) (fun b hb => absurd hb List.not_mem_nil) hParse hPositive
          · rw [if_neg hEmpty] at h
            split_ifs at h with hAny
            obtain ⟨rfl, rfl⟩ := Prod.mk.inj (Option.some.inj h)
            refine Names.named hHead (fun b hb hMem => hAny ?_) hParse hPositive
            exact List.any_eq_true.mpr ⟨b, hb, decide_eq_true hMem⟩

theorem parseAuthority_iff {authority host : Str} {port : Nat} :
    parseAuthority authority = some (host, port) ↔ ValidAuthority authority host port :=
  ⟨valid_of_parseAuthority, parseAuthority_of_valid⟩

/-- HTTP/3 at an authority, for a positive age that ends at an instant the clock can hold. -/
def Advertises (origin : AltSvcOrigin) (now : Instant) (alt : ParsedAlternative) (endpoint : Str × Nat × Instant) : Prop :=
  eqIgnoreAsciiCase alt.protocol (utf8 "h3") = true ∧
  (∃ host, ValidAuthority alt.authority host endpoint.2.1 ∧ endpoint.1 = if host = [] then origin.host else host) ∧
  0 < alt.ma.getD altSvcDefaultMaSecs ∧
  now + secs (alt.ma.getD altSvcDefaultMaSecs) < secs (2 ^ 63) ∧
  endpoint.2.2 = now + secs (alt.ma.getD altSvcDefaultMaSecs)

def FirstFound {α β : Type} (P : α → β → Prop) (l : List α) : Option β → Prop
  | none => ∀ a ∈ l, ∀ b, ¬ P a b
  | some b => ∃ before a after, l = before ++ a :: after ∧ P a b ∧ ∀ a' ∈ before, ∀ b', ¬ P a' b'

theorem firstFound_iff {α β : Type} {P : α → β → Prop} {f : α → Option β} (h : ∀ a b, f a = some b ↔ P a b) (l : List α)
    (found : Option β) : FirstFound P l found ↔ found = l.findSome? f := by
  have hNone : ∀ a, f a = none ↔ ∀ b, ¬ P a b := by
    intro a
    rw [Option.eq_none_iff_forall_ne_some]
    exact forall_congr' fun b => not_congr (h a b)
  cases found with
  | none =>
    rw [FirstFound, eq_comm, List.findSome?_eq_none_iff]
    exact forall₂_congr fun a _ => (hNone a).symm
  | some b =>
    rw [FirstFound, eq_comm, List.findSome?_eq_some_iff]
    refine exists₃_congr fun before a after => and_congr_right fun _ => and_congr (h a b).symm ?_
    exact forall₂_congr fun a' _ => (hNone a').symm

theorem usableAlternative_iff {origin : AltSvcOrigin} {now : Instant} {alt : ParsedAlternative} {endpoint : Str × Nat × Instant} :
    usableAlternative origin now alt = some endpoint ↔ Advertises origin now alt endpoint := by
  rw [usableAlternative, Advertises]
  by_cases hProtocol : eqIgnoreAsciiCase alt.protocol (utf8 "h3") = true
  · rw [if_neg (not_not.mpr hProtocol)]
    cases hParse : parseAuthority alt.authority with
    | none =>
      constructor
      · intro h
        cases h
      · rintro ⟨-, ⟨host, hValid, -⟩, -⟩
        rw [parseAuthority_iff.mpr hValid] at hParse
        cases hParse
    | some named =>
      obtain ⟨host, port⟩ := named
      have hNamed : ∀ host' port', ValidAuthority alt.authority host' port' ↔ host' = host ∧ port' = port := by
        intro host' port'
        rw [← parseAuthority_iff, hParse, Option.some.injEq, Prod.mk.injEq, eq_comm, @eq_comm _ port]
      simp only [hNamed, Instant.checkedAdd, hProtocol, true_and]
      by_cases hZero : alt.ma.getD altSvcDefaultMaSecs = 0
      · rw [if_pos hZero]
        exact ⟨fun h => (by cases h), fun h => absurd hZero (Nat.pos_iff_ne_zero.mp h.2.1)⟩
      · rw [if_neg hZero]
        obtain ⟨altHost, altPort, expiresAt⟩ := endpoint
        by_cases hFits : now + secs (alt.ma.getD altSvcDefaultMaSecs) < secs (2 ^ 63)
        · rw [if_pos hFits, Option.map_some, Option.some.injEq, Prod.mk.injEq, Prod.mk.injEq]
          constructor
          · rintro ⟨rfl, rfl, rfl⟩
            refine ⟨⟨host, ⟨rfl, rfl⟩, ?_⟩, Nat.pos_iff_ne_zero.mpr hZero, hFits, rfl⟩
            simp only [List.isEmpty_iff]
          · rintro ⟨⟨named, ⟨rfl, rfl⟩, rfl⟩, -, -, rfl⟩
            simp only [List.isEmpty_iff, true_and]
        · rw [if_neg hFits]
          exact ⟨fun h => (by cases h), fun h => absurd h.2.2.1 hFits⟩
  · rw [if_pos hProtocol]
    exact ⟨fun h => (by cases h), fun h => absurd h.1 hProtocol⟩

end Eggfetch.AltSvc
