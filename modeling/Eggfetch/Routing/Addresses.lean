import Eggfetch.Routing.Proxies
import Eggfetch.Text.Unique
import Mathlib.Data.List.Infix

/-! Socket addresses as `std::net` writes them, and what a text leaves open: the flow information
of an IPv6 address. -/
namespace Eggfetch.Routing
open Text Http

/-- `{}` of an unsigned integer. -/
def decimal (n : Nat) : Str := utf8 (toString n)

/-- `{:x}` -/
def hex (n : Nat) : Str := utf8 (String.ofList (Nat.toDigits 16 n))

def octets (ip : BitVec 32) : List Nat := (digitsOf 256 4 ip.toNat).reverse

def segments (ip : BitVec 128) : List Nat := (digitsOf 65536 8 ip.toNat).reverse

def ipv4Text (ip : BitVec 32) : Str := [dot].intercalate ((octets ip).map decimal)

/-- A run of zero segments. -/
structure Span where
  start : Nat := 0
  len : Nat := 0

/-- The first longest run, from the `i`th segment on. -/
def longestZeros : Nat → Span → Span → List Nat → Span
  | _, longest, _, [] => longest
  | i, longest, current, segment :: rest =>
    if segment = 0 then
      let current : Span := ⟨if current.len = 0 then i else current.start, current.len + 1⟩
      longestZeros (i + 1) (if longest.len < current.len then current else longest) current rest
    else longestZeros (i + 1) longest {} rest

def fmtSubslice (chunk : List Nat) : Str := [Proxy.colon].intercalate (chunk.map hex)

def ipv6Text (ip : BitVec 128) : Str :=
  if ip.toNat / 2 ^ 32 = 0xffff then utf8 "::ffff:" ++ ipv4Text (ip.setWidth 32)
  else
    let zeroes := longestZeros 0 {} {} (segments ip)
    if 1 < zeroes.len then
      fmtSubslice ((segments ip).take zeroes.start) ++ Proxy.colon :: Proxy.colon ::
        fmtSubslice ((segments ip).drop (zeroes.start + zeroes.len))
    else fmtSubslice (segments ip)

namespace SocketAddr

/-- `to_string` -/
def text : SocketAddr → Str
  | v4 ip port => ipv4Text ip ++ Proxy.colon :: decimal port
  | v6 ip port _ scopeId =>
    openBracket :: (ipv6Text ip ++ if scopeId = 0 then [] else 0x25 :: decimal scopeId) ++
      closeBracket :: Proxy.colon :: decimal port

def withoutFlowinfo : SocketAddr → SocketAddr
  | v4 ip port => v4 ip port
  | v6 ip port _ scopeId => v6 ip port 0 scopeId

def flowinfo : SocketAddr → Nat
  | v4 _ _ => 0
  | v6 _ _ flowinfo _ => flowinfo

theorem eq_iff {a b : SocketAddr} : a = b ↔ a.withoutFlowinfo = b.withoutFlowinfo ∧ a.flowinfo = b.flowinfo := by
  cases a with
  | v4 ip port => cases b with
    | v4 ip' port' => simp [withoutFlowinfo, flowinfo]
    | v6 ip' port' flow' scope' => simp [withoutFlowinfo]
  | v6 ip port flow scope => cases b with
    | v4 ip' port' => simp [withoutFlowinfo]
    | v6 ip' port' flow' scope' =>
      simp only [withoutFlowinfo, flowinfo, v6.injEq, true_and]
      exact ⟨fun ⟨hip, hport, hflow, hscope⟩ => ⟨⟨hip, hport, hscope⟩, hflow⟩, fun ⟨⟨hip, hport, hscope⟩, hflow⟩ =>
        ⟨hip, hport, hflow, hscope⟩⟩

end SocketAddr

theorem decimal_inj {m n : Nat} : decimal m = decimal n ↔ m = n := by
  rw [decimal, decimal, utf8_inj, Nat.toString_eq_ofList_toDigits, Nat.toString_eq_ofList_toDigits, String.ofList_inj,
    toDigits_inj (by decide) (by decide)]

theorem hex_inj {m n : Nat} : hex m = hex n ↔ m = n := by
  rw [hex, hex, utf8_inj, String.ofList_inj, toDigits_inj (by decide) (by decide)]

theorem isDigit_decimal {n : Nat} : ∀ b ∈ decimal n, isDigit b = true := by
  intro b hb
  rw [decimal, Nat.toString_eq_ofList_toDigits] at hb
  obtain ⟨d, hd, rfl⟩ := mem_numeral (by decide) hb (by decide)
  have hall : ∀ d < 10, isDigit (UInt8.ofNat d.digitChar.toNat) = true := by decide
  exact hall d hd

def isHexByte (b : UInt8) : Bool := isDigit b || (0x61 ≤ b && b ≤ 0x66)

theorem isHexByte_hex {n : Nat} : ∀ b ∈ hex n, isHexByte b = true := by
  intro b hb
  obtain ⟨d, hd, rfl⟩ := mem_numeral (by decide) hb (by decide)
  have hall : ∀ d < 16, isHexByte (UInt8.ofNat d.digitChar.toNat) = true := by decide
  exact hall d hd

theorem isHexByte_decimal {n : Nat} : ∀ b ∈ decimal n, isHexByte b = true :=
  fun b hb => Bool.or_eq_true_iff.mpr (.inl (isDigit_decimal b hb))

theorem hex_ne_nil {n : Nat} : hex n ≠ [] := by
  rw [hex]
  have hempty : utf8 "" = [] := rfl
  rw [← hempty, Ne, utf8_inj, ← String.ofList_nil, String.ofList_inj]
  exact Nat.toDigits_ne_nil

/-- A separator of a text is no byte of its numerals. -/
theorem not_mem_of_bytes {c : UInt8} (hc : isHexByte c = false) {s : Str} (h : ∀ b ∈ s, isHexByte b = true) : c ∉ s := by
  intro hmem
  rw [h c hmem] at hc
  cases hc

/-- The bytes of joined numerals. -/
theorem mem_join {sep b : UInt8} {xs : List Str} (hxs : ∀ x ∈ xs, ∀ b ∈ x, isHexByte b = true) (hb : b ∈ [sep].intercalate xs) :
    isHexByte b = true ∨ b = sep := by
  induction xs with
  | nil => cases hb
  | cons x xs ih =>
    obtain ⟨hx, hxs⟩ := List.forall_mem_cons.mp hxs
    cases xs with
    | nil =>
      rw [List.intercalate_singleton] at hb
      exact .inl (hx b hb)
    | cons x' xs =>
      rw [List.intercalate_cons_cons, List.append_assoc] at hb
      rcases List.mem_append.mp hb with hb | hb
      · exact .inl (hx b hb)
      · rcases List.mem_append.mp hb with hb | hb
        · exact .inr (List.mem_singleton.mp hb)
        · exact ih hxs hb

theorem octets_inj {a b : BitVec 32} : octets a = octets b ↔ a = b := by
  have hfits (ip : BitVec 32) : ip.toNat < 256 ^ 4 := Nat.lt_of_lt_of_eq ip.isLt (by decide)
  rw [octets, octets, List.reverse_inj, digitsOf_inj (hfits a) (hfits b), BitVec.toNat_inj]

theorem octets_ne_nil {ip : BitVec 32} : (octets ip).map decimal ≠ [] := by
  rw [Ne, List.map_eq_nil_iff, octets, List.reverse_eq_nil_iff]
  exact List.cons_ne_nil _ _

theorem isHexByte_octets {ip : BitVec 32} : ∀ x ∈ (octets ip).map decimal, ∀ b ∈ x, isHexByte b = true := by
  intro x hx
  obtain ⟨n, -, rfl⟩ := List.mem_map.mp hx
  exact isHexByte_decimal

theorem mem_ipv4Text {ip : BitVec 32} {b : UInt8} (hb : b ∈ ipv4Text ip) : isHexByte b = true ∨ b = dot :=
  mem_join isHexByte_octets hb

theorem dot_mem_ipv4Text {ip : BitVec 32} : dot ∈ ipv4Text ip := by
  have hlength : 1 < ((octets ip).map decimal).length := by
    rw [List.length_map, octets, List.length_reverse, length_digitsOf]
    decide
  rw [ipv4Text]
  generalize (octets ip).map decimal = xs at hlength
  rcases xs with _ | ⟨x, _ | ⟨x', xs⟩⟩
  · exact absurd hlength (by decide)
  · exact absurd hlength (Nat.lt_irrefl 1)
  · rw [List.intercalate_cons_cons]
    exact List.mem_append_left _ (List.mem_append_right _ (List.mem_singleton_self dot))

theorem ipv4Text_inj {a b : BitVec 32} : ipv4Text a = ipv4Text b ↔ a = b := by
  have hdot {ip : BitVec 32} : ∀ x ∈ (octets ip).map decimal, dot ∉ x :=
    fun x hx => not_mem_of_bytes rfl (isHexByte_octets x hx)
  have hdecimal : Function.Injective decimal := fun _ _ => decimal_inj.mp
  rw [ipv4Text, ipv4Text, intercalate_inj octets_ne_nil octets_ne_nil hdot hdot, hdecimal.list_map.eq_iff, octets_inj]

theorem segments_inj {a b : BitVec 128} : segments a = segments b ↔ a = b := by
  have hfits (ip : BitVec 128) : ip.toNat < 65536 ^ 8 := Nat.lt_of_lt_of_eq ip.isLt (by decide)
  rw [segments, segments, List.reverse_inj, digitsOf_inj (hfits a) (hfits b), BitVec.toNat_inj]

private theorem length_segments (ip : BitVec 128) : (segments ip).length = 8 := by
  rw [segments, List.length_reverse, length_digitsOf]

def Span.Zero (s : Span) (whole : List Nat) : Prop := ∀ j, s.start ≤ j → j < s.start + s.len → whole[j]? = some 0

theorem longestZeros_zero {whole before rest : List Nat} {longest current : Span} (hwhole : whole = before ++ rest)
    (hlongest : longest.Zero whole) (hcurrent : current.len ≠ 0 → current.start + current.len = before.length ∧
      current.Zero whole) :
    (longestZeros before.length longest current rest).Zero whole := by
  induction rest generalizing before longest current with
  | nil => exact hlongest
  | cons segment rest ih =>
    have hnext : whole = (before ++ [segment]) ++ rest := by rw [hwhole, List.append_assoc]; rfl
    have hlength : before.length + 1 = (before ++ [segment]).length := by rw [List.length_append, List.length_singleton]
    rw [longestZeros]
    split
    · rename_i hzero
      have hhere : whole[before.length]? = some 0 := by
        rw [hwhole, List.getElem?_append_right (Nat.le_refl _), Nat.sub_self, List.getElem?_cons_zero, hzero]
      have hgrown : Span.Zero ⟨if current.len = 0 then before.length else current.start, current.len + 1⟩ whole := by
        intro j hstart hend
        dsimp only at hstart hend
        split at hstart
        · rename_i hnone
          rw [if_pos hnone, hnone] at hend
          obtain rfl : j = before.length := by omega
          exact hhere
        · rename_i hsome
          obtain ⟨hreach, hcurrent⟩ := hcurrent hsome
          rw [if_neg hsome] at hend
          by_cases hj : j = before.length
          · rw [hj, hhere]
          · exact hcurrent j hstart (by omega)
      rw [hlength]
      refine ih hnext ?_ fun _ => ⟨?_, hgrown⟩
      · by_cases hlonger : longest.len < current.len + 1
        · rw [if_pos hlonger]
          exact hgrown
        · rw [if_neg hlonger]
          exact hlongest
      · rw [← hlength]
        dsimp only
        split
        · omega
        · rename_i hsome
          have hreach := (hcurrent hsome).1
          omega
    · rw [hlength]
      exact ih hnext hlongest fun hsome => absurd rfl hsome

private theorem span_inj {a b : BitVec 128} {s s' : Span} (ha : s.Zero (segments a)) (hb : s'.Zero (segments b))
    (hsome : 0 < s.len) (hsome' : 0 < s'.len)
    (hbefore : (segments a).take s.start = (segments b).take s'.start)
    (hafter : (segments a).drop (s.start + s.len) = (segments b).drop (s'.start + s'.len)) : segments a = segments b := by
  have hwithin {ip : BitVec 128} {s : Span} (h : s.Zero (segments ip)) (hsome : 0 < s.len) : s.start + s.len ≤ 8 := by
    have hlast := h (s.start + s.len - 1) (by omega) (by omega)
    have hlt := (List.getElem?_eq_some_iff.mp hlast).1
    rw [length_segments] at hlt
    omega
  have hs := hwithin ha hsome
  have hs' := hwithin hb hsome'
  have hstart : s.start = s'.start := by
    have hlength := congrArg List.length hbefore
    rw [List.length_take, List.length_take, length_segments, length_segments] at hlength
    omega
  have hend : s.start + s.len = s'.start + s'.len := by
    have hlength := congrArg List.length hafter
    rw [List.length_drop, List.length_drop, length_segments, length_segments] at hlength
    omega
  refine List.ext_getElem? fun j => ?_
  by_cases hj : j < s.start
  · have htake := congrArg (·[j]?) hbefore
    rwa [List.getElem?_take_of_lt hj, List.getElem?_take_of_lt (hstart ▸ hj)] at htake
  · by_cases hj' : j < s.start + s.len
    · rw [ha j (by omega) hj', hb j (by omega) (by omega)]
    · have hdrop := congrArg (·[j - (s.start + s.len)]?) hafter
      rwa [List.getElem?_drop, hend, List.getElem?_drop, Nat.add_sub_of_le (by omega)] at hdrop

def parts (chunk : List Nat) : List Str := if chunk = [] then [[]] else chunk.map hex

private theorem parts_ne_nil {chunk : List Nat} : parts chunk ≠ [] := by
  rw [parts]
  split
  · exact List.cons_ne_nil _ _
  · rename_i hsome
    rwa [Ne, List.map_eq_nil_iff]

private theorem fmtSubslice_eq (chunk : List Nat) : fmtSubslice chunk = [Proxy.colon].intercalate (parts chunk) := by
  rw [fmtSubslice, parts]
  split
  · rename_i hnone
    rw [hnone]
    rfl
  · rfl

theorem isHexByte_parts {chunk : List Nat} : ∀ x ∈ parts chunk, ∀ b ∈ x, isHexByte b = true := by
  rw [parts]
  split
  · intro x hx b hb
    rw [List.mem_singleton.mp hx] at hb
    cases hb
  · intro x hx
    obtain ⟨n, -, rfl⟩ := List.mem_map.mp hx
    exact isHexByte_hex

theorem compressed_eq (left right : List Nat) : fmtSubslice left ++ Proxy.colon :: Proxy.colon :: fmtSubslice right =
    [Proxy.colon].intercalate (parts left ++ [] :: parts right) := by
  have hright : [Proxy.colon].intercalate ([] :: parts right) = Proxy.colon :: fmtSubslice right := by
    have hpair : [Proxy.colon].intercalate ([[]] ++ parts right) = [] ++ Proxy.colon :: [Proxy.colon].intercalate (parts right) :=
      intercalate_append (List.cons_ne_nil _ _) parts_ne_nil
    rw [fmtSubslice_eq]
    exact hpair
  rw [intercalate_append parts_ne_nil (List.cons_ne_nil _ _), hright, fmtSubslice_eq left]

private theorem takeWhile_parts (chunk : List Nat) (rest : List Str) :
    (parts chunk ++ [] :: rest).takeWhile (!·.isEmpty) = chunk.map hex := by
  rw [parts]
  split
  · rename_i hnone
    rw [hnone]
    rfl
  · rw [List.takeWhile_append_of_pos]
    · simp
    · intro x hx
      obtain ⟨n, -, rfl⟩ := List.mem_map.mp hx
      simp [hex_ne_nil]

private theorem parts_reverse (chunk : List Nat) : (parts chunk).reverse = parts chunk.reverse := by
  rw [parts, parts]
  by_cases hnone : chunk = []
  · rw [if_pos hnone, if_pos (by rw [hnone]; rfl)]
    rfl
  · rw [if_neg hnone, if_neg (by rwa [List.reverse_eq_nil_iff]), List.map_reverse]

theorem compressed_inj {left right left' right' : List Nat}
    (h : parts left ++ [] :: parts right = parts left' ++ [] :: parts right') : left = left' ∧ right = right' := by
  have hhex : Function.Injective hex := fun _ _ => hex_inj.mp
  have hreverse (l r : List Nat) : (parts l ++ [] :: parts r).reverse = parts r.reverse ++ [] :: parts l.reverse := by
    rw [List.reverse_append, List.reverse_cons, List.append_assoc, parts_reverse, parts_reverse]
    rfl
  have hbefore := congrArg (List.takeWhile (!·.isEmpty)) h
  have hafter := congrArg (fun xs => List.takeWhile (!·.isEmpty) xs.reverse) h
  rw [takeWhile_parts, takeWhile_parts, hhex.list_map.eq_iff] at hbefore
  rw [hreverse, hreverse, takeWhile_parts, takeWhile_parts, hhex.list_map.eq_iff, List.reverse_inj] at hafter
  exact ⟨hbefore, hafter⟩

def addressPieces (ip : BitVec 128) : List Str :=
  let zeroes := longestZeros 0 {} {} (segments ip)
  if 1 < zeroes.len then parts ((segments ip).take zeroes.start) ++ [] :: parts ((segments ip).drop (zeroes.start + zeroes.len))
  else (segments ip).map hex

theorem ipv6Text_eq {ip : BitVec 128} (h : ip.toNat / 2 ^ 32 ≠ 0xffff) :
    ipv6Text ip = [Proxy.colon].intercalate (addressPieces ip) := by
  rw [ipv6Text, if_neg h, addressPieces]
  dsimp only
  split
  · rw [compressed_eq]
  · rfl

private theorem isHexByte_segments {ip : BitVec 128} : ∀ x ∈ (segments ip).map hex, ∀ b ∈ x, isHexByte b = true := by
  intro x hx
  obtain ⟨n, -, rfl⟩ := List.mem_map.mp hx
  exact isHexByte_hex

theorem isHexByte_pieces {ip : BitVec 128} : ∀ x ∈ addressPieces ip, ∀ b ∈ x, isHexByte b = true := by
  rw [addressPieces]
  split
  · intro x hx
    rcases List.mem_append.mp hx with hx | hx
    · exact isHexByte_parts x hx
    · rcases List.mem_cons.mp hx with rfl | hx
      · exact fun b hb => absurd hb List.not_mem_nil
      · exact isHexByte_parts x hx
  · exact isHexByte_segments

private theorem pieces_ne_nil {ip : BitVec 128} : addressPieces ip ≠ [] := by
  rw [addressPieces]
  split
  · exact List.append_ne_nil_of_right_ne_nil _ (List.cons_ne_nil _ _)
  · rw [Ne, List.map_eq_nil_iff, segments, List.reverse_eq_nil_iff]
    exact List.cons_ne_nil _ _

private theorem pieces_inj {a b : BitVec 128} (h : addressPieces a = addressPieces b) : a = b := by
  have hzero (ip : BitVec 128) : (longestZeros 0 {} {} (segments ip)).Zero (segments ip) :=
    @longestZeros_zero _ [] _ _ _ rfl (fun j _ hend => absurd hend (Nat.not_lt_zero j)) fun hsome => absurd rfl hsome
  -- A compressed address has an empty piece, and a full one has none.
  have hfull {ip : BitVec 128} {left right : List Nat} (heq : parts left ++ [] ::
      parts right = (segments ip).map hex) : False := by
    have hmem : [] ∈ (segments ip).map hex := by rw [← heq]; exact List.mem_append_right _ List.mem_cons_self
    obtain ⟨n, -, hn⟩ := List.mem_map.mp hmem
    exact hex_ne_nil hn
  have hhex : Function.Injective hex := fun _ _ => hex_inj.mp
  rw [← segments_inj]
  rw [addressPieces, addressPieces] at h
  split at h
  · rename_i ha
    split at h
    · rename_i hb
      obtain ⟨hbefore, hafter⟩ := compressed_inj h
      exact span_inj (hzero a) (hzero b) (Nat.lt_of_succ_lt ha) (Nat.lt_of_succ_lt hb) hbefore hafter
    · exact (hfull h).elim
  · split at h
    · exact (hfull h.symm).elim
    · exact hhex.list_map.eq_iff.mp h

private theorem mapped_inj {a b : BitVec 128} (ha : a.toNat / 2 ^ 32 = 0xffff) (hb : b.toNat / 2 ^ 32 = 0xffff)
    (h : a.setWidth 32 = b.setWidth 32) : a = b := by
  have hlow := congrArg BitVec.toNat h
  rw [BitVec.toNat_setWidth, BitVec.toNat_setWidth] at hlow
  rw [← BitVec.toNat_inj, ← Nat.div_add_mod a.toNat (2 ^ 32), ← Nat.div_add_mod b.toNat (2 ^ 32), ha, hb, hlow]

private theorem ipv6Text_inj {a b : BitVec 128} : ipv6Text a = ipv6Text b ↔ a = b := by
  refine ⟨fun h => ?_, fun h => h ▸ rfl⟩
  -- The dots of the IPv4 part are in no other text.
  have hdot {ip ip' : BitVec 128} (heq : utf8 "::ffff:" ++
    ipv4Text (ip.setWidth 32) = [Proxy.colon].intercalate (addressPieces ip')) :
      False := by
    have hmem : dot ∈ [Proxy.colon].intercalate (addressPieces ip') := by
      rw [← heq]
      exact List.mem_append_right _ dot_mem_ipv4Text
    rcases mem_join isHexByte_pieces hmem with hbyte | hcolon
    · cases hbyte
    · cases hcolon
  have hcolon {ip : BitVec 128} : ∀ x ∈ addressPieces ip, Proxy.colon ∉ x :=
    fun x hx => not_mem_of_bytes rfl (isHexByte_pieces x hx)
  have hmapped {ip : BitVec 128} (hip : ip.toNat / 2 ^ 32 = 0xffff) :
      ipv6Text ip = utf8 "::ffff:" ++ ipv4Text (ip.setWidth 32) := by
    rw [ipv6Text, if_pos hip]
  by_cases ha : a.toNat / 2 ^ 32 = 0xffff
  · rw [hmapped ha] at h
    by_cases hb : b.toNat / 2 ^ 32 = 0xffff
    · rw [hmapped hb, List.append_cancel_left_eq, ipv4Text_inj] at h
      exact mapped_inj ha hb h
    · rw [ipv6Text_eq hb] at h
      exact (hdot h).elim
  · rw [ipv6Text_eq ha] at h
    by_cases hb : b.toNat / 2 ^ 32 = 0xffff
    · rw [hmapped hb] at h
      exact (hdot h.symm).elim
    · rw [ipv6Text_eq hb, intercalate_inj pieces_ne_nil pieces_ne_nil hcolon hcolon] at h
      exact pieces_inj h

theorem mem_ipv6Text {ip : BitVec 128} {b : UInt8} (hb : b ∈ ipv6Text ip) : isHexByte b = true ∨ b = Proxy.colon ∨ b = dot := by
  by_cases hmapped : ip.toNat / 2 ^ 32 = 0xffff
  · rw [ipv6Text, if_pos hmapped] at hb
    rcases List.mem_append.mp hb with hb | hb
    · have hall : ∀ b ∈ utf8 "::ffff:", isHexByte b = true ∨ b = Proxy.colon := by decide +kernel
      exact (hall b hb).imp id .inl
    · exact (mem_ipv4Text hb).imp id .inr
  · rw [ipv6Text_eq hmapped] at hb
    exact (mem_join isHexByte_pieces hb).imp id .inl

namespace SocketAddr

/-- The bytes between the brackets. -/
theorem mem_bracketed {ip : BitVec 128} {scopeId : Nat} {b : UInt8}
    (hb : b ∈ ipv6Text ip ++ if scopeId = 0 then [] else 0x25 :: decimal scopeId) :
    isHexByte b = true ∨ b = Proxy.colon ∨ b = dot ∨ b = 0x25 := by
  rcases List.mem_append.mp hb with hb | hb
  · exact (mem_ipv6Text hb).imp id (Or.imp id .inl)
  · split at hb
    · cases hb
    · rcases List.mem_cons.mp hb with hb | hb
      · exact .inr (.inr (.inr hb))
      · exact .inl (isHexByte_decimal b hb)

theorem bracketed_inj {ip ip' : BitVec 128} {scopeId scopeId' : Nat} :
    (ipv6Text ip ++ if scopeId = 0 then [] else 0x25 :: decimal scopeId) =
        (ipv6Text ip' ++ if scopeId' = 0 then [] else 0x25 :: decimal scopeId') ↔ ip = ip' ∧ scopeId = scopeId' := by
  have hpercent (ip : BitVec 128) : (0x25 : UInt8) ∉ ipv6Text ip := by
    intro hmem
    rcases mem_ipv6Text hmem with hbyte | hcolon | hdot
    · cases hbyte
    · cases hcolon
    · cases hdot
  by_cases hscope : scopeId = 0
  · rw [if_pos hscope, List.append_nil]
    by_cases hscope' : scopeId' = 0
    · rw [if_pos hscope', List.append_nil, ipv6Text_inj, hscope, hscope', and_iff_left rfl]
    · rw [if_neg hscope']
      refine iff_of_false (fun h => hpercent ip ?_) fun h => hscope' (h.2 ▸ hscope)
      rw [h]
      exact List.mem_append_right _ List.mem_cons_self
  · rw [if_neg hscope]
    by_cases hscope' : scopeId' = 0
    · rw [if_pos hscope', List.append_nil]
      refine iff_of_false (fun h => hpercent ip' ?_) fun h => hscope (h.2 ▸ hscope')
      rw [← h]
      exact List.mem_append_right _ List.mem_cons_self
    · rw [if_neg hscope', append_sep_inj (hpercent ip) (hpercent ip'), ipv6Text_inj, decimal_inj]

theorem colon_not_mem_ipv4Text {ip : BitVec 32} : Proxy.colon ∉ ipv4Text ip := by
  intro hmem
  rcases mem_ipv4Text hmem with hbyte | hdot
  · cases hbyte
  · cases hdot

theorem closeBracket_not_mem {ip : BitVec 128} {scopeId : Nat} :
    closeBracket ∉ ipv6Text ip ++ if scopeId = 0 then [] else 0x25 :: decimal scopeId := by
  intro hmem
  rcases mem_bracketed hmem with hbyte | hcolon | hdot | hpercent
  · cases hbyte
  · cases hcolon
  · cases hdot
  · cases hpercent

theorem openBracket_not_mem {ip : BitVec 32} {port : Nat} : openBracket ∉ ipv4Text ip ++ Proxy.colon :: decimal port := by
  intro hmem
  rcases List.mem_append.mp hmem with hmem | hmem
  · rcases mem_ipv4Text hmem with hbyte | hdot
    · cases hbyte
    · cases hdot
  · rcases List.mem_cons.mp hmem with hcolon | hmem
    · cases hcolon
    · cases isDigit_decimal _ hmem

/-- The text of an address tells everything but its flow information. -/
theorem text_inj {a b : SocketAddr} : a.text = b.text ↔ a.withoutFlowinfo = b.withoutFlowinfo := by
  cases a with
  | v4 ip port =>
    cases b with
    | v4 ip' port' =>
      rw [text, text, append_sep_inj colon_not_mem_ipv4Text colon_not_mem_ipv4Text, ipv4Text_inj, decimal_inj]
      exact v4.injEq .. ▸ Iff.rfl
    | v6 ip' port' flowinfo' scopeId' =>
      refine iff_of_false (fun h => @openBracket_not_mem ip port ?_) (by intro h; cases h)
      rw [text, text] at h
      rw [h]
      exact List.mem_cons_self
  | v6 ip port flowinfo scopeId =>
    cases b with
    | v4 ip' port' =>
      refine iff_of_false (fun h => @openBracket_not_mem ip' port' ?_) (by intro h; cases h)
      rw [text, text] at h
      rw [← h]
      exact List.mem_cons_self
    | v6 ip' port' flowinfo' scopeId' =>
      rw [text, text, List.cons_append, List.cons_append, List.cons_inj_right,
        append_sep_inj closeBracket_not_mem closeBracket_not_mem,
        bracketed_inj, List.cons_inj_right, decimal_inj, withoutFlowinfo, withoutFlowinfo]
      simp only [v6.injEq, true_and]
      exact ⟨fun ⟨⟨hip, hscope⟩, hport⟩ => ⟨hip, hport, hscope⟩, fun ⟨hip, hport, hscope⟩ => ⟨⟨hip, hscope⟩, hport⟩⟩

/-- A text has no zero byte. -/
theorem zero_not_mem_text (a : SocketAddr) : 0 ∉ a.text := by
  have hdecimal {n : Nat} : (0 : UInt8) ∉ decimal n := not_mem_of_bytes rfl isHexByte_decimal
  cases a with
  | v4 ip port =>
    intro hmem
    rcases List.mem_append.mp hmem with hmem | hmem
    · rcases mem_ipv4Text hmem with hbyte | hdot
      · cases hbyte
      · cases hdot
    · rcases List.mem_cons.mp hmem with hcolon | hmem
      · cases hcolon
      · exact hdecimal hmem
  | v6 ip port flowinfo scopeId =>
    intro hmem
    rcases List.mem_append.mp hmem with hmem | hmem
    · rcases List.mem_cons.mp hmem with hopen | hmem
      · cases hopen
      · rcases mem_bracketed hmem with hbyte | hcolon | hdot | hpercent
        · cases hbyte
        · cases hcolon
        · cases hdot
        · cases hpercent
    · rcases List.mem_cons.mp hmem with hclose | hmem
      · cases hclose
      · rcases List.mem_cons.mp hmem with hcolon | hmem
        · cases hcolon
        · exact hdecimal hmem

theorem text_ne_nil (a : SocketAddr) : a.text ≠ [] := by
  cases a with
  | v4 ip port => exact List.append_ne_nil_of_right_ne_nil _ (List.cons_ne_nil _ _)
  | v6 ip port flowinfo scopeId => exact List.cons_ne_nil _ _

end SocketAddr
end Eggfetch.Routing
