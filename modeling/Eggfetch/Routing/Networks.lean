import Eggfetch.Routing.NoProxy
import Eggfetch.Text.Ip

/-! The CIDR networks of a `NO_PROXY` list: the masks that their prefixes are turned into, and
what they contain. -/
namespace Eggfetch.Routing
open Text

section
variable {bits width : Nat}

private theorem getMsbD_mask (h : width ≤ bits) (i : Nat) :
    (BitVec.allOnes bits <<< (bits - width)).getMsbD i = decide (i < width) := by
  rw [BitVec.getMsbD_shiftLeft, BitVec.getMsbD_allOnes, decide_eq_decide]
  omega

private theorem and_mask_eq_iff (h : width ≤ bits) (a b : BitVec bits) :
    a &&& BitVec.allOnes bits <<< (bits - width) = b &&& BitVec.allOnes bits <<< (bits - width) ↔
      ∀ i < width, a.getMsbD i = b.getMsbD i := by
  constructor
  · intro hMasked i hi
    have hBit := congrArg (·.getMsbD i) hMasked
    simpa only [BitVec.getMsbD_and, getMsbD_mask h, hi, decide_true, Bool.and_true] using hBit
  · intro hAgree
    apply BitVec.eq_of_getMsbD_eq
    intro i _
    rw [BitVec.getMsbD_and, BitVec.getMsbD_and, getMsbD_mask h]
    by_cases hi : i < width
    · rw [hAgree i hi]
    · rw [decide_eq_false hi, Bool.and_false, Bool.and_false]

private theorem mask_zero (h : width = 0) : BitVec.allOnes bits <<< (bits - width) = 0 := by
  rw [h, Nat.sub_zero, BitVec.shiftLeft_eq_zero (Nat.le_refl bits)]
  rfl

end

/-- The shift of a mask; `none` where it, or the subtraction before it, overflows. -/
def checkedMask (bits width : Nat) : Option (BitVec bits) :=
  if width = 0 then some 0
  else if width ≤ bits ∧ bits - width < bits then some (BitVec.allOnes bits <<< (bits - width))
  else none

/-- `ip_in_network` with overflow checks. -/
def ipInNetworkChecked (candidate network : IpAddr) (width : Nat) : Option Bool :=
  match candidate, network with
  | .v4 candidate, .v4 network => (checkedMask 32 width).map fun mask => candidate &&& mask == network &&& mask
  | .v6 candidate, .v6 network => (checkedMask 128 width).map fun mask => candidate &&& mask == network &&& mask
  | _, _ => some false

def IpAddr.bits : IpAddr → Nat
  | v4 _ => 32
  | v6 _ => 128

def IpAddr.AgreeOn (width : Nat) : IpAddr → IpAddr → Prop
  | v4 a, v4 b => ∀ i < width, a.getMsbD i = b.getMsbD i
  | v6 a, v6 b => ∀ i < width, a.getMsbD i = b.getMsbD i
  | _, _ => False

/-- A prefix is treated as one. -/
structure MatchesPrefix (candidate network : IpAddr) (width : Nat) : Prop where
  checked : ipInNetworkChecked candidate network width = some (ipInNetwork candidate network width)
  contains : ipInNetwork candidate network width = true ↔ candidate.AgreeOn width network
  wider : ipInNetwork candidate network width = true → ∀ w ≤ width, ipInNetwork candidate network w = true

section
variable {candidate network : IpAddr} {width w : Nat}

private theorem checkedMask_eq {bits : Nat} (h : width ≤ bits) :
    checkedMask bits width = some (if width = 0 then 0 else BitVec.allOnes bits <<< (bits - width)) := by
  rw [checkedMask]
  by_cases hZero : width = 0
  · rw [if_pos hZero, if_pos hZero]
  · have hShift : width ≤ bits ∧ bits - width < bits := by omega
    rw [if_neg hZero, if_neg hZero, if_pos hShift]

private theorem mask_eq {bits : Nat} :
    (if width = 0 then 0 else BitVec.allOnes bits <<< (bits - width)) = BitVec.allOnes bits <<< (bits - width) := by
  split_ifs with hZero
  · rw [mask_zero hZero]
  · rfl

private theorem ipInNetworkChecked_eq (h : width ≤ network.bits) :
    ipInNetworkChecked candidate network width = some (ipInNetwork candidate network width) := by
  cases candidate with
  | v4 a =>
    cases network with
    | v4 b =>
      have hWidth : width ≤ 32 := h
      rw [ipInNetworkChecked, checkedMask_eq hWidth]
      rfl
    | v6 b => rfl
  | v6 a =>
    cases network with
    | v4 b => rfl
    | v6 b =>
      have hWidth : width ≤ 128 := h
      rw [ipInNetworkChecked, checkedMask_eq hWidth]
      rfl

theorem ipInNetwork_iff (h : width ≤ network.bits) :
    ipInNetwork candidate network width = true ↔ candidate.AgreeOn width network := by
  cases candidate with
  | v4 a =>
    cases network with
    | v4 b =>
      rw [ipInNetwork, mask_eq, beq_iff_eq]
      exact and_mask_eq_iff h a b
    | v6 b => exact iff_of_false Bool.false_ne_true id
  | v6 a =>
    cases network with
    | v4 b => exact iff_of_false Bool.false_ne_true id
    | v6 b =>
      rw [ipInNetwork, mask_eq, beq_iff_eq]
      exact and_mask_eq_iff h a b

theorem IpAddr.AgreeOn.mono (h : candidate.AgreeOn width network) (hWider : w ≤ width) : candidate.AgreeOn w network := by
  cases candidate with
  | v4 a =>
    cases network with
    | v4 b => exact fun i hi => h i (Nat.lt_of_lt_of_le hi hWider)
    | v6 b => exact h
  | v6 a =>
    cases network with
    | v4 b => exact h
    | v6 b => exact fun i hi => h i (Nat.lt_of_lt_of_le hi hWider)

theorem matchesPrefix (h : width ≤ network.bits) : MatchesPrefix candidate network width := by
  refine ⟨ipInNetworkChecked_eq h, ipInNetwork_iff h, ?_⟩
  intro hContains w hWider
  have hAgree := (ipInNetwork_iff h).mp hContains
  exact (ipInNetwork_iff (Nat.le_trans hWider h)).mpr (hAgree.mono hWider)

end

def NoProxyRule.Fits : NoProxyRule → Prop
  | ipNetwork network width => width ≤ network.bits
  | _ => True

section
variable {lib : Library} {entry host port : Str} {exactLocalhost : Bool} {rule : NoProxyRule}

theorem parseNetwork_fits {width : Str} (h : parseNetwork lib entry host width = .ok rule) : rule.Fits := by
  rw [parseNetwork] at h
  cases hNetwork : lib.parseIp host with
  | none =>
    rw [hNetwork] at h
    cases h
  | some network =>
    cases hWidth : parseUnsigned 255 width with
    | none =>
      rw [hNetwork, hWidth] at h
      cases h
    | some width =>
      simp only [hNetwork, hWidth] at h
      split_ifs at h with hExceeds
      obtain rfl := Except.ok.inj h
      cases network <;> exact Nat.le_of_not_lt hExceeds

theorem parsePort_ok {toRule : Nat → NoProxyRule} (h : parsePort entry port toRule = .ok rule) : ∃ n, rule = toRule n := by
  rw [parsePort] at h
  cases hPort : parseUnsigned 65535 port with
  | none =>
    rw [hPort] at h
    cases h
  | some n =>
    rw [hPort] at h
    exact ⟨n, (Except.ok.inj h).symm⟩

private theorem parseBracketed_fits (h : parseBracketed entry exactLocalhost = some (.ok rule)) : rule.Fits := by
  unfold parseBracketed at h
  split at h
  · cases h
  · split at h
    · split at h
      · cases h
      · dsimp only at h
        split at h
        · obtain rfl := Except.ok.inj (Option.some.inj h)
          cases exactLocalhost <;> trivial
        · split at h
          · obtain ⟨n, rfl⟩ := parsePort_ok (Option.some.inj h)
            cases exactLocalhost <;> trivial
          · cases h
    · cases h

private theorem parseHost_fits (h : parseHost entry exactLocalhost = .ok rule) : rule.Fits := by
  unfold parseHost at h
  split at h
  · dsimp only at h
    split_ifs at h
    all_goals
      obtain ⟨n, rfl⟩ := parsePort_ok h
      trivial
  · split_ifs at h
    all_goals
      obtain rfl := Except.ok.inj h
      trivial

private theorem parsePlainEntry_fits (h : parsePlainEntry lib entry exactLocalhost = .ok rule) : rule.Fits := by
  unfold parsePlainEntry at h
  split at h
  · obtain rfl := Except.ok.inj h
    trivial
  · split at h
    · exact parseNetwork_fits h
    · cases hBracketed : parseBracketed entry exactLocalhost with
      | none =>
        rw [hBracketed] at h
        exact parseHost_fits h
      | some result =>
        rw [hBracketed] at h
        obtain rfl : result = .ok rule := h
        exact parseBracketed_fits hBracketed

private theorem parseHttpxIpEntry_fits (h : parseHttpxIpEntry lib entry = .ok (some rule)) : rule.Fits := by
  unfold parseHttpxIpEntry at h
  dsimp only at h
  split at h
  · obtain ⟨address, -, rfl⟩ := Option.map_eq_some_iff.mp (Except.ok.inj h)
    trivial
  · split at h
    · cases h
    · split at h
      · cases h
      · split at h
        · obtain rfl := Option.some.inj (Except.ok.inj h)
          trivial
        · split at h
          · obtain rfl := Option.some.inj (Except.ok.inj h)
            trivial
          · split at h
            · cases h
            · cases h

/-- No parser accepts a prefix that is longer than the addresses of its network. -/
theorem parseEntry_fits (h : parseEntry lib entry exactLocalhost = .ok rule) : rule.Fits := by
  unfold parseEntry at h
  split_ifs at h
  · obtain rfl := Except.ok.inj h
    trivial
  · obtain rfl := Except.ok.inj h
    trivial
  · obtain rfl := Except.ok.inj h
    trivial
  · unfold parsePattern at h
    split at h
    · cases h
    · split at h
      · cases h
      · obtain rfl := Except.ok.inj h
        trivial
  · split at h
    · cases h
    · rename_i hParsed
      obtain rfl := Except.ok.inj h
      exact parseHttpxIpEntry_fits hParsed
    · exact parsePlainEntry_fits h
  · exact parsePlainEntry_fits h

/-- A network rule that is parsed contains the addresses that share its prefix. -/
theorem parsed_matchesPrefix {network : IpAddr} {width : Nat}
    (h : parseEntry lib entry exactLocalhost = .ok (.ipNetwork network width)) (candidate : IpAddr) :
    MatchesPrefix candidate network width :=
  matchesPrefix (parseEntry_fits h)

end

def addressLibrary : Library where
  parseUrl _ := .error []
  asStr _ := []
  parseIpv4 := parseIpv4Addr
  parseIpv6 := parseIpv6Addr
  ipv4ToString _ := []
  ipv6ToString _ := []
  percentDecode := id

theorem parsed_matchesPrefix_private : MatchesPrefix (.v4 0x0a010203#32) (.v4 0x0a000000#32) 8 :=
  parsed_matchesPrefix
    (by decide : parseEntry addressLibrary (utf8 "10.0.0.0/8") false = .ok (.ipNetwork (.v4 0x0a000000#32) 8)) _

end Eggfetch.Routing
