import Eggfetch.Proxy.Head
import Eggfetch.Routing.Addresses

/-! The byte key of a proxy configuration in the route caches, and what it tells. -/
namespace Eggfetch.Routing
open Text Http

/-- `to_le_bytes` of a `u64`. -/
def toLeBytes (n : Nat) : Str := (digitsOf 256 8 n).map UInt8.ofNat

def toNeBytes (bigEndian : Bool) (n : Nat) : Str := if bigEndian then (toLeBytes n).reverse else toLeBytes n

section
variable (lib : Proxy.Library) (hasher : UInt8 → Str → Nat) (bigEndian : Bool)

def credentialHash (header : Str) : Str := toLeBytes (hasher 0 header) ++ toLeBytes (hasher 1 header)

def headerRecord (field : Proxy.Field) : Str := field.name ++ Proxy.colon :: field.value

def policyToken (config : Option TlsConfig) : Nat := config.elim 0 TlsConfig.connectionIdentity

def connectionIdentity (config : ProxyConfig) : Str :=
  lib.asStr config.uri ++ 0 ::
    (config.auth.elim [] (fun auth => credentialHash hasher (auth.headerValue lib)) ++ 0 ::
      (terminated 0 (config.proxyHeaders.iter.map headerRecord) ++
        (toNeBytes bigEndian (policyToken config.proxyTlsConfig) ++ 0 ::
          config.resolvedAddresses.elim [] fun target => terminated 0 (target.addresses.map SocketAddr.text))))

end

theorem length_toLeBytes (n : Nat) : (toLeBytes n).length = 8 := by rw [toLeBytes, List.length_map, length_digitsOf]

theorem length_toNeBytes (bigEndian : Bool) (n : Nat) : (toNeBytes bigEndian n).length = 8 := by
  cases bigEndian with
  | true => exact List.length_reverse.trans (length_toLeBytes n)
  | false => exact length_toLeBytes n

private theorem toNat_toLeBytes (n : Nat) : (toLeBytes n).map UInt8.toNat = digitsOf 256 8 n := by
  have hbyte : ∀ d ∈ digitsOf 256 8 n, (UInt8.toNat ∘ UInt8.ofNat) d = d := by
    intro d hd
    rw [Function.comp_apply, UInt8.toNat_ofNat', Nat.mod_eq_of_lt (digitsOf_lt (by decide) d hd)]
  rw [toLeBytes, List.map_map, List.map_congr_left hbyte, List.map_id']

private theorem toLeBytes_inj {m n : Nat} (hm : m < 2 ^ 64) (hn : n < 2 ^ 64) : toLeBytes m = toLeBytes n ↔ m = n := by
  refine ⟨fun h => ?_, fun h => h ▸ rfl⟩
  have hdigits := congrArg (List.map UInt8.toNat) h
  rw [toNat_toLeBytes, toNat_toLeBytes] at hdigits
  exact (digitsOf_inj (Nat.lt_of_lt_of_eq hm (by decide)) (Nat.lt_of_lt_of_eq hn (by decide))).mp hdigits

theorem toNeBytes_inj {bigEndian : Bool} {m n : Nat} (hm : m < 2 ^ 64) (hn : n < 2 ^ 64) :
    toNeBytes bigEndian m = toNeBytes bigEndian n ↔ m = n := by
  cases bigEndian with
  | true => exact List.reverse_inj.trans (toLeBytes_inj hm hn)
  | false => exact toLeBytes_inj hm hn

/-- The upper half of a small number is zero. -/
theorem toLeBytes_small {n : Nat} (h : n < 2 ^ 32) : ∃ t₀ t₁ t₂ t₃, toLeBytes n = [t₀, t₁, t₂, t₃, 0, 0, 0, 0] := by
  have hupper : n / 256 / 256 / 256 / 256 = 0 := by omega
  refine ⟨.ofNat (n % 256), .ofNat (n / 256 % 256), .ofNat (n / 256 / 256 % 256), .ofNat (n / 256 / 256 / 256 % 256), ?_⟩
  simp only [toLeBytes, digitsOf, List.map_cons, List.map_nil, hupper, Nat.zero_div, Nat.zero_mod]
  rfl

/-- A record that begins with two bytes and has no zero byte. -/
structure IsRecord (record : Str) : Prop where
  long : 2 ≤ record.length
  nonzero : 0 ∉ record

theorem headerRecord_isRecord {headers : Proxy.HeaderMap} {field : Proxy.Field} (h : field ∈ headers.iter) :
    IsRecord (headerRecord field) := by
  have hname := (headers.names_valid field h).1
  have hvalue := headers.values_valid field h
  constructor
  · rw [validateHeaderName, Bool.and_eq_true, Bool.not_eq_true', List.isEmpty_eq_false_iff] at hname
    have hlength := List.length_pos_iff.mpr hname.1
    rw [headerRecord, List.length_append, List.length_cons]
    omega
  · intro hmem
    rcases List.mem_append.mp hmem with hmem | hmem
    · rw [validateHeaderName, Bool.and_eq_true, List.all_eq_true] at hname
      have hzero := hname.2 0 hmem
      revert hzero
      decide
    · rcases List.mem_cons.mp hmem with hcolon | hmem
      · cases hcolon
      · rw [validateHeaderValue, Bool.not_eq_true', List.any_eq_false] at hvalue
        exact hvalue 0 hmem rfl

private theorem token_not_record_big {n : Nat} (hn : n < 2 ^ 32) {record addresses rest : Str} (hrecord : IsRecord record) :
    (toLeBytes n).reverse ++ 0 :: addresses ≠ record ++ 0 :: rest := by
  obtain ⟨t₀, t₁, t₂, t₃, ht⟩ := toLeBytes_small hn
  obtain ⟨b, record, rfl⟩ := List.exists_cons_of_length_pos (Nat.lt_of_succ_lt hrecord.long)
  rw [ht]
  intro h
  have hzero : 0 = b := (List.cons.inj h).1
  exact hrecord.nonzero (hzero ▸ List.mem_cons_self)

/-- Five zero bytes stand behind the lower half of a token. -/
theorem token_zeros {n : Nat} (hn : n < 2 ^ 32) (addresses : Str) {j : Nat} (hj : 4 ≤ j) (hj' : j ≤ 8) :
    (toLeBytes n ++ 0 :: addresses)[j]? = some 0 := by
  obtain ⟨t₀, t₁, t₂, t₃, ht⟩ := toLeBytes_small hn
  have hcases : j = 4 ∨ j = 5 ∨ j = 6 ∨ j = 7 ∨ j = 8 := by omega
  rw [ht]
  rcases hcases with rfl | rfl | rfl | rfl | rfl
  · rfl
  · rfl
  · rfl
  · rfl
  · rfl

private theorem zeros_of_token {n : Nat} (hn : n < 2 ^ 32) {addresses : Str} {records : List Str}
    (hrecords : ∀ r ∈ records, IsRecord r)
    (hsecond : (terminated 0 records ++ (toLeBytes n ++ 0 :: addresses))[1]? = some 0) {j : Nat} (hj : 4 ≤ j) (hj' : j ≤ 8) :
    (terminated 0 records ++ (toLeBytes n ++ 0 :: addresses))[j]? = some 0 := by
  cases records with
  | nil => exact token_zeros hn addresses hj hj'
  | cons record records =>
    have hrecord := hrecords record List.mem_cons_self
    rw [terminated_cons, List.append_assoc, List.getElem?_append_left hrecord.long] at hsecond
    exact absurd (List.mem_of_getElem? hsecond) hrecord.nonzero

/-- On a little-endian machine the token may look like a record, but then what follows is no key:
the zero bytes behind the token are too many for it. -/
theorem token_not_record_little {m n : Nat} (hm : m < 2 ^ 32) (hn : n < 2 ^ 32) {record addresses addresses' : Str}
    {records : List Str}
    (hrecord : IsRecord record) (hrecords : ∀ r ∈ records, IsRecord r) (haddresses : addresses[0]? ≠ some 0) :
    toLeBytes m ++ 0 :: addresses ≠ record ++ 0 :: (terminated 0 records ++ (toLeBytes n ++ 0 :: addresses')) := by
  obtain ⟨t₀, t₁, t₂, t₃, ht⟩ := toLeBytes_small hm
  have hlong := hrecord.long
  have hzeros {j : Nat} (hj : 4 ≤ j) (hj' : j ≤ 8) : (toLeBytes m ++ 0 :: addresses)[j]? = some 0 :=
    token_zeros hm addresses hj hj'
  have hnine : (toLeBytes m ++ 0 :: addresses)[9]? = addresses[0]? := by rw [ht]; rfl
  generalize toLeBytes m ++ 0 :: addresses = key at hzeros hnine
  generalize hrest : terminated 0 records ++ (toLeBytes n ++ 0 :: addresses') = rest
  rintro rfl
  -- The first zero byte ends the record after two, three or four bytes.
  have hshort : record.length ≤ 4 := by
    by_contra hlonger
    have hat := hzeros (j := 4) (by omega) (by omega)
    rw [List.getElem?_append_left (by omega)] at hat
    exact hrecord.nonzero (List.mem_of_getElem? hat)
  have hafter (j : Nat) : (record ++ 0 :: rest)[record.length + 1 + j]? = rest[j]? := by
    rw [List.getElem?_append_right (by omega),
      show record.length + 1 + j - record.length = j + 1 by omega, List.getElem?_cons_succ]
  have hsecond : rest[1]? = some 0 := by
    rw [← hafter]
    exact hzeros (by omega) (by omega)
  have hlast : rest[8 - record.length]? = some 0 := by
    rw [← hrest] at hsecond ⊢
    exact zeros_of_token hn hrecords hsecond (by omega) (by omega)
  rw [← hafter, show record.length + 1 + (8 - record.length) = 9 by omega, hnine] at hlast
  exact haddresses hlast

private theorem records_inj {bigEndian : Bool} {m n : Nat} (hm : m < 2 ^ 32) (hn : n < 2 ^ 32) {xs ys : List Str}
    {addresses addresses' : Str}
    (hxs : ∀ x ∈ xs, IsRecord x) (hys : ∀ y ∈ ys, IsRecord y) (ha : addresses[0]? ≠ some 0) (ha' : addresses'[0]? ≠ some 0) :
    terminated 0 xs ++ (toNeBytes bigEndian m ++ 0 :: addresses) = terminated 0 ys ++ (toNeBytes bigEndian n ++ 0 :: addresses') ↔
      xs = ys ∧ m = n ∧ addresses = addresses' := by
  refine ⟨fun h => ?_, fun ⟨hrecords, htokens, haddresses⟩ => by rw [hrecords, htokens, haddresses]⟩
  have hapart {k k' : Nat} (hk : k < 2 ^ 32) (hk' : k' < 2 ^ 32) {z : Str} {zs : List Str} {a a' : Str} (hzs : ∀ r ∈ z ::
    zs, IsRecord r)
      (ha : a[0]? ≠ some 0) :
      toNeBytes bigEndian k ++ 0 :: a ≠ terminated 0 (z :: zs) ++ (toNeBytes bigEndian k' ++ 0 :: a') := by
    obtain ⟨hz, hzs⟩ := List.forall_mem_cons.mp hzs
    rw [terminated_cons, List.append_assoc]
    cases bigEndian with
    | true => exact token_not_record_big hk hz
    | false => exact token_not_record_little hk hk' hz hzs ha
  induction xs generalizing ys with
  | nil =>
    cases ys with
    | nil =>
      have hplain : toNeBytes bigEndian m ++ 0 :: addresses = toNeBytes bigEndian n ++ 0 :: addresses' := h
      obtain ⟨htokens, haddresses⟩ := List.append_inj hplain (by rw [length_toNeBytes, length_toNeBytes])
      exact ⟨rfl, (toNeBytes_inj (by omega) (by omega)).mp htokens, (List.cons.inj haddresses).2⟩
    | cons y ys => exact absurd h (hapart hm hn hys ha)
  | cons x xs ih =>
    cases ys with
    | nil => exact absurd h.symm (hapart hn hm hxs ha')
    | cons y ys =>
      obtain ⟨hx, hxs⟩ := List.forall_mem_cons.mp hxs
      obtain ⟨hy, hys⟩ := List.forall_mem_cons.mp hys
      rw [terminated_cons, terminated_cons, List.append_assoc, List.append_assoc, List.cons_append, List.cons_append,
        append_sep_inj hx.nonzero hy.nonzero] at h
      obtain ⟨hrecords, htokens, haddresses⟩ := ih hxs hys h.2
      exact ⟨by rw [h.1, hrecords], htokens, haddresses⟩

section
variable {lib : Proxy.Library} {hasher : UInt8 → Str → Nat} {bigEndian : Bool} {c c' : ProxyConfig}

/-- The text of a URL parses to it and has no zero byte. -/
structure Serialised (lib : Proxy.Library) (url : Url) : Prop where
  reparsed : lib.parseUrl (lib.asStr url) = some url
  nonzero : 0 ∉ lib.asStr url

theorem Serialised.asStr_inj {a b : Url} (ha : Serialised lib a) (hb : Serialised lib b) : lib.asStr a = lib.asStr b ↔ a = b := by
  refine ⟨fun h => ?_, fun h => h ▸ rfl⟩
  have hparsed := ha.reparsed
  rw [h, hb.reparsed] at hparsed
  exact (Option.some.inj hparsed).symm

def ProxyConfig.credential (lib : Proxy.Library) (config : ProxyConfig) : Option Str := config.auth.map (·.headerValue lib)

/-- The pinned peers of a proxy; there are none where the list is empty. -/
def ProxyConfig.peers (config : ProxyConfig) : List SocketAddr := config.resolvedAddresses.elim [] ResolvedTarget.addresses

theorem peers_eq : c.peers = c'.peers ↔ c.resolvedAddresses = c'.resolvedAddresses := by
  refine ⟨fun h => ?_, fun h => by rw [ProxyConfig.peers, h]; rfl⟩
  rw [ProxyConfig.peers, ProxyConfig.peers] at h
  cases hc : c.resolvedAddresses with
  | none =>
    cases hc' : c'.resolvedAddresses with
    | none => rfl
    | some target' =>
      rw [hc, hc'] at h
      exact absurd h.symm target'.nonempty
  | some target =>
    cases hc' : c'.resolvedAddresses with
    | none =>
      rw [hc, hc'] at h
      exact absurd h target.nonempty
    | some target' =>
      rw [hc, hc'] at h
      cases target
      cases target'
      exact congrArg some (ResolvedTarget.mk.injEq .. ▸ h)

/-- The bytes of a credential determine it among the two, and do not begin with a zero byte. -/
structure HashesApart (hasher : UInt8 → Str → Nat) (credential credential' : Option Str) : Prop where
  first : ∀ x ∈ credential, (credentialHash hasher x).head? ≠ some 0
  first' : ∀ y ∈ credential', (credentialHash hasher y).head? ≠ some 0
  determine : ∀ x ∈ credential, ∀ y ∈ credential', credentialHash hasher x = credentialHash hasher y → x = y

private theorem length_credentialHash (header : Str) : (credentialHash hasher header).length = 16 := by
  rw [credentialHash, List.length_append, length_toLeBytes, length_toLeBytes]

private theorem credential_inj {credential credential' : Option Str} (h : HashesApart hasher credential credential') {s t : Str} :
    credential.elim [] (credentialHash hasher) ++ 0 :: s = credential'.elim [] (credentialHash hasher) ++ 0 :: t ↔
      credential = credential' ∧ s = t := by
  refine ⟨fun heq => ?_, fun ⟨hcredential, hst⟩ => by rw [hcredential, hst]⟩
  have hapart {x : Str} (hfirst : (credentialHash hasher x).head? ≠ some 0) (s t : Str) :
      0 :: s ≠ credentialHash hasher x ++ 0 :: t := by
    have hsome : credentialHash hasher x ≠ [] := List.ne_nil_of_length_pos (by rw [length_credentialHash]; decide)
    obtain ⟨b, rest, hb⟩ := List.exists_cons_of_ne_nil hsome
    rw [hb] at hfirst ⊢
    intro heq
    exact hfirst (congrArg some (List.cons.inj heq).1.symm)
  cases credential with
  | none =>
    cases credential' with
    | none => exact ⟨rfl, (List.cons.inj heq).2⟩
    | some y => exact absurd heq (hapart (h.first' y rfl) s t)
  | some x =>
    cases credential' with
    | none => exact absurd heq.symm (hapart (h.first x rfl) t s)
    | some y =>
      obtain ⟨hhash, hrest⟩ := List.append_inj heq ((length_credentialHash x).trans (length_credentialHash y).symm)
      exact ⟨congrArg some (h.determine x rfl y rfl hhash), (List.cons.inj hrest).2⟩

theorem headerRecord_inj {headers headers' : Proxy.HeaderMap} :
    headers.iter.map headerRecord = headers'.iter.map headerRecord ↔ headers.iter = headers'.iter := by
  have hcolon (headers : Proxy.HeaderMap) : ∀ field ∈ headers.iter, Proxy.colon ∉ field.name :=
    fun field hfield hmem => (Proxy.mem_of_validateHeaderName (headers.names_valid field hfield).1 hmem).2.2.2.2 rfl
  refine ⟨fun h => ?_, fun h => h ▸ rfl⟩
  have hxs := hcolon headers
  have hys := hcolon headers'
  generalize headers.iter = xs at h hxs
  generalize headers'.iter = ys at h hys
  induction xs generalizing ys with
  | nil => exact (List.map_eq_nil_iff.mp h.symm).symm
  | cons x xs ih =>
    cases ys with
    | nil => cases h
    | cons y ys =>
      obtain ⟨hx, hxs⟩ := List.forall_mem_cons.mp hxs
      obtain ⟨hy, hys⟩ := List.forall_mem_cons.mp hys
      obtain ⟨hrecord, hrest⟩ := List.cons.inj h
      obtain ⟨hname, hvalue⟩ := (append_sep_inj hx hy).mp hrecord
      have hfield : x = y := by
        cases x
        cases y
        exact Proxy.Field.mk.injEq .. ▸ ⟨hname, hvalue⟩
      rw [hfield, ih hxs ys hrest hys]

theorem addresses_inj {xs ys : List SocketAddr} : terminated 0 (xs.map SocketAddr.text) = terminated 0 (ys.map SocketAddr.text) ↔
    xs.map SocketAddr.withoutFlowinfo = ys.map SocketAddr.withoutFlowinfo := by
  have hzero (zs : List SocketAddr) : ∀ z ∈ zs.map SocketAddr.text, 0 ∉ z := by
    intro z hz
    obtain ⟨a, -, rfl⟩ := List.mem_map.mp hz
    exact a.zero_not_mem_text
  rw [terminated_inj (hzero xs) (hzero ys)]
  induction xs generalizing ys with
  | nil => cases ys <;> simp
  | cons x xs ih =>
    cases ys with
    | nil => simp
    | cons y ys => simp only [List.map_cons, List.cons.injEq, SocketAddr.text_inj, ih]

private theorem addresses_nonzero (xs : List SocketAddr) : (terminated 0 (xs.map SocketAddr.text))[0]? ≠ some 0 := by
  cases xs with
  | nil => nofun
  | cons x xs =>
    obtain ⟨b, rest, hb⟩ := List.exists_cons_of_ne_nil x.text_ne_nil
    have hzero := x.zero_not_mem_text
    rw [hb] at hzero
    rw [List.map_cons, terminated_cons, hb]
    intro h
    exact hzero (Option.some.inj h ▸ List.mem_cons_self)

/-- What the key of a proxy configuration tells. -/
structure SameProxy (lib : Proxy.Library) (c c' : ProxyConfig) : Prop where
  uri : c.uri = c'.uri
  credential : c.credential lib = c'.credential lib
  headers : c.proxyHeaders.iter = c'.proxyHeaders.iter
  token : policyToken c.proxyTlsConfig = policyToken c'.proxyTlsConfig
  peers : c.peers.map SocketAddr.withoutFlowinfo = c'.peers.map SocketAddr.withoutFlowinfo

private theorem connectionIdentity_eq (config : ProxyConfig) : connectionIdentity lib hasher bigEndian config =
    lib.asStr config.uri ++ 0 :: ((config.credential lib).elim [] (credentialHash hasher) ++ 0 ::
      (terminated 0 (config.proxyHeaders.iter.map headerRecord) ++
        (toNeBytes bigEndian (policyToken config.proxyTlsConfig) ++ 0 :: terminated 0 (config.peers.map SocketAddr.text)))) := by
  rw [connectionIdentity, ProxyConfig.credential, ProxyConfig.peers, Option.elim_map]
  cases config.resolvedAddresses with
  | none => rfl
  | some target => rfl

/-- The key tells a proxy configuration up to the flow information of its pinned peers. -/
theorem connectionIdentity_iff (huri : Serialised lib c.uri) (huri' : Serialised lib c'.uri)
    (hhashes : HashesApart hasher (c.credential lib) (c'.credential lib))
    (htoken : policyToken c.proxyTlsConfig < 2 ^ 32) (htoken' : policyToken c'.proxyTlsConfig < 2 ^ 32) :
    connectionIdentity lib hasher bigEndian c = connectionIdentity lib hasher bigEndian c' ↔ SameProxy lib c c' := by
  have hrecords (headers : Proxy.HeaderMap) : ∀ r ∈ headers.iter.map headerRecord, IsRecord r := by
    intro r hr
    obtain ⟨field, hfield, rfl⟩ := List.mem_map.mp hr
    exact headerRecord_isRecord hfield
  rw [connectionIdentity_eq, connectionIdentity_eq, append_sep_inj huri.nonzero huri'.nonzero, huri.asStr_inj huri',
    credential_inj hhashes, records_inj htoken htoken' (hrecords _) (hrecords _) (addresses_nonzero _) (addresses_nonzero _),
    headerRecord_inj, addresses_inj]
  exact ⟨fun ⟨huri, hcredential, hheaders, htoken, hpeers⟩ => ⟨huri, hcredential, hheaders, htoken, hpeers⟩,
    fun h => ⟨h.uri, h.credential, h.headers, h.token, h.peers⟩⟩

end
end Eggfetch.Routing
