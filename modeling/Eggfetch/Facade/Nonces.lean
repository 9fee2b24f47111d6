import Eggfetch.Facade.Digest

/-! The count of a nonce, and whose parameters answer a challenge. -/
namespace Eggfetch.Facade.Auth

/-- What a header owes to its challenge, and to the headers sent before. -/
structure Lawful (md5 sha256 : List UInt8 → List Char) (username password : List Char) (earlier : List Authorization)
    (e : Exchange) (own : AuthChallenge) (a : Authorization) : Prop where
  digest : lower own.scheme = "digest".toList
  realm : a.realm = (own.value "realm".toList).getD []
  nonce : a.nonce = (own.value "nonce".toList).getD []
  opaqueText : a.opaqueText = (own.value "opaque".toList).filter fun text => decide (text ≠ [])
  algorithm : a.algorithm =
    (own.value "algorithm".toList).filter fun algorithm => decide (algorithm ≠ [] ∧ upper algorithm ≠ "MD5".toList)
  qop : a.counted.map Counted.qop = (own.value "qop".toList).bind selectQop
  nc : ∀ counted ∈ a.counted, counted.nc = hex8 ((earlier.filter fun other => other.nonce = a.nonce).length + 1)
  response : a.response =
    digestResponse md5 sha256 username password e a.realm a.nonce ((own.value "algorithm".toList).getD "MD5".toList) a.counted

/-- The names that are looked up, with the value of an absent one. -/
def parameters : List (List Char × List Char) :=
  [("realm".toList, []), ("nonce".toList, []), ("algorithm".toList, "MD5".toList), ("opaque".toList, []), ("qop".toList, []),
    ("stale".toList, [])]

/-- Under each of the names, the last parameter of the whole header says what the Digest challenge itself says. -/
structure OwnLast (alnum : Char → Bool) (header : WwwAuthenticate) : Prop where
  readable : ∀ item ∈ header.items, item.Readable alnum (parameters.map Prod.fst)
  last : ∀ parameter ∈ parameters, ((header.items.flatMap (Item.valuesOf alnum parameter.1)).getLast?).getD parameter.2 =
    (header.first.value parameter.1).getD parameter.2

/-- A stale nonce is replaced by a new one, and without that flag the nonce stays. -/
def KeepsNonce (earlier : List Authorization) (own : AuthChallenge) : Prop :=
  if lower ((own.value "stale".toList).getD []) = "true".toList then
    ∀ a ∈ earlier, a.nonce ≠ (own.value "nonce".toList).getD []
  else ∀ a ∈ earlier.getLast?, a.nonce = (own.value "nonce".toList).getD []

/-- Where a challenge is parsed, it can be told from the others, and its nonce fits the count. -/
def Steady (alnum : Char → Bool) (earlier : List Authorization) (e : Exchange) : Prop :=
  ∀ header, e.challenge = some header → e.status = 401 → parseChallenge alnum header.render ≠ none →
    OwnLast alnum header ∧ KeepsNonce earlier header.first

section
variable {alnum : Char → Bool} {md5 sha256 : List UInt8 → List Char} {username password : List Char}

private theorem getD_filter {α : Type*} [DecidableEq α] (o : Option α) (d : α) {p : α → Prop} [DecidablePred p] (hd : p d) :
    (if p (o.getD d) then none else some (o.getD d)) = o.filter fun a => decide (¬ p a) := by
  cases o with
  | none => exact if_pos hd
  | some a =>
    rw [Option.getD_some, Option.filter_some]
    by_cases ha : p a
    · rw [if_pos ha, decide_eq_false (not_not_intro ha), if_neg Bool.false_ne_true]
    · rw [if_neg ha, decide_eq_true ha, if_pos rfl]

private theorem selectQop_getD (o : Option (List Char)) : selectQop (o.getD []) = o.bind selectQop := by
  cases o with
  | none => decide
  | some _ => rfl

private theorem buildDigestResponse_lawful {e : Exchange} {own : AuthChallenge} {challenge : List (List Char × List Char)}
    {earlier : List Authorization} {count : Nat} (hDigest : lower own.scheme = "digest".toList)
    (hLast : ∀ parameter ∈ parameters, (lookup challenge parameter.1).getD parameter.2 = (own.value parameter.1).getD parameter.2)
    (hCount : count = (earlier.filter fun other => other.nonce = (own.value "nonce".toList).getD []).length) :
    Lawful md5 sha256 username password earlier e own (buildDigestResponse md5 sha256 username password e challenge count).2 := by
  have hRealm := hLast ("realm".toList, []) (by decide)
  have hNonce := hLast ("nonce".toList, []) (by decide)
  have hAlgorithm := hLast ("algorithm".toList, "MD5".toList) (by decide)
  have hOpaque := hLast ("opaque".toList, []) (by decide)
  have hQop := hLast ("qop".toList, []) (by decide)
  simp only at hRealm hNonce hAlgorithm hOpaque hQop
  rw [buildDigestResponse]
  simp only
  rw [hRealm, hNonce, hAlgorithm, hOpaque, hQop]
  constructor
  · exact hDigest
  · rfl
  · rfl
  · exact getD_filter (own.value "opaque".toList) [] (p := fun text => text = []) rfl
  · have hOther := getD_filter (own.value "algorithm".toList) "MD5".toList
      (p := fun algorithm => algorithm = [] ∨ upper algorithm = "MD5".toList) (Or.inr (by decide))
    simp only [not_or] at hOther
    exact hOther
  · rw [selectQop_getD, Option.map_map]
    exact Option.map_id'
  · intro counted hCounted
    obtain ⟨qop, -, rfl⟩ := Option.map_eq_some_iff.mp hCounted
    rw [hCount]
  · rfl

private theorem authFlow_cases (e : Exchange) (count : Nat) :
    authFlow alnum md5 sha256 username password e count = (count, none) ∨
    ∃ header challenge, e.challenge = some header ∧ e.status = 401 ∧ parseChallenge alnum header.render = some challenge ∧
      authFlow alnum md5 sha256 username password e count =
        (buildDigestResponse md5 sha256 username password e challenge
          (if lower ((lookup challenge "stale".toList).getD []) = "true".toList then 0 else count)).map id some := by
  rw [authFlow]
  split
  · exact Or.inl rfl
  · next hDigest =>
    rw [not_or, not_not, not_not] at hDigest
    cases hChallenge : e.challenge with
    | none =>
      rw [Exchange.wwwAuthenticate, hChallenge] at hDigest
      exact absurd hDigest.2 (by decide)
    | some header =>
      have hText : e.wwwAuthenticate = header.render := by
        rw [Exchange.wwwAuthenticate, hChallenge]
        rfl
      rw [hText]
      cases hParse : parseChallenge alnum header.render with
      | none => exact Or.inl rfl
      | some challenge => exact Or.inr ⟨header, challenge, rfl, hDigest.1, hParse, rfl⟩

/-- The count belongs to the nonce of the latest header, and every header is lawful. -/
structure DigestAuth.Sound (md5 sha256 : List UInt8 → List Char) (username password : List Char) (auth : DigestAuth) : Prop where
  counts : ∀ latest ∈ auth.sent.getLast?,
    auth.nonceCount = ((auth.sent.map Prod.snd).filter fun other => other.nonce = latest.2.nonce).length
  fresh : auth.sent = [] → auth.nonceCount = 0
  lawful : ∀ {earlier e a later}, auth.sent = earlier ++ (e, a) :: later →
    ∃ header, e.challenge = some header ∧ Lawful md5 sha256 username password (earlier.map Prod.snd) e header.first a

private theorem DigestAuth.Sound.count {auth : DigestAuth} (h : auth.Sound md5 sha256 username password) {own : AuthChallenge}
    (hKeeps : KeepsNonce (auth.sent.map Prod.snd) own) :
    (if lower ((own.value "stale".toList).getD []) = "true".toList then 0 else auth.nonceCount) =
      ((auth.sent.map Prod.snd).filter fun other => other.nonce = (own.value "nonce".toList).getD []).length := by
  rw [KeepsNonce] at hKeeps
  split at hKeeps
  · next hStale =>
    rw [if_pos hStale, List.filter_eq_nil_iff.mpr fun a ha hEq => hKeeps a ha (of_decide_eq_true hEq), List.length_nil]
  · next hStale =>
    rw [if_neg hStale]
    cases hLast : auth.sent.getLast? with
    | none =>
      have hNil := List.getLast?_eq_none_iff.mp hLast
      rw [h.fresh hNil, hNil]
      rfl
    | some latest =>
      have hNonce : latest.2.nonce = (own.value "nonce".toList).getD [] := by
        refine hKeeps latest.2 ?_
        rw [List.getLast?_map, hLast]
        rfl
      rw [h.counts latest hLast, hNonce]

theorem DigestAuth.Sound.step {auth : DigestAuth} (h : auth.Sound md5 sha256 username password) {e : Exchange}
    (hSteady : Steady alnum (auth.sent.map Prod.snd) e) :
    (DigestAuth.step alnum md5 sha256 username password auth e).Sound md5 sha256 username password := by
  have hCases : authFlow alnum md5 sha256 username password e auth.nonceCount = (auth.nonceCount, none) ∨ _ :=
    authFlow_cases e auth.nonceCount
  rcases hCases with hNone | ⟨header, challenge, hChallenge, hStatus, hParse, hSome⟩
  · have hSame : DigestAuth.step alnum md5 sha256 username password auth e = auth := by
      rw [DigestAuth.step, hNone]
      exact congrArg (DigestAuth.mk auth.nonceCount) (List.append_nil auth.sent)
    rw [hSame]
    exact h
  · obtain ⟨hOwn, hKeeps⟩ := hSteady header hChallenge hStatus (by rw [hParse]; exact Option.some_ne_none challenge)
    obtain ⟨hDigest, hValues⟩ := parseChallenge_render hOwn.readable hParse
    have hLast : ∀ parameter ∈ parameters,
        (lookup challenge parameter.1).getD parameter.2 = (header.first.value parameter.1).getD parameter.2 := by
      intro parameter hParameter
      have hNe : ∀ parameter ∈ parameters, parameter.1 ≠ [] := by decide
      rw [lookup, hValues parameter.1 (List.mem_map_of_mem hParameter) (hNe parameter hParameter)]
      exact hOwn.last parameter hParameter
    have hStale := hLast ("stale".toList, []) (by decide)
    simp only at hStale
    have hCount := h.count hKeeps
    rw [← hStale] at hCount
    generalize (if lower ((lookup challenge "stale".toList).getD []) = "true".toList then 0 else auth.nonceCount) =
      count at hSome hCount
    have hLawful : Lawful md5 sha256 username password (auth.sent.map Prod.snd) e header.first
        (buildDigestResponse md5 sha256 username password e challenge count).2 :=
      buildDigestResponse_lawful hDigest hLast hCount
    have hStep : DigestAuth.step alnum md5 sha256 username password auth e =
        ⟨count + 1, auth.sent ++ [(e, (buildDigestResponse md5 sha256 username password e challenge count).2)]⟩ := by
      rw [DigestAuth.step, hSome]
      rfl
    generalize (buildDigestResponse md5 sha256 username password e challenge count).2 = a at hLawful hStep
    rw [hStep]
    constructor
    · intro latest hLatest
      rw [List.getLast?_concat] at hLatest
      cases hLatest
      rw [List.map_append, List.map_singleton, List.filter_append, List.length_append, hCount, hLawful.nonce,
        List.filter_singleton, decide_eq_true hLawful.nonce]
      rfl
    · intro hNil
      exact absurd hNil (List.concat_ne_nil _ _)
    · intro earlier e' a' later hSplit
      rcases List.eq_nil_or_concat' later with rfl | ⟨front, last, rfl⟩
      · obtain ⟨hFront, hLast⟩ := List.append_inj' hSplit rfl
        cases hLast
        rw [← hFront]
        exact ⟨header, hChallenge, hLawful⟩
      · rw [← List.cons_append, ← List.append_assoc] at hSplit
        exact h.lawful (List.append_inj' hSplit rfl).1

/-- In a run of steady challenges, every header counts the uses of its nonce and answers with the parameters of the Digest
challenge. -/
theorem digestAuth_lawful {exchanges : List Exchange}
    (hSteady : ∀ before e after, exchanges = before ++ e :: after →
      Steady alnum ((DigestAuth.run alnum md5 sha256 username password before).sent.map Prod.snd) e)
    {earlier later : List (Exchange × Authorization)} {e : Exchange} {a : Authorization}
    (hSent : (DigestAuth.run alnum md5 sha256 username password exchanges).sent = earlier ++ (e, a) :: later) :
    ∃ header, e.challenge = some header ∧ Lawful md5 sha256 username password (earlier.map Prod.snd) e header.first a := by
  suffices hSound : (DigestAuth.run alnum md5 sha256 username password exchanges).Sound md5 sha256 username password from
    hSound.lawful hSent
  clear hSent
  induction exchanges using List.reverseRecOn with
  | nil =>
    constructor
    · intro latest hLatest
      cases hLatest
    · intro _
      rfl
    · intro earlier e a later hSplit
      exact absurd hSplit (List.append_ne_nil_of_right_ne_nil earlier (List.cons_ne_nil _ _)).symm
  | append_singleton before e ih =>
    have hBefore := ih fun front e' after hSplit => by
      refine hSteady front e' (after ++ [e]) ?_
      rw [hSplit, List.append_assoc, List.cons_append]
    rw [DigestAuth.run, List.foldl_append]
    exact hBefore.step (hSteady before e [] rfl)

end

def tokenParam (name text : String) (hName : name.toList ≠ [] ∧ name.toList.all isTokenChar = true)
    (hText : text.toList ≠ [] ∧ text.toList.all isTokenChar = true) : Item :=
  .param ⟨name.toList, [], [], .token text.toList hText, hName.1, hName.2, rfl, rfl⟩

def comma : Separator := ⟨[], [' '], by decide⟩

/-- `Digest nonce=…, qop=auth, Basic realm=files`. -/
def offered (nonce : String) (h : nonce.toList ≠ [] ∧ nonce.toList.all isTokenChar = true) (other : Item) : WwwAuthenticate where
  first := ⟨"Digest".toList, [' '], some (tokenParam "nonce" nonce (by decide) h),
    [(comma, tokenParam "qop" "auth" (by decide) (by decide))], by decide⟩
  others := [(comma, ⟨"Basic".toList, [' '], some other, [], by decide⟩)]

def charset : Item := tokenParam "charset" "UTF-8" (by decide) (by decide)

def unauthorized (challenge : WwwAuthenticate) : Exchange where
  method := "GET".toList
  path := ['/']
  query := []
  content := none
  status := 401
  challenge := some challenge
  cnonce := []

def sumHash (bytes : List UInt8) : List Char := hex8 (bytes.foldl (fun sum b => 31 * sum + b.toNat) 7)

def answer (e : Exchange) (nonce : String) (count : Nat) : Authorization where
  username := "u".toList
  realm := []
  nonce := nonce.toList
  uri := ['/']
  response := digestResponse sumHash sumHash "u".toList "p".toList e [] nonce.toList "MD5".toList
    (some ⟨"auth".toList, hex8 count, []⟩)
  counted := some ⟨"auth".toList, hex8 count, []⟩
  opaqueText := none
  algorithm := none

def offeredPairs (nonce : String) : List (List Char × List Char) :=
  [("nonce".toList, nonce.toList), ("qop".toList, "auth".toList), ("charset".toList, "UTF-8".toList)]

def firstOffer : Exchange := unauthorized (offered "a" (by decide) charset)

def secondOffer : Exchange := unauthorized (offered "b" (by decide) charset)

private theorem offered_answer {nonce : String} {h : nonce.toList ≠ [] ∧ nonce.toList.all isTokenChar = true} (auth : DigestAuth)
    (hParse : parseChallenge (fun _ => false) (offered nonce h charset).render = some (offeredPairs nonce)) :
    DigestAuth.step (fun _ => false) sumHash sumHash "u".toList "p".toList auth (unauthorized (offered nonce h charset)) =
      ⟨auth.nonceCount + 1, auth.sent ++ [(unauthorized (offered nonce h charset),
        answer (unauthorized (offered nonce h charset)) nonce (auth.nonceCount + 1))]⟩ := by
  have hText : (unauthorized (offered nonce h charset)).wwwAuthenticate = (offered nonce h charset).render := rfl
  have hDigest : lower ((offered nonce h charset).render.take 6) = "digest".toList := rfl
  rw [DigestAuth.step, authFlow, hText, hParse, hDigest]
  rfl

theorem offered_parse : parseChallenge (fun _ => false) (offered "a" (by decide) charset).render = some (offeredPairs "a") := by
  decide

private theorem first_answer (auth : DigestAuth) :
    DigestAuth.step (fun _ => false) sumHash sumHash "u".toList "p".toList auth firstOffer =
    ⟨auth.nonceCount + 1, auth.sent ++ [(firstOffer, answer firstOffer "a" (auth.nonceCount + 1))]⟩ :=
  offered_answer auth offered_parse

private theorem offered_ownLast : OwnLast (fun _ => false) (offered "a" (by decide) charset) := by
  constructor
  · have hItem : ∀ item ∈ [tokenParam "nonce" "a" (by decide) (by decide),
      tokenParam "qop" "auth" (by decide) (by decide), charset],
        item.Readable (fun _ => false) (parameters.map Prod.fst) := by
      rintro item (_ | ⟨_, _ | ⟨_, _ | ⟨_, hNil⟩⟩⟩)
      · exact ⟨by decide, fun _ => by decide⟩
      · exact ⟨by decide, fun _ => by decide⟩
      · exact ⟨by decide, fun _ => by decide⟩
      · cases hNil
    exact hItem
  · decide

/-- The second answer to a nonce is counted from the first. -/
theorem digestAuth_lawful_example :
    ∃ header, firstOffer.challenge = some header ∧
      Lawful sumHash sumHash "u".toList "p".toList [answer firstOffer "a" 1] firstOffer header.first
      (answer firstOffer "a" 2) := by
  have hOnce : DigestAuth.run (fun _ => false) sumHash sumHash "u".toList "p".toList [firstOffer] =
      ⟨1, [(firstOffer, answer firstOffer "a" 1)]⟩ := first_answer ⟨0, []⟩
  have hTwice : DigestAuth.run (fun _ => false) sumHash sumHash "u".toList "p".toList [firstOffer, firstOffer] =
      ⟨2, [(firstOffer, answer firstOffer "a" 1), (firstOffer, answer firstOffer "a" 2)]⟩ := by
    rw [DigestAuth.run, List.foldl_cons, first_answer, List.foldl_cons, first_answer]
    rfl
  refine @digestAuth_lawful (fun _ => false) sumHash sumHash "u".toList "p".toList [firstOffer, firstOffer] ?_
    [(firstOffer, answer firstOffer "a" 1)] [] _ _ (congrArg DigestAuth.sent hTwice)
  rintro before e after hSplit header hHeader - -
  have hKept : e = firstOffer ∧ ∀ a ∈ ((DigestAuth.run (fun _ => false) sumHash sumHash "u".toList "p".toList before).sent.map
      Prod.snd).getLast?, a.nonce = "a".toList := by
    rcases before with _ | ⟨first, _ | ⟨second, rest⟩⟩
    · exact ⟨(List.cons.inj hSplit).1.symm, fun a ha => nomatch ha⟩
    · obtain ⟨rfl, hRest⟩ := List.cons.inj hSplit
      refine ⟨(List.cons.inj hRest).1.symm, ?_⟩
      rw [hOnce]
      rintro a ⟨⟩
      rfl
    · have hLength := congrArg List.length hSplit
      simp at hLength
  obtain ⟨rfl, hNonce⟩ := hKept
  cases hHeader
  refine ⟨offered_ownLast, ?_⟩
  rw [KeepsNonce, if_neg (by decide)]
  exact hNonce

/-- A second nonce without the stale flag is counted from two. -/
theorem not_digestAuth_lawful :
    ¬ ∀ (alnum : Char → Bool) (md5 sha256 : List UInt8 → List Char) (username password : List Char) (exchanges : List Exchange)
      (earlier later : List (Exchange × Authorization)) (e : Exchange) (a : Authorization),
      (DigestAuth.run alnum md5 sha256 username password exchanges).sent = earlier ++ (e, a) :: later →
        ∃ header, e.challenge = some header ∧ Lawful md5 sha256 username password (earlier.map Prod.snd) e header.first a := by
  intro hAll
  have hSecond (auth : DigestAuth) : DigestAuth.step (fun _ => false) sumHash sumHash "u".toList "p".toList auth secondOffer =
      ⟨auth.nonceCount + 1, auth.sent ++ [(secondOffer, answer secondOffer "b" (auth.nonceCount + 1))]⟩ :=
    offered_answer auth (by decide)
  have hRun : DigestAuth.run (fun _ => false) sumHash sumHash "u".toList "p".toList [firstOffer, secondOffer] =
      ⟨2, [(firstOffer, answer firstOffer "a" 1), (secondOffer, answer secondOffer "b" 2)]⟩ := by
    rw [DigestAuth.run, List.foldl_cons, List.foldl_cons, List.foldl_nil, first_answer, hSecond]
    rfl
  obtain ⟨header, -, hLawful⟩ := hAll _ _ _ _ _ _ [(firstOffer, answer firstOffer "a" 1)] [] _ _ (congrArg DigestAuth.sent hRun)
  have hCount := hLawful.nc _ rfl
  revert hCount
  decide

end Eggfetch.Facade.Auth
