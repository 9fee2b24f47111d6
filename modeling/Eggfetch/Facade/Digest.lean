import Eggfetch.Facade.Challenges

/-! Digest authentication of the httpx facade (`DigestAuth` of `_auth.py`). -/
namespace Eggfetch.Facade.Auth

/-- A case mapping as far as the names of the algorithms tell it from `str.upper`. -/
def upper (s : List Char) : List Char := s.map fun c => if c = 'ſ' then 'S' else c.toUpper

/-- `:08x`. -/
def hex8 (n : Nat) : List Char := List.replicate (8 - (Nat.toDigits 16 n).length) '0' ++ Nat.toDigits 16 n

def encode (s : List Char) : List UInt8 := s.flatMap String.utf8EncodeChar

/-- `str.strip('"')`. -/
def stripQuotes (s : List Char) : List Char := (s.dropWhile (· == '"')).rdropWhile (· == '"')

def selectQop (rawQop : List Char) : Option (List Char) :=
  ((rawQop.splitOn ',').map fun candidate => stripQuotes (strip candidate)).find? fun candidate =>
    candidate = "auth".toList ∨ candidate = "auth-int".toList

/-- The parameters of a request that is counted. -/
structure Counted where
  qop : List Char
  nc : List Char
  cnonce : List Char

/-- The parts of an `Authorization` value. -/
structure Authorization where
  username : List Char
  realm : List Char
  nonce : List Char
  uri : List Char
  response : List Char
  counted : Option Counted
  opaqueText : Option (List Char)
  algorithm : Option (List Char)

def quote (name : String) (value : List Char) : List Char := name.toList ++ "=\"".toList ++ value ++ ['"']

def Authorization.render (a : Authorization) : List Char :=
  "Digest ".toList ++ ", ".toList.intercalate
    ([quote "username" a.username, quote "realm" a.realm, quote "nonce" a.nonce, quote "uri" a.uri,
      quote "response" a.response] ++
      (a.counted.elim [] fun c => ["qop=".toList ++ c.qop, "nc=".toList ++ c.nc, quote "cnonce" c.cnonce]) ++
      (a.opaqueText.elim [] fun text => [quote "opaque" text]) ++
      (a.algorithm.elim [] fun algorithm => ["algorithm=".toList ++ algorithm]))

/-- A request, the response to it without credentials, and the cnonce that would be drawn. -/
structure Exchange where
  method : List Char
  path : List Char
  query : List Char
  content : Option (List UInt8)
  status : Nat
  challenge : Option WwwAuthenticate
  cnonce : List Char

def Exchange.uri (e : Exchange) : List Char := if e.query = [] then e.path else e.path ++ '?' :: e.query

/-- `none` beside a missing field: the text is empty. -/
def Exchange.wwwAuthenticate (e : Exchange) : List Char := e.challenge.elim [] WwwAuthenticate.render

section
variable (alnum : Char → Bool) (md5 sha256 : List UInt8 → List Char) (username password : List Char)

def digestHash (algorithm : List Char) : List UInt8 → List Char :=
  if upper algorithm = "MD5".toList then md5
  else if upper algorithm = "SHA-256".toList ∨ upper algorithm = "SHA256".toList then sha256
  else md5

/-- The response to a challenge: `H(HA1:nonce:[nc:cnonce:qop:]HA2)`. -/
def digestResponse (e : Exchange) (realm nonce algorithm : List Char) (counted : Option Counted) : List Char :=
  let hash := digestHash md5 sha256 algorithm
  let join := [':'].intercalate
  let ha1 := hash (encode (join [username, realm, password]))
  let ha2 := match counted with
    | some ⟨qop, _, _⟩ =>
      if qop = "auth-int".toList then hash (encode (join [e.method, e.uri, hash (e.content.getD [])]))
      else hash (encode (join [e.method, e.uri]))
    | none => hash (encode (join [e.method, e.uri]))
  match counted with
  | some ⟨qop, nc, cnonce⟩ => hash (encode (join [ha1, nonce, nc, cnonce, qop, ha2]))
  | none => hash (encode (join [ha1, nonce, ha2]))

/-- `_build_digest_response`, with the new count. -/
def buildDigestResponse (e : Exchange) (challenge : List (List Char × List Char)) (nonceCount : Nat) : Nat × Authorization :=
  let realm := (lookup challenge "realm".toList).getD []
  let nonce := (lookup challenge "nonce".toList).getD []
  let algorithm := (lookup challenge "algorithm".toList).getD "MD5".toList
  let opaqueText := (lookup challenge "opaque".toList).getD []
  let qop := selectQop ((lookup challenge "qop".toList).getD [])
  let nonceCount := nonceCount + 1
  let counted := qop.map fun qop => ⟨qop, hex8 nonceCount, e.cnonce⟩
  (nonceCount,
    { username, realm, nonce, uri := e.uri,
      response := digestResponse md5 sha256 username password e realm nonce algorithm counted,
      counted,
      opaqueText := if opaqueText = [] then none else some opaqueText,
      algorithm := if algorithm = [] ∨ upper algorithm = "MD5".toList then none else some algorithm })

/-- `auth_flow` behind its first request: the new count, and the header of the second request if there is one. -/
def authFlow (e : Exchange) (nonceCount : Nat) : Nat × Option Authorization :=
  if e.status ≠ 401 ∨ lower (e.wwwAuthenticate.take 6) ≠ "digest".toList then (nonceCount, none)
  else
    match parseChallenge alnum e.wwwAuthenticate with
    | none => (nonceCount, none)
    | some challenge =>
      let nonceCount := if lower ((lookup challenge "stale".toList).getD []) = "true".toList then 0 else nonceCount
      let (nonceCount, header) := buildDigestResponse md5 sha256 username password e challenge nonceCount
      (nonceCount, some header)

/-- One `DigestAuth` object: its count, and the headers it has sent, with what they answer. -/
structure DigestAuth where
  nonceCount : Nat
  sent : List (Exchange × Authorization)

def DigestAuth.step (auth : DigestAuth) (e : Exchange) : DigestAuth :=
  let (nonceCount, header) := authFlow alnum md5 sha256 username password e auth.nonceCount
  ⟨nonceCount, auth.sent ++ (header.toList.map fun header => (e, header))⟩

def DigestAuth.run (exchanges : List Exchange) : DigestAuth :=
  exchanges.foldl (DigestAuth.step alnum md5 sha256 username password) ⟨0, []⟩

end
end Eggfetch.Facade.Auth
