import Eggfetch.Text.Split
import Eggfetch.Http.Url
import Mathlib.Data.List.Sort

/-! The cookie jar of `cookie.rs`: every insertion path, expiry, matching and the
`Cookie` header text. The jar's map is an association list with distinct keys. -/
namespace Eggfetch.CookieJar
open Text Http

/-- `SystemTime`, in nanoseconds from the epoch. -/
abbrev Time := Int

inductive SameSite where
  | strict
  | lax
  | none
  deriving DecidableEq, Repr

structure Cookie where
  name : Str
  value : Str
  domain : Str
  hostOnly : Bool
  path : Str
  secure : Bool
  httpOnly : Bool
  sameSite : Option SameSite
  expires : Option Time
  persistent : Bool
  creationIndex : Nat
  deriving DecidableEq, Repr

/-- What the `cookie` crate returns for a header value. `expires` is `some none` for
a session expiration; `maxAge` is in whole seconds. -/
structure ParsedCookie where
  name : Str
  value : Str
  domain : Option Str := none
  path : Option Str := none
  secure : Option Bool := none
  httpOnly : Option Bool := none
  sameSite : Option SameSite := none
  maxAge : Option Int := none
  expires : Option (Option Time) := none

/-- Library functions that the jar calls. -/
structure Library where
  parseEncoded : Str → Option ParsedCookie
  toLowercase : Str → Str
  isIpAddress : Str → Bool

structure CookieKey where
  name : Str
  domain : Str
  path : Str
  deriving DecidableEq, Repr

inductive Error where
  | invalidHeaderValue (message : Str)
  deriving DecidableEq, Repr

/-- The jar, with the global creation counter. -/
structure JarInner where
  cookies : List (CookieKey × Cookie)
  nextExpiry : Option Time
  creationCounter : Nat
  deriving DecidableEq, Repr

def new (creationCounter : Nat) : JarInner := ⟨[], none, creationCounter⟩

def isValidCookieName (name : Str) : Bool :=
  !name.isEmpty && !name.any fun b =>
    b ≤ 0x20 || b == 0x7f || b == 0x22 || b == 0x2c || b == 0x3b || b == 0x5c

/-- RFC 6265 `cookie-octet`. -/
def isValidCookieValue (value : Str) : Bool :=
  value.all fun b => b == 0x21 || (0x23 ≤ b && b ≤ 0x2B) || (0x2D ≤ b && b ≤ 0x3A) ||
    (0x3C ≤ b && b ≤ 0x5B) || (0x5D ≤ b && b ≤ 0x7E)

def defaultCookiePath (urlPath : Str) : Str :=
  if urlPath.head? = some 0x2f then
    match rfind 0x2f urlPath with
    | some lastPos => if 0 < lastPos then urlPath.take lastPos else utf8 "/"
    | none => utf8 "/"
  else utf8 "/"

def pathMatches (requestPath cookiePath : Str) : Bool :=
  if requestPath.head? ≠ some 0x2f ∨ cookiePath.head? ≠ some 0x2f then false
  else if requestPath = cookiePath then true
  else if ¬ cookiePath.isPrefixOf requestPath then false
  else if cookiePath.getLast? = some 0x2f then true
  else requestPath[cookiePath.length]? = some 0x2f

section
variable (lib : Library)

def CookieKey.new (name domain path : Str) : CookieKey := ⟨name, lib.toLowercase domain, path⟩

def Cookie.key (c : Cookie) : CookieKey := CookieKey.new lib c.name c.domain c.path

def domainMatches (host domain : Str) : Bool :=
  if eqIgnoreAsciiCase host domain then true
  else if lib.isIpAddress host || lib.isIpAddress domain then false
  else domain.length + 1 < host.length && host[host.length - domain.length - 1]? == some 0x2e &&
    eqIgnoreAsciiCase (host.drop (host.length - domain.length)) domain

def cookieMatches (c : Cookie) (urlHost urlPath : Str) (isSecure : Bool) : Bool :=
  if c.secure && !isSecure then false
  else if !c.hostOnly && c.domain.isEmpty then pathMatches urlPath c.path
  else if c.hostOnly then eqIgnoreAsciiCase urlHost c.domain && pathMatches urlPath c.path
  else domainMatches lib urlHost c.domain && pathMatches urlPath c.path

end

/-- `checked_add`: the seconds of a `SystemTime` are an `i64`. -/
def Time.checkedAdd (t : Time) (secs : Nat) : Option Time :=
  let sum := t + secs * 10 ^ 9
  if sum / 10 ^ 9 < 2 ^ 63 then some sum else none

def maxAgeCapSecs : Nat := 400 * 24 * 60 * 60

def resolveExpiration (now : Time) (parsed : ParsedCookie) : Bool × Option Time :=
  match parsed.maxAge with
  | some secs =>
    -- Max-Age of zero or less: the epoch, so that the cookie counts as expired
    if secs ≤ 0 then (true, some 0) else (true, now.checkedAdd (min secs.toNat maxAgeCapSecs))
  | none =>
    match parsed.expires with
    | some (some t) => (true, some t)
    | _ => (false, none)

/-- The domain part of `parse_set_cookie`: the stored domain and whether it is host-only. -/
def cookieDomain (lib : Library) (parsed : ParsedCookie) (responseHost : Str) : Option (Str × Bool) :=
  match parsed.domain with
  | some rawDomain =>
    let normalized := rawDomain.dropWhile (· == 0x2e)
    if normalized.isEmpty then none
    else if lib.isIpAddress normalized && !eqIgnoreAsciiCase normalized responseHost then none
    else if !domainMatches lib responseHost normalized then none
    else some (normalized, false)
  | none => some (responseHost, true)

def parseSetCookie (lib : Library) (creationIndex : Nat) (now : Time) (headerValue : Str)
    (responseUrl : Url) (responseHost : Str) : Option Cookie := do
  let parsed ← lib.parseEncoded headerValue
  if !isValidCookieName parsed.name then none
  let (domain, hostOnly) ← cookieDomain lib parsed responseHost
  let path := match parsed.path with
    | some p => if p.head? = some 0x2f then p else defaultCookiePath responseUrl.path
    | none => defaultCookiePath responseUrl.path
  let (persistent, expires) := resolveExpiration now parsed
  some {
    name := parsed.name, value := parsed.value, domain, hostOnly, path
    secure := parsed.secure.getD false, httpOnly := parsed.httpOnly.getD false
    sameSite := parsed.sameSite, expires, persistent, creationIndex }

namespace Cookie

def persistentExpiry (c : Cookie) : Option Time := if c.persistent then c.expires else none

def isExpired (c : Cookie) (now : Time) : Bool := c.persistentExpiry.any (· ≤ now)

def nameValuePair (c : Cookie) : Str := c.name ++ 0x3d :: c.value

end Cookie

def nextCreation (counter : Nat) : Nat := (counter + 1) % 2 ^ 64

/-- The loop of `update_from_response` over the header values, each with the clock
reading of its own parse: the cookies to insert, the keys to remove, the counter. -/
def collect (lib : Library) (responseUrl : Url) (responseHost : Str) (now : Time) :
    List (Str × Time) → Nat → List Cookie × List CookieKey × Nat
  | [], counter => ([], [], counter)
  | (headerValue, parseNow) :: rest, counter =>
    match parseSetCookie lib counter parseNow headerValue responseUrl responseHost with
    | none => collect lib responseUrl responseHost now rest counter
    | some c =>
      let (toInsert, toRemove, counter') :=
        collect lib responseUrl responseHost now rest (nextCreation counter)
      if c.isExpired now then (toInsert, c.key lib :: toRemove, counter')
      else (c :: toInsert, toRemove, counter')

namespace JarInner

def get (jar : JarInner) (key : CookieKey) : Option Cookie := jar.cookies.lookup key

def mapInsert (cookies : List (CookieKey × Cookie)) (key : CookieKey) (c : Cookie) :
    List (CookieKey × Cookie) :=
  (key, c) :: cookies.filter fun p : CookieKey × Cookie => p.1 ≠ key

def mapRemove (cookies : List (CookieKey × Cookie)) (key : CookieKey) : List (CookieKey × Cookie) :=
  cookies.filter fun p : CookieKey × Cookie => p.1 ≠ key

def recomputeNextExpiry (jar : JarInner) : JarInner :=
  { jar with nextExpiry := (jar.cookies.filterMap fun p => p.2.persistentExpiry).min? }

def insertCookie (jar : JarInner) (key : CookieKey) (c : Cookie) : JarInner :=
  let oldExpiry := (jar.get key).bind Cookie.persistentExpiry
  let newExpiry := c.persistentExpiry
  let jar := { jar with cookies := mapInsert jar.cookies key c }
  match jar.nextExpiry, oldExpiry, newExpiry with
  | none, _, some expiry => { jar with nextExpiry := some expiry }
  | some current, old, new =>
    if new.any (· < current) then { jar with nextExpiry := new }
    else if old = some current ∧ new.all (current < ·) then jar.recomputeNextExpiry
    else jar
  | none, _, none => jar

def removeCookie (jar : JarInner) (key : CookieKey) : JarInner :=
  let removedExpiry := (jar.get key).bind Cookie.persistentExpiry
  let jar := { jar with cookies := mapRemove jar.cookies key }
  if removedExpiry = jar.nextExpiry then jar.recomputeNextExpiry else jar

def updateFromResponse (lib : Library) (jar : JarInner) (responseUrl : Url) (now : Time)
    (setCookieHeaders : List (Str × Time)) : JarInner :=
  let responseHost := responseUrl.host.getD []
  let (toInsert, toRemove, counter) :=
    collect lib responseUrl responseHost now setCookieHeaders jar.creationCounter
  let jar := { jar with creationCounter := counter }
  if toInsert.isEmpty && toRemove.isEmpty then jar
  else
    let removed := toRemove.foldl mapRemove jar.cookies
    let inserted := toInsert.foldl (fun m c => mapInsert m (c.key lib) c) removed
    { jar with cookies := inserted }.recomputeNextExpiry

def invalidName (name : Str) : Error :=
  .invalidHeaderValue (utf8 "invalid cookie name: '" ++ name ++ utf8 "'")

def invalidValue : Error :=
  .invalidHeaderValue (utf8 "invalid cookie value: must match RFC 6265 cookie-octet (no ';', ',', whitespace, CTLs, or non-ASCII)")

def set (lib : Library) (jar : JarInner) (now : Time) (c : Cookie) : Except Error JarInner :=
  if !isValidCookieName c.name then .error (invalidName c.name)
  else if !isValidCookieValue c.value then .error invalidValue
  else if c.isExpired now then .ok (jar.removeCookie (c.key lib))
  else .ok (jar.insertCookie (c.key lib) c)

def setDefaultCookie (lib : Library) (jar : JarInner) (name value : Str) : Except Error JarInner :=
  if !isValidCookieName name then .error (invalidName name)
  else if !isValidCookieValue value then .error invalidValue
  else
    let c : Cookie := {
      name, value, domain := [], hostOnly := false, path := utf8 "/", secure := false
      httpOnly := false, sameSite := none, expires := none, persistent := false
      creationIndex := jar.creationCounter }
    .ok ({ jar with creationCounter := nextCreation jar.creationCounter }.insertCookie (c.key lib) c)

def delete (lib : Library) (jar : JarInner) (name domain path : Str) : JarInner :=
  jar.removeCookie (CookieKey.new lib name domain path)

def clear (jar : JarInner) : JarInner := { jar with cookies := [], nextExpiry := none }

def expireStale (jar : JarInner) (now : Time) : JarInner :=
  { jar with cookies := jar.cookies.filter fun p => !p.2.isExpired now }.recomputeNextExpiry

def expireIfDue (jar : JarInner) (now : Time) : JarInner :=
  if jar.nextExpiry.any (· ≤ now) then jar.expireStale now else jar

def sortsBefore (a b : Cookie) : Prop :=
  b.path.length < a.path.length ∨ (a.path.length = b.path.length ∧ a.creationIndex ≤ b.creationIndex)

instance : DecidableRel sortsBefore := fun a b => by unfold sortsBefore; infer_instance

def dedup (seen : List (Str × Str)) : List Cookie → List Cookie
  | [] => []
  | c :: rest =>
    if (c.name, c.path) ∈ seen then dedup seen rest
    else c :: dedup ((c.name, c.path) :: seen) rest

def joinLoop (seen : List (Str × Str)) (result : Str) : List Cookie → Str
  | [] => result
  | c :: rest =>
    if (c.name, c.path) ∈ seen then joinLoop seen result rest
    else
      let result := if result.isEmpty then result else result ++ utf8 "; "
      joinLoop ((c.name, c.path) :: seen) (result ++ c.name ++ utf8 "=" ++ c.value) rest

/-- Matching cookies in the order of the header; `values` is the map's iteration order. -/
def sortedMatches (lib : Library) (values : List Cookie) (url : Url) : List Cookie :=
  (values.filter fun c =>
    cookieMatches lib c (url.host.getD []) url.path (url.scheme == utf8 "https")).insertionSort sortsBefore

/-- The read-locked part of `cookies_for_url`, after `expireIfDue`. -/
def cookiesForUrl (lib : Library) (values : List Cookie) (url : Url) : Option Str :=
  let matched := sortedMatches lib values url
  if matched.isEmpty then none
  else
    let result := joinLoop [] [] matched
    if result.isEmpty then none else some result

end JarInner

inductive Operation where
  | updateFromResponse (responseUrl : Url) (now : Time) (setCookieHeaders : List (Str × Time))
  | set (now : Time) (c : Cookie)
  | setDefaultCookie (name value : Str)
  | delete (name domain path : Str)
  | clear
  | expireStale (now : Time)
  /-- What every read of the jar does first. -/
  | expireIfDue (now : Time)

/-- A failing `set` leaves the jar as it was. -/
def step (lib : Library) (jar : JarInner) : Operation → Option JarInner
  | .updateFromResponse responseUrl now headers =>
    some (jar.updateFromResponse lib responseUrl now headers)
  | .set now c => some ((jar.set lib now c).toOption.getD jar)
  | .setDefaultCookie name value => some ((jar.setDefaultCookie lib name value).toOption.getD jar)
  | .delete name domain path => some (jar.delete lib name domain path)
  | .clear => some jar.clear
  | .expireStale now => some (jar.expireStale now)
  | .expireIfDue now => some (jar.expireIfDue now)

end Eggfetch.CookieJar
