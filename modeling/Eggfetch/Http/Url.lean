import Eggfetch.Text.Bytes

/-! The components of a parsed URL that the client reads. -/
namespace Eggfetch.Http
open Text

structure Url where
  scheme : Str
  username : Str := []
  password : Option Str := none
  host : Option Str
  port : Option Nat := none
  path : Str
  query : Option Str := none
  fragment : Option Str := none
  deriving DecidableEq, Repr

namespace Url

def portOrKnownDefault (url : Url) : Option Nat :=
  url.port <|>
    if url.scheme = utf8 "http" ∨ url.scheme = utf8 "ws" then some 80
    else if url.scheme = utf8 "https" ∨ url.scheme = utf8 "wss" then some 443
    else if url.scheme = utf8 "ftp" then some 21 else none

/-- The tuple origin; `none` is an opaque one, which equals no origin. -/
def origin (url : Url) : Option (Str × Str × Nat) :=
  if url.scheme ∈ ["ftp", "http", "https", "ws", "wss"].map utf8 then
    match url.host, url.portOrKnownDefault with
    | some host, some port => some (url.scheme, host, port)
    | _, _ => none
  else none

def sameOrigin (a b : Url) : Bool := a.origin.isSome && a.origin == b.origin

end Url
end Eggfetch.Http
