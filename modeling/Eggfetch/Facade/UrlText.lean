import Eggfetch.Facade.Urls

/-! From a text to a URL and back (`URL._init` and `URL._display_str` of `_urls.py`). -/
namespace Eggfetch.Facade.Urls
open Text

def isC0OrSpace (c : Char) : Bool := c.toNat ≤ 32

def isRemoved (c : Char) : Bool := c == '\t' || c == '\n' || c == '\r'

def isSchemeChar (c : Char) : Bool := c.isAlphanum || c == '+' || c == '-' || c == '.'

def isNetlocEnd (c : Char) : Bool := c == '/' || c == '?' || c == '#'

/-- `scheme, url = url[:i].lower(), url[i+1:]`, where a scheme stands there. -/
def splitScheme (url : List Char) : List Char × List Char :=
  let (scheme, found, rest) := partition ':' url
  if found && scheme.head?.any Char.isAlpha && scheme.all isSchemeChar then (scheme.map Char.toLower, rest) else ([], url)

def splitNetloc : List Char → List Char × List Char
  | '/' :: '/' :: url => (url.takeWhile (!isNetlocEnd ·), url.dropWhile (!isNetlocEnd ·))
  | url => ([], url)

def balanced (netloc : List Char) : Bool := netloc.contains '[' == netloc.contains ']'

section
variable (lower : List Char → List Char) (check : List Char → Bool)

/-- `urllib.parse.urlsplit`. `check` is what it asks of a netloc beside its brackets: that a bracketed host is
an address, and that no character decomposes into a delimiter. -/
def urlsplit (text : List Char) : Option SplitResult :=
  let (scheme, url) := splitScheme ((text.dropWhile isC0OrSpace).filter (!isRemoved ·))
  let (netloc, url) := splitNetloc url
  if balanced netloc && check netloc then
    let (url, _, fragment) := partition '#' url
    let (path, _, query) := partition '?' url
    some ⟨scheme, netloc, path, query, fragment⟩
  else none

namespace SplitResult

def shortNetloc (parts : SplitResult) : List Char :=
  let hostname := (parts.hostname lower).getD []
  match parts.username, parts.password with
  | some username, some password =>
    if password ≠ [] then username ++ ':' :: (password ++ '@' :: hostname)
    else if username ≠ [] then username ++ '@' :: hostname else hostname
  | some username, none => if username ≠ [] then username ++ '@' :: hostname else hostname
  | none, _ => hostname

def isDefaultPort (parts : SplitResult) (port : Option Nat) : Bool :=
  parts.scheme = "http".toList ∧ port = some 80 ∨ parts.scheme = "https".toList ∧ port = some 443

def tail (parts : SplitResult) : List Char :=
  parts.path ++ (if parts.query = [] then [] else '?' :: parts.query) ++
  (if parts.fragment = [] then [] else '#' :: parts.fragment)

/-- `str(url)`; `none` is the `ValueError` of the port. -/
def displayStr (parts : SplitResult) : Option (List Char) :=
  if parts.scheme = [] then some (if parts.netloc = [] then parts.tail else '/' :: '/' :: (parts.netloc ++ parts.tail))
  else
    parts.port.map fun port =>
      let netloc := if parts.isDefaultPort port then parts.shortNetloc lower else parts.netloc
      parts.scheme ++ ':' :: '/' :: '/' :: (netloc ++ parts.tail)

/-- The property `userinfo`. -/
def userinfoText (parts : SplitResult) : List Char :=
  match parts.username.getD [] with
  | [] => []
  | username => username ++ match parts.password.getD [] with
    | [] => []
    | password => ':' :: password

/-- `_port_or_default`. -/
def effectivePort (parts : SplitResult) : Option (Option Nat) :=
  parts.port.map fun port => port.or
    (if parts.scheme = "https".toList then some 443 else if parts.scheme = "http".toList then some 80 else none)

end SplitResult

def RoundTrip (u : SplitResult) : Prop :=
  ∃ text v, u.displayStr lower = some text ∧ urlsplit check text = some v ∧ v.scheme = u.scheme ∧
  v.userinfoText = u.userinfoText ∧
    v.hostname lower = u.hostname lower ∧ v.effectivePort = u.effectivePort ∧ v.path = u.path ∧ v.query = u.query ∧
    v.fragment = u.fragment

end
end Eggfetch.Facade.Urls
