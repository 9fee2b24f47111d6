import Eggfetch.Facade.UrlText
import Mathlib.Data.List.MinMax
import Mathlib.Data.Prod.Lex

/-! The mounts of a client (`_match_mount` of `_client.py`). -/
namespace Eggfetch.Facade.Urls
open Text

/-- What `_parse_mount_pattern` returns. -/
structure MountPattern where
  scheme : List Char
  host : Option (List Char)
  port : Option Nat
  path : List Char
  isWildcard : Bool
deriving DecidableEq

/-- `path.rstrip("/") or ""`. -/
def rstripSlash (path : List Char) : List Char := path.rdropWhile (· = '/')

section
variable (lower : List Char → List Char) (check : List Char → Bool)

/-- `none` is the `ValueError` of `urlsplit` or of the port. -/
def parseMountPattern (pattern : List Char) : Option MountPattern :=
  if pattern = "all://".toList then some ⟨[], none, none, [], false⟩
  else do
    let parsed ← urlsplit check pattern
    let port ← parsed.port
    let rawHost := (parsed.hostname lower).getD []
    let (host, isWildcard) :=
      if "*.".toList.isPrefixOf rawHost then (some (rawHost.drop 2), true)
      else if rawHost = ['*'] then (some [], true)
      else (parsed.hostname lower, false)
    let scheme := lower parsed.scheme
    some ⟨if scheme = "all".toList then [] else scheme, host, port, rstripSlash parsed.path, isWildcard⟩

/-- `_validate_mount_pattern`; `false` is a `ValueError`. -/
def validateMountPattern (pattern : List Char) : Bool :=
  pattern = "all://".toList || (urlsplit check pattern).any fun parsed =>
    let rawHost := (parsed.hostname lower).getD []
    let remainder := if "*.".toList.isPrefixOf rawHost then rawHost.drop 2 else []
    parsed.scheme ≠ [] && (!(rawHost = ['*'] || "*.".toList.isPrefixOf rawHost) || remainder ≠ [] && remainder.contains '.') &&
      parsed.port.isSome

/-- A URL as the patterns are compared with it. -/
structure Target where
  scheme : List Char
  host : Option (List Char)
  port : Option Nat
  path : List Char
deriving DecidableEq

/-- The text of the URL is split again, and its port read; `none` is a `ValueError` on the way. -/
def targetOf (url : SplitResult) : Option Target := do
  let text ← url.displayStr lower
  let parts ← urlsplit check text
  let port ← parts.port
  some ⟨lower parts.scheme, parts.hostname lower, port, rstripSlash parts.path⟩

def hostMatches (urlHost patHost : Option (List Char)) (isWildcard : Bool) : Bool :=
  match patHost, urlHost with
  | none, _ => true
  | some _, none => false
  | some patHost, some urlHost =>
    if isWildcard then ('.' :: lower patHost).isSuffixOf (lower urlHost) else lower patHost = lower urlHost

def admits (pattern : MountPattern) (url : Target) : Bool :=
  pattern.scheme = [] && pattern.host.isNone ||
    (pattern.scheme = [] || pattern.scheme = "all".toList || pattern.scheme = url.scheme) &&
    hostMatches lower url.host pattern.host pattern.isWildcard &&
    (pattern.port.isNone || pattern.port = url.port) &&
    (pattern.path = [] || url.path = pattern.path || (pattern.path ++ ['/']).isPrefixOf url.path)

end

def score (pattern : MountPattern) : Nat :=
  if pattern.scheme = [] ∧ pattern.host = none then 0
  else if pattern.host = none ∧ pattern.path = [] then 10
  else if pattern.isWildcard then
    if pattern.port ≠ none ∧ pattern.path = [] then 450
    else if pattern.port ≠ none ∧ pattern.path ≠ [] then 9500
    else if pattern.path ≠ [] then 150 + pattern.path.length
    else 150
  else
    if pattern.port ≠ none ∧ pattern.path = [] then 500
    else if pattern.port ≠ none ∧ pattern.path ≠ [] then 10000
    else if pattern.path ≠ [] then 200 + pattern.path.length
    else 200

section
variable {τ : Type} (lower : List Char → List Char) (check : List Char → Bool)

/-- One round of the loop over the mounts: the best match and its score. -/
def consider (url : Target) (best : Option (List Char × τ) × Int) (mount : List Char × τ) :
    Option (Option (List Char × τ) × Int) := do
  let pattern ← parseMountPattern lower check mount.1
  if admits lower pattern url && best.2 < score pattern then some (some mount, score pattern) else some best

/-- The mount that is matched; the inner `none` is `_MOUNT_NO_MATCH`. -/
def matchMount (url : SplitResult) (mounts : List (List Char × τ)) : Option (Option (List Char × τ)) :=
  match mounts with
  | [] => some none
  | mounts => do
    let target ← targetOf lower check url
    let best ← mounts.foldlM (consider lower check target) (none, -1)
    some best.1

def documentedTarget (url : SplitResult) : Target :=
  ⟨lower url.scheme, url.hostname lower, url.effectivePort.getD none, rstripSlash url.path⟩

def documentedMatch (pattern : MountPattern) (url : Target) : Bool :=
  (pattern.scheme = [] || pattern.scheme = url.scheme) &&
    hostMatches lower url.host pattern.host pattern.isWildcard &&
    (pattern.port.isNone || pattern.port = url.port) &&
    (pattern.path = [] || url.path = pattern.path || (pattern.path ++ ['/']).isPrefixOf url.path)

def documentedClass (pattern : MountPattern) : Nat :=
  match pattern.host with
  | none => if pattern.scheme = [] then 0 else 1
  | some _ =>
    (if pattern.port ≠ none then if pattern.path ≠ [] then 8 else 6 else if pattern.path ≠ [] then 4 else 2) +
      if pattern.isWildcard then 0 else 1

/-- The documented order: the class, then a port, the longer path, the longer wildcard domain, and a scheme of its own. -/
def specificity (pattern : MountPattern) : ℕ ×ₗ ℕ ×ₗ ℕ ×ₗ ℕ ×ₗ ℕ :=
  toLex (documentedClass pattern, toLex (if pattern.port ≠ none then 1 else 0, toLex (pattern.path.length,
    toLex (if pattern.isWildcard then (lower (pattern.host.getD [])).length else 0, if pattern.scheme ≠ [] then 1 else 0))))

end
end Eggfetch.Facade.Urls
