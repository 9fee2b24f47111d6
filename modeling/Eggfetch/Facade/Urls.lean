import Eggfetch.Text.Split
import Mathlib.Data.List.DropRight

/-! The URLs of the httpx facade (`_urls.py`), over the parts that `urllib.parse` cuts. -/
namespace Eggfetch.Facade.Urls
open Text

/-- `str.partition`: what stands before the first of a character, whether there is one, and what stands behind it. -/
def partition (c : Char) (s : List Char) : List Char × Bool × List Char :=
  (s.takeWhile (· != c), s.contains c, (s.dropWhile (· != c)).drop 1)

def rpartition (c : Char) (s : List Char) : List Char × Bool × List Char :=
  if c ∈ s then ((s.rdropWhile (· != c)).dropLast, true, s.rtakeWhile (· != c)) else ([], false, s)

/-- `urllib.parse.SplitResult`. -/
structure SplitResult where
  scheme : List Char
  netloc : List Char
  path : List Char
  query : List Char
  fragment : List Char
deriving DecidableEq

namespace SplitResult

/-- `_hostinfo`: the host as it is written and the port, if a text stands there. -/
def hostinfo (parts : SplitResult) : List Char × Option (List Char) :=
  let hostinfo := (rpartition '@' parts.netloc).2.2
  let (_, haveOpenBr, bracketed) := partition '[' hostinfo
  let (hostname, port) :=
    if haveOpenBr then
      let (hostname, _, port) := partition ']' bracketed
      (hostname, (partition ':' port).2.2)
    else
      let (hostname, _, port) := partition ':' hostinfo
      (hostname, port)
  (hostname, if port = [] then none else some port)

/-- `_userinfo`: the name and the password. -/
def userinfo (parts : SplitResult) : Option (List Char) × Option (List Char) :=
  let (userinfo, haveInfo, _) := rpartition '@' parts.netloc
  if haveInfo then
    let (username, havePassword, password) := partition ':' userinfo
    (some username, if havePassword then some password else none)
  else (none, none)

def username (parts : SplitResult) : Option (List Char) := parts.userinfo.1

def password (parts : SplitResult) : Option (List Char) := parts.userinfo.2

def hostname (lower : List Char → List Char) (parts : SplitResult) : Option (List Char) :=
  let hostname := parts.hostinfo.1
  if hostname = [] then none
  else
    let (hostname, percent, zone) := partition '%' hostname
    some (lower hostname ++ if percent then '%' :: zone else [])

def number (digits : List Char) : Nat := digits.foldl (fun n c => 10 * n + (c.toNat - 48)) 0

/-- The outer `none` is the `ValueError`. -/
def port (parts : SplitResult) : Option (Option Nat) :=
  match parts.hostinfo.2 with
  | none => some none
  | some port =>
    if port.all Char.isDigit then if number port ≤ 65535 then some (some (number port)) else none else none

end SplitResult

section
variable {c : Char} {s t : List Char}

theorem partition_cut (h : c ∉ s) (t : List Char) : partition c (s ++ c :: t) = (s, true, t) := by
  rw [partition, takeWhile_cut h, dropWhile_cut h, List.drop_one, List.tail_cons]
  simp

theorem partition_whole (h : c ∉ s) : partition c s = (s, false, []) := by
  rw [partition, takeWhile_whole h, dropWhile_whole h, List.drop_nil]
  simp [h]

theorem rpartition_cut (h : c ∉ t) (s : List Char) : rpartition c (s ++ c :: t) = (s, true, t) := by
  have hTake : (s ++ c :: t).rtakeWhile (· != c) = t := by
    rw [List.rtakeWhile, List.reverse_append, List.reverse_cons, List.append_assoc, List.singleton_append,
      takeWhile_cut fun hMem => h (List.mem_reverse.mp hMem), List.reverse_reverse]
  have hDrop : (s ++ c :: t).rdropWhile (· != c) = s ++ [c] := by
    rw [List.rdropWhile, List.reverse_append, List.reverse_cons, List.append_assoc, List.singleton_append,
      dropWhile_cut fun hMem => h (List.mem_reverse.mp hMem), List.reverse_cons, List.reverse_reverse]
  rw [rpartition, if_pos (List.mem_append_right s List.mem_cons_self), hTake, hDrop, List.dropLast_concat]

theorem rpartition_whole (h : c ∉ s) : rpartition c s = ([], false, s) := if_neg h

/-- Every text is cut at the last of a character, or has none. -/
theorem exists_last (c : Char) (s : List Char) : c ∉ s ∨ ∃ x y, s = x ++ c :: y ∧ c ∉ y := by
  by_cases h : c ∈ s
  · obtain ⟨y, x, hSplit, hy⟩ := List.eq_append_cons_of_mem (List.mem_reverse.mpr h)
    refine Or.inr ⟨x.reverse, y.reverse, ?_, fun hMem => hy (List.mem_reverse.mp hMem)⟩
    rw [← List.reverse_reverse s, hSplit, List.reverse_append, List.reverse_cons, List.append_assoc, List.singleton_append]
  · exact Or.inl h

/-- Every text is cut at the first of a character, or has none. -/
theorem exists_first (c : Char) (s : List Char) : c ∉ s ∨ ∃ x y, s = x ++ c :: y ∧ c ∉ x := by
  by_cases h : c ∈ s
  · exact Or.inr (List.eq_append_cons_of_mem h)
  · exact Or.inl h

end
end Eggfetch.Facade.Urls
