import Eggfetch.Facade.Challenge
import Eggfetch.Text.Words

/-! The netrc file of the httpx facade (`NetRCAuth` of `_auth.py`). -/
namespace Eggfetch.Facade.Auth
open Text

abbrev Word := List Char

/-- What ends a line for `str.splitlines`. The file is read with universal newlines, so no carriage return is left. -/
def isLineBreak (c : Char) : Bool := [10, 11, 12, 13, 28, 29, 30, 0x85, 0x2028, 0x2029].contains c.toNat

/-- `str.splitlines`: no empty line follows the last break. -/
def splitlines (s : List Char) : List (List Char) :=
  let lines := s.splitOnP isLineBreak
  if lines.getLast? = some [] then lines.dropLast else lines

def split (s : List Char) : List Word := words isSpace s

/-- The fields of an entry. -/
structure Entry where
  login : Option Word
  password : Option Word
  account : Option Word
deriving DecidableEq

def Entry.empty : Entry := ⟨none, none, none⟩

/-- The branches of the loop over the tokens of a line, each with the argument it finds. -/
inductive Event where
  | machine (name : Option Word)
  | default
  | login (value : Option Word)
  | password (value : Option Word)
  | account (value : Option Word)
  | macdef
  | other
deriving DecidableEq

def keyword (token : Word) : Option (Option Word → Event) :=
  if token = "machine".toList then some .machine
  else if token = "login".toList then some .login
  else if token = "password".toList then some .password
  else if token = "account".toList then some .account
  else none

def readLine : List Word → List Event
  | [] => []
  | [token] =>
    match keyword token with
    | some event => [event none]
    | none => if token = "default".toList then [.default] else if token = "macdef".toList then [.macdef] else [.other]
  | token :: next :: rest =>
    match keyword token with
    | some event => event (some next) :: readLine rest
    | none =>
      if token = "macdef".toList then [.macdef]
      else (if token = "default".toList then .default else .other) :: readLine (next :: rest)

abbrev Hosts := List (Word × Entry)

structure Reading where
  hosts : Hosts
  currentHost : Option Word
  currentEntry : Entry
  inMacdef : Bool

namespace Reading

def init : Reading := ⟨[], none, .empty, false⟩

/-- `if current_host is not None: hosts[current_host] = current_entry`. -/
def save (r : Reading) : Hosts :=
  match r.currentHost with
  | none => r.hosts
  | some host => (host, r.currentEntry) :: r.hosts

def event (r : Reading) : Event → Reading
  | .machine none => { r with hosts := r.save }
  | .machine (some name) => { r with hosts := r.save, currentHost := some name, currentEntry := .empty }
  | .default => { r with hosts := r.save, currentHost := some "default".toList, currentEntry := .empty }
  | .login (some value) => { r with currentEntry := { r.currentEntry with login := some value } }
  | .password (some value) => { r with currentEntry := { r.currentEntry with password := some value } }
  | .account (some value) => { r with currentEntry := { r.currentEntry with account := some value } }
  | .macdef => { r with inMacdef := true }
  | .login none | .password none | .account none | .other => r

def line (r : Reading) (raw : List Char) : Reading :=
  let stripped := strip raw
  if r.inMacdef then { r with inMacdef := decide (stripped ≠ []) }
  else if stripped = [] ∨ stripped.head? = some '#' then r
  else (readLine (split stripped)).foldl event r

end Reading

/-- `_parse_netrc` of the text of the file. -/
def parseNetrc (content : List Char) : Hosts := ((splitlines content).foldl Reading.line .init).save

def credentials (entries : Hosts) (key : Word) : Option (Word × Word) :=
  (entries.lookup key).bind fun entry =>
    let login := entry.login.getD []
    if login = [] then none else some (login, entry.password.getD [])

def lookupCredentials (content : List Char) (host : Word) : Option (Word × Word) :=
  let entries := parseNetrc content
  (credentials entries host).or (credentials entries "default".toList)

/-- The machines, and what stands for all others. -/
inductive Owner where
  | machine (name : Word)
  | default
deriving DecidableEq

def Event.owner : Event → Option Owner
  | .machine (some name) => some (.machine name)
  | .default => some .default
  | _ => none

def Entry.add (entry : Entry) : Event → Entry
  | .login (some value) => { entry with login := some value }
  | .password (some value) => { entry with password := some value }
  | .account (some value) => { entry with account := some value }
  | _ => entry

/-- Each machine and each default with what is written up to the next of them. -/
def sections : List Event → List (Owner × Entry)
  | [] => []
  | event :: rest =>
    match event.owner with
    | some owner => (owner, (rest.takeWhile (·.owner.isNone)).foldl Entry.add .empty) :: sections rest
    | none => sections rest

def entryOf (events : List Event) (owner : Owner) : Option Entry :=
  (((sections events).filter fun part => part.1 = owner).map Prod.snd).getLast?

def Owner.key : Owner → Word
  | .machine name => name
  | .default => "default".toList

def namedEntry (events : List Event) (key : Word) : Option Entry :=
  (((sections events).filter fun part => part.1.key = key).map Prod.snd).getLast?

/-- The text has no macro and no comment. -/
structure Plain (content : List Char) : Prop where
  macdef : "macdef".toList ∉ split content
  comment : ∀ line ∈ splitlines content, (strip line).head? ≠ some '#'

/-- What the netrc format makes of the text: its tokens are read without regard to the lines, an entry holds what follows the name
of its owner, and a host is given its own credentials or those of the default. -/
structure Attributed (content : List Char) : Prop where
  read : ((splitlines content).flatMap fun line => readLine (split line)) = readLine (split content)
  machines : ∀ name, name ≠ "default".toList →
    (parseNetrc content).lookup name = entryOf (readLine (split content)) (.machine name)
  default : (parseNetrc content).lookup "default".toList = entryOf (readLine (split content)) .default
  credentials : ∀ host login password, lookupCredentials content host = some (login, password) →
    ∃ part ∈ sections (readLine (split content)), (part.1 = .machine host ∨ part.1 = .default) ∧
      part.2.login = some login ∧ part.2.password.getD [] = password

def Event.complete : Event → Bool
  | .machine none | .login none | .password none | .account none => false
  | _ => true

/-- No line but the last with a token ends in a word that wants an argument, and no machine called `default` hides the default. -/
structure WellLaidOut (content : List Char) : Prop where
  complete : ∀ before line after, splitlines content = before ++ line :: after → after.flatMap split ≠ [] →
    ∀ event ∈ readLine (split line), event.complete = true
  default : namedEntry (readLine (split content)) "default".toList = entryOf (readLine (split content)) .default

private theorem isLineBreak_space {c : Char} (h : isLineBreak c = true) : isSpace c = true := by
  have hAll : ([10, 11, 12, 13, 28, 29, 30, 0x85, 0x2028, 0x2029].all
      [9, 10, 11, 12, 13, 28, 29, 30, 31, 32, 0x85, 0xa0, 0x1680, 0x2028, 0x2029, 0x202f, 0x205f, 0x3000].contains) = true := by
    decide
  rw [isSpace, List.all_eq_true.mp hAll _ (List.contains_iff_mem.mp h), Bool.true_or]

/-- The lines have the tokens of the text. -/
theorem flatMap_split (content : List Char) : (splitlines content).flatMap split = split content := by
  have hAll : (content.splitOnP isLineBreak).flatMap split = split content := flatMap_words (fun _ => isLineBreak_space) content
  rw [splitlines]
  split
  · next hLast =>
    obtain ⟨front, hFront⟩ := List.getLast?_eq_some_iff.mp hLast
    rw [hFront, List.flatMap_append] at hAll
    rw [hFront, List.dropLast_concat, ← hAll]
    exact (List.append_nil _).symm
  · exact hAll

theorem split_strip (line : List Char) : split (strip line) = split line := by
  rw [split, strip, words_rdropWhile, words_dropWhile, split]

def bare (token : Word) : Event := if token = "default".toList then .default else .other

section
variable {token next : Word} {tokens more rest : List Word} {event : Option Word → Event}

theorem keyword_cases (h : keyword token = some event) :
    event = .machine ∨ event = .login ∨ event = .password ∨ event = .account := by
  rw [keyword] at h
  split at h
  · exact Or.inl (Option.some.inj h).symm
  · split at h
    · exact Or.inr (Or.inl (Option.some.inj h).symm)
    · split at h
      · exact Or.inr (Or.inr (Or.inl (Option.some.inj h).symm))
      · split at h
        · exact Or.inr (Or.inr (Or.inr (Option.some.inj h).symm))
        · cases h

theorem keyword_incomplete (h : keyword token = some event) : (event none).complete = false := by
  rcases keyword_cases h with rfl | rfl | rfl | rfl <;> rfl

theorem keyword_ne (h : keyword token = some event) (value : Word) : event none ≠ event (some value) := by
  rcases keyword_cases h with rfl | rfl | rfl | rfl <;> intro hEq <;> cases hEq

theorem readLine_last (h : keyword token = some event) : readLine [token] = [event none] := by
  rw [readLine, h]

theorem readLine_keyword (h : keyword token = some event) :
    readLine (token :: next :: rest) = event (some next) :: readLine rest := by
  rw [readLine, h]

theorem readLine_bare (h : keyword token = none) (hMacdef : token ≠ "macdef".toList) :
    readLine (token :: rest) = bare token :: readLine rest := by
  cases rest with
  | nil =>
    rw [readLine.eq_def, bare]
    simp only [h, if_neg hMacdef]
    split
    · rfl
    · rfl
  | cons next rest => rw [readLine, h, bare, if_neg hMacdef]

/-- The tokens are taken one by one, or a word that wants an argument with it. -/
theorem tokens_induction {motive : List Word → Prop} (nil : motive [])
    (last : ∀ token event, keyword token = some event → motive [token])
    (pair : ∀ token next rest event, keyword token = some event → motive rest → motive (token :: next :: rest))
    (single : ∀ token rest, keyword token = none → motive rest → motive (token :: rest)) (tokens : List Word) :
    motive tokens := by
  induction hLength : tokens.length using Nat.strong_induction_on generalizing tokens with
  | _ n ih =>
    cases tokens with
    | nil => exact nil
    | cons token rest =>
      rw [List.length_cons] at hLength
      cases hKeyword : keyword token with
      | none => exact single token rest hKeyword (ih rest.length (by omega) rest rfl)
      | some event =>
        cases rest with
        | nil => exact last token event hKeyword
        | cons next rest =>
          rw [List.length_cons] at hLength
          exact pair token next rest event hKeyword (ih rest.length (by omega) rest rfl)

private theorem readLine_append (hMacdef : "macdef".toList ∉ tokens) (h : ∀ event ∈ readLine tokens, event.complete = true)
    (more : List Word) :
    readLine (tokens ++ more) = readLine tokens ++ readLine more := by
  induction tokens using tokens_induction with
  | nil => rfl
  | last token event hKeyword =>
    rw [readLine_last hKeyword] at h
    have hComplete := h _ List.mem_cons_self
    rw [keyword_incomplete hKeyword] at hComplete
    cases hComplete
  | pair token next rest event hKeyword ih =>
    rw [readLine_keyword hKeyword] at h
    have hRest : "macdef".toList ∉ rest := fun hMem => hMacdef (List.mem_cons_of_mem _ (List.mem_cons_of_mem _ hMem))
    rw [List.cons_append, List.cons_append, readLine_keyword hKeyword, readLine_keyword hKeyword,
      ih hRest fun later hLater => h later (List.mem_cons_of_mem _ hLater), List.cons_append]
  | single token rest hKeyword ih =>
    obtain ⟨hNe, hRest⟩ := List.ne_and_not_mem_of_not_mem_cons hMacdef
    rw [readLine_bare hKeyword hNe.symm] at h
    rw [List.cons_append, readLine_bare hKeyword hNe.symm, readLine_bare hKeyword hNe.symm,
      ih hRest fun later hLater => h later (List.mem_cons_of_mem _ hLater), List.cons_append]

private theorem readLine_incomplete (hMacdef : "macdef".toList ∉ tokens) (h : ¬ ∀ event ∈ readLine tokens, event.complete = true)
    (hMore : more ≠ []) (events : List Event) : readLine (tokens ++ more) ≠ readLine tokens ++ events := by
  induction tokens using tokens_induction with
  | nil => exact absurd (fun event hEvent => by cases hEvent) h
  | last token event hKeyword =>
    obtain ⟨next, rest, rfl⟩ := List.exists_cons_of_ne_nil hMore
    rw [List.singleton_append, readLine_keyword hKeyword, readLine_last hKeyword, List.singleton_append]
    intro hEq
    exact keyword_ne hKeyword next (List.cons.inj hEq).1.symm
  | pair token next rest event hKeyword ih =>
    have hRest : "macdef".toList ∉ rest := fun hMem => hMacdef (List.mem_cons_of_mem _ (List.mem_cons_of_mem _ hMem))
    have hOther : ¬ ∀ event ∈ readLine rest, event.complete = true := by
      intro hAll
      refine h fun first hMem => ?_
      rw [readLine_keyword hKeyword] at hMem
      rcases List.mem_cons.mp hMem with rfl | hMem
      · rcases keyword_cases hKeyword with rfl | rfl | rfl | rfl <;> rfl
      · exact hAll first hMem
    rw [List.cons_append, List.cons_append, readLine_keyword hKeyword, readLine_keyword hKeyword, List.cons_append]
    exact fun hEq => ih hRest hOther (List.cons.inj hEq).2
  | single token rest hKeyword ih =>
    obtain ⟨hNe, hRest⟩ := List.ne_and_not_mem_of_not_mem_cons hMacdef
    have hOther : ¬ ∀ event ∈ readLine rest, event.complete = true := by
      intro hAll
      refine h fun first hMem => ?_
      rw [readLine_bare hKeyword hNe.symm] at hMem
      rcases List.mem_cons.mp hMem with rfl | hMem
      · rw [bare]
        split
        · rfl
        · rfl
      · exact hAll first hMem
    rw [List.cons_append, readLine_bare hKeyword hNe.symm, readLine_bare hKeyword hNe.symm, List.cons_append]
    exact fun hEq => ih hRest hOther (List.cons.inj hEq).2

/-- The lines are read as the whole is, exactly when no line lacks an argument that stands on a later one. -/
theorem flatMap_readLine {lines : List (List Char)} (hMacdef : "macdef".toList ∉ lines.flatMap split) :
    (lines.flatMap fun line => readLine (split line)) = readLine (lines.flatMap split) ↔
      ∀ before line after, lines = before ++ line :: after → after.flatMap split ≠ [] →
        ∀ event ∈ readLine (split line), event.complete = true := by
  induction lines with
  | nil =>
    refine iff_of_true rfl fun before line after hSplit => ?_
    exact absurd hSplit (List.append_ne_nil_of_right_ne_nil before (List.cons_ne_nil line after)).symm
  | cons line lines ih =>
    rw [List.flatMap_cons] at hMacdef
    have hLine : "macdef".toList ∉ split line := fun hMem => hMacdef (List.mem_append_left _ hMem)
    have hLines := ih fun hMem => hMacdef (List.mem_append_right _ hMem)
    rw [List.flatMap_cons, List.flatMap_cons]
    constructor
    · intro hEq
      have hFirst : lines.flatMap split ≠ [] → ∀ event ∈ readLine (split line), event.complete = true := by
        intro hMore
        by_contra hNot
        exact readLine_incomplete hLine hNot hMore _ hEq.symm
      have hTail : (lines.flatMap fun line => readLine (split line)) = readLine (lines.flatMap split) := by
        by_cases hMore : lines.flatMap split = []
        · rw [hMore, List.append_nil] at hEq
          have hNil := List.append_right_eq_self.mp hEq
          rw [hNil, hMore, readLine]
        · rw [readLine_append hLine (hFirst hMore)] at hEq
          exact List.append_cancel_left hEq
      intro before other after hSplit hMore
      cases before with
      | nil =>
        obtain ⟨rfl, rfl⟩ := List.cons.inj hSplit
        exact hFirst hMore
      | cons first before => exact hLines.mp hTail before other after (List.cons.inj hSplit).2 hMore
    · intro hAll
      rw [hLines.mpr fun before other after hSplit => hAll (line :: before) other after (by rw [hSplit, List.cons_append])]
      by_cases hMore : lines.flatMap split = []
      · rw [hMore, List.append_nil, readLine, List.append_nil]
      · rw [readLine_append hLine (hAll [] line lines rfl hMore)]

end

namespace Reading

variable {r : Reading} {event : Event} {key : Word}

theorem save_lookup (h : r.currentHost ≠ some key) : r.save.lookup key = r.hosts.lookup key := by
  rw [save]
  cases hHost : r.currentHost with
  | none => rfl
  | some host =>
    have hNe : (key == host) = false := beq_eq_false_iff_ne.mpr fun hEq => h (by rw [hHost, hEq])
    rw [List.lookup_cons, hNe]

theorem event_owner {owner : Owner} (h : event.owner = some owner) :
    r.event event = { r with hosts := r.save, currentHost := some owner.key, currentEntry := .empty } := by
  cases event with
  | machine name =>
    cases name with
    | none => cases h
    | some name =>
      cases h
      rfl
  | default =>
    cases h
    rfl
  | _ => cases h

theorem event_no_owner (h : event.owner = none) :
    (r.event event).currentHost = r.currentHost ∧ (r.event event).currentEntry = r.currentEntry.add event ∧
      (r.currentHost ≠ some key → (r.event event).hosts.lookup key = r.hosts.lookup key) := by
  cases event with
  | machine name =>
    cases name with
    | none => exact ⟨rfl, rfl, fun hKey => save_lookup hKey⟩
    | some name => cases h
  | default => cases h
  | login value => cases value <;> exact ⟨rfl, rfl, fun _ => rfl⟩
  | password value => cases value <;> exact ⟨rfl, rfl, fun _ => rfl⟩
  | account value => cases value <;> exact ⟨rfl, rfl, fun _ => rfl⟩
  | macdef => exact ⟨rfl, rfl, fun _ => rfl⟩
  | other => exact ⟨rfl, rfl, fun _ => rfl⟩

/-- What is kept under a name: the last section of the name, or else what the entry at hand becomes. -/
theorem foldl_lookup (r : Reading) (events : List Event) (key : Word) :
    (events.foldl Reading.event r).save.lookup key = (namedEntry events key).or
      (if r.currentHost = some key then some ((events.takeWhile (·.owner.isNone)).foldl Entry.add r.currentEntry)
        else r.hosts.lookup key) := by
  induction events generalizing r with
  | nil =>
    split
    · next hHost =>
      rw [List.foldl_nil, save, hHost]
      exact List.lookup_cons_self
    · next hHost => exact save_lookup hHost
  | cons first events ih =>
    rw [List.foldl_cons, ih]
    cases hOwner : first.owner with
    | none =>
      obtain ⟨hHost, hEntry, hLookup⟩ := @event_no_owner r _ key hOwner
      have hSections : namedEntry (first :: events) key = namedEntry events key := by
        rw [namedEntry, sections, hOwner, namedEntry]
      rw [hSections, hHost, hEntry, List.takeWhile_cons_of_pos (by rw [hOwner]; rfl), List.foldl_cons]
      split
      · rfl
      · next hKey => rw [hLookup hKey]
    | some owner =>
      have hSections : namedEntry (first :: events) key = (namedEntry events key).or
          (if owner.key = key then some ((events.takeWhile (·.owner.isNone)).foldl Entry.add .empty) else none) := by
        rw [namedEntry, sections, hOwner, List.filter_cons]
        split
        · next hKey => rw [if_pos (of_decide_eq_true hKey), List.map_cons, List.getLast?_cons, Option.or_some, namedEntry]
        · next hKey => rw [if_neg fun hEq => hKey (decide_eq_true hEq), Option.or_none, namedEntry]
      rw [event_owner hOwner, hSections, List.takeWhile_cons_of_neg (by rw [hOwner]; exact Bool.false_ne_true), List.foldl_nil,
        Option.or_assoc]
      congr 1
      simp only [Option.some.injEq]
      split
      · rfl
      · rw [Option.none_or]
        split
        · next hHost =>
          rw [save, hHost]
          exact List.lookup_cons_self
        · next hHost => exact save_lookup hHost

end Reading

private theorem readLine_no_macdef {tokens : List Word} (hMacdef : "macdef".toList ∉ tokens) :
    Event.macdef ∉ readLine tokens := by
  induction tokens using tokens_induction with
  | nil => exact List.not_mem_nil
  | last token event hKeyword =>
    rw [readLine_last hKeyword, List.mem_singleton]
    rcases keyword_cases hKeyword with rfl | rfl | rfl | rfl <;> intro hEq <;> cases hEq
  | pair token next rest event hKeyword ih =>
    rw [readLine_keyword hKeyword]
    rw [List.mem_cons, not_or]
    refine ⟨?_, ih fun hRest => hMacdef (List.mem_cons_of_mem _ (List.mem_cons_of_mem _ hRest))⟩
    rcases keyword_cases hKeyword with rfl | rfl | rfl | rfl <;> intro hEq <;> cases hEq
  | single token rest hKeyword ih =>
    obtain ⟨hNe, hRest⟩ := List.ne_and_not_mem_of_not_mem_cons hMacdef
    rw [readLine_bare hKeyword hNe.symm, List.mem_cons, not_or]
    refine ⟨?_, ih hRest⟩
    rw [bare]
    split <;> intro hEq <;> cases hEq

private theorem foldl_inMacdef {events : List Event} (h : Event.macdef ∉ events) (r : Reading) :
    (events.foldl Reading.event r).inMacdef = r.inMacdef := by
  induction events generalizing r with
  | nil => rfl
  | cons first events ih =>
    obtain ⟨hFirst, hRest⟩ := List.ne_and_not_mem_of_not_mem_cons h
    rw [List.foldl_cons, ih hRest]
    cases first with
    | macdef => exact absurd rfl hFirst
    | machine name => cases name <;> rfl
    | login value => cases value <;> rfl
    | password value => cases value <;> rfl
    | account value => cases value <;> rfl
    | _ => rfl

private theorem foldl_line {lines : List (List Char)} (hMacdef : "macdef".toList ∉ lines.flatMap split)
    (hComment : ∀ line ∈ lines, (strip line).head? ≠ some '#') {r : Reading} (hr : r.inMacdef = false) :
    lines.foldl Reading.line r = (lines.flatMap fun line => readLine (split line)).foldl Reading.event r := by
  induction lines generalizing r with
  | nil => rfl
  | cons line lines ih =>
    rw [List.flatMap_cons] at hMacdef
    have hLine : "macdef".toList ∉ split line := fun hMem => hMacdef (List.mem_append_left _ hMem)
    have hStep : r.line line = (readLine (split line)).foldl Reading.event r := by
      rw [Reading.line, hr, if_neg Bool.false_ne_true]
      split
      · next hEmpty =>
        have hNil := hEmpty.resolve_right (hComment line List.mem_cons_self)
        rw [← split_strip, hNil]
        rfl
      · rw [split_strip]
    have hNext : ((readLine (split line)).foldl Reading.event r).inMacdef = false :=
      (foldl_inMacdef (readLine_no_macdef hLine) r).trans hr
    rw [List.foldl_cons, List.flatMap_cons, List.foldl_append, hStep,
      ih (fun hMem => hMacdef (List.mem_append_right _ hMem)) (fun other hOther =>
        hComment other (List.mem_cons_of_mem _ hOther)) hNext]

theorem parseNetrc_lookup {content : List Char} (h : Plain content) (key : Word) :
    (parseNetrc content).lookup key = namedEntry ((splitlines content).flatMap fun line => readLine (split line)) key := by
  have hMacdef : "macdef".toList ∉ (splitlines content).flatMap split := by
    rw [flatMap_split]
    exact h.macdef
  rw [parseNetrc, foldl_line hMacdef h.comment rfl, Reading.foldl_lookup]
  exact Option.or_none

private theorem namedEntry_machine (events : List Event) {name : Word} (h : name ≠ "default".toList) :
    namedEntry events name = entryOf events (.machine name) := by
  have hKey : ∀ owner : Owner, decide (owner.key = name) = decide (owner = .machine name) := by
    intro owner
    refine decide_eq_decide.mpr ?_
    cases owner with
    | machine other =>
      rw [Owner.machine.injEq]
      rfl
    | default => exact iff_of_false (Ne.symm h) (fun hEq => by cases hEq)
  rw [namedEntry, entryOf]
  simp only [hKey]

private theorem entryOf_mem {events : List Event} {owner : Owner} {entry : Entry} (h : entryOf events owner = some entry) :
    (owner, entry) ∈ sections events := by
  obtain ⟨part, hPart, rfl⟩ := List.mem_map.mp (List.mem_of_getLast? h)
  obtain ⟨hMem, hOwner⟩ := List.mem_filter.mp hPart
  rw [← of_decide_eq_true hOwner]
  exact hMem

private theorem credentials_entry {entries : Hosts} {key login password : Word}
    (h : credentials entries key = some (login, password)) :
    ∃ entry, entries.lookup key = some entry ∧ entry.login = some login ∧ entry.password.getD [] = password := by
  obtain ⟨entry, hEntry, hSome⟩ := Option.bind_eq_some_iff.mp h
  refine ⟨entry, hEntry, ?_⟩
  simp only at hSome
  split at hSome
  · cases hSome
  · next hNe =>
    cases hLogin : entry.login with
    | none =>
      rw [hLogin] at hNe
      exact absurd rfl hNe
    | some value =>
      rw [hLogin] at hSome
      cases hSome
      exact ⟨rfl, rfl⟩

/-- The facade reads a netrc file as the format has it exactly when it is laid out well. -/
theorem parseNetrc_attributed {content : List Char} (h : Plain content) : Attributed content ↔ WellLaidOut content := by
  have hMacdef : "macdef".toList ∉ (splitlines content).flatMap split := by
    rw [flatMap_split]
    exact h.macdef
  have hRead := flatMap_readLine hMacdef
  rw [flatMap_split] at hRead
  constructor
  · intro hAttributed
    refine ⟨hRead.mp hAttributed.read, ?_⟩
    rw [← hAttributed.default, parseNetrc_lookup h, hAttributed.read]
  · intro hLaid
    have hEvents := hRead.mpr hLaid.complete
    have hMachines : ∀ name, name ≠ "default".toList →
        (parseNetrc content).lookup name = entryOf (readLine (split content)) (.machine name) := by
      intro name hName
      rw [parseNetrc_lookup h, hEvents, namedEntry_machine _ hName]
    have hDefault : (parseNetrc content).lookup "default".toList = entryOf (readLine (split content)) .default := by
      rw [parseNetrc_lookup h, hEvents, hLaid.default]
    refine ⟨hEvents, hMachines, hDefault, ?_⟩
    intro host login password hFound
    have hOwn : ∀ {key : Word} {owner : Owner}, (parseNetrc content).lookup key = entryOf (readLine (split content)) owner →
        credentials (parseNetrc content) key = some (login, password) →
        ∃ part ∈ sections (readLine (split content)), part.1 = owner ∧ part.2.login = some login ∧
          part.2.password.getD [] = password := by
      intro key owner hKey hCredentials
      obtain ⟨entry, hEntry, hFields⟩ := credentials_entry hCredentials
      exact ⟨(owner, entry), entryOf_mem (hKey.symm.trans hEntry), rfl, hFields⟩
    rw [lookupCredentials, Option.or_eq_some_iff] at hFound
    rcases hFound with hHost | ⟨-, hFallback⟩
    · by_cases hName : host = "default".toList
      · subst hName
        obtain ⟨part, hMem, hOwner, hFields⟩ := hOwn hDefault hHost
        exact ⟨part, hMem, Or.inr hOwner, hFields⟩
      · obtain ⟨part, hMem, hOwner, hFields⟩ := hOwn (hMachines host hName) hHost
        exact ⟨part, hMem, Or.inl hOwner, hFields⟩
    · obtain ⟨part, hMem, hOwner, hFields⟩ := hOwn hDefault hFallback
      exact ⟨part, hMem, Or.inr hOwner, hFields⟩

def brokenNetrc : List Char := "machine a login x\nmachine\nb login y password z\n".toList

theorem parseNetrc_attributed_example : Attributed brokenNetrc ↔ WellLaidOut brokenNetrc :=
  parseNetrc_attributed ⟨by decide, by decide⟩

/-- A line break behind `machine` gives one host the password of the next. -/
theorem not_parseNetrc_attributed : ¬ ∀ content, Plain content → Attributed content := by
  intro hAll
  have hLeak : lookupCredentials brokenNetrc ['a'] = some (['y'], ['z']) := by decide
  obtain ⟨part, hMem, hOwner, hLogin, -⟩ := (hAll brokenNetrc ⟨by decide, by decide⟩).credentials _ _ _ hLeak
  have hNone : ∀ part ∈ sections (readLine (split brokenNetrc)), part.1 = .machine ['a'] ∨ part.1 = .default →
      part.2.login ≠ some ['y'] := by
    decide
  exact hNone part hMem hOwner hLogin

end Eggfetch.Facade.Auth
