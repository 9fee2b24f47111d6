import Eggfetch.Facade.UrlShort

/-! Which URLs are read again from their texts. -/
namespace Eggfetch.Facade.Urls
open Text

section
variable {lower : List Char → List Char} {check : List Char → Bool} {u v : SplitResult} {text : List Char}

theorem isDelim_of_end {c : Char} (h : isNetlocEnd c = true) : isDelim c = true := by
  rw [isNetlocEnd, Bool.or_eq_true, Bool.or_eq_true, beq_iff_eq, beq_iff_eq, beq_iff_eq] at h
  rcases h with (rfl | rfl) | rfl <;> rfl

theorem isDelim_of_removed {c : Char} (h : isRemoved c = true) : isDelim c = true := by
  rw [isRemoved, Bool.or_eq_true, Bool.or_eq_true, beq_iff_eq, beq_iff_eq, beq_iff_eq] at h
  rcases h with (rfl | rfl) | rfl <;> rfl

theorem RoundTrip.refl (hText : u.displayStr lower = some text) (hRead : urlsplit check text = some u) :
    RoundTrip lower check u :=
  ⟨text, u, hText, hRead, rfl, rfl, rfl, rfl, rfl, rfl, rfl⟩

theorem port_no_netloc (hNetloc : u.netloc = []) : u.port = some none := by
  rw [SplitResult.port, SplitResult.hostinfo, hNetloc]
  rfl

private theorem rooted_of_port (hCut : Cut check u) {port : Nat} (hPort : u.port = some (some port)) :
    u.path = [] ∨ u.path.head? = some '/' := by
  refine hCut.rooted fun hNil => ?_
  rw [port_no_netloc hNil] at hPort
  cases hPort

theorem isDefaultPort_some {port : Option Nat} (h : u.isDefaultPort port = true) :
    ∃ n, port = some n ∧ (if u.scheme = "https".toList then some 443 else if u.scheme = "http".toList then some 80
      else none) = some n := by
  rw [SplitResult.isDefaultPort, decide_eq_true_iff] at h
  rcases h with ⟨hScheme, rfl⟩ | ⟨hScheme, rfl⟩
  · have hOther : "http".toList ≠ "https".toList := by decide
    refine ⟨80, rfl, ?_⟩
    rw [hScheme, if_neg hOther, if_pos rfl]
  · refine ⟨443, rfl, ?_⟩
    rw [hScheme, if_pos rfl]

theorem displayStr_port (hScheme : u.scheme ≠ []) {port : Option Nat} (hPort : u.port = some port) : u.displayStr lower =
    some (u.scheme ++ ':' :: '/' :: '/' :: ((if u.isDefaultPort port then u.shortNetloc lower else u.netloc) ++ u.tail)) := by
  rw [SplitResult.displayStr, if_neg hScheme, hPort]
  rfl

/-- What is read where a default port was left out. -/
theorem urlsplit_short (hLower : Lowers lower) (hCut : Cut check u) (hScheme : IsScheme u.scheme) {port : Nat}
    (hPort : u.port = some (some port)) : urlsplit check (u.scheme ++ ':' :: '/' :: '/' :: (u.shortNetloc lower ++ u.tail)) =
      if balanced (u.shortNetloc lower) && check (u.shortNetloc lower) then some { u with netloc := u.shortNetloc lower }
          else none := by
  have hEnds : ∀ c ∈ u.shortNetloc lower, isNetlocEnd c = false := by
    intro c hc
    by_contra hEnd
    rw [Bool.not_eq_false] at hEnd
    have hMem := hCut.netloc c (mem_shortNetloc hLower (isDelim_of_end hEnd) hc)
    rw [hEnd] at hMem
    cases hMem
  have hKept : ∀ c ∈ u.shortNetloc lower, isRemoved c = false := by
    intro c hc
    by_contra hRemoved
    rw [Bool.not_eq_false] at hRemoved
    have hMem := hCut.kept c (List.mem_append_left _ (mem_shortNetloc hLower (isDelim_of_removed hRemoved) hc))
    rw [hRemoved] at hMem
    cases hMem
  exact urlsplit_scheme hCut hScheme hEnds hKept (rooted_of_port hCut hPort)

private theorem roundTrip_of_renders (hLower : Lowers lower) (hStable : Stable lower check) (hCut : Cut check u)
    (h : Renders lower u) :
    RoundTrip lower check u := by
  by_cases hScheme : u.scheme = []
  · by_cases hNetloc : u.netloc = []
    · refine RoundTrip.refl ?_ (urlsplit_relative hCut hScheme hNetloc (h.relative hScheme hNetloc))
      rw [SplitResult.displayStr, if_pos hScheme, if_pos hNetloc]
    · refine RoundTrip.refl ?_ (urlsplit_network hCut hScheme hNetloc)
      rw [SplitResult.displayStr, if_pos hScheme, if_neg hNetloc]
  · have hIs : IsScheme u.scheme := hCut.scheme.resolve_left hScheme
    cases hPort : u.port with
    | none => exact absurd hPort (h.port hScheme)
    | some port =>
      have hText := @displayStr_port lower u hScheme _ hPort
      by_cases hDefault : u.isDefaultPort port = true
      · rw [if_pos hDefault] at hText
        obtain ⟨n, rfl, hEffective⟩ := isDefaultPort_some hDefault
        have hShort := h.short hScheme _ hPort hDefault
        have hRead := urlsplit_short hLower hCut hIs hPort
        have hCheck := check_shortNetloc hStable (Bool.and_eq_true _ _ ▸ hCut.accepted).2 hPort hShort.colon
        rw [hShort.balanced, hCheck, Bool.and_self, if_pos rfl] at hRead
        obtain ⟨hHost, hNoPort⟩ := @hostname_short lower u { u with netloc := u.shortNetloc lower } hLower hShort.colon
          hShort.bracket rfl
        refine ⟨_, _, hText, hRead, rfl, shortInfo_userinfoText (shortNetloc_parts hLower rfl).1, hHost, ?_, rfl, rfl, rfl⟩
        have hNone : SplitResult.port { u with netloc := u.shortNetloc lower } = some none := by
          rw [SplitResult.port, hNoPort]
        rw [SplitResult.effectivePort, SplitResult.effectivePort, hNone, hPort, Option.map_some, Option.map_some, hEffective]
        rfl
      · rw [if_neg hDefault] at hText
        have hRooted : u.path = [] ∨ u.path.head? = some '/' := by
          by_cases hNetloc : u.netloc = []
          · exact h.rooted hScheme hNetloc
          · exact hCut.rooted hNetloc
        refine RoundTrip.refl hText ?_
        rw [urlsplit_scheme hCut hIs hCut.netloc (fun c hc => hCut.kept c (List.mem_append_left _ hc)) hRooted, hCut.accepted,
          if_pos rfl]

private theorem renders_of_roundTrip (hLower : Lowers lower) (hCut : Cut check u) (h : RoundTrip lower check u) :
    Renders lower u := by
  obtain ⟨text, v, hText, hRead, -, -, hHost, -, hPath, -⟩ := h
  constructor
  · intro hScheme hNetloc hSlashes
    rw [SplitResult.displayStr, if_pos hScheme, if_pos hNetloc] at hText
    cases hText
    obtain ⟨path, hSlashes⟩ := hSlashes
    exact urlsplit_slashes hCut hSlashes.symm hRead hPath
  · intro hScheme hPort
    rw [SplitResult.displayStr, if_neg hScheme, hPort] at hText
    cases hText
  · intro hScheme hNetloc
    by_contra hUnrooted
    have hPort := port_no_netloc hNetloc
    have hDefault : ¬ u.isDefaultPort none = true := by
      intro hDefault
      obtain ⟨n, hNone, -⟩ := isDefaultPort_some hDefault
      cases hNone
    rw [displayStr_port hScheme hPort, if_neg hDefault, hNetloc, List.nil_append] at hText
    cases hText
    exact urlsplit_unrooted hCut (hCut.scheme.resolve_left hScheme) hUnrooted hRead hPath
  · intro hScheme port hPort hDefault
    obtain ⟨n, rfl, -⟩ := isDefaultPort_some hDefault
    rw [displayStr_port hScheme hPort, if_pos hDefault] at hText
    cases hText
    rw [urlsplit_short hLower hCut (hCut.scheme.resolve_left hScheme) hPort] at hRead
    split at hRead
    · next hBoth =>
      cases hRead
      refine ⟨fun hColon => ?_, fun hBracket => ?_, (Bool.and_eq_true _ _ ▸ hBoth).1⟩
      · exact hostname_lost (v := { u with netloc := u.shortNetloc lower }) hLower (Or.inl hColon) rfl hHost
      · exact hostname_lost (v := { u with netloc := u.shortNetloc lower }) hLower (Or.inr hBracket) rfl hHost
    · cases hRead

/-- A URL is read again from its text exactly where it meets the conditions. -/
theorem roundTrip_iff (hLower : Lowers lower) (hStable : Stable lower check) (h : urlsplit check text = some u) :
    RoundTrip lower check u ↔ Renders lower u :=
  ⟨renders_of_roundTrip hLower (urlsplit_cut h), roundTrip_of_renders hLower hStable (urlsplit_cut h)⟩

end
end Eggfetch.Facade.Urls
