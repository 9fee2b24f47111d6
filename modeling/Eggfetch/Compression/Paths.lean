import Eggfetch.Compression.Breaches
import Eggfetch.Text.Trim

/-! The buffered decode against the streaming one over a body in one chunk. -/
namespace Eggfetch.Compression
open Text

def Flow.result (F : Flow) : Except Error Str :=
  match F.last with
  | none => .ok F.bytes
  | some e => .error e

section
variable (ρ : Reading) (decoders : Decoders) (size : Option Nat) (ratio : Option ℚ) (lim : OutputLimit) (wireLen : Nat)

/-- The decoder finds an error before the output is beyond the limits. -/
def Refuses (framing : Framing) (input : Str) : Prop :=
  ((decoders framing).decode input).2 ≠ none ∧ lim.beyond ((decoders framing).decode input).1 = false

def outcome (F : Flow) (encoding : ContentCoding) : Str × Option Str :=
  match framingOf ρ F encoding with
  | some framing => (decoders framing).decode F.bytes
  | none => ([], none)

end

section
variable {ρ σ : Reading} {decoders : Decoders} {limit : DecompressionLimit} {size : Option Nat} {ratio : Option ℚ}
  {lim : OutputLimit} {wireLen : Nat} {F : Flow} {encoding : ContentCoding} {framing : Framing} {input output : Str}

private theorem pieces_ne_nil {wire read : Nat} {out : Str} : ∀ p ∈ pieces ρ wire read out, p.chunk ≠ [] := by
  intro p hp
  obtain ⟨chunk, hchunk, rfl⟩ := List.mem_map.mp hp
  exact ρ.cut_ne_nil out chunk hchunk

/-- A stream that fails where another goes on. -/
structure Cut (G U : Flow) : Prop where
  arrivals : G.arrivals <+: U.arrivals
  failed : G.last.isSome = true

private theorem comma_of_blank {s : Str} (h : (trim s).isEmpty = true) : comma ∉ s := by
  intro hcomma
  have hblank : ∀ c ∈ whitespace, comma ∉ c := by decide
  have htrim : comma ∈ trim s := (mem_trim_iff hblank s).mpr hcomma
  rw [List.isEmpty_iff.mp h] at htrim
  cases htrim

theorem blank_spec {contentEncoding : Str} (h : (trim contentEncoding).isEmpty = true) :
    validateContentEncodings contentEncoding = .ok () ∧ parseContentEncodings contentEncoding = none := by
  have hpieces : (contentEncoding.splitOn comma).map trim = [[]] := by
    have hsingle : contentEncoding.splitOn comma = [contentEncoding] := by
      refine List.splitOnP_eq_singleton fun b hb => ?_
      rw [beq_eq_false_iff_ne]
      rintro rfl
      exact comma_of_blank h hb
    rw [hsingle, List.map_singleton, List.isEmpty_iff.mp h]
  refine ⟨?_, ?_⟩
  · rw [validateContentEncodings, hpieces]
    rfl
  · rw [parseContentEncodings, hpieces]
    rfl

end

section
variable (ρ : Reading) (decoders : Decoders)

end

section
variable {ρ σ : Reading} {decoders : Decoders} {limit : DecompressionLimit} {size : Option Nat} {ratio : Option ℚ}
  {data contentEncoding : Str}

end

end Eggfetch.Compression
