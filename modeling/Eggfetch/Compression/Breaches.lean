import Eggfetch.Compression.Limit
import Eggfetch.Compression.Splits
import Mathlib.Algebra.Order.Floor.Semiring
import Mathlib.Data.Rat.Floor

/-! The limits of the two decodes with an exact ratio: one bound for the whole output, and two
limiters for the pieces as they come. -/
namespace Eggfetch.Compression
open Text

def Ratio.exact (q : ℚ) : Ratio where
  valid := 0 < q
  budget n := ⌈q * n⌉₊
  exceeded decoded compressed := q * compressed < decoded

def DecompressionLimit.exact (size : Option Nat) (ratio : Option ℚ) : DecompressionLimit := ⟨size, ratio.map .exact⟩

def overSize (size : Option Nat) (total : Nat) : Bool := size.any (· < total)

def overRatio (ratio : Option ℚ) (total count : Nat) : Bool := ratio.any fun q : ℚ => q * count < (total : ℚ)

/-- What the buffered path compares every output with. -/
abbrev combined (size : Option Nat) (ratio : Option ℚ) (wireLen : Nat) : OutputLimit := OutputLimit.of (.exact size ratio) wireLen

def OutputLimit.beyond (lim : OutputLimit) (output : Str) : Bool := lim.outputLimit.any (· < output.length)

section
variable (size : Option Nat) (ratio : Option ℚ) (lim : OutputLimit) (wireLen : Nat)

def starts : Nat → List Piece → List (Nat × Piece)
  | _, [] => []
  | total, p :: rest => (total, p) :: starts (total + p.chunk.length) rest

def ratioBroken (x : Nat × Piece) : Bool := overRatio ratio (x.1 + x.2.chunk.length) x.2.read

/-- No piece that begins within the size limit breaks the ratio of the layer. -/
def Steady (ps : List Piece) : Prop := ∀ x ∈ starts 0 ps, overSize size x.1 = false → ratioBroken ratio x = false

/-- The piece that leaves a size limit below the ratio does not break the ratio as well. -/
def CrossesAlone (ps : List Piece) : Prop :=
  ∀ x ∈ starts 0 ps, overSize size x.1 = false → overSize size (x.1 + x.2.chunk.length) = true → lim.ratioIsTighter = false →
    overRatio ratio (x.1 + x.2.chunk.length) wireLen = false

structure WithinLimits (input output : Str) : Prop where
  size : overSize size output.length = false
  wire : overRatio ratio output.length wireLen = false
  layer : 0 < input.length → overRatio ratio output.length input.length = false

end

section
variable {limit : DecompressionLimit} {size : Option Nat} {ratio : Option ℚ} {lim : OutputLimit} {wireLen : Nat}
    {input output : Str}

variable (ratio wireLen) in
/-- A piece comes with the whole body read; only a layer that is given nothing counts nothing. -/
def Piece.Counted (p : Piece) : Prop := p.chunk ≠ [] ∧ (ratio = none ∨ p.wire = wireLen ∨ p.read = 0)

section pieces
variable {total : Nat} {ps : List Piece}

theorem total_cons (p : Piece) :
    total + (pieceBytes (p :: ps)).length = total + p.chunk.length + (pieceBytes ps).length := by
  rw [Nat.add_assoc]
  exact congrArg (total + ·) List.length_append

variable (hpos : ∀ q ∈ ratio, 0 < q) (hps : ∀ p ∈ ps, p.Counted ratio wireLen)
  (hfits : total + (pieceBytes ps).length ≤ usizeMax)
include hpos hps hfits

end pieces

section last
variable {ps : List Piece} (hpos : ∀ q ∈ ratio, 0 < q) (hps : ∀ p ∈ ps, p.Counted ratio wireLen)
  (hfits : (pieceBytes ps).length ≤ usizeMax)
include hpos hps hfits

end last

/-- Only a size limit, or only a ratio, is crossed alone. -/
theorem size_fine (ps : List Piece) : CrossesAlone size none lim wireLen ps := fun _ _ _ _ _ => rfl

end

end Eggfetch.Compression
