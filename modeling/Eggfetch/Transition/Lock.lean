import Mathlib.Logic.Basic

/-! A lock and those that hold it: the recorded owner is the one that is in the section which the
lock guards. -/
namespace Eggfetch.Transition
variable {O : Type*}

def Held (owner : Option O) (holds : O → Prop) : Prop := ∀ o, owner = some o ↔ holds o

namespace Held
variable {owner : Option O} {holds holds' : O → Prop} {o p : O}

theorem keep (h : Held owner holds) (hSame : ∀ o, holds' o ↔ holds o) : Held owner holds' :=
  fun o => (h o).trans (hSame o).symm

theorem acquire (h : Held none holds) (hSelf : holds' o) (hOther : ∀ p, p ≠ o → (holds' p ↔ holds p)) :
    Held (some o) holds' := by
  intro p
  constructor
  · rintro ⟨⟩
    exact hSelf
  · intro hHolds
    by_cases hp : p = o
    · rw [hp]
    · cases (h p).mpr ((hOther p hp).mp hHolds)

theorem release (h : Held (some o) holds) (hSelf : ¬ holds' o)
    (hOther : ∀ p, p ≠ o → (holds' p ↔ holds p)) : Held none holds' := by
  intro p
  constructor
  · rintro ⟨⟩
  · intro hHolds
    have hNe : p ≠ o := fun hp => hSelf (hp ▸ hHolds)
    have hOwner := (h p).mpr ((hOther p hNe).mp hHolds)
    exact absurd (Option.some.inj hOwner).symm hNe

theorem owner_eq (h : Held owner holds) (hHolds : holds o) : owner = some o := (h o).mpr hHolds

/-- Mutual exclusion. -/
theorem unique (h : Held owner holds) (ho : holds o) (hp : holds p) : o = p :=
  Option.some.inj ((h.owner_eq ho).symm.trans (h.owner_eq hp))

end Held
end Eggfetch.Transition
