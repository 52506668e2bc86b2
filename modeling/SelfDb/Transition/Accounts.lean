import Mathlib.Algebra.BigOperators.Group.Finset.Piecewise
import Mathlib.Algebra.Order.Monoid.Defs
import Mathlib.Tactic.Abel

/-! Accounts of a machine whose parties enter amounts in one book, and settle them later. -/
namespace Transition
variable {σ α M : Type}

section Books
variable [AddCommMonoid M] (entered due : σ → M)

/-- Between two states as much is entered as the due amount grows by. -/
def Balanced (s t : σ) : Prop := entered t + due s = entered s + due t

/-- What becomes due has been entered. -/
def Covered [LE M] (s t : σ) : Prop := entered s + due t ≤ entered t + due s

variable {entered due}

theorem Balanced.trans [IsRightCancelAdd M] (first : Balanced entered due s t)
    (second : Balanced entered due t u) : Balanced entered due s u := by
  refine add_right_cancel (b := entered t + due t) ?_
  calc entered u + due s + (entered t + due t)
      = (entered u + due t) + (entered t + due s) := by abel
    _ = (entered t + due u) + (entered s + due t) := congrArg₂ (· + ·) second first
    _ = entered s + due u + (entered t + due t) := by abel

theorem Balanced.refl (s : σ) : Balanced entered due s s := rfl

/-- What was entered between the states is what became due. -/
theorem Balanced.gained [IsLeftCancelAdd M] (balanced : Balanced entered due s t)
    (books : entered t = entered s + gain) (debts : due t = due s + growth) : gain = growth := by
  refine add_left_cancel (a := entered s + due s) ?_
  calc entered s + due s + gain = entered t + due s := by rw [books]; abel
    _ = entered s + due t := balanced
    _ = entered s + due s + growth := by rw [debts]; abel

theorem Balanced.covered [PartialOrder M] (balanced : Balanced entered due s t) :
    Covered entered due s t := balanced.ge

theorem Covered.trans [PartialOrder M] [IsOrderedCancelAddMonoid M]
    (first : Covered entered due s t) (second : Covered entered due t u) :
    Covered entered due s u := by
  refine le_of_add_le_add_right (a := entered t + due t) ?_
  calc entered s + due u + (entered t + due t)
      = (entered t + due u) + (entered s + due t) := by abel
    _ ≤ (entered u + due t) + (entered t + due s) := add_le_add second first
    _ = entered u + due s + (entered t + due t) := by abel

theorem Covered.gained [PartialOrder M] [IsOrderedCancelAddMonoid M]
    (covered : Covered entered due s t) (books : entered t = entered s + gain)
    (debts : due t = due s + growth) : growth ≤ gain := by
  refine le_of_add_le_add_left (a := entered s + due s) ?_
  calc entered s + due s + growth = entered s + due t := by rw [debts]; abel
    _ ≤ entered t + due s := covered
    _ = entered s + due s + gain := by rw [books]; abel

end Books

/-! What the parties have entered and not yet settled. -/

section Parties
variable [AddCommMonoid M] (owed : α → M)

def owing (count : Nat) (parties : Nat → α) : M := ∑ k ∈ Finset.range count, owed (parties k)

/-- One party changes. -/
theorem owing_update (inside : k < count) (parties : Nat → α) (party : α) :
    owing owed count (Function.update parties k party) + owed (parties k) =
      owing owed count parties + owed party := by
  have member : k ∈ Finset.range count := Finset.mem_range.mpr inside
  have whole := Finset.add_sum_erase (Finset.range count) (fun i => owed (parties i)) member
  have others : ∑ i ∈ (Finset.range count).erase k, owed (Function.update parties k party i) =
      ∑ i ∈ (Finset.range count).erase k, owed (parties i) :=
    Finset.sum_congr rfl fun i other =>
      congrArg owed (Function.update_of_ne (Finset.ne_of_mem_erase other) _ _)
  rw [owing, owing, ← whole, ← Finset.add_sum_erase _ _ member, Function.update_self, others]
  abel

theorem owing_eq_zero {parties : Nat → α} (settled : ∀ k, owed (parties k) = 0) :
    owing owed count parties = 0 := Finset.sum_eq_zero fun k _ => settled k

end Parties

end Transition
