import Mathlib.Algebra.Order.Ring.Int
import Mathlib.Data.Nat.Find
import Mathlib.Data.Nat.Log

/-! Vectors that grow by doubling their capacity, and requests that are served until they are
refused for good. -/
namespace Growth

/-- The least `unit * 2 ^ k` above `total`. -/
def capacityFor (unit total : Nat) : Nat := unit * 2 ^ Nat.clog 2 (total / unit + 1)

@[simp] theorem capacityFor_zero (unit : Nat) : capacityFor unit 0 = unit := by
  simp [capacityFor]

theorem lt_mul_pow_iff (positive : 0 < unit) (total k : Nat) :
    total < unit * 2 ^ k ↔ Nat.clog 2 (total / unit + 1) ≤ k := by
  rw [Nat.clog_le_iff_le_pow Nat.one_lt_two, Nat.succ_le_iff, Nat.div_lt_iff_lt_mul positive,
    Nat.mul_comm]

theorem lt_capacityFor (positive : 0 < unit) (total : Nat) : total < capacityFor unit total :=
  (lt_mul_pow_iff positive total _).mpr (Nat.le_refl _)

/-- As long as there is room the capacity stays. -/
theorem capacityFor_of_room (positive : 0 < unit) (more : small ≤ large)
    (room : large < capacityFor unit small) : capacityFor unit large = capacityFor unit small := by
  have least := (lt_mul_pow_iff positive large _).mp room
  have grows : Nat.clog 2 (small / unit + 1) ≤ Nat.clog 2 (large / unit + 1) :=
    Nat.clog_mono_right 2 (Nat.succ_le_succ (Nat.div_le_div_right more))
  rw [capacityFor, capacityFor, Nat.le_antisymm least grows]

theorem capacityFor_double (positive : 0 < unit) (total : Nat) :
    capacityFor unit (capacityFor unit total) = capacityFor unit total * 2 := by
  have next (k : Nat) : Nat.clog 2 (2 ^ k + 1) = k + 1 := by
    refine Nat.le_antisymm (Nat.clog_le_of_le_pow ?_) ?_
    · have := Nat.one_le_two_pow (n := k)
      rw [Nat.pow_succ]
      omega
    · exact (Nat.lt_clog_iff_pow_lt Nat.one_lt_two).mpr (Nat.lt_succ_self _)
  rw [capacityFor.eq_1 unit (capacityFor unit total), capacityFor,
    Nat.mul_div_cancel_left _ positive, next, Nat.pow_succ, Nat.mul_assoc]

/-- Nothing is accepted behind something that was not, exactly if there is a point up to which
everything is accepted and behind which nothing is. -/
theorem exists_cut_iff {accepted ignored : Nat → Prop} (either : ∀ i, accepted i ∨ ignored i)
    (ends : ∃ n, ∀ i, n ≤ i → ignored i) :
    (∀ j k, j < k → ¬ accepted j → ignored k) ↔
      ∃ m, (∀ i < m, accepted i) ∧ ∀ i, m ≤ i → ignored i := by
  classical
  constructor
  · intro last
    by_cases all : ∀ i, accepted i
    · obtain ⟨n, after⟩ := ends
      exact ⟨n, fun i _ => all i, after⟩
    · have missed := not_forall.mp all
      refine ⟨Nat.find missed, fun i before => not_not.mp (Nat.find_min missed before),
        fun i after => ?_⟩
      rcases Nat.eq_or_lt_of_le after with rfl | later
      · exact (either _).resolve_left (Nat.find_spec missed)
      · exact last _ i later (Nat.find_spec missed)
  · rintro ⟨m, before, after⟩ j k less missed
    have reached : m ≤ j := Nat.le_of_not_lt fun earlier => missed (before j earlier)
    exact after k (reached.trans less.le)

end Growth
