import Mathlib.Algebra.Order.Ring.Int
import Mathlib.Tactic.Positivity
import Mathlib.Tactic.Ring

/-! Little-endian integers of a fixed width. Writing takes the two's complement
residue of any integer and reading is unsigned, so the round trip is exact on
the representable range only. -/
namespace Binary

/-- The `width` low bytes of `value`, least significant first. -/
def leBytes : Nat → Int → List UInt8
  | 0, _ => []
  | width + 1, value => UInt8.ofNat (value % 256).toNat :: leBytes width (value / 256)

def leValue : List UInt8 → Int
  | [] => 0
  | byte :: bytes => byte.toNat + 256 * leValue bytes

@[simp] theorem leBytes_length (width : Nat) (value : Int) :
    (leBytes width value).length = width := by
  induction width generalizing value with
  | zero => rfl
  | succ width ih => simp only [leBytes, List.length_cons, ih]

theorem leValue_nonneg (bytes : List UInt8) : 0 ≤ leValue bytes := by
  induction bytes with
  | nil => exact le_refl 0
  | cons byte bytes ih =>
    simp only [leValue]
    omega

theorem leValue_lt (bytes : List UInt8) : leValue bytes < 256 ^ bytes.length := by
  induction bytes with
  | nil => exact one_pos
  | cons byte bytes ih =>
    have small : byte.toNat < 256 := byte.toNat_lt
    simp only [leValue, List.length_cons, pow_succ]
    omega

private theorem emod_mul (value : Int) (base rest : Int) (hb : 0 < base) (hr : 0 < rest) :
    value % (base * rest) = value % base + base * (value / base % rest) := by
  have outer := Int.mul_ediv_add_emod value base
  have inner := Int.mul_ediv_add_emod (value / base) rest
  have low := Int.emod_nonneg value (ne_of_gt hb)
  have high := Int.emod_lt_of_pos value hb
  have digit := Int.emod_nonneg (value / base) (ne_of_gt hr)
  have digitLt := Int.emod_lt_of_pos (value / base) hr
  have split : value % base + base * (value / base % rest) +
      base * rest * (value / base / rest) = value := by
    calc value % base + base * (value / base % rest) + base * rest * (value / base / rest)
        = base * (rest * (value / base / rest) + value / base % rest) + value % base := by ring
      _ = value := by rw [inner, outer]
  refine ((Int.ediv_emod_unique (mul_pos hb hr)).mpr ⟨split, ?_, ?_⟩).2
  · exact add_nonneg low (mul_nonneg hb.le digit)
  · have room : base * (value / base % rest + 1) ≤ base * rest :=
      mul_le_mul_of_nonneg_left (by omega) hb.le
    rw [mul_add] at room
    omega

/-- Reading back what was written gives the unsigned residue. -/
theorem leValue_leBytes (width : Nat) (value : Int) :
    leValue (leBytes width value) = value % 256 ^ width := by
  induction width generalizing value with
  | zero => simp [leBytes, leValue]
  | succ width ih =>
    have byte : ((UInt8.ofNat (value % 256).toNat).toNat : Int) = value % 256 := by
      rw [UInt8.toNat_ofNat']
      omega
    rw [leBytes, leValue, ih, byte, pow_succ', emod_mul value 256 _ (by decide) (by positivity)]

theorem leValue_leBytes_of_lt {width : Nat} {value : Int} (low : 0 ≤ value)
    (high : value < 256 ^ width) : leValue (leBytes width value) = value := by
  rw [leValue_leBytes, Int.emod_eq_of_lt low high]

theorem leBytes_leValue (bytes : List UInt8) : leBytes bytes.length (leValue bytes) = bytes := by
  induction bytes with
  | nil => rfl
  | cons byte bytes ih =>
    have small : byte.toNat < 256 := byte.toNat_lt
    have head : (leValue (byte :: bytes) % 256).toNat = byte.toNat := by
      simp only [leValue]
      omega
    have tail : leValue (byte :: bytes) / 256 = leValue bytes := by
      simp only [leValue]
      omega
    rw [List.length_cons, leBytes, head, tail, ih, UInt8.ofNat_toNat]

end Binary
