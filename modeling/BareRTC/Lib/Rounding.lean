import Mathlib.Data.Int.Log
import Mathlib.Data.Rat.Floor
import Mathlib.Tactic

/-!
# Binary floating point, with any exponent

`roundTo p q` is the number of `p` binary digits nearest to `q`, and the one with an even last digit
if there are two. Integers of `p` digits are exact (`roundTo_intCast`).
-/

namespace BareRTC.Rounding

def nearest (q : ℚ) : ℤ :=
  let below := ⌊q⌋
  if q - below < 1 / 2 ∨ q - below = 1 / 2 ∧ below % 2 = 0 then below else below + 1

def lastExp (p : Nat) (q : ℚ) : ℤ := Int.log 2 |q| + 1 - p

def roundTo (p : Nat) (q : ℚ) : ℚ := nearest (q / 2 ^ lastExp p q) * 2 ^ lastExp p q

def truncate (q : ℚ) : ℤ := if 0 ≤ q then ⌊q⌋ else ⌈q⌉

variable {n : ℤ}

@[simp] theorem nearest_intCast : nearest n = n := by
  simp [nearest]

@[simp] theorem truncate_intCast : truncate n = n := by
  simp [truncate]

theorem lastExp_intCast_nonpos {p : Nat} {n : ℤ} (h : |n| < 2 ^ p) (hp : 0 < p) : lastExp p n ≤ 0 := by
  have habs : |(n : ℚ)| = (n.natAbs : ℚ) := by rw [← Int.cast_abs, Int.abs_eq_natAbs, Int.cast_natCast]
  have hlt : n.natAbs < 2 ^ p := by
    have : (n.natAbs : ℤ) < (2 ^ p : ℕ) := by
      rw [← Int.abs_eq_natAbs]
      exact_mod_cast h
    exact_mod_cast this
  have hlog : Nat.log 2 n.natAbs < p := by
    rcases Nat.eq_zero_or_pos n.natAbs with h0 | h0
    · simpa [h0] using hp
    · exact Nat.log_lt_of_lt_pow (by omega) hlt
  rw [lastExp, habs, Int.log_natCast]
  omega

theorem roundTo_intCast {p : Nat} {n : ℤ} (h : |n| < 2 ^ p) (hp : 0 < p) : roundTo p n = n := by
  obtain ⟨k, hk⟩ := Int.eq_ofNat_of_zero_le (neg_nonneg.2 (lastExp_intCast_nonpos h hp))
  have hexp : lastExp p n = -(k : ℤ) := by omega
  -- the number is an integer in units of the last digit
  have hunits : (n : ℚ) / 2 ^ lastExp p n = ((n * 2 ^ k : ℤ) : ℚ) := by
    rw [hexp, zpow_neg, zpow_natCast, div_inv_eq_mul]
    push_cast
    rfl
  rw [roundTo, hunits, nearest_intCast, ← hunits, div_mul_cancel₀]
  positivity

end BareRTC.Rounding
