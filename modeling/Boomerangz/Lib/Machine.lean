import Mathlib.Data.Int.Basic

/-! # Machine integers

Signed 64-bit arithmetic: a value that fits is not changed by wrapping.
-/

namespace Machine

/-- The value that a 64-bit operation with the exact value `n` yields. -/
def wrap (n : Int) : Int := n.bmod 0x10000000000000000

def maxInt : Int := 9223372036854775807

theorem wrap_of_fits {n : Int} (h0 : 0 ≤ n) (h : n ≤ maxInt) : wrap n = n := by
  unfold maxInt at h
  apply Int.bmod_eq_of_le <;> omega

theorem le_tdiv_iff {a b c : Int} (hb : 0 ≤ b) (hc : 0 < c) : a ≤ b.tdiv c ↔ a * c ≤ b := by
  rw [Int.tdiv_eq_ediv_of_nonneg hb]
  exact Int.le_ediv_iff_mul_le hc

end Machine
