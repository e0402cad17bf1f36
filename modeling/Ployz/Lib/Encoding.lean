import Mathlib.Data.List.Basic
import Mathlib.Tactic.Common
import Mathlib.Algebra.GroupWithZero.Nat

/-!
# Byte streams

Numbers of a fixed width in little-endian order. A number that fits is known from its bytes
(`le_inj`).
-/

namespace Ployz.Encoding

abbrev Bytes := List (Fin 256)

instance neZero_byte : NeZero 256 := ⟨by decide⟩

/-- A number in so many bytes, the lowest first. -/
def le : Nat → Nat → Bytes
  | 0, _ => []
  | width + 1, n => Fin.ofNat 256 n :: le width (n / 256)

@[simp] theorem length_le (width n : Nat) : (le width n).length = width := by
  induction width generalizing n with
  | zero => rfl
  | succ width ih => simp [le, ih]

theorem le_inj {width m n : Nat} (hm : m < 256 ^ width) (hn : n < 256 ^ width)
    (h : le width m = le width n) : m = n := by
  induction width generalizing m n with
  | zero =>
    simp only [Nat.pow_zero, Nat.lt_one_iff] at hm hn
    rw [hm, hn]
  | succ width ih =>
    obtain ⟨hlow, hhigh⟩ := List.cons.inj h
    have hlow' : m % 256 = n % 256 := by simpa [Fin.ofNat] using congrArg Fin.val hlow
    have hhigh' : m / 256 = n / 256 := by
      apply ih _ _ hhigh
      · exact Nat.div_lt_of_lt_mul (by rwa [Nat.pow_succ'] at hm)
      · exact Nat.div_lt_of_lt_mul (by rwa [Nat.pow_succ'] at hn)
    omega

end Ployz.Encoding
