import Mathlib.Data.Int.ModEq
import Mathlib.Tactic.Ring

/-!
# A counter that wraps

A counter that counts modulo `n` and started at `c` shows `(c + t) % n` at time `t`. The difference of two
of its values tells the time between them, as long as that is short enough: read without a sign below `n`,
and read with a sign modulo a divisor `m` of `n` below `m / 2` either way.
-/

set_option autoImplicit false

namespace GenieSdk.Lib

/-- What the counter shows at time `t`. -/
def shown (n c t : ℕ) : ℕ := (c + t) % n

variable {n m c x y : ℕ}

/-- Adding to the counter that is shown. -/
theorem shown_add (n c x y : ℕ) : (shown n c x + y) % n = shown n c (x + y) := by
  unfold shown
  rw [Nat.mod_add_mod, Nat.add_assoc]

/-- The difference without a sign. -/
theorem shown_sub (hyx : y ≤ x) (hlt : x - y < n) : (shown n c x + n - shown n c y) % n = x - y := by
  have hy : shown n c y < n := Nat.mod_lt _ (by omega)
  have heq : shown n c x + n - shown n c y ≡ x - y [MOD n] := by
    apply Nat.ModEq.add_right_cancel' (shown n c y)
    rw [Nat.sub_add_cancel (by omega)]
    calc shown n c x + n ≡ c + x [MOD n] := by
          simp [Nat.ModEq, shown]
      _ = x - y + (c + y) := by omega
      _ ≡ x - y + shown n c y [MOD n] := Nat.ModEq.add_left _ (Nat.mod_modEq _ _).symm
  exact Eq.trans heq (Nat.mod_eq_of_lt hlt)

/-- The difference with a sign, in a word that is a part of the counter's. -/
theorem shown_bmod (hm : m ∣ n) (hlo : (y : ℤ) - x < (m / 2 : ℕ)) (hhi : (x : ℤ) - y < (m / 2 : ℕ)) :
    Int.bmod ((shown n c x : ℤ) - shown n c y) m = (x : ℤ) - y := by
  have hmod : ∀ t, (shown n c t : ℤ) ≡ (c + t : ℤ) [ZMOD m] := by
    intro t
    have h : shown n c t ≡ c + t [MOD m] := (Nat.mod_modEq _ _).of_dvd hm
    exact_mod_cast (Int.natCast_modEq_iff.2 h)
  have hdiff : ((shown n c x : ℤ) - shown n c y) % m = ((x : ℤ) - y) % m := by
    have h := (hmod x).sub (hmod y)
    rw [show (c + x : ℤ) - (c + y) = x - y by ring] at h
    exact h
  rw [← Int.emod_bmod, hdiff, Int.emod_bmod]
  exact Int.bmod_eq_of_le (by omega) (by omega)

end GenieSdk.Lib
