import Mathlib.Data.Int.ModEq
import Mathlib.Tactic.Ring

/-!
# Numbers on a circle

Time stamps that wrap are points on a circle of `2 * half`, and one is after another when it is
less than half the circle ahead.

* `ahead`, `After`, `signed`: how far a number is ahead of another, whether it is after it, and the
  distance with its sign; `signed_modEq`, `after_iff_signed`.
* `ahead_mul`, `after_mul`: both clocks of a pair, one `k` times as fast, agree.
* **`after_of_window`**: on less than half a circle `After` is the order of the distances from its
  beginning.
-/

namespace Circle

variable (half : ℕ)

/-- How far `a` is ahead of `b`. -/
def ahead (a b : ℕ) : ℕ :=
  if b % (2 * half) ≤ a % (2 * half) then a % (2 * half) - b % (2 * half)
  else 2 * half - (b % (2 * half) - a % (2 * half))

/-- `a` is after `b`. -/
def After (a b : ℕ) : Prop := 0 < ahead half a b ∧ ahead half a b < half

instance (a b : ℕ) : Decidable (After half a b) :=
  inferInstanceAs (Decidable (0 < ahead half a b ∧ ahead half a b < half))

/-- The distance from `b` to `a`, negative where `a` is behind. -/
def signed (a b : ℕ) : ℤ := if ahead half a b < half then ahead half a b else ahead half a b - 2 * half

variable {half} (hpos : 0 < half) (a b c : ℕ)

theorem ahead_self : ahead half a a = 0 := by
  rw [ahead, if_pos le_rfl, Nat.sub_self]

theorem ahead_mul {k : ℕ} (hk : 0 < k) : ahead (k * half) (k * a) (k * b) = k * ahead half a b := by
  have hmod : ∀ x, k * x % (2 * (k * half)) = k * (x % (2 * half)) := by
    intro x
    rw [show 2 * (k * half) = k * (2 * half) by ring, Nat.mul_mod_mul_left]
  have hle : k * (b % (2 * half)) ≤ k * (a % (2 * half)) ↔ b % (2 * half) ≤ a % (2 * half) :=
    Nat.mul_le_mul_left_iff hk
  rw [ahead, ahead, hmod, hmod]
  by_cases h : b % (2 * half) ≤ a % (2 * half)
  · rw [if_pos h, if_pos (hle.2 h), Nat.mul_sub]
  · rw [if_neg h, if_neg fun h' => h (hle.1 h'), Nat.mul_sub, Nat.mul_sub]
    ring_nf

/-- Numbers on a circle and their multiples on one that is as much larger come in the same order. -/
theorem after_mul {k : ℕ} (hk : 0 < k) : After (k * half) (k * a) (k * b) ↔ After half a b := by
  rw [After, After, ahead_mul a b hk, Nat.mul_lt_mul_left hk]
  exact and_congr_left' (Nat.mul_pos_iff_of_pos_left hk)

include hpos

theorem ahead_lt : ahead half a b < 2 * half := by
  have ha := Nat.mod_lt a (show 0 < 2 * half by omega)
  unfold ahead
  split_ifs
  · omega
  · omega

/-- `a` is where one arrives from `b`. -/
theorem ahead_add : (ahead half a b + b) % (2 * half) = a % (2 * half) := by
  have ha := Nat.mod_lt a (show 0 < 2 * half by omega)
  have hb := Nat.mod_lt b (show 0 < 2 * half by omega)
  rw [Nat.add_mod, Nat.mod_eq_of_lt (ahead_lt hpos a b)]
  unfold ahead
  split_ifs with h
  · rw [Nat.sub_add_cancel h, Nat.mod_mod]
  · rw [show 2 * half - (b % (2 * half) - a % (2 * half)) + b % (2 * half) = a % (2 * half) + 2 * half by omega,
      Nat.add_mod_right, Nat.mod_mod]

theorem signed_lt : signed half a b < half := by
  have h := ahead_lt hpos a b
  unfold signed
  split_ifs
  · omega
  · omega

theorem neg_half_le_signed : -(half : ℤ) ≤ signed half a b := by
  unfold signed
  split_ifs
  · omega
  · omega

theorem signed_modEq : signed half a b ≡ a - b [ZMOD (2 * half : ℕ)] := by
  have hadd : ((ahead half a b + b : ℕ) : ℤ) ≡ a [ZMOD (2 * half : ℕ)] :=
    Int.natCast_modEq_iff.2 (ahead_add hpos a b)
  have hahead : (ahead half a b : ℤ) ≡ a - b [ZMOD (2 * half : ℕ)] := by
    have h := hadd.sub_right (b : ℤ)
    rwa [Nat.cast_add, add_sub_cancel_right] at h
  unfold signed
  split_ifs
  · exact hahead
  · refine Int.ModEq.trans ?_ hahead
    have h := (Int.ModEq.refl (n := (2 * half : ℕ)) (ahead half a b : ℤ)).sub
      (show ((2 * half : ℕ) : ℤ) ≡ 0 [ZMOD (2 * half : ℕ)] from Int.modEq_zero_iff_dvd.2 dvd_rfl)
    rw [sub_zero, Nat.cast_mul] at h
    exact h

theorem after_iff_signed : After half a b ↔ 0 < signed half a b := by
  have h := ahead_lt hpos a b
  unfold After signed
  split_ifs
  · omega
  · omega

/-- Between two numbers, by their distances from a third one. -/
theorem ahead_of_base : ahead half a b =
    if ahead half b c ≤ ahead half a c then ahead half a c - ahead half b c
    else 2 * half - (ahead half b c - ahead half a c) := by
  have ha := Nat.mod_lt a (show 0 < 2 * half by omega)
  have hb := Nat.mod_lt b (show 0 < 2 * half by omega)
  have hc := Nat.mod_lt c (show 0 < 2 * half by omega)
  unfold ahead
  split_ifs <;> omega

/-- **On less than half a circle the numbers are ordered by their distance from its beginning.** -/
theorem after_of_window (ha : ahead half a c < half) (hb : ahead half b c < half) :
    After half a b ↔ ahead half b c < ahead half a c := by
  rw [After, ahead_of_base hpos a b c]
  split_ifs
  · omega
  · omega

end Circle
