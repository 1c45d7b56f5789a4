import Mathlib.Algebra.Order.Field.Basic
import Mathlib.Data.Nat.Cast.Order.Field
import Mathlib.Data.Rat.Lemmas
import Mathlib.Order.Monotone.Basic
import Mathlib.Tactic.Linarith

/-!
# Clocks that are rounded down

A clock counts events, `c / b` ticks each. It is read by rounding down, and restarted from the
value read: the readings fall behind the exact time.

* `Reads c b m`: one reading follows another, modulo `m`.
* **`reads_behind`**: the `k`-th reading is less than `k` ticks behind.
-/

namespace FloorClock

/-- A reading `(n, p)` of the value `p` after `n` events, and the next one. -/
def Reads (c b m : ℕ) (x y : ℕ × ℕ) : Prop :=
  x.1 ≤ y.1 ∧ y.2 = (x.2 + (y.1 - x.1) * c / b) % m

variable {c b m : ℕ}

/-- The readings in whole ticks: `t k` of them at reading `k`. -/
theorem reads_ticks (hb : 0 < b) : ∀ {readings : List (ℕ × ℕ)} {n p : ℕ},
    ((n, p) :: readings).IsChain (Reads c b m) → ∃ t : ℕ → ℕ, Monotone t ∧
      ∀ k n' p', readings[k]? = some (n', p') → n ≤ n' ∧ p' = (p + t k) % m ∧
        t k * b ≤ (n' - n) * c ∧ (n' - n) * c < (t k + (k + 1)) * b
  | [], n, p, _ => ⟨fun _ => 0, monotone_const, fun k n' p' h => by simp at h⟩
  | (n₁, p₁) :: readings, n, p, h => by
    rw [List.isChain_cons_cons] at h
    obtain ⟨⟨hle, hp₁⟩, h⟩ := h
    obtain ⟨t, ht, hread⟩ := reads_ticks hb h
    dsimp only at hle hp₁
    have hlo := Nat.div_mul_le_self ((n₁ - n) * c) b
    have hhi := Nat.lt_div_mul_add hb (a := (n₁ - n) * c)
    generalize (n₁ - n) * c / b = d at hp₁ hlo hhi
    refine ⟨fun | 0 => d | k + 1 => d + t k, monotone_nat_of_le_succ fun k => ?_, fun k n' p' hk => ?_⟩
    · cases k with
      | zero => exact Nat.le_add_right ..
      | succ k => exact Nat.add_le_add_left (ht k.le_succ) d
    · cases k with
      | zero =>
        cases hk
        exact ⟨hle, hp₁, hlo, by rw [Nat.zero_add, Nat.add_one_mul]; exact hhi⟩
      | succ k =>
        obtain ⟨hle', hp', hlo', hhi'⟩ := hread k n' p' hk
        have hsplit : (n' - n) * c = (n₁ - n) * c + (n' - n₁) * c := by
          rw [← Nat.add_mul]; congr 1; omega
        refine ⟨hle.trans hle', ?_, ?_, ?_⟩
        · rw [hp', hp₁, Nat.mod_add_mod, Nat.add_assoc]
        · rw [hsplit, Nat.add_mul]; omega
        · rw [hsplit, show d + t k + (k + 1 + 1) = d + 1 + (t k + (k + 1)) by omega, Nat.add_mul,
            Nat.add_one_mul d]
          omega

/-- **The readings never run backwards, and the `k`-th is less than `k` ticks behind.** -/
theorem reads_behind (hb : 0 < b) {readings : List (ℕ × ℕ)} {p : ℕ}
    (h : ((0, p) :: readings).IsChain (Reads c b m)) : ∃ t : ℕ → ℕ, Monotone t ∧
      ∀ k n' p' : ℕ, readings[k]? = some (n', p') → p' = (p + t k) % m ∧
        0 ≤ (n' * c : ℚ) / b - t k ∧ (n' * c : ℚ) / b - t k < k + 1 := by
  obtain ⟨t, ht, hread⟩ := reads_ticks hb h
  refine ⟨t, ht, fun k n' p' hk => ?_⟩
  obtain ⟨-, hp', hlo, hhi⟩ := hread k n' p' hk
  rw [Nat.sub_zero] at hlo hhi
  have hb' : (0 : ℚ) < b := by exact_mod_cast hb
  refine ⟨hp', ?_, ?_⟩
  · rw [sub_nonneg, le_div_iff₀ hb']
    exact_mod_cast hlo
  · rw [sub_lt_iff_lt_add, div_lt_iff₀ hb']
    have : (n' * c : ℚ) < (t k + (k + 1)) * b := by exact_mod_cast hhi
    linarith

end FloorClock
