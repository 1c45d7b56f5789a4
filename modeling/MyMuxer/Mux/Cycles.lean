import MyMuxer.Lib.Circle
import MyMuxer.Mux.Clock

/-!
# The two clocks as circles (`mux.rs`)

* `dtsDiff_eq`, `pcrSub_eq_ahead`: the masked and the reduced difference are distances on circles of
  `2 ^ 33` and `pcrCycle` ticks; `dtsAfter_iff`, `pcrAfter_iff_after` and so on follow.
* `addU64`, `subU64`, `asI64`, `subI64`: arithmetic that notices an overflow, and the operations of the
  source made of it.
* **`clock_laws`**: the laws of both clocks, for all `u64` values.
-/

namespace MyMuxer

open Circle

theorem dtsHalf_pos : 0 < dtsHalf := by decide

theorem pcrHalf_pos : 0 < pcrHalf := by decide

theorem two_mul_dtsHalf : 2 * dtsHalf = 2 ^ 33 := by decide

theorem two_mul_pcrHalf : 2 * pcrHalf = pcrCycle := by decide

theorem mul_dtsHalf : 300 * dtsHalf = pcrHalf := by decide

/-! ## Differences -/

variable (a : ℕ) {b : ℕ}

theorem dtsDiff_eq (hb : b ≤ 2 ^ 64) : wrappingSub a b &&& dtsMask = ahead dtsHalf a b := by
  rw [dtsMask, Nat.and_two_pow_sub_one_eq_mod, wrappingSub, ahead, two_mul_dtsHalf]
  split_ifs
  · omega
  · omega

theorem dtsAfter_iff (hb : b ≤ 2 ^ 64) : dtsAfter a b = true ↔ After dtsHalf a b := by
  unfold dtsAfter
  dsimp only
  rw [dtsDiff_eq a hb, decide_eq_true_iff, After, Nat.pos_iff_ne_zero]

theorem dtsSignedDelta_eq (hb : b ≤ 2 ^ 64) : dtsSignedDelta a b = signed dtsHalf a b := by
  have hmask : ((dtsMask : ℕ) : ℤ) + 1 = 2 * (dtsHalf : ℕ) := by decide
  unfold dtsSignedDelta signed
  dsimp only
  rw [dtsDiff_eq a hb, hmask]
  by_cases h : ahead dtsHalf a b < dtsHalf
  · rw [if_neg (by omega), if_pos h]
  · rw [if_pos (by omega), if_neg h]

theorem dtsForwardDeltaMs_isSome (a b : ℕ) : (dtsForwardDeltaMs a b).isSome = dtsAfter a b := by
  unfold dtsForwardDeltaMs dtsAfter
  dsimp only
  split_ifs with h
  · exact (decide_eq_true h).symm
  · exact (decide_eq_false h).symm

theorem pcrSub_eq_ahead (a b : ℕ) : pcrSub a b = ahead pcrHalf a b := by
  unfold pcrSub ahead pcrNormalize
  rw [two_mul_pcrHalf]

theorem pcrAfter_iff_after (a b : ℕ) : pcrAfter a b = true ↔ After pcrHalf a b := by
  rw [pcrAfter_iff, pcrSub_eq_ahead, After, Nat.pos_iff_ne_zero]

theorem pcrSignedDelta_eq (a b : ℕ) : pcrSignedDelta a b = signed pcrHalf a b := by
  have hcycle : ((pcrCycle : ℕ) : ℤ) = 2 * (pcrHalf : ℕ) := by decide
  unfold pcrSignedDelta signed
  dsimp only
  rw [pcrSub_eq_ahead, hcycle]
  by_cases h : ahead pcrHalf a b < pcrHalf
  · rw [if_neg (by omega), if_pos h]
  · rw [if_pos (by omega), if_neg h]

theorem pcrAdd_pcrSub (a b : ℕ) : pcrAdd (pcrSub a b) b = pcrNormalize a := by
  have h := ahead_add pcrHalf_pos a b
  rw [two_mul_pcrHalf] at h
  rw [pcrAdd, pcrSub_eq_ahead, pcrNormalize, pcrNormalize, pcrNormalize, ← Nat.add_mod, h, pcrNormalize]

/-- A DTS is after another one exactly when it is after it in ticks of the PCR. -/
theorem dtsAfter_iff_pcrAfter (hb : b ≤ 2 ^ 64) :
    dtsAfter a b = true ↔ pcrAfter (300 * a) (300 * b) = true := by
  rw [dtsAfter_iff a hb, pcrAfter_iff_after, ← mul_dtsHalf, after_mul a b (by norm_num)]

/-! ## Overflows -/

/-- `a + b` on `u64`. -/
def addU64 (a b : ℕ) : Option ℕ := if a + b < 2 ^ 64 then some (a + b) else none

/-- `a - b` on `u64`. -/
def subU64 (a b : ℕ) : Option ℕ := if b ≤ a then some (a - b) else none

/-- `a as i64`, if it keeps the value. -/
def asI64 (a : ℕ) : Option ℤ := if a < 2 ^ 63 then some a else none

/-- `a - b` on `i64`. -/
def subI64 (a b : ℤ) : Option ℤ := if -2 ^ 63 ≤ a - b ∧ a - b < 2 ^ 63 then some (a - b) else none

def dtsSignedDeltaChecked (a b : ℕ) : Option ℤ := do
  let delta := wrappingSub a b &&& dtsMask
  if delta ≥ dtsHalf then subI64 (← asI64 delta) (← asI64 (← addU64 dtsMask 1)) else asI64 delta

def pcrSubChecked (a b : ℕ) : Option ℕ := do
  let a := pcrNormalize a
  let b := pcrNormalize b
  if a ≥ b then subU64 a b else subU64 pcrCycle (← subU64 b a)

/-- `pcr_after` computes its difference as `pcr_sub` does. -/
def pcrAfterChecked (a b : ℕ) : Option Bool := do
  let diff ← pcrSubChecked a b
  return decide (diff ≠ 0 ∧ diff < pcrHalf)

def pcrAddChecked (a b : ℕ) : Option ℕ := do
  return pcrNormalize (← addU64 (pcrNormalize a) (pcrNormalize b))

def pcrSignedDeltaChecked (a b : ℕ) : Option ℤ := do
  let delta ← pcrSubChecked a b
  if delta ≥ pcrHalf then subI64 (← asI64 delta) (← asI64 pcrCycle) else asI64 delta

theorem asI64_of_lt (h : a < 2 ^ 63) : asI64 a = some (a : ℤ) := if_pos h

theorem subI64_of_lt {b : ℕ} (ha : a < 2 ^ 63) (hb : b < 2 ^ 63) : subI64 a b = some ((a : ℤ) - b) :=
  if_pos ⟨by omega, by omega⟩

/-- No difference of two numbers on a circle of at most `2 ^ 62` overflows. -/
theorem signedChecked_eq {half : ℕ} {delta : ℕ} (hhalf : half ≤ 2 ^ 61) (h : delta < 2 * half) :
    (if delta ≥ half then (asI64 delta).bind fun x => (asI64 (2 * half)).bind fun y => subI64 x y
      else asI64 delta) = some (if delta ≥ half then (delta : ℤ) - (2 * half : ℕ) else delta) := by
  rw [asI64_of_lt delta (by omega), asI64_of_lt (2 * half) (by omega), Option.bind_some, Option.bind_some,
    subI64_of_lt delta (by omega) (by omega)]
  split_ifs
  · rfl
  · rfl

theorem dtsSignedDeltaChecked_eq (hb : b ≤ 2 ^ 64) : dtsSignedDeltaChecked a b = some (dtsSignedDelta a b) := by
  have hlt := ahead_lt dtsHalf_pos a b
  rw [← dtsDiff_eq a hb] at hlt
  exact signedChecked_eq (by decide) hlt

theorem pcrSubChecked_eq (a b : ℕ) : pcrSubChecked a b = some (pcrSub a b) := by
  have ha := pcrNormalize_lt a
  have hb := pcrNormalize_lt b
  unfold pcrSubChecked pcrSub subU64
  dsimp only
  by_cases h : pcrNormalize a ≥ pcrNormalize b
  · rw [if_pos h, if_pos h, if_pos h]
  · rw [if_neg h, if_neg h, if_pos (by omega)]
    exact if_pos (by omega)

theorem pcrAfterChecked_eq (a b : ℕ) : pcrAfterChecked a b = some (pcrAfter a b) := by
  rw [pcrAfterChecked, pcrSubChecked_eq]
  rfl

theorem pcrAddChecked_eq (a b : ℕ) : pcrAddChecked a b = some (pcrAdd a b) := by
  have ha := pcrNormalize_lt a
  have hb := pcrNormalize_lt b
  have hcycle : pcrCycle < 2 ^ 63 := by decide
  rw [pcrAddChecked, addU64, if_pos (by omega)]
  rfl

theorem pcrSignedDeltaChecked_eq (a b : ℕ) : pcrSignedDeltaChecked a b = some (pcrSignedDelta a b) := by
  have hlt := ahead_lt pcrHalf_pos a b
  rw [← pcrSub_eq_ahead] at hlt
  rw [pcrSignedDeltaChecked, pcrSubChecked_eq]
  exact signedChecked_eq (by decide) hlt

/-! ## The laws -/

/-- The laws of the two clocks, for a pair of values. -/
structure ClockLaws (a b : ℕ) : Prop where
  dtsRange : -2 ^ 32 ≤ dtsSignedDelta a b ∧ dtsSignedDelta a b < 2 ^ 32
  dtsCongruent : dtsSignedDelta a b ≡ a - b [ZMOD 2 ^ 33]
  dtsAfter_iff_pos : dtsAfter a b = true ↔ 0 < dtsSignedDelta a b
  dtsAfter_iff_some : dtsAfter a b = true ↔ (dtsForwardDeltaMs a b).isSome = true
  pcrRange : -(pcrHalf : ℤ) ≤ pcrSignedDelta a b ∧ pcrSignedDelta a b < pcrHalf
  pcrCongruent : pcrSignedDelta a b ≡ a - b [ZMOD pcrCycle]
  pcrAfter_iff_pos : pcrAfter a b = true ↔ 0 < pcrSignedDelta a b
  pcrAdd_pcrSub : pcrAdd (pcrSub a b) b = pcrNormalize a
  scaled : a < 2 ^ 33 → b < 2 ^ 33 → (dtsAfter a b = true ↔ pcrAfter (300 * a) (300 * b) = true)
  noOverflow : dtsSignedDeltaChecked a b = some (dtsSignedDelta a b) ∧
    pcrSubChecked a b = some (pcrSub a b) ∧ pcrAfterChecked a b = some (pcrAfter a b) ∧
    pcrAddChecked a b = some (pcrAdd a b) ∧ pcrSignedDeltaChecked a b = some (pcrSignedDelta a b)

/-- **The laws of the two clocks.** -/
theorem clock_laws (a b : UInt64) : ClockLaws a.toNat b.toNat := by
  have hb : b.toNat ≤ 2 ^ 64 := b.toNat_lt.le
  generalize a.toNat = a
  generalize b.toNat = b at hb
  constructor
  · rw [dtsSignedDelta_eq a hb]
    exact ⟨neg_half_le_signed dtsHalf_pos a b, signed_lt dtsHalf_pos a b⟩
  · have h := signed_modEq dtsHalf_pos a b
    rw [two_mul_dtsHalf] at h
    rw [dtsSignedDelta_eq a hb]
    exact h
  · rw [dtsAfter_iff a hb, dtsSignedDelta_eq a hb, after_iff_signed dtsHalf_pos]
  · rw [dtsForwardDeltaMs_isSome]
  · rw [pcrSignedDelta_eq]
    exact ⟨neg_half_le_signed pcrHalf_pos a b, signed_lt pcrHalf_pos a b⟩
  · have h := signed_modEq pcrHalf_pos a b
    rw [two_mul_pcrHalf] at h
    rw [pcrSignedDelta_eq]
    exact h
  · rw [pcrAfter_iff_after, pcrSignedDelta_eq, after_iff_signed pcrHalf_pos]
  · exact pcrAdd_pcrSub a b
  · exact fun _ _ => dtsAfter_iff_pcrAfter a hb
  · exact ⟨dtsSignedDeltaChecked_eq a hb, pcrSubChecked_eq a b, pcrAfterChecked_eq a b, pcrAddChecked_eq a b,
      pcrSignedDeltaChecked_eq a b⟩

end MyMuxer
