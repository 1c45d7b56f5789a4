import Mathlib.Data.Nat.Log
import Mathlib.Tactic

/-!
# Bit lists

* `word n v`: the `n` low bits of `v`, the highest first; `value`: the number that bits spell.
* `value_append`, `value_word`, `word_value`: the two are inverse to each other, piece by piece.
* `ofBytes`: the bits of a byte string.
* `golomb`: the Exp-Golomb code of a number; `golomb_split`: every run of zeros, a one and as many bits more
  are one; `signed`, `signCode`: the order in which it counts signed numbers.
-/

namespace Bits

/-- The `n` low bits of `v`, the highest first. -/
def word : ℕ → ℕ → List Bool
  | 0, _ => []
  | n + 1, v => decide (v / 2 ^ n % 2 = 1) :: word n v

/-- The number that bits spell, the highest first. -/
def value : List Bool → ℕ
  | [] => 0
  | b :: l => b.toNat * 2 ^ l.length + value l

variable {n v : ℕ} {l : List Bool}

@[simp] theorem length_word (n v : ℕ) : (word n v).length = n := by
  induction n with
  | zero => rfl
  | succ n ih => rw [word, List.length_cons, ih]

theorem value_lt (l : List Bool) : value l < 2 ^ l.length := by
  induction l with
  | nil => exact Nat.one_pos
  | cons b l ih =>
    have hb := Bool.toNat_le b
    rw [value, List.length_cons, Nat.pow_succ]
    have := Nat.mul_le_mul_right (2 ^ l.length) hb
    omega

theorem value_append (l m : List Bool) : value (l ++ m) = value l * 2 ^ m.length + value m := by
  induction l with
  | nil => rw [List.nil_append, value, Nat.zero_mul, Nat.zero_add]
  | cons b l ih =>
    rw [List.cons_append, value, value, ih, List.length_append, Nat.pow_add]
    ring

theorem value_word_mod (n v : ℕ) : value (word n v) = v % 2 ^ n := by
  induction n with
  | zero => rw [word, value, Nat.pow_zero, Nat.mod_one]
  | succ n ih =>
    have hbit : (decide (v / 2 ^ n % 2 = 1)).toNat = v / 2 ^ n % 2 := by
      rcases Nat.mod_two_eq_zero_or_one (v / 2 ^ n) with h | h
      · rw [h]
        rfl
      · rw [h]
        rfl
    rw [word, value, ih, length_word, hbit, Nat.pow_succ, Nat.mod_mul, Nat.mul_comm, Nat.add_comm]

theorem value_word (h : v < 2 ^ n) : value (word n v) = v := by rw [value_word_mod, Nat.mod_eq_of_lt h]

theorem word_mod (n v : ℕ) : word n (v % 2 ^ n) = word n v := by
  have hbits (k : ℕ) (hk : k ≤ n) : word k (v % 2 ^ n) = word k v := by
    induction k with
    | zero => rfl
    | succ k ih =>
      have hdigit : v % 2 ^ n / 2 ^ k % 2 = v / 2 ^ k % 2 := by
        obtain ⟨d, rfl⟩ := Nat.exists_eq_add_of_lt hk
        rw [show k + d + 1 = k + (d + 1) by omega, Nat.pow_add, Nat.mod_mul_right_div_self, Nat.pow_succ,
          Nat.mod_mul_left_mod]
      rw [word, word, ih (by omega), hdigit]
  exact hbits n le_rfl

theorem word_append (n k a b : ℕ) (hb : b < 2 ^ k) : word n a ++ word k b = word (n + k) (a * 2 ^ k + b) := by
  induction n with
  | zero =>
    rw [word, List.nil_append, Nat.zero_add, ← word_mod k (a * 2 ^ k + b), Nat.mul_add_mod', Nat.mod_eq_of_lt hb]
  | succ n ih =>
    have hdigit : (a * 2 ^ k + b) / 2 ^ (n + k) = a / 2 ^ n := by
      rw [Nat.add_comm n k, Nat.pow_add, ← Nat.div_div_eq_div_mul, Nat.mul_comm a,
        Nat.mul_add_div (Nat.two_pow_pos k), Nat.div_eq_of_lt hb, Nat.add_zero]
    rw [word, List.cons_append, ih, Nat.add_right_comm, word, hdigit]

theorem word_value (l : List Bool) : word l.length (value l) = l := by
  induction l with
  | nil => rfl
  | cons b l ih =>
    have hlt := value_lt l
    have hdiv : (b.toNat * 2 ^ l.length + value l) / 2 ^ l.length = b.toNat := by
      rw [Nat.mul_comm, Nat.mul_add_div (Nat.two_pow_pos _), Nat.div_eq_of_lt hlt, Nat.add_zero]
    have hmod : word l.length (b.toNat * 2 ^ l.length + value l) = l := by
      rw [← word_mod, Nat.mul_add_mod', Nat.mod_eq_of_lt hlt, ih]
    rw [value, List.length_cons, word, hdiv, hmod]
    cases b
    · rfl
    · rfl

/-- The first bits are those of the number without the others. -/
theorem take_eq_word (h : n ≤ l.length) : l.take n = word n (value l / 2 ^ (l.length - n)) := by
  have hsplit : value l = value (l.take n) * 2 ^ (l.length - n) + value (l.drop n) := by
    rw [← List.length_drop, ← value_append, List.take_append_drop]
  have hlow : value (l.drop n) < 2 ^ (l.length - n) := List.length_drop (l := l) ▸ value_lt (l.drop n)
  have hdiv : value l / 2 ^ (l.length - n) = value (l.take n) := by
    rw [hsplit, Nat.mul_comm, Nat.mul_add_div (Nat.two_pow_pos _), Nat.div_eq_of_lt hlow, Nat.add_zero]
  have hword := word_value (l.take n)
  rw [List.length_take, Nat.min_eq_left h] at hword
  rw [hdiv, hword]

/-! ## Bytes -/

/-- The bits of a byte string. -/
def ofBytes (bytes : List UInt8) : List Bool := bytes.flatMap fun b => word 8 b.toNat

theorem length_ofBytes (bytes : List UInt8) : (ofBytes bytes).length = 8 * bytes.length := by
  induction bytes with
  | nil => rfl
  | cons b bytes ih =>
    rw [ofBytes] at ih ⊢
    rw [List.flatMap_cons, List.length_append, length_word, ih, List.length_cons]
    omega

theorem value_ofBytes_cons (b : UInt8) (bytes : List UInt8) :
    value (ofBytes (b :: bytes)) = b.toNat * 2 ^ (8 * bytes.length) + value (ofBytes bytes) := by
  rw [← length_ofBytes, ofBytes, List.flatMap_cons, value_append, value_word b.toNat_lt]
  rfl

/-! ## Exp-Golomb codes -/

/-- The Exp-Golomb code: as many zeros as `k + 1` has bits behind its first, and these bits. -/
def golomb (k : ℕ) : List Bool := List.replicate (Nat.log 2 (k + 1)) false ++ word (Nat.log 2 (k + 1) + 1) (k + 1)

/-- **Zeros, a one and as many bits more are the code of a number.** -/
theorem golomb_split (l : List Bool) :
    golomb (2 ^ l.length - 1 + value l) = List.replicate l.length false ++ true :: l := by
  have hpos := Nat.two_pow_pos l.length
  have hvalue : 2 ^ l.length - 1 + value l + 1 = value (true :: l) := by
    rw [value, Bool.toNat_true, Nat.one_mul]
    omega
  have hlog : Nat.log 2 (value (true :: l)) = l.length := by
    refine Nat.log_eq_of_pow_le_of_lt_pow ?_ (value_lt (true :: l))
    rw [value, Bool.toNat_true, Nat.one_mul]
    exact Nat.le_add_right _ _
  rw [golomb, hvalue, hlog, ← List.length_cons, word_value]

/-- Bits up to the first one, and what is behind it. -/
theorem zeros_split {l : List Bool} (h : l.findIdx id < l.length) :
    l = List.replicate (l.findIdx id) false ++ true :: l.drop (l.findIdx id + 1) := by
  induction l with
  | nil => exact absurd h (Nat.not_lt_zero _)
  | cons b l ih =>
    rw [List.findIdx_cons, List.length_cons] at h
    rw [List.findIdx_cons]
    cases b with
    | true => rfl
    | false => exact congrArg (false :: ·) (ih (Nat.lt_of_succ_lt_succ h))

/-- The bits of a code behind its first one. -/
def suffix (k : ℕ) : List Bool := word (Nat.log 2 (k + 1)) (k + 1)

theorem value_suffix (k : ℕ) : 2 ^ (suffix k).length - 1 + value (suffix k) = k := by
  have hle : 2 ^ Nat.log 2 (k + 1) ≤ k + 1 := Nat.pow_log_le_self 2 k.succ_ne_zero
  have hlt : k + 1 < 2 ^ (Nat.log 2 (k + 1) + 1) := Nat.lt_pow_succ_log_self Nat.one_lt_two (k + 1)
  have hpos := Nat.two_pow_pos (Nat.log 2 (k + 1))
  rw [Nat.pow_succ] at hlt
  rw [suffix, length_word, value_word_mod]
  have hmod : (k + 1) % 2 ^ Nat.log 2 (k + 1) = k + 1 - 2 ^ Nat.log 2 (k + 1) := by
    rw [Nat.mod_eq_sub_mod hle, Nat.mod_eq_of_lt (by omega)]
  omega

theorem golomb_eq (k : ℕ) : golomb k = List.replicate (suffix k).length false ++ true :: suffix k := by
  rw [← golomb_split, value_suffix]

theorem length_suffix_lt {k n : ℕ} : (suffix k).length < n ↔ k + 1 < 2 ^ n := by
  rw [suffix, length_word]
  exact Nat.log_lt_iff_lt_pow Nat.one_lt_two k.succ_ne_zero

/-! ## Signed numbers -/

/-- The signed number that a code number stands for: `0, 1, -1, 2, -2`, and so on. -/
def signed (k : ℕ) : ℤ := if k % 2 = 1 then (k + 1) / 2 else -(k / 2)

/-- The code number of a signed number. -/
def signCode (v : ℤ) : ℕ := if 0 < v then (2 * v - 1).toNat else (-2 * v).toNat

theorem signed_signCode (v : ℤ) : signed (signCode v) = v := by
  unfold signCode signed
  split_ifs <;> omega

theorem signCode_signed (k : ℕ) : signCode (signed k) = k := by
  unfold signed signCode
  split_ifs <;> omega

end Bits
