import Mathlib.Data.List.Basic
import Mathlib.Order.Bounds.Basic

/-!
# Searches that go past what cannot match

* `Begins P l`: the positions of `l` where a match of `P` begins; the first match is the least of them.
* `Skips P l d`: no match begins at the first `d` positions, whatever follows `l`.
* `Skips.trans`, `Skips.append`, `Skips.begins_iff`: skips add up, outlive more input, and leave the
  matches behind them; `skips_findIdx`.
* **`Skips.isLeast_iff`**: the first match of `l` is `d` positions behind that of the rest.
-/

namespace Search

variable {α : Type*} {P : List α → Prop} {l more : List α} {d e p : ℕ}

variable (P) in
/-- The positions where a match begins. -/
def Begins (l : List α) : Set ℕ := {p | P (l.drop p)}

variable (P) in
/-- No match begins at the first `d` positions, whatever follows. -/
structure Skips (l : List α) (d : ℕ) : Prop where
  le : d ≤ l.length
  none : ∀ q < d, ∀ more, ¬ P ((l ++ more).drop q)

theorem Skips.zero : Skips P l 0 := ⟨Nat.zero_le _, fun q h => absurd h (Nat.not_lt_zero q)⟩

theorem Skips.trans (h : Skips P l d) (h' : Skips P (l.drop d) e) : Skips P l (d + e) := by
  have hle := h.le
  have hle' := h'.le
  rw [List.length_drop] at hle'
  refine ⟨by omega, fun q hq more => ?_⟩
  by_cases hd : q < d
  · exact h.none q hd more
  · have := h'.none (q - d) (by omega) more
    rwa [← List.drop_append_of_le_length hle, List.drop_drop, Nat.add_sub_cancel' (by omega)] at this

theorem Skips.append (h : Skips P l d) (more : List α) : Skips P (l ++ more) d := by
  refine ⟨h.le.trans (by simp), fun q hq rest => ?_⟩
  rw [List.append_assoc]
  exact h.none q hq _

/-- The first element, where no match begins, and a skip behind it. -/
theorem Skips.cons {a : α} (hnone : ∀ more, ¬ P (a :: l ++ more)) (h : Skips P l d) : Skips P (a :: l) (d + 1) := by
  refine ⟨Nat.succ_le_succ h.le, fun q hq more => ?_⟩
  cases q with
  | zero => exact hnone more
  | succ q => exact h.none q (by omega) more

/-- No match begins before the first element with which one can begin. -/
theorem skips_findIdx {f : α → Bool} (hP : ∀ a l, P (a :: l) → f a = true) : Skips P l (l.findIdx f) := by
  induction l with
  | nil => exact Skips.zero
  | cons a l ih =>
    rw [List.findIdx_cons]
    cases ha : f a with
    | true => exact Skips.zero
    | false => exact ih.cons fun more h => Bool.false_ne_true (ha.symm.trans (hP a _ h))

theorem Skips.not_begins (h : Skips P l d) (hp : p < d) : p ∉ Begins P l := by
  have := h.none p hp []
  rwa [List.append_nil] at this

/-- What a skip leaves are the matches behind it. -/
theorem Skips.begins_iff (h : Skips P l d) : p ∈ Begins P l ↔ ∃ q ∈ Begins P (l.drop d), p = d + q := by
  constructor
  · intro hp
    have hd : d ≤ p := Nat.not_lt.1 fun hlt => h.not_begins hlt hp
    refine ⟨p - d, ?_, (Nat.add_sub_cancel' hd).symm⟩
    change P _
    rw [List.drop_drop, Nat.add_sub_cancel' hd]
    exact hp
  · rintro ⟨q, hq, rfl⟩
    change P _ at hq
    rwa [List.drop_drop] at hq

/-- **The first match is `d` positions behind that of the rest.** -/
theorem Skips.isLeast_iff (h : Skips P l d) :
    IsLeast (Begins P l) (d + p) ↔ IsLeast (Begins P (l.drop d)) p := by
  constructor
  · rintro ⟨hmem, hleast⟩
    obtain ⟨q, hq, he⟩ := h.begins_iff.1 hmem
    obtain rfl : p = q := by omega
    refine ⟨hq, fun r hr => ?_⟩
    have := hleast (h.begins_iff.2 ⟨r, hr, rfl⟩)
    omega
  · rintro ⟨hmem, hleast⟩
    refine ⟨h.begins_iff.2 ⟨p, hmem, rfl⟩, fun r hr => ?_⟩
    obtain ⟨q, hq, rfl⟩ := h.begins_iff.1 hr
    exact Nat.add_le_add_left (hleast hq) d

theorem Skips.isLeast (h : Skips P l d) (hd : d ∈ Begins P l) : IsLeast (Begins P l) d :=
  ⟨hd, fun _ hp => Nat.not_lt.1 fun hlt => h.not_begins hlt hp⟩

theorem Skips.not_begins_of_drop (h : Skips P l d) (hnone : Begins P (l.drop d) = ∅) : Begins P l = ∅ := by
  refine Set.eq_empty_of_forall_notMem fun p hp => ?_
  obtain ⟨q, hq, -⟩ := h.begins_iff.1 hp
  exact Set.notMem_empty q (hnone ▸ hq)

/-- A match that outlives more input does so wherever it begins. -/
theorem Begins.append (hP : ∀ l more, P l → P (l ++ more)) (hp : p ∈ Begins P l) (more : List α) :
    p ∈ Begins P (l ++ more) := by
  change P _
  rw [List.drop_append]
  exact hP _ _ hp

end Search
