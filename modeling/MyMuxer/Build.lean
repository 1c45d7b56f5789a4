import MyMuxer.Rust

/-!
# Arithmetic in a debug and in a release build

* `Build`: a debug build panics where arithmetic overflows, a release build wraps.
* `Fault`, `Ck`: how a computation fails to return, and the result of one that may.
* `unsigned`, `i32`, `usizeSub`, `shiftBy`: results of a width, and shift distances; what they are where they fit.
-/

namespace MyMuxer

inductive Build where
  | debug
  | release
  deriving DecidableEq

inductive Fault where
  | panic (p : Panic)
  | overflow
  /-- A loop that goes on for ever. -/
  | endless
  deriving DecidableEq

abbrev Ck (α : Type) : Type := Except Fault α

/-- A panic is a fault. -/
def liftRs {α : Type} : Rs α → Ck α
  | .ok a => .ok a
  | .error p => .error (.panic p)

instance : MonadLift (Except Panic) (Except Fault) := ⟨liftRs⟩

@[simp] theorem ck_bind {α β : Type} (a : α) (f : α → Ck β) : (Except.ok a : Ck α) >>= f = f a := rfl

@[simp] theorem ck_error {α β : Type} (e : Fault) (f : α → Ck β) : (Except.error e : Ck α) >>= f = .error e := rfl

theorem ck_eq_ok {α β : Type} {x : Ck α} {f : α → Ck β} {b : β} : x >>= f = .ok b ↔ ∃ a, x = .ok a ∧ f a = .ok b := by
  cases x with
  | error e => exact iff_of_false (fun h => (nomatch h)) fun ⟨_, h, _⟩ => (nomatch h)
  | ok a => exact ⟨fun h => ⟨a, rfl, h⟩, fun ⟨_, h, h'⟩ => Except.ok.inj h ▸ h'⟩

@[simp] theorem ck_lift {α : Type} (a : α) : (liftM (Except.ok a : Rs α) : Ck α) = .ok a := rfl

/-- What an overflow comes to. -/
def overflows {α : Type} (wrapped : α) : Build → Ck α
  | .debug => .error .overflow
  | .release => .ok wrapped

/-- The result `x` of an operation on an unsigned type of `w` bits. -/
def unsigned (build : Build) (w : ℕ) (x : ℤ) : Ck ℕ :=
  if 0 ≤ x ∧ x < 2 ^ w then .ok x.toNat else overflows (x % 2 ^ w).toNat build

/-- The result `x` of an operation on `i32`. -/
def i32 (build : Build) (x : ℤ) : Ck ℤ :=
  if -2 ^ 31 ≤ x ∧ x < 2 ^ 31 then .ok x else overflows (x.bmod (2 ^ 32)) build

/-- How far a value of `w` bits is shifted, for a shift by `k`. -/
def shiftBy (build : Build) (w k : ℕ) : Ck ℕ := if k < w then .ok k else overflows (k % w) build

/-- `a - b` on `usize`. -/
def usizeSub (build : Build) (a b : ℕ) : Ck ℕ := if b ≤ a then .ok (a - b) else overflows (a + 2 ^ 64 - b) build

variable {build : Build} {w k a b n : ℕ} {x : ℤ}

theorem unsigned_of_lt (h : n < 2 ^ w) : unsigned build w n = .ok n :=
  if_pos ⟨Int.natCast_nonneg n, by exact_mod_cast h⟩

theorem unsigned_sub (hle : b ≤ a) (h : a < 2 ^ w) : unsigned build w (a - b) = .ok (a - b) := by
  rw [← Int.ofNat_sub hle]
  exact unsigned_of_lt (by omega)

theorem unsigned_debug : unsigned .debug w x = .ok n ↔ x = n ∧ n < 2 ^ w := by
  unfold unsigned
  split_ifs with h
  · obtain ⟨hpos, hlt⟩ := h
    obtain ⟨m, rfl⟩ := Int.eq_ofNat_of_zero_le hpos
    rw [Except.ok.injEq, Int.toNat_natCast, Int.natCast_inj]
    exact ⟨fun h => h ▸ ⟨rfl, by exact_mod_cast hlt⟩, fun h => h.1⟩
  · refine iff_of_false (fun h => nomatch h) fun ⟨hx, hn⟩ => h ⟨hx ▸ Int.natCast_nonneg n, ?_⟩
    rw [hx]
    exact_mod_cast hn

/-- A release build has a result always. -/
theorem unsigned_release : ∃ n, unsigned .release w x = .ok n := by
  unfold unsigned
  split_ifs
  · exact ⟨_, rfl⟩
  · exact ⟨_, rfl⟩

theorem shiftBy_release : ∃ n, shiftBy .release w k = .ok n := by
  unfold shiftBy
  split_ifs
  · exact ⟨_, rfl⟩
  · exact ⟨_, rfl⟩

theorem i32_release : ∃ y, i32 .release x = .ok y := by
  unfold i32
  split_ifs
  · exact ⟨_, rfl⟩
  · exact ⟨_, rfl⟩

theorem usizeSub_of_le (h : b ≤ a) : usizeSub build a b = .ok (a - b) := if_pos h

theorem i32_of_fits (h : -2 ^ 31 ≤ x ∧ x < 2 ^ 31) : i32 build x = .ok x := if_pos h

theorem i32_debug {y : ℤ} : i32 .debug x = .ok y ↔ y = x ∧ -2 ^ 31 ≤ x ∧ x < 2 ^ 31 := by
  unfold i32
  split_ifs with h
  · rw [Except.ok.injEq, eq_comm]
    exact (and_iff_left h).symm
  · exact iff_of_false (fun h => nomatch h) fun h' => h h'.2

theorem shiftBy_of_lt (h : k < w) : shiftBy build w k = .ok k := if_pos h

theorem shiftBy_wide (h : w ≤ k) : shiftBy .debug w k = .error .overflow := if_neg (Nat.not_lt.2 h)

end MyMuxer
