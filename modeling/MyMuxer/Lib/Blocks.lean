import Mathlib.Data.List.Forall2

/-!
# Blocks in a stream

* `Stands bytes xs s`: the blocks `xs` stand in the stream `s` one after another, with anything between them.
* **`Stands.append`**, `Stands.skips`: what stands in the parts of a stream stands in the whole.
-/

namespace Blocks

variable {α β : Type*} {bytes : α → List β} {xs ys : List α} {s t : List β}

variable (bytes) in
/-- The blocks stand in the stream one after another, none over another. -/
inductive Stands : List α → List β → Prop where
  | nil (s : List β) : Stands [] s
  | skip {xs : List α} {s : List β} (b : β) : Stands xs s → Stands xs (b :: s)
  | block {xs : List α} {s : List β} (x : α) : Stands xs s → Stands (x :: xs) (bytes x ++ s)

theorem Stands.skips (h : Stands bytes xs s) : ∀ gap : List β, Stands bytes xs (gap ++ s)
  | [] => h
  | b :: gap => .skip b (h.skips gap)

theorem Stands.append (h : Stands bytes xs s) (h' : Stands bytes ys t) : Stands bytes (xs ++ ys) (s ++ t) := by
  induction h with
  | nil gap => exact h'.skips gap
  | skip b _ ih => exact .skip b ih
  | block x _ ih =>
    rw [List.append_assoc]
    exact .block x ih

/-- One block, and what comes before it. -/
theorem Stands.one (x : α) (gap : List β) : Stands bytes [x] (gap ++ bytes x) := by
  have hx : Stands bytes [x] (bytes x ++ []) := .block x (.nil [])
  rw [List.append_nil] at hx
  exact hx.skips gap

end Blocks
