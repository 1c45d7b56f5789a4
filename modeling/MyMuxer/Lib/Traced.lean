import Mathlib.Data.Option.Basic
import Mathlib.Data.List.Basic

/-!
# Code that notes what it does

* `Traced`: what was noted, and the result or the error that ended the run; a monad.
* `Logs P`: all that was noted is in `P`; `logs_bind`: what it takes for two computations, one after the other.
-/

/-- What was noted until the result was there, or until the error. -/
structure Traced (E ε α : Type) where
  log : List E
  result : Except ε α

namespace Traced

variable {E ε α β : Type}

instance : Monad (Traced E ε) where
  pure a := { log := [], result := .ok a }
  bind x f :=
    { log := x.log ++ x.result.toOption.elim [] fun a => (f a).log
      result := x.result >>= fun a => (f a).result }

/-- A note, and nothing else. -/
def note (e : E) : Traced E ε Unit := { log := [e], result := .ok () }

@[simp] theorem result_pure (a : α) : (pure a : Traced E ε α).result = .ok a := rfl

@[simp] theorem result_bind (x : Traced E ε α) (f : α → Traced E ε β) :
    (x >>= f).result = x.result >>= fun a => (f a).result := rfl

@[simp] theorem result_note (e : E) : (note e : Traced E ε Unit).result = .ok () := rfl

theorem result_ite {c : Prop} [Decidable c] (x y : Traced E ε α) :
    (if c then x else y).result = if c then x.result else y.result := apply_ite _ _ _ _

/-- All notes are of one kind. -/
def Logs (P : E → Prop) (x : Traced E ε α) : Prop := ∀ e ∈ x.log, P e

variable {P : E → Prop} {x : Traced E ε α} {f : α → Traced E ε β}

theorem logs_pure (P : E → Prop) (a : α) : Logs P (pure a : Traced E ε α) := by
  intro e he
  cases he

theorem logs_note {e : E} : Logs P (note e : Traced E ε Unit) ↔ P e := by
  simp [Logs, note]

/-- What comes second is noted if there is a first result. -/
theorem logs_bind : Logs P (x >>= f) ↔ Logs P x ∧ ∀ a, x.result = .ok a → Logs P (f a) := by
  have hlog : (x >>= f).log = x.log ++ x.result.toOption.elim [] fun a => (f a).log := rfl
  rw [Logs, hlog]
  cases hx : x.result with
  | error e =>
    constructor
    · intro h
      exact ⟨fun e he => h e (List.mem_append_left _ he), fun a ha => nomatch ha⟩
    · rintro ⟨h, -⟩ e he
      rcases List.mem_append.1 he with he | he
      · exact h e he
      · cases he
  | ok a =>
    constructor
    · intro h
      refine ⟨fun e he => h e (List.mem_append_left _ he), ?_⟩
      rintro _ ⟨rfl⟩ e he
      exact h e (List.mem_append_right _ he)
    · rintro ⟨h, hf⟩ e he
      rcases List.mem_append.1 he with he | he
      · exact h e he
      · exact hf a rfl e he

theorem logs_bind_ok {a : α} (h : x.result = .ok a) : Logs P (x >>= f) ↔ Logs P x ∧ Logs P (f a) := by
  rw [logs_bind, h]
  constructor
  · rintro ⟨hx, hf⟩
    exact ⟨hx, hf a rfl⟩
  · rintro ⟨hx, hf⟩
    refine ⟨hx, ?_⟩
    rintro _ ⟨rfl⟩
    exact hf

theorem logs_pure_bind {f : α → Traced E ε β} (a : α) : Logs P (pure a >>= f) ↔ Logs P (f a) := by
  rw [logs_bind_ok (result_pure a)]
  exact and_iff_right (logs_pure P a)

end Traced
