import Mathlib.Data.List.Basic

/-!
# Logs

A list of events that grows at its end.

* `snoc_eq_split`, `cut_at`: where a log is cut, once an event is added, and at a given event.
* `Each`: **every event obeys a law about what came before it**; `Each.snoc`, `Each.congr`, `each_map`.
-/

namespace Log

variable {α : Type*} {log pre post : List α} {x y : α}

/-- A cut of a log is at its last event or a cut of the log before it. -/
theorem snoc_eq_split (h : log ++ [x] = pre ++ y :: post) :
    (log = pre ∧ x = y ∧ post = []) ∨ ∃ post', post = post' ++ [x] ∧ log = pre ++ y :: post' := by
  rcases post.eq_nil_or_concat' with rfl | ⟨post', z, rfl⟩
  · obtain ⟨hpre, hlast⟩ := List.append_inj' h rfl
    exact .inl ⟨hpre, (List.cons.inj hlast).1, rfl⟩
  · rw [← List.cons_append, ← List.append_assoc] at h
    obtain ⟨hpre, hlast⟩ := List.append_inj' h rfl
    obtain rfl := (List.cons.inj hlast).1
    exact .inr ⟨post', rfl, hpre⟩

/-- The cut at a given event. -/
theorem cut_at {i : ℕ} (h : log[i]? = some x) : log = log.take i ++ x :: log.drop (i + 1) := by
  obtain ⟨hi, rfl⟩ := List.getElem?_eq_some_iff.1 h
  rw [← List.drop_eq_getElem_cons hi, List.take_append_drop]

/-- Every event obeys `law`, which may speak about the events before it. -/
def Each (law : List α → α → Prop) (log : List α) : Prop :=
  ∀ pre x post, log = pre ++ x :: post → law pre x

variable {law : List α → α → Prop}

theorem Each.nil : Each law [] := fun _ _ _ h => absurd h (by simp)

theorem Each.snoc (h : Each law log) (hx : law log x) : Each law (log ++ [x]) := by
  intro pre y post e
  rcases snoc_eq_split e with ⟨rfl, rfl, -⟩ | ⟨post', -, e'⟩
  · exact hx
  · exact h pre y post' e'

/-- Two laws that agree where a third one holds. -/
theorem Each.congr {law₁ law₂ : List α → α → Prop} (h : Each law log)
    (hiff : ∀ pre x, law pre x → (law₁ pre x ↔ law₂ pre x)) : Each law₁ log ↔ Each law₂ log :=
  forall₄_congr fun pre x post e => hiff pre x (h pre x post e)

theorem each_mem {p : α → Prop} : Each (fun _ x => p x) log ↔ ∀ x ∈ log, p x := by
  refine ⟨fun h x hx => ?_, fun h pre x post e => h x (by simp [e])⟩
  obtain ⟨pre, post, e⟩ := List.append_of_mem hx
  exact h pre x post e

/-- A law about a view of the events. -/
theorem each_map {β : Type*} (f : α → β) {law : List β → β → Prop} :
    Each law (log.map f) ↔ Each (fun pre x => law (pre.map f) (f x)) log := by
  refine ⟨fun h pre x post e => h _ _ (post.map f) (by simp [e]), fun h pre y post e => ?_⟩
  obtain ⟨pre', rest, rfl, rfl, e'⟩ := List.map_eq_append_iff.1 e
  obtain ⟨x, post', rfl, rfl, rfl⟩ := List.map_eq_cons_iff.1 e'
  exact h pre' x post' rfl

end Log
