import Mathlib.Data.List.Forall2

/-!
# First in, first out

A queue that is fed at its end and served from its front, each element leaving through `R`.

* `Served R fed queue out`: of what was fed, `out` has left and `queue` is still there.
* `Served.feed`, `Served.serve`: the two operations keep it.
* `Served.take`, `Served.drop`: what it says about the output and the queue.
* `Passed R fed queue out`: the same for a queue that may lose elements; `Passed.feed`, `Passed.serve`, `Passed.lose`.
* **`Passed.among`**: what has left is among what was fed, in order; `sublistForall₂_filter`.
-/

namespace Fifo

open List

variable {α β : Type*} (R : α → β → Prop)

/-- What has left is related to the first elements fed, in order, and the others are queued. -/
def Served (fed queue : List α) (out : List β) : Prop :=
  ∃ taken, fed = taken ++ queue ∧ Forall₂ R taken out

variable {R} {fed queue : List α} {out : List β}

theorem Served.start (queue : List α) : Served R queue queue [] := ⟨[], rfl, .nil⟩

theorem Served.feed (h : Served R fed queue out) (more : List α) :
    Served R (fed ++ more) (queue ++ more) out := by
  obtain ⟨taken, rfl, hout⟩ := h
  exact ⟨taken, List.append_assoc .., hout⟩

theorem Served.serve {a : α} {b : β} (h : Served R fed (a :: queue) out) (hab : R a b) :
    Served R fed queue (out ++ [b]) := by
  obtain ⟨taken, rfl, hout⟩ := h
  exact ⟨taken ++ [a], by simp, rel_append hout (.cons hab .nil)⟩

/-- **Nothing is lost, duplicated or reordered.** -/
theorem Served.take (h : Served R fed queue out) : Forall₂ R (fed.take out.length) out := by
  obtain ⟨taken, rfl, hout⟩ := h
  rwa [← hout.length_eq, List.take_left]

/-- What has not left is queued. -/
theorem Served.drop (h : Served R fed queue out) : fed.drop out.length = queue := by
  obtain ⟨taken, rfl, hout⟩ := h
  rw [← hout.length_eq, List.drop_left]

/-! ## Queues that lose elements -/

variable (R) in
/-- What has left and what is queued are among what was fed, in order. -/
def Passed (fed queue : List α) (out : List β) : Prop := ∃ taken, taken ++ queue <+ fed ∧ Forall₂ R taken out

theorem Passed.feed (h : Passed R fed queue out) (more : List α) : Passed R (fed ++ more) (queue ++ more) out := by
  obtain ⟨taken, hfed, hout⟩ := h
  refine ⟨taken, ?_, hout⟩
  rw [← List.append_assoc]
  exact hfed.append (.refl more)

theorem Passed.serve {a : α} {b : β} (h : Passed R fed (a :: queue) out) (hab : R a b) :
    Passed R fed queue (out ++ [b]) := by
  obtain ⟨taken, hfed, hout⟩ := h
  exact ⟨taken ++ [a], by simpa using hfed, rel_append hout (.cons hab .nil)⟩

theorem Passed.lose {rest : List α} (h : Passed R fed queue out) (hrest : rest <+ queue) : Passed R fed rest out := by
  obtain ⟨taken, hfed, hout⟩ := h
  exact ⟨taken, ((List.Sublist.refl taken).append hrest).trans hfed, hout⟩

/-- **Nothing is invented, duplicated or reordered.** -/
theorem Passed.among (h : Passed R fed queue out) : SublistForall₂ (fun b a => R a b) out fed := by
  obtain ⟨taken, hfed, hout⟩ := h
  exact sublistForall₂_iff.2 ⟨taken, hout.flip, (sublist_append_left taken queue).trans hfed⟩

/-- What a predicate selects on both sides. -/
theorem sublistForall₂_filter {S : β → α → Prop} {f : β → Bool} {g : α → Bool} {l : List β} {m : List α}
    (hfg : ∀ b a, S b a → f b = g a) (h : SublistForall₂ S l m) : SublistForall₂ S (l.filter f) (m.filter g) := by
  induction h with
  | nil => exact .nil
  | @cons b a _ _ hab _ ih =>
    have hsame := hfg b a hab
    cases hg : g a with
    | true =>
      rw [filter_cons_of_pos (hsame.trans hg), filter_cons_of_pos hg]
      exact .cons hab ih
    | false =>
      rw [filter_cons_of_neg (by simp [hsame, hg]), filter_cons_of_neg (by simp [hg])]
      exact ih
  | @cons_right a _ _ _ ih =>
    cases hg : g a with
    | true =>
      rw [filter_cons_of_pos hg]
      exact .cons_right ih
    | false =>
      rw [filter_cons_of_neg (by simp [hg])]
      exact ih

end Fifo
