import Mathlib.Data.List.Basic

/-!
# Inputs that only touch a flag

* `Machine`: steps on a state with a flag. An input that is not `Seen` changes the flag alone, and a step
  reads the flag only as its own input leaves it.
* `view`: the inputs that are seen, each with the flag it leaves; `after`: the flag in the end.
* **`foldlM_eq_of_view`**: two lists of inputs with one view that leave one flag make one run.
* `Alike`: the same of two streams of inputs that come in chunks, chunk by chunk.
-/

namespace View

variable {σ α δ ε : Type}

structure Machine (σ α δ ε : Type) where
  step : σ → α → Except ε σ
  flag : σ → δ
  setFlag : δ → σ → σ
  next : δ → α → δ
  Seen : α → Prop
  [decSeen : DecidablePred Seen]
  /-- The states that a run stays in. -/
  Inv : σ → Prop
  flag_setFlag : ∀ d s, flag (setFlag d s) = d
  setFlag_flag : ∀ s, setFlag (flag s) s = s
  setFlag_setFlag : ∀ d d' s, setFlag d (setFlag d' s) = setFlag d s
  setFlag_inv : ∀ {s}, Inv s → ∀ d, Inv (setFlag d s)
  step_unseen : ∀ {s a}, Inv s → ¬ Seen a → step s a = .ok (setFlag (next (flag s) a) s)
  step_seen : ∀ {s a}, Inv s → Seen a → step s a = step (setFlag (next (flag s) a) s) a
  step_inv : ∀ {s a t}, Inv s → step s a = .ok t → Inv t ∧ flag t = next (flag s) a

namespace Machine

variable (m : Machine σ α δ ε)

instance : DecidablePred m.Seen := m.decSeen

/-- The inputs that are seen, each with the flag it leaves. -/
def view : δ → List α → List (α × δ)
  | _, [] => []
  | d, a :: l => if m.Seen a then (a, m.next d a) :: view (m.next d a) l else view (m.next d a) l

/-- The flag after the inputs. -/
def after (d : δ) (l : List α) : δ := l.foldl m.next d

/-- A run on a view: each input finds the flag that it leaves. -/
def run : σ → List (α × δ) → Except ε σ
  | s, [] => .ok s
  | s, (a, d) :: v => m.step (m.setFlag d s) a >>= fun t => run t v

variable {m}

theorem view_append (d : δ) (l l' : List α) : m.view d (l ++ l') = m.view d l ++ m.view (m.after d l) l' := by
  induction l generalizing d with
  | nil => rfl
  | cons a l ih =>
    rw [List.cons_append, view, view, ih]
    split_ifs
    · rfl
    · rfl

theorem after_append (d : δ) (l l' : List α) : m.after d (l ++ l') = m.after (m.after d l) l' :=
  List.foldl_append

/-- But for the flag, a run is the run on its view, whatever flag that one starts with. -/
theorem foldlM_run {s : σ} (hs : m.Inv s) (l : List α) (d d' : δ) :
    (l.foldlM m.step s).map (m.setFlag d) =
      (m.run (m.setFlag d' s) (m.view (m.flag s) l)).map (m.setFlag d) := by
  induction l generalizing s d' with
  | nil => exact congrArg Except.ok (m.setFlag_setFlag d d' s).symm
  | cons a l ih =>
    rw [List.foldlM_cons, view]
    split_ifs with ha
    · rw [run, m.setFlag_setFlag, ← m.step_seen hs ha]
      cases e : m.step s a with
      | error x => rfl
      | ok t =>
        obtain ⟨ht, hflag⟩ := m.step_inv hs e
        have h := ih ht (m.flag t)
        rw [m.setFlag_flag, hflag] at h
        exact h
    · rw [m.step_unseen hs ha]
      have h := ih (m.setFlag_inv hs (m.next (m.flag s) a)) d'
      rw [m.setFlag_setFlag, m.flag_setFlag] at h
      exact h

theorem foldlM_inv {s t : σ} (hs : m.Inv s) {l : List α} (e : l.foldlM m.step s = .ok t) :
    m.Inv t ∧ m.flag t = m.after (m.flag s) l := by
  induction l generalizing s with
  | nil =>
    cases e
    exact ⟨hs, rfl⟩
  | cons a l ih =>
    rw [List.foldlM_cons] at e
    cases ea : m.step s a with
    | error x =>
      rw [ea] at e
      cases e
    | ok u =>
      rw [ea] at e
      obtain ⟨hu, hflag⟩ := m.step_inv hs ea
      obtain ⟨ht, h⟩ := ih hu e
      rw [hflag] at h
      exact ⟨ht, h⟩

/-- **Two lists of inputs with one view that leave one flag make one run.** -/
theorem foldlM_eq_of_view {s : σ} (hs : m.Inv s) {l l' : List α}
    (hview : m.view (m.flag s) l = m.view (m.flag s) l')
    (hafter : m.after (m.flag s) l = m.after (m.flag s) l') : l.foldlM m.step s = l'.foldlM m.step s := by
  have h (d : δ) : (l.foldlM m.step s).map (m.setFlag d) = (l'.foldlM m.step s).map (m.setFlag d) := by
    rw [foldlM_run hs l d d, foldlM_run hs l' d d, hview]
  cases e : l.foldlM m.step s with
  | error x =>
    have h := h (m.flag s)
    rw [e] at h
    cases e' : l'.foldlM m.step s with
    | error y =>
      rw [e'] at h
      cases h
      rfl
    | ok t' =>
      rw [e'] at h
      cases h
  | ok t =>
    obtain ⟨-, ht⟩ := foldlM_inv hs e
    have h := h (m.flag t)
    rw [e] at h
    cases e' : l'.foldlM m.step s with
    | error y =>
      rw [e'] at h
      cases h
    | ok t' =>
      obtain ⟨-, ht'⟩ := foldlM_inv hs e'
      rw [e'] at h
      have h : m.setFlag (m.flag t) t = m.setFlag (m.flag t) t' := Except.ok.inj h
      rw [m.setFlag_flag, ht, hafter, ← ht', m.setFlag_flag] at h
      rw [h]

variable (m)

/-- Chunk by chunk, two streams have one view and leave one flag. -/
inductive Alike : δ → List (List α) → List (List α) → Prop where
  | nil (d : δ) : Alike d [] []
  | cons {d : δ} {a b : List α} {as bs : List (List α)} :
      m.view d a = m.view d b → m.after d a = m.after d b → Alike (m.after d a) as bs →
        Alike d (a :: as) (b :: bs)

variable {m}

/-- What has one view still has it with more before, where that has one view. -/
theorem view_append_congr {d : δ} {l l' a b : List α} (hview : m.view d l = m.view d l')
    (hafter : m.after d l = m.after d l')
    (hv : m.view (m.after d l) a = m.view (m.after d l) b)
    (ha : m.after (m.after d l) a = m.after (m.after d l) b) :
    m.view d (l ++ a) = m.view d (l' ++ b) ∧ m.after d (l ++ a) = m.after d (l' ++ b) := by
  rw [view_append, view_append, after_append, after_append, ← hafter, hview, hv, ha]
  exact ⟨rfl, rfl⟩

end Machine

end View
