import Mathlib.Control.Monad.Basic
import Mathlib.Logic.Basic

/-!
# The errors that a computation ends in

* `Raises P x`: an error that `x` ends in is in `P`; `Raises.bind` and its like compose it.
* `RunRaises P m`: from every state `m` ends in no other error.
-/

namespace Errors

variable {σ ε α β : Type} {P : ε → Prop}

variable (P) in
def Raises (x : Except ε α) : Prop := ∀ e, x = .error e → P e

theorem raises_ok (a : α) : Raises P (.ok a) := fun _ h => (nomatch h)

theorem raises_error {e : ε} (h : P e) : Raises P (.error e : Except ε α) := fun _ he => Except.error.inj he ▸ h

theorem Raises.bind_of_ok {x : Except ε α} {f : α → Except ε β} (h : Raises P x)
    (hf : ∀ a, x = .ok a → Raises P (f a)) : Raises P (x >>= f) := by
  cases x with
  | error e => exact raises_error (h e rfl)
  | ok a => exact hf a rfl

theorem Raises.bind {x : Except ε α} {f : α → Except ε β} (h : Raises P x) (hf : ∀ a, Raises P (f a)) :
    Raises P (x >>= f) := h.bind_of_ok fun a _ => hf a

theorem Raises.ite {c : Prop} [Decidable c] {x y : Except ε α} (h : Raises P x) (h' : Raises P y) :
    Raises P (if c then x else y) := by
  split_ifs
  · exact h
  · exact h'

variable (P) in
def RunRaises (m : StateT σ (Except ε) α) : Prop := ∀ s, Raises P (m s)

theorem RunRaises.pure (a : α) : RunRaises P (Pure.pure a : StateT σ (Except ε) α) := fun s => raises_ok (a, s)

theorem RunRaises.bind {m : StateT σ (Except ε) α} {f : α → StateT σ (Except ε) β} (h : RunRaises P m)
    (hf : ∀ a, RunRaises P (f a)) : RunRaises P (m >>= f) := fun s => (h s).bind fun x => hf x.1 x.2

theorem RunRaises.lift {x : Except ε α} (h : Raises P x) : RunRaises P (liftM x : StateT σ (Except ε) α) := fun s =>
  h.bind fun a => raises_ok (a, s)

theorem RunRaises.ite {c : Prop} [Decidable c] {m n : StateT σ (Except ε) α} (h : RunRaises P m) (h' : RunRaises P n) :
    RunRaises P (if c then m else n) := by
  split_ifs
  · exact h
  · exact h'

/-! ## Runs -/

section Runs

variable {ι : Type} {step step' : σ → ι → Except ε (β × σ)} {C C' : σ → ι → Prop} {s : σ} {l : List ι}

variable (step) in
/-- Step after step, until one ends in an error. -/
def run : σ → List ι → Except ε (List β × σ)
  | s, [] => .ok ([], s)
  | s, i :: l => step s i >>= fun x => run x.2 l >>= fun y => .ok (x.1 :: y.1, y.2)

variable (step C) in
/-- Every step of a run meets a condition on the state before it and its input. -/
def Along : σ → List ι → Prop
  | _, [] => True
  | s, i :: l => C s i ∧ ∀ b s', step s i = .ok (b, s') → Along s' l

theorem run_cons_eq_ok {i : ι} {y : List β × σ} : run step s (i :: l) = .ok y ↔
    ∃ x, step s i = .ok x ∧ ∃ y', run step x.2 l = .ok y' ∧ y = (x.1 :: y'.1, y'.2) := by
  rw [run]
  cases step s i with
  | error e => exact iff_of_false (fun h => (nomatch h)) fun ⟨_, h, _⟩ => (nomatch h)
  | ok x =>
    change (run step x.2 l >>= _) = _ ↔ _
    cases hrun : run step x.2 l with
    | error e =>
      refine iff_of_false (fun h => (nomatch h)) ?_
      rintro ⟨_, ⟨rfl⟩, y', hy', -⟩
      exact absurd (hrun.symm.trans hy') (fun h => (nomatch h))
    | ok y' =>
      constructor
      · rintro ⟨rfl⟩
        exact ⟨x, rfl, y', hrun, rfl⟩
      · rintro ⟨_, ⟨rfl⟩, y'', hy'', rfl⟩
        obtain rfl : y' = y'' := Except.ok.inj (hrun.symm.trans hy'')
        rfl

/-- A run that goes on. -/
theorem run_append_eq_ok {m : List ι} {y : List β × σ} : run step s (l ++ m) = .ok y ↔
    ∃ y', run step s l = .ok y' ∧ ∃ y'', run step y'.2 m = .ok y'' ∧ y = (y'.1 ++ y''.1, y''.2) := by
  induction l generalizing s y with
  | nil => exact ⟨fun h => ⟨([], s), rfl, y, h, rfl⟩, by rintro ⟨_, ⟨rfl⟩, y'', h, rfl⟩; exact h⟩
  | cons i l ih =>
    rw [List.cons_append, run_cons_eq_ok]
    constructor
    · rintro ⟨x, hx, y', hy', rfl⟩
      obtain ⟨z, hz, z', hz', rfl⟩ := ih.1 hy'
      exact ⟨_, run_cons_eq_ok.2 ⟨x, hx, z, hz, rfl⟩, z', hz', rfl⟩
    · rintro ⟨_, hrun, z', hz', rfl⟩
      obtain ⟨x, hx, z, hz, rfl⟩ := run_cons_eq_ok.1 hrun
      exact ⟨x, hx, _, ih.2 ⟨z, hz, z', hz', rfl⟩, rfl⟩

/-- What each step keeps holds in the end, and what each shows holds of all results. -/
theorem run_invariant {I : σ → Prop} {D : ι → Prop} {Q : β → Prop} {y : List β × σ}
    (hstep : ∀ {s i b s'}, I s → D i → step s i = .ok (b, s') → I s' ∧ Q b) (hs : I s) (hl : ∀ i ∈ l, D i)
    (hy : run step s l = .ok y) : I y.2 ∧ ∀ b ∈ y.1, Q b := by
  induction l generalizing s y with
  | nil =>
    cases hy
    exact ⟨hs, fun b hb => (nomatch hb)⟩
  | cons i l ih =>
    obtain ⟨hi, hl⟩ := List.forall_mem_cons.1 hl
    obtain ⟨x, hx, y', hy', rfl⟩ := run_cons_eq_ok.1 hy
    obtain ⟨hs', hb⟩ := hstep hs hi hx
    obtain ⟨hend, hall⟩ := ih hs' hl hy'
    exact ⟨hend, List.forall_mem_cons.2 ⟨hb, hall⟩⟩

theorem Along.raises (hstep : ∀ s i, C s i → Raises P (step s i)) (h : Along step C s l) : Raises P (run step s l) := by
  induction l generalizing s with
  | nil => exact raises_ok _
  | cons i l ih => exact (hstep s i h.1).bind_of_ok fun x hx => (ih (h.2 x.1 x.2 hx)).bind fun y => raises_ok _

/-- A condition that is necessary for a step is so along a run. -/
theorem along_of_raises (hstep : ∀ s i, Raises P (step s i) → C s i) (h : Raises P (run step s l)) :
    Along step C s l := by
  induction l generalizing s with
  | nil => trivial
  | cons i l ih =>
    refine ⟨hstep s i fun e he => h e ?_, fun b s' hs' => ih fun e he => h e ?_⟩
    · rw [run, he]
      rfl
    · rw [run, hs']
      change run step s' l >>= _ = _
      rw [he]
      rfl

/-- The runs of one system, as far as they come, are runs of the other. -/
theorem Along.of_le (hle : ∀ s i x, step s i = .ok x → step' s i = .ok x) (h : Along step' C s l) :
    Along step C s l := by
  induction l generalizing s with
  | nil => trivial
  | cons i l ih => exact ⟨h.1, fun b s' hs' => ih (h.2 b s' (hle s i _ hs'))⟩

/-- All of some systems run to the same end if and only if each step of each is one of all. The runs of `base` are runs
of all of them. -/
theorem run_eq_iff {A : Type} (base : A) (system : A → σ → ι → Except ε (β × σ))
    (hbase : ∀ s i x, system base s i = .ok x → ∀ a, system a s i = .ok x)
    (hstep : ∀ s i, (∃ x, ∀ a, system a s i = .ok x) ↔ C s i) :
    (∃ y, ∀ a, run (system a) s l = .ok y) ↔ ∀ a, Along (system a) C s l := by
  induction l generalizing s with
  | nil => exact iff_of_true ⟨_, fun _ => rfl⟩ fun _ => trivial
  | cons i l ih =>
    constructor
    · rintro ⟨y, hy⟩ a
      obtain ⟨x, hx, -⟩ := run_cons_eq_ok.1 (hy base)
      have hall := hbase s i x hx
      have hrest (a : A) : run (system a) x.2 l = .ok (y.1.tail, y.2) := by
        obtain ⟨x', hx', y', hy', he⟩ := run_cons_eq_ok.1 (hy a)
        obtain rfl : x = x' := Except.ok.inj ((hall a).symm.trans hx')
        rw [hy', he]
        rfl
      refine ⟨(hstep s i).1 ⟨x, hall⟩, fun b s' hs' => ?_⟩
      obtain rfl : x = (b, s') := Except.ok.inj ((hall a).symm.trans hs')
      exact ih.1 ⟨_, hrest⟩ a
    · intro h
      obtain ⟨x, hx⟩ := (hstep s i).2 (h base).1
      obtain ⟨y, hy⟩ := ih.2 fun a => (h a).2 x.1 x.2 (hx a)
      exact ⟨_, fun a => run_cons_eq_ok.2 ⟨x, hx a, y, hy a, rfl⟩⟩

end Runs

end Errors
