import Mathlib.Data.List.Infix
import Mathlib.Logic.Basic
import Mathlib.Tactic.TypeStar

/-!
# Schedules

Runs of a system whose next state is a partial function of its state and an action.

* `run`: a sequence of actions; `Along`: every step of it meets a condition.
* **`invariant`**: what every step that meets the condition keeps, the run keeps; `along_of_invariant`:
  and what follows from it holds at every step of the run; `run_invariant`: the same without a condition.
* `along_and_of_forall`: a condition on every action is one on every step.
* **`never_iff_along`**: a run meets no bad state exactly if all of its steps meet the condition, where the
  condition keeps an invariant that excludes bad states and a step without it leads to one.
-/

namespace Schedule

variable {σ α : Type*} (next : σ → α → Option σ)

/-- A sequence of actions. -/
def run : σ → List α → Option σ
  | s, [] => some s
  | s, a :: as => (next s a).bind fun s' => run s' as

/-- Every step of the run of `as` from `s` meets `P`. -/
def Along (P : σ → α → Prop) : σ → List α → Prop
  | _, [] => True
  | s, a :: as => P s a ∧ match next s a with
    | some s' => Along P s' as
    | none => True

instance decidableAlong {P : σ → α → Prop} [∀ s a, Decidable (P s a)] :
    ∀ (s : σ) (as : List α), Decidable (Along next P s as)
  | _, [] => inferInstanceAs (Decidable True)
  | s, a :: as =>
    match h : next s a with
    | some s' =>
      have : Decidable (Along next P s' as) := decidableAlong s' as
      decidable_of_iff (P s a ∧ Along next P s' as) (by simp [Along, h])
    | none => decidable_of_iff (P s a) (by simp [Along, h])

variable {next} {P Q : σ → α → Prop} {I : σ → Prop}

/-- **What every step that meets the condition keeps, the run keeps.** -/
theorem invariant (hstep : ∀ {s s' a}, I s → next s a = some s' → P s a → I s') :
    ∀ {as : List α} {s s' : σ}, I s → run next s as = some s' → Along next P s as → I s'
  | [], s, s', hi, e, _ => by
    cases e
    exact hi
  | a :: as, s, s', hi, e, hp => by
    obtain ⟨s₁, h₁, e⟩ := Option.bind_eq_some_iff.1 e
    simp only [Along, h₁] at hp
    exact invariant hstep (hstep hi h₁ hp.1) e hp.2

theorem along_of_invariant (hstep : ∀ {s s' a}, I s → next s a = some s' → P s a → I s')
    (hq : ∀ {s a}, I s → P s a → Q s a) :
    ∀ {as : List α} {s : σ}, I s → Along next P s as → Along next Q s as
  | [], _, _, _ => trivial
  | a :: as, s, hi, hp => by
    cases h₁ : next s a with
    | none =>
      simp only [Along, h₁] at hp ⊢
      exact ⟨hq hi hp.1, trivial⟩
    | some s₁ =>
      simp only [Along, h₁] at hp ⊢
      exact ⟨hq hi hp.1, along_of_invariant hstep hq (hstep hi h₁ hp.1) hp.2⟩

theorem along_and_of_forall {R : α → Prop} : ∀ {as : List α} {s : σ}, Along next P s as → (∀ a ∈ as, R a) →
    Along next (fun s a => P s a ∧ R a) s as
  | [], _, _, _ => trivial
  | a :: as, s, hp, hr => by
    have hrest : ∀ b ∈ as, R b := fun b hb => hr b (List.mem_cons_of_mem a hb)
    cases h₁ : next s a with
    | none =>
      simp only [Along, h₁] at hp ⊢
      exact ⟨⟨hp.1, hr a List.mem_cons_self⟩, trivial⟩
    | some s₁ =>
      simp only [Along, h₁] at hp ⊢
      exact ⟨⟨hp.1, hr a List.mem_cons_self⟩, along_and_of_forall hp.2 hrest⟩

theorem run_invariant (hstep : ∀ {s s' a}, I s → next s a = some s' → I s') :
    ∀ {as : List α} {s s' : σ}, I s → run next s as = some s' → I s'
  | [], s, s', hi, e => by
    cases e
    exact hi
  | a :: as, s, s', hi, e => by
    obtain ⟨s₁, h₁, e⟩ := Option.bind_eq_some_iff.1 e
    exact run_invariant hstep (hstep hi h₁) e

theorem never_iff_along {Bad : σ → Prop} (hstep : ∀ {s s' a}, I s → next s a = some s' → P s a → I s')
    (hgood : ∀ {s}, I s → ¬ Bad s) (hbad : ∀ {s a}, I s → ¬ P s a → ∃ s', next s a = some s' ∧ Bad s') :
    ∀ {as : List α} {s : σ}, I s →
      ((∀ bs s', bs <+: as → run next s bs = some s' → ¬ Bad s') ↔ Along next P s as)
  | [], s, hi => by
    refine ⟨fun _ => trivial, fun _ bs s' hbs e => ?_⟩
    rw [List.prefix_nil] at hbs
    subst hbs
    cases e
    exact hgood hi
  | a :: as, s, hi => by
    constructor
    · intro h
      have hp : P s a := by
        by_contra hp
        obtain ⟨s', hs', hb⟩ := hbad hi hp
        refine h [a] s' (List.cons_prefix_cons.2 ⟨rfl, List.nil_prefix⟩) ?_ hb
        simp [run, hs']
      refine ⟨hp, ?_⟩
      cases h₁ : next s a with
      | none => trivial
      | some s₁ =>
        refine (never_iff_along hstep hgood hbad (hstep hi h₁ hp)).1 fun bs s' hbs e => ?_
        exact h (a :: bs) s' (List.cons_prefix_cons.2 ⟨rfl, hbs⟩) (by simp [run, h₁, e])
    · intro hp bs s' hbs e
      cases bs with
      | nil =>
        cases e
        exact hgood hi
      | cons b bs =>
        obtain ⟨rfl, hbs'⟩ := List.cons_prefix_cons.1 hbs
        obtain ⟨s₁, h₁, e⟩ := Option.bind_eq_some_iff.1 e
        simp only [Along, h₁] at hp
        exact (never_iff_along hstep hgood hbad (hstep hi h₁ hp.1)).2 hp.2 bs s' hbs' e

end Schedule
