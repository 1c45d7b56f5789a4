import Mathlib.Data.List.Basic
import Mathlib.Tactic.TypeStar

/-!
# Calls in flight

A state that calls share, each call at a program point of its own, and steps of one call at a time.

* `Cfg`, `Cfg.request`, `Cfg.run`: the state and the calls, new calls, the next step of a call.
* `mem_set`, `mem_set_of_ne`: which calls there are after a step.
* **`Every.run`**: an assertion about every call is kept by a step that keeps it for its own call and
  does not interfere with the others; `Every.request`, `Every.shared`.
* **`Exclusive.run`**: a lock per key is taken exactly while one call holds it; `Exclusive.request`,
  `Exclusive.shared`.
* `Kept.run`: a thing in store or in the hands of a call stays so; `Kept.request`, `Kept.shared`.
-/

namespace Calls

variable {σ π ι κ ξ : Type*}

/-- The shared state, and the program point of each call. -/
structure Cfg (σ π : Type*) where
  shared : σ
  calls : List π

/-- New calls. -/
def Cfg.request (c : Cfg σ π) (ps : List π) : Cfg σ π := { c with calls := c.calls ++ ps }

/-- The next step of call number `t`, with an input from outside. -/
def Cfg.run (step : σ → ℕ → π → ι → Option (σ × π)) (c : Cfg σ π) (t : ℕ) (i : ι) : Option (Cfg σ π) :=
  c.calls[t]?.bind fun p => (step c.shared t p i).map fun (shared, p') =>
    { shared, calls := c.calls.set t p' }

variable {step : σ → ℕ → π → ι → Option (σ × π)} {c c' : Cfg σ π} {calls : List π} {s : σ} {t : ℕ}
  {p p' q : π} {i : ι}

theorem Cfg.run_eq_some : c.run step t i = some c' ↔ ∃ p s p', c.calls[t]? = some p ∧
    step c.shared t p i = some (s, p') ∧ c' = { shared := s, calls := c.calls.set t p' } := by
  simp only [Cfg.run, Option.bind_eq_some_iff, Option.map_eq_some_iff]
  constructor
  · rintro ⟨p, hp, ⟨s, p'⟩, hs, rfl⟩
    exact ⟨p, s, p', hp, hs, rfl⟩
  · rintro ⟨p, s, p', hp, hs, rfl⟩
    exact ⟨p, hp, ⟨s, p'⟩, hs, rfl⟩

/-! ## The calls after a step -/

theorem mem_set_self (hp : calls[t]? = some p) : p' ∈ calls.set t p' :=
  List.mem_set (List.getElem?_eq_some_iff.1 hp).1 p'

/-- A call is the one that has taken the step, or one of the others. -/
theorem mem_set (hp : calls[t]? = some p) (hq : q ∈ calls.set t p') :
    q = p' ∨ ∃ u, u ≠ t ∧ calls[u]? = some q := by
  obtain ⟨u, hu⟩ := List.mem_iff_getElem?.1 hq
  by_cases hut : u = t
  · subst hut
    rw [List.getElem?_set_self (List.getElem?_eq_some_iff.1 hp).1] at hu
    exact .inl (Option.some.inj hu).symm
  · rw [List.getElem?_set_ne (Ne.symm hut)] at hu
    exact .inr ⟨u, hut, hu⟩

/-- The other calls stay where they are. -/
theorem mem_set_of_getElem? {u : ℕ} (hut : u ≠ t) (hq : calls[u]? = some q) : q ∈ calls.set t p' :=
  List.mem_iff_getElem?.2 ⟨u, (List.getElem?_set_ne (Ne.symm hut)).trans hq⟩

theorem mem_set_of_ne (hp : calls[t]? = some p) (hq : q ∈ calls) (hne : q ≠ p) : q ∈ calls.set t p' := by
  obtain ⟨u, hu⟩ := List.mem_iff_getElem?.1 hq
  refine mem_set_of_getElem? ?_ hu
  rintro rfl
  exact hne (Option.some.inj (hu.symm.trans hp))

theorem getElem?_set {u : ℕ} (hp : calls[t]? = some p) : (calls.set t p')[u]? = some q ↔
    (u = t ∧ q = p') ∨ (u ≠ t ∧ calls[u]? = some q) := by
  by_cases hut : u = t
  · subst hut
    rw [List.getElem?_set_self (List.getElem?_eq_some_iff.1 hp).1]
    simp [eq_comm]
  · rw [List.getElem?_set_ne (Ne.symm hut)]
    simp [hut]

theorem getElem?_append_of_not_mem {ps : List π} (hq : q ∉ ps) {u : ℕ} :
    (calls ++ ps)[u]? = some q ↔ calls[u]? = some q := by
  rw [List.getElem?_append]
  split_ifs with hu
  · rfl
  · rw [List.getElem?_eq_none (Nat.le_of_not_lt hu)]
    exact ⟨fun h => absurd (List.mem_of_getElem? h) hq, fun h => by cases h⟩

theorem Cfg.getElem?_request {ps : List π} (hq : c.calls[t]? = some q) : (c.request ps).calls[t]? = some q :=
  (List.getElem?_append_left (List.getElem?_eq_some_iff.1 hq).1).trans hq

/-! ## Assertions -/

/-- Every call is where `P` allows it to be. -/
def Every (P : σ → π → Prop) (c : Cfg σ π) : Prop := ∀ p ∈ c.calls, P c.shared p

variable {P : σ → π → Prop}

theorem Every.request (h : Every P c) {ps : List π} (hp : ∀ p ∈ ps, P c.shared p) : Every P (c.request ps) := by
  intro q hq
  rcases List.mem_append.1 hq with hq | hq
  · exact h q hq
  · exact hp q hq

/-- Something else changes the shared state. -/
theorem Every.shared (h : Every P c) (hs : ∀ p, P c.shared p → P s p) : Every P { c with shared := s } :=
  fun p hp => hs p (h p hp)

/-- **A step that keeps the assertion of its own call, and does not interfere with those of the others,
keeps them all.** -/
theorem Every.run (h : Every P c) (hp : c.calls[t]? = some p) (hown : P s p')
    (hothers : ∀ u q, u ≠ t → c.calls[u]? = some q → P c.shared q → P s q) :
    Every P { shared := s, calls := c.calls.set t p' } := by
  intro q hq
  rcases mem_set hp hq with rfl | ⟨u, hut, hu⟩
  · exact hown
  · exact hothers u q hut hu (h q (List.mem_of_getElem? hu))

/-! ## Locks -/

/-- A lock is taken exactly while one call holds it. -/
structure Exclusive (taken : σ → κ → Prop) (holds : π → Option κ) (c : Cfg σ π) : Prop where
  taken_iff : ∀ k, taken c.shared k ↔ ∃ (t : ℕ) (p : π), c.calls[t]? = some p ∧ holds p = some k
  unique : ∀ (t u : ℕ) (p q : π) (k : κ), c.calls[t]? = some p → c.calls[u]? = some q →
    holds p = some k → holds q = some k → t = u

/-- A step takes a lock that is free, drops the one its call holds, or does neither. -/
inductive Locks (taken : σ → κ → Prop) (holds : π → Option κ) (s : σ) (p : π) (s' : σ) (p' : π) : Prop where
  | takes (k : κ) : holds p = none → holds p' = some k → ¬ taken s k →
      (∀ j, taken s' j ↔ j = k ∨ taken s j) → Locks taken holds s p s' p'
  | drops (k : κ) : holds p = some k → holds p' = none →
      (∀ j, taken s' j ↔ j ≠ k ∧ taken s j) → Locks taken holds s p s' p'
  | keeps : holds p' = holds p → (∀ j, taken s' j ↔ taken s j) → Locks taken holds s p s' p'

variable {taken : σ → κ → Prop} {holds : π → Option κ}

theorem Exclusive.request (h : Exclusive taken holds c) {ps : List π} (hp : ∀ p ∈ ps, holds p = none) :
    Exclusive taken holds (c.request ps) := by
  have hget : ∀ {u : ℕ} {q : π} {k : κ}, holds q = some k →
      ((c.request ps).calls[u]? = some q ↔ c.calls[u]? = some q) := by
    intro u q k hq
    refine getElem?_append_of_not_mem fun hmem => ?_
    rw [hp q hmem] at hq
    cases hq
  refine ⟨fun k => ?_, fun t u p₁ q k h₁ h₂ hk hk' => ?_⟩
  · refine (h.taken_iff k).trans (exists₂_congr fun u q => ?_)
    exact and_congr_left fun hq => (hget hq).symm
  · exact h.unique t u p₁ q k ((hget hk).1 h₁) ((hget hk').1 h₂) hk hk'

theorem Exclusive.shared (h : Exclusive taken holds c) (hs : ∀ k, taken s k ↔ taken c.shared k) :
    Exclusive taken holds { c with shared := s } :=
  ⟨fun k => (hs k).trans (h.taken_iff k), h.unique⟩

/-- **A lock is taken exactly while one call holds it.** -/
theorem Exclusive.run (h : Exclusive taken holds c) (hp : c.calls[t]? = some p)
    (hs : Locks taken holds c.shared p s p') :
    Exclusive taken holds { shared := s, calls := c.calls.set t p' } := by
  have hget {u : ℕ} {q : π} : (c.calls.set t p')[u]? = some q ↔
      (u = t ∧ q = p') ∨ (u ≠ t ∧ c.calls[u]? = some q) := getElem?_set hp
  -- the others hold what they held, and not what call `t` has just taken
  have hother : ∀ (u : ℕ) (q : π) (k : κ), u ≠ t → c.calls[u]? = some q → holds q = some k → holds p' ≠ some k := by
    intro u q k hut hq hk hp'
    cases hs with
    | takes j hnone hsome hfree =>
      obtain rfl : j = k := Option.some.inj (hsome.symm.trans hp')
      exact hfree ((h.taken_iff j).2 ⟨u, q, hq, hk⟩)
    | drops j _ hnone =>
      rw [hnone] at hp'
      cases hp'
    | keeps hsame => exact hut (h.unique u t q p k hq hp hk (hsame ▸ hp'))
  refine ⟨fun k => ?_, fun u v q r k hu hv hq hr => ?_⟩
  · have hiff : (∃ (u : ℕ) (q : π), (c.calls.set t p')[u]? = some q ∧ holds q = some k) ↔
        holds p' = some k ∨ ∃ (u : ℕ) (q : π), u ≠ t ∧ c.calls[u]? = some q ∧ holds q = some k := by
      constructor
      · rintro ⟨u, q, hu, hq⟩
        rcases hget.1 hu with ⟨-, rfl⟩ | ⟨hut, hu⟩
        · exact .inl hq
        · exact .inr ⟨u, q, hut, hu, hq⟩
      · rintro (hk | ⟨u, q, hut, hu, hq⟩)
        · exact ⟨t, p', hget.2 (.inl ⟨rfl, rfl⟩), hk⟩
        · exact ⟨u, q, hget.2 (.inr ⟨hut, hu⟩), hq⟩
    have hbefore : taken c.shared k ↔
        holds p = some k ∨ ∃ (u : ℕ) (q : π), u ≠ t ∧ c.calls[u]? = some q ∧ holds q = some k := by
      rw [h.taken_iff]
      constructor
      · rintro ⟨u, q, hu, hq⟩
        by_cases hut : u = t
        · subst hut
          cases hp.symm.trans hu
          exact .inl hq
        · exact .inr ⟨u, q, hut, hu, hq⟩
      · rintro (hk | ⟨u, q, -, hu, hq⟩)
        · exact ⟨t, p, hp, hk⟩
        · exact ⟨u, q, hu, hq⟩
    refine Iff.trans ?_ hiff.symm
    cases hs with
    | takes j hnone hsome hfree htaken =>
      rw [htaken, hbefore, hnone, hsome]
      simp [eq_comm]
    | drops j hsome hnone htaken =>
      rw [htaken, hbefore, hnone, hsome]
      constructor
      · rintro ⟨hne, heq | hothers⟩
        · exact absurd (Option.some.inj heq).symm hne
        · exact .inr hothers
      · rintro (hk | ⟨u, q, hut, hu, hq⟩)
        · cases hk
        · refine ⟨?_, .inr ⟨u, q, hut, hu, hq⟩⟩
          rintro rfl
          exact hut (h.unique u t q p k hu hp hq hsome)
    | keeps hsame htaken => rw [htaken, hbefore, hsame]
  · rcases hget.1 hu with ⟨rfl, rfl⟩ | ⟨hut, hu'⟩ <;> rcases hget.1 hv with ⟨rfl, rfl⟩ | ⟨hvt, hv'⟩
    · rfl
    · exact absurd hq (hother v r k hvt hv' hr)
    · exact absurd hr (hother u q k hut hu' hq)
    · exact h.unique u v q r k hu' hv' hq hr

/-! ## Things in store and in hand -/

/-- The thing is in store, or in the hands of a call. -/
def Kept (stored : σ → ξ → Prop) (inHand : π → ξ → Prop) (c : Cfg σ π) (x : ξ) : Prop :=
  stored c.shared x ∨ ∃ p ∈ c.calls, inHand p x

variable {stored : σ → ξ → Prop} {inHand : π → ξ → Prop} {x : ξ}

theorem Kept.request (h : Kept stored inHand c x) (ps : List π) : Kept stored inHand (c.request ps) x :=
  h.imp_right fun ⟨q, hq, hx⟩ => ⟨q, List.mem_append_left _ hq, hx⟩

theorem Kept.shared (h : Kept stored inHand c x) (hs : stored c.shared x → stored s x) :
    Kept stored inHand { c with shared := s } x := h.imp_left hs

/-- A step may put away what its call has in hand and take what is in store. -/
theorem Kept.run (h : Kept stored inHand c x) (hp : c.calls[t]? = some p)
    (hstored : stored c.shared x → stored s x ∨ inHand p' x) (hhand : inHand p x → stored s x ∨ inHand p' x) :
    Kept stored inHand { shared := s, calls := c.calls.set t p' } x := by
  have hp' : p' ∈ c.calls.set t p' := mem_set_self hp
  rcases h with h | ⟨q, hq, hx⟩
  · exact (hstored h).imp_right fun hx => ⟨p', hp', hx⟩
  · obtain ⟨u, hu⟩ := List.mem_iff_getElem?.1 hq
    by_cases hut : u = t
    · subst hut
      cases hp.symm.trans hu
      exact (hhand hx).imp_right fun hx => ⟨p', hp', hx⟩
    · exact .inr ⟨q, mem_set_of_getElem? hut hu, hx⟩

end Calls
