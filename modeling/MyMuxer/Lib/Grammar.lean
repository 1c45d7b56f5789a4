import Mathlib.Tactic

/-!
# Readers of a language

* `View`: the states of a reader that are sound, and what is left to read in one.
* `Reads V checked m L`: in a sound state `m` reads a word of `L a` and returns `a`, whatever follows; where it is
  `checked`, it returns nothing else.
* `Reads.pure`, `Reads.bind`, `Reads.lift`, `Reads.congr`: languages of composed readers.
* `Coded`: the language of the encodings of some data, each with what a reader keeps of the data; `Reads.seq`,
  `Reads.map`, `Reads.times`, `Reads.recode`.
* `Keeps P m`: where `m` returns, `P` holds of the state still.
-/

namespace Grammar

variable {σ τ ε α β γ : Type}

structure View (σ τ : Type) where
  Sound : σ → Prop
  rest : σ → List τ

structure Reads (V : View σ τ) (checked : Prop) (m : StateT σ (Except ε) α) (L : α → List τ → Prop) : Prop where
  complete : ∀ {s a w more}, V.Sound s → L a w → V.rest s = w ++ more →
    ∃ s', m s = .ok (a, s') ∧ V.Sound s' ∧ V.rest s' = more
  sound : checked → ∀ {s a s'}, V.Sound s → m s = .ok (a, s') →
    V.Sound s' ∧ ∃ w, L a w ∧ V.rest s = w ++ V.rest s'

/-- A word of one language and, behind it, one of a language that depends on what was read. -/
def Seq (L : α → List τ → Prop) (M : α → β → List τ → Prop) (b : β) (w : List τ) : Prop :=
  ∃ a u v, L a u ∧ M a b v ∧ w = u ++ v

/-- The empty word. -/
def Nothing (a b : α) (w : List τ) : Prop := b = a ∧ w = []

variable {V : View σ τ} {checked : Prop} {m : StateT σ (Except ε) α} {L L' : α → List τ → Prop}

theorem Reads.congr (h : Reads V checked m L) (hL : ∀ a w, L' a w ↔ L a w) : Reads V checked m L' where
  complete hs hw := h.complete hs ((hL _ _).1 hw)
  sound hc _ _ _ hs he := by
    obtain ⟨hs', w, hw, hrest⟩ := h.sound hc hs he
    exact ⟨hs', w, (hL _ _).2 hw, hrest⟩

theorem Reads.pure (a : α) : Reads V checked (Pure.pure a : StateT σ (Except ε) α) (Nothing a) where
  complete := by
    rintro s b w more hs ⟨rfl, rfl⟩ hrest
    exact ⟨s, rfl, hs, hrest⟩
  sound := by
    rintro - s b s' hs he
    cases he
    exact ⟨hs, [], ⟨rfl, rfl⟩, rfl⟩

theorem Reads.bind {f : α → StateT σ (Except ε) β} {M : α → β → List τ → Prop} (h : Reads V checked m L)
    (hf : ∀ a u, L a u → Reads V checked (f a) (M a)) : Reads V checked (m >>= f) (Seq L M) where
  complete := by
    rintro s b w more hs ⟨a, u, v, hu, hv, rfl⟩ hrest
    rw [List.append_assoc] at hrest
    obtain ⟨s', he, hs', hrest'⟩ := h.complete hs hu hrest
    obtain ⟨s'', he', hs'', hrest''⟩ := (hf a u hu).complete hs' hv hrest'
    refine ⟨s'', ?_, hs'', hrest''⟩
    change (m s >>= fun x => f x.1 x.2) = _
    rw [he]
    exact he'
  sound := by
    intro hc s b s'' hs he
    change (m s >>= fun x => f x.1 x.2) = _ at he
    cases hm : m s with
    | error e =>
      rw [hm] at he
      cases he
    | ok x =>
      rw [hm] at he
      obtain ⟨hs', u, hu, hrest⟩ := h.sound hc hs hm
      obtain ⟨hs'', v, hv, hrest'⟩ := (hf x.1 u hu).sound hc hs' he
      exact ⟨hs'', u ++ v, ⟨x.1, u, v, hu, hv, rfl⟩, by rw [hrest, hrest', List.append_assoc]⟩

/-- A computation that does not read. -/
theorem Reads.lift (x : Except ε α) :
    Reads V checked (liftM x : StateT σ (Except ε) α) fun a w => x = .ok a ∧ w = [] where
  complete := by
    rintro s a w more hs ⟨rfl, rfl⟩ hrest
    exact ⟨s, rfl, hs, hrest⟩
  sound := by
    rintro - s a s' hs he
    cases x with
    | error e => cases he
    | ok b =>
      cases he
      exact ⟨hs, [], ⟨rfl, rfl⟩, rfl⟩

/-! ## Encodings of data -/

/-- The encodings `enc` of data that `fits`, with what is kept of them. -/
def Coded {X : Type} (fits : X → Prop) (enc : X → List τ) (kept : X → α) (a : α) (w : List τ) : Prop :=
  ∃ x, fits x ∧ a = kept x ∧ w = enc x

section Coded

variable {X Y R : Type} {fits : X → Prop} {enc : X → List τ} {kept : X → α}

theorem Reads.run (h : Reads V checked m (Coded fits enc kept)) {s : σ} {more : List τ} (x : X) (hs : V.Sound s)
    (hx : fits x) (hrest : V.rest s = enc x ++ more) :
    ∃ s', m s = .ok (kept x, s') ∧ V.Sound s' ∧ V.rest s' = more :=
  h.complete hs ⟨x, hx, rfl, rfl⟩ hrest

/-- One encoding behind another, which may depend on it. -/
theorem Reads.seq {f : α → StateT σ (Except ε) β} {fits' : X → Y → Prop} {enc' : X → Y → List τ} {kept' : X → Y → β}
    (h : Reads V checked m (Coded fits enc kept))
    (hf : ∀ x, fits x → Reads V checked (f (kept x)) (Coded (fits' x) (enc' x) (kept' x))) :
    Reads V checked (m >>= f) (Coded (fun p : X × Y => fits p.1 ∧ fits' p.1 p.2) (fun p => enc p.1 ++ enc' p.1 p.2)
      fun p => kept' p.1 p.2) where
  complete := by
    rintro s b w more hs ⟨⟨x, y⟩, ⟨hx, hy⟩, rfl, rfl⟩ hrest
    rw [List.append_assoc] at hrest
    obtain ⟨s', he, hs', hrest'⟩ := h.run x hs hx hrest
    obtain ⟨s'', he', hs'', hrest''⟩ := (hf x hx).run y hs' hy hrest'
    refine ⟨s'', ?_, hs'', hrest''⟩
    change (m s >>= fun r => f r.1 r.2) = _
    rw [he]
    exact he'
  sound := by
    intro hc s b s'' hs he
    change (m s >>= fun r => f r.1 r.2) = _ at he
    cases hm : m s with
    | error e =>
      rw [hm] at he
      cases he
    | ok r =>
      rw [hm] at he
      obtain ⟨a, s'⟩ := r
      obtain ⟨hs', u, ⟨x, hx, rfl, rfl⟩, hrest⟩ := h.sound hc hs hm
      obtain ⟨hs'', v, ⟨y, hy, rfl, rfl⟩, hrest'⟩ := (hf x hx).sound hc hs' he
      exact ⟨hs'', _, ⟨(x, y), ⟨hx, hy⟩, rfl, rfl⟩, by rw [hrest, hrest', List.append_assoc]⟩

/-- What is kept, put to use. -/
theorem Reads.map (g : α → β) (h : Reads V checked m (Coded fits enc kept)) :
    Reads V checked (m >>= fun a => Pure.pure (g a)) (Coded fits enc fun x => g (kept x)) where
  complete := by
    rintro s b w more hs ⟨x, hx, rfl, rfl⟩ hrest
    obtain ⟨s', he, hs', hrest'⟩ := h.run x hs hx hrest
    refine ⟨s', ?_, hs', hrest'⟩
    change (m s >>= fun r => Except.ok (g r.1, r.2)) = _
    rw [he]
    rfl
  sound := by
    intro hc s b s'' hs he
    change (m s >>= fun r => Except.ok (g r.1, r.2)) = _ at he
    cases hm : m s with
    | error e =>
      rw [hm] at he
      cases he
    | ok r =>
      rw [hm] at he
      obtain ⟨a, s'⟩ := r
      obtain ⟨hs', w, ⟨x, hx, rfl, rfl⟩, hrest⟩ := h.sound hc hs hm
      cases he
      exact ⟨hs', _, ⟨x, hx, rfl, rfl⟩, hrest⟩

/-- The same encodings, of data of another type. -/
theorem Reads.recode {fits' : R → Prop} {enc' : R → List τ} {kept' : R → α} (h : Reads V checked m (Coded fits enc kept))
    (parts : R → X) (whole : X → R) (hparts : ∀ x, fits x → parts (whole x) = x) (hfits : ∀ r, fits' r ↔ fits (parts r))
    (henc : ∀ r, enc' r = enc (parts r)) (hkept : ∀ r, kept' r = kept (parts r)) :
    Reads V checked m (Coded fits' enc' kept') := by
  refine h.congr fun a w => ⟨?_, ?_⟩
  · rintro ⟨r, hr, rfl, rfl⟩
    exact ⟨parts r, (hfits r).1 hr, hkept r, henc r⟩
  · rintro ⟨x, hx, rfl, rfl⟩
    have hx' := hparts x hx
    refine ⟨whole x, (hfits _).2 ?_, ?_, ?_⟩
    · rwa [hx']
    · rw [hkept, hx']
    · rw [henc, hx']

/-- `m`, so many times. -/
def times (m : StateT σ (Except ε) α) : ℕ → StateT σ (Except ε) (List α)
  | 0 => Pure.pure []
  | n + 1 => do
    let a ← m
    let l ← times m n
    return a :: l

theorem Reads.times (h : Reads V checked m (Coded fits enc kept)) (n : ℕ) :
    Reads V checked (Grammar.times m n) (Coded (fun l : List X => l.length = n ∧ ∀ x ∈ l, fits x)
      (fun l => l.flatMap enc) fun l => l.map kept) := by
  induction n with
  | zero =>
    refine (Reads.pure []).congr fun l w => ⟨?_, ?_⟩
    · rintro ⟨l, ⟨hl, -⟩, rfl, rfl⟩
      rw [List.eq_nil_of_length_eq_zero hl]
      exact ⟨rfl, rfl⟩
    · rintro ⟨rfl, rfl⟩
      exact ⟨[], ⟨rfl, fun _ h => nomatch h⟩, rfl, rfl⟩
  | succ n ih =>
    refine (h.seq fun x _ => ih.map (kept x :: ·)).congr fun l w => ⟨?_, ?_⟩
    · rintro ⟨l, ⟨hl, hfits⟩, rfl, rfl⟩
      match l, hl with
      | x :: l, hl =>
        exact ⟨(x, l), ⟨hfits x List.mem_cons_self, Nat.succ.inj hl, fun y hy => hfits y (List.mem_cons_of_mem x hy)⟩,
          rfl, rfl⟩
    · rintro ⟨⟨x, l⟩, ⟨hx, hl, hfits⟩, rfl, rfl⟩
      exact ⟨x :: l, ⟨congrArg Nat.succ hl, List.forall_mem_cons.2 ⟨hx, hfits⟩⟩, rfl, rfl⟩

end Coded

/-! ## What a reader keeps of its state -/

section Keeps

/-- Where `m` returns, `P` holds still. -/
def Keeps (P : σ → Prop) (m : StateT σ (Except ε) α) : Prop := ∀ s x, P s → m s = .ok x → P x.2

variable {P : σ → Prop} {f : α → StateT σ (Except ε) β}

theorem Keeps.pure (a : α) : Keeps P (Pure.pure a : StateT σ (Except ε) α) := fun s x hs he => by
  obtain rfl : (a, s) = x := Except.ok.inj he
  exact hs

theorem Keeps.lift (x : Except ε α) : Keeps P (liftM x : StateT σ (Except ε) α) := fun s y hs he => by
  cases x with
  | error e => cases he
  | ok a =>
    cases he
    exact hs

theorem Keeps.bind (h : Keeps P m) (hf : ∀ a, Keeps P (f a)) : Keeps P (m >>= f) := fun s y hs he => by
  change (m s >>= fun x => f x.1 x.2) = _ at he
  cases hm : m s with
  | error e =>
    rw [hm] at he
    cases he
  | ok x =>
    rw [hm] at he
    exact hf x.1 x.2 y (h s x hs hm) he

theorem Keeps.ite {c : Prop} [Decidable c] {n : StateT σ (Except ε) α} (h : Keeps P m) (h' : Keeps P n) :
    Keeps P (if c then m else n) := by
  split_ifs
  · exact h
  · exact h'

end Keeps

end Grammar
