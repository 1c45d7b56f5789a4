import Mathlib.Data.Nat.Notation
import Mathlib.Data.List.Infix

/-!
# Lists cut into chunks

* `weight`: the sum of the weights of a list.
* `Split`: a list cut from the front, each chunk as heavy as the budget allows.
* `Split.flatten`: nothing is lost; **`Split.unique`**: there is one way to cut a list.
* `Split.length_lt`: how many chunks there are at most, if no element is heavy.
-/

namespace Greedy

variable {α : Type*} (w : α → ℕ) (budget : ℕ)

def weight : List α → ℕ
  | [] => 0
  | a :: l => w a + weight l

@[simp] theorem weight_nil : weight w [] = 0 := rfl

@[simp] theorem weight_cons (a : α) (l : List α) : weight w (a :: l) = w a + weight w l := rfl

@[simp] theorem weight_append (l m : List α) : weight w (l ++ m) = weight w l + weight w m := by
  induction l with
  | nil => rw [List.nil_append, weight_nil, Nat.zero_add]
  | cons a l ih => rw [List.cons_append, weight_cons, ih, weight_cons, Nat.add_assoc]

theorem weight_le_of_prefix {l m : List α} (h : l <+: m) : weight w l ≤ weight w m := by
  obtain ⟨rest, rfl⟩ := h
  rw [weight_append]
  exact Nat.le_add_right _ _

theorem weight_flatten_le {chunks : List (List α)} (h : ∀ chunk ∈ chunks, weight w chunk ≤ budget) :
    weight w chunks.flatten ≤ chunks.length * budget := by
  induction chunks with
  | nil => exact Nat.zero_le _
  | cons chunk chunks ih =>
    have hchunk := h chunk List.mem_cons_self
    have hrest := ih fun c hc => h c (List.mem_cons_of_mem _ hc)
    rw [List.flatten_cons, weight_append, List.length_cons, Nat.add_mul, Nat.one_mul]
    omega

/-- A chunk is cut off where the next element does not fit. -/
inductive Split : List α → List (List α) → Prop where
  | nil : Split [] []
  | last {l : List α} : l ≠ [] → weight w l ≤ budget → Split l [l]
  | cut {l chunk rest : List α} {a : α} {chunks : List (List α)} :
      l = chunk ++ a :: rest → weight w chunk ≤ budget → budget < weight w chunk + w a →
      Split (a :: rest) chunks → Split l (chunk :: chunks)

variable {w budget} {l : List α} {chunks : List (List α)}

theorem Split.flatten (h : Split w budget l chunks) : chunks.flatten = l := by
  induction h with
  | nil => rfl
  | last _ _ => exact List.flatten_singleton
  | cut hl _ _ _ ih => rw [List.flatten_cons, ih, hl]

theorem Split.weight_le (h : Split w budget l chunks) : ∀ chunk ∈ chunks, weight w chunk ≤ budget := by
  induction h with
  | nil => simp
  | last _ hle => simpa using hle
  | cut _ hle _ _ ih => simpa using ⟨hle, ih⟩

/-- A chunk cannot end before another one that starts where it starts. -/
theorem length_le_of_cut {chunk other rest : List α} {a : α} (hl : l = chunk ++ a :: rest) (hother : other <+: l)
    (hcut : budget < weight w chunk + w a) (hle : weight w other ≤ budget) : other.length ≤ chunk.length := by
  by_contra hlt
  have hprefix : chunk ++ [a] <+: other := by
    refine List.prefix_of_prefix_length_le ⟨rest, by simp [hl]⟩ hother ?_
    rw [List.length_append, List.length_singleton]
    omega
  have := weight_le_of_prefix w hprefix
  rw [weight_append, weight_cons, weight_nil] at this
  omega

/-- **There is one way to cut a list.** -/
theorem Split.unique (h : Split w budget l chunks) : ∀ {others : List (List α)}, Split w budget l others →
    others = chunks := by
  induction h with
  | nil =>
    intro others h'
    cases h' with
    | nil => rfl
    | last hne _ => exact absurd rfl hne
    | cut hl _ _ _ => simp at hl
  | @last l hne hle =>
    intro others h'
    cases h' with
    | nil => exact absurd rfl hne
    | last _ _ => rfl
    | @cut _ chunk _ a _ hl _ hcut _ =>
      have := length_le_of_cut hl List.prefix_rfl hcut hle
      rw [hl, List.length_append, List.length_cons] at this
      omega
  | @cut l chunk rest a chunks hl hle hcut _ ih =>
    intro others h'
    cases h' with
    | nil => simp at hl
    | last _ hle' =>
      have := length_le_of_cut hl List.prefix_rfl hcut hle'
      rw [hl, List.length_append, List.length_cons] at this
      omega
    | @cut _ chunk' rest' a' chunks' hl' hle' hcut' h' =>
      have hlen : chunk.length = chunk'.length := le_antisymm
        (length_le_of_cut hl' ⟨_, hl.symm⟩ hcut' hle) (length_le_of_cut hl ⟨_, hl'.symm⟩ hcut hle')
      obtain ⟨hchunk, hrest⟩ := List.append_inj (hl.symm.trans hl') hlen
      rw [← hrest] at h'
      rw [ih h', hchunk]

/-- **Every chunk but the last one is nearly full.** -/
theorem Split.length_lt {k : ℕ} (h : Split w budget l chunks) (hpos : ∀ a, 0 < w a) (hk : ∀ a, w a ≤ k)
    (hne : l ≠ []) :
    chunks.tail.length * (budget + 1 - k) < weight w l := by
  induction h with
  | nil => exact absurd rfl hne
  | @last l _ _ =>
    cases l with
    | nil => exact absurd rfl hne
    | cons a l =>
      have := hpos a
      simp only [List.tail_cons, List.length_nil, Nat.zero_mul, weight_cons]
      omega
  | @cut l chunk rest a chunks hl _ hcut _ ih =>
    have hrest := ih (by simp)
    have hlen : chunks.length ≤ chunks.tail.length + 1 := by rw [List.length_tail]; omega
    have hmul := Nat.mul_le_mul_right (budget + 1 - k) hlen
    rw [Nat.add_mul, Nat.one_mul] at hmul
    have := hk a
    rw [List.tail_cons, hl, weight_append]
    omega

end Greedy
