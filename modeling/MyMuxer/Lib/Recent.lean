import Mathlib.Data.List.Basic
import Mathlib.Tactic

/-!
# The last few of a sequence

A bounded queue that keeps what was pushed last.

* `push`: a new entry in front; a full queue loses its oldest one.
* `upTo`, `Window`: a queue of numbers that were pushed in increasing order, without a gap from some number
  on; `Window.not_mem`: it does not reach further back than its capacity.
* **`Window.push`**: pushing the next number keeps it so: as many numbers as the queue holds are in it.
-/

namespace Recent

variable {α β : Type*}

def push (capacity : ℕ) (queue : List α) (x : α) : List α :=
  x :: if queue.length ≥ capacity then queue.dropLast else queue

variable {capacity : ℕ} {queue : List α} {x y : α}

theorem push_sublist : (push capacity queue x).Sublist (x :: queue) := by
  unfold push
  split_ifs
  · exact (List.dropLast_sublist queue).cons_cons x
  · exact List.Sublist.refl _

theorem length_push (hpos : 0 < capacity) (h : queue.length ≤ capacity) :
    (push capacity queue x).length ≤ capacity := by
  unfold push
  split_ifs with hfull
  · rw [List.length_cons, List.length_dropLast]
    omega
  · rw [List.length_cons]
    omega

theorem map_push (f : α → β) : (push capacity queue x).map f = push capacity (queue.map f) (f x) := by
  unfold push
  rw [List.length_map]
  split_ifs
  · rw [List.map_cons, List.map_dropLast]
  · rfl

/-! ## Numbers in order -/

/-- The number after the one that was pushed last. -/
def upTo : List ℕ → ℕ
  | [] => 0
  | n :: _ => n + 1

/-- The queue of numbers pushed in increasing order, each one after the one before from `start` on. -/
structure Window (capacity start : ℕ) (queue : List ℕ) : Prop where
  length : queue.length ≤ capacity
  decreasing : queue.Pairwise (· > ·)
  recent : ∀ {n}, start ≤ n → n < upTo queue → upTo queue ≤ n + capacity → n ∈ queue

variable {start start' n : ℕ} {queue : List ℕ}

theorem window_nil : Window capacity start [] where
  length := Nat.zero_le _
  decreasing := List.Pairwise.nil
  recent _ h := absurd h (Nat.not_lt_zero _)

theorem Window.mono (h : Window capacity start queue) (hle : start ≤ start') : Window capacity start' queue :=
  { h with recent := fun hn => h.recent (hle.trans hn) }

theorem Window.lt_upTo (h : Window capacity start queue) (hn : n ∈ queue) : n < upTo queue := by
  cases queue with
  | nil => cases hn
  | cons m queue =>
    rcases List.mem_cons.1 hn with rfl | hn
    · exact Nat.lt_succ_self _
    · exact (List.rel_of_pairwise_cons h.decreasing hn).trans (Nat.lt_succ_self m)

/-- In a decreasing list, what is at least as far from the front as the list is long is below all of it. -/
theorem getLast_add_length_le (h : queue.Pairwise (· > ·)) (hne : queue ≠ []) :
    queue.getLast hne + queue.length ≤ upTo queue := by
  induction queue with
  | nil => exact absurd rfl hne
  | cons m queue ih =>
    cases queue with
    | nil => exact le_rfl
    | cons k queue =>
      have hk : k < m := List.rel_of_pairwise_cons h List.mem_cons_self
      have hrec := ih (List.Pairwise.of_cons h) (List.cons_ne_nil _ _)
      simp only [List.getLast_cons (List.cons_ne_nil k queue), List.length_cons, upTo] at hrec ⊢
      omega

/-- What lies further back than the queue is long is not in it. -/
theorem Window.not_mem (h : Window capacity start queue) (hstart : start ≤ n) (hfar : n + capacity < upTo queue) :
    n ∉ queue := by
  intro hn
  have hsub : Finset.Ico (upTo queue - capacity) (upTo queue) ⊆ queue.toFinset.erase n := by
    intro m hm
    rw [Finset.mem_Ico] at hm
    refine Finset.mem_erase.2 ⟨by omega, List.mem_toFinset.2 (h.recent (by omega) hm.2 (by omega))⟩
  have hcard := (Finset.card_le_card hsub).trans_lt (Finset.card_erase_lt_of_mem (List.mem_toFinset.2 hn))
  rw [Nat.card_Ico] at hcard
  have hlen := (List.toFinset_card_le queue).trans h.length
  omega

/-- **The next number is pushed, or the first one that matters.** -/
theorem Window.push (h : Window capacity start queue) (hpos : 0 < capacity)
    (hn : upTo queue = n ∨ upTo queue ≤ n ∧ n = start) : Window capacity start (push capacity queue n) := by
  have hle : upTo queue ≤ n := hn.elim le_of_eq And.left
  have hbelow : ∀ m ∈ queue, n > m := fun m hm => (h.lt_upTo hm).trans_le hle
  refine ⟨length_push hpos h.length, ?_, fun {m} hstart hlt hcap => ?_⟩
  · exact (List.pairwise_cons.2 ⟨hbelow, h.decreasing⟩).sublist push_sublist
  · change m < n + 1 at hlt
    change n + 1 ≤ m + capacity at hcap
    unfold Recent.push
    rcases Nat.lt_succ_iff_lt_or_eq.1 hlt with hm | rfl
    · have heq : upTo queue = n := hn.resolve_right fun ⟨_, hn⟩ => by omega
      have hmem : m ∈ queue := h.recent hstart (hm.trans_eq heq.symm) (by omega)
      refine List.mem_cons_of_mem _ ?_
      split_ifs with hfull
      · have hne : queue ≠ [] := List.ne_nil_of_mem hmem
        have hlast := getLast_add_length_le h.decreasing hne
        rw [← List.dropLast_concat_getLast hne, List.mem_append, List.mem_singleton] at hmem
        rcases hmem with hmem | rfl
        · exact hmem
        · omega
      · exact hmem
    · exact List.mem_cons_self

end Recent
