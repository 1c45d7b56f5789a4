import Mathlib.Data.Prod.Lex
import Mathlib.Data.List.Induction
import Mathlib.Data.List.Sort

/-!
# Grouping

* `Groups.push`, `Groups.group`: an ordered map of lists, filled one element after another.
* **`Groups.filter_group`**: the entry of a key holds the elements of this key, in their order;
  `mem_group`, `perm_group`: the entries are those of the keys, and hold every element once.
* `filter_insertionSort`: sorting keeps the order of elements with the same key.
-/

namespace Groups

variable {κ α : Type}

/-- The entries of one key: none where there is no element. -/
def entry (k : κ) (l : List α) : List (κ × List α) := if l = [] then [] else [(k, l)]

theorem entry_append (k : κ) (l : List α) (a : α) : entry k (l ++ [a]) = [(k, l ++ [a])] :=
  if_neg (List.append_ne_nil_of_right_ne_nil _ (List.cons_ne_nil _ _))

theorem entry_eq_nil {k : κ} {l : List α} : entry k l = [] ↔ l = [] := by
  by_cases hl : l = []
  · exact iff_of_true (if_pos hl) hl
  · exact iff_of_false (fun h => List.cons_ne_nil _ _ ((if_neg hl).symm.trans h)) hl

variable [LinearOrder κ]

/-- The entries of the map once `a` has been pushed to the list of `k`. -/
def push (k : κ) (a : α) : List (κ × List α) → List (κ × List α)
  | [] => [(k, [a])]
  | e :: m => if k < e.1 then (k, [a]) :: e :: m else if k = e.1 then (k, e.2 ++ [a]) :: m else e :: push k a m

def group (key : α → κ) (l : List α) : List (κ × List α) := l.foldl (fun m a => push (key a) a m) []

/-- The entries are in the order of their keys. -/
def Sorted (m : List (κ × List α)) : Prop := m.Pairwise fun e e' => e.1 < e'.1

variable {k k' : κ} {a : α} {m : List (κ × List α)} {l : List α}

theorem mem_push {e : κ × List α} (h : e ∈ push k a m) : e.1 = k ∨ e ∈ m := by
  induction m with
  | nil => exact .inl (congrArg Prod.fst (List.mem_singleton.1 h))
  | cons e' m ih =>
    unfold push at h
    split_ifs at h
    · rcases List.mem_cons.1 h with rfl | h
      · exact .inl rfl
      · exact .inr h
    · rcases List.mem_cons.1 h with rfl | h
      · exact .inl rfl
      · exact .inr (List.mem_cons_of_mem _ h)
    · rcases List.mem_cons.1 h with rfl | h
      · exact .inr List.mem_cons_self
      · exact (ih h).imp_right (List.mem_cons_of_mem _)

theorem Sorted.push (h : Sorted m) (k : κ) (a : α) : Sorted (push k a m) := by
  induction m with
  | nil => exact List.pairwise_singleton _ _
  | cons e m ih =>
    obtain ⟨hhead, htail⟩ := List.pairwise_cons.1 h
    unfold Groups.push
    split_ifs with hlt heq
    · refine List.pairwise_cons.2 ⟨fun e' he' => ?_, h⟩
      rcases List.mem_cons.1 he' with rfl | he'
      · exact hlt
      · exact hlt.trans (hhead e' he')
    · exact List.pairwise_cons.2 ⟨fun e' he' => heq.trans_lt (hhead e' he'), htail⟩
    · refine List.pairwise_cons.2 ⟨fun e' he' => ?_, ih htail⟩
      rcases mem_push he' with hk | he'
      · rw [hk]
        exact lt_of_le_of_ne (not_lt.1 hlt) (Ne.symm heq)
      · exact hhead e' he'

theorem filter_push_ne (h : k ≠ k') (a : α) (m : List (κ × List α)) :
    (push k a m).filter (fun e => e.1 = k') = m.filter fun e => e.1 = k' := by
  induction m with
  | nil => simp [push, h]
  | cons e m ih =>
    unfold push
    split_ifs with hlt heq
    · simp [h]
    · have he : e.1 ≠ k' := heq ▸ h
      simp [h, he]
    · rw [List.filter_cons, List.filter_cons, ih]

/-- No entry has a key below that of the first. -/
theorem filter_eq_nil_of_lt {e : κ × List α} (h : Sorted (e :: m)) (hlt : k < e.1) :
    (e :: m).filter (fun e => e.1 = k) = [] := by
  refine List.filter_eq_nil_iff.2 fun e' he' => ?_
  rw [decide_eq_true_eq]
  rcases List.mem_cons.1 he' with rfl | he'
  · exact hlt.ne'
  · exact (hlt.trans ((List.pairwise_cons.1 h).1 e' he')).ne'

theorem filter_push_self (h : Sorted m) (hm : m.filter (fun e => e.1 = k) = entry k l) (a : α) :
    (push k a m).filter (fun e => e.1 = k) = entry k (l ++ [a]) := by
  rw [entry_append]
  induction m with
  | nil =>
    obtain rfl : l = [] := entry_eq_nil.1 hm.symm
    simp [push]
  | cons e m ih =>
    unfold push
    split_ifs with hlt heq
    · have hnone := filter_eq_nil_of_lt h hlt
      obtain rfl : l = [] := entry_eq_nil.1 (hm.symm.trans hnone)
      rw [List.filter_cons_of_pos (by simp), hnone]
      rfl
    · have hrest : m.filter (fun e => e.1 = k) = [] := by
        refine List.filter_eq_nil_iff.2 fun e' he' => ?_
        rw [decide_eq_true_eq]
        exact (heq.trans_lt ((List.pairwise_cons.1 h).1 e' he')).ne'
      have hl : entry k l = [(k, e.2)] := by
        rw [← hm, List.filter_cons_of_pos (by simp [heq]), hrest, heq]
      rw [List.filter_cons_of_pos (by simp), hrest]
      unfold entry at hl
      split_ifs at hl
      cases hl
      rfl
    · rw [List.filter_cons_of_neg (by simpa using Ne.symm heq)] at hm ⊢
      exact ih (List.pairwise_cons.1 h).2 hm

variable (key : α → κ)

theorem group_append (l : List α) (a : α) : group key (l ++ [a]) = push (key a) a (group key l) := by
  rw [group, List.foldl_append]
  rfl

theorem sorted_group (l : List α) : Sorted (group key l) := by
  induction l using List.reverseRecOn with
  | nil => exact List.Pairwise.nil
  | append_singleton l a ih =>
    rw [group_append]
    exact ih.push _ _

/-- **The entry of a key holds the elements of this key, in their order.** -/
theorem filter_group (k : κ) (l : List α) : Sorted (group key l) ∧
    (group key l).filter (fun e => e.1 = k) = entry k (l.filter fun a => key a = k) := by
  refine ⟨sorted_group key l, ?_⟩
  induction l using List.reverseRecOn with
  | nil => rfl
  | append_singleton l a ih =>
    rw [group_append]
    by_cases h : key a = k
    · rw [List.filter_append, List.filter_cons_of_pos (by simp [h]), List.filter_nil]
      subst h
      exact filter_push_self (sorted_group key l) ih a
    · rw [List.filter_append, List.filter_cons_of_neg (by simp [h]), List.filter_nil, List.append_nil,
        filter_push_ne h, ih]

/-- An entry holds the elements of its key, one at least. -/
theorem mem_group {e : κ × List α} {l : List α} (h : e ∈ group key l) :
    e.2 ≠ [] ∧ e.2 = l.filter fun a => key a = e.1 := by
  have hmem : e ∈ entry e.1 (l.filter fun a => key a = e.1) := by
    rw [← (filter_group key e.1 l).2, List.mem_filter]
    exact ⟨h, decide_eq_true rfl⟩
  unfold entry at hmem
  split_ifs at hmem with hnil
  · cases hmem
  · have he : e.2 = l.filter fun a => key a = e.1 := congrArg Prod.snd (List.mem_singleton.1 hmem)
    exact ⟨he ▸ hnil, he⟩

theorem perm_push (k : κ) (a : α) (m : List (κ × List α)) :
    ((push k a m).flatMap Prod.snd).Perm (m.flatMap Prod.snd ++ [a]) := by
  induction m with
  | nil => exact List.Perm.refl _
  | cons e m ih =>
    unfold push
    split_ifs
    · exact List.perm_append_comm
    · rw [List.flatMap_cons, List.flatMap_cons, List.append_assoc, List.append_assoc]
      exact List.Perm.append_left _ List.perm_append_comm
    · rw [List.flatMap_cons, List.flatMap_cons, List.append_assoc]
      exact List.Perm.append_left _ ih

/-- **No element is lost, and none is there twice.** -/
theorem perm_group (l : List α) : ((group key l).flatMap Prod.snd).Perm l := by
  induction l using List.reverseRecOn with
  | nil => exact List.Perm.refl _
  | append_singleton l a ih =>
    rw [group_append]
    exact (perm_push _ _ _).trans (ih.append_right [a])

/-- Sorting is stable. -/
theorem filter_insertionSort (l : List α) (k : κ) :
    (l.insertionSort fun a b => key a ≤ key b).filter (fun a => key a = k) = l.filter fun a => key a = k := by
  have hsorted : (l.filter fun a => key a = k).Pairwise fun a b => key a ≤ key b := by
    refine List.pairwise_of_forall_mem_list fun a ha b hb => ?_
    rw [of_decide_eq_true (List.mem_filter.1 ha).2, of_decide_eq_true (List.mem_filter.1 hb).2]
  have hsub := (List.sublist_insertionSort hsorted List.filter_sublist).filter fun a => key a = k
  rw [List.filter_filter] at hsub
  simp only [Bool.and_self] at hsub
  exact (hsub.eq_of_length ((List.perm_insertionSort _ l).filter _).length_eq.symm).symm

end Groups
