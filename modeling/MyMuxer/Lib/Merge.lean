import Mathlib.Data.List.Chain
import Mathlib.Order.Lattice

/-!
# Merging two queues

* `merge`: always the earlier one of the two first elements, the left one where they are level; each
  element is marked by where it comes from.
* `Merged`: each list in its own order, all of it sorted, and left before right where elements are level.
* `pairwise_of_isChain`: a list whose neighbours are in order is sorted, if keys tell which is earlier.
* **`merged_merge`**: two sorted lists are merged.
-/

namespace Merge

variable {α : Type*} (earlier : α → α → Prop)

def merge [DecidableRel earlier] : List α → List α → List (α ⊕ α)
  | [], ys => ys.map .inr
  | x :: xs, [] => (x :: xs).map .inl
  | x :: xs, y :: ys => if earlier y x then .inr y :: merge (x :: xs) ys else .inl x :: merge xs (y :: ys)

/-- An element without its mark. -/
def value : α ⊕ α → α := Sum.elim id id

/-- A marked list, sorted, whose left and right elements are those of two lists in their order. -/
structure Merged (xs ys : List α) (marked : List (α ⊕ α)) : Prop where
  left : marked.filterMap Sum.getLeft? = xs
  right : marked.filterMap Sum.getRight? = ys
  sorted : marked.Pairwise fun s t => ¬ earlier (value t) (value s)
  leftFirst : marked.Pairwise fun s t => s.isRight = true → t.isLeft = true → earlier (value s) (value t)

section merge

variable [DecidableRel earlier]

theorem merge_left (xs : List α) : merge earlier xs [] = xs.map .inl := by
  cases xs with
  | nil => rw [merge, List.map_nil, List.map_nil]
  | cons x xs => rw [merge]

theorem merge_right (ys : List α) : merge earlier [] ys = ys.map .inr := by
  rw [merge]

end merge

variable {earlier} {x y : α} {xs ys : List α} {marked : List (α ⊕ α)}

theorem Merged.mem_left (h : Merged earlier xs ys marked) {a : α} (ha : .inl a ∈ marked) : a ∈ xs := by
  rw [← h.left]
  exact List.mem_filterMap.2 ⟨_, ha, rfl⟩

theorem Merged.mem_right (h : Merged earlier xs ys marked) {a : α} (ha : .inr a ∈ marked) : a ∈ ys := by
  rw [← h.right]
  exact List.mem_filterMap.2 ⟨_, ha, rfl⟩

theorem Merged.forall_value (h : Merged earlier xs ys marked) {P : α → Prop} (hleft : ∀ a ∈ xs, P a)
    (hright : ∀ a ∈ ys, P a) : ∀ s ∈ marked, P (value s) := by
  intro s hs
  cases s with
  | inl a => exact hleft a (h.mem_left hs)
  | inr a => exact hright a (h.mem_right hs)

theorem Merged.nil : Merged earlier [] [] [] := ⟨rfl, rfl, .nil, .nil⟩

/-- The first element on the left, if nothing is earlier. -/
theorem Merged.consLeft (h : Merged earlier xs ys marked) (hleft : ∀ z ∈ xs, ¬ earlier z x)
    (hright : ∀ z ∈ ys, ¬ earlier z x) : Merged earlier (x :: xs) ys (.inl x :: marked) where
  left := congrArg (x :: ·) h.left
  right := h.right
  sorted := .cons (h.forall_value hleft hright) h.sorted
  leftFirst := .cons (fun _ _ hright => nomatch hright) h.leftFirst

/-- The first element on the right, if it is earlier than all on the left. -/
theorem Merged.consRight (h : Merged earlier xs ys marked) (hleft : ∀ z ∈ xs, earlier y z ∧ ¬ earlier z y)
    (hright : ∀ z ∈ ys, ¬ earlier z y) : Merged earlier xs (y :: ys) (.inr y :: marked) where
  left := h.left
  right := congrArg (y :: ·) h.right
  sorted := .cons (h.forall_value (fun a ha => (hleft a ha).2) hright) h.sorted
  leftFirst := by
    refine .cons ?_ h.leftFirst
    intro s hs _ hinl
    obtain ⟨a, rfl⟩ := Sum.isLeft_iff.1 hinl
    exact (hleft a (h.mem_left hs)).1

theorem merged_left (h : xs.Pairwise fun a b => ¬ earlier b a) : Merged earlier xs [] (xs.map .inl) := by
  induction xs with
  | nil => exact .nil
  | cons x xs ih =>
    rw [List.pairwise_cons] at h
    exact (ih h.2).consLeft h.1 fun z hz => nomatch hz

theorem merged_right (h : ys.Pairwise fun a b => ¬ earlier b a) : Merged earlier [] ys (ys.map .inr) := by
  induction ys with
  | nil => exact .nil
  | cons y ys ih =>
    rw [List.pairwise_cons] at h
    exact (ih h.2).consRight (fun z hz => nomatch hz) h.1

section key

variable {β : Type*} [LinearOrder β] (key : α → β) {P : α → Prop}
  (hkey : ∀ a b, P a → P b → (earlier a b ↔ key a < key b))

include hkey

theorem pairwise_of_isChain (hxs : ∀ a ∈ xs, P a) (h : xs.IsChain fun a b => ¬ earlier b a) :
    xs.Pairwise fun a b => ¬ earlier b a := by
  have hle : xs.IsChain fun a b => key a ≤ key b :=
    h.imp_of_mem_imp fun a b ha hb hnot => not_lt.1 fun hlt => hnot ((hkey b a (hxs b hb) (hxs a ha)).2 hlt)
  have hmap := (List.isChain_map key).2 hle
  rw [List.isChain_iff_pairwise, List.pairwise_map] at hmap
  exact hmap.imp_of_mem fun ha hb hle hlt => hle.not_gt ((hkey _ _ (hxs _ hb) (hxs _ ha)).1 hlt)

/-- **Sorted lists are merged**, if among their elements the earlier ones are those with smaller keys. -/
theorem merged_merge [DecidableRel earlier] :
    ∀ xs ys : List α, (∀ a ∈ xs, P a) → (∀ a ∈ ys, P a) → xs.Pairwise (fun a b => ¬ earlier b a) →
      ys.Pairwise (fun a b => ¬ earlier b a) → Merged earlier xs ys (merge earlier xs ys) := by
  intro xs ys
  induction xs, ys using merge.induct earlier with
  | case1 ys =>
    intro _ _ _ hsorted
    rw [merge]
    exact merged_right hsorted
  | case2 x xs =>
    intro _ _ hsorted _
    rw [merge]
    exact merged_left hsorted
  | case3 x xs y ys hlt ih =>
    intro hxs hys hsorted hsorted'
    rw [List.forall_mem_cons] at hys
    rw [List.pairwise_cons] at hsorted'
    rw [merge, if_pos hlt]
    refine (ih hxs hys.2 hsorted hsorted'.2).consRight ?_ hsorted'.1
    have hx := hxs x List.mem_cons_self
    have hhead := (hkey y x hys.1 hx).1 hlt
    -- the first element of the left list is the earliest one there
    have hle : ∀ z ∈ x :: xs, key x ≤ key z := by
      rw [List.pairwise_cons] at hsorted
      rw [List.forall_mem_cons]
      refine ⟨le_rfl, fun z hz => ?_⟩
      exact not_lt.1 fun h => hsorted.1 z hz ((hkey z x (hxs z (List.mem_cons_of_mem _ hz)) hx).2 h)
    intro z hz
    have hyz := hhead.trans_le (hle z hz)
    exact ⟨(hkey y z hys.1 (hxs z hz)).2 hyz, fun h => hyz.asymm ((hkey z y (hxs z hz) hys.1).1 h)⟩
  | case4 x xs y ys hlt ih =>
    intro hxs hys hsorted hsorted'
    rw [List.forall_mem_cons] at hxs
    rw [List.pairwise_cons] at hsorted
    rw [merge, if_neg hlt]
    refine (ih hxs.2 hys hsorted.2 hsorted').consLeft hsorted.1 ?_
    rw [List.pairwise_cons] at hsorted'
    rw [List.forall_mem_cons] at hys ⊢
    refine ⟨hlt, fun z hz => ?_⟩
    have hle : key x ≤ key y := not_lt.1 fun h => hlt ((hkey y x hys.1 hxs.1).2 h)
    have hle' : key y ≤ key z := not_lt.1 fun h => hsorted'.1 z hz ((hkey z y (hys.2 z hz) hys.1).2 h)
    exact fun h => (hle.trans hle').not_gt ((hkey z x (hys.2 z hz) hxs.1).1 h)

end key

end Merge
