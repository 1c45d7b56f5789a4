import Mathlib.Data.List.AList

/-!
# Tables with one entry for each key

* `lookup_iff`: what is looked up is an entry; `mem_iff`: a key that has a value.
* **`lookup_filter`**: a table of which some entries are kept; `exists_lookup`: a value that some key has.
-/

namespace Table

variable {κ ν : Type*} [DecidableEq κ] {s : AList fun _ : κ => ν} {k : κ} {v : ν}

theorem lookup_iff : s.lookup k = some v ↔ (⟨k, v⟩ : Sigma fun _ : κ => ν) ∈ s.entries := AList.mem_lookup_iff

theorem mem_iff : k ∈ s ↔ ∃ v, s.lookup k = some v := by
  rw [← AList.lookup_isSome, Option.isSome_iff_exists]

theorem lookup_filter {keep : (Sigma fun _ : κ => ν) → Bool} {h : (s.entries.filter keep).NodupKeys} :
    (⟨s.entries.filter keep, h⟩ : AList fun _ : κ => ν).lookup k = some v ↔
      s.lookup k = some v ∧ keep ⟨k, v⟩ = true := by
  rw [lookup_iff, lookup_iff]
  exact List.mem_filter

theorem exists_lookup [DecidableEq ν] : (∃ k, s.lookup k = some v) ↔ s.entries.any (·.2 == v) = true := by
  rw [List.any_eq_true]
  refine ⟨fun ⟨k, hk⟩ => ⟨_, lookup_iff.1 hk, beq_self_eq_true v⟩, fun ⟨⟨k, u⟩, hmem, hu⟩ => ⟨k, ?_⟩⟩
  rw [lookup_iff, ← eq_of_beq hu]
  exact hmem

end Table
