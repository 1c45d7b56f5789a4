import MyMuxer.Lib.Search
import MyMuxer.Mux.Process

/-!
# The search for sync (`mux.rs`)

* `SyncAt`: three sync bytes at the distance of a packet; `Synced`: at the front.
* `syncLoop_skips`: the search only goes past positions where sync is not, whatever follows.
* `syncBuffer_true_iff`, `syncBuffer_of_isLeast`, `syncBuffer_false`: it finds the least position.
* `syncBuffer_again`: a search that goes on when more has come finds what one search finds.
-/

namespace MyMuxer

open Search

/-- Three sync bytes at the distance of a packet, the first of them at `p`. -/
def SyncAt (buff : Bytes) (p : ℕ) : Prop :=
  p + tsPacketSize * 3 ≤ buff.length ∧ byte buff p = tsSyncByte ∧ byte buff (p + tsPacketSize) = tsSyncByte ∧
    byte buff (p + tsPacketSize * 2) = tsSyncByte

/-- Three sync bytes at the distance of a packet, the first of them at the front. -/
def Synced (buff : Bytes) : Prop := tsPacketSize * 3 ≤ buff.length ∧ syncTriple buff = true

theorem begins_synced (buff : Bytes) : Begins Synced buff = {p | SyncAt buff p} := by
  ext p
  change Synced (buff.drop p) ↔ SyncAt buff p
  have hsize : 0 < tsPacketSize * 3 := by decide
  rw [Synced, SyncAt, syncTriple, decide_eq_true_iff, byte_drop, byte_drop, byte_drop, List.length_drop, Nat.add_zero]
  exact and_congr_left fun _ => by omega

theorem syncTriple_append {a : Bytes} (h : tsPacketSize * 3 ≤ a.length) (b : Bytes) :
    syncTriple (a ++ b) = syncTriple a := by
  have hsize : tsPacketSize = 188 := rfl
  rw [syncTriple, syncTriple]
  simp only [byte_append_left (show 0 < a.length by omega),
    byte_append_left (show tsPacketSize < a.length by omega),
    byte_append_left (show tsPacketSize * 2 < a.length by omega)]

theorem syncTriple_head {a : Bytes} (h : syncTriple a = true) : byte a 0 = tsSyncByte := by
  rw [syncTriple, decide_eq_true_eq] at h
  exact h.1

theorem Synced.append {buff : Bytes} (h : Synced buff) (more : Bytes) : Synced (buff ++ more) :=
  ⟨h.1.trans (by simp), (syncTriple_append h.1 more).trans h.2⟩

/-! ## What the search goes past -/

variable {buff : Bytes}

/-- The search goes on to the next sync byte. -/
theorem skips_nextSync (hl : tsPacketSize * 3 ≤ buff.length) (ht : syncTriple buff = false) :
    ∃ d, 0 < d ∧ Skips Synced buff d ∧ nextSync buff = buff.drop d := by
  cases buff with
  | nil => exact absurd hl (by decide)
  | cons b rest =>
    have hone (more : Bytes) : ¬ Synced (b :: rest ++ more) := fun h => by
      have := (syncTriple_append hl more).symm.trans h.2
      exact absurd (ht.symm.trans this) (by decide)
    have hrest : Skips Synced rest (rest.findIdx fun b => b = tsSyncByte) :=
      skips_findIdx fun b l h => decide_eq_true (syncTriple_head h.2)
    refine ⟨(rest.findIdx fun b => b = tsSyncByte) + 1, Nat.succ_pos _, hrest.cons hone, ?_⟩
    rw [nextSync, List.drop_one, List.tail_cons, List.drop_succ_cons, List.dropWhile_eq_drop_findIdx_not]
    simp only [ne_eq, decide_not, Bool.not_not]

/-- **The search drops only what cannot begin sync**, and stops at sync or with too few bytes left. -/
theorem syncLoop_skips {fuel : ℕ} (hfuel : buff.length < fuel) : ∃ d, Skips Synced buff d ∧
    ((syncLoop fuel buff = (true, buff.drop d) ∧ d ∈ Begins Synced buff) ∨
      (syncLoop fuel buff = (false, buff.drop d) ∧ buff.length - d < tsPacketSize * 3)) := by
  induction fuel generalizing buff with
  | zero => exact absurd hfuel (Nat.not_lt_zero _)
  | succ fuel ih =>
    by_cases hl : tsPacketSize * 3 ≤ buff.length
    · cases ht : syncTriple buff with
      | true =>
        rw [syncLoop, if_pos hl, if_pos ht]
        exact ⟨0, Skips.zero, .inl ⟨rfl, hl, ht⟩⟩
      | false =>
        obtain ⟨d, hpos, hskip, hnext⟩ := skips_nextSync hl ht
        have hle := hskip.le
        have hpos' : 0 < buff.length := Nat.lt_of_lt_of_le hpos hle
        obtain ⟨e, hskip', hend⟩ := @ih (buff.drop d) (by rw [List.length_drop]; omega)
        rw [syncLoop, if_pos hl, if_neg (by rw [ht]; decide), hnext]
        refine ⟨d + e, hskip.trans hskip', ?_⟩
        rw [List.drop_drop, List.length_drop, Nat.sub_sub] at hend
        exact hend.imp_left fun h => ⟨h.1, hskip.begins_iff.2 ⟨e, h.2, rfl⟩⟩
    · rw [syncLoop, if_neg hl]
      exact ⟨0, Skips.zero, .inr ⟨rfl, Nat.lt_of_not_le hl⟩⟩

/-! ## What it finds -/

theorem syncBuffer_skips (buff : Bytes) : ∃ d, Skips Synced buff d ∧
    ((syncBuffer buff = (true, buff.drop d) ∧ d ∈ Begins Synced buff) ∨
      (syncBuffer buff = (false, buff.drop d) ∧ buff.length - d < tsPacketSize * 3)) :=
  syncLoop_skips (Nat.lt_succ_self _)

/-- Too few bytes are left for sync to begin among them. -/
theorem begins_short (h : buff.length < tsPacketSize * 3) : Begins Synced buff = ∅ := by
  refine Set.eq_empty_of_forall_notMem fun p (hp : Synced _) => ?_
  have := hp.1
  rw [List.length_drop] at this
  omega

theorem syncBuffer_of_isLeast {p : ℕ} (h : IsLeast (Begins Synced buff) p) :
    syncBuffer buff = (true, buff.drop p) := by
  obtain ⟨d, hskip, ⟨he, hd⟩ | ⟨-, hshort⟩⟩ := syncBuffer_skips buff
  · rw [he, (hskip.isLeast hd).unique h]
  · rw [← List.length_drop] at hshort
    have hempty := hskip.not_begins_of_drop (begins_short hshort)
    exact absurd h.1 (hempty ▸ Set.notMem_empty p)

theorem syncBuffer_of_empty (h : Begins Synced buff = ∅) : ∃ d, Skips Synced buff d ∧
    syncBuffer buff = (false, buff.drop d) ∧ buff.length - d < tsPacketSize * 3 := by
  obtain ⟨d, hskip, ⟨-, hd⟩ | ⟨he, hshort⟩⟩ := syncBuffer_skips buff
  · exact absurd hd (h ▸ Set.notMem_empty d)
  · exact ⟨d, hskip, he, hshort⟩

/-- **A search that goes on when more has come finds what one search finds.** -/
theorem syncBuffer_again (b c : Bytes) :
    (syncBuffer ((syncBuffer b).2 ++ c)).1 = (syncBuffer (b ++ c)).1 ∧
      ((syncBuffer (b ++ c)).1 = true → syncBuffer ((syncBuffer b).2 ++ c) = syncBuffer (b ++ c)) := by
  obtain ⟨d, hskip, hfound⟩ := syncBuffer_skips b
  have hrest : (syncBuffer b).2 = b.drop d := by
    rcases hfound with ⟨he, -⟩ | ⟨he, -⟩
    · rw [he]
    · rw [he]
  have hdrop : b.drop d ++ c = (b ++ c).drop d := (List.drop_append_of_le_length hskip.le).symm
  rw [hrest, hdrop]
  rcases (Begins Synced ((b ++ c).drop d)).eq_empty_or_nonempty with hnone | hsome
  · obtain ⟨e, -, he, -⟩ := syncBuffer_of_empty hnone
    obtain ⟨e', -, he', -⟩ := syncBuffer_of_empty ((hskip.append c).not_begins_of_drop hnone)
    rw [he, he']
    exact ⟨rfl, fun h => absurd h Bool.false_ne_true⟩
  · obtain ⟨p, hp⟩ : ∃ p, IsLeast (Begins Synced ((b ++ c).drop d)) p := by
      classical exact ⟨Nat.find hsome, Nat.find_spec hsome, fun q hq => Nat.find_min' hsome hq⟩
    have hall := syncBuffer_of_isLeast ((hskip.append c).isLeast_iff.2 hp)
    rw [syncBuffer_of_isLeast hp, hall, List.drop_drop]
    exact ⟨rfl, fun _ => rfl⟩

end MyMuxer
