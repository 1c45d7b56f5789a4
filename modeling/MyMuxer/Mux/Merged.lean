import MyMuxer.Lib.Merge
import MyMuxer.Mux.Choice
import MyMuxer.Mux.Drain

/-!
# The order of two queues (`mux.rs`)

* `EarlierDts`: the order that `get_a_or_v` looks at; `earlierDts_iff` is what it is on a window of less
  than half of the clock.
* `repeatAOrV_merge`: repeated calls merge the queues, whatever they hold.
* **`queues_merged`**: queues in order, within a window, come out in order.
-/

namespace MyMuxer

open Circle Merge

/-- A packet has an earlier DTS than another one. -/
def EarlierDts (p q : TsPacket) : Prop := dtsAfter q.dts p.dts = true

instance : DecidableRel EarlierDts := fun p q => inferInstanceAs (Decidable (dtsAfter q.dts p.dts = true))

/-- The DTS of a packet, a `u64`, is within half a turn of the clock from `base` on. -/
def InWindow (base : ℕ) (p : TsPacket) : Prop := p.dts < 2 ^ 64 ∧ ahead dtsHalf p.dts base < dtsHalf

instance (base : ℕ) : DecidablePred (InWindow base) := fun _ => inferInstanceAs (Decidable (_ ∧ _))

theorem earlierDts_iff {base : ℕ} (p q : TsPacket) (hp : InWindow base p) (hq : InWindow base q) :
    EarlierDts p q ↔ ahead dtsHalf p.dts base < ahead dtsHalf q.dts base := by
  rw [EarlierDts, dtsAfter_iff _ hp.1.le]
  exact after_of_window dtsHalf_pos _ _ _ hq.2 hp.2

namespace PacketHandler

variable {h : PacketHandler}

theorem queued_eq_zero_iff : h.queued = 0 ↔ h.outBuffV.inner = [] ∧ h.outBuffA.inner = [] := by
  rw [queued, Nat.add_eq_zero_iff, OutBuffer.len, OutBuffer.len, List.length_eq_zero_iff,
    List.length_eq_zero_iff]

/-- Nothing is merged from empty queues. -/
theorem repeatAOrV_merge_empty (n : ℕ) (hq : h.queued = 0) :
    (h.repeatAOrV n).1 = (merge EarlierDts h.outBuffA.inner h.outBuffV.inner).map value := by
  obtain ⟨hv, ha⟩ := queued_eq_zero_iff.1 hq
  rw [repeatAOrV_of_queued n hq, ha, hv, merge]
  rfl

/-- **Repeated calls of `get_a_or_v` merge the queues.** -/
theorem repeatAOrV_merge : ∀ (n : ℕ) {h : PacketHandler}, h.queued ≤ n →
    (h.repeatAOrV n).1 = (merge EarlierDts h.outBuffA.inner h.outBuffV.inner).map value := by
  intro n
  induction n with
  | zero =>
    intro h hn
    exact repeatAOrV_merge_empty 0 (Nat.le_zero.1 hn)
  | succ n ih =>
    intro h hn
    -- a packet that leaves, and the rest by the induction hypothesis
    have hnext {pkt : TsPacket} {g : PacketHandler} (hpop : h.getAOrV = some (pkt, g)) :
        (h.repeatAOrV (n + 1)).1 = pkt :: (merge EarlierDts g.outBuffA.inner g.outBuffV.inner).map value := by
      have hq := (popped_queued (getAOrV_popped hpop)).1
      rw [repeatAOrV, hpop]
      exact congrArg (pkt :: ·) (ih (by omega))
    cases ha : h.outBuffA.inner with
    | nil =>
      cases hv : h.outBuffV.inner with
      | nil =>
        have hempty := repeatAOrV_merge_empty (n + 1) (queued_eq_zero_iff.2 ⟨hv, ha⟩)
        rwa [ha, hv] at hempty
      | cons v vs =>
        obtain ⟨b, hb, hpop⟩ := popV_cons hv
        rw [hnext ((getAOrV_video ha).trans hpop), hb, ha, merge_right, merge_right]
        rfl
    | cons a as =>
      cases hv : h.outBuffV.inner with
      | nil =>
        obtain ⟨b, hb, hpop⟩ := popA_cons ha
        rw [hnext ((getAOrV_audio hv).trans hpop), hb, hv, merge_left, merge_left]
        rfl
      | cons v vs =>
        have hchoice : h.getAOrV = if EarlierDts v a then h.popV else h.popA := getAOrV_cons ha hv
        rw [merge]
        by_cases hafter : EarlierDts v a
        · obtain ⟨b, hb, hpop⟩ := popV_cons hv
          rw [if_pos hafter, hpop] at hchoice
          rw [if_pos hafter, hnext hchoice, hb, ha]
          rfl
        · obtain ⟨b, hb, hpop⟩ := popA_cons ha
          rw [if_neg hafter, hpop] at hchoice
          rw [if_neg hafter, hnext hchoice, hb, hv]
          rfl

/-- Enough calls leave nothing. -/
theorem repeatAOrV_exhausts {n : ℕ} (hn : h.queued ≤ n) : (h.repeatAOrV n).2.getAOrV = none := by
  obtain ⟨hsum, hlen⟩ := repeatAOrV_length n h
  rw [getAOrV_eq_none_iff]
  omega

/-- **Queues in order are merged**, wherever the clock wraps around. -/
theorem queues_merged {base : ℕ} (hwindow : ∀ p ∈ h.outBuffA.inner ++ h.outBuffV.inner, InWindow base p)
    (haudio : h.outBuffA.inner.IsChain fun p q => ¬ EarlierDts q p)
    (hvideo : h.outBuffV.inner.IsChain fun p q => ¬ EarlierDts q p) :
    ∃ marked, Merged EarlierDts h.outBuffA.inner h.outBuffV.inner marked ∧
      ∀ n, h.queued ≤ n → (h.repeatAOrV n).1 = marked.map value ∧ (h.repeatAOrV n).2.getAOrV = none := by
  rw [List.forall_mem_append] at hwindow
  refine ⟨merge EarlierDts h.outBuffA.inner h.outBuffV.inner, ?_, fun n hn => ?_⟩
  · have haudio := pairwise_of_isChain _ earlierDts_iff hwindow.1 haudio
    have hvideo := pairwise_of_isChain _ earlierDts_iff hwindow.2 hvideo
    exact merged_merge _ earlierDts_iff _ _ hwindow.1 hwindow.2 haudio hvideo
  · exact ⟨repeatAOrV_merge n hn, repeatAOrV_exhausts hn⟩

/-- Packets of one PID, with these DTS values. -/
def stampedQueue (pid : UInt16) (dts : List ℕ) : OutBuffer :=
  (dts.map fun t => TsPacket.new tsNullPacket pid t t false false).foldl .pushBack .new

/-- Two packets before the wrap of the clock and two of equal DTS behind it. -/
def acrossWrap (h : PacketHandler) : PacketHandler :=
  { h with
    outBuffA := stampedQueue 0x101 [2 ^ 33 - 10, 5]
    outBuffV := stampedQueue 0x100 [2 ^ 33 - 5, 5] }

theorem queues_merged_wrap : ∃ h₀, new Env.sample sampleOutput = some h₀ ∧
    ∃ marked, Merged EarlierDts h₀.acrossWrap.outBuffA.inner h₀.acrossWrap.outBuffV.inner marked ∧
      ∀ n, h₀.acrossWrap.queued ≤ n →
        (h₀.acrossWrap.repeatAOrV n).1 = marked.map value ∧ (h₀.acrossWrap.repeatAOrV n).2.getAOrV = none := by
  refine ⟨_, rfl, queues_merged (show ∀ p ∈ _, InWindow (2 ^ 33 - 10) p from ?_) ?_ ?_⟩
  · change ∀ p ∈ (stampedQueue 0x101 [2 ^ 33 - 10, 5]).inner ++ (stampedQueue 0x100 [2 ^ 33 - 5, 5]).inner, _
    decide
  · change (stampedQueue 0x101 [2 ^ 33 - 10, 5]).inner.IsChain _
    decide
  · change (stampedQueue 0x100 [2 ^ 33 - 5, 5]).inner.IsChain _
    decide

end PacketHandler

end MyMuxer
