import MyMuxer.Lib.Fifo
import MyMuxer.Mux.Cycles
import MyMuxer.Mux.Queue

/-!
# What an output queue counts

* `QueueOp`: the calls that change a queue; `OutBuffer.after`, `OutBuffer.left`, `entered`: the queue after them, and
  what leaves and enters it.
* `OutBuffer.Counted`: the counters are those of the queued packets; `step_counted`: every call keeps this.
* `after_served`: up to the next `clear` a queue is first in, first out; `isDirty_iff`: when it is dirty.
* **`counted_after`**: all of it, after any calls.
-/

namespace MyMuxer

open Circle Fifo

inductive QueueOp where
  | pushBack (pkt : TsPacket)
  | popFront
  | clear
  deriving DecidableEq

/-- The packets that the calls push. -/
def entered (ops : List QueueOp) : List TsPacket :=
  ops.filterMap fun
    | .pushBack pkt => some pkt
    | _ => none

namespace OutBuffer

variable {b b' : OutBuffer} {pkt : TsPacket} {op : QueueOp} {ops : List QueueOp} {fed out : List TsPacket}

def step (b : OutBuffer) : QueueOp → OutBuffer
  | .pushBack pkt => b.pushBack pkt
  | .popFront => (b.popFront.map Prod.snd).getD b
  | .clear => b.clear

/-- What a call returns. -/
def leaves (b : OutBuffer) : QueueOp → Option TsPacket
  | .popFront => b.popFront.map Prod.fst
  | _ => none

def after (b : OutBuffer) (ops : List QueueOp) : OutBuffer := ops.foldl step b

/-- The packets that the calls return. -/
def left (b : OutBuffer) : List QueueOp → List TsPacket
  | [] => []
  | op :: ops => (b.leaves op).toList ++ (b.step op).left ops

/-- The counters are those of the queue. -/
structure Counted (b : OutBuffer) : Prop where
  frames : b.uniqueFramesCount = b.inner.countP (·.pusi)
  pcrs : b.pcrCount = b.inner.countP (·.pcr.isSome)

theorem entered_cons (op : QueueOp) (ops : List QueueOp) : entered (op :: ops) = entered [op] ++ entered ops := by
  cases op with
  | pushBack pkt => rfl
  | popFront => rfl
  | clear => rfl

theorem popFront_cons (b : OutBuffer) {inner : List TsPacket} (h : b.inner = pkt :: inner) : b.popFront = some (pkt,
    { inner
      uniqueFramesCount := if pkt.pusi then b.uniqueFramesCount - 1 else b.uniqueFramesCount
      pcrCount := if pkt.pcr.isSome then b.pcrCount - 1 else b.pcrCount }) := by
  rw [popFront, h]

theorem popFront_nil (h : b.inner = []) : b.popFront = none := by rw [popFront, h]

theorem step_popFront_nil (h : b.inner = []) : b.step .popFront = b ∧ b.leaves .popFront = none := by
  rw [step, leaves, popFront_nil h]
  exact ⟨rfl, rfl⟩

theorem step_popFront_cons {inner : List TsPacket} (h : b.inner = pkt :: inner) :
    (b.step .popFront).inner = inner ∧ b.leaves .popFront = some pkt := by
  rw [step, leaves, popFront_cons b h]
  exact ⟨rfl, rfl⟩

/-! ## The counters -/

/-- What a packet at the front counts for is counted. -/
theorem Counted.front_le (h : b.Counted) (hp : b.popFront = some (pkt, b')) :
    (pkt.pusi = true → 0 < b.uniqueFramesCount) ∧ (pkt.pcr.isSome = true → 0 < b.pcrCount) := by
  rw [h.frames, h.pcrs, popFront_eq_some hp]
  exact ⟨fun hpusi => List.countP_pos_iff.2 ⟨pkt, List.mem_cons_self, hpusi⟩,
    fun hpcr => List.countP_pos_iff.2 ⟨pkt, List.mem_cons_self, hpcr⟩⟩

theorem step_counted (h : b.Counted) (op : QueueOp) : (b.step op).Counted := by
  cases op with
  | pushBack pkt =>
    constructor
    · change (if pkt.pusi then b.uniqueFramesCount + 1 else b.uniqueFramesCount) = (b.inner ++ [pkt]).countP _
      rw [List.countP_append, List.countP_singleton, h.frames]
      split_ifs
      · rfl
      · rfl
    · change (if pkt.pcr.isSome then b.pcrCount + 1 else b.pcrCount) = (b.inner ++ [pkt]).countP _
      rw [List.countP_append, List.countP_singleton, h.pcrs]
      split_ifs
      · rfl
      · rfl
  | popFront =>
    cases hinner : b.inner with
    | nil =>
      rw [step, popFront_nil hinner]
      exact h
    | cons pkt inner =>
      rw [step, popFront_cons b hinner]
      constructor
      · change (if pkt.pusi then b.uniqueFramesCount - 1 else b.uniqueFramesCount) = inner.countP _
        rw [h.frames, hinner, List.countP_cons]
        split_ifs
        · exact Nat.add_sub_cancel ..
        · rfl
      · change (if pkt.pcr.isSome then b.pcrCount - 1 else b.pcrCount) = inner.countP _
        rw [h.pcrs, hinner, List.countP_cons]
        split_ifs
        · exact Nat.add_sub_cancel ..
        · rfl
  | clear => exact ⟨rfl, rfl⟩

theorem after_counted (h : b.Counted) (ops : List QueueOp) : (b.after ops).Counted := by
  induction ops generalizing b with
  | nil => exact h
  | cons op ops ih => exact ih (step_counted h op)

/-! ## The order -/

theorem step_served (h : Served (· = ·) fed b.inner out) (hop : op ≠ .clear) :
    Served (· = ·) (fed ++ entered [op]) (b.step op).inner (out ++ (b.leaves op).toList) := by
  cases op with
  | pushBack pkt =>
    change Served _ (fed ++ [pkt]) (b.inner ++ [pkt]) (out ++ [])
    rw [List.append_nil]
    exact h.feed [pkt]
  | popFront =>
    have hentered : fed ++ entered [.popFront] = fed := List.append_nil fed
    rw [hentered]
    cases hinner : b.inner with
    | nil =>
      obtain ⟨hstep, hleaves⟩ := step_popFront_nil hinner
      rw [hstep, hleaves, Option.toList_none, List.append_nil]
      exact h
    | cons pkt inner =>
      obtain ⟨hstep, hleaves⟩ := step_popFront_cons hinner
      rw [hinner] at h
      rw [hstep, hleaves]
      exact h.serve rfl
  | clear => exact absurd rfl hop

/-- **Until it is cleared, a queue serves what it is fed in order.** -/
theorem after_served (h : Served (· = ·) fed b.inner out) (hops : .clear ∉ ops) :
    Served (· = ·) (fed ++ entered ops) (b.after ops).inner (out ++ b.left ops) := by
  induction ops generalizing b fed out with
  | nil =>
    rw [left, List.append_nil]
    exact (List.append_nil fed).symm ▸ h
  | cons op ops ih =>
    have hop : op ≠ .clear := fun he => hops (he ▸ List.mem_cons_self)
    have hrun := ih (step_served h hop) fun hmem => hops (List.mem_cons_of_mem op hmem)
    rwa [List.append_assoc, List.append_assoc, ← entered_cons] at hrun

/-- What leaves has been in the queue or entered it, in this order. -/
theorem left_sublist (b : OutBuffer) (ops : List QueueOp) : (b.left ops).Sublist (b.inner ++ entered ops) := by
  induction ops generalizing b with
  | nil => exact List.nil_sublist _
  | cons op ops ih =>
    have hrun := ih (b.step op)
    cases op with
    | pushBack pkt =>
      change (left _ ops).Sublist ((b.inner ++ [pkt]) ++ entered ops) at hrun
      rw [List.append_assoc] at hrun
      exact hrun
    | popFront =>
      rw [left]
      cases hinner : b.inner with
      | nil =>
        obtain ⟨hstep, hleaves⟩ := step_popFront_nil hinner
        rw [hstep, hinner] at hrun
        rw [hstep, hleaves]
        exact hrun
      | cons pkt inner =>
        obtain ⟨hstep, hleaves⟩ := step_popFront_cons hinner
        rw [hstep] at hrun
        rw [hleaves]
        exact hrun.cons_cons pkt
    | clear => exact hrun.trans (List.sublist_append_right b.inner _)

/-- What is queued has been in the queue or entered it. -/
theorem mem_after (ops : List QueueOp) (hpkt : pkt ∈ (b.after ops).inner) : pkt ∈ b.inner ∨ pkt ∈ entered ops := by
  induction ops generalizing b with
  | nil => exact .inl hpkt
  | cons op ops ih =>
    rw [entered_cons, List.mem_append, ← or_assoc]
    refine (ih hpkt).imp_left fun hmem => ?_
    cases op with
    | pushBack pkt' => exact List.mem_append.1 hmem
    | popFront =>
      cases hinner : b.inner with
      | nil =>
        rw [(step_popFront_nil hinner).1, hinner] at hmem
        exact .inl hmem
      | cons pkt' inner =>
        rw [(step_popFront_cons hinner).1] at hmem
        exact .inl (List.mem_cons_of_mem pkt' hmem)
    | clear => exact absurd hmem List.not_mem_nil

/-! ## Dirty queues -/

/-- No millisecond ahead. -/
theorem forwardDelta_eq_zero (newDts : ℕ) {lastDts : ℕ} (h : lastDts ≤ 2 ^ 64) : (dtsForwardDeltaMs newDts lastDts).getD 0 = 0 ↔
    ¬ (After dtsHalf newDts lastDts ∧ 90 ≤ ahead dtsHalf newDts lastDts) := by
  rw [dtsForwardDeltaMs, dtsDiff_eq newDts h, After]
  split_ifs with hahead
  · rw [Option.getD_some]
    omega
  · rw [Option.getD_none]
    omega

/-- **When a queue is dirty.** -/
theorem isDirty_iff (h : b.Counted) (hdts : ∀ pkt ∈ b.inner, pkt.dts < 2 ^ 64) : b.isDirty = true ↔
    1 < b.inner.countP (·.pusi) ∧ ∀ first last, b.inner.head? = some first → b.inner.getLast? = some last →
      ¬ (After dtsHalf last.dts first.dts ∧ 90 ≤ ahead dtsHalf last.dts first.dts) := by
  rw [isDirty, decide_eq_true_iff, h.frames, and_comm]
  refine and_congr_right fun hframes => ?_
  obtain ⟨first, hfirst⟩ : ∃ first, b.inner.head? = some first := by
    cases hinner : b.inner with
    | nil =>
      rw [hinner] at hframes
      exact absurd hframes (Nat.not_lt_zero 1)
    | cons pkt inner => exact ⟨pkt, rfl⟩
  have hmem : first ∈ b.inner := List.mem_of_head? hfirst
  obtain ⟨last, hlast⟩ : ∃ last, b.inner.getLast? = some last :=
    ⟨_, List.getLast?_eq_some_getLast (List.ne_nil_of_mem hmem)⟩
  rw [durationMs, front, back, hfirst, hlast]
  dsimp only
  rw [forwardDelta_eq_zero last.dts (hdts first hmem).le]
  exact ⟨fun hd _ _ hf hl => Option.some.inj hf ▸ Option.some.inj hl ▸ hd, fun hd => hd first last rfl rfl⟩

/-- **After any calls the counters are those of the queue**, `pop_front` takes nothing from a counter at zero, the
packets leave in the order in which they entered, all of them up to the next `clear`; and when the queue is dirty.
A `dts` is a `u64`. -/
theorem counted_after (ops : List QueueOp) (hdts : ∀ pkt ∈ entered ops, pkt.dts < 2 ^ 64) :
    (new.after ops).Counted ∧
      (∀ pkt b', (new.after ops).popFront = some (pkt, b') → (pkt.pusi = true → 0 < (new.after ops).uniqueFramesCount) ∧
        (pkt.pcr.isSome = true → 0 < (new.after ops).pcrCount)) ∧
      (new.left ops).Sublist (entered ops) ∧
      (∀ since, .clear ∉ since →
        (new.after ops).inner ++ entered since = (new.after ops).left since ++ ((new.after ops).after since).inner) ∧
      ((new.after ops).isDirty = true ↔ 1 < (new.after ops).inner.countP (·.pusi) ∧
        ∀ first last, (new.after ops).inner.head? = some first → (new.after ops).inner.getLast? = some last →
          ¬ (After dtsHalf last.dts first.dts ∧ 90 ≤ ahead dtsHalf last.dts first.dts)) := by
  have hcounted : (new.after ops).Counted := after_counted ⟨rfl, rfl⟩ ops
  have hqueued : ∀ pkt ∈ (new.after ops).inner, pkt.dts < 2 ^ 64 := fun pkt hpkt =>
    hdts pkt ((mem_after ops hpkt).resolve_left List.not_mem_nil)
  refine ⟨hcounted, fun pkt b' hp => hcounted.front_le hp, left_sublist new ops, fun since hsince => ?_,
    isDirty_iff hcounted hqueued⟩
  obtain ⟨taken, hfed, hout⟩ := after_served (Served.start (new.after ops).inner) hsince
  rw [List.forall₂_eq_eq_eq, List.nil_append] at hout
  rw [hfed, hout]

/-- The start of a frame. -/
def frameAt (dts : ℕ) : TsPacket := TsPacket.new tsNullPacket 0x100 dts dts true false

/-- Two frames less than a millisecond apart, across the end of the time stamps. -/
def wrapOps : List QueueOp := [.pushBack (frameAt 9000), .popFront, .pushBack (frameAt dtsMask), .pushBack (frameAt 40)]

theorem counted_wrap : (new.after wrapOps).uniqueFramesCount = 2 ∧ (new.after wrapOps).isDirty = true := by
  have hdts : ∀ pkt ∈ entered wrapOps, pkt.dts < 2 ^ 64 := by
    intro pkt hpkt
    obtain ⟨dts, rfl, hlt⟩ : ∃ dts, pkt = frameAt dts ∧ dts < 2 ^ 64 := by
      simp only [wrapOps, entered, List.filterMap_cons, List.filterMap_nil, List.mem_cons, List.not_mem_nil, or_false] at hpkt
      rcases hpkt with rfl | rfl | rfl
      · exact ⟨_, rfl, by decide⟩
      · exact ⟨_, rfl, by decide⟩
      · exact ⟨_, rfl, by decide⟩
    exact hlt
  obtain ⟨hcounted, -, -, -, hdirty⟩ := counted_after wrapOps hdts
  have hinner : (new.after wrapOps).inner = [frameAt dtsMask, frameAt 40] := rfl
  rw [hinner] at hdirty
  refine ⟨hcounted.frames.trans ?_, hdirty.2 ⟨?_, fun first last hfirst hlast => ?_⟩⟩
  · rw [hinner]
    rfl
  · exact Nat.one_lt_two
  · obtain rfl : frameAt dtsMask = first := Option.some.inj hfirst
    obtain rfl : frameAt 40 = last := Option.some.inj hlast
    exact fun h => absurd h.2 (by decide)

end OutBuffer

end MyMuxer
