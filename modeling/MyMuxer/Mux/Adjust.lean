import MyMuxer.Mux.Merged

/-!
# Cutting the queues (`mux.rs`)

* `Adjusts`: the loop of `buffer_adjust`, as the source runs it.
* `two_packets`: a queue of some duration holds two packets, so that the loop leaves a video packet.
* **`buffer_adjusted`**: the loop ends, and what it leaves.
-/

namespace MyMuxer

theorem dtsForwardDeltaMs_self {a : ℕ} (ha : a < 2 ^ 64) : dtsForwardDeltaMs a a = none := by
  have hdiff : wrappingSub a a = 0 := by rw [wrappingSub, Nat.add_sub_cancel' ha.le, Nat.mod_self]
  rw [dtsForwardDeltaMs, hdiff, Nat.zero_and]
  rfl

theorem OutBuffer.durationMs_nil {b : OutBuffer} (hb : b.inner = []) : b.durationMs = 0 := by
  rw [durationMs, front, back, hb]
  rfl

/-- A packet alone lasts for no time. -/
theorem OutBuffer.durationMs_singleton {b : OutBuffer} {p : TsPacket} (hp : p.dts < 2 ^ 64)
    (hb : b.inner = [p]) : b.durationMs = 0 := by
  rw [durationMs, front, back, hb, List.head?_cons, List.getLast?_singleton]
  dsimp only
  rw [dtsForwardDeltaMs_self hp]
  rfl

theorem OutBuffer.two_packets {b : OutBuffer} (hu64 : ∀ p ∈ b.inner, p.dts < 2 ^ 64)
    (hlong : 0 < b.durationMs) : ∃ first second rest, b.inner = first :: second :: rest := by
  match hb : b.inner with
  | [] => exact absurd (durationMs_nil hb) hlong.ne'
  | [p] =>
    have hp : p.dts < 2 ^ 64 := hu64 p (by rw [hb]; exact List.mem_singleton_self p)
    exact absurd (durationMs_singleton hp hb) hlong.ne'
  | first :: second :: rest => exact ⟨first, second, rest, rfl⟩

namespace PacketHandler

variable {h g g' : PacketHandler} {pkt : TsPacket}

/-! ## The loop -/

/-- One call of `get_a_or_v`, whose result is not looked at. -/
def dropNext (h : PacketHandler) : PacketHandler := (h.getAOrV.map Prod.snd).getD h

/-- The loop of `buffer_adjust` ends in a state. -/
inductive Adjusts : PacketHandler → PacketHandler → Prop where
  | stop {h : PacketHandler} : ¬ h.outBuffV.durationMs > h.bufferDurationMs → Adjusts h h
  | turn {h g : PacketHandler} : h.outBuffV.durationMs > h.bufferDurationMs → Adjusts h.dropNext g → Adjusts h g

theorem Adjusts.unique (hg : Adjusts h g) (hg' : Adjusts h g') : g = g' := by
  induction hg with
  | stop hshort =>
    cases hg' with
    | stop => rfl
    | turn hlong => exact absurd hlong hshort
  | turn hlong _ ih =>
    cases hg' with
    | stop hshort => exact absurd hlong hshort
    | turn _ hrest => exact ih hrest

/-! ## What it leaves -/

/-- Packets were taken off the fronts of the queues until the video queue is short enough; one of them stays. -/
structure Adjusted (h g : PacketHandler) : Prop where
  short : g.outBuffV.durationMs ≤ h.bufferDurationMs
  video : g.outBuffV.inner <:+ h.outBuffV.inner
  audio : g.outBuffA.inner <:+ h.outBuffA.inner
  inBuff : g.inBuff = h.inBuff
  nonempty : h.outBuffV.inner ≠ [] → g.outBuffV.inner ≠ []

theorem Adjusted.refl (hshort : ¬ h.outBuffV.durationMs > h.bufferDurationMs) : Adjusted h h :=
  ⟨not_lt.1 hshort, List.suffix_rfl, List.suffix_rfl, rfl, id⟩

theorem Popped.suffix (hpop : h.Popped pkt g) :
    g.outBuffV.inner <:+ h.outBuffV.inner ∧ g.outBuffA.inner <:+ h.outBuffA.inner := by
  rcases hpop with hpop | hpop
  · obtain ⟨b, hb, rfl⟩ := popV_eq hpop
    rw [hb]
    exact ⟨List.suffix_cons pkt b.inner, List.suffix_rfl⟩
  · obtain ⟨b, hb, rfl⟩ := popA_eq hpop
    rw [hb]
    exact ⟨List.suffix_rfl, List.suffix_cons pkt b.inner⟩

/-- Of two video packets, one stays. -/
theorem Popped.nonempty (hpop : h.Popped pkt g) {first second : TsPacket} {rest : List TsPacket}
    (hv : h.outBuffV.inner = first :: second :: rest) : g.outBuffV.inner ≠ [] := by
  rcases hpop with hpop | hpop
  · obtain ⟨b, hb, rfl⟩ := popV_eq hpop
    rw [hv, List.cons.injEq] at hb
    rw [← hb.2]
    exact List.cons_ne_nil second rest
  · obtain ⟨b, hb, rfl⟩ := popA_eq hpop
    rw [hv]
    exact List.cons_ne_nil first (second :: rest)

/-- A packet that leaves while there are two video packets. -/
theorem Adjusted.popped (hadjusted : Adjusted g g') (hpop : h.Popped pkt g) {first second : TsPacket}
    {rest : List TsPacket} (hv : h.outBuffV.inner = first :: second :: rest) : Adjusted h g' := by
  obtain ⟨hvideo, haudio⟩ := hpop.suffix
  have hrest := hadjusted.nonempty (hpop.nonempty hv)
  obtain ⟨b, c, rfl⟩ := popped_eq hpop
  exact ⟨hadjusted.short, hadjusted.video.trans hvideo, hadjusted.audio.trans haudio, hadjusted.inBuff,
    fun _ => hrest⟩

/-- As many turns as there are packets suffice. -/
theorem bufferAdjustLoop_adjusts : ∀ (fuel : ℕ) {h : PacketHandler}, (∀ p ∈ h.outBuffV.inner, p.dts < 2 ^ 64) →
    h.queued ≤ fuel → Adjusts h (bufferAdjustLoop fuel h) ∧ Adjusted h (bufferAdjustLoop fuel h) := by
  intro fuel
  induction fuel with
  | zero =>
    intro h hu64 hfuel
    have hv : h.outBuffV.inner.length + h.outBuffA.inner.length = 0 := Nat.le_zero.1 hfuel
    have hnil : h.outBuffV.inner = [] := List.length_eq_zero_iff.1 (by omega)
    have hshort : ¬ h.outBuffV.durationMs > h.bufferDurationMs := by
      rw [OutBuffer.durationMs_nil hnil]
      exact Nat.not_lt_zero _
    exact ⟨.stop hshort, .refl hshort⟩
  | succ fuel ih =>
    intro h hu64 hfuel
    rw [bufferAdjustLoop]
    by_cases hlong : h.outBuffV.durationMs > h.bufferDurationMs
    · obtain ⟨first, second, rest, hv⟩ := OutBuffer.two_packets hu64 (Nat.zero_lt_of_lt hlong)
      rw [if_pos hlong]
      cases hnext : h.getAOrV with
      | none =>
        -- the video queue is not empty here
        have hq := getAOrV_none hnext
        rw [queued, OutBuffer.len, hv, List.length_cons] at hq
        omega
      | some next =>
        have hpop := getAOrV_popped hnext
        have hq := (popped_queued hpop).1
        have hu64 : ∀ p ∈ next.2.outBuffV.inner, p.dts < 2 ^ 64 :=
          fun p hp => hu64 p (hpop.suffix.1.subset hp)
        obtain ⟨hloop, hadjusted⟩ := ih hu64 (show next.2.queued ≤ fuel by omega)
        have hdrop : h.dropNext = next.2 := by
          rw [dropNext, hnext]
          rfl
        exact ⟨.turn hlong (hdrop ▸ hloop), hadjusted.popped hpop hv⟩
    · rw [if_neg hlong]
      exact ⟨.stop hlong, .refl hlong⟩

/-- Output starts with the first of the packets that are left. -/
theorem startOutput_adjusted (env : Env) {bitrate : ℕ} (hbitrate : bitrate ≠ 0)
    (hlong : h.outBuffV.durationMs ≥ h.bufferDurationMs) (hadjusted : Adjusted h h.bufferAdjust)
    (hv : h.outBuffV.inner ≠ []) : ∃ pkt, h.bufferAdjust.outBuffV.front = some pkt ∧
      h.startOutput env bitrate = setReady { h.bufferAdjust with
        maxBuffSize := env.maxBuffSize bitrate h.bufferAdjust.bufferDurationMs h.bufferAdjust.adjustBuf } pkt.dts := by
  have hfront : h.bufferAdjust.outBuffV.front ≠ none := by
    rw [OutBuffer.front, Ne, List.head?_eq_none_iff]
    exact hadjusted.nonempty hv
  obtain ⟨pkt, hpkt⟩ := Option.ne_none_iff_exists'.1 hfront
  refine ⟨pkt, hpkt, ?_⟩
  rw [startOutput, if_pos ⟨hbitrate, hlong⟩]
  dsimp only
  rw [hpkt]

/-- **The loop ends**, and leaves suffixes of the queues with a short video queue that is not empty, so that
output starts with its first packet. -/
theorem buffer_adjusted (hu64 : ∀ p ∈ h.outBuffV.inner, p.dts < 2 ^ 64) :
    (∀ g, Adjusts h g ↔ g = h.bufferAdjust) ∧ Adjusted h h.bufferAdjust ∧
      ∀ env bitrate, bitrate ≠ 0 → h.outBuffV.durationMs ≥ h.bufferDurationMs → h.outBuffV.inner ≠ [] →
        ∃ pkt, h.bufferAdjust.outBuffV.front = some pkt ∧
          h.startOutput env bitrate = setReady { h.bufferAdjust with
            maxBuffSize := env.maxBuffSize bitrate h.bufferAdjust.bufferDurationMs h.bufferAdjust.adjustBuf } pkt.dts := by
  obtain ⟨hloop, hadjusted⟩ := bufferAdjustLoop_adjusts h.queued hu64 (le_refl h.queued)
  refine ⟨fun g => ⟨fun hg => hg.unique hloop, ?_⟩, hadjusted, ?_⟩
  · rintro rfl
    exact hloop
  · intro env bitrate hbitrate hlong hv
    exact startOutput_adjusted env hbitrate hlong hadjusted hv

/-- Three video packets, 50 ms apart, and an audio packet beside the second one. -/
def threeFrames (h : PacketHandler) : PacketHandler :=
  { h with
    outBuffA := stampedQueue 0x101 [4500]
    outBuffV := stampedQueue 0x100 [0, 4500, 9000] }

theorem buffer_adjusted_frames : ∃ h₀, new Env.sample sampleOutput = some h₀ ∧
    h₀.threeFrames.outBuffV.durationMs = 100 ∧ Adjusted h₀.threeFrames h₀.threeFrames.bufferAdjust := by
  refine ⟨_, rfl, ?_, (buffer_adjusted ?_).2.1⟩
  · change (stampedQueue 0x100 [0, 4500, 9000]).durationMs = 100
    decide
  · change ∀ p ∈ (stampedQueue 0x100 [0, 4500, 9000]).inner, p.dts < 2 ^ 64
    decide

end PacketHandler

end MyMuxer
