import MyMuxer.Mux.Cycles
import MyMuxer.Mux.Frames

/-!
# Which queue is next (`mux.rs`)

* `getAOrV_cons` and so on: the choice between the two queues, by their first packets.
* `release`: the table that `get_a_or_v_ready` and `get_a_or_v_drain` share.
* `Consistent`: both choose as `get_a_or_v` does, and no packet overtakes an earlier one.
* **`consistent_iff`**: in which states this is so.
-/

namespace MyMuxer

open Circle

theorem dtsAfter_asymm {a b : ℕ} (ha : a < 2 ^ 64) (hb : b < 2 ^ 64) (h : dtsAfter a b = true) :
    dtsAfter b a = false := by
  rw [dtsAfter_iff a hb.le, After] at h
  rw [← Bool.not_eq_true, dtsAfter_iff b ha.le, After, ahead_of_base dtsHalf_pos b a b, ahead_self]
  split_ifs
  · omega
  · omega

namespace PacketHandler

variable {h h' : PacketHandler} {a v : TsPacket} {as vs : List TsPacket}

/-! ## The first packets -/

theorem popV_cons (hv : h.outBuffV.inner = v :: vs) :
    ∃ b : OutBuffer, b.inner = vs ∧ h.popV = some (v, { h with outBuffV := b }) := by
  rw [popV, OutBuffer.popFront, hv]
  exact ⟨_, rfl, rfl⟩

theorem popA_cons (ha : h.outBuffA.inner = a :: as) :
    ∃ b : OutBuffer, b.inner = as ∧ h.popA = some (a, { h with outBuffA := b }) := by
  rw [popA, OutBuffer.popFront, ha]
  exact ⟨_, rfl, rfl⟩

theorem popV_nil (hv : h.outBuffV.inner = []) : h.popV = none := by
  rw [popV, OutBuffer.popFront, hv]
  rfl

theorem popA_nil (ha : h.outBuffA.inner = []) : h.popA = none := by
  rw [popA, OutBuffer.popFront, ha]
  rfl

theorem getAOrV_cons (ha : h.outBuffA.inner = a :: as) (hv : h.outBuffV.inner = v :: vs) :
    h.getAOrV = if dtsAfter a.dts v.dts then h.popV else h.popA := by
  rw [getAOrV, OutBuffer.front, OutBuffer.front, ha, hv]
  rfl

/-- Without audio packets. -/
theorem getAOrV_video (ha : h.outBuffA.inner = []) : h.getAOrV = h.popV := by
  rw [getAOrV, OutBuffer.front, OutBuffer.front, ha]
  cases hv : h.outBuffV.inner with
  | nil => exact (popV_nil hv).symm
  | cons v vs => rfl

/-- Without video packets. -/
theorem getAOrV_audio (hv : h.outBuffV.inner = []) : h.getAOrV = h.popA := by
  rw [getAOrV, OutBuffer.front, OutBuffer.front, hv]
  cases ha : h.outBuffA.inner with
  | nil => exact (popA_nil ha).symm
  | cons a as => rfl

/-! ## Packets that may be released -/

/-- The table of both conditional selections, for the packets that are free to go. -/
def release (h : PacketHandler) (free : TsPacket → Bool) : Option (TsPacket × PacketHandler) :=
  match h.outBuffA.front, h.outBuffV.front with
  | some a, some v =>
    if dtsAfter a.dts v.dts && free v then h.popV
    else if free a then h.popA
    else none
  | some a, none => if free a then h.popA else none
  | none, some v => if free v then h.popV else none
  | none, none => none

theorem getAOrVReady_eq (h : PacketHandler) :
    h.getAOrVReady = h.release fun p => h.readySend p.dts || p.discontinuity := rfl

theorem getAOrVDrain_eq (h : PacketHandler) : h.getAOrVDrain = h.release fun p => h.drainSend p.dts := rfl

variable (free : TsPacket → Bool)

theorem release_cons (ha : h.outBuffA.inner = a :: as) (hv : h.outBuffV.inner = v :: vs) :
    h.release free =
      if dtsAfter a.dts v.dts && free v then h.popV else if free a then h.popA else none := by
  rw [release, OutBuffer.front, OutBuffer.front, ha, hv]
  rfl

theorem release_video (ha : h.outBuffA.inner = []) {r : TsPacket × PacketHandler}
    (hr : h.release free = some r) : h.popV = some r := by
  rw [release, OutBuffer.front, OutBuffer.front, ha] at hr
  cases hv : h.outBuffV.inner with
  | nil => rw [hv] at hr; cases hr
  | cons v vs =>
    rw [hv] at hr
    exact (Option.ite_none_right_eq_some.1 hr).2

theorem release_audio (hv : h.outBuffV.inner = []) {r : TsPacket × PacketHandler}
    (hr : h.release free = some r) : h.popA = some r := by
  rw [release, OutBuffer.front, OutBuffer.front, hv] at hr
  cases ha : h.outBuffA.inner with
  | nil => rw [ha] at hr; cases hr
  | cons a as =>
    rw [ha] at hr
    exact (Option.ite_none_right_eq_some.1 hr).2

/-- Either queue has lost its first packet. -/
theorem popA_ne_popV (ha : h.outBuffA.inner = a :: as) (hv : h.outBuffV.inner = v :: vs) :
    h.popA ≠ h.popV := by
  obtain ⟨b, hb, hpopA⟩ := popA_cons ha
  obtain ⟨c, hc, hpopV⟩ := popV_cons hv
  rw [hpopA, hpopV]
  intro heq
  have hA := congrArg (fun r => r.elim [] fun p => p.2.outBuffA.inner) heq
  change b.inner = h.outBuffA.inner at hA
  rw [hb, ha] at hA
  exact List.cons_ne_self a as hA.symm

/-! ## Two heads -/

/-- Where the first video packet is the earlier one, it is free if the first audio packet is. -/
def FreesEarlier (h : PacketHandler) (free : TsPacket → Bool) : Prop :=
  ∀ a ∈ h.outBuffA.front, ∀ v ∈ h.outBuffV.front,
    dtsAfter a.dts v.dts = true → free a = true → free v = true

/-- With packets in both queues: the earlier one is free if the later one is. -/
theorem release_agrees_cons (ha : h.outBuffA.inner = a :: as) (hv : h.outBuffV.inner = v :: vs) :
    (∀ r, h.release free = some r → h.getAOrV = some r) ↔
      (dtsAfter a.dts v.dts = true → free a = true → free v = true) := by
  rw [release_cons free ha hv, getAOrV_cons ha hv]
  by_cases hafter : dtsAfter a.dts v.dts = true
  · rw [if_pos hafter, hafter, Bool.true_and]
    by_cases hfree : free v = true
    · rw [if_pos hfree]
      exact iff_of_true (fun r hr => hr) fun _ _ => hfree
    · rw [if_neg hfree]
      by_cases hfree' : free a = true
      · -- the audio packet is released, though the video packet is the earlier one
        rw [if_pos hfree']
        obtain ⟨b, -, hpop⟩ := popA_cons ha
        refine iff_of_false (fun hall => ?_) fun hall => hfree (hall rfl hfree')
        exact popA_ne_popV ha hv (hpop.trans (hall _ hpop).symm)
      · rw [if_neg hfree']
        exact iff_of_true (fun r hr => nomatch hr) fun _ hfree => absurd hfree hfree'
  · rw [if_neg hafter, Bool.eq_false_of_not_eq_true hafter, Bool.false_and, if_neg (by decide)]
    refine iff_of_true (fun r hr => ?_) fun h => absurd h (by decide)
    exact (Option.ite_none_right_eq_some.1 hr).2

/-- What is released is what `get_a_or_v` selects. -/
theorem release_agrees_iff :
    (∀ r, h.release free = some r → h.getAOrV = some r) ↔ h.FreesEarlier free := by
  unfold FreesEarlier OutBuffer.front
  cases ha : h.outBuffA.inner with
  | nil =>
    refine iff_of_true (fun r hr => ?_) fun a ha => nomatch ha
    rw [getAOrV_video ha]
    exact release_video free ha hr
  | cons a as =>
    cases hv : h.outBuffV.inner with
    | nil =>
      refine iff_of_true (fun r hr => ?_) fun _ _ v hv => nomatch hv
      rw [getAOrV_audio hv]
      exact release_audio free hv hr
    | cons v vs =>
      simp only [List.head?_cons, Option.mem_some_iff, forall_eq']
      exact release_agrees_cons free ha hv

/-- No packet is selected before an earlier one at the head of the other queue. -/
def NoOvertake (h : PacketHandler) (selected : Option (TsPacket × PacketHandler)) : Prop :=
  ∀ pkt h', selected = some (pkt, h') →
    (h.popA = some (pkt, h') → ∀ v ∈ h.outBuffV.front, dtsAfter pkt.dts v.dts = false) ∧
      (h.popV = some (pkt, h') → ∀ a ∈ h.outBuffA.front, dtsAfter pkt.dts a.dts = false)

/-- Both conditional selections select what `get_a_or_v` does, and no selection lets a packet overtake an
earlier one. -/
structure Consistent (h : PacketHandler) : Prop where
  ready : ∀ r, h.getAOrVReady = some r → h.getAOrV = some r
  drain : ∀ r, h.getAOrVDrain = some r → h.getAOrV = some r
  noOvertake : h.NoOvertake h.getAOrV ∧ h.NoOvertake h.getAOrVReady ∧ h.NoOvertake h.getAOrVDrain

/-- Where the first video packet is earlier than the first audio packet, it is ready or flagged if that one
is, and due if that one is. -/
def HeadsAgree (h : PacketHandler) : Prop :=
  h.FreesEarlier (fun p => h.readySend p.dts || p.discontinuity) ∧ h.FreesEarlier fun p => h.drainSend p.dts

theorem NoOvertake.of_agrees {selected : Option (TsPacket × PacketHandler)} (hany : h.NoOvertake h.getAOrV)
    (hagrees : ∀ r, selected = some r → h.getAOrV = some r) : h.NoOvertake selected :=
  fun pkt h' hselected => hany pkt h' (hagrees (pkt, h') hselected)

/-- Of two heads, the earlier one is selected by `get_a_or_v`. -/
theorem getAOrV_noOvertake_cons (ha : h.outBuffA.inner = a :: as) (hv : h.outBuffV.inner = v :: vs)
    (hdtsA : a.dts < 2 ^ 64) (hdtsV : v.dts < 2 ^ 64) : h.NoOvertake h.getAOrV := by
  intro pkt h' hselected
  have hne := popA_ne_popV ha hv
  rw [getAOrV_cons ha hv] at hselected
  rw [OutBuffer.front, OutBuffer.front, ha, hv]
  by_cases hafter : dtsAfter a.dts v.dts = true
  · rw [if_pos hafter] at hselected
    refine ⟨fun hpop => absurd (hpop.trans hselected.symm) hne, fun _ a' hfront => ?_⟩
    cases hfront
    obtain ⟨b, -, hpop⟩ := popV_cons hv
    cases hselected.symm.trans hpop
    exact dtsAfter_asymm hdtsA hdtsV hafter
  · rw [if_neg hafter] at hselected
    refine ⟨fun _ v' hfront => ?_, fun hpop => absurd (hselected.trans hpop.symm) hne⟩
    cases hfront
    obtain ⟨b, -, hpop⟩ := popA_cons ha
    cases hselected.symm.trans hpop
    exact Bool.eq_false_of_not_eq_true hafter

theorem getAOrV_noOvertake (hu64 : ∀ p ∈ h.outBuffA.inner ++ h.outBuffV.inner, p.dts < 2 ^ 64) :
    h.NoOvertake h.getAOrV := by
  cases ha : h.outBuffA.inner with
  | nil =>
    intro pkt h' _
    rw [popA_nil ha, OutBuffer.front, OutBuffer.front, ha]
    exact ⟨nofun, fun _ a hfront => (nomatch hfront)⟩
  | cons a as =>
    cases hv : h.outBuffV.inner with
    | nil =>
      intro pkt h' _
      rw [popV_nil hv, OutBuffer.front, OutBuffer.front, hv]
      exact ⟨fun _ v hfront => (nomatch hfront), nofun⟩
    | cons v vs =>
      rw [ha, hv] at hu64
      exact getAOrV_noOvertake_cons ha hv (hu64 a (by simp)) (hu64 v (by simp))

theorem Consistent.headsAgree (hconsistent : h.Consistent) : h.HeadsAgree := by
  obtain ⟨hready, hdrain, -⟩ := hconsistent
  rw [getAOrVReady_eq] at hready
  rw [getAOrVDrain_eq] at hdrain
  exact ⟨(release_agrees_iff _).1 hready, (release_agrees_iff _).1 hdrain⟩

/-- **The three selections agree exactly where the earlier head is free if the later one is.** -/
theorem consistent_iff (hu64 : ∀ p ∈ h.outBuffA.inner ++ h.outBuffV.inner, p.dts < 2 ^ 64) :
    h.Consistent ↔ h.HeadsAgree := by
  have hany := getAOrV_noOvertake hu64
  refine ⟨Consistent.headsAgree, ?_⟩
  rintro ⟨hready, hdrain⟩
  have hready := (release_agrees_iff _).2 hready
  have hdrain := (release_agrees_iff _).2 hdrain
  rw [← getAOrVReady_eq] at hready
  rw [← getAOrVDrain_eq] at hdrain
  exact ⟨hready, hdrain, hany, hany.of_agrees hready, hany.of_agrees hdrain⟩

/-- A video packet 2000 ms after the clock value 0. -/
def waitingVideo : TsPacket := TsPacket.new tsNullPacket 0x100 180000 180000 true false

/-- An audio packet 1 ms later, with a flag or without one. -/
def laterAudio (discontinuity : Bool) : TsPacket :=
  TsPacket.new tsNullPacket 0x101 180090 180090 true discontinuity

/-- A clock that reads 0, and these two packets in the queues. -/
def withHeads (h : PacketHandler) (discontinuity : Bool) : PacketHandler :=
  { h with
    pcrRestamper := some { targetBitrateBps := 0, totalPacketsSent := 0, firstPcrValue := some 0 }
    outBuffV := OutBuffer.new.pushBack waitingVideo
    outBuffA := OutBuffer.new.pushBack (laterAudio discontinuity) }

theorem consistent_iff_sample : ∃ h₀, new Env.sample sampleOutput = some h₀ ∧
    (h₀.withHeads false).Consistent := by
  refine ⟨_, rfl, (consistent_iff ?_).2 ⟨?_, ?_⟩⟩
  · intro p hp
    change p ∈ [laterAudio false, waitingVideo] at hp
    rw [List.mem_pair] at hp
    rcases hp with rfl | rfl
    · decide
    · decide
  · intro a ha v _ _ hfree
    cases ha
    exact absurd hfree (by decide)
  · intro a ha v _ _ hfree
    cases ha
    exact absurd hfree (by decide)

/-- A flagged audio packet overtakes a video packet that is not ready yet. -/
theorem flagged_overtakes : ∃ h₀, new Env.sample sampleOutput = some h₀ ∧
    ¬ (h₀.withHeads true).Consistent := by
  refine ⟨_, rfl, fun hconsistent => ?_⟩
  exact absurd (hconsistent.headsAgree.1 _ rfl _ rfl (by decide) (by decide)) (by decide)

end PacketHandler

end MyMuxer
