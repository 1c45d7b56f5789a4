import MyMuxer.Mux.Cycles
import MyMuxer.Mux.Frames

/-!
# Release and drift (`mux.rs`)

A queued packet is released `jitter_ms` ahead of the clock of the output at most, and
`process_packet` sets the clock anew for a packet outside of a window of fixed size.

* `ahead_of_ready`: how far a packet that is ready is ahead of the clock; `dtsDrift_of_ahead`: what
  `dts_drift` makes of it.
* `KeepsClock`: no packet that is ready, and not behind the clock, sets it anew.
* **`keepsClock_iff`**: for which configurations this is so.
-/

namespace MyMuxer

open Circle

namespace PacketHandler

/-! ## How far ahead a packet is released -/

theorem pcrSub_pcrNormalize (p t : ℕ) : pcrSub (pcrNormalize p) t = pcrSub p t := by
  rw [pcrSub_eq, pcrSub_eq, pcrNormalize, Nat.mod_mod]

variable {h h' : PacketHandler} {dts pcr : ℕ}

/-- No jitter is as large as half of the clock. -/
theorem jitter_lt_half {ms : ℕ} (hms : ms ≤ maxJitterMs) : ms * 27000 < pcrHalf := by
  have hmax : maxJitterMs * 27000 < pcrHalf := by decide
  exact (Nat.mul_le_mul_right _ hms).trans_lt hmax

theorem readySend_eq (hpcr : h.getPcr = some pcr) :
    h.readySend dts = !pcrAfter (pcrNormalize (dts * 300)) (pcrAdd pcr (h.jitterMs * 27000)) := by
  rw [readySend, hpcr]

theorem ahead_of_ready (hpcr : h.getPcr = some pcr) (hpos : 0 < h.jitterMs) (hle : h.jitterMs ≤ maxJitterMs)
    (hready : h.readySend dts = true) (hbehind : pcrAfter pcr (dts * 300) = false) :
    ahead pcrHalf (dts * 300) pcr ≤ h.jitterMs * 27000 := by
  have hsmall := jitter_lt_half hle
  rw [readySend_eq hpcr, Bool.not_eq_true', ← Bool.not_eq_true, pcrAfter_add _ _ hsmall,
    pcrSub_pcrNormalize, pcrSub_eq_ahead] at hready
  rw [← Bool.not_eq_true, pcrAfter_iff_after, After, ahead_of_base pcrHalf_pos pcr (dts * 300) pcr,
    ahead_self] at hbehind
  have hlt := ahead_lt pcrHalf_pos (dts * 300) pcr
  split_ifs at hbehind
  · omega
  · omega

/-! ## The drift in milliseconds -/

/-- The clock in units of 90 kHz is rounded down. -/
theorem ahead_dts (hpcr : pcr < pcrCycle) (h : ahead pcrHalf (dts * 300) pcr < pcrHalf) :
    300 * ahead dtsHalf dts (pcr / 300) = ahead pcrHalf (dts * 300) pcr + pcr % 300 := by
  have hrest : ahead pcrHalf pcr (300 * (pcr / 300)) = pcr % 300 := by
    unfold ahead
    rw [two_mul_pcrHalf, Nat.mod_eq_of_lt hpcr, Nat.mod_eq_of_lt (by omega)]
    split_ifs
    · omega
    · omega
  have hmul : ahead pcrHalf (dts * 300) (300 * (pcr / 300)) = 300 * ahead dtsHalf dts (pcr / 300) := by
    rw [Nat.mul_comm dts, ← mul_dtsHalf]
    exact ahead_mul dts (pcr / 300) (by norm_num)
  have hbig : 300 < pcrHalf := by decide
  have hbase := ahead_of_base pcrHalf_pos (dts * 300) pcr (300 * (pcr / 300))
  rw [hrest, hmul] at hbase
  split_ifs at hbase
  · omega
  · omega

theorem dtsDrift_of_ahead (hpcr : h.getPcr = some pcr) {ms : ℕ} (hms : ms ≤ maxJitterMs)
    (hlt : pcr < pcrCycle) (hahead : ahead pcrHalf (dts * 300) pcr ≤ ms * 27000) :
    0 ≤ h.dtsDrift dts ∧ h.dtsDrift dts ≤ ms := by
  have hdts := ahead_dts hlt (hahead.trans_lt (jitter_lt_half hms))
  have hmod := Nat.mod_lt pcr (show 0 < 300 by norm_num)
  have hle : ahead dtsHalf dts (pcr / 300) ≤ ms * 90 := by omega
  have hcycle : pcrCycle ≤ 2 ^ 64 := by decide
  have hhalf : maxJitterMs * 90 < dtsHalf := by decide
  have hms : ms * 90 ≤ maxJitterMs * 90 := Nat.mul_le_mul_right _ hms
  rw [dtsDrift, hpcr]
  dsimp only
  rw [dtsSignedDelta_eq dts (show pcr / 300 ≤ 2 ^ 64 by omega), signed, if_pos (by omega)]
  generalize ahead dtsHalf dts (pcr / 300) = d at hle
  rw [Int.tdiv_eq_ediv_of_nonneg (by omega)]
  omega

/-! ## The clock is kept -/

/-- A packet that is released because its time has come, is not behind the clock and has no flag leaves
the clock as it is. -/
def KeepsClock (jitterMs : ℕ) : Prop :=
  ∀ (h h' : PacketHandler) (pkt : TsPacket) (pcr : ℕ), h.jitterMs = jitterMs → h.getPcr = some pcr →
    h.getAOrVReady = some (pkt, h') → h.readySend pkt.dts = true → pkt.discontinuity = false →
    pcrAfter pcr (pkt.dts * 300) = false →
    (minDtsPcrDiffMs ≤ h'.dtsDrift pkt.dts ∧ h'.dtsDrift pkt.dts ≤ maxDtsPcrDiffMs) ∧
      h'.signalJump pkt = (pkt.data, none, h')

theorem Popped.getPcr {pkt : TsPacket} (hp : h.Popped pkt h') : h'.getPcr = h.getPcr := by
  rcases hp with hp | hp
  · obtain ⟨b, -, rfl⟩ := popV_eq hp
    rfl
  · obtain ⟨b, -, rfl⟩ := popA_eq hp
    rfl

theorem getPcr_lt (hpcr : h.getPcr = some pcr) : pcr < pcrCycle := by
  obtain ⟨r, -, hr⟩ := Option.bind_eq_some_iff.1 hpcr
  exact PcrRestamper.getPcr_lt hr

theorem signalJump_of_window {pkt : TsPacket} (hflag : pkt.discontinuity = false)
    (hlow : minDtsPcrDiffMs ≤ h.dtsDrift pkt.dts) (hhigh : h.dtsDrift pkt.dts ≤ maxDtsPcrDiffMs) :
    h.signalJump pkt = (pkt.data, none, h) := by
  have hneeds : h.needsResync pkt = false := by
    rw [needsResync, hflag, Bool.false_or, Bool.not_eq_false', decide_eq_true_iff]
    exact ⟨hlow, hhigh⟩
  rw [signalJump, hneeds]
  rfl

theorem keepsClock_of_le {jitterMs : ℕ} (hpos : 0 < jitterMs) (hle : jitterMs ≤ maxDtsPcrDiffMs) :
    KeepsClock jitterMs := by
  intro h h' pkt pcr hjitter hpcr hpop hready hflag hbehind
  have hmax : maxDtsPcrDiffMs ≤ maxJitterMs := by decide
  rw [← hjitter] at hpos hle
  have hahead := ahead_of_ready hpcr hpos (hle.trans hmax) hready hbehind
  have hpcr' : h'.getPcr = some pcr := (getAOrVReady_popped hpop).getPcr.trans hpcr
  obtain ⟨hlow, hhigh⟩ := dtsDrift_of_ahead hpcr' (hle.trans hmax) (getPcr_lt hpcr) hahead
  have hhigh : h'.dtsDrift pkt.dts ≤ maxDtsPcrDiffMs := hhigh.trans (Int.ofNat_le.2 hle)
  exact ⟨⟨hlow, hhigh⟩, signalJump_of_window hflag hlow hhigh⟩

/-- A video packet `ms` milliseconds after the clock value 0. -/
def leadingPacket (ms : ℕ) : TsPacket := TsPacket.new tsNullPacket 0x100 (90 * ms) (90 * ms) true false

/-- A clock that reads 0, and that packet alone in the queues. -/
def withLeading (h : PacketHandler) (ms : ℕ) : PacketHandler :=
  { h with
    pcrRestamper := some { targetBitrateBps := 0, totalPacketsSent := 0, firstPcrValue := some 0 }
    outBuffV := OutBuffer.new.pushBack (leadingPacket ms)
    outBuffA := .new }

theorem ahead_leading {ms : ℕ} (hms : ms ≤ maxJitterMs) : ahead pcrHalf (90 * ms * 300) 0 = ms * 27000 := by
  have hsum : 90 * ms * 300 = ms * 27000 := by ring
  have hcycle : pcrHalf < pcrCycle := by decide
  have hsmall : ms * 27000 < pcrCycle := (jitter_lt_half hms).trans hcycle
  rw [ahead, two_mul_pcrHalf, hsum, Nat.mod_eq_of_lt hsmall, Nat.zero_mod, if_pos (Nat.zero_le _), Nat.sub_zero]

theorem readySend_leading (hpcr : h.getPcr = some 0) (hle : h.jitterMs ≤ maxJitterMs) :
    h.readySend (90 * h.jitterMs) = true := by
  rw [readySend_eq hpcr, Bool.not_eq_true', ← Bool.not_eq_true, pcrAfter_add _ _ (jitter_lt_half hle),
    pcrSub_pcrNormalize, pcrSub_eq_ahead, ahead_leading hle]
  omega

theorem not_behind_leading {ms : ℕ} (hpos : 0 < ms) (hms : ms ≤ maxJitterMs) :
    pcrAfter 0 (90 * ms * 300) = false := by
  have hlt := jitter_lt_half hms
  rw [← Bool.not_eq_true, pcrAfter_iff_after, After, ahead_of_base pcrHalf_pos 0 _ 0, ahead_self,
    ahead_leading hms, if_neg (by omega)]
  generalize pcrHalf = half at hlt
  omega

theorem getAOrVReady_leading {ms : ℕ} (hready : (h.withLeading ms).readySend (90 * ms) = true) :
    (h.withLeading ms).getAOrVReady = some (leadingPacket ms, { h.withLeading ms with outBuffV := .new }) := by
  have hsend : (h.withLeading ms).readySend (leadingPacket ms).dts = true := hready
  change (if (h.withLeading ms).readySend (leadingPacket ms).dts || (leadingPacket ms).discontinuity then _ else none) =
    _
  rw [hsend]
  rfl

/-- Its drift is as large as its time ahead of the clock. -/
theorem dtsDrift_leading (hpcr : h.getPcr = some 0) {ms : ℕ} (hms : ms ≤ maxJitterMs) :
    h.dtsDrift (90 * ms) = ms := by
  have hlt : ahead pcrHalf (90 * ms * 300) 0 < pcrHalf := (ahead_leading hms).trans_lt (jitter_lt_half hms)
  have hdts := ahead_dts (show 0 < pcrCycle by decide) hlt
  rw [Nat.zero_div, ahead_leading hms] at hdts
  have hhalf : maxJitterMs * 90 < dtsHalf := by decide
  have hticks : ms * 90 < dtsHalf := (Nat.mul_le_mul_right _ hms).trans_lt hhalf
  rw [dtsDrift, hpcr]
  change (dtsSignedDelta (90 * ms) (0 / 300)).tdiv 90 = ms
  rw [Nat.zero_div, dtsSignedDelta_eq _ (Nat.zero_le _), signed, if_pos (by omega),
    Int.tdiv_eq_ediv_of_nonneg (by omega)]
  omega

/-- A packet that is released more than the window ahead of the clock. -/
theorem not_keepsClock (h : PacketHandler) (hle : h.jitterMs ≤ maxJitterMs) (hlt : maxDtsPcrDiffMs < h.jitterMs) :
    ¬ KeepsClock h.jitterMs := by
  intro hkeeps
  have hready : (h.withLeading h.jitterMs).readySend (90 * h.jitterMs) = true := readySend_leading rfl hle
  have hbehind := not_behind_leading (Nat.zero_lt_of_lt hlt) hle
  have hpop := getAOrVReady_leading hready
  obtain ⟨⟨-, hhigh⟩, -⟩ := hkeeps (h.withLeading h.jitterMs) _ (leadingPacket h.jitterMs) 0 rfl rfl hpop hready rfl
    hbehind
  have hdrift := dtsDrift_leading ((getAOrVReady_popped hpop).getPcr.trans rfl) hle
  have hhigh : (h.jitterMs : ℤ) ≤ maxDtsPcrDiffMs := hdrift ▸ hhigh
  omega

/-- **Released packets leave the clock alone exactly where the jitter is not larger than the window.** -/
theorem keepsClock_iff (env : Env) {output : Output} {program : Program} {h₀ : PacketHandler}
    (hprogram : output.programs = [program]) (hnew : new env output = some h₀) :
    KeepsClock h₀.jitterMs ↔ program.jitter ≤ 800 := by
  have hjitter : h₀.jitterMs = max minJitterMs (min program.jitter maxJitterMs) := by
    rw [new, hprogram, if_neg (by simp)] at hnew
    cases hnew
    rfl
  have hmin : minJitterMs = 30 := rfl
  have hmax : maxJitterMs = 1000 := rfl
  have hwindow : maxDtsPcrDiffMs = 800 := rfl
  constructor
  · intro hkeeps
    by_contra hlt
    exact not_keepsClock h₀ (by omega) (by omega) hkeeps
  · intro hle
    exact keepsClock_of_le (by omega) (by omega)

/-- A jitter as large as the window. -/
def windowProgram : Program := { sampleProgram with jitter := 800 }

theorem keepsClock_iff_sample : ∃ h₀, new Env.sample { sampleOutput with programs := [windowProgram] } = some h₀ ∧
    KeepsClock h₀.jitterMs := by
  refine ⟨_, rfl, ?_⟩
  have hprogram : { sampleOutput with programs := [windowProgram] }.programs = [windowProgram] := rfl
  exact (keepsClock_iff Env.sample hprogram rfl).2 le_rfl

/-- A jitter of 1000 ms: a packet that is released 1000 ms ahead of the clock sets it anew. -/
theorem jitter_resyncs : ∃ h₀, new Env.sample sampleOutput = some h₀ ∧ ¬ KeepsClock h₀.jitterMs :=
  ⟨_, rfl, not_keepsClock _ (by decide) (by decide)⟩

end PacketHandler

end MyMuxer
