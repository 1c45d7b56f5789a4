import MyMuxer.Packet

/-!
# Output clocks (`mux.rs`)

* `dtsAfter`, `dtsSignedDelta`, `dtsForwardDeltaMs`: the circular order of 33-bit time stamps, in
  units of 90 kHz.
* `pcrAfter`, `pcrAdd`, `pcrSub`, `pcrSignedDelta`: the same for clock values, in units of 27 MHz.
* `PcrRestamper`: the clock of the output, kept by counting packets.
* `pcrAfter_add`: which clock values lie past a limit; `getPcr_eq`: what the clock reads while its
  ticks fit 64 bits.
-/

namespace MyMuxer

def periodPatMs : ℕ := 100

def periodPmtMs : ℕ := 100

def periodSdtMs : ℕ := 1000

def discontinuityThresholdMs : ℕ := 500

def dtsPcrDiffMs : ℕ := 300

def minDtsPcrDiffMs : ℤ := 0

def maxDtsPcrDiffMs : ℕ := 800

def minJitterMs : ℕ := 30

def maxJitterMs : ℕ := 1000

def dtsMask : ℕ := 2 ^ 33 - 1

def dtsHalf : ℕ := 2 ^ 32

def pcrCycle : ℕ := 2 ^ 33 * 300

def pcrHalf : ℕ := pcrCycle / 2

def pcrHz : ℕ := 27000000

/-- `a.wrapping_sub(b)` on `u64`. -/
def wrappingSub (a b : ℕ) : ℕ := (a + (2 ^ 64 - b)) % 2 ^ 64

def dtsAfter (a b : ℕ) : Bool :=
  let diff := wrappingSub a b &&& dtsMask
  decide (diff ≠ 0 ∧ diff < dtsHalf)

def dtsSignedDelta (a b : ℕ) : ℤ :=
  let delta := wrappingSub a b &&& dtsMask
  if delta ≥ dtsHalf then (delta : ℤ) - (dtsMask + 1) else delta

def dtsForwardDeltaMs (newDts lastDts : ℕ) : Option ℕ :=
  let diff := wrappingSub newDts lastDts &&& dtsMask
  if diff ≠ 0 ∧ diff < dtsHalf then some (diff / 90) else none

def pcrNormalize (pcr : ℕ) : ℕ := pcr % pcrCycle

def pcrAfter (a b : ℕ) : Bool :=
  let a := pcrNormalize a
  let b := pcrNormalize b
  let diff := if a ≥ b then a - b else pcrCycle - (b - a)
  decide (diff ≠ 0 ∧ diff < pcrHalf)

def pcrAdd (a b : ℕ) : ℕ := pcrNormalize (pcrNormalize a + pcrNormalize b)

def pcrSub (a b : ℕ) : ℕ :=
  let a := pcrNormalize a
  let b := pcrNormalize b
  if a ≥ b then a - b else pcrCycle - (b - a)

def pcrSignedDelta (a b : ℕ) : ℤ :=
  let delta := pcrSub a b
  if delta ≥ pcrHalf then (delta : ℤ) - pcrCycle else delta

/-! ## The clock of the output -/

structure PcrRestamper where
  targetBitrateBps : ℕ
  totalPacketsSent : ℕ
  firstPcrValue : Option ℕ
  deriving DecidableEq

namespace PcrRestamper

def new (bitrateBps : ℕ) : PcrRestamper :=
  { targetBitrateBps := bitrateBps, totalPacketsSent := 0, firstPcrValue := none }

def resync (r : PcrRestamper) (dts90k : ℕ) : PcrRestamper :=
  { r with firstPcrValue := some (pcrNormalize (dts90k * 300)), totalPacketsSent := 0 }

/-- The ticks of `n` packets at `bitrate` bits a second. -/
def ticks (bitrate n : ℕ) : ℕ := n * tsPacketSize * 8 * pcrHz / bitrate

def getRawPcr (r : PcrRestamper) : Option ℕ :=
  match r.firstPcrValue with
  | none => none
  | some lastPcr =>
    if r.targetBitrateBps ≠ 0 then
      -- `as u64` drops the high bits of the `u128`, and the sum wraps
      some ((ticks r.targetBitrateBps r.totalPacketsSent % 2 ^ 64 + lastPcr) % 2 ^ 64)
    else some lastPcr

def getPcr (r : PcrRestamper) : Option ℕ := r.getRawPcr.map pcrNormalize

/-- The new clock value if the packet carries one, the clock, and the packet with it written. -/
def processPacket (r : PcrRestamper) (packet : Packet) : Option ℕ × PcrRestamper × Packet :=
  if pktIsPcrPresent packet.bytes then
    match r.getPcr with
    | none => (none, r, packet)
    | some newPcr =>
      (some newPcr, { r with totalPacketsSent := 0, firstPcrValue := some newPcr },
        pktWritePcr packet newPcr)
  else (none, r, packet)

end PcrRestamper

/-! ## Facts -/

theorem pcrNormalize_lt (p : ℕ) : pcrNormalize p < pcrCycle := Nat.mod_lt _ (by decide)

theorem pcrNormalize_of_lt {p : ℕ} (h : p < pcrCycle) : pcrNormalize p = p := Nat.mod_eq_of_lt h

theorem pcrSub_self (p : ℕ) : pcrSub p p = 0 := by simp [pcrSub]

/-- How far `p` is ahead of `t` on the clock. -/
theorem pcrSub_eq (p t : ℕ) : pcrSub p t = (p % pcrCycle + (pcrCycle - t % pcrCycle)) % pcrCycle := by
  have ht := Nat.mod_lt t (show 0 < pcrCycle by decide)
  have hp := Nat.mod_lt p (show 0 < pcrCycle by decide)
  change (if p % pcrCycle ≥ t % pcrCycle then p % pcrCycle - t % pcrCycle
    else pcrCycle - (t % pcrCycle - p % pcrCycle)) = _
  generalize p % pcrCycle = a at *
  generalize t % pcrCycle = b at *
  split_ifs with h
  · rw [show a + (pcrCycle - b) = a - b + pcrCycle by omega, Nat.add_mod_right, Nat.mod_eq_of_lt (by omega)]
  · rw [Nat.mod_eq_of_lt (by omega)]; omega

theorem pcrAfter_iff (a b : ℕ) : pcrAfter a b = true ↔ pcrSub a b ≠ 0 ∧ pcrSub a b < pcrHalf := by
  simp [pcrAfter, pcrSub]

/-- A clock value lies past `t + limit` when it is more than `limit` and at most half a cycle more
ahead of `t`. -/
theorem pcrAfter_add (p t : ℕ) {limit : ℕ} (hl : limit < pcrHalf) :
    pcrAfter p (pcrAdd t limit) = true ↔ limit < pcrSub p t ∧ pcrSub p t < pcrHalf + limit := by
  rw [pcrAfter_iff, pcrSub_eq, pcrSub_eq, pcrAdd, pcrNormalize, pcrNormalize, pcrNormalize]
  simp only [pcrHalf, pcrCycle] at *
  omega

namespace PcrRestamper

theorem getPcr_lt {r : PcrRestamper} {p : ℕ} (h : r.getPcr = some p) : p < pcrCycle := by
  obtain ⟨raw, _, rfl⟩ := Option.map_eq_some_iff.1 h
  exact pcrNormalize_lt raw

/-- While its ticks fit 64 bits, the clock reads its last value and the time of the packets since. -/
theorem getPcr_eq {r : PcrRestamper} {last : ℕ} (hf : r.firstPcrValue = some last)
    (hb : r.targetBitrateBps ≠ 0)
    (hfit : ticks r.targetBitrateBps r.totalPacketsSent + last < 2 ^ 64) :
    r.getPcr = some ((last + ticks r.targetBitrateBps r.totalPacketsSent) % pcrCycle) := by
  rw [getPcr, getRawPcr, hf]
  simp only [if_pos hb, Option.map_some]
  rw [Nat.mod_eq_of_lt (a := ticks _ _) (by omega), Nat.mod_eq_of_lt hfit, Nat.add_comm, pcrNormalize]

theorem resync_getPcr (r : PcrRestamper) (dts90k : ℕ) :
    (r.resync dts90k).getPcr = some (pcrNormalize (dts90k * 300)) := by
  have hlt := pcrNormalize_lt (dts90k * 300)
  have hc : pcrCycle < 2 ^ 64 := by decide
  rw [getPcr, getRawPcr]
  simp only [resync, ticks, Nat.zero_mul, Nat.zero_div, Nat.zero_mod, Nat.zero_add]
  split_ifs
  · rw [Nat.mod_eq_of_lt (by omega), Option.map_some, pcrNormalize_of_lt hlt]
  · rw [Option.map_some, pcrNormalize_of_lt hlt]

end PcrRestamper

end MyMuxer
