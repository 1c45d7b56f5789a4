import MyMuxer.Lib.FloorClock
import MyMuxer.Mux.Order

/-!
# The time base of the output

* `Event.base`, `setsClock`, `lastSet`: the events that set the clock, and the last value it was set to.
* `StampLaw`: the invariant. A PCR that goes out is the value of a clock that was last set to `lastSet`
  and has counted `sentSince` packets.
* **`pcr_run`**: between two calls of `resync`, the PCRs follow the exact time, rounded down.
* **`pcr_signalled`**: two PCRs with no `resync` between them are the time of the packets between them
  apart, or the second is marked; `pcr_not_signalled`: a `resync` between them is lost.
-/

namespace MyMuxer

open Relation FloorClock

/-- The value that `resync` sets the clock to. -/
def Event.base : Event → Option ℕ
  | .ready _ _ base => some base
  | .cbr e => e.resync
  | _ => none

def Event.isCbr : Event → Bool
  | .cbr _ => true
  | _ => false

namespace PacketHandler

/-- The value that an event sets the clock to, by `resync` or by a PCR. -/
def setsClock (output : Output) : Event → Option ℕ
  | .cbr e => if isPcrPacket output e.data then pktExtractPcr e.data.bytes else e.resync
  | ev => ev.base

def lastSet (output : Output) (history : List Event) : Option ℕ :=
  history.foldl (fun last ev => (setsClock output ev).or last) none

/-- A PCR that goes out says what the clock says, `resync` or not. -/
def StampLaw (output : Output) (bitrate : ℕ) (before : List Event) (ev : Event) : Prop :=
  ∀ e, ev = .cbr e → isPcrPacket output e.data = true → ∃ pcr, pktExtractPcr e.data.bytes = some pcr ∧
    (∀ base, e.resync = some base → pcr = base ∧ pktGetDiscontinuity e.data.bytes = true) ∧
    (e.resync = none → PcrRestamper.getPcr
      { targetBitrateBps := bitrate
        totalPacketsSent := sentSince output before + 1
        firstPcrValue := lastSet output before } = some pcr)

theorem lastSet_append (output : Output) (history : List Event) (ev : Event) :
    lastSet output (history ++ [ev]) = (setsClock output ev).or (lastSet output history) := by
  simp [lastSet]

/-- An event that does not set the clock. -/
def Quiet (output : Output) (ev : Event) : Prop :=
  ev.base = none ∧ ∀ e, ev = .cbr e → isPcrPacket output e.data = false

theorem Quiet.snoc {output : Output} {ev : Event} (q : Quiet output ev) (pre : List Event) :
    lastSet output (pre ++ [ev]) = lastSet output pre ∧
      sentSince output (pre ++ [ev]) = sentSince output pre + if ev.isCbr then 1 else 0 := by
  obtain ⟨hbase, hpcr⟩ := q
  rw [lastSet_append, sentSince_append]
  cases ev with
  | cbr e =>
    have hres : e.resync = none := hbase
    rw [setsClock, countEvent, hpcr e rfl, hres]
    exact ⟨rfl, rfl⟩
  | ready => cases hbase
  | _ => exact ⟨rfl, rfl⟩

/-- The clock is what the history says, and so is every PCR. -/
structure OnTime (h : PacketHandler) : Prop where
  clock : ∀ r, h.pcrRestamper = some r → r.firstPcrValue = lastSet h.output h.history
  idle : ∀ r, h.pcrRestamper = some r → r.targetBitrateBps = 0 → ∀ e, .cbr e ∉ h.history
  stamped : ∀ r, h.pcrRestamper = some r → Log.Each (StampLaw h.output r.targetBitrateBps) h.history

/-! ## Steps -/

theorem OnTime.keep {h h' : PacketHandler} (o : h.OnTime) (hr : h'.pcrRestamper = h.pcrRestamper)
    (ho : h'.output = h.output) (hh : h'.history = h.history) : h'.OnTime := by
  constructor <;> rw [hr, hh]
  · rw [ho]; exact o.clock
  · exact o.idle
  · rw [ho]; exact o.stamped

/-- An event that neither sets the clock nor sends anything. -/
theorem OnTime.note {h h' : PacketHandler} {ev : Event} (o : h.OnTime)
    (hr : h'.pcrRestamper = h.pcrRestamper) (ho : h'.output = h.output)
    (hh : h'.history = h.history ++ [ev]) (hev : ∀ e, ev ≠ .cbr e) (hbase : ev.base = none) :
    h'.OnTime := by
  have hset : setsClock h.output ev = none := by
    cases ev with
    | cbr e => exact absurd rfl (hev e)
    | _ => exact hbase
  constructor <;> rw [hr, hh]
  · rw [ho, lastSet_append, hset, Option.none_or]; exact o.clock
  · intro r e h0 em hmem
    rcases List.mem_append.1 hmem with hmem | hmem
    · exact o.idle r e h0 em hmem
    · exact hev em (List.mem_singleton.1 hmem).symm
  · rw [ho]
    exact fun r e => (o.stamped r e).snoc fun em he => absurd he (hev em)

theorem flushPsi_onTime {h h' : PacketHandler} {k : Option Table} (e : h.flushPsiPackets = (k, h'))
    (o : h.OnTime) : h'.OnTime := by
  obtain ⟨hr, ho, -, -, _, hh⟩ := flushPsi_rest e
  exact o.note hr ho hh (fun _ h => by cases h) rfl

theorem OnTime.count {h : PacketHandler} (o : h.OnTime) (n : ℕ) : (h.countSent n).OnTime := by
  constructor <;> intro q hq <;> obtain ⟨r, hr, rfl⟩ := Option.map_eq_some_iff.1 hq
  · exact o.clock r hr
  · exact o.idle r hr
  · exact o.stamped r hr

/-- A packet goes out and the clock becomes `r'`. -/
theorem OnTime.sent {h h' : PacketHandler} {e : Emitted} {r r' : PcrRestamper} (o : h.OnTime)
    (hr : h.pcrRestamper = some r) (hr' : h'.pcrRestamper = some r') (ho : h'.output = h.output)
    (hh : h'.history = h.history ++ [.cbr e]) (hb : r'.targetBitrateBps = r.targetBitrateBps)
    (h0 : r.targetBitrateBps ≠ 0)
    (hclock : r'.firstPcrValue = (setsClock h.output (.cbr e)).or (lastSet h.output h.history))
    (hlaw : StampLaw h.output r.targetBitrateBps h.history (.cbr e)) : h'.OnTime := by
  constructor <;> intro q hq <;> obtain rfl := Option.some.inj (hr'.symm.trans hq)
  · rw [ho, hh, lastSet_append]; exact hclock
  · exact fun hz => absurd (hb ▸ hz) h0
  · rw [ho, hh, hb]
    exact (o.stamped r hr).snoc hlaw

/-- A packet without a PCR goes out. -/
theorem OnTime.plain {h : PacketHandler} {e : Emitted} (o : h.OnTime) (g : Good h) (hready : h.isReady = true)
    (hn : e.resync = none) (hp : isPcrPacket h.output e.data = false) :
    ((h.countSent 1).record (.cbr e)).OnTime := by
  obtain ⟨r, hr⟩ := g.restamper
  refine o.sent hr (countSent_eq hr 1) rfl rfl rfl (g.clocked hready r hr).1 ?_ fun em he hpcr => ?_
  · rw [setsClock, hp, hn]
    exact o.clock r hr
  · cases he
    exact absurd (hp.symm.trans hpcr) (by decide)

/-- The clock for a packet, once it has been counted. -/
theorem clockFor_getPcr {h : PacketHandler} {pkt : TsPacket} {r : PcrRestamper} :
    (h.needsResync pkt = true → (h.clockFor pkt r).getPcr = some (resyncBase pkt.dts) ∧
      (h.clockFor pkt r).firstPcrValue = some (resyncBase pkt.dts)) ∧
    (h.needsResync pkt = false → h.clockFor pkt r = r) := by
  rw [clockFor]
  refine ⟨fun hn => ?_, fun hn => by rw [hn]; rfl⟩
  rw [if_pos hn]
  exact ⟨PcrRestamper.resync_getPcr _ _, rfl⟩

/-- A packet of a queue goes out. -/
theorem OnTime.queued {h : PacketHandler} {pkt : TsPacket} {e : Emitted} {r r' : PcrRestamper} (o : h.OnTime)
    (hr : h.pcrRestamper = some r) (h0 : r.targetBitrateBps ≠ 0) (hs : r.firstPcrValue.isSome = true)
    (hcount : r.totalPacketsSent = sentSince h.output h.history + 1) (spec : h.Processed pkt r e r') :
    ({ h with pcrRestamper := some r' }.record (.cbr e)).OnTime := by
  have hclock := o.clock r hr
  obtain ⟨hjump, hkeep⟩ := @clockFor_getPcr h pkt r
  have hres := spec.resync
  refine o.sent hr rfl rfl rfl (spec.clock hs).1 h0 ?_ ?_
  · rw [setsClock]
    cases hp : isPcrPacket h.output e.data with
    | true =>
      obtain ⟨p, hg⟩ := getPcr_isSome ((clockFor_clock h pkt r).2 hs)
      obtain ⟨hex, rfl⟩ := spec.stamped hp p hg
      rw [if_pos rfl, hex, Option.some_or]
    | false =>
      rw [if_neg (by decide), spec.plain hp]
      cases hn : h.needsResync pkt with
      | true => rw [hres, if_pos hn, Option.some_or, (hjump hn).2]
      | false => rw [hres, hn, hkeep hn, if_neg (by decide), Option.none_or, hclock]
  · intro em he hp
    cases he
    obtain ⟨p, hg⟩ := getPcr_isSome ((clockFor_clock h pkt r).2 hs)
    have hex := (spec.stamped hp p hg).1
    refine ⟨p, hex, fun base hbase => ?_, fun hnone => ?_⟩
    · cases hn : h.needsResync pkt with
      | true =>
        rw [hres, if_pos hn] at hbase
        cases hbase
        refine ⟨Option.some.inj (hg.symm.trans (hjump hn).1), spec.flag hn ?_⟩
        rw [isPcrPacket] at hp
        split at hp
        · exact (Bool.and_eq_true _ _ ▸ hp).2
        · cases hp
      | false => rw [hres, hn, if_neg (by decide)] at hbase; cases hbase
    · cases hn : h.needsResync pkt with
      | true => rw [hres, if_pos hn] at hnone; cases hnone
      | false =>
        rw [hkeep hn] at hg
        rw [← hg, ← hcount, ← hclock]

theorem mux_onTime {h h' : PacketHandler} (s : MuxStep h h') (g : Good h) (c : h.Counted) (o : h.OnTime) :
    h'.OnTime := by
  cases s with
  | input | tables => exact o.keep rfl rfl rfl
  | push =>
    rw [PacketHandler.push]
    split_ifs
    · exact o.note rfl rfl rfl (fun _ h => by cases h) rfl
    · exact o.note rfl rfl rfl (fun _ h => by cases h) rfl
    · exact o
  | clear => exact o.note rfl rfl rfl (fun _ h => by cases h) rfl
  | drop _ hp =>
    obtain ⟨hh, ho, hr⟩ := popped_rest hp
    exact o.keep hr ho hh
  | @bitrate r b _ hr h0 =>
    -- nothing has gone out at the old bitrate of 0
    have hidle := o.idle _ hr h0
    constructor <;> intro q hq <;> cases hq
    · exact o.clock r hr
    · exact fun _ => hidle
    · intro pre ev post e em he
      exact absurd (show .cbr em ∈ h.history by rw [e, he]; simp) (hidle em)
  | @ready pkt _ _ _ hb =>
    obtain ⟨r, hr⟩ := g.restamper
    constructor <;> intro q hq <;> rw [setReady, resync, hr] at hq <;> cases hq
    · exact (lastSet_append h.output h.history (.ready _ _ _)).symm
    · exact fun h0 => absurd h0 (hb r hr)
    · exact (o.stamped r hr).snoc fun em he => by cases he
  | flushPsi _ e => exact flushPsi_onTime e o
  | @table h1 k hready e =>
    obtain ⟨_, -, ht⟩ := (g.flushPsi e).cached k (flushPsi_ready e)
    have hready' : h1.isReady = true := by
      have := (flushPsi_isReady h).1
      rw [e] at this
      exact this.trans hready
    exact (flushPsi_onTime e o).plain (g.flushPsi e) hready' rfl (not_pcr_of_afControl ht.afControl)
  | null hready => exact o.plain g hready rfl (not_pcr_of_afControl null_afControl)
  | @queued h1 h2 pkt e hready hp he =>
    obtain ⟨g1, program, hprog, hm⟩ := (countSent_good g 1).popped hp
    obtain ⟨hh, ho, hr1⟩ := popped_rest hp
    have o1 : h1.OnTime := (o.count 1).keep hr1 ho hh
    obtain ⟨q, hq⟩ := g.restamper
    rw [countSent_eq hq 1] at hr1
    obtain ⟨r', rfl, spec⟩ := processPacket_spec hr1 hm.pid he
    obtain ⟨hb0, hfst⟩ := g1.clocked ((popped_isReady hp).1.trans hready) _ hr1
    have hcount : q.totalPacketsSent = sentSince h1.output h1.history := by
      rw [ho, hh]; exact c q hq
    exact o1.queued hr1 hb0 hfst (congrArg (· + 1) hcount) spec

/-! ## Runs -/

theorem runNew_onTime {env : Env} {output : Output} (hproxy : output.proxy = false) {ops : List Op}
    (hops : ∀ op ∈ ops, op.isCbr = true) {outs : List (Option Bytes)} {h : PacketHandler}
    (hrun : runNew env output ops = .ok (outs, h)) : h.OnTime ∧ h.output = output := by
  obtain ⟨h₀, f, hrun⟩ := runNew_eq_ok hrun
  obtain ⟨s, s'⟩ := run_steps hrun
  have start : Good h₀ ∧ h₀.Counted ∧ h₀.OnTime := by
    refine ⟨f.good hproxy, (f.inOrder hproxy).counted, ?_⟩
    constructor <;> rw [f.history]
    · intro r hr
      rw [f.pcrRestamper, hproxy] at hr
      cases hr
      rfl
    · exact fun _ _ _ _ => by simp
    · exact fun _ _ => .nil
  obtain ⟨-, -, o⟩ := steps_invariant (P := fun h => Good h ∧ h.Counted ∧ h.OnTime) (s' hops) start
    fun s ⟨g, c, o⟩ => ⟨mux_good s g, mux_counted s g c, mux_onTime s g c o⟩
  exact ⟨o, (steps_output s).trans f.output_eq⟩

/-- The clock's rate in ticks for one packet at one bit a second. -/
def packetTicks : ℕ := 188 * 8 * 27000000

theorem ticks_eq (bitrate n : ℕ) : PcrRestamper.ticks bitrate n = n * packetTicks / bitrate := by
  rw [PcrRestamper.ticks, Nat.mul_assoc n, Nat.mul_assoc n]
  rfl

/-- The PCRs that went out: how many packets had gone out by then, and the value. -/
def stamps (output : Output) : ℕ → List Event → List (ℕ × ℕ)
  | _, [] => []
  | n, .cbr e :: events =>
    if isPcrPacket output e.data then
      (n + 1, (pktExtractPcr e.data.bytes).getD 0) :: stamps output (n + 1) events
    else stamps output (n + 1) events
  | n, _ :: events => stamps output n events

/-- The ticks from one PCR to the next, and the sum that the source computes, fit 64 bits. -/
def TicksFit (bitrate : ℕ) (readings : List (ℕ × ℕ)) : Prop :=
  readings.IsChain fun x y => PcrRestamper.ticks bitrate (y.1 - x.1) + x.2 < 2 ^ 64

/-- The PCRs between two calls of `resync` are readings of a clock that is rounded down. -/
theorem stamps_reads {output : Output} {bitrate : ℕ} (h0 : bitrate ≠ 0) :
    ∀ {post pre : List Event} {n m last : ℕ}, Log.Each (StampLaw output bitrate) (pre ++ post) →
      lastSet output pre = some last → sentSince output pre + m = n → (∀ ev ∈ post, ev.base = none) →
      TicksFit bitrate ((m, last) :: stamps output n post) →
      ((m, last) :: stamps output n post).IsChain (Reads packetTicks bitrate pcrCycle)
  | [], _, _, _, _, _, _, _, _, _ => .singleton _
  | ev :: post, pre, n, m, last, hlaw, hlast, hn, hbase, hfit => by
    have hnext : Log.Each (StampLaw output bitrate) ((pre ++ [ev]) ++ post) := by simpa using hlaw
    have hrest : ∀ ev ∈ post, ev.base = none := fun x hx => hbase x (by simp [hx])
    have hev := hbase ev (by simp)
    cases ev with
    | cbr e =>
      have hres : e.resync = none := hev
      cases hp : isPcrPacket output e.data with
      | true =>
        obtain ⟨pcr, hex, -, hget⟩ := hlaw pre (.cbr e) post rfl e rfl hp
        have hlast' := lastSet_append output pre (.cbr e)
        rw [setsClock, hp, if_pos rfl, hex, Option.some_or] at hlast'
        have hsent : sentSince output (pre ++ [.cbr e]) = 0 := by
          rw [sentSince_append, countEvent, hp, Bool.or_true, if_pos rfl]
        simp only [stamps, hp, if_true, hex, Option.getD_some] at hfit ⊢
        rw [TicksFit, List.isChain_cons_cons] at hfit
        rw [List.isChain_cons_cons]
        refine ⟨⟨by dsimp only; omega, ?_⟩, stamps_reads h0 hnext hlast' (by omega) hrest hfit.2⟩
        have hfit1 := hfit.1
        dsimp only at hfit1 ⊢
        rw [show n + 1 - m = sentSince output pre + 1 by omega] at hfit1 ⊢
        have hclock := PcrRestamper.getPcr_eq
          (r := ⟨bitrate, sentSince output pre + 1, lastSet output pre⟩) hlast h0 hfit1
        rw [hget hres] at hclock
        rw [Option.some.inj hclock, ticks_eq]
      | false =>
        obtain ⟨hlast', hsent⟩ :=
          Quiet.snoc (show Quiet output _ from ⟨hev, fun _ h => by cases h; exact hp⟩) pre
        rw [Event.isCbr, if_pos rfl] at hsent
        simp only [stamps, hp, Bool.false_eq_true, if_false] at hfit ⊢
        exact stamps_reads h0 hnext (hlast'.trans hlast) (by omega) hrest hfit
    | ready => cases hev
    | pushed | cleared | flushPsi | vbr | proxied =>
      obtain ⟨hlast', hsent⟩ := Quiet.snoc (show Quiet output _ from ⟨hev, fun _ h => by cases h⟩) pre
      simp only [stamps] at hfit ⊢
      exact stamps_reads h0 hnext (hlast'.trans hlast) (hsent ▸ hn) hrest hfit

/-- **The PCRs follow the exact time.** After any call of `resync` and before the next, the `k`-th PCR
is the clock value that was set and a whole number of ticks `t k`, less than `k` behind the exact time
of the packets sent, modulo the cycle; and these never decrease. -/
theorem pcr_run {env : Env} {output : Output} (hproxy : output.proxy = false) {ops : List Op}
    (hops : ∀ op ∈ ops, op.isCbr = true) {outs : List (Option Bytes)} {h : PacketHandler}
    (hrun : runNew env output ops = .ok (outs, h)) {bitrate : ℕ} (hb : h.getBitrate = some bitrate)
    (h0 : bitrate ≠ 0) {pre post : List Event} {ev : Event} {base : ℕ} (hh : h.history = pre ++ ev :: post)
    (hset : ev.base = some base) (hquiet : ∀ ev ∈ post, ev.base = none)
    (hfit : TicksFit bitrate ((0, base) :: stamps output 0 post)) :
    (∀ e, ev = .cbr e → isPcrPacket output e.data = true → pktExtractPcr e.data.bytes = some base) ∧
    ∃ t : ℕ → ℕ, Monotone t ∧ ∀ k n pcr : ℕ, (stamps output 0 post)[k]? = some (n, pcr) →
      pcr = (base + t k) % pcrCycle ∧ pcr < pcrCycle ∧
      0 ≤ (n * 188 * 8 * 27000000 : ℚ) / bitrate - t k ∧
      (n * 188 * 8 * 27000000 : ℚ) / bitrate - t k < k + 1 := by
  obtain ⟨o, ho⟩ := runNew_onTime hproxy hops hrun
  obtain ⟨r, hr, rfl⟩ := Option.map_eq_some_iff.1 hb
  have hlaw := o.stamped r hr
  rw [ho, hh] at hlaw
  have hfirst (e : Emitted) (he : ev = .cbr e) (hp : isPcrPacket output e.data = true) :
      pktExtractPcr e.data.bytes = some base := by
    subst he
    obtain ⟨pcr, hex, hjump, -⟩ := hlaw pre _ post rfl e rfl hp
    rw [hex, (hjump base hset).1]
  have hlast : lastSet output (pre ++ [ev]) = some base ∧ sentSince output (pre ++ [ev]) = 0 := by
    rw [lastSet_append, sentSince_append]
    cases ev with
    | ready => cases hset; exact ⟨rfl, rfl⟩
    | cbr e =>
      have hres : e.resync = some base := hset
      rw [countEvent, hres, setsClock]
      refine ⟨?_, rfl⟩
      split_ifs with hp
      · rw [hfirst e rfl hp, Option.some_or]
      · rw [hres, Option.some_or]
    | _ => cases hset
  have hlaw' : Log.Each (StampLaw output r.targetBitrateBps) ((pre ++ [ev]) ++ post) := by simpa using hlaw
  have hchain := stamps_reads (m := 0) (n := 0) h0 hlaw' hlast.1 hlast.2 hquiet hfit
  obtain ⟨t, ht, hread⟩ := reads_behind (Nat.pos_of_ne_zero h0) hchain
  refine ⟨hfirst, t, ht, fun k n pcr hk => ?_⟩
  obtain ⟨hpcr, hlo, hhi⟩ := hread k n pcr hk
  have hc : (n * packetTicks : ℚ) = n * 188 * 8 * 27000000 := by rw [packetTicks]; push_cast; ring
  rw [hc] at hlo hhi
  exact ⟨hpcr, hpcr ▸ Nat.mod_lt _ (by decide), hlo, hhi⟩

/-- Three video packets 20 ms apart, the first and the last with a PCR. -/
def samplePcrOps : List Op :=
  [.write (sampleChunk [sampleVideo true 0 9000000]),
    .write ((sampleVideo false 1 9001800).bytes ++ (sampleVideo true 2 9003600).bytes)] ++
  List.replicate 6 .flushPacketForCbr

/-- The PCRs of the fourth and the sixth packet. -/
theorem pcr_run_sample : ∃ outs h pre base ev post,
    runNew Env.sample sampleOutput samplePcrOps = .ok (outs, h) ∧
    h.history = pre ++ ev :: post ∧ ev.base = some base ∧
    stamps sampleOutput 0 post = [(4, base + 1080000), (6, base + 1620000)] ∧
    ∃ t : ℕ → ℕ, Monotone t ∧ base + 1620000 = (base + t 1) % pcrCycle ∧
      (6 * 188 * 8 * 27000000 : ℚ) / 150400 - t 1 < 2 := by
  obtain ⟨⟨outs, h⟩, hrun, hcheck⟩ := ok_of_map (x := runNew Env.sample sampleOutput samplePcrOps)
    (f := fun x => (x.2.getBitrate, x.2.history[1]?.map Event.base,
      (x.2.history.drop 2).all fun ev => ev.base.isNone, stamps sampleOutput 0 (x.2.history.drop 2)))
    (b := (some 150400, some (some 2691900000), true, [(4, 2692980000), (6, 2693520000)])) (by decide +kernel)
  obtain ⟨hbitrate, hbase, hquiet, hstamps⟩ : _ ∧ _ ∧ _ ∧ _ := by simpa using hcheck
  obtain ⟨ev, hev, hbase⟩ := hbase
  have hh := Log.cut_at hev
  obtain ⟨-, t, ht, hread⟩ := pcr_run rfl (by decide) hrun hbitrate (by decide) hh hbase hquiet
    (by rw [hstamps, TicksFit]; decide)
  obtain ⟨hpcr, -, -, hlt⟩ := hread 1 6 2693520000 (by rw [hstamps]; rfl)
  refine ⟨outs, h, _, _, ev, _, hrun, hh, hbase, hstamps, t, ht, hpcr, ?_⟩
  norm_num at hlt ⊢
  exact hlt

/-! ## Jumps -/

/-- The packet with a PCR that an event sends out. -/
def pcrSent (output : Output) : Event → Option Emitted
  | .cbr e => if isPcrPacket output e.data then some e else none
  | _ => none

theorem pcrSent_eq_some {output : Output} {ev : Event} {e : Emitted} :
    pcrSent output ev = some e ↔ ev = .cbr e ∧ isPcrPacket output e.data = true := by
  cases ev with
  | cbr e' =>
    simp only [pcrSent, Option.ite_none_right_eq_some, Option.some.injEq, Event.cbr.injEq]
    exact ⟨fun ⟨hp, he⟩ => ⟨he, he ▸ hp⟩, fun ⟨he, hp⟩ => ⟨he ▸ hp, he⟩⟩
  | _ => simp [pcrSent]

/-- The second of two PCRs follows the first by the time of the packets between them, or is marked. -/
def Signalled (bitrate : ℕ) (e₁ : Emitted) (between : List Event) (e₂ : Emitted) : Prop :=
  (∃ pcr, pktExtractPcr e₁.data.bytes = some pcr ∧ pktExtractPcr e₂.data.bytes =
    some ((pcr + PcrRestamper.ticks bitrate (between.countP Event.isCbr + 1)) % pcrCycle)) ∨
  pktGetDiscontinuity e₂.data.bytes = true

/-- Events that do not set the clock count their packets. -/
theorem quiet_append {output : Output} : ∀ (pre : List Event) {between : List Event},
    (∀ ev ∈ between, Quiet output ev) →
    lastSet output (pre ++ between) = lastSet output pre ∧
      sentSince output (pre ++ between) = sentSince output pre + between.countP Event.isCbr
  | pre, [], _ => by simp
  | pre, ev :: between, hq => by
    obtain ⟨hlast, hsent⟩ := (hq ev (by simp)).snoc pre
    obtain ⟨hlast', hsent'⟩ := quiet_append (pre ++ [ev]) fun x hx => hq x (List.mem_cons_of_mem ev hx)
    rw [List.append_cons, hlast', hsent', hlast, hsent, List.countP_cons]
    exact ⟨rfl, by omega⟩

/-- **Jumps are signalled, unless `resync` falls between two PCRs.** Two PCRs one after the other, with no
other `resync` between them than for the second, are the time of the packets between them apart, or the
second is marked. -/
theorem pcr_signalled {env : Env} {output : Output} (hproxy : output.proxy = false) {ops : List Op}
    (hops : ∀ op ∈ ops, op.isCbr = true) {outs : List (Option Bytes)} {h : PacketHandler}
    (hrun : runNew env output ops = .ok (outs, h)) {bitrate : ℕ} (hb : h.getBitrate = some bitrate)
    {pre between post : List Event} {e₁ e₂ : Emitted}
    (hh : h.history = pre ++ .cbr e₁ :: (between ++ .cbr e₂ :: post))
    (h₁ : isPcrPacket output e₁.data = true) (h₂ : isPcrPacket output e₂.data = true)
    (hnext : ∀ ev ∈ between, pcrSent output ev = none)
    (hquiet : ∀ ev ∈ between, ev.base = none)
    (hfit : ∀ pcr, pktExtractPcr e₁.data.bytes = some pcr →
      PcrRestamper.ticks bitrate (between.countP Event.isCbr + 1) + pcr < 2 ^ 64) :
    Signalled bitrate e₁ between e₂ := by
  obtain ⟨o, ho⟩ := runNew_onTime hproxy hops hrun
  obtain ⟨r, hr, rfl⟩ := Option.map_eq_some_iff.1 hb
  have h0 : r.targetBitrateBps ≠ 0 := fun h0 => o.idle r hr h0 e₁ (by rw [hh]; simp)
  have hlaw := o.stamped r hr
  rw [ho] at hlaw
  obtain ⟨pcr₁, hex₁, -⟩ := hlaw _ _ _ hh e₁ rfl h₁
  have hh' : h.history = (pre ++ [.cbr e₁] ++ between) ++ .cbr e₂ :: post := by rw [hh]; simp
  obtain ⟨pcr₂, hex₂, hjump, hplain⟩ := hlaw _ _ _ hh' e₂ rfl h₂
  cases hres : e₂.resync with
  | some base => exact .inr (hjump base hres).2
  | none =>
    obtain ⟨hlast, hsent⟩ := quiet_append (pre ++ [.cbr e₁])
      fun ev hev => show Quiet output ev from ⟨hquiet ev hev,
        fun e he => by simpa [he, pcrSent] using hnext ev hev⟩
    have hset : lastSet output (pre ++ [.cbr e₁]) = some pcr₁ := by
      rw [lastSet_append, setsClock, if_pos h₁, hex₁, Option.some_or]
    have hcount : sentSince output (pre ++ [.cbr e₁]) = 0 := by
      rw [sentSince_append, countEvent, h₁, Bool.or_true, if_pos rfl]
    rw [hset] at hlast
    rw [hcount, Nat.zero_add] at hsent
    have hclock := PcrRestamper.getPcr_eq (r := ⟨r.targetBitrateBps, between.countP Event.isCbr + 1,
      lastSet output (pre ++ [.cbr e₁] ++ between)⟩) hlast h0 (hfit pcr₁ hex₁)
    have hread := hplain hres
    rw [hsent, hclock] at hread
    exact .inl ⟨pcr₁, hex₁, hex₂.trans hread.symm⟩

/-- What a receiver sees of an event: a PCR, and whether it is marked. -/
def seen (ev : Option Event) : Option (Option ℕ × Bool) :=
  (ev.bind (pcrSent sampleOutput)).map fun e => (pktExtractPcr e.data.bytes, pktGetDiscontinuity e.data.bytes)

theorem seen_eq_some {ev : Option Event} {pcr : Option ℕ} {flag : Bool} (h : seen ev = some (pcr, flag)) :
    ∃ e, ev = some (.cbr e) ∧ isPcrPacket sampleOutput e.data = true ∧ pktExtractPcr e.data.bytes = pcr ∧
      pktGetDiscontinuity e.data.bytes = flag := by
  obtain ⟨e, he, hseen⟩ := Option.map_eq_some_iff.1 h
  obtain ⟨ev, rfl, he⟩ := Option.bind_eq_some_iff.1 he
  obtain ⟨rfl, hp⟩ := pcrSent_eq_some.1 he
  cases hseen
  exact ⟨e, rfl, hp, rfl, rfl⟩

/-- The first PCR, the second, and in numbers the bitrate, and of the events between: the packets, the
packets with a PCR, and the clock settings. -/
def seenPair (i j : ℕ) (h : PacketHandler) : List (Option (Option ℕ × Bool)) × List ℕ :=
  let rest := h.history.drop (i + 1)
  ([seen h.history[i]?, seen rest[j]?],
    [h.getBitrate.getD 0, (rest.take j).countP Event.isCbr,
      (rest.take j).countP fun ev => (pcrSent sampleOutput ev).isSome,
      (rest.take j).countP fun ev => ev.base.isSome])

theorem seenPair_eq {i j : ℕ} {h : PacketHandler} {pcr₁ pcr₂ : ℕ} {flag₁ flag₂ : Bool} {bitrate n jumps : ℕ}
    (hb : bitrate ≠ 0)
    (e : seenPair i j h = ([some (some pcr₁, flag₁), some (some pcr₂, flag₂)], [bitrate, n, 0, jumps])) :
    ∃ pre e₁ between e₂ post, h.history = pre ++ Event.cbr e₁ :: (between ++ Event.cbr e₂ :: post) ∧
      isPcrPacket sampleOutput e₁.data = true ∧ isPcrPacket sampleOutput e₂.data = true ∧
      pktExtractPcr e₁.data.bytes = some pcr₁ ∧ pktExtractPcr e₂.data.bytes = some pcr₂ ∧
      pktGetDiscontinuity e₂.data.bytes = flag₂ ∧ h.getBitrate = some bitrate ∧
      (∀ ev ∈ between, pcrSent sampleOutput ev = none) ∧ between.countP Event.isCbr = n ∧
      between.countP (fun ev => ev.base.isSome) = jumps := by
  simp only [seenPair, Prod.mk.injEq, List.cons.injEq, and_true] at e
  obtain ⟨⟨hseen₁, hseen₂⟩, hbitrate, hcount, hnext, hjumps⟩ := e
  obtain ⟨e₁, hev₁, h₁, hex₁, -⟩ := seen_eq_some hseen₁
  obtain ⟨e₂, hev₂, h₂, hex₂, hd₂⟩ := seen_eq_some hseen₂
  have hh := Log.cut_at hev₁
  rw [Log.cut_at hev₂] at hh
  have hsome : h.getBitrate = some bitrate := by
    cases hg : h.getBitrate with
    | none => rw [hg] at hbitrate; exact absurd hbitrate.symm hb
    | some b => rw [hg] at hbitrate; exact congrArg some hbitrate
  exact ⟨_, e₁, _, e₂, _, hh, h₁, h₂, hex₁, hex₂, hd₂, hsome, by simpa using hnext, hcount, hjumps⟩

/-- The two PCRs of the sample are two packets apart. -/
theorem pcr_signalled_sample : ∃ outs h pre e₁ between e₂ post,
    runNew Env.sample sampleOutput samplePcrOps = .ok (outs, h) ∧
    h.history = pre ++ .cbr e₁ :: (between ++ .cbr e₂ :: post) ∧ between.countP Event.isCbr = 1 ∧
    Signalled 150400 e₁ between e₂ := by
  obtain ⟨⟨outs, h⟩, hrun, hcheck⟩ := ok_of_map (x := runNew Env.sample sampleOutput samplePcrOps)
    (f := fun x => seenPair 11 3 x.2)
    (b := ([some (some 2692980000, false), some (some 2693520000, false)], [150400, 1, 0, 0]))
    (by decide +kernel)
  obtain ⟨pre, e₁, between, e₂, post, hh, h₁, h₂, hex₁, -, -, hb, hnext, hcount, hquiet⟩ :=
    seenPair_eq (by decide) hcheck
  refine ⟨outs, h, pre, e₁, between, e₂, post, hrun, hh, hcount, pcr_signalled rfl (by decide) hrun hb hh h₁ h₂
    hnext (by simpa [List.countP_eq_zero] using hquiet) fun pcr hpcr => ?_⟩
  cases hex₁.symm.trans hpcr
  rw [hcount]
  decide

/-- The second of three video packets is two seconds late, and has no adaptation field. -/
def jumpOps : List Op :=
  [.write (sampleChunk [sampleVideo true 0 9000000]),
    .write ((sampleVideo false 1 9180000).bytes ++ (sampleVideo true 2 9183600).bytes)] ++
  List.replicate 9 .flushPacketForCbr

/-- The late packet sets the clock anew, and the next PCR is not marked. -/
theorem pcr_not_signalled : ∃ outs h pre e₁ between e₂ post,
    runNew Env.sample sampleOutput jumpOps = .ok (outs, h) ∧ (∀ op ∈ jumpOps, op.isCbr = true) ∧
    h.getBitrate = some 150400 ∧ h.history = pre ++ .cbr e₁ :: (between ++ .cbr e₂ :: post) ∧
    isPcrPacket sampleOutput e₁.data = true ∧ isPcrPacket sampleOutput e₂.data = true ∧
    (∀ ev ∈ between, pcrSent sampleOutput ev = none) ∧ ¬ Signalled 150400 e₁ between e₂ := by
  obtain ⟨⟨outs, h⟩, hrun, hcheck⟩ := ok_of_map (x := runNew Env.sample sampleOutput jumpOps)
    (f := fun x => seenPair 11 9 x.2)
    (b := ([some (some 2692980000, false), some (some 2746980000, false)], [150400, 4, 0, 1]))
    (by decide +kernel)
  obtain ⟨pre, e₁, between, e₂, post, hh, h₁, h₂, hex₁, hex₂, hd₂, hb, hnext, hcount, -⟩ :=
    seenPair_eq (by decide) hcheck
  refine ⟨outs, h, pre, e₁, between, e₂, post, hrun, by decide, hb, hh, h₁, h₂, hnext, ?_⟩
  rintro (⟨pcr, hpcr, hlate⟩ | hflag)
  · rw [hcount, hex₂] at hlate
    cases hex₁.symm.trans hpcr
    exact absurd hlate (by decide)
  · exact absurd (hd₂.symm.trans hflag) (by decide)

end PacketHandler

end MyMuxer
