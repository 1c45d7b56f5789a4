import MyMuxer.Mux.Steps

/-!
# Runs of a muxer

* `Op`, `run`, `runNew`: the calls an output makes, in any order; `run_steps`.
* `flushPsi_none`, `flushPsi_some`, `processPacket_spec`: what a step that emits a packet does, in full.
* `Good`: **the invariant of every run**, on queues, caches and clock (`steps_good`).
-/

namespace MyMuxer

open Relation

namespace PacketHandler

/-- A call of a muxer. -/
inductive Op where
  | write (chunk : Bytes)
  | flushPacketForCbr
  | flushPacketForVbr
  | flushFrame

/-- The calls of an output of constant bit rate. -/
def Op.isCbr : Op → Bool
  | .write _ | .flushPacketForCbr => true
  | .flushPacketForVbr | .flushFrame => false

/-- The bytes a call brings. -/
def Op.chunk : Op → Bytes
  | .write chunk => chunk
  | .flushPacketForCbr | .flushPacketForVbr | .flushFrame => []

def call (env : Env) (h : PacketHandler) : Op → Rs (Option Bytes × PacketHandler)
  | .write chunk => do return (none, ← h.write env chunk)
  | .flushPacketForCbr => h.flushPacketForCbr env
  | .flushPacketForVbr => return h.flushPacketForVbr
  | .flushFrame => return h.flushFrame

/-- The calls one after another: what each of them returns, and the state after them. -/
def run (env : Env) : PacketHandler → List Op → Rs (List (Option Bytes) × PacketHandler)
  | h, [] => return ([], h)
  | h, op :: ops => do
    let (out, h) ← h.call env op
    let (outs, h) ← run env h ops
    return (out :: outs, h)

/-- A run of a new handler. -/
def runNew (env : Env) (output : Output) (ops : List Op) : Rs (List (Option Bytes) × PacketHandler) := do
  let h ← unwrap (new env output)
  h.run env ops

theorem call_steps {env : Env} {h h' : PacketHandler} {op : Op} {out : Option Bytes}
    (e : h.call env op = .ok (out, h')) :
    ReflTransGen AnyStep h h' ∧ (op.isCbr = true → ReflTransGen MuxStep h h') := by
  cases op with
  | write chunk =>
    obtain ⟨h1, e1, e⟩ := bind_eq_ok.1 e
    cases e
    exact ⟨mux_any (write_steps e1), fun _ => write_steps e1⟩
  | flushPacketForCbr =>
    obtain ⟨s, -⟩ := flushPacketForCbr_steps e
    exact ⟨mux_any s, fun _ => s⟩
  | flushPacketForVbr =>
    have e : h.flushPacketForVbr.2 = h' := congrArg Prod.snd (Except.ok.inj e)
    exact ⟨e ▸ flushPacketForVbr_steps h, fun h => absurd h (by decide)⟩
  | flushFrame =>
    have e : h.flushFrame.2 = h' := congrArg Prod.snd (Except.ok.inj e)
    exact ⟨e ▸ flushFrame_steps h, fun h => absurd h (by decide)⟩

/-- **A run is a sequence of steps.** -/
theorem run_steps {env : Env} : ∀ {ops : List Op} {h h' : PacketHandler} {outs : List (Option Bytes)},
    run env h ops = .ok (outs, h') →
      ReflTransGen AnyStep h h' ∧ ((∀ op ∈ ops, op.isCbr = true) → ReflTransGen MuxStep h h')
  | [], h, h', outs, e => by cases e; exact ⟨.refl, fun _ => .refl⟩
  | op :: ops, h, h', outs, e => by
    rw [run] at e
    obtain ⟨⟨out, h1⟩, e1, e⟩ := bind_eq_ok.1 e
    obtain ⟨⟨outs1, h2⟩, e2, e⟩ := bind_eq_ok.1 e
    cases e
    obtain ⟨s1, s1'⟩ := call_steps e1
    obtain ⟨s2, s2'⟩ := run_steps e2
    exact ⟨s1.trans s2, fun hop => (s1' (hop op (by simp))).trans (s2' fun o ho => hop o (by simp [ho]))⟩

/-! ## Tables -/

/-- The table is cached and its timer says so. -/
def due (h : PacketHandler) (k : Table) : Bool :=
  h.tables.ready k && insertDue h.getPcr (h.timers.get k) k.periodMs

theorem flushTable_eq (h : PacketHandler) (k : Table) : h.flushTable h.getPcr k =
    if h.due k then some { h with tables := h.tables.next k, timers := h.timers.set h.getPcr k } else none :=
  rfl

/-- `flush_psi_packets` with no table due writes down that it was called. -/
theorem flushPsi_none {h h' : PacketHandler} (e : h.flushPsiPackets = (none, h')) :
    (∀ k, h.due k = false) ∧
      h' = h.record (.flushPsi h.tables.patReady h.getPcr h.timers.insertPat h.timers.insertPat) := by
  rw [flushPsiPackets, dueTable, flushTable_eq, flushTable_eq, flushTable_eq] at e
  cases h1 : h.due .pat <;> cases h2 : h.due .pmt <;> cases h3 : h.due .sdt <;>
    simp only [h1, h2, h3, if_true, Bool.false_eq_true, if_false, Option.map_some, Option.map_none] at e <;>
    cases e
  refine ⟨?_, rfl⟩
  rintro (_ | _ | _)
  · exact h1
  · exact h2
  · exact h3

/-- A due table leaves with the next counter, and its timer is set. -/
theorem flushPsi_some {h h' : PacketHandler} {k : Table} (e : h.flushPsiPackets = (some k, h')) :
    h.due k = true ∧ (k ≠ .pat → h.due .pat = false) ∧
      h' = { h with tables := h.tables.next k, timers := h.timers.set h.getPcr k }.record
        (.flushPsi h.tables.patReady h.getPcr h.timers.insertPat (h.timers.set h.getPcr k).insertPat) := by
  rw [flushPsiPackets, dueTable, flushTable_eq, flushTable_eq, flushTable_eq] at e
  cases h1 : h.due .pat <;> cases h2 : h.due .pmt <;> cases h3 : h.due .sdt <;>
    simp only [h1, h2, h3, if_true, Bool.false_eq_true, if_false, Option.map_some, Option.map_none] at e <;>
    cases e
  · exact ⟨h3, fun _ => rfl, rfl⟩
  · exact ⟨h2, fun _ => rfl, rfl⟩
  · exact ⟨h2, fun _ => rfl, rfl⟩
  all_goals exact ⟨h1, fun hk => absurd rfl hk, rfl⟩

/-- A call of `flush_psi_packets` changes caches and timers alone. -/
theorem flushPsi_rest {h h' : PacketHandler} {k : Option Table} (e : h.flushPsiPackets = (k, h')) :
    h'.pcrRestamper = h.pcrRestamper ∧ h'.output = h.output ∧ h'.outBuffV = h.outBuffV ∧
      h'.outBuffA = h.outBuffA ∧ ∃ after, h'.history = h.history ++
        [.flushPsi h.tables.patReady h.getPcr h.timers.insertPat after] := by
  cases k with
  | none => obtain ⟨-, rfl⟩ := flushPsi_none e; exact ⟨rfl, rfl, rfl, rfl, _, rfl⟩
  | some k => obtain ⟨-, -, rfl⟩ := flushPsi_some e; exact ⟨rfl, rfl, rfl, rfl, _, rfl⟩

theorem Tables.next_ready (t : Tables) (k : Table) : (t.next k).ready = t.ready := by
  cases k <;> (funext j; cases j <;> rfl)

theorem Tables.next_cache (t : Tables) (k j : Table) :
    (t.next k).cache j = if j = k then pktNext (t.cache j) else t.cache j := by
  cases k <;> cases j <;> rfl

/-- The table that leaves is cached. -/
theorem flushPsi_ready {h h' : PacketHandler} {k : Table} (e : h.flushPsiPackets = (some k, h')) :
    h'.tables.ready k = true := by
  obtain ⟨hdue, -, rfl⟩ := flushPsi_some e
  rw [due, Bool.and_eq_true] at hdue
  rw [← hdue.1]
  exact congrFun (Tables.next_ready h.tables k) k

/-! ## Queued packets -/

/-- The clock after `resync`, where a packet calls for it. -/
def clockFor (h : PacketHandler) (pkt : TsPacket) (r : PcrRestamper) : PcrRestamper :=
  if h.needsResync pkt then r.resync (wrappingSub pkt.dts (dtsPcrDiffMs * 90) &&& dtsMask) else r

/-- A packet of the PCR PID that carries a PCR. -/
def isPcrPacket (output : Output) (p : Packet) : Bool :=
  match output.programs.head? with
  | some program => decide (pktPid p.bytes = program.pcrPid) && pktIsPcrPresent p.bytes
  | none => false

/-- What `process_packet` does with a packet, the clock being `r` before and `r'` after. -/
structure Processed (h : PacketHandler) (pkt : TsPacket) (r : PcrRestamper) (e : Emitted)
    (r' : PcrRestamper) : Prop where
  source : e.source = .queued pkt
  restamped : Restamped pkt.data e.data
  resync : e.resync = if h.needsResync pkt then some (resyncBase pkt.dts) else none
  flag : h.needsResync pkt = true → pktIsPcrPresent e.data.bytes = true →
    pktGetDiscontinuity e.data.bytes = true
  plain : isPcrPacket h.output e.data = false → r' = h.clockFor pkt r
  stamped : isPcrPacket h.output e.data = true → ∀ pcr, (h.clockFor pkt r).getPcr = some pcr →
    pktExtractPcr e.data.bytes = some pcr ∧
      r' = { h.clockFor pkt r with totalPacketsSent := 0, firstPcrValue := some pcr }

theorem clockFor_eq (h : PacketHandler) (pkt : TsPacket) {r : PcrRestamper} (hr : h.pcrRestamper = some r) :
    (h.signalJump pkt).2.2.pcrRestamper = some (h.clockFor pkt r) := by
  rw [signalJump, clockFor]
  split_ifs
  · rw [resync, hr]; rfl
  · exact hr

theorem getProgram_eq {h : PacketHandler} {program : Program} (e : h.getProgram = .ok program) :
    h.output.programs.head? = some program := by
  rw [getProgram] at e
  cases hp : h.output.programs.head? with
  | none => rw [hp] at e; cases e
  | some p => rw [hp] at e; cases e; rfl

/-- **What `process_packet` does.** -/
theorem processPacket_spec {h h' : PacketHandler} {pkt : TsPacket} {e : Emitted} {r : PcrRestamper}
    (hr : h.pcrRestamper = some r) (hpid : pktPid pkt.data.bytes = pkt.pid)
    (he : h.processPacket pkt = .ok (e, h')) :
    ∃ r', h' = { h with pcrRestamper := some r' } ∧ h.Processed pkt r e r' := by
  obtain ⟨program, ro, hprog, hsrc, rfl, hdata, hro, hres⟩ := processPacket_eq he
  have hclock := clockFor_eq h pkt hr
  have hjump : Restamped pkt.data (h.signalJump pkt).1 := by
    rw [signalJump]
    split_ifs
    · exact setDiscontinuity_restamped _
    · exact .refl _
  have hres' : e.resync = if h.needsResync pkt then some (resyncBase pkt.dts) else none := by
    rw [hres, signalJump]
    split_ifs <;> rfl
  have hflag : h.needsResync pkt = true → pktIsPcrPresent (h.signalJump pkt).1.bytes = true →
      pktGetDiscontinuity (h.signalJump pkt).1.bytes = true := by
    intro hn hp
    rw [signalJump, if_pos hn] at hp ⊢
    exact setDiscontinuity_flag ((setDiscontinuity_present _).symm.trans hp)
  generalize (h.signalJump pkt).1 = data at *
  generalize (h.signalJump pkt).2.2 = g at *
  have hpcr {data' : Packet} (hd : Restamped data data')
      (hp : pktIsPcrPresent data'.bytes = pktIsPcrPresent data.bytes) : isPcrPacket h.output data' =
        (decide (pkt.pid = program.pcrPid) && pktIsPcrPresent data.bytes) := by
    rw [isPcrPacket, getProgram_eq hprog, hd.pid, hjump.pid, hpid, hp]
  -- a packet that goes out as `signalJump` leaves it
  have hkeep (hd : e.data = data) (hc : ro = some (h.clockFor pkt r))
      (hno : isPcrPacket h.output data = true → (h.clockFor pkt r).getPcr = none) :
      ∃ r', { h with pcrRestamper := ro } = { h with pcrRestamper := some r' } ∧ h.Processed pkt r e r' := by
    refine ⟨h.clockFor pkt r, by rw [hc], hsrc, hd ▸ hjump, hres', by rw [hd]; exact hflag, fun _ => rfl, ?_⟩
    intro hp pcr hg
    rw [hno (hd ▸ hp)] at hg
    cases hg
  rw [stamp, hclock] at hdata hro
  split_ifs at hdata hro with hp
  · dsimp only at hdata hro
    rw [PcrRestamper.processPacket] at hdata hro
    split_ifs at hdata hro with hpres
    · cases hg : (h.clockFor pkt r).getPcr with
      | none =>
        rw [hg] at hdata hro
        exact hkeep hdata hro fun _ => hg
      | some v =>
        rw [hg] at hdata hro
        dsimp only at hdata hro
        have hw := writePcr_restamped hpres v
        have hwp := writePcr_present data v
        have htrue : isPcrPacket h.output e.data = true := by
          rw [hdata, hpcr hw hwp, hpres, hp]; simp
        refine ⟨_, by rw [hro], hsrc, hdata ▸ hjump.trans hw, hres', ?_, ?_, ?_⟩
        · intro hn _
          have hf := hflag hn hpres
          rw [hdata, pktGetDiscontinuity, Packet.length_eq, afControl_congr (writePcr_byte _ _ (by omega)),
            writePcr_byte _ _ (by omega), writePcr_byte _ _ (by omega)]
          rwa [pktGetDiscontinuity, Packet.length_eq] at hf
        · intro hf; rw [htrue] at hf; cases hf
        · intro _ pcr hpcr'
          cases hg.symm.trans hpcr'
          exact ⟨hdata ▸ extract_write_pcr data (PcrRestamper.getPcr_lt hg) hpres, rfl⟩
    · refine hkeep hdata hro fun ht => ?_
      rw [hpcr (.refl _) rfl, Bool.and_eq_true] at ht
      exact absurd ht.2 hpres
  · refine hkeep hdata (hro.trans hclock) fun ht => ?_
    rw [hpcr (.refl _) rfl, Bool.and_eq_true, decide_eq_true_eq] at ht
    exact absurd ht.1 hp

/-! ## The invariant -/

/-- What holds of the queues, the caches and the clock of a muxer at any time. -/
structure Good (h : PacketHandler) : Prop where
  queuedV : ∀ pkt ∈ h.outBuffV.inner, ∃ program, h.getProgram = .ok program ∧ IsMedia program pkt ∧
    pkt.pid ∈ program.videoPids
  queuedA : ∀ pkt ∈ h.outBuffA.inner, ∃ program, h.getProgram = .ok program ∧ IsMedia program pkt ∧
    pkt.pid ∉ program.videoPids
  cached : ∀ k, h.tables.ready k = true → ∃ program, h.getProgram = .ok program ∧
    IsTablePacket (k.pid program) (h.tables.cache k)
  restamper : ∃ r, h.pcrRestamper = some r
  clocked : h.isReady = true → ∀ r, h.pcrRestamper = some r →
    r.targetBitrateBps ≠ 0 ∧ r.firstPcrValue.isSome = true

/-- A handler as `new` returns it. -/
structure Fresh (output : Output) (h : PacketHandler) : Prop where
  output_eq : h.output = output
  isReady : h.isReady = false
  isSync : h.isSync = false
  inBuff : h.inBuff = []
  frameBuff : h.frameBuff = []
  outBuffV : h.outBuffV = .new
  outBuffA : h.outBuffA = .new
  tables : h.tables = .new
  insertPat : h.timers.insertPat = none
  pcrRestamper : h.pcrRestamper = if output.proxy then none else some (.new output.cbr)
  dirtyCa : h.dirtyCa = false
  history : h.history = []

theorem new_fresh {env : Env} {output : Output} {h : PacketHandler} (e : new env output = some h) :
    Fresh output h := by
  rw [new] at e
  by_cases hl : output.programs.length > 1
  · rw [if_pos hl] at e; cases e
  · rw [if_neg hl] at e
    cases e
    exact ⟨rfl, rfl, rfl, rfl, rfl, rfl, rfl, rfl, rfl, rfl, rfl, rfl⟩

theorem runNew_eq_ok {env : Env} {output : Output} {ops : List Op} {outs : List (Option Bytes)}
    {h : PacketHandler} (e : runNew env output ops = .ok (outs, h)) :
    ∃ h₀, Fresh output h₀ ∧ run env h₀ ops = .ok (outs, h) := by
  obtain ⟨h₀, e₀, e⟩ := bind_eq_ok.1 e
  exact ⟨h₀, new_fresh (unwrap_eq_ok.1 e₀), e⟩

theorem Fresh.good {output : Output} {h : PacketHandler} (f : Fresh output h) (hp : output.proxy = false) :
    Good h where
  queuedV pkt hpkt := by rw [f.outBuffV] at hpkt; cases hpkt
  queuedA pkt hpkt := by rw [f.outBuffA] at hpkt; cases hpkt
  cached k hk := by rw [f.tables] at hk; cases k <;> cases hk
  restamper := ⟨_, by rw [f.pcrRestamper, hp]; rfl⟩
  clocked hr := by rw [f.isReady] at hr; cases hr

/-- The front of a queue leaves; nothing else changes. -/
theorem Good.popped {h h' : PacketHandler} {pkt : TsPacket} (g : Good h) (hp : h.Popped pkt h') :
    Good h' ∧ ∃ program, h.getProgram = .ok program ∧ IsMedia program pkt := by
  rcases hp with e | e
  · obtain ⟨b, hb, rfl⟩ := popV_eq e
    obtain ⟨program, hprog, hm, -⟩ := g.queuedV pkt (by rw [hb]; simp)
    exact ⟨⟨fun q hq => g.queuedV q (by rw [hb]; simp [show q ∈ b.inner from hq]), g.queuedA, g.cached,
      g.restamper, g.clocked⟩, program, hprog, hm⟩
  · obtain ⟨b, hb, rfl⟩ := popA_eq e
    obtain ⟨program, hprog, hm, -⟩ := g.queuedA pkt (by rw [hb]; simp)
    exact ⟨⟨g.queuedV, fun q hq => g.queuedA q (by rw [hb]; simp [show q ∈ b.inner from hq]), g.cached,
      g.restamper, g.clocked⟩, program, hprog, hm⟩

theorem Good.push {h : PacketHandler} {program : Program} {pkt : TsPacket} (g : Good h)
    (hprog : h.getProgram = .ok program) (hm : IsMedia program pkt) : Good (h.push program pkt) := by
  rw [PacketHandler.push]
  split_ifs with h1 h2
  · refine ⟨fun q hq => ?_, g.queuedA, g.cached, g.restamper, g.clocked⟩
    rcases List.mem_append.1 (show q ∈ h.outBuffV.inner ++ [pkt] from hq) with hq | hq
    · exact g.queuedV q hq
    · obtain rfl := List.mem_singleton.1 hq
      exact ⟨program, hprog, hm, h1⟩
  · refine ⟨g.queuedV, fun q hq => ?_, g.cached, g.restamper, g.clocked⟩
    rcases List.mem_append.1 (show q ∈ h.outBuffA.inner ++ [pkt] from hq) with hq | hq
    · exact g.queuedA q hq
    · obtain rfl := List.mem_singleton.1 hq
      exact ⟨program, hprog, hm, h1⟩
  · exact g

theorem Good.flushPsi {h h' : PacketHandler} {k : Option Table} (g : Good h)
    (e : h.flushPsiPackets = (k, h')) : Good h' := by
  cases k with
  | none =>
    obtain ⟨-, rfl⟩ := flushPsi_none e
    exact ⟨g.queuedV, g.queuedA, g.cached, g.restamper, g.clocked⟩
  | some k =>
    obtain ⟨-, -, rfl⟩ := flushPsi_some e
    refine ⟨g.queuedV, g.queuedA, fun j hj => ?_, g.restamper, g.clocked⟩
    obtain ⟨program, hprog, ht⟩ := g.cached j (by rw [← Tables.next_ready h.tables k]; exact hj)
    refine ⟨program, hprog, ?_⟩
    change IsTablePacket _ ((h.tables.next k).cache j)
    rw [Tables.next_cache]
    split_ifs
    · exact ht.next
    · exact ht

/-- A change of the clock. -/
theorem Good.setClock {h : PacketHandler} (g : Good h) {r r' : PcrRestamper} (hr : h.pcrRestamper = some r)
    (hb : r'.targetBitrateBps = r.targetBitrateBps)
    (hf : r.firstPcrValue.isSome = true → r'.firstPcrValue.isSome = true) :
    Good { h with pcrRestamper := some r' } := by
  refine ⟨g.queuedV, g.queuedA, g.cached, ⟨r', rfl⟩, fun hready q hq => ?_⟩
  cases hq
  obtain ⟨h1, h2⟩ := g.clocked hready r hr
  exact ⟨hb ▸ h1, hf h2⟩

theorem countSent_good {h : PacketHandler} (g : Good h) (n : ℕ) : Good (h.countSent n) := by
  obtain ⟨r, hr⟩ := g.restamper
  rw [countSent, hr]
  exact g.setClock hr rfl id

theorem clockFor_clock (h : PacketHandler) (pkt : TsPacket) (r : PcrRestamper) :
    (h.clockFor pkt r).targetBitrateBps = r.targetBitrateBps ∧
      (r.firstPcrValue.isSome = true → (h.clockFor pkt r).firstPcrValue.isSome = true) := by
  rw [clockFor]
  split_ifs
  · exact ⟨rfl, fun _ => rfl⟩
  · exact ⟨rfl, id⟩

theorem getPcr_isSome {r : PcrRestamper} (hr : r.firstPcrValue.isSome = true) : ∃ p, r.getPcr = some p := by
  obtain ⟨last, hl⟩ := Option.isSome_iff_exists.1 hr
  rw [PcrRestamper.getPcr, PcrRestamper.getRawPcr, hl]
  dsimp only
  split_ifs <;> exact ⟨_, rfl⟩

/-- A packet never stops the clock. -/
theorem Processed.clock {h : PacketHandler} {pkt : TsPacket} {r r' : PcrRestamper} {e : Emitted}
    (spec : h.Processed pkt r e r') (hs : r.firstPcrValue.isSome = true) :
    r'.targetBitrateBps = r.targetBitrateBps ∧ r'.firstPcrValue.isSome = true := by
  obtain ⟨hb, hf⟩ := clockFor_clock h pkt r
  cases hp : isPcrPacket h.output e.data with
  | false => rw [spec.plain hp]; exact ⟨hb, hf hs⟩
  | true =>
    obtain ⟨p, hg⟩ := getPcr_isSome (hf hs)
    rw [(spec.stamped hp p hg).2]
    exact ⟨hb, rfl⟩

/-- **Every step keeps the invariant.** -/
theorem mux_good {h h' : PacketHandler} (s : MuxStep h h') (g : Good h) : Good h' := by
  cases s with
  | input => exact ⟨g.queuedV, g.queuedA, g.cached, g.restamper, g.clocked⟩
  | @tables program t hprog hg =>
    refine ⟨g.queuedV, g.queuedA, fun k hk => ?_, g.restamper, g.clocked⟩
    cases hr : h.tables.ready k with
    | false => exact ⟨program, hprog, (hg k).2 hr hk⟩
    | true =>
      obtain ⟨p, hp, ht⟩ := g.cached k hr
      exact ⟨p, hp, ((hg k).1 hr).2 ▸ ht⟩
  | push hprog hm => exact g.push hprog hm
  | clear =>
    exact ⟨fun _ hp => absurd hp (by simp [buffersClear, record, OutBuffer.new]),
      fun _ hp => absurd hp (by simp [buffersClear, record, OutBuffer.new]), g.cached, g.restamper,
      fun hr => absurd hr (by simp [buffersClear, record])⟩
  | drop _ hp => exact (g.popped hp).1
  | bitrate b hr _ _ =>
    exact ⟨g.queuedV, g.queuedA, g.cached, ⟨_, rfl⟩, fun h' => absurd (hr.symm.trans h') (by decide)⟩
  | @ready pkt _ _ _ hb =>
    obtain ⟨r, hr⟩ := g.restamper
    refine ⟨g.queuedV, g.queuedA, g.cached, ⟨_, by rw [setReady, resync, hr]; rfl⟩, fun _ r' hr' => ?_⟩
    rw [setReady, resync, hr] at hr'
    cases hr'
    exact ⟨hb r hr, rfl⟩
  | flushPsi _ e => exact g.flushPsi e
  | table _ e =>
    have g' := countSent_good (g.flushPsi e) 1
    exact ⟨g'.queuedV, g'.queuedA, g'.cached, g'.restamper, g'.clocked⟩
  | null =>
    have g' := countSent_good g 1
    exact ⟨g'.queuedV, g'.queuedA, g'.cached, g'.restamper, g'.clocked⟩
  | @queued h1 h2 pkt e hr hp he =>
    obtain ⟨g1, program, hprog, hm⟩ := (countSent_good g 1).popped hp
    obtain ⟨r, hr1⟩ := g1.restamper
    obtain ⟨r', rfl, spec⟩ := processPacket_spec hr1 hm.pid he
    have hready : h1.isReady = true := (popped_isReady hp).1.trans hr
    obtain ⟨hb, hf⟩ := spec.clock (g1.clocked hready r hr1).2
    have g2 := g1.setClock hr1 hb fun _ => hf
    exact ⟨g2.queuedV, g2.queuedA, g2.cached, g2.restamper, g2.clocked⟩

theorem vbr_good {h h' : PacketHandler} (s : VbrStep h h') (g : Good h) : Good h' := by
  cases s with
  | table _ e =>
    have g' := g.flushPsi e
    exact ⟨g'.queuedV, g'.queuedA, g'.cached, g'.restamper, g'.clocked⟩
  | queued _ hp =>
    have g' := (g.popped hp).1
    exact ⟨g'.queuedV, g'.queuedA, g'.cached, g'.restamper, g'.clocked⟩
  | clock =>
    obtain ⟨r, hr⟩ := g.restamper
    rw [hr]
    exact g.setClock hr rfl fun _ => rfl
  | frame => exact ⟨g.queuedV, g.queuedA, g.cached, g.restamper, g.clocked⟩

theorem any_good {h h' : PacketHandler} (s : AnyStep h h') (g : Good h) : Good h' :=
  s.elim (mux_good · g) (vbr_good · g)

/-- What every step keeps, every run keeps. -/
theorem steps_invariant {step : PacketHandler → PacketHandler → Prop} {P : PacketHandler → Prop}
    {h h' : PacketHandler} (s : ReflTransGen step h h') (hp : P h)
    (hstep : ∀ {h h'}, step h h' → P h → P h') : P h' := by
  induction s with
  | refl => exact hp
  | tail _ s ih => exact hstep s ih

theorem steps_good {h h' : PacketHandler} (s : ReflTransGen AnyStep h h') (g : Good h) : Good h' :=
  steps_invariant s g any_good

theorem any_output {h h' : PacketHandler} (s : AnyStep h h') : h'.output = h.output := by
  have hpush (program : Program) (pkt : TsPacket) : (h.push program pkt).output = h.output := by
    rw [PacketHandler.push]; split_ifs <;> rfl
  have hpsi {k : Option Table} {g : PacketHandler} (e : h.flushPsiPackets = (k, g)) : g.output = h.output := by
    rw [← (flushPsi_isReady h).2, e]
  rcases s with s | s
  · cases s with
    | push => exact hpush _ _
    | drop _ hp => exact (popped_isReady hp).2
    | flushPsi _ e => exact hpsi e
    | table _ e => have h1 := hpsi e; exact h1
    | queued _ hp he =>
      obtain ⟨_, _, -, -, rfl, -⟩ := processPacket_eq he
      exact (popped_isReady hp).2
    | _ => rfl
  · cases s with
    | table _ e => have h1 := hpsi e; exact h1
    | queued _ hp => exact (popped_isReady hp).2
    | _ => rfl

/-- The configuration never changes. -/
theorem steps_output {h h' : PacketHandler} (s : ReflTransGen AnyStep h h') : h'.output = h.output := by
  induction s with
  | refl => rfl
  | tail _ s ih => exact (any_output s).trans ih

end PacketHandler

end MyMuxer
