import MyMuxer.Mux.Accounts
import MyMuxer.Mux.Sync
import MyMuxer.Psi.Reassembler

/-!
# What a muxer holds (`mux.rs`)

* `queueCap`: the longest that `max_buff_size` gets, over the bitrates output may start with.
* `Short`: the sections under way, on the PIDs of the tables alone.
* `Paced`: what the clock and the configuration say about the limits; `Within`: the invariant of every call.
* `process_within`, `OutputStep.within`: the input adds to the queues no more than it brings, a flush nothing.
* **`run_bounded`**: after every call of every run the input buffer, the queues, `frame_buff` and the sections
  under way are below their limits.
-/

namespace MyMuxer

open Relation Psi

/-! ## Limits -/

def Output.bufferDuration (output : Output) : ℕ := (output.programs.head?.map Program.bufferDuration).getD 0

def Output.adjustBuf (output : Output) : ℕ := (output.programs.head?.map Program.adjustBuf).getD 0

/-- The bitrates that output may start with: the configured one, or one measured over what the queues hold. -/
def startBitrates (env : Env) (output : Output) (limit : ℕ) : Finset ℕ :=
  if output.cbr = 0 then
    (Finset.range ((2 * maxBufferSize + limit) * 8 / 5000 + 1)).image env.probeBitrate
  else {output.cbr}

/-- `max_buff_size` stays below it. -/
def queueCap (env : Env) (output : Output) (limit : ℕ) : ℕ :=
  max maxBufferSize ((startBitrates env output limit).sup fun bitrate =>
    env.maxBuffSize bitrate output.bufferDuration output.adjustBuf)

/-- The PIDs whose packets may begin a section. -/
def sectionPids (output : Output) : List UInt16 := 0x0000 :: 0x0011 :: output.programs.map Program.pmtPid

/-- At a configured bitrate the limit is that of the bitrate. -/
theorem queueCap_cbr {env : Env} {output : Output} (h : output.cbr ≠ 0) (limit : ℕ) :
    queueCap env output limit =
      max maxBufferSize (env.maxBuffSize output.cbr output.bufferDuration output.adjustBuf) := by
  rw [queueCap, startBitrates, if_neg h, Finset.sup_singleton]

/-! ## Sections under way -/

/-- Sections are put together on the PIDs of the tables alone, and none of them is long. -/
def Short (output : Output) (m : SectionReassemblerMap) : Prop :=
  ∀ pid r, m.perPid pid = some r → pid ∈ sectionPids output ∧ r.Linked

theorem Short.push {output : Output} {m : SectionReassemblerMap} (hm : Short output m) {packet : Bytes}
    (hpid : pktPid packet ∈ sectionPids output) : Short output (m.push packet).2 := by
  rw [SectionReassemblerMap.push]
  split_ifs
  · exact hm
  · intro pid r hr
    have hentry : (m.entry (pktPid packet)).Linked := by
      rw [SectionReassemblerMap.entry]
      cases he : m.perPid (pktPid packet) with
      | none => exact .empty rfl rfl
      | some r => exact (hm _ r he).2
    dsimp only [SectionReassemblerMap.insert] at hr
    by_cases hp : pid = pktPid packet
    · subst hp
      rw [Function.update_self] at hr
      cases hr
      exact ⟨hpid, (SectionReassembler.push_linked hentry packet).1⟩
    · rw [Function.update_of_ne hp] at hr
      exact hm pid r hr

namespace Tables

variable {env : Env} {program : Program} {t t' : Tables} {p : Packet}

theorem processPat_reasm (e : t.processPat env program p = .ok t') :
    t'.psiReasm = (t.psiReasm.push p.bytes).2 := by
  rw [processPat] at e
  generalize t.psiReasm.push p.bytes = found at e ⊢
  obtain ⟨found, m⟩ := found
  cases found with
  | none => cases e; rfl
  | some s =>
    obtain ⟨info, -, e⟩ := bind_eq_ok.1 e
    split_ifs at e
    · obtain ⟨s', -, e⟩ := bind_eq_ok.1 e
      obtain ⟨_, -, e⟩ := bind_eq_ok.1 e
      cases e
      rfl
    · cases e
      rfl

theorem processPmt_reasm {output : Output} (e : t.processPmt env output program p = .ok t') :
    t'.psiReasm = (t.psiReasm.push p.bytes).2 := by
  rw [processPmt] at e
  generalize t.psiReasm.push p.bytes = found at e ⊢
  obtain ⟨found, m⟩ := found
  cases found with
  | none => cases e; rfl
  | some s =>
    obtain ⟨info, -, e⟩ := bind_eq_ok.1 e
    dsimp only at e
    split_ifs at e
    · obtain ⟨s', -, e⟩ := bind_eq_ok.1 e
      obtain ⟨_, -, e⟩ := bind_eq_ok.1 e
      cases e
      rfl
    · split at e <;> cases e <;> rfl

theorem processSdt_reasm (e : t.processSdt env program p = .ok t') :
    t'.psiReasm = (t.psiReasm.push p.bytes).2 := by
  rw [processSdt] at e
  generalize t.psiReasm.push p.bytes = found at e ⊢
  obtain ⟨found, m⟩ := found
  cases found with
  | none => cases e; rfl
  | some s =>
    obtain ⟨sdts, -, e⟩ := bind_eq_ok.1 e
    dsimp only at e
    split at e
    · cases e
      rfl
    · obtain ⟨packet, -, e⟩ := bind_eq_ok.1 e
      cases e
      rfl

theorem generateSdt_reasm (e : t.generateSdt env program = .ok t') : t'.psiReasm = t.psiReasm := by
  rw [generateSdt] at e
  obtain ⟨packet, -, e⟩ := bind_eq_ok.1 e
  cases e
  rfl

end Tables

namespace PacketHandler

variable {env : Env} {output : Output} {limit : ℕ} {h h' : PacketHandler}

/-- The bytes in the queues. -/
def queuedBytes (h : PacketHandler) : ℕ := h.outBuffV.size + h.outBuffA.size

/-- The limits are those of the configuration, and of a bitrate that output may start with. -/
structure Paced (env : Env) (output : Output) (limit : ℕ) (h : PacketHandler) : Prop where
  output_eq : h.output = output
  bufferDurationMs : h.bufferDurationMs = output.bufferDuration
  adjustBuf : h.adjustBuf = output.adjustBuf
  bitrate : ∃ b, h.getBitrate = some b ∧ ((b ≠ 0 ∧ b ∈ startBitrates env output limit) ∨
    (b = 0 ∧ output.cbr = 0 ∧ h.maxBuffSize = maxBufferSize))
  maxBuffSize : h.maxBuffSize ≤ queueCap env output limit
  sections : Short output h.tables.psiReasm

/-- **What a handler holds between two calls.** -/
structure Bounded (env : Env) (output : Output) (limit : ℕ) (h : PacketHandler) : Prop where
  inBuff : h.inBuff.length ≤ limit
  queues : h.queuedBytes ≤ 2 * queueCap env output limit + limit
  frameBuff : h.frameBuff.length < max frameBufferSize (tsPacketSize + h.getPktSize)
  sections : ∀ pid r, h.tables.psiReasm.perPid pid = some r →
    pid ∈ sectionPids output ∧ r.buffer.length ≤ 4097

theorem maxBufferSize_le_queueCap (env : Env) (output : Output) (limit : ℕ) :
    maxBufferSize ≤ queueCap env output limit := le_max_left _ _

theorem maxBuffSize_le_queueCap {b : ℕ} (hb : b ∈ startBitrates env output limit) :
    env.maxBuffSize b output.bufferDuration output.adjustBuf ≤ queueCap env output limit :=
  (Finset.le_sup (f := fun bitrate => env.maxBuffSize bitrate output.bufferDuration output.adjustBuf) hb).trans
    (le_max_right _ _)

/-! ## A packet of the input -/

/-- A change that the limits do not depend on. -/
theorem Paced.of_eq (i : Paced env output limit h) (ho : h'.output = h.output)
    (hd : h'.bufferDurationMs = h.bufferDurationMs) (ha : h'.adjustBuf = h.adjustBuf)
    (hb : h'.getBitrate = h.getBitrate) (hm : h'.maxBuffSize = h.maxBuffSize)
    (hs : h'.tables.psiReasm = h.tables.psiReasm) : Paced env output limit h' :=
  ⟨ho.trans i.output_eq, hd.trans i.bufferDurationMs, ha.trans i.adjustBuf, hb ▸ hm ▸ i.bitrate,
    hm ▸ i.maxBuffSize, hs ▸ i.sections⟩

theorem Paced.tables (i : Paced env output limit h) {t : Tables} (ht : Short output t.psiReasm) :
    Paced env output limit { h with tables := t } :=
  ⟨i.output_eq, i.bufferDurationMs, i.adjustBuf, i.bitrate, i.maxBuffSize, ht⟩

theorem queuedBytes_clear (h : PacketHandler) : h.buffersClear.queuedBytes = 0 := by
  simp [queuedBytes, buffersClear, record, OutBuffer.size, OutBuffer.new]

theorem Paced.buffersClear (i : Paced env output limit h) : Paced env output limit h.buffersClear := by
  refine ⟨i.output_eq, i.bufferDurationMs, i.adjustBuf, ?_, maxBufferSize_le_queueCap .., i.sections⟩
  obtain ⟨b, hb, hr⟩ := i.bitrate
  exact ⟨b, hb, hr.imp_right fun h0 => ⟨h0.1, h0.2.1, rfl⟩⟩

/-- A packet goes into one queue or none. -/
theorem queuedBytes_push (h : PacketHandler) (program : Program) (pkt : TsPacket) :
    (h.push program pkt).queuedBytes ≤ h.queuedBytes + tsPacketSize := by
  have hsize (b : OutBuffer) : (b.pushBack pkt).size = b.size + tsPacketSize := by
    rw [OutBuffer.size, OutBuffer.pushBack, List.length_append, List.length_singleton, Nat.add_one_mul, OutBuffer.size]
  rw [push]
  split_ifs
  · change (h.outBuffV.pushBack pkt).size + h.outBuffA.size ≤ h.outBuffV.size + h.outBuffA.size + tsPacketSize
    rw [hsize]
    omega
  · change h.outBuffV.size + (h.outBuffA.pushBack pkt).size ≤ h.outBuffV.size + h.outBuffA.size + tsPacketSize
    rw [hsize]
    omega
  · exact Nat.le_add_right _ _

/-- What a packet of the input leaves of the input, the queues and the limits. -/
structure Takes (env : Env) (output : Output) (limit : ℕ) (h h' : PacketHandler) : Prop where
  paced : Paced env output limit h'
  inBuff : h'.inBuff = h.inBuff
  maxBuffSize : h'.maxBuffSize = h.maxBuffSize
  queued : h'.queuedBytes ≤ h.queuedBytes + tsPacketSize

theorem Paced.takes (i : Paced env output limit h) : Takes env output limit h h :=
  ⟨i, rfl, rfl, Nat.le_add_right _ _⟩

theorem Paced.takes_tables (i : Paced env output limit h) {t : Tables} (ht : Short output t.psiReasm) :
    Takes env output limit h { h with tables := t } :=
  ⟨i.tables ht, rfl, rfl, Nat.le_add_right _ _⟩

theorem processMedia_takes {program : Program} {pid : UInt16} {p : Packet} (i : Paced env output limit h)
    (e : h.processMedia program pid p = .ok h') : Takes env output limit h h' := by
  obtain ⟨lastPtsDts, lastCc, ccErrors, rfl | ⟨pkt, -, -, rfl⟩⟩ := processMedia_cases e
  · exact ⟨i.of_eq rfl rfl rfl rfl rfl rfl, rfl, rfl, Nat.le_add_right _ _⟩
  · have hq := queuedBytes_push { h with lastPtsDts, lastCc, ccErrors } program pkt
    rw [push] at hq ⊢
    split_ifs at hq ⊢
    all_goals exact ⟨i.of_eq rfl rfl rfl rfl rfl rfl, rfl, rfl, hq⟩

theorem processPid_takes {program : Program} {p : Packet} (i : Paced env output limit h)
    (hprog : h.getProgram = .ok program) (e : h.processPid env program (pktPid p.bytes) p = .ok h') :
    Takes env output limit h h' := by
  have hmem : program ∈ output.programs := by
    rw [← i.output_eq]
    exact List.mem_of_mem_head? (unwrap_eq_ok.1 hprog)
  have hpmt : program.pmtPid ∈ sectionPids output := by
    simp only [sectionPids, List.mem_cons, List.mem_map]
    exact .inr (.inr ⟨program, hmem, rfl⟩)
  rw [processPid] at e
  split_ifs at e with h1 h2 h3 h4 h5 h6 h7 h8
  · cases e; exact i.takes
  · obtain ⟨t, ht, e⟩ := bind_eq_ok.1 e
    cases e
    exact i.takes_tables (Tables.processPat_reasm ht ▸ i.sections.push (h2 ▸ List.mem_cons_self))
  · cases e; exact i.takes
  · obtain ⟨t, ht, e⟩ := bind_eq_ok.1 e
    cases e
    exact i.takes_tables (Tables.processPmt_reasm ht ▸ i.sections.push (h4.1 ▸ hpmt))
  · cases e; exact i.takes
  · obtain ⟨t, ht, e⟩ := bind_eq_ok.1 e
    cases e
    exact i.takes_tables (Tables.processSdt_reasm ht ▸
      i.sections.push (h6 ▸ List.mem_cons_of_mem _ List.mem_cons_self))
  · cases e; exact i.takes
  · exact processMedia_takes i e
  · cases e; exact i.takes

theorem processTs_takes {p : Packet} (i : Paced env output limit h) (e : h.processTs env p = .ok h') :
    Takes env output limit h h' := by
  rw [processTs] at e
  obtain ⟨program, hprog, e⟩ := bind_eq_ok.1 e
  split at e
  · rename_i biss _ _
    have hpid : pktPid (biss.descrambleTsPacket p).2.bytes = pktPid p.bytes := by
      rw [pktPid, descramble_byte biss p (by norm_num), descramble_byte biss p (by norm_num)]
      rfl
    exact processPid_takes i hprog (hpid ▸ e)
  · split_ifs at e
    · cases e
      exact ⟨i.of_eq rfl rfl rfl rfl rfl rfl, rfl, rfl, Nat.le_add_right _ _⟩
    · have i' : Paced env output limit { h with dirtyCa := false } := i.of_eq rfl rfl rfl rfl rfl rfl
      obtain ⟨hi, hin, hm, hq⟩ := processPid_takes i' hprog e
      exact ⟨hi, hin, hm, hq⟩

/-- The loop puts no more into the queues than it takes off the input. -/
structure Loops (env : Env) (output : Output) (limit n : ℕ) (h h' : PacketHandler) : Prop where
  paced : Paced env output limit h'
  inBuff : h'.inBuff.length ≤ h.inBuff.length
  queued : h'.queuedBytes ≤ h.queuedBytes + n * tsPacketSize

theorem processLoop_loops : ∀ (n : ℕ) {h h' : PacketHandler} {synced : Bool}, Paced env output limit h →
    processLoop env n h = .ok (synced, h') →
    Loops env output limit n h h' ∧ (synced = true → h'.maxBuffSize = h.maxBuffSize)
  | 0, h, h', synced, i, e => by
    cases e
    exact ⟨⟨i, Nat.le_refl _, Nat.le_add_right _ _⟩, fun _ => rfl⟩
  | n + 1, h, h', synced, i, e => by
    rw [processLoop] at e
    split_ifs at e
    · obtain ⟨g, hg, e⟩ := bind_eq_ok.1 e
      have i₁ : Paced env output limit { h with inBuff := h.inBuff.drop tsPacketSize } :=
        i.of_eq rfl rfl rfl rfl rfl rfl
      obtain ⟨i₂, hin, hm, hq⟩ := processTs_takes i₁ hg
      obtain ⟨⟨i', hin', hq'⟩, hm'⟩ := processLoop_loops n i₂ e
      refine ⟨⟨i', ?_, ?_⟩, fun hs => (hm' hs).trans hm⟩
      · rw [hin, List.length_drop] at hin'
        omega
      · have hq₁ : g.queuedBytes ≤ h.queuedBytes + tsPacketSize := hq
        rw [Nat.add_one_mul]
        omega
    · cases e
      have i₁ : Paced env output limit { h with isSync := false } := i.of_eq rfl rfl rfl rfl rfl rfl
      refine ⟨⟨i₁.buffersClear, Nat.le_refl _, ?_⟩, fun hs => by cases hs⟩
      rw [queuedBytes_clear]
      exact Nat.zero_le _

/-! ## The end of `process` -/

theorem queuedBytes_popped {pkt : TsPacket} (hp : h.Popped pkt h') : h'.queuedBytes ≤ h.queuedBytes := by
  rcases hp with e | e
  · obtain ⟨b, hb, rfl⟩ := popV_eq e
    have hsize : b.size ≤ h.outBuffV.size := by
      rw [OutBuffer.size, OutBuffer.size, hb, List.length_cons]
      exact Nat.mul_le_mul_right _ (Nat.le_succ _)
    exact Nat.add_le_add_right hsize _
  · obtain ⟨b, hb, rfl⟩ := popA_eq e
    have hsize : b.size ≤ h.outBuffA.size := by
      rw [OutBuffer.size, OutBuffer.size, hb, List.length_cons]
      exact Nat.mul_le_mul_right _ (Nat.le_succ _)
    exact Nat.add_le_add_left hsize _

theorem queuedBytes_bufferAdjustLoop : ∀ (fuel : ℕ) (h : PacketHandler),
    (bufferAdjustLoop fuel h).queuedBytes ≤ h.queuedBytes
  | 0, h => Nat.le_refl _
  | fuel + 1, h => by
    rw [bufferAdjustLoop]
    split_ifs
    · split
      · rename_i pkt g e
        exact (queuedBytes_bufferAdjustLoop fuel g).trans (queuedBytes_popped (getAOrV_popped e))
      · exact Nat.le_refl _
    · exact Nat.le_refl _

/-- What becomes of the limits, with no more in the buffers. -/
structure Starts (env : Env) (output : Output) (limit : ℕ) (h h' : PacketHandler) : Prop where
  paced : Paced env output limit h'
  inBuff : h'.inBuff = h.inBuff
  queued : h'.queuedBytes ≤ h.queuedBytes

theorem Paced.starts (i : Paced env output limit h) : Starts env output limit h h := ⟨i, rfl, Nat.le_refl _⟩

theorem Starts.trans {g : PacketHandler} (s : Starts env output limit h g) (s' : Starts env output limit g h') :
    Starts env output limit h h' :=
  ⟨s'.paced, s'.inBuff.trans s.inBuff, s'.queued.trans s.queued⟩

/-- A bitrate that was measured is one that output may start with. -/
theorem measured_mem (hcbr : output.cbr = 0) {size duration : ℕ} (hs : size ≤ 2 * maxBufferSize + limit)
    (hd : duration ≥ 5000) : env.probeBitrate (size * 8 / duration) ∈ startBitrates env output limit := by
  rw [startBitrates, if_pos hcbr]
  refine Finset.mem_image_of_mem _ (Finset.mem_range.2 (Nat.lt_succ_of_le ?_))
  exact Nat.div_le_div (Nat.mul_le_mul_right 8 hs) hd (by norm_num)

theorem probeBitrate_starts (i : Paced env output limit h) (hq : h.queuedBytes ≤ 2 * h.maxBuffSize + limit) :
    Starts env output limit h (h.probeBitrate env).2 ∧ ((h.probeBitrate env).1 ≠ 0 →
      (h.probeBitrate env).1 ∈ startBitrates env output limit ∧ (h.probeBitrate env).2.getBitrate ≠ some 0) := by
  obtain ⟨b, hb, hr⟩ := i.bitrate
  obtain ⟨r, hrest, rfl⟩ := Option.map_eq_some_iff.1 hb
  rw [probeBitrate, hb, Option.getD_some]
  dsimp only
  split_ifs with h0
  · -- nothing is known so far, and the queues were held to `MAX_BUFFER_SIZE`
    obtain ⟨-, hcbr, hmax⟩ := hr.resolve_left fun hne => hne.1 h0.1
    rw [hmax] at hq
    have hmem : env.probeBitrate (h.queuedBytes * 8 / h.outBuffV.durationMs) ∈ startBitrates env output limit :=
      measured_mem hcbr hq h0.2
    rw [queuedBytes] at hmem
    generalize env.probeBitrate ((h.outBuffV.size + h.outBuffA.size) * 8 / h.outBuffV.durationMs) = c at hmem
    have hbit : getBitrate { h with pcrRestamper := h.pcrRestamper.map fun r =>
        if r.targetBitrateBps = 0 then { r with targetBitrateBps := c } else r } = some c := by
      rw [getBitrate, hrest, Option.map_some, Option.map_some, if_pos h0.1]
    refine ⟨⟨⟨i.output_eq, i.bufferDurationMs, i.adjustBuf, ⟨c, hbit, ?_⟩, i.maxBuffSize, i.sections⟩, rfl, Nat.le_refl _⟩,
      fun hc => ⟨hmem, fun hz => hc (Option.some.inj (hbit.symm.trans hz))⟩⟩
    by_cases hz : c = 0
    · exact .inr ⟨hz, hcbr, hmax⟩
    · exact .inl ⟨hz, hmem⟩
  · refine ⟨i.starts, fun hne => ⟨(hr.resolve_right fun hz => hne hz.1).2, fun hz => ?_⟩⟩
    exact hne (Option.some.inj (hb.symm.trans hz))

theorem startOutput_starts {bitrate : ℕ} (i : Paced env output limit h)
    (hb : bitrate ≠ 0 → bitrate ∈ startBitrates env output limit ∧ h.getBitrate ≠ some 0) :
    Starts env output limit h (h.startOutput env bitrate) := by
  rw [startOutput]
  split_ifs with h0
  · obtain ⟨hmem, hset⟩ := hb h0.1
    have hq := queuedBytes_bufferAdjustLoop (h.outBuffV.len + h.outBuffA.len) h
    obtain ⟨v, a, hg⟩ := bufferAdjustLoop_eq (h.outBuffV.len + h.outBuffA.len) h
    rw [bufferAdjust, hg]
    rw [hg] at hq
    have hcap : env.maxBuffSize bitrate h.bufferDurationMs h.adjustBuf ≤ queueCap env output limit := by
      rw [i.bufferDurationMs, i.adjustBuf]
      exact maxBuffSize_le_queueCap hmem
    obtain ⟨b, hbit, hr⟩ := i.bitrate
    have hr' := hr.resolve_right fun hz => hset (hz.1 ▸ hbit)
    dsimp only
    split
    · rename_i pkt _
      refine ⟨⟨i.output_eq, i.bufferDurationMs, i.adjustBuf, ⟨b, ?_, .inl hr'⟩, hcap, i.sections⟩, rfl, hq⟩
      rw [getBitrate, setReady, record, resync]
      dsimp only
      rw [Option.map_map]
      exact hbit
    · exact ⟨⟨i.output_eq, i.bufferDurationMs, i.adjustBuf, ⟨b, hbit, .inl hr'⟩, hcap, i.sections⟩, rfl, hq⟩
  · exact i.starts

theorem fillSdt_starts (i : Paced env output limit h) (e : h.fillSdt env = .ok h') :
    Starts env output limit h h' ∧ h'.maxBuffSize = h.maxBuffSize := by
  rw [fillSdt] at e
  split_ifs at e
  · obtain ⟨program, -, e⟩ := bind_eq_ok.1 e
    obtain ⟨t, ht, e⟩ := bind_eq_ok.1 e
    cases e
    exact ⟨⟨i.tables (Tables.generateSdt_reasm ht ▸ i.sections), rfl, Nat.le_refl _⟩, rfl⟩
  · cases e
    exact ⟨i.starts, rfl⟩

theorem becomeReady_starts (i : Paced env output limit h) (hq : h.queuedBytes ≤ 2 * h.maxBuffSize + limit)
    (e : h.becomeReady env = .ok h') : Starts env output limit h h' := by
  rw [becomeReady] at e
  split_ifs at e
  · cases e; exact i.starts
  · cases e; exact i.starts
  · cases e; exact i.starts
  · obtain ⟨g, hg, e⟩ := bind_eq_ok.1 e
    obtain ⟨s, hm⟩ := fillSdt_starts i hg
    split at e
    · split_ifs at e
      · cases e
        refine s.trans ⟨s.paced.buffersClear, rfl, ?_⟩
        rw [queuedBytes_clear]
        exact Nat.zero_le _
      · obtain ⟨s', hb⟩ := probeBitrate_starts s.paced (hm ▸ s.queued.trans hq)
        cases e
        exact (s.trans s').trans (startOutput_starts s'.paced hb)
    · cases e
      exact s

/-! ## A call of `write` -/

/-- What `process` works on is a part of `in_buff`. -/
theorem syncBuffer_length (buff : Bytes) : (syncBuffer buff).2.length ≤ buff.length := by
  obtain ⟨d, -, ⟨he, -⟩ | ⟨he, -⟩⟩ := syncBuffer_skips buff
  · rw [he, List.length_drop]
    exact Nat.sub_le _ _
  · rw [he, List.length_drop]
    exact Nat.sub_le _ _

/-- The queues are given up before the call where they have grown too long. -/
theorem clearOverflow_starts (i : Paced env output limit h) :
    Starts env output limit h h.clearOverflow ∧ h.clearOverflow.queuedBytes ≤ 2 * h.clearOverflow.maxBuffSize := by
  rw [clearOverflow]
  split_ifs with hover
  · rw [queuedBytes_clear]
    exact ⟨⟨i.buffersClear, rfl, by rw [queuedBytes_clear]; exact Nat.zero_le _⟩, Nat.zero_le _⟩
  · refine ⟨i.starts, ?_⟩
    rw [isBufferOverflow, decide_eq_true_eq, Nat.not_lt, Nat.mul_comm] at hover
    exact hover

/-- What every call keeps. -/
structure Within (env : Env) (output : Output) (limit : ℕ) (h : PacketHandler) : Prop extends
    Paced env output limit h where
  inBuff : h.inBuff.length ≤ limit
  queued : h.queuedBytes ≤ 2 * queueCap env output limit + limit

/-- A call leaves in the queues what is allowed there before it and what is in the input. -/
theorem process_within (i : Within env output limit h) (e : h.process env = .ok h') :
    Within env output limit h' := by
  rw [process] at e
  have hlen : (if h.isSync then (true, h.inBuff) else syncBuffer h.inBuff).2.length ≤ limit := by
    split_ifs
    · exact i.inBuff
    · exact (syncBuffer_length h.inBuff).trans i.inBuff
  generalize (if h.isSync then (true, h.inBuff) else syncBuffer h.inBuff) = sb at e hlen
  obtain ⟨isSync, inBuff⟩ := sb
  have i₁ : Paced env output limit { h with isSync, inBuff } := i.toPaced.of_eq rfl rfl rfl rfl rfl rfl
  obtain ⟨s₁, hover⟩ := clearOverflow_starts i₁
  dsimp only at e hlen
  rw [← clearOverflow] at e
  have hq₁ : queuedBytes { h with isSync, inBuff } ≤ 2 * queueCap env output limit + limit := i.queued
  split_ifs at e
  · cases e
    exact ⟨i₁, hlen, hq₁⟩
  · cases e
    exact ⟨s₁.paced, s₁.inBuff ▸ hlen, s₁.queued.trans hq₁⟩
  · obtain ⟨⟨synced, g⟩, hg, e⟩ := bind_eq_ok.1 e
    obtain ⟨l, hm⟩ := processLoop_loops _ s₁.paced hg
    have hcap := s₁.paced.maxBuffSize
    have hloop : g.queuedBytes ≤ 2 * (clearOverflow { h with isSync, inBuff }).maxBuffSize + limit := by
      refine l.queued.trans (Nat.add_le_add hover ?_)
      rw [s₁.inBuff]
      exact (Nat.div_mul_le_self _ _).trans hlen
    have hgin : g.inBuff.length ≤ limit := l.inBuff.trans (s₁.inBuff ▸ hlen)
    have hgq : g.queuedBytes ≤ 2 * queueCap env output limit + limit := by omega
    dsimp only at e
    split_ifs at e with hs
    · have s := becomeReady_starts l.paced (hm hs ▸ hloop) e
      exact ⟨s.paced, s.inBuff ▸ hgin, s.queued.trans hgq⟩
    · cases e
      exact ⟨l.paced, hgin, hgq⟩

theorem write_within {chunk : Bytes} (hlimit : maxBufferSize ≤ limit) (hc : chunk.length ≤ limit)
    (i : Within env output limit h) (e : h.write env chunk = .ok h') : Within env output limit h' := by
  have htake (inBuff : Bytes) (isSync : Bool) (hin : inBuff.length ≤ limit) :
      Within env output limit { h with inBuff, isSync } :=
    ⟨i.toPaced.of_eq rfl rfl rfl rfl rfl rfl, hin, i.queued⟩
  rw [write] at e
  split_ifs at e with hfull
  · exact process_within (htake ([] ++ chunk) false hc) e
  · refine process_within (htake (h.inBuff ++ chunk) h.isSync ?_) e
    rw [List.length_append]
    omega

/-! ## A flush -/

/-- A flush only takes packets off the queues. -/
theorem OutputStep.within (s : OutputStep h h') (i : Within env output limit h) : Within env output limit h' := by
  have hkeep {g : PacketHandler} (ho : g.output = h.output) (hd : g.bufferDurationMs = h.bufferDurationMs)
      (ha : g.adjustBuf = h.adjustBuf) (hb : g.getBitrate = h.getBitrate) (hm : g.maxBuffSize = h.maxBuffSize)
      (hs : g.tables.psiReasm = h.tables.psiReasm) (hin : g.inBuff = h.inBuff)
      (hq : g.queuedBytes ≤ h.queuedBytes) : Within env output limit g :=
    ⟨i.toPaced.of_eq ho hd ha hb hm hs, hin ▸ i.inBuff, hq.trans i.queued⟩
  have hb := s.getBitrate
  cases s with
  | flushPsi _ e =>
    obtain ⟨-, rfl⟩ := flushPsi_none e
    exact hkeep rfl rfl rfl hb rfl rfl rfl (Nat.le_refl _)
  | @table g k _ e =>
    obtain ⟨-, -, rfl⟩ := flushPsi_some e
    exact hkeep rfl rfl rfl hb rfl (by cases k <;> rfl) rfl (Nat.le_refl _)
  | null => exact hkeep rfl rfl rfl hb rfl rfl rfl (Nat.le_refl _)
  | queued _ _ hp he =>
    obtain ⟨program, r, -, -, rfl, -⟩ := processPacket_eq he
    have hq := queuedBytes_popped hp
    obtain ⟨v, a, rfl⟩ := popped_eq hp
    exact hkeep rfl rfl rfl hb rfl rfl rfl hq
  | @vbrTable g k _ e =>
    obtain ⟨-, -, rfl⟩ := flushPsi_some e
    exact hkeep rfl rfl rfl hb rfl (by cases k <;> rfl) rfl (Nat.le_refl _)
  | vbrQueued _ hp =>
    have hq := queuedBytes_popped hp
    obtain ⟨v, a, rfl⟩ := popped_eq hp
    exact hkeep rfl rfl rfl hb rfl rfl rfl hq
  | clock => exact hkeep rfl rfl rfl hb rfl rfl rfl (Nat.le_refl _)
  | frame => exact hkeep rfl rfl rfl hb rfl rfl rfl (Nat.le_refl _)

/-! ## `frame_buff` -/

/-- The loop stops with the first packet that fills a frame. -/
theorem frameLoop_frameBuff : ∀ (fuel : ℕ) {h : PacketHandler}, h.frameBuff.length < frameBufferSize →
    (h.frameLoop fuel).frameBuff.length < frameBufferSize + (tsPacketSize + h.getPktSize)
  | 0, h, hf => by
    rw [frameLoop]
    omega
  | fuel + 1, h, hf => by
    rw [frameLoop, if_pos hf]
    have ho := flushVbr_output h
    have hk := flushVbr_frameBuff h
    cases e : h.flushPacketForVbr with
    | mk out g =>
      rw [e] at ho hk
      cases out with
      | none =>
        dsimp only at hk ⊢
        rw [hk]
        omega
      | some out =>
        dsimp only at hk ho ⊢
        have hout := flushVbr_length e
        have hsize : getPktSize { g with frameBuff := g.frameBuff ++ out } = h.getPktSize := by
          rw [getPktSize, getPktSize, ho]
        have hlen : (g.frameBuff ++ out).length < frameBufferSize + (tsPacketSize + h.getPktSize) := by
          rw [List.length_append, hk]
          omega
        by_cases hnext : (g.frameBuff ++ out).length < frameBufferSize
        · exact hsize ▸ frameLoop_frameBuff fuel (h := { g with frameBuff := g.frameBuff ++ out }) hnext
        · cases fuel with
          | zero => exact hlen
          | succ fuel =>
            rw [frameLoop, if_neg hnext]
            exact hlen

theorem flushFrame_frameBuff (hf : h.frameBuff.length < max frameBufferSize (tsPacketSize + h.getPktSize)) :
    h.flushFrame.2.frameBuff.length < max frameBufferSize (tsPacketSize + h.getPktSize) := by
  rw [flushFrame]
  split_ifs
  · exact hf
  · dsimp only
    have hloop : (h.frameLoop frameBufferSize).frameBuff.length <
        frameBufferSize + max frameBufferSize (tsPacketSize + h.getPktSize) := by
      by_cases hlt : h.frameBuff.length < frameBufferSize
      · have := frameLoop_frameBuff frameBufferSize hlt
        omega
      · rw [show frameBufferSize = 8191 + 1 from rfl, frameLoop, if_neg hlt]
        omega
    split_ifs with hfull
    · dsimp only
      rw [List.length_drop]
      omega
    · dsimp only
      omega

/-! ## Runs -/

/-- The limits of a handler that `new` has just made. -/
theorem new_within (hproxy : output.proxy = false) (e : new env output = some h) : Within env output limit h := by
  have f := new_fresh e
  have hbit : h.getBitrate = some output.cbr := by
    rw [getBitrate, f.pcrRestamper, hproxy]
    rfl
  have hq : h.queuedBytes = 0 := by
    rw [queuedBytes, f.outBuffV, f.outBuffA]
    simp [OutBuffer.size, OutBuffer.new]
  have hreasm : Short output h.tables.psiReasm := by
    rw [f.tables]
    exact fun pid r hr => by cases hr
  have hone : ¬ output.programs.length > 1 := fun hl => by
    rw [new, if_pos hl] at e
    cases e
  rw [new, if_neg hone] at e
  cases e
  refine ⟨⟨rfl, rfl, rfl, ⟨_, hbit, ?_⟩, maxBufferSize_le_queueCap .., hreasm⟩, Nat.zero_le _, hq ▸ Nat.zero_le _⟩
  by_cases h0 : output.cbr = 0
  · exact .inr ⟨h0, h0, rfl⟩
  · refine .inl ⟨h0, ?_⟩
    rw [startBitrates, if_neg h0]
    exact Finset.mem_singleton_self _

theorem call_within {op : Op} {out : Option Bytes} (hlimit : maxBufferSize ≤ limit) (hc : op.chunk.length ≤ limit)
    (i : Within env output limit h) (hf : h.frameBuff.length < max frameBufferSize (tsPacketSize + h.getPktSize))
    (e : h.call env op = .ok (out, h')) : Within env output limit h' ∧
      h'.frameBuff.length < max frameBufferSize (tsPacketSize + h'.getPktSize) := by
  have hsize {g : PacketHandler} (i' : Within env output limit g) : g.getPktSize = h.getPktSize := by
    rw [getPktSize, getPktSize, i'.output_eq, i.output_eq]
  cases op with
  | write chunk =>
    obtain ⟨g, hg, e⟩ := bind_eq_ok.1 e
    cases e
    have i' := write_within hlimit hc i hg
    rw [hsize i', write_frameBuff hg]
    exact ⟨i', hf⟩
  | flushPacketForCbr =>
    have i' : Within env output limit h' := steps_invariant (flushPacketForCbr_output e) i fun s => s.within
    rw [hsize i', flushCbr_frameBuff e]
    exact ⟨i', hf⟩
  | flushPacketForVbr =>
    have e : h.flushPacketForVbr.2 = h' := congrArg Prod.snd (Except.ok.inj e)
    have i' : Within env output limit h' := e ▸ steps_invariant (flushPacketForVbr_output h) i fun s => s.within
    rw [hsize i', ← e, flushVbr_frameBuff]
    exact ⟨e ▸ i', hf⟩
  | flushFrame =>
    have e : h.flushFrame.2 = h' := congrArg Prod.snd (Except.ok.inj e)
    have i' : Within env output limit h' := e ▸ steps_invariant (flushFrame_output h) i fun s => s.within
    rw [hsize i', ← e]
    exact ⟨e ▸ i', flushFrame_frameBuff hf⟩

/-- The limits, with that of `frame_buff`. -/
theorem within_kept (output : Output) (hlimit : maxBufferSize ≤ limit) :
    Kept env (fun chunk => chunk.length ≤ limit) fun _ h => Within env output limit h ∧
      h.frameBuff.length < max frameBufferSize (tsPacketSize + h.getPktSize) where
  nil := Nat.zero_le _
  call _ _ _ _ _ hc i e := call_within hlimit hc i.1 i.2 e
  counters _ _ _ i := ⟨⟨i.1.toPaced.of_eq rfl rfl rfl rfl rfl rfl, i.1.inBuff, i.1.queued⟩, i.2⟩

/-- The limits of a new muxer. -/
theorem new_limits (hproxy : output.proxy = false) (e : new env output = some h) : Within env output limit h ∧
    h.frameBuff.length < max frameBufferSize (tsPacketSize + h.getPktSize) := by
  refine ⟨new_within hproxy e, ?_⟩
  rw [(new_fresh e).frameBuff]
  exact lt_max_of_lt_left (by decide)

theorem Within.bounded (i : Within env output limit h)
    (hf : h.frameBuff.length < max frameBufferSize (tsPacketSize + h.getPktSize)) : Bounded env output limit h := by
  refine ⟨i.inBuff, i.queued, hf, fun pid r hr => ?_⟩
  obtain ⟨hpid, hlinked⟩ := i.sections pid r hr
  exact ⟨hpid, hlinked.length_le⟩

/-- **Nothing a muxer holds outgrows its limit**, in any run: not the input buffer, not the queues, not
`frame_buff`, and not the sections under way. -/
theorem run_bounded {ops : List Op} {outs : List (Option Bytes)} (hproxy : output.proxy = false)
    (hlimit : maxBufferSize ≤ limit) (hchunks : ∀ op ∈ ops, op.chunk.length ≤ limit)
    (hrun : runNew env output ops = .ok (outs, h)) : Bounded env output limit h := by
  obtain ⟨h₀, hnew, e⟩ := bind_eq_ok.1 hrun
  obtain ⟨i, hf⟩ := (within_kept output hlimit).run [] hchunks (new_limits hproxy (unwrap_eq_ok.1 hnew)) e
  exact i.bounded hf

/-- A packet is in the queue while the first frame takes the PAT. -/
theorem run_bounded_sample : ∃ outs h, runNew Env.sample sampleOutput
      [.write (sampleChunk [sampleVideo true 0 9000000]), .flushPacketForCbr] = .ok (outs, h) ∧
    h.queuedBytes = tsPacketSize ∧ Bounded Env.sample sampleOutput maxBufferSize h := by
  obtain ⟨⟨outs, h⟩, hrun, hqueued⟩ := ok_of_map (x := runNew Env.sample sampleOutput
      [.write (sampleChunk [sampleVideo true 0 9000000]), .flushPacketForCbr])
    (f := fun x => x.2.queuedBytes) (b := tsPacketSize) (by decide +kernel)
  refine ⟨outs, h, hrun, hqueued, run_bounded rfl (Nat.le_refl _) ?_ hrun⟩
  have hlen : (sampleChunk [sampleVideo true 0 9000000]).length = 3 * tsPacketSize := length_packets _
  intro op hop
  simp only [List.mem_cons, List.not_mem_nil, or_false] at hop
  rcases hop with rfl | rfl
  · exact hlen.le.trans (by decide)
  · exact Nat.zero_le _

end PacketHandler

end MyMuxer
