import MyMuxer.Mux.Announced
import MyMuxer.Mux.Ready

/-!
# The calls of a muxer, step by step and with their sources

* `Tables.Fills`: what a packet of the input, or the end of `process`, makes of the tables.
* `InputStep`: **one change a call of `write` makes**, with the table or the packet it is due to.
* `OutputStep`: **one change a flush makes**, with the counter that goes up.
* `run_traffic`: every run is a sequence of them.
* `Kept`, **`Kept.run`**: the rule for what is said of a muxer and of its input together.
-/

namespace MyMuxer

open Relation Psi

namespace Tables

/-- The tables are changed by one of the functions that fill them. -/
inductive Fills (env : Env) (output : Output) (program : Program) (t t' : Tables) : Prop where
  | pat {p : Packet} : pktPid p.bytes = 0x0000 → t.processPat env program p = .ok t' → Fills env output program t t'
  | pmt {p : Packet} : pktPid p.bytes = program.pmtPid → t.processPmt env output program p = .ok t' →
      Fills env output program t t'
  | sdt {p : Packet} : t.sdtReady = false → t.processSdt env program p = .ok t' → Fills env output program t t'
  | generated : t.sdtReady = false → t.generateSdt env program = .ok t' → Fills env output program t t'

end Tables

/-- What the counters of an output count. -/
inductive Kind where
  | psi
  | null
  | payload
  | adjustNull
  | adjustPayload
  deriving DecidableEq

def Counters.add (c : Counters) : Kind → Counters
  | .psi => { c with psi := c.psi + 1 }
  | .null => { c with null := c.null + 1 }
  | .payload => { c with payload := c.payload + 1 }
  | .adjustNull => { c with adjustNull := c.adjustNull + 1 }
  | .adjustPayload => { c with adjustPayload := c.adjustPayload + 1 }

namespace PacketHandler

inductive InputStep (env : Env) : PacketHandler → PacketHandler → Prop where
  | input (h : PacketHandler) (inBuff : Bytes) (isSync : Bool) (maxBuffSize : ℕ)
      (lastPtsDts : UInt16 → Option (ℕ × ℕ)) (lastCc : UInt16 → Option UInt8)
      (ccErrors : UInt16 → Option ℕ) (dirtyCa : Bool) :
      InputStep env h { h with inBuff, isSync, maxBuffSize, lastPtsDts, lastCc, ccErrors, dirtyCa }
  | fills {h : PacketHandler} {program : Program} {t : Tables} :
      h.getProgram = .ok program → h.tables.Fills env h.output program t → InputStep env h { h with tables := t }
  | push {h : PacketHandler} {program : Program} {pkt : TsPacket} :
      h.getProgram = .ok program → IsMedia program pkt → pkt.pid ∉ reservedPids → InputStep env h (h.push program pkt)
  | clear (h : PacketHandler) : InputStep env h h.buffersClear
  | drop {h h' : PacketHandler} {pkt : TsPacket} : h.isReady = false → h.Popped pkt h' → InputStep env h h'
  | bitrate (h : PacketHandler) (b : ℕ) : h.isReady = false → InputStep env h
      { h with pcrRestamper := h.pcrRestamper.map fun r =>
          if r.targetBitrateBps = 0 then { r with targetBitrateBps := b } else r }
  | ready {h : PacketHandler} {pkt : TsPacket} : h.isReady = false → h.outBuffV.front = some pkt →
      InputStep env h (h.setReady pkt.dts)

inductive OutputStep : PacketHandler → PacketHandler → Prop where
  | flushPsi {h h' : PacketHandler} : h.isReady = true → h.flushPsiPackets = (none, h') → OutputStep h h'
  | table {h h' : PacketHandler} {k : Table} : h.isReady = true → h.flushPsiPackets = (some k, h') →
      OutputStep h (emitTable { h'.countSent 1 with counters := h'.counters.add .psi } k).2
  | null (h : PacketHandler) {kind : Kind} : h.isReady = true → kind = .null ∨ kind = .adjustNull →
      OutputStep h (emitNull { h.countSent 1 with counters := h.counters.add kind }).2
  | queued {h g h' : PacketHandler} {pkt : TsPacket} {e : Emitted} {kind : Kind} : h.isReady = true →
      kind = .payload ∨ kind = .adjustPayload → (h.countSent 1).Popped pkt g →
      processPacket { g with counters := g.counters.add kind } pkt = .ok (e, h') → OutputStep h (h'.record (.cbr e))
  | vbrTable {h h' : PacketHandler} {k : Table} : h.isReady = true → h.flushPsiPackets = (some k, h') →
      OutputStep h ({ h' with counters := h'.counters.add .psi }.record
        (.vbr { source := .table k, data := h'.tables.cache k, resync := none }))
  | vbrQueued {h h' : PacketHandler} {pkt : TsPacket} : h.isReady = true → h.Popped pkt h' →
      OutputStep h ({ h' with counters := h'.counters.add .payload }.record
        (.vbr { source := .queued pkt, data := pkt.data, resync := none }))
  | clock (h : PacketHandler) (pcr : ℕ) : h.isReady = true →
      OutputStep h { h with pcrRestamper := h.pcrRestamper.map fun r => { r with firstPcrValue := some pcr } }
  | frame (h : PacketHandler) (frameBuff : Bytes) : OutputStep h { h with frameBuff }

variable {env : Env} {h h' : PacketHandler}

/-! ## Input -/

theorem processMedia_input {program : Program} {pid : UInt16} {p : Packet} (hprog : h.getProgram = .ok program)
    (hs : byte p.bytes 0 = tsSyncByte) (hp : pktPid p.bytes = pid) (hm : Named program pid)
    (hr : pid ∉ reservedPids) (e : h.processMedia program pid p = .ok h') : ReflTransGen (InputStep env) h h' := by
  obtain ⟨lastPtsDts, lastCc, ccErrors, he⟩ := processMedia_cases e
  have hin : InputStep env h { h with lastPtsDts, lastCc, ccErrors } :=
    .input h h.inBuff h.isSync h.maxBuffSize lastPtsDts lastCc ccErrors h.dirtyCa
  rcases he with rfl | ⟨pkt, rfl, rfl, rfl⟩
  · exact .single hin
  · exact .tail (.single hin) (.push (h := { h with lastPtsDts, lastCc, ccErrors }) hprog ⟨hs, hp, hm⟩ hr)

/-- A packet that reaches an arm: its table is filled, or it is a packet of a PID that no table has. -/
theorem processPid_input {program : Program} {pid : UInt16} {p : Packet} (hprog : h.getProgram = .ok program)
    (hs : byte p.bytes 0 = tsSyncByte) (hp : pktPid p.bytes = pid) (e : h.processPid env program pid p = .ok h') :
    ReflTransGen (InputStep env) h h' := by
  rw [processPid] at e
  split_ifs at e with h1 h2 h3 h4 h5 h6 h7 h8
  · cases e; exact .refl
  · obtain ⟨t, ht, e⟩ := bind_eq_ok.1 e
    cases e
    exact .single (.fills hprog (.pat (hp.trans h2) ht))
  · cases e; exact .refl
  · obtain ⟨t, ht, e⟩ := bind_eq_ok.1 e
    cases e
    exact .single (.fills hprog (.pmt (hp.trans h4.1) ht))
  · cases e; exact .refl
  · obtain ⟨t, ht, e⟩ := bind_eq_ok.1 e
    cases e
    exact .single (.fills hprog (.sdt h7.2 ht))
  · cases e; exact .refl
  · exact processMedia_input hprog hs hp h8.symm (by simp [reservedPids, h1, h2, h6]) e
  · cases e; exact .refl

theorem processTs_input {p : Packet} (hs : byte p.bytes 0 = tsSyncByte) (e : h.processTs env p = .ok h') :
    ReflTransGen (InputStep env) h h' := by
  rw [processTs] at e
  obtain ⟨program, hprog, e⟩ := bind_eq_ok.1 e
  have hin (dirtyCa : Bool) : InputStep env h { h with dirtyCa } :=
    .input h h.inBuff h.isSync h.maxBuffSize h.lastPtsDts h.lastCc h.ccErrors dirtyCa
  split at e
  · rename_i biss _ _
    refine processPid_input hprog ((descramble_byte biss p (by norm_num)).trans hs) ?_ e
    rw [pktPid, descramble_byte biss p (by norm_num), descramble_byte biss p (by norm_num)]
    rfl
  · split_ifs at e
    · cases e
      exact .single (hin true)
    · exact .head (hin false) (processPid_input (h := { h with dirtyCa := false }) hprog hs rfl e)

theorem processLoop_input : ∀ (n : ℕ) {h h' : PacketHandler} {b : Bool},
    processLoop env n h = .ok (b, h') → ReflTransGen (InputStep env) h h'
  | 0, h, h', b, e => by cases e; exact .refl
  | n + 1, h, h', b, e => by
    rw [processLoop] at e
    have hin (inBuff : Bytes) (isSync : Bool) : InputStep env h { h with inBuff, isSync } :=
      .input h inBuff isSync h.maxBuffSize h.lastPtsDts h.lastCc h.ccErrors h.dirtyCa
    split_ifs at e with hs
    · obtain ⟨h₁, e₁, e⟩ := bind_eq_ok.1 e
      exact .head (hin (h.inBuff.drop tsPacketSize) h.isSync)
        ((processTs_input (Packet.ofBytes_sync hs) e₁).trans (processLoop_input n e))
    · cases e
      exact .tail (.single (hin h.inBuff false)) (.clear _)

theorem bufferAdjustLoop_input : ∀ (fuel : ℕ) {h : PacketHandler}, h.isReady = false →
    ReflTransGen (InputStep env) h (bufferAdjustLoop fuel h)
  | 0, _, _ => .refl
  | fuel + 1, h, hr => by
    rw [bufferAdjustLoop]
    split_ifs
    · split
      · rename_i pkt g e
        have hpop := getAOrV_popped e
        exact .head (.drop hr hpop) (bufferAdjustLoop_input fuel ((popped_isReady hpop).1.trans hr))
      · exact .refl
    · exact .refl

theorem startOutput_input {bitrate : ℕ} (hr : h.isReady = false) :
    ReflTransGen (InputStep env) h (h.startOutput env bitrate) := by
  rw [startOutput]
  split_ifs
  · have s : ReflTransGen (InputStep env) h _ := bufferAdjustLoop_input (h.outBuffV.len + h.outBuffA.len) hr
    obtain ⟨v, a, hg⟩ := bufferAdjustLoop_eq (h.outBuffV.len + h.outBuffA.len) h
    rw [bufferAdjust, hg]
    rw [hg] at s
    have hin (maxBuffSize : ℕ) : InputStep env { h with outBuffV := v, outBuffA := a }
        { h with outBuffV := v, outBuffA := a, maxBuffSize } :=
      .input _ h.inBuff h.isSync maxBuffSize h.lastPtsDts h.lastCc h.ccErrors h.dirtyCa
    dsimp only
    split
    · rename_i pkt hf
      exact .tail (s.tail (hin _)) (.ready (h := { h with outBuffV := v, outBuffA := a, maxBuffSize := _ }) hr hf)
    · exact s.tail (hin _)
  · exact .refl

theorem probeBitrate_input (hr : h.isReady = false) : ReflTransGen (InputStep env) h (h.probeBitrate env).2 ∧
    (h.probeBitrate env).2.isReady = false := by
  rw [probeBitrate]
  dsimp only
  split_ifs
  · exact ⟨.single (.bitrate h _ hr), hr⟩
  · exact ⟨.refl, hr⟩

theorem fillSdt_input (e : h.fillSdt env = .ok h') : ReflTransGen (InputStep env) h h' := by
  rw [fillSdt] at e
  split_ifs at e with hs
  · obtain ⟨program, hprog, e⟩ := bind_eq_ok.1 e
    obtain ⟨t, ht, e⟩ := bind_eq_ok.1 e
    cases e
    exact .single (.fills hprog (.generated hs ht))
  · cases e
    exact .refl

theorem becomeReady_input (e : h.becomeReady env = .ok h') : ReflTransGen (InputStep env) h h' := by
  rw [becomeReady] at e
  split_ifs at e with h1 h2
  · cases e; exact .refl
  · cases e; exact .refl
  · cases e; exact .refl
  · obtain ⟨g, hg, e⟩ := bind_eq_ok.1 e
    have hr : g.isReady = false := (fillSdt_steps hg).2.1.trans (by simpa using h2)
    have s : ReflTransGen (InputStep env) h g := fillSdt_input hg
    split at e
    · split_ifs at e
      · cases e
        exact s.tail (.clear g)
      · obtain ⟨s', hr'⟩ := @probeBitrate_input env g hr
        cases e
        exact s.trans (s'.trans (startOutput_input hr'))
    · cases e
      exact s

theorem process_input (e : h.process env = .ok h') : ReflTransGen (InputStep env) h h' := by
  have hin (isSync : Bool) (inBuff : Bytes) : InputStep env h { h with isSync, inBuff } :=
    .input h inBuff isSync h.maxBuffSize h.lastPtsDts h.lastCc h.ccErrors h.dirtyCa
  rw [process] at e
  generalize (if h.isSync then (true, h.inBuff) else syncBuffer h.inBuff) = sb at e
  obtain ⟨isSync, inBuff⟩ := sb
  refine .head (hin isSync inBuff) ?_
  dsimp only at e
  generalize { h with isSync, inBuff } = g at e ⊢
  have hclear : ReflTransGen (InputStep env) g (if g.isBufferOverflow 2 then g.buffersClear else g) := by
    split_ifs
    · exact .single (.clear g)
    · exact .refl
  generalize (if g.isBufferOverflow 2 then g.buffersClear else g) = k at e hclear
  split_ifs at e
  · cases e; exact .refl
  · cases e; exact hclear
  · obtain ⟨⟨synced, k'⟩, e₁, e⟩ := bind_eq_ok.1 e
    have hloop := hclear.trans (processLoop_input _ e₁)
    dsimp only at e
    split_ifs at e
    · exact hloop.trans (becomeReady_input e)
    · cases e; exact hloop

/-- **A call of `write`.** -/
theorem write_input {chunk : Bytes} (e : h.write env chunk = .ok h') : ReflTransGen (InputStep env) h h' := by
  have hin (inBuff : Bytes) (isSync : Bool) : InputStep env h { h with inBuff, isSync } :=
    .input h inBuff isSync h.maxBuffSize h.lastPtsDts h.lastCc h.ccErrors h.dirtyCa
  rw [write] at e
  split_ifs at e
  · exact .head (hin ([] ++ chunk) false) (process_input e)
  · exact .head (hin (h.inBuff ++ chunk) h.isSync) (process_input e)

/-! ## Output -/

theorem cbrSlot_output {p : Packet} (hr : h.isReady = true) (e : h.cbrSlot env = .ok (p, h')) :
    OutputStep h h' ∧ h'.isReady = true := by
  have hqueued {g : PacketHandler} {pkt : TsPacket} {kind : Kind} (hk : kind = .payload ∨ kind = .adjustPayload)
      (hp : (h.countSent 1).Popped pkt g)
      (e : emitQueued { g with counters := g.counters.add kind } pkt = .ok (p, h')) :
      OutputStep h h' ∧ h'.isReady = true := by
    rw [emitQueued] at e
    obtain ⟨⟨em, g'⟩, he, e⟩ := bind_eq_ok.1 e
    cases e
    refine ⟨.queued hr hk hp he, ?_⟩
    obtain ⟨-, r, -, -, rfl, -⟩ := processPacket_eq he
    exact (popped_isReady hp).1.trans hr
  rw [cbrSlot] at e
  dsimp only at e
  split_ifs at e with h1
  · cases e
    exact ⟨.null h hr (.inr rfl), hr⟩
  · split at e
    · rename_i pkt g hg
      exact hqueued (.inl rfl) (getAOrVReady_popped hg) e
    · split at e
      · rename_i pkt g hg
        exact hqueued (.inr rfl) (adjustPacket_popped hg) e
      · cases e
        exact ⟨.null h hr (.inl rfl), hr⟩

theorem cbrSlots_output : ∀ (n : ℕ) {h h' : PacketHandler} {out : List Packet}, h.isReady = true →
    cbrSlots env n h = .ok (out, h') → ReflTransGen OutputStep h h'
  | 0, h, h', out, _, e => by cases e; exact .refl
  | n + 1, h, h', out, hr, e => by
    rw [cbrSlots] at e
    obtain ⟨⟨p, h₁⟩, e₁, e⟩ := bind_eq_ok.1 e
    obtain ⟨⟨out₁, h₂⟩, e₂, e⟩ := bind_eq_ok.1 e
    cases e
    obtain ⟨s, hr₁⟩ := cbrSlot_output hr e₁
    exact .head s (cbrSlots_output n hr₁ e₂)

/-- Output that is not paused is ready. -/
theorem isReady_of_not_idle (h0 : ¬ (h.isDirty || !h.isReady) = true) : h.isReady = true := by
  simp only [Bool.or_eq_true, Bool.not_eq_true', not_or, Bool.not_eq_false] at h0
  exact h0.2

/-- **A frame of constant bit rate.** -/
theorem flushPacketForCbr_output {out : Option Bytes} (e : h.flushPacketForCbr env = .ok (out, h')) :
    ReflTransGen OutputStep h h' := by
  rw [flushPacketForCbr] at e
  split_ifs at e with h0
  · cases e; exact .refl
  · have hr := isReady_of_not_idle h0
    have hf := (flushPsi_isReady h).1
    dsimp only at e
    split at e
    · rename_i k g hg
      rw [hg] at hf
      obtain ⟨⟨out', h₂⟩, e₂, e⟩ := bind_eq_ok.1 e
      cases e
      exact .head (.table hr hg) (cbrSlots_output _ (hf.trans hr) e₂)
    · rename_i g hg
      rw [hg] at hf
      obtain ⟨⟨out', h₂⟩, e₂, e⟩ := bind_eq_ok.1 e
      cases e
      exact .head (.flushPsi hr hg) (cbrSlots_output _ (hf.trans hr) e₂)

theorem vbrLoop_output : ∀ (n : ℕ) {h : PacketHandler}, h.isReady = true →
    ReflTransGen OutputStep h (h.vbrLoop n).2 ∧ (h.vbrLoop n).2.isReady = true
  | 0, h, hr => ⟨.refl, hr⟩
  | n + 1, h, hr => by
    rw [vbrLoop]
    split
    · rename_i pkt g hg
      have hp := getAOrV_popped hg
      obtain ⟨s, hr'⟩ := vbrLoop_output n (h := { g with counters := g.counters.add .payload }.record
        (.vbr { source := .queued pkt, data := pkt.data, resync := none })) ((popped_isReady hp).1.trans hr)
      exact ⟨.head (.vbrQueued hr hp) s, hr'⟩
    · exact ⟨.refl, hr⟩

/-- **A call of `flush_packet_for_vbr`.** -/
theorem flushPacketForVbr_output (h : PacketHandler) : ReflTransGen OutputStep h h.flushPacketForVbr.2 := by
  rw [flushPacketForVbr]
  split_ifs with h0
  · exact .refl
  · have hr := isReady_of_not_idle h0
    have hf := (flushPsi_isReady h).1
    have hrest (n : ℕ) (g : PacketHandler) (hg : g.isReady = true) :
        ReflTransGen OutputStep g ((g.vbrLoop n).2.trackPcr ((g.vbrLoop n).1.findSome? TsPacket.pcr)) := by
      obtain ⟨s, hr'⟩ := vbrLoop_output n hg
      unfold trackPcr
      split
      · exact s.tail (.clock _ _ hr')
      · exact s
    dsimp only
    generalize hg : h.flushPsiPackets = fp at hf ⊢
    obtain ⟨k, g⟩ := fp
    cases k with
    | none => exact .head (.flushPsi hr hg) (hrest _ _ (hf.trans hr))
    | some k => exact .head (.vbrTable hr hg) (hrest _ _ (hf.trans hr))

theorem frameLoop_output : ∀ (fuel : ℕ) (h : PacketHandler), ReflTransGen OutputStep h (h.frameLoop fuel)
  | 0, h => .refl
  | fuel + 1, h => by
    rw [frameLoop]
    have s := flushPacketForVbr_output h
    split_ifs
    · split
      · rename_i pkt g hg
        rw [hg] at s
        exact s.trans (.head (.frame g _) (frameLoop_output fuel _))
      · rename_i g hg
        rw [hg] at s
        exact s
    · exact .refl

theorem flushFrame_output (h : PacketHandler) : ReflTransGen OutputStep h h.flushFrame.2 := by
  rw [flushFrame]
  split_ifs
  · exact .refl
  · dsimp only
    split_ifs
    · exact (frameLoop_output _ h).tail (.frame _ _)
    · exact frameLoop_output _ h

/-! ## Runs -/

/-- What every call keeps, of a muxer and of the bytes it has been given, where the chunk meets `C`; and
`update_stats`, which begins its counters anew. -/
structure Kept (env : Env) (C : Bytes → Prop) (P : Bytes → PacketHandler → Prop) : Prop where
  nil : C []
  call (stream : Bytes) (op : Op) {h h' : PacketHandler} {out : Option Bytes} : C op.chunk → P stream h →
    h.call env op = .ok (out, h') → P (stream ++ op.chunk) h'
  counters (stream : Bytes) {h : PacketHandler} (counters : Counters) : P stream h → P stream { h with counters }

namespace Kept

variable {C : Bytes → Prop} {P : Bytes → PacketHandler → Prop} {stream : Bytes}

theorem write (hk : Kept env C P) {chunk : Bytes} (hc : C chunk) (hp : P stream h) (e : h.write env chunk = .ok h') :
    P (stream ++ chunk) h' := by
  have hcall : h.call env (.write chunk) = .ok (none, h') := by
    rw [PacketHandler.call, e]
    rfl
  exact hk.call stream (.write chunk) hc hp hcall

theorem flushCbr (hk : Kept env C P) {out : Option Bytes} (hp : P stream h)
    (e : h.flushPacketForCbr env = .ok (out, h')) : P stream h' := by
  have hcall : h.call env .flushPacketForCbr = .ok (out, h') := e
  have hp' := hk.call stream .flushPacketForCbr hk.nil hp hcall
  rwa [Op.chunk, List.append_nil] at hp'

theorem flushVbr (hk : Kept env C P) (hp : P stream h) : P stream h.flushPacketForVbr.2 := by
  have hcall : h.call env .flushPacketForVbr = .ok h.flushPacketForVbr := rfl
  have hp' := hk.call stream .flushPacketForVbr hk.nil hp hcall
  rwa [Op.chunk, List.append_nil] at hp'

theorem flushFrame (hk : Kept env C P) (hp : P stream h) : P stream h.flushFrame.2 := by
  have hcall : h.call env .flushFrame = .ok h.flushFrame := rfl
  have hp' := hk.call stream .flushFrame hk.nil hp hcall
  rwa [Op.chunk, List.append_nil] at hp'

/-- **What every call keeps, every run keeps.** -/
theorem run (hk : Kept env C P) : ∀ {ops : List Op} (stream : Bytes) {h h' : PacketHandler}
    {outs : List (Option Bytes)}, (∀ op ∈ ops, C op.chunk) → P stream h → PacketHandler.run env h ops = .ok (outs, h') →
      P (stream ++ ops.flatMap Op.chunk) h'
  | [], stream, h, h', outs, _, hp, e => by
    cases e
    rw [List.flatMap_nil, List.append_nil]
    exact hp
  | op :: ops, stream, h, h', outs, hc, hp, e => by
    rw [PacketHandler.run] at e
    obtain ⟨⟨out, g⟩, hg, e⟩ := bind_eq_ok.1 e
    obtain ⟨⟨outs', g'⟩, hg', e⟩ := bind_eq_ok.1 e
    cases e
    obtain ⟨hop, hops⟩ := List.forall_mem_cons.1 hc
    rw [List.flatMap_cons, ← List.append_assoc]
    exact hk.run (stream ++ op.chunk) hops (hk.call stream op hop hp hg) hg'

end Kept

end PacketHandler

end MyMuxer
