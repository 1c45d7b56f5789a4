import MyMuxer.Mux.Flush

/-!
# What the calls of a muxer do

* `MuxStep`: **one change a call of `write` or `flush_packet_for_cbr` makes**; `VbrStep`: one that
  only `flush_packet_for_vbr` and `flush_frame` make.
* `write_steps`, `flushPacketForCbr_steps`, `flushPacketForVbr_steps`, `flushFrame_steps`: every call
  is a sequence of them. The invariants of the other modules go over these steps.
-/

namespace MyMuxer

open Relation

namespace PacketHandler

/-- A packet that `process` may put into a queue. -/
structure IsMedia (program : Program) (pkt : TsPacket) : Prop where
  sync : byte pkt.data.bytes 0 = tsSyncByte
  pid : pktPid pkt.data.bytes = pkt.pid
  mem : pkt.pid ∈ program.videoPids ∨ pkt.pid ∈ program.audioPids

/-- A packet has left the front of one of the queues. -/
def Popped (h : PacketHandler) (pkt : TsPacket) (h' : PacketHandler) : Prop :=
  h.popV = some (pkt, h') ∨ h.popA = some (pkt, h')

inductive MuxStep : PacketHandler → PacketHandler → Prop where
  /-- Fields that the output does not depend on. -/
  | input (h : PacketHandler) (inBuff : Bytes) (isSync : Bool) (maxBuffSize : ℕ)
      (lastPtsDts : UInt16 → Option (ℕ × ℕ)) (lastCc : UInt16 → Option UInt8)
      (ccErrors : UInt16 → Option ℕ) (counters : Counters) (dirtyCa : Bool) :
      MuxStep h { h with inBuff, isSync, maxBuffSize, lastPtsDts, lastCc, ccErrors, counters, dirtyCa }
  | tables {h : PacketHandler} {program : Program} {t : Tables} :
      h.getProgram = .ok program → h.tables.Grows program t → MuxStep h { h with tables := t }
  | push {h : PacketHandler} {program : Program} {pkt : TsPacket} :
      h.getProgram = .ok program → IsMedia program pkt → MuxStep h (h.push program pkt)
  | clear (h : PacketHandler) : MuxStep h h.buffersClear
  | drop {h h' : PacketHandler} {pkt : TsPacket} :
      h.isReady = false → h.Popped pkt h' → MuxStep h h'
  | bitrate {h : PacketHandler} {r : PcrRestamper} (b : ℕ) :
      h.isReady = false → h.pcrRestamper = some r → r.targetBitrateBps = 0 →
      MuxStep h { h with pcrRestamper := some { r with targetBitrateBps := b } }
  | ready {h : PacketHandler} {pkt : TsPacket} :
      h.isReady = false → (∀ k, h.tables.ready k = true) → h.outBuffV.front = some pkt →
      (∀ r, h.pcrRestamper = some r → r.targetBitrateBps ≠ 0) → MuxStep h (h.setReady pkt.dts)
  /-- `flush_psi_packets` with no table due. -/
  | flushPsi {h h' : PacketHandler} : h.isReady = true → h.flushPsiPackets = (none, h') → MuxStep h h'
  /-- `flush_psi_packets` with a table due, and this table. -/
  | table {h h' : PacketHandler} {k : Table} :
      h.isReady = true → h.flushPsiPackets = (some k, h') → MuxStep h ((h'.countSent 1).emitTable k).2
  | null (h : PacketHandler) : h.isReady = true → MuxStep h (h.countSent 1).emitNull.2
  | queued {h h' h'' : PacketHandler} {pkt : TsPacket} {e : Emitted} :
      h.isReady = true → (h.countSent 1).Popped pkt h' → h'.processPacket pkt = .ok (e, h'') →
      MuxStep h (h''.record (.cbr e))

inductive VbrStep : PacketHandler → PacketHandler → Prop where
  | table {h h' : PacketHandler} {k : Table} :
      h.isReady = true → h.flushPsiPackets = (some k, h') →
      VbrStep h (h'.record (.vbr { source := .table k, data := h'.tables.cache k, resync := none }))
  | queued {h h' : PacketHandler} {pkt : TsPacket} : h.isReady = true → h.Popped pkt h' →
      VbrStep h (h'.record (.vbr { source := .queued pkt, data := pkt.data, resync := none }))
  | clock (h : PacketHandler) (pcr : ℕ) : h.isReady = true →
      VbrStep h { h with pcrRestamper := h.pcrRestamper.map fun r => { r with firstPcrValue := some pcr } }
  | frame (h : PacketHandler) (frameBuff : Bytes) : VbrStep h { h with frameBuff }

/-- A step of a muxer that both kinds of output may be taken from. -/
def AnyStep (h h' : PacketHandler) : Prop := MuxStep h h' ∨ VbrStep h h'

/-! ## Queues -/

theorem popV_eq {h h' : PacketHandler} {pkt : TsPacket} (e : h.popV = some (pkt, h')) :
    ∃ b, h.outBuffV.inner = pkt :: b.inner ∧ h' = { h with outBuffV := b } := by
  obtain ⟨⟨pkt', b⟩, hb, e⟩ := Option.map_eq_some_iff.1 e
  cases e
  exact ⟨b, OutBuffer.popFront_eq_some hb, rfl⟩

theorem popA_eq {h h' : PacketHandler} {pkt : TsPacket} (e : h.popA = some (pkt, h')) :
    ∃ b, h.outBuffA.inner = pkt :: b.inner ∧ h' = { h with outBuffA := b } := by
  obtain ⟨⟨pkt', b⟩, hb, e⟩ := Option.map_eq_some_iff.1 e
  cases e
  exact ⟨b, OutBuffer.popFront_eq_some hb, rfl⟩

/-- A packet that leaves changes nothing but the queues. -/
theorem popped_eq {h h' : PacketHandler} {pkt : TsPacket} (e : h.Popped pkt h') :
    ∃ outBuffV outBuffA, h' = { h with outBuffV, outBuffA } := by
  rcases e with e | e
  · obtain ⟨b, -, rfl⟩ := popV_eq e
    exact ⟨b, h.outBuffA, rfl⟩
  · obtain ⟨b, -, rfl⟩ := popA_eq e
    exact ⟨h.outBuffV, b, rfl⟩

/-- Every selection takes the front of a queue. -/
theorem getAOrV_popped {h h' : PacketHandler} {pkt : TsPacket} (e : h.getAOrV = some (pkt, h')) :
    h.Popped pkt h' := by
  unfold getAOrV at e
  split at e <;> (try split_ifs at e) <;> first | exact .inl e | exact .inr e | cases e

theorem getAOrVReady_popped {h h' : PacketHandler} {pkt : TsPacket} (e : h.getAOrVReady = some (pkt, h')) :
    h.Popped pkt h' := by
  unfold getAOrVReady at e
  split at e <;> (try split_ifs at e) <;> first | exact .inl e | exact .inr e | cases e

theorem getAOrVDrain_popped {h h' : PacketHandler} {pkt : TsPacket} (e : h.getAOrVDrain = some (pkt, h')) :
    h.Popped pkt h' := by
  unfold getAOrVDrain at e
  split at e <;> (try split_ifs at e) <;> first | exact .inl e | exact .inr e | cases e

/-! ## Input -/

theorem single {h h' : PacketHandler} (s : MuxStep h h') : ReflTransGen MuxStep h h' := .single s

theorem checkCc_eq (h : PacketHandler) (packet : Bytes) (pid : UInt16) :
    ∃ lastCc ccErrors, h.checkCc packet pid = { h with lastCc, ccErrors } := by
  simp only [checkCc, updateCc]
  split_ifs
  · split
    · split_ifs <;> exact ⟨_, _, rfl⟩
    · exact ⟨_, _, rfl⟩
  · exact ⟨_, _, rfl⟩

/-- A packet of an audio or video PID, once its counter is checked, is queued with its bytes and its PID,
unless its PID has had no time stamp yet. -/
theorem processMedia_eq (h : PacketHandler) (program : Program) (pid : UInt16) (p : Packet) :
    ∃ g lastPtsDts, g = (if pktGetDiscontinuity p.bytes then h else h.checkCc p.bytes pid) ∧
      ((h.lastPtsDts pid = none ∧ h.processMedia program pid p = .ok { g with lastPtsDts }) ∨
      ∃ pkt : TsPacket, pkt.data = p ∧ pkt.pid = pid ∧
        h.processMedia program pid p = .ok ({ g with lastPtsDts }.push program pkt)) := by
  obtain ⟨stamp, hstamp⟩ := pktPtsDts_ok p pid
  obtain ⟨lastCc, ccErrors, hcc⟩ : ∃ lastCc ccErrors,
      (if pktGetDiscontinuity p.bytes then h else h.checkCc p.bytes pid) = { h with lastCc, ccErrors } := by
    split_ifs
    · exact ⟨_, _, rfl⟩
    · exact checkCc_eq ..
  have hpkt (pkt : TsPacket) (hd : pkt.data = p) (hp : pkt.pid = pid) :
      (if pid = program.pcrPid then pkt.extractPcr else pkt).data = p ∧
        (if pid = program.pcrPid then pkt.extractPcr else pkt).pid = pid := by
    split_ifs
    · exact ⟨hd, hp⟩
    · exact ⟨hd, hp⟩
  rw [processMedia]
  dsimp only
  rw [hcc, hstamp, ok_bind]
  cases stamp with
  | none =>
    dsimp only
    cases hlast : h.lastPtsDts pid with
    | none => exact ⟨_, h.lastPtsDts, rfl, .inl ⟨rfl, rfl⟩⟩
    | some last =>
      exact ⟨_, h.lastPtsDts, rfl, .inr ⟨_, (hpkt _ rfl rfl).1, (hpkt _ rfl rfl).2, rfl⟩⟩
  | some stamp =>
    obtain ⟨pts, dts⟩ := stamp
    dsimp only
    rw [Function.update_self]
    exact ⟨_, _, rfl, .inr ⟨_, (hpkt _ rfl rfl).1, (hpkt _ rfl rfl).2, rfl⟩⟩

theorem processMedia_spec (h : PacketHandler) (program : Program) (pid : UInt16) (p : Packet) :
    ∃ lastPtsDts lastCc ccErrors,
      (h.lastPtsDts pid = none ∧ h.processMedia program pid p = .ok { h with lastPtsDts, lastCc, ccErrors }) ∨
      ∃ pkt : TsPacket, pkt.data = p ∧ pkt.pid = pid ∧
        h.processMedia program pid p = .ok ({ h with lastPtsDts, lastCc, ccErrors }.push program pkt) := by
  obtain ⟨g, lastPtsDts, hg, hspec⟩ := processMedia_eq h program pid p
  obtain ⟨lastCc, ccErrors, rfl⟩ : ∃ lastCc ccErrors, g = { h with lastCc, ccErrors } := by
    rw [hg]
    split_ifs
    · exact ⟨_, _, rfl⟩
    · exact checkCc_eq ..
  exact ⟨lastPtsDts, lastCc, ccErrors, hspec⟩

theorem processMedia_cases {h h' : PacketHandler} {program : Program} {pid : UInt16} {p : Packet}
    (e : h.processMedia program pid p = .ok h') : ∃ lastPtsDts lastCc ccErrors,
      h' = { h with lastPtsDts, lastCc, ccErrors } ∨ ∃ pkt : TsPacket, pkt.data = p ∧ pkt.pid = pid ∧
        h' = { h with lastPtsDts, lastCc, ccErrors }.push program pkt := by
  obtain ⟨lastPtsDts, lastCc, ccErrors, ⟨-, hs⟩ | ⟨pkt, hd, hp, hs⟩⟩ := processMedia_spec h program pid p
  · cases e.symm.trans hs
    exact ⟨lastPtsDts, lastCc, ccErrors, .inl rfl⟩
  · cases e.symm.trans hs
    exact ⟨lastPtsDts, lastCc, ccErrors, .inr ⟨pkt, hd, hp, rfl⟩⟩

theorem processMedia_steps {h h' : PacketHandler} {program : Program} {pid : UInt16} {p : Packet}
    (hprog : h.getProgram = .ok program) (hs : byte p.bytes 0 = tsSyncByte) (hp : pktPid p.bytes = pid)
    (hm : pid ∈ program.videoPids ∨ pid ∈ program.audioPids)
    (e : h.processMedia program pid p = .ok h') : ReflTransGen MuxStep h h' := by
  obtain ⟨lastPtsDts, lastCc, ccErrors, he⟩ := processMedia_cases e
  have hin : MuxStep h { h with lastPtsDts, lastCc, ccErrors } :=
    .input h h.inBuff h.isSync h.maxBuffSize lastPtsDts lastCc ccErrors h.counters h.dirtyCa
  rcases he with rfl | ⟨pkt, rfl, rfl, rfl⟩
  · exact single hin
  · exact (single hin).tail (.push (h := { h with lastPtsDts, lastCc, ccErrors }) hprog ⟨hs, hp, hm⟩)

/-- What `process` does with a packet that it has read: nothing, a table while that table is missing or
output is not ready, or a packet of an audio or video PID. -/
theorem processPid_cases {env : Env} {h h' : PacketHandler} {program : Program} {pid : UInt16} {p : Packet}
    (e : h.processPid env program pid p = .ok h') :
    h' = h ∨
    (∃ t, h' = { h with tables := t } ∧
      ((pid = 0x0000 ∧ (h.tables.patReady = false ∨ h.isReady = false) ∧
          h.tables.processPat env program p = .ok t) ∨
        (pid = program.pmtPid ∧ (h.tables.pmtReady = false ∨ h.isReady = false) ∧
          h.tables.processPmt env h.output program p = .ok t) ∨
        (h.tables.sdtReady = false ∧ h.tables.processSdt env program p = .ok t))) ∨
    ((pid ∈ program.audioPids ∨ pid ∈ program.videoPids) ∧ h.processMedia program pid p = .ok h') := by
  rw [processPid] at e
  split_ifs at e with h1 h2 h3 h4 h5 h6 h7 h8
  · cases e; exact .inl rfl
  · obtain ⟨t, ht, e⟩ := bind_eq_ok.1 e
    cases e
    exact .inr (.inl ⟨t, rfl, .inl ⟨h2, h3, ht⟩⟩)
  · cases e; exact .inl rfl
  · obtain ⟨t, ht, e⟩ := bind_eq_ok.1 e
    cases e
    exact .inr (.inl ⟨t, rfl, .inr (.inl ⟨h4.1, h4.2, ht⟩)⟩)
  · cases e; exact .inl rfl
  · obtain ⟨t, ht, e⟩ := bind_eq_ok.1 e
    cases e
    exact .inr (.inl ⟨t, rfl, .inr (.inr ⟨h7.2, ht⟩)⟩)
  · cases e; exact .inl rfl
  · exact .inr (.inr ⟨h8, e⟩)
  · cases e; exact .inl rfl

theorem processPid_steps {env : Env} {h h' : PacketHandler} {program : Program} {pid : UInt16} {p : Packet}
    (hprog : h.getProgram = .ok program) (hs : byte p.bytes 0 = tsSyncByte) (hp : pktPid p.bytes = pid)
    (e : h.processPid env program pid p = .ok h') : ReflTransGen MuxStep h h' := by
  obtain rfl | ⟨t, rfl, ⟨hpid, -, ht⟩ | ⟨hpid, -, ht⟩ | ⟨hsdt, ht⟩⟩ | ⟨hn, e⟩ := processPid_cases e
  · exact .refl
  · exact single (.tables hprog (Tables.processPat_grows (hp.trans hpid) ht))
  · exact single (.tables hprog (Tables.processPmt_grows (hp.trans hpid) ht))
  · exact single (.tables hprog (Tables.processSdt_grows hsdt ht))
  · exact processMedia_steps hprog hs hp hn.symm e

theorem processTs_steps {env : Env} {h h' : PacketHandler} {p : Packet} (hs : byte p.bytes 0 = tsSyncByte)
    (e : h.processTs env p = .ok h') : ReflTransGen MuxStep h h' := by
  rw [processTs] at e
  obtain ⟨program, hprog, e⟩ := bind_eq_ok.1 e
  have hin (dirtyCa : Bool) : MuxStep h { h with dirtyCa } :=
    .input h h.inBuff h.isSync h.maxBuffSize h.lastPtsDts h.lastCc h.ccErrors h.counters dirtyCa
  split at e
  · rename_i biss _ _
    refine processPid_steps hprog ((descramble_byte biss p (by norm_num)).trans hs) ?_ e
    rw [pktPid, descramble_byte biss p (by norm_num), descramble_byte biss p (by norm_num)]; rfl
  · split_ifs at e
    · cases e; exact single (hin true)
    · exact .head (hin false) (processPid_steps (h := { h with dirtyCa := false }) hprog hs rfl e)

theorem processLoop_steps {env : Env} : ∀ (n : ℕ) {h h' : PacketHandler} {b : Bool},
    processLoop env n h = .ok (b, h') → ReflTransGen MuxStep h h'
  | 0, h, h', b, e => by cases e; exact .refl
  | n + 1, h, h', b, e => by
    rw [processLoop] at e
    have hin (inBuff : Bytes) (isSync : Bool) : MuxStep h { h with inBuff, isSync } :=
      .input h inBuff isSync h.maxBuffSize h.lastPtsDts h.lastCc h.ccErrors h.counters h.dirtyCa
    split_ifs at e with hs
    · obtain ⟨h1, e1, e⟩ := bind_eq_ok.1 e
      exact .head (hin (h.inBuff.drop tsPacketSize) h.isSync)
        ((processTs_steps (Packet.ofBytes_sync hs) e1).trans (processLoop_steps n e))
    · cases e
      exact (single (hin h.inBuff false)).tail (.clear _)

/-! ## Readiness -/

/-- The adjustment of the buffers changes nothing but the queues. -/
theorem bufferAdjustLoop_eq : ∀ (fuel : ℕ) (h : PacketHandler),
    ∃ outBuffV outBuffA, bufferAdjustLoop fuel h = { h with outBuffV, outBuffA }
  | 0, h => ⟨h.outBuffV, h.outBuffA, rfl⟩
  | fuel + 1, h => by
    rw [bufferAdjustLoop]
    split_ifs
    · split
      · rename_i pkt g e
        obtain ⟨v, a, rfl⟩ := popped_eq (getAOrV_popped e)
        exact bufferAdjustLoop_eq fuel _
      · exact ⟨h.outBuffV, h.outBuffA, rfl⟩
    · exact ⟨h.outBuffV, h.outBuffA, rfl⟩

theorem bufferAdjustLoop_steps : ∀ (fuel : ℕ) {h : PacketHandler}, h.isReady = false →
    ReflTransGen MuxStep h (bufferAdjustLoop fuel h)
  | 0, _, _ => .refl
  | fuel + 1, h, hr => by
    rw [bufferAdjustLoop]
    split_ifs
    · split
      · rename_i pkt g e
        have hpop := getAOrV_popped e
        have hg : g.isReady = false := by
          obtain ⟨v, a, rfl⟩ := popped_eq hpop
          exact hr
        exact .head (.drop hr hpop) (bufferAdjustLoop_steps fuel hg)
      · exact .refl
    · exact .refl

theorem probeBitrate_steps (env : Env) {h : PacketHandler} (hr : h.isReady = false) :
    ReflTransGen MuxStep h (h.probeBitrate env).2 ∧ (h.probeBitrate env).2.isReady = false ∧
      (h.probeBitrate env).2.tables = h.tables ∧ ((h.probeBitrate env).1 ≠ 0 →
        ∀ r, (h.probeBitrate env).2.pcrRestamper = some r → r.targetBitrateBps ≠ 0) := by
  generalize e : h.probeBitrate env = fp
  obtain ⟨bitrate, h'⟩ := fp
  rw [probeBitrate] at e
  dsimp only at e
  split_ifs at e with h0
  · cases hp : h.pcrRestamper with
    | none =>
      cases e
      have hset : ∀ o, o = h.pcrRestamper → { h with pcrRestamper := o } = h := by rintro o rfl; rfl
      rw [hset _ (by rw [hp]; rfl)]
      exact ⟨.refl, hr, rfl, fun _ r hr => by simp [hp] at hr⟩
    | some r =>
      have hr0 : r.targetBitrateBps = 0 := by simpa [getBitrate, hp] using h0.1
      cases e
      rw [hp]
      simp only [Option.map_some, hr0, if_true]
      refine ⟨single (.bitrate _ hr hp hr0), hr, trivial, fun hb r' hr' => ?_⟩
      cases hr'
      exact hb
  · cases e
    refine ⟨.refl, hr, rfl, fun hb r hr => ?_⟩
    rw [getBitrate, show h.pcrRestamper = some r from hr] at hb
    exact hb

theorem startOutput_steps {env : Env} {h : PacketHandler} {bitrate : ℕ} (hr : h.isReady = false)
    (ht : ∀ k, h.tables.ready k = true)
    (hb : bitrate ≠ 0 → ∀ r, h.pcrRestamper = some r → r.targetBitrateBps ≠ 0) :
    ReflTransGen MuxStep h (h.startOutput env bitrate) := by
  rw [startOutput]
  split_ifs with h0
  · have s := bufferAdjustLoop_steps (h.outBuffV.len + h.outBuffA.len) hr
    obtain ⟨v, a, hg⟩ := bufferAdjustLoop_eq (h.outBuffV.len + h.outBuffA.len) h
    rw [bufferAdjust, hg]
    rw [hg] at s
    have hin (maxBuffSize : ℕ) : MuxStep { h with outBuffV := v, outBuffA := a }
        { h with outBuffV := v, outBuffA := a, maxBuffSize } :=
      .input _ h.inBuff h.isSync maxBuffSize h.lastPtsDts h.lastCc h.ccErrors h.counters h.dirtyCa
    dsimp only
    split
    · rename_i pkt hf
      exact (s.tail (hin _)).tail (.ready (h := { h with outBuffV := v, outBuffA := a, maxBuffSize := _ })
        hr ht hf (hb h0.1))
    · exact s.tail (hin _)
  · exact .refl

theorem fillSdt_steps {env : Env} {h h' : PacketHandler} (e : h.fillSdt env = .ok h') :
    ReflTransGen MuxStep h h' ∧ h'.isReady = h.isReady ∧ h'.tables.patReady = h.tables.patReady ∧
      h'.tables.pmtReady = h.tables.pmtReady ∧ h'.tables.sdtReady = true := by
  rw [fillSdt] at e
  split_ifs at e with hs
  · obtain ⟨program, hprog, e⟩ := bind_eq_ok.1 e
    obtain ⟨t, ht, e⟩ := bind_eq_ok.1 e
    cases e
    have hg := Tables.generateSdt_grows hs ht
    rw [Tables.generateSdt] at ht
    obtain ⟨p, -, ht⟩ := bind_eq_ok.1 ht
    cases ht
    exact ⟨single (.tables hprog hg), rfl, rfl, rfl, rfl⟩
  · cases e
    exact ⟨.refl, rfl, rfl, rfl, by simpa using hs⟩

/-- Once the SDT is there every table is, where the PAT and the PMT were. -/
theorem fillSdt_ready {env : Env} {h g : PacketHandler} (e : h.fillSdt env = .ok g)
    (hpsi : ¬ (h.tables.patReady = false ∨ h.tables.pmtReady = false)) : ∀ k, g.tables.ready k = true := by
  obtain ⟨-, -, hpat, hpmt, hsdt⟩ := fillSdt_steps e
  rintro (_ | _ | _)
  · exact hpat.trans (by simpa using fun h => hpsi (.inl h))
  · exact hpmt.trans (by simpa using fun h => hpsi (.inr h))
  · exact hsdt

theorem becomeReady_steps {env : Env} {h h' : PacketHandler} (e : h.becomeReady env = .ok h') :
    ReflTransGen MuxStep h h' := by
  rw [becomeReady] at e
  split_ifs at e with h1 h2 h3
  · cases e; exact .refl
  · cases e; exact .refl
  · cases e; exact .refl
  · obtain ⟨g, hg, e⟩ := bind_eq_ok.1 e
    obtain ⟨s, hr, -⟩ := fillSdt_steps hg
    have hready := fillSdt_ready hg h3
    split at e
    · split_ifs at e
      · cases e
        exact s.tail (.clear g)
      · obtain ⟨s', s1, s2, s3⟩ := probeBitrate_steps env (hr.trans (by simpa using h2))
        cases e
        exact s.trans (s'.trans (startOutput_steps s1 (fun k => by rw [s2]; exact hready k) s3))
    · cases e
      exact s

theorem process_steps {env : Env} {h h' : PacketHandler} (e : h.process env = .ok h') :
    ReflTransGen MuxStep h h' := by
  have hin (isSync : Bool) (inBuff : Bytes) : MuxStep h { h with isSync, inBuff } :=
    .input h inBuff isSync h.maxBuffSize h.lastPtsDts h.lastCc h.ccErrors h.counters h.dirtyCa
  rw [process] at e
  generalize (if h.isSync then (true, h.inBuff) else syncBuffer h.inBuff) = sb at e
  obtain ⟨isSync, inBuff⟩ := sb
  refine .head (hin isSync inBuff) ?_
  dsimp only at e
  generalize { h with isSync, inBuff } = g at e ⊢
  have hclear : ReflTransGen MuxStep g (if g.isBufferOverflow 2 then g.buffersClear else g) := by
    split_ifs
    · exact single (.clear g)
    · exact .refl
  generalize (if g.isBufferOverflow 2 then g.buffersClear else g) = k at e hclear
  split_ifs at e
  · cases e; exact .refl
  · cases e; exact hclear
  · obtain ⟨⟨synced, k'⟩, e1, e⟩ := bind_eq_ok.1 e
    have hloop := hclear.trans (processLoop_steps _ e1)
    dsimp only at e
    split_ifs at e
    · exact hloop.trans (becomeReady_steps e)
    · cases e; exact hloop

theorem write_steps {env : Env} {h h' : PacketHandler} {chunk : Bytes} (e : h.write env chunk = .ok h') :
    ReflTransGen MuxStep h h' := by
  have hin (inBuff : Bytes) (isSync : Bool) : MuxStep h { h with inBuff, isSync } :=
    .input h inBuff isSync h.maxBuffSize h.lastPtsDts h.lastCc h.ccErrors h.counters h.dirtyCa
  rw [write] at e
  split_ifs at e
  · exact .head (hin ([] ++ chunk) false) (process_steps e)
  · exact .head (hin (h.inBuff ++ chunk) h.isSync) (process_steps e)

/-! ## Output -/

theorem flushPsi_isReady (h : PacketHandler) :
    h.flushPsiPackets.2.isReady = h.isReady ∧ h.flushPsiPackets.2.output = h.output := by
  simp only [flushPsiPackets, dueTable, flushTable]
  split_ifs <;> exact ⟨rfl, rfl⟩

theorem popped_isReady {h h' : PacketHandler} {pkt : TsPacket} (e : h.Popped pkt h') :
    h'.isReady = h.isReady ∧ h'.output = h.output := by
  obtain ⟨v, a, rfl⟩ := popped_eq e
  exact ⟨rfl, rfl⟩

theorem popped_rest {h h' : PacketHandler} {pkt : TsPacket} (e : h.Popped pkt h') :
    h'.history = h.history ∧ h'.output = h.output ∧ h'.pcrRestamper = h.pcrRestamper := by
  obtain ⟨v, a, rfl⟩ := popped_eq e
  exact ⟨rfl, rfl, rfl⟩

/-- `process_packet` touches the clock alone. -/
theorem processPacket_eq {h h' : PacketHandler} {pkt : TsPacket} {e : Emitted}
    (he : h.processPacket pkt = .ok (e, h')) : ∃ program r, h.getProgram = .ok program ∧
      e.source = .queued pkt ∧ h' = { h with pcrRestamper := r } ∧
      e.data = ((h.signalJump pkt).2.2.stamp program pkt (h.signalJump pkt).1).1 ∧
      r = ((h.signalJump pkt).2.2.stamp program pkt (h.signalJump pkt).1).2.pcrRestamper ∧
      e.resync = (h.signalJump pkt).2.1 := by
  have hsig : ∃ r, (h.signalJump pkt).2.2 = { h with pcrRestamper := r } := by
    rw [signalJump]
    split_ifs
    · exact ⟨_, rfl⟩
    · exact ⟨_, rfl⟩
  rw [processPacket] at he
  generalize h.signalJump pkt = sj at he hsig ⊢
  obtain ⟨data, resync, g⟩ := sj
  obtain ⟨r, rfl⟩ := hsig
  obtain ⟨program, hprog, he⟩ := bind_eq_ok.1 he
  have hst : ∃ r', (stamp { h with pcrRestamper := r } program pkt data).2 = { h with pcrRestamper := r' } := by
    rw [stamp]
    split_ifs
    · split <;> exact ⟨_, rfl⟩
    · exact ⟨_, rfl⟩
  generalize hs : stamp { h with pcrRestamper := r } program pkt data = st at he hst
  obtain ⟨data', g'⟩ := st
  obtain ⟨r', rfl⟩ := hst
  cases he
  exact ⟨program, r', hprog, rfl, rfl, by rw [hs], by rw [hs], rfl⟩

theorem popped_counters {h h' : PacketHandler} {pkt : TsPacket} (c : Counters) (hp : h.Popped pkt h') :
    { h with counters := c }.Popped pkt { h' with counters := c } := by
  rcases hp with e | e
  · obtain ⟨⟨pkt', b⟩, hb, e⟩ := Option.map_eq_some_iff.1 e
    cases e
    exact .inl (Option.map_eq_some_iff.2 ⟨(pkt, b), hb, rfl⟩)
  · obtain ⟨⟨pkt', b⟩, hb, e⟩ := Option.map_eq_some_iff.1 e
    cases e
    exact .inr (Option.map_eq_some_iff.2 ⟨(pkt, b), hb, rfl⟩)

theorem adjustPacket_popped {env : Env} {h h' : PacketHandler} {pkt : TsPacket}
    (e : h.adjustPacket env = some (pkt, h')) : h.Popped pkt h' := by
  rw [adjustPacket] at e
  split_ifs at e
  · exact getAOrV_popped e
  · exact getAOrVDrain_popped e

/-- The two outcomes of a turn of the loop: a null packet, or a packet of a queue. -/
theorem cbrSlot_cases {env : Env} {h h' : PacketHandler} {p : Packet} (e : h.cbrSlot env = .ok (p, h')) :
    ∃ c, (p, h') = emitNull { h.countSent 1 with counters := c } ∨
      ∃ pkt g, (h.countSent 1).Popped pkt g ∧ emitQueued { g with counters := c } pkt = .ok (p, h') := by
  rw [cbrSlot] at e
  dsimp only at e
  split_ifs at e with h1
  · cases e; exact ⟨_, .inl rfl⟩
  · split at e
    · rename_i pkt g hg
      exact ⟨_, .inr ⟨pkt, g, getAOrVReady_popped hg, e⟩⟩
    · split at e
      · rename_i pkt g hg
        exact ⟨_, .inr ⟨pkt, g, adjustPacket_popped hg, e⟩⟩
      · cases e; exact ⟨_, .inl rfl⟩

/-- **One turn emits one packet.** -/
theorem cbrSlot_steps {env : Env} {h h' : PacketHandler} {p : Packet} (hr : h.isReady = true)
    (e : h.cbrSlot env = .ok (p, h')) : ReflTransGen MuxStep h h' ∧ h'.isReady = true ∧
      ∃ em, h'.history = h.history ++ [.cbr em] ∧ em.data = p := by
  have hin (c : Counters) : MuxStep h { h with counters := c } :=
    .input h h.inBuff h.isSync h.maxBuffSize h.lastPtsDts h.lastCc h.ccErrors c h.dirtyCa
  obtain ⟨c, e | ⟨pkt, g, hp, e⟩⟩ := cbrSlot_cases e
  · cases e
    exact ⟨(single (hin c)).tail (.null { h with counters := c } hr), hr, _, rfl, rfl⟩
  · rw [emitQueued] at e
    obtain ⟨⟨em, g'⟩, he, e⟩ := bind_eq_ok.1 e
    cases e
    obtain ⟨-, r, -, -, rfl, -⟩ := processPacket_eq he
    have hgr := (popped_isReady hp).1.trans hr
    have hgh : g.history = h.history := (popped_rest hp).1
    refine ⟨(single (hin c)).tail (.queued (h := { h with counters := c }) hr (popped_counters c hp) he),
      hgr, em, ?_, rfl⟩
    simp only [record, hgh]

theorem cbrSlots_steps {env : Env} : ∀ (n : ℕ) {h h' : PacketHandler} {out : List Packet},
    h.isReady = true → cbrSlots env n h = .ok (out, h') → ReflTransGen MuxStep h h' ∧
      ∃ es : List Emitted, h'.history = h.history ++ es.map .cbr ∧ es.map Emitted.data = out ∧ es.length = n
  | 0, h, h', out, _, e => by cases e; exact ⟨.refl, [], by simp, rfl, rfl⟩
  | n + 1, h, h', out, hr, e => by
    rw [cbrSlots] at e
    obtain ⟨⟨p, h1⟩, e1, e⟩ := bind_eq_ok.1 e
    obtain ⟨⟨out1, h2⟩, e2, e⟩ := bind_eq_ok.1 e
    cases e
    obtain ⟨s1, hr1, em, hh1, hem⟩ := cbrSlot_steps hr e1
    obtain ⟨s2, es, hh2, hes, hlen⟩ := cbrSlots_steps n hr1 e2
    refine ⟨s1.trans s2, em :: es, ?_, ?_, ?_⟩
    · rw [hh2, hh1]; simp
    · rw [List.map_cons, hem, hes]
    · rw [List.length_cons, hlen]

/-- **A frame of constant bit rate**: nothing while the output is not ready or paused, else as many
packets as fit the packet size. -/
theorem flushPacketForCbr_steps {env : Env} {h h' : PacketHandler} {out : Option Bytes}
    (e : h.flushPacketForCbr env = .ok (out, h')) : ReflTransGen MuxStep h h' ∧
      (out = none ∧ h' = h ∨ ∃ (ev : Event) (es : List Emitted),
        h'.history = h.history ++ ev :: es.map .cbr ∧
        out = some ((es.map Emitted.data).flatMap Packet.bytes) ∧
        (tsPacketSize ≤ h.getPktSize → es.length = h.getPktSize / tsPacketSize)) := by
  have hin (h : PacketHandler) (c : Counters) : MuxStep h { h with counters := c } :=
    .input h h.inBuff h.isSync h.maxBuffSize h.lastPtsDts h.lastCc h.ccErrors c h.dirtyCa
  rw [flushPacketForCbr] at e
  split_ifs at e with h0
  · cases e; exact ⟨.refl, .inl ⟨rfl, rfl⟩⟩
  · have hr : h.isReady = true := by
      by_contra hr
      exact h0 (by simp [hr])
    have hf := (flushPsi_isReady h).1
    have hh : ∃ ev, h.flushPsiPackets.2.history = h.history ++ [ev] := by
      simp only [flushPsiPackets, dueTable, flushTable]
      split_ifs <;> exact ⟨_, rfl⟩
    obtain ⟨ev, hev⟩ := hh
    dsimp only at e
    split at e
    · rename_i k g hg
      rw [hg] at hf hev
      dsimp only at hf hev
      obtain ⟨⟨out', h2⟩, e2, e⟩ := bind_eq_ok.1 e
      cases e
      obtain ⟨s, es, hes, hdata, hlen⟩ := cbrSlots_steps _ (by exact hf.trans hr) e2
      refine ⟨.head (.table hr hg) (.head (hin _ _) s),
        .inr ⟨ev, ⟨.table k, g.tables.cache k, none⟩ :: es, ?_, ?_, ?_⟩⟩
      · rw [hes]
        change g.history ++ _ ++ _ = _
        rw [hev]; simp; rfl
      · rw [List.map_cons, hdata]; rfl
      · intro hsize
        have : 0 < h.getPktSize / tsPacketSize := Nat.div_pos hsize (by decide)
        rw [List.length_cons, hlen]; omega
    · rename_i g hg
      rw [hg] at hf hev
      dsimp only at hf hev
      obtain ⟨⟨out', h2⟩, e2, e⟩ := bind_eq_ok.1 e
      cases e
      obtain ⟨s, es, hes, hdata, hlen⟩ := cbrSlots_steps _ (by exact hf.trans hr) e2
      refine ⟨.head (.flushPsi hr hg) s, .inr ⟨ev, es, ?_, by rw [hdata], fun _ => hlen⟩⟩
      rw [hes, hev]; simp

/-! ## Variable bit rate -/

theorem mux_any {h h' : PacketHandler} (s : ReflTransGen MuxStep h h') : ReflTransGen AnyStep h h' :=
  ReflTransGen.mono (r := MuxStep) (fun _ _ => Or.inl) _ _ s

theorem vbrLoop_steps : ∀ (n : ℕ) {h : PacketHandler}, h.isReady = true →
    ReflTransGen AnyStep h (h.vbrLoop n).2 ∧ (h.vbrLoop n).2.isReady = true
  | 0, h, hr => ⟨.refl, hr⟩
  | n + 1, h, hr => by
    rw [vbrLoop]
    split
    · rename_i pkt g hg
      have hp := getAOrV_popped hg
      have hin (c : Counters) : MuxStep h { h with counters := c } :=
        .input h h.inBuff h.isSync h.maxBuffSize h.lastPtsDts h.lastCc h.ccErrors c h.dirtyCa
      have hgr := (popped_isReady hp).1.trans hr
      obtain ⟨s, hr'⟩ := vbrLoop_steps n (h := { g with counters.payload := g.counters.payload + 1 }.record
        (.vbr { source := .queued pkt, data := pkt.data, resync := none })) hgr
      refine ⟨.head (.inl (hin { g.counters with payload := g.counters.payload + 1 })) (.head (.inr ?_) s), hr'⟩
      exact .queued (h := { h with counters := _ }) hr (popped_counters _ hp)
    · exact ⟨.refl, hr⟩

theorem flushPacketForVbr_steps (h : PacketHandler) : ReflTransGen AnyStep h h.flushPacketForVbr.2 := by
  rw [flushPacketForVbr]
  split_ifs with h0
  · exact .refl
  · have hr : h.isReady = true := by
      by_contra hr
      exact h0 (by simp [hr])
    have hf := (flushPsi_isReady h).1
    have hin (h : PacketHandler) (c : Counters) : MuxStep h { h with counters := c } :=
      .input h h.inBuff h.isSync h.maxBuffSize h.lastPtsDts h.lastCc h.ccErrors c h.dirtyCa
    have hrest : ∀ (n : ℕ) (g : PacketHandler), g.isReady = true →
        ReflTransGen AnyStep g ((g.vbrLoop n).2.trackPcr ((g.vbrLoop n).1.findSome? TsPacket.pcr)) := by
      intro n g hg
      obtain ⟨s, hr'⟩ := vbrLoop_steps n hg
      unfold trackPcr
      split
      · exact s.tail (.inr (.clock _ _ hr'))
      · exact s
    dsimp only
    generalize hg : h.flushPsiPackets = fp at hf ⊢
    obtain ⟨k, g⟩ := fp
    cases k with
    | none =>
      dsimp only at hf ⊢
      exact .head (.inl (.flushPsi hr hg)) (hrest _ _ (hf.trans hr))
    | some k =>
      dsimp only at hf ⊢
      refine .head (.inr (.table hr hg)) (.head (.inl (hin _ { g.counters with psi := g.counters.psi + 1 })) ?_)
      exact hrest _ _ (hf.trans hr)

theorem frameLoop_steps : ∀ (fuel : ℕ) (h : PacketHandler), ReflTransGen AnyStep h (h.frameLoop fuel)
  | 0, h => .refl
  | fuel + 1, h => by
    rw [frameLoop]
    have s := flushPacketForVbr_steps h
    split_ifs
    · split
      · rename_i pkt g hg
        rw [hg] at s
        exact s.trans (.head (.inr (.frame g _)) (frameLoop_steps fuel _))
      · rename_i g hg
        rw [hg] at s
        exact s
    · exact .refl

theorem flushFrame_steps (h : PacketHandler) : ReflTransGen AnyStep h h.flushFrame.2 := by
  rw [flushFrame]
  have s := frameLoop_steps frameBufferSize h
  split_ifs with h0
  · exact .refl
  · dsimp only
    split_ifs
    · exact s.tail (.inr (.frame _ _))
    · exact s

end PacketHandler

end MyMuxer
