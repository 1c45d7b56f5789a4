import MyMuxer.Mux.Frames

/-!
# Readiness

* `Armed`: output that is ready has all three tables, and neither the PAT nor the PMT has changed.
* `write_armed`, `SamePhase`: the input side keeps it, and the output side touches nothing it speaks of.
* **`ready_invariant`**: readiness, caches and clock in every run.
-/

namespace MyMuxer

namespace PacketHandler

/-- Output that is ready has its tables, and they have not changed. -/
def Armed (h : PacketHandler) : Prop :=
  h.isReady = true → (∀ k, h.tables.ready k = true) ∧ h.tables.dirtyPat = false ∧ h.tables.dirtyPmt = false

variable {env : Env} {h h' : PacketHandler}

theorem Armed.of_not_ready (hr : h.isReady = false) : Armed h := fun h => absurd (hr.symm.trans h) (by decide)

/-- What happens to readiness and the tables while a packet is taken from the input. -/
structure Taken (h h' : PacketHandler) : Prop where
  isReady : h'.isReady = h.isReady
  tables : h.isReady = true → h'.tables = h.tables

theorem Taken.armed (t : Taken h h') (a : Armed h) : Armed h' := by
  intro hr
  have hr : h.isReady = true := t.isReady.symm.trans hr
  rw [t.tables hr]
  exact a hr

/-! ## Input -/

theorem push_rest (h : PacketHandler) (program : Program) (pkt : TsPacket) :
    (h.push program pkt).isReady = h.isReady ∧ (h.push program pkt).tables = h.tables := by
  rw [push]
  split_ifs <;> exact ⟨rfl, rfl⟩

theorem processMedia_taken {program : Program} {pid : UInt16} {p : Packet}
    (e : h.processMedia program pid p = .ok h') : Taken h h' := by
  obtain ⟨lastPtsDts, lastCc, ccErrors, rfl | ⟨pkt, -, -, rfl⟩⟩ := processMedia_cases e
  · exact ⟨rfl, fun _ => rfl⟩
  · exact ⟨(push_rest ..).1, fun _ => (push_rest ..).2⟩

/-- While output is ready no packet changes a table. -/
theorem processPid_taken (a : Armed h) {program : Program} {pid : UInt16} {p : Packet}
    (e : h.processPid env program pid p = .ok h') : Taken h h' := by
  obtain rfl | ⟨t, rfl, ht⟩ | ⟨-, e⟩ := processPid_cases e
  · exact ⟨rfl, fun _ => rfl⟩
  · -- a table is taken while it, or the output, is not ready
    refine ⟨rfl, fun hr => ?_⟩
    have hready := (a hr).1
    rcases ht with ⟨-, h1 | h1, -⟩ | ⟨-, h1 | h1, -⟩ | ⟨h1, -⟩
    · exact absurd (h1.symm.trans (hready .pat)) (by decide)
    · exact absurd (h1.symm.trans hr) (by decide)
    · exact absurd (h1.symm.trans (hready .pmt)) (by decide)
    · exact absurd (h1.symm.trans hr) (by decide)
    · exact absurd (h1.symm.trans (hready .sdt)) (by decide)
  · exact processMedia_taken e

theorem processTs_taken (a : Armed h) {p : Packet} (e : h.processTs env p = .ok h') : Taken h h' := by
  rw [processTs] at e
  obtain ⟨program, -, e⟩ := bind_eq_ok.1 e
  split at e
  · exact processPid_taken a e
  · split_ifs at e
    · cases e; exact ⟨rfl, fun _ => rfl⟩
    · have t := processPid_taken (h := { h with dirtyCa := false }) a e
      exact ⟨t.isReady, t.tables⟩

theorem processLoop_armed : ∀ (n : ℕ) {h h' : PacketHandler} {b : Bool}, Armed h →
    processLoop env n h = .ok (b, h') → Armed h'
  | 0, h, h', b, a, e => by cases e; exact a
  | n + 1, h, h', b, a, e => by
    rw [processLoop] at e
    split_ifs at e
    · obtain ⟨h₁, e₁, e⟩ := bind_eq_ok.1 e
      have t := processTs_taken (h := { h with inBuff := h.inBuff.drop tsPacketSize }) a e₁
      exact processLoop_armed n (t.armed a) e
    · cases e
      exact .of_not_ready rfl

/-! ## Becoming ready -/

theorem startOutput_tables {bitrate : ℕ} : (h.startOutput env bitrate).tables = h.tables := by
  rw [startOutput]
  split_ifs
  · obtain ⟨v, a, hg⟩ := bufferAdjustLoop_eq (h.outBuffV.len + h.outBuffA.len) h
    rw [bufferAdjust, hg]
    dsimp only
    split
    · rfl
    · rfl
  · rfl

theorem becomeReady_armed (a : Armed h) (e : h.becomeReady env = .ok h') : Armed h' := by
  rw [becomeReady] at e
  split_ifs at e with h1 h2 h3
  · cases e; exact a
  · cases e; exact a
  · cases e; exact a
  · obtain ⟨g, hg, e⟩ := bind_eq_ok.1 e
    obtain ⟨-, hr, -⟩ := fillSdt_steps hg
    have hr : g.isReady = false := hr.trans (by simpa using h2)
    have hdirty : g.tables.dirtyPat = h.tables.dirtyPat ∧ g.tables.dirtyPmt = h.tables.dirtyPmt := by
      rw [fillSdt] at hg
      split_ifs at hg
      · obtain ⟨program, -, hg⟩ := bind_eq_ok.1 hg
        obtain ⟨t, ht, hg⟩ := bind_eq_ok.1 hg
        obtain ⟨p, -, ht⟩ := bind_eq_ok.1 ht
        cases ht
        cases hg
        exact ⟨rfl, rfl⟩
      · cases hg
        exact ⟨rfl, rfl⟩
    have hclean : h.tables.dirtyPat = false ∧ h.tables.dirtyPmt = false := by
      simp only [isDirty, Bool.or_eq_true, not_or, Bool.not_eq_true] at h1
      exact h1.1
    have hready := fillSdt_ready hg h3
    split at e
    · split_ifs at e
      · cases e
        exact .of_not_ready rfl
      · obtain ⟨-, -, ht', -⟩ := probeBitrate_steps env hr
        have a' : Armed ((g.probeBitrate env).2.startOutput env (g.probeBitrate env).1) := by
          intro _
          rw [startOutput_tables, ht', hdirty.1, hdirty.2]
          exact ⟨hready, hclean⟩
        cases e
        exact a'
    · cases e
      exact .of_not_ready hr

theorem process_armed (a : Armed h) (e : h.process env = .ok h') : Armed h' := by
  rw [process] at e
  generalize (if h.isSync then (true, h.inBuff) else syncBuffer h.inBuff) = sb at e
  obtain ⟨isSync, inBuff⟩ := sb
  dsimp only at e
  have a₁ : Armed { h with isSync, inBuff } := a
  generalize { h with isSync, inBuff } = g at e a₁
  have a₂ : Armed (if g.isBufferOverflow 2 then g.buffersClear else g) := by
    split_ifs
    · exact .of_not_ready rfl
    · exact a₁
  generalize (if g.isBufferOverflow 2 then g.buffersClear else g) = k at e a₂
  split_ifs at e
  · cases e; exact a₁
  · cases e; exact a₂
  · obtain ⟨⟨synced, k'⟩, e₁, e⟩ := bind_eq_ok.1 e
    have a₃ := processLoop_armed _ a₂ e₁
    dsimp only at e
    split_ifs at e
    · exact becomeReady_armed a₃ e
    · cases e; exact a₃

theorem write_armed (a : Armed h) {chunk : Bytes} (e : h.write env chunk = .ok h') : Armed h' := by
  rw [write] at e
  split_ifs at e
  · exact process_armed (h := { h with inBuff := [] ++ chunk, isSync := false }) a e
  · exact process_armed (h := { h with inBuff := h.inBuff ++ chunk }) a e

/-! ## Output -/

/-- The output side touches neither readiness nor what the tables say about it. -/
structure SamePhase (h h' : PacketHandler) : Prop where
  isReady : h'.isReady = h.isReady
  ready : h'.tables.ready = h.tables.ready
  dirtyPat : h'.tables.dirtyPat = h.tables.dirtyPat
  dirtyPmt : h'.tables.dirtyPmt = h.tables.dirtyPmt
  dirtyCa : h'.dirtyCa = h.dirtyCa

theorem SamePhase.refl (h : PacketHandler) : SamePhase h h := ⟨rfl, rfl, rfl, rfl, rfl⟩

theorem SamePhase.trans {h₁ h₂ h₃ : PacketHandler} (s : SamePhase h₁ h₂) (t : SamePhase h₂ h₃) :
    SamePhase h₁ h₃ where
  isReady := t.isReady.trans s.isReady
  ready := t.ready.trans s.ready
  dirtyPat := t.dirtyPat.trans s.dirtyPat
  dirtyPmt := t.dirtyPmt.trans s.dirtyPmt
  dirtyCa := t.dirtyCa.trans s.dirtyCa

theorem SamePhase.armed (s : SamePhase h h') (a : Armed h) : Armed h' := by
  intro hr
  rw [s.ready, s.dirtyPat, s.dirtyPmt]
  exact a (s.isReady.symm.trans hr)

theorem SamePhase.isDirty (s : SamePhase h h') : h'.isDirty = h.isDirty := by
  rw [PacketHandler.isDirty, PacketHandler.isDirty, s.dirtyPat, s.dirtyPmt, s.dirtyCa]

theorem flushPsi_phase {k : Option Table} (e : h.flushPsiPackets = (k, h')) : SamePhase h h' := by
  cases k with
  | none =>
    obtain ⟨-, rfl⟩ := flushPsi_none e
    exact ⟨rfl, rfl, rfl, rfl, rfl⟩
  | some k =>
    obtain ⟨-, -, rfl⟩ := flushPsi_some e
    refine ⟨rfl, Tables.next_ready _ _, ?_, ?_, rfl⟩
    · cases k <;> rfl
    · cases k <;> rfl

theorem popped_phase {pkt : TsPacket} (hp : h.Popped pkt h') : SamePhase h h' := by
  obtain ⟨v, a, rfl⟩ := popped_eq hp
  exact ⟨rfl, rfl, rfl, rfl, rfl⟩

theorem cbrSlot_phase {p : Packet} (e : h.cbrSlot env = .ok (p, h')) : SamePhase h h' := by
  obtain ⟨c, e | ⟨pkt, g, hp, e⟩⟩ := cbrSlot_cases e
  · cases e
    exact ⟨rfl, rfl, rfl, rfl, rfl⟩
  · rw [emitQueued] at e
    obtain ⟨⟨em, g'⟩, he, e⟩ := bind_eq_ok.1 e
    cases e
    obtain ⟨-, r, -, -, rfl, -⟩ := processPacket_eq he
    have s := popped_phase hp
    exact ⟨s.isReady, s.ready, s.dirtyPat, s.dirtyPmt, s.dirtyCa⟩

theorem cbrSlots_phase : ∀ (n : ℕ) {h h' : PacketHandler} {out : List Packet},
    cbrSlots env n h = .ok (out, h') → SamePhase h h'
  | 0, h, h', out, e => by cases e; exact .refl h
  | n + 1, h, h', out, e => by
    rw [cbrSlots] at e
    obtain ⟨⟨p, h₁⟩, e₁, e⟩ := bind_eq_ok.1 e
    obtain ⟨⟨out₁, h₂⟩, e₂, e⟩ := bind_eq_ok.1 e
    cases e
    exact (cbrSlot_phase e₁).trans (cbrSlots_phase n e₂)

theorem flushPacketForCbr_phase {out : Option Bytes} (e : h.flushPacketForCbr env = .ok (out, h')) :
    SamePhase h h' := by
  rw [flushPacketForCbr] at e
  split_ifs at e
  · cases e
    exact .refl h
  · dsimp only at e
    split at e
    · rename_i k g hg
      obtain ⟨⟨out', h₂⟩, e₂, e⟩ := bind_eq_ok.1 e
      cases e
      have s := cbrSlots_phase _ e₂
      exact (flushPsi_phase hg).trans ⟨s.isReady, s.ready, s.dirtyPat, s.dirtyPmt, s.dirtyCa⟩
    · rename_i g hg
      obtain ⟨⟨out', h₂⟩, e₂, e⟩ := bind_eq_ok.1 e
      cases e
      exact (flushPsi_phase hg).trans (cbrSlots_phase _ e₂)

theorem vbrLoop_phase : ∀ (n : ℕ) (h : PacketHandler), SamePhase h (h.vbrLoop n).2
  | 0, h => .refl h
  | n + 1, h => by
    rw [vbrLoop]
    split
    · rename_i pkt g hg
      have s := popped_phase (getAOrV_popped hg)
      have t := vbrLoop_phase n ({ g with counters.payload := g.counters.payload + 1 }.record
        (.vbr { source := .queued pkt, data := pkt.data, resync := none }))
      exact s.trans ⟨t.isReady, t.ready, t.dirtyPat, t.dirtyPmt, t.dirtyCa⟩
    · exact .refl h

theorem trackPcr_phase (h : PacketHandler) (firstPcr : Option ℕ) : SamePhase h (h.trackPcr firstPcr) := by
  unfold trackPcr
  split
  · exact ⟨rfl, rfl, rfl, rfl, rfl⟩
  · exact .refl h

theorem flushPacketForVbr_phase (h : PacketHandler) : SamePhase h h.flushPacketForVbr.2 := by
  rw [flushPacketForVbr]
  split_ifs
  · exact .refl h
  · generalize hg : h.flushPsiPackets = fp
    obtain ⟨k, g⟩ := fp
    have s := flushPsi_phase hg
    have t (n : ℕ) (g : PacketHandler) :
        SamePhase g ((g.vbrLoop n).2.trackPcr ((g.vbrLoop n).1.findSome? TsPacket.pcr)) :=
      (vbrLoop_phase n g).trans (trackPcr_phase _ _)
    cases k with
    | none => exact s.trans (t _ g)
    | some k =>
      have u := t (h.getPktSize / tsPacketSize - 1) ({ g with counters.psi := g.counters.psi + 1 }.record
        (.vbr { source := .table k, data := g.tables.cache k, resync := none }))
      exact s.trans ⟨u.isReady, u.ready, u.dirtyPat, u.dirtyPmt, u.dirtyCa⟩

theorem frameLoop_phase : ∀ (fuel : ℕ) (h : PacketHandler), SamePhase h (h.frameLoop fuel)
  | 0, h => .refl h
  | fuel + 1, h => by
    rw [frameLoop]
    have s := flushPacketForVbr_phase h
    split_ifs
    · split
      · rename_i pkt g hg
        rw [hg] at s
        have t := frameLoop_phase fuel { g with frameBuff := g.frameBuff ++ pkt }
        exact s.trans ⟨t.isReady, t.ready, t.dirtyPat, t.dirtyPmt, t.dirtyCa⟩
      · rename_i g hg
        rw [hg] at s
        exact s
    · exact .refl h

theorem flushFrame_phase (h : PacketHandler) : SamePhase h h.flushFrame.2 := by
  rw [flushFrame]
  have s := frameLoop_phase frameBufferSize h
  split_ifs
  · exact .refl h
  · dsimp only
    split_ifs
    · exact ⟨s.isReady, s.ready, s.dirtyPat, s.dirtyPmt, s.dirtyCa⟩
    · exact s

/-! ## Runs -/

theorem call_armed (a : Armed h) {op : Op} {out : Option Bytes} (e : h.call env op = .ok (out, h')) :
    Armed h' := by
  cases op with
  | write chunk =>
    obtain ⟨h₁, e₁, e⟩ := bind_eq_ok.1 e
    cases e
    exact write_armed a e₁
  | flushPacketForCbr => exact (flushPacketForCbr_phase e).armed a
  | flushPacketForVbr =>
    have e : h.flushPacketForVbr.2 = h' := congrArg Prod.snd (Except.ok.inj e)
    exact e ▸ (flushPacketForVbr_phase h).armed a
  | flushFrame =>
    have e : h.flushFrame.2 = h' := congrArg Prod.snd (Except.ok.inj e)
    exact e ▸ (flushFrame_phase h).armed a

theorem run_armed : ∀ {ops : List Op} {h h' : PacketHandler} {outs : List (Option Bytes)}, Armed h →
    run env h ops = .ok (outs, h') → Armed h'
  | [], h, h', outs, a, e => by cases e; exact a
  | op :: ops, h, h', outs, a, e => by
    rw [run] at e
    obtain ⟨⟨out, h₁⟩, e₁, e⟩ := bind_eq_ok.1 e
    obtain ⟨⟨outs₁, h₂⟩, e₂, e⟩ := bind_eq_ok.1 e
    cases e
    exact run_armed (call_armed a e₁) e₂

/-- **Readiness, caches and clock in every run of a muxer.** -/
theorem ready_invariant {output : Output} {ops : List Op} {outs : List (Option Bytes)}
    (hproxy : output.proxy = false) (hrun : runNew env output ops = .ok (outs, h)) :
    (h.isReady = true →
      h.tables.patReady = true ∧ h.tables.pmtReady = true ∧ h.tables.sdtReady = true ∧
        h.tables.dirtyPat = false ∧ h.tables.dirtyPmt = false ∧
        ∃ r, h.pcrRestamper = some r ∧ r.firstPcrValue.isSome = true ∧ r.targetBitrateBps ≠ 0) ∧
      ∀ k, h.tables.ready k = true → ∃ program, h.getProgram = .ok program ∧
        byte (h.tables.cache k).bytes 0 = tsSyncByte ∧
        pktPid (h.tables.cache k).bytes = k.pid program := by
  obtain ⟨h₀, f, hrun⟩ := runNew_eq_ok hrun
  have g : Good h := steps_good (run_steps hrun).1 (f.good hproxy)
  have a : Armed h := run_armed (.of_not_ready f.isReady) hrun
  constructor
  · intro hr
    obtain ⟨hready, hpat, hpmt⟩ := a hr
    obtain ⟨r, hclock⟩ := g.restamper
    obtain ⟨hb, hf⟩ := g.clocked hr r hclock
    exact ⟨hready .pat, hready .pmt, hready .sdt, hpat, hpmt, r, hclock, hf, hb⟩
  · intro k hk
    obtain ⟨program, hprog, ht⟩ := g.cached k hk
    exact ⟨program, hprog, ht.sync, ht.pid⟩

/-- Both tables, a video packet and fifteen frames make the output ready. -/
theorem ready_invariant_sample : ∃ outs h, runNew Env.sample sampleOutput sampleOps = .ok (outs, h) ∧
    h.isReady = true ∧ h.tables.sdtReady = true ∧ byte h.tables.sdt.bytes 0 = tsSyncByte := by
  obtain ⟨⟨outs, h⟩, hrun, hr⟩ := ok_of_map (x := runNew Env.sample sampleOutput sampleOps)
    (f := fun x => x.2.isReady) (b := true) (by decide +kernel)
  obtain ⟨hready, hcache⟩ := ready_invariant rfl hrun
  have hsdt := (hready hr).2.2.1
  obtain ⟨_, -, hsync, -⟩ := hcache .sdt hsdt
  exact ⟨outs, h, hrun, hr, hsdt, hsync⟩

end PacketHandler

end MyMuxer
