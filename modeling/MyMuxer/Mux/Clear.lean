import MyMuxer.Mux.Finish

/-!
# The packets in the queues are clear (`mux.rs`, `biss.rs`)

* `descrambled_clear`: what the scrambling bits of a descrambled packet are.
* `Feeds`: between two states, only packets that are clear have gone to the queues; each call of a muxer.
* **`queues_clear`**: in every run, what goes to the queues is clear, or has the reserved value that a descrambler
  leaves alone; `queues_reserved`: it may.
-/

namespace MyMuxer

/-- The scrambling bits are clear, or, with a key, hold the reserved value. -/
def Clear (keyed : Bool) (p : Packet) : Prop :=
  pktScramblingControl p.bytes = 0 ∨ keyed = true ∧ pktScramblingControl p.bytes = 1

theorem clearScrambling_clear (p : Packet) : pktScramblingControl (clearScrambling p).bytes = 0 := by
  have h : ∀ b : UInt8, ((b &&& 0x3F) >>> 6) &&& 0x03 = 0 := by decide
  rw [pktScramblingControl, clearScrambling, Packet.byte_set_self _ (by norm_num), h]

/-- **A descrambled packet is clear**, or it came with the reserved value and is as it was. -/
theorem descrambled_clear (b : Biss1Descrambler) {p : Packet} (hs : byte p.bytes 0 = tsSyncByte) :
    pktScramblingControl (b.descrambleTsPacket p).2.bytes = 0 ∨
      pktScramblingControl p.bytes = 1 ∧ (b.descrambleTsPacket p).2 = p := by
  have hreserved : ∀ b : UInt8, b &&& 0xC0 = 0x40 → (b >>> 6) &&& 0x03 = 1 := by decide
  rw [Biss1Descrambler.descrambleTsPacket, if_neg (not_not.2 (show byte p.bytes 0 = 0x47 from hs))]
  dsimp only
  split_ifs with h1 h2
  · rcases h1 with h1 | h1
    · exact .inl ((scramblingControl_eq_zero _).2 h1)
    · exact .inr ⟨hreserved _ h1, rfl⟩
  · exact .inl (clearScrambling_clear _)
  · exact .inl (clearScrambling_clear _)
  · exact .inl (clearScrambling_clear _)

namespace PacketHandler

open Psi

/-- Only packets that are clear have gone to the queues in between. -/
structure Feeds (h h' : PacketHandler) : Prop where
  biss : h'.biss = h.biss
  pushed : ∀ pkt, .pushed pkt ∈ h'.history → .pushed pkt ∈ h.history ∨ Clear h.biss.isSome pkt.data

namespace Feeds

variable {h h' h'' : PacketHandler}

theorem refl (h : PacketHandler) : Feeds h h := ⟨rfl, fun _ => .inl⟩

theorem trans (f : Feeds h h') (f' : Feeds h' h'') : Feeds h h'' where
  biss := f'.biss.trans f.biss
  pushed pkt hp := (f'.pushed pkt hp).elim (f.pushed pkt) fun hc => .inr (f.biss ▸ hc)

/-- Nothing is written down. -/
theorem still (hb : h'.biss = h.biss) (hh : h'.history = h.history) : Feeds h h' :=
  ⟨hb, fun _ hp => .inl (hh ▸ hp)⟩

/-- Nothing was written down before. -/
theorem after (f : Feeds h' h'') (hb : h'.biss = h.biss) (hh : h'.history = h.history) : Feeds h h'' :=
  (still hb hh).trans f

/-- An event that pushes nothing. -/
theorem record (h : PacketHandler) {ev : Event} (hev : ∀ pkt, ev ≠ .pushed pkt) : Feeds h (h.record ev) where
  biss := rfl
  pushed pkt hp := by
    rcases List.mem_append.1 hp with hp | hp
    · exact .inl hp
    · exact absurd (List.mem_singleton.1 hp).symm (hev pkt)

theorem popped {pkt : TsPacket} (hp : h.Popped pkt h') : Feeds h h' := by
  obtain ⟨v, a, rfl⟩ := popped_eq hp
  exact still rfl rfl

theorem push {program : Program} {pkt : TsPacket} (hc : Clear h.biss.isSome pkt.data) :
    Feeds h (h.push program pkt) := by
  have hone {v a : OutBuffer} : Feeds h ({ h with outBuffV := v, outBuffA := a }.record (.pushed pkt)) := by
    refine ⟨rfl, fun pkt' hp => ?_⟩
    rcases List.mem_append.1 hp with hp | hp
    · exact .inl hp
    · cases List.mem_singleton.1 hp
      exact .inr hc
  rw [PacketHandler.push]
  split_ifs
  · exact hone
  · exact hone
  · exact refl h

theorem buffersClear (h : PacketHandler) : Feeds h h.buffersClear := by
  rw [PacketHandler.buffersClear]
  exact (record _ fun _ e => by cases e).after rfl rfl

end Feeds

/-! ## Input -/

variable {env : Env} {h h' : PacketHandler}

/-- What `process` matches on is clear. -/
theorem opened_clear {program : Program} {pkt p : Packet} {g : PacketHandler}
    (hs : byte pkt.bytes 0 = tsSyncByte) (e : h.opened program pkt = some (g, p)) :
    Feeds h g ∧ Clear h.biss.isSome p := by
  have hplain (e : (if pktScramblingControl pkt.bytes ≠ 0 then none else some ({ h with dirtyCa := false }, pkt)) =
      some (g, p)) : Feeds h g ∧ Clear h.biss.isSome p := by
    split_ifs at e with hc
    cases e
    exact ⟨.still rfl rfl, .inl (not_not.1 hc)⟩
  rw [opened] at e
  split at e
  · rename_i biss hb _
    cases e
    refine ⟨.refl h, ?_⟩
    rcases descrambled_clear biss hs with hc | ⟨hc, he⟩
    · exact .inl hc
    · exact .inr ⟨by rw [hb]; rfl, by rw [he]; exact hc⟩
  · exact hplain e

theorem processMedia_feeds {program : Program} {pid : UInt16} {p : Packet} (hc : Clear h.biss.isSome p)
    (e : h.processMedia program pid p = .ok h') : Feeds h h' := by
  obtain ⟨lastPtsDts, lastCc, ccErrors, rfl | ⟨pkt, rfl, -, rfl⟩⟩ := processMedia_cases e
  · exact .still rfl rfl
  · exact (Feeds.push (h := { h with lastPtsDts, lastCc, ccErrors }) hc).after rfl rfl

/-- **A packet of the input.** -/
theorem processTs_feeds {pkt : Packet} (hs : byte pkt.bytes 0 = tsSyncByte) (e : h.processTs env pkt = .ok h') :
    Feeds h h' := by
  obtain ⟨program, hprog, -⟩ := bind_eq_ok.1 e
  rw [processTs_eq hprog] at e
  cases hopened : h.opened program pkt with
  | none =>
    rw [hopened] at e
    cases e
    exact .still rfl rfl
  | some gp =>
    obtain ⟨g, p⟩ := gp
    obtain ⟨hg, hc⟩ := opened_clear hs hopened
    rw [hopened] at e
    obtain rfl | ⟨t, rfl, -⟩ | ⟨-, e⟩ := processPid_cases e
    · exact hg
    · exact hg.trans (.still rfl rfl)
    · exact hg.trans (processMedia_feeds (hg.biss ▸ hc) e)

theorem processLoop_feeds : ∀ (n : ℕ) {h h' : PacketHandler} {b : Bool},
    processLoop env n h = .ok (b, h') → Feeds h h'
  | 0, h, h', b, e => by cases e; exact .refl h
  | n + 1, h, h', b, e => by
    rw [processLoop] at e
    split_ifs at e with hs
    · obtain ⟨h₁, e₁, e⟩ := bind_eq_ok.1 e
      have hts := processTs_feeds (Packet.ofBytes_sync hs) e₁
      exact (hts.trans (processLoop_feeds n e)).after rfl rfl
    · cases e
      exact (Feeds.buffersClear { h with isSync := false }).after rfl rfl

theorem startOutput_feeds (bitrate : ℕ) : Feeds h (h.startOutput env bitrate) := by
  rw [startOutput]
  split_ifs
  · obtain ⟨v, a, hadjust⟩ := bufferAdjustLoop_eq (h.outBuffV.len + h.outBuffA.len) h
    rw [bufferAdjust, hadjust]
    dsimp only
    cases OutBuffer.front v with
    | none => exact .still rfl rfl
    | some pkt =>
      dsimp only
      rw [setReady]
      exact (Feeds.record _ fun _ e => by cases e).after rfl rfl
  · exact .refl h

theorem probeBitrate_feeds : Feeds h (h.probeBitrate env).2 := by
  rw [probeBitrate]
  dsimp only
  split_ifs
  · exact .still rfl rfl
  · exact .refl h

theorem becomeReady_feeds (e : h.becomeReady env = .ok h') : Feeds h h' := by
  rw [becomeReady] at e
  split_ifs at e
  · cases e; exact .refl h
  · cases e; exact .refl h
  · cases e; exact .refl h
  · obtain ⟨g, hg, e⟩ := bind_eq_ok.1 e
    have hfill : Feeds h g := by
      rw [fillSdt] at hg
      split_ifs at hg
      · obtain ⟨program, -, hg⟩ := bind_eq_ok.1 hg
        obtain ⟨t, -, hg⟩ := bind_eq_ok.1 hg
        cases hg
        exact .still rfl rfl
      · cases hg
        exact .refl h
    split at e
    · split_ifs at e
      · cases e
        exact hfill.trans (.buffersClear g)
      · cases e
        exact hfill.trans (probeBitrate_feeds.trans (startOutput_feeds _))
    · cases e
      exact hfill

theorem process_feeds (e : h.process env = .ok h') : Feeds h h' := by
  rw [process] at e
  generalize (if h.isSync then (true, h.inBuff) else syncBuffer h.inBuff) = sb at e
  obtain ⟨isSync, inBuff⟩ := sb
  suffices hrest : Feeds { h with isSync, inBuff } h' from hrest.after rfl rfl
  dsimp only at e
  generalize { h with isSync, inBuff } = g at e ⊢
  have hclear : Feeds g (if g.isBufferOverflow 2 then g.buffersClear else g) := by
    split_ifs
    · exact .buffersClear g
    · exact .refl g
  generalize (if g.isBufferOverflow 2 then g.buffersClear else g) = k at e hclear
  split_ifs at e
  · cases e; exact .refl h'
  · cases e; exact hclear
  · obtain ⟨⟨synced, k'⟩, e₁, e⟩ := bind_eq_ok.1 e
    have hloop := hclear.trans (processLoop_feeds _ e₁)
    dsimp only at e
    split_ifs at e
    · exact hloop.trans (becomeReady_feeds e)
    · cases e; exact hloop

theorem write_feeds {chunk : Bytes} (e : h.write env chunk = .ok h') : Feeds h h' := by
  rw [write] at e
  split_ifs at e
  · exact (process_feeds e).after rfl rfl
  · exact (process_feeds e).after rfl rfl

/-! ## Output -/

theorem flushPsiPackets_feeds (h : PacketHandler) : Feeds h h.flushPsiPackets.2 := by
  generalize e : h.flushPsiPackets = fp
  obtain ⟨k, g⟩ := fp
  cases k with
  | none =>
    obtain ⟨-, rfl⟩ := flushPsi_none e
    exact .record h fun _ e => by cases e
  | some k =>
    obtain ⟨-, -, rfl⟩ := flushPsi_some e
    exact (Feeds.record _ fun _ e => by cases e).after rfl rfl

theorem cbrSlot_feeds {p : Packet} (e : h.cbrSlot env = .ok (p, h')) : Feeds h h' := by
  obtain ⟨c, e | ⟨pkt, g, hp, e⟩⟩ := cbrSlot_cases e
  · cases e
    exact (Feeds.record _ fun _ e => by cases e).after rfl rfl
  · obtain ⟨v, a, rfl⟩ := popped_eq hp
    obtain ⟨⟨em, g'⟩, he, e⟩ := bind_eq_ok.1 e
    cases e
    obtain ⟨-, r, -, -, rfl, -⟩ := processPacket_eq he
    exact (Feeds.record _ fun _ e => by cases e).after rfl rfl

theorem cbrSlots_feeds : ∀ (n : ℕ) {h h' : PacketHandler} {out : List Packet},
    cbrSlots env n h = .ok (out, h') → Feeds h h'
  | 0, h, h', out, e => by cases e; exact .refl h
  | n + 1, h, h', out, e => by
    rw [cbrSlots] at e
    obtain ⟨⟨p, h₁⟩, e₁, e⟩ := bind_eq_ok.1 e
    obtain ⟨⟨out₁, h₂⟩, e₂, e⟩ := bind_eq_ok.1 e
    cases e
    exact (cbrSlot_feeds e₁).trans (cbrSlots_feeds n e₂)

theorem flushPacketForCbr_feeds {out : Option Bytes} (e : h.flushPacketForCbr env = .ok (out, h')) :
    Feeds h h' := by
  have hpsi := flushPsiPackets_feeds h
  rw [flushPacketForCbr] at e
  split_ifs at e
  · cases e
    exact .refl h
  · generalize h.flushPsiPackets = fp at e hpsi
    obtain ⟨k, g⟩ := fp
    cases k with
    | none =>
      obtain ⟨⟨out₁, h₁⟩, e₁, e⟩ := bind_eq_ok.1 e
      cases e
      exact hpsi.trans (cbrSlots_feeds _ e₁)
    | some k =>
      obtain ⟨⟨out₁, h₁⟩, e₁, e⟩ := bind_eq_ok.1 e
      cases e
      have htable : Feeds g
          (({ g.countSent 1 with counters.psi := (g.countSent 1).counters.psi + 1 }).emitTable k).2 :=
        (Feeds.record _ fun _ e => by cases e).after rfl rfl
      exact hpsi.trans (htable.trans (cbrSlots_feeds _ e₁))

theorem vbrLoop_feeds : ∀ (n : ℕ) (h : PacketHandler), Feeds h (h.vbrLoop n).2
  | 0, h => .refl h
  | n + 1, h => by
    rw [vbrLoop]
    cases e : h.getAOrV with
    | none => exact .refl h
    | some pg =>
      obtain ⟨pkt, g⟩ := pg
      have hpop := Feeds.popped (getAOrV_popped e)
      have hsend : Feeds g ({ g with counters.payload := g.counters.payload + 1 }.record
          (.vbr { source := .queued pkt, data := pkt.data, resync := none })) :=
        (Feeds.record _ fun _ e => by cases e).after rfl rfl
      exact hpop.trans (hsend.trans (vbrLoop_feeds n _))

theorem flushPacketForVbr_feeds (h : PacketHandler) : Feeds h h.flushPacketForVbr.2 := by
  have htrack (g : PacketHandler) (pcr : Option ℕ) : Feeds g (g.trackPcr pcr) := by
    cases pcr with
    | none => exact .refl g
    | some pcr => exact .still rfl rfl
  have hpsi := flushPsiPackets_feeds h
  rw [flushPacketForVbr]
  split_ifs
  · exact .refl h
  · generalize h.flushPsiPackets = fp at hpsi ⊢
    obtain ⟨k, g⟩ := fp
    cases k with
    | none => exact hpsi.trans ((vbrLoop_feeds _ g).trans (htrack _ _))
    | some k =>
      have htable : Feeds g ({ g with counters.psi := g.counters.psi + 1 }.record
          (.vbr { source := .table k, data := g.tables.cache k, resync := none })) :=
        (Feeds.record _ fun _ e => by cases e).after rfl rfl
      exact hpsi.trans (htable.trans ((vbrLoop_feeds _ _).trans (htrack _ _)))

theorem frameLoop_feeds : ∀ (fuel : ℕ) (h : PacketHandler), Feeds h (h.frameLoop fuel)
  | 0, h => .refl h
  | fuel + 1, h => by
    have hvbr := flushPacketForVbr_feeds h
    rw [frameLoop]
    split_ifs
    · generalize h.flushPacketForVbr = fp at hvbr ⊢
      obtain ⟨out, g⟩ := fp
      cases out with
      | none => exact hvbr
      | some out => exact hvbr.trans ((frameLoop_feeds fuel _).after rfl rfl)
    · exact .refl h

theorem flushFrame_feeds (h : PacketHandler) : Feeds h h.flushFrame.2 := by
  rw [flushFrame]
  split_ifs
  · exact .refl h
  · dsimp only
    split_ifs
    · exact (frameLoop_feeds _ h).trans (.still rfl rfl)
    · exact frameLoop_feeds _ h

/-! ## Runs -/

/-- **A call** sends to the queues what is clear. -/
theorem call_feeds {op : Op} {out : Option Bytes} (e : h.call env op = .ok (out, h')) : Feeds h h' := by
  cases op with
  | write chunk =>
    obtain ⟨h₁, e₁, e⟩ := bind_eq_ok.1 e
    cases e
    exact write_feeds e₁
  | flushPacketForCbr => exact flushPacketForCbr_feeds e
  | flushPacketForVbr =>
    cases congrArg Prod.snd (Except.ok.inj e)
    exact flushPacketForVbr_feeds h
  | flushFrame =>
    cases congrArg Prod.snd (Except.ok.inj e)
    exact flushFrame_feeds h

theorem run_feeds : ∀ {ops : List Op} {h h' : PacketHandler} {outs : List (Option Bytes)},
    run env h ops = .ok (outs, h') → Feeds h h'
  | [], h, h', outs, e => by cases e; exact .refl h
  | op :: ops, h, h', outs, e => by
    rw [run] at e
    obtain ⟨⟨out, h₁⟩, e₁, e⟩ := bind_eq_ok.1 e
    obtain ⟨⟨outs₁, h₂⟩, e₂, e⟩ := bind_eq_ok.1 e
    cases e
    exact (call_feeds e₁).trans (run_feeds e₂)

theorem new_biss {output : Output} (e : new env output = some h) : h.biss = initBiss env output.bissKey := by
  rw [new] at e
  by_cases hl : output.programs.length > 1
  · rw [if_pos hl] at e
    cases e
  · rw [if_neg hl] at e
    cases e
    rfl

/-- **What goes to the queues is clear**, or, in an output with a key, it has the reserved value 01. -/
theorem queues_clear {output : Output} {ops : List Op} {outs : List (Option Bytes)}
    (hrun : runNew env output ops = .ok (outs, h)) {pkt : TsPacket} (hp : .pushed pkt ∈ h.history) :
    pktScramblingControl pkt.data.bytes = 0 ∨
      (initBiss env output.bissKey).isSome = true ∧ pktScramblingControl pkt.data.bytes = 1 := by
  obtain ⟨h₀, hnew, hrun⟩ := bind_eq_ok.1 hrun
  have hnew := unwrap_eq_ok.1 hnew
  have hhistory : h₀.history = [] := (new_fresh hnew).history
  rcases (run_feeds hrun).pushed pkt hp with hp | hc
  · rw [hhistory] at hp
    cases hp
  · rw [new_biss hnew] at hc
    exact hc

/-- An output with a key, and a cipher that leaves payloads as they are. -/
def keyedEnv : Env := { Env.sample with dvbcsa := some fun _ => ⟨id, fun _ => rfl⟩ }

def keyedOutput : Output := { sampleOutput with bissKey := "112233445566" }

/-- A video packet with the given scrambling bits. -/
def scrambledVideo (bits cc : UInt8) : Packet :=
  (sampleVideo false cc 9000000).set 3 (byte (sampleVideo false cc 9000000).bytes 3 ||| bits)

/-- The packets that went to the queues. -/
def pushedData (history : List Event) : List Packet :=
  history.filterMap fun ev => match ev with
    | .pushed pkt => some pkt.data
    | _ => none

theorem mem_pushedData {history : List Event} {p : Packet} (h : p ∈ pushedData history) :
    ∃ pkt : TsPacket, .pushed pkt ∈ history ∧ pkt.data = p := by
  obtain ⟨ev, hmem, hev⟩ := List.mem_filterMap.1 h
  cases ev with
  | pushed pkt => exact ⟨pkt, hmem, Option.some.inj hev⟩
  | _ => cases hev

/-- A packet with the scrambling bits 10 is descrambled. -/
theorem queues_clear_sample : ∃ outs h, runNew keyedEnv keyedOutput
      [.write ([0, 1, 2].flatMap fun cc => (scrambledVideo 0x80 cc).bytes)] = .ok (outs, h) ∧
    (pushedData h.history).length = 3 ∧
    ∀ pkt, .pushed pkt ∈ h.history → pktScramblingControl pkt.data.bytes = 0 ∨
      (initBiss keyedEnv keyedOutput.bissKey).isSome = true ∧ pktScramblingControl pkt.data.bytes = 1 := by
  obtain ⟨⟨outs, h⟩, hrun, hlen⟩ := ok_of_map (x := runNew keyedEnv keyedOutput
      [.write ([0, 1, 2].flatMap fun cc => (scrambledVideo 0x80 cc).bytes)])
    (f := fun x => (pushedData x.2.history).length) (b := 3) (by decide +kernel)
  exact ⟨outs, h, hrun, hlen, fun pkt hp => queues_clear hrun hp⟩

/-- A packet with the reserved value 01 goes to the queue as it is. -/
theorem queues_reserved : ∃ outs h pkt, runNew keyedEnv keyedOutput
      [.write ([0, 1, 2].flatMap fun cc => (scrambledVideo 0x40 cc).bytes)] = .ok (outs, h) ∧
    .pushed pkt ∈ h.history ∧ pktScramblingControl pkt.data.bytes ≠ 0 := by
  obtain ⟨⟨outs, h⟩, hrun, hdata⟩ := ok_of_map (x := runNew keyedEnv keyedOutput
      [.write ([0, 1, 2].flatMap fun cc => (scrambledVideo 0x40 cc).bytes)])
    (f := fun x => decide (scrambledVideo 0x40 0 ∈ pushedData x.2.history)) (b := true) (by decide +kernel)
  obtain ⟨pkt, hmem, hpkt⟩ := mem_pushedData (of_decide_eq_true hdata)
  exact ⟨outs, h, pkt, hrun, hmem, by rw [hpkt]; decide +kernel⟩

end PacketHandler

end MyMuxer
