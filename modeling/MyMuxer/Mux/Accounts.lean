import MyMuxer.Mux.Traffic
import MyMuxer.Mux.Streamed

/-!
# What the counters of a muxer count (`mux.rs`)

* `Counters.total`: the packets counted since the last `update_stats`.
* `Accounts`: the calls between two states emit some packets, and each raises one counter of its kind.
* `write_accounts`, `flushPacketForCbr_accounts`, `drainLoop_accounts`: **what each call of an output counts**, next to
  what it returns.
* `Paced`: the rate that the clock runs at, which never changes once it is known.
-/

namespace MyMuxer

open Relation

namespace Emitted

def isTable (e : Emitted) : Bool :=
  match e.source with
  | .table _ => true
  | _ => false

def isNull (e : Emitted) : Bool :=
  match e.source with
  | .null => true
  | _ => false

def isQueued (e : Emitted) : Bool :=
  match e.source with
  | .queued _ => true
  | _ => false

end Emitted

/-- The counters that may count a packet from here. -/
def Source.CountedBy : Source → Kind → Prop
  | .table _, kind => kind = .psi
  | .null, kind => kind = .null ∨ kind = .adjustNull
  | .queued _, kind => kind = .payload ∨ kind = .adjustPayload

def Counters.total (c : Counters) : ℕ := c.psi + c.null + c.payload + c.adjustNull + c.adjustPayload

/-- Each of the packets `es` has raised one counter of its kind. -/
structure Counters.Counts (c c' : Counters) (es : List Emitted) : Prop where
  psi : c'.psi = c.psi + es.countP Emitted.isTable
  null : c'.null + c'.adjustNull = c.null + c.adjustNull + es.countP Emitted.isNull
  payload : c'.payload + c'.adjustPayload = c.payload + c.adjustPayload + es.countP Emitted.isQueued

theorem countP_kinds (es : List Emitted) :
    es.countP Emitted.isTable + es.countP Emitted.isNull + es.countP Emitted.isQueued = es.length := by
  induction es with
  | nil => rfl
  | cons e es ih =>
    obtain ⟨source, data, resync⟩ := e
    rw [List.length_cons, ← ih, List.countP_cons, List.countP_cons, List.countP_cons]
    cases source <;> simp [Emitted.isTable, Emitted.isNull, Emitted.isQueued] <;> omega

theorem Counters.Counts.total {c c' : Counters} {es : List Emitted} (s : c.Counts c' es) :
    c'.total = c.total + es.length := by
  have := s.psi
  have := s.null
  have := s.payload
  have := countP_kinds es
  unfold Counters.total
  omega

namespace PacketHandler

variable {env : Env} {h h' h'' : PacketHandler} {es fs : List Emitted}

/-- The packets emitted so far. -/
def emitted (h : PacketHandler) : List Emitted := h.history.filterMap Event.sent

/-- From `h` to `h'` the packets `es` have been emitted and counted. -/
structure Accounts (h h' : PacketHandler) (es : List Emitted) : Prop where
  emitted : h'.emitted = h.emitted ++ es
  counters : h.counters.Counts h'.counters es

namespace Accounts

/-- Nothing is emitted and nothing counted. -/
theorem of_eq (hh : h'.emitted = h.emitted) (hc : h'.counters = h.counters) : Accounts h h' [] where
  emitted := hh.trans (List.append_nil _).symm
  counters := hc ▸ ⟨rfl, rfl, rfl⟩

theorem refl (h : PacketHandler) : Accounts h h [] := .of_eq rfl rfl

theorem trans (s : Accounts h h' es) (t : Accounts h' h'' fs) : Accounts h h'' (es ++ fs) where
  emitted := by rw [t.emitted, s.emitted, List.append_assoc]
  counters := by
    refine ⟨?_, ?_, ?_⟩
    · rw [t.counters.psi, s.counters.psi, List.countP_append, Nat.add_assoc]
    · rw [t.counters.null, s.counters.null, List.countP_append, Nat.add_assoc]
    · rw [t.counters.payload, s.counters.payload, List.countP_append, Nat.add_assoc]

/-- What is emitted tells the packets. -/
theorem eq_of_emitted (s : Accounts h h' es) (hh : h'.emitted = h.emitted ++ fs) : Accounts h h' fs :=
  List.append_cancel_left (s.emitted.symm.trans hh) ▸ s

/-- One packet of this kind, of which `h'` knows and that it has counted. -/
theorem one {e : Emitted} {ev : Event} {kind : Kind} (hev : ev.sent = some e)
    (hh : h'.history.filterMap Event.sent = h.history.filterMap Event.sent) (hc : h'.counters = h.counters.add kind)
    (hkind : e.source.CountedBy kind) : Accounts h (h'.record ev) [e] where
  emitted := by
    rw [PacketHandler.emitted, record, List.filterMap_append, hh, List.filterMap_cons_some hev]
    rfl
  counters := by
    change h.counters.Counts h'.counters [e]
    rw [hc]
    obtain ⟨source, data, resync⟩ := e
    cases source with
    | table k => cases hkind; exact ⟨rfl, rfl, rfl⟩
    | null =>
      rcases hkind with rfl | rfl
      · exact ⟨rfl, Nat.succ_add _ _, rfl⟩
      · exact ⟨rfl, rfl, rfl⟩
    | queued pkt =>
      rcases hkind with rfl | rfl
      · exact ⟨rfl, rfl, Nat.succ_add _ _⟩
      · exact ⟨rfl, rfl, rfl⟩

end Accounts

/-! ## One step -/

theorem InputStep.accounts (s : InputStep env h h') : Accounts h h' [] := by
  cases s with
  | push _ _ _ =>
    rw [PacketHandler.push]
    split_ifs
    · exact .of_eq (by rw [emitted, record, List.filterMap_append]; exact List.append_nil _) rfl
    · exact .of_eq (by rw [emitted, record, List.filterMap_append]; exact List.append_nil _) rfl
    · exact .refl _
  | clear => exact .of_eq (by rw [emitted, buffersClear, record, List.filterMap_append]; exact List.append_nil _) rfl
  | drop _ hp =>
    obtain ⟨v, a, rfl⟩ := popped_eq hp
    exact .of_eq rfl rfl
  | ready _ _ => exact .of_eq (by rw [emitted, setReady, record, List.filterMap_append]; exact List.append_nil _) rfl
  | _ => exact .of_eq rfl rfl

theorem flushPsi_counters {k : Option Table} (e : h.flushPsiPackets = (k, h')) :
    h'.counters = h.counters ∧ h'.emitted = h.emitted := by
  obtain ⟨-, -, -, -, _, hh⟩ := flushPsi_rest e
  refine ⟨?_, by rw [emitted, hh, List.filterMap_append]; exact List.append_nil _⟩
  cases k with
  | none => obtain ⟨-, rfl⟩ := flushPsi_none e; rfl
  | some k => obtain ⟨-, -, rfl⟩ := flushPsi_some e; rfl

theorem OutputStep.accounts (s : OutputStep h h') : ∃ es, Accounts h h' es := by
  cases s with
  | flushPsi _ e => exact ⟨[], .of_eq (flushPsi_counters e).2 (flushPsi_counters e).1⟩
  | table _ e =>
    obtain ⟨hc, hh⟩ := flushPsi_counters e
    exact ⟨_, .one rfl hh (congrArg (Counters.add · .psi) hc) rfl⟩
  | null _ hk => exact ⟨_, .one rfl rfl rfl hk⟩
  | queued _ hk hp he =>
    obtain ⟨v, a, rfl⟩ := popped_eq hp
    obtain ⟨_, r, -, hsource, rfl, -⟩ := processPacket_eq he
    exact ⟨_, .one rfl rfl rfl (by rw [hsource]; exact hk)⟩
  | vbrTable _ e =>
    obtain ⟨hc, hh⟩ := flushPsi_counters e
    exact ⟨_, .one rfl hh (congrArg (Counters.add · .psi) hc) rfl⟩
  | vbrQueued _ hp =>
    obtain ⟨v, a, rfl⟩ := popped_eq hp
    exact ⟨_, .one rfl rfl rfl (.inl rfl)⟩
  | clock => exact ⟨[], .of_eq rfl rfl⟩
  | frame => exact ⟨[], .of_eq rfl rfl⟩

/-! ## One call -/

/-- **A call of `write` emits nothing and counts nothing.** -/
theorem write_accounts {chunk : Bytes} (e : h.write env chunk = .ok h') : Accounts h h' [] :=
  steps_invariant (P := fun g => Accounts h g []) (write_input e) (.refl h) fun s t => t.trans s.accounts

theorem outputSteps_accounts (s : ReflTransGen OutputStep h h') : ∃ es, Accounts h h' es :=
  steps_invariant (P := fun g => ∃ es, Accounts h g es) s ⟨[], .refl h⟩ fun s ⟨_, t⟩ =>
    s.accounts.imp' _ fun _ s => t.trans s

theorem emitted_cbr (hh : h'.history = h.history ++ es.map .cbr) : h'.emitted = h.emitted ++ es := by
  rw [emitted, hh, List.filterMap_append, List.filterMap_map]
  exact congrArg _ List.filterMap_some

/-- What a frame of constant bit rate is made of. -/
theorem flushPacketForCbr_emitted {out : Option Bytes} (e : h.flushPacketForCbr env = .ok (out, h')) :
    ∃ es, h'.emitted = h.emitted ++ es ∧ out.getD [] = (es.map Emitted.data).flatMap Packet.bytes := by
  rw [flushPacketForCbr] at e
  split_ifs at e with h0
  · cases e
    exact ⟨[], (List.append_nil _).symm, rfl⟩
  · have hr := isReady_of_not_idle h0
    have hf := (flushPsi_isReady h).1
    dsimp only at e
    split at e
    · rename_i k g hg
      rw [hg] at hf
      obtain ⟨⟨out', g'⟩, hslots, e⟩ := bind_eq_ok.1 e
      cases e
      obtain ⟨-, es, hh, hdata, -⟩ := cbrSlots_steps _ (by exact hf.trans hr) hslots
      refine ⟨{ source := .table k, data := g.tables.cache k, resync := none } :: es, ?_, ?_⟩
      · rw [emitted_cbr hh, List.append_cons, ← (flushPsi_counters hg).2]
        exact congrArg (· ++ es) (List.filterMap_append ..)
      · rw [List.map_cons, hdata]
        rfl
    · rename_i g hg
      rw [hg] at hf
      obtain ⟨⟨out', g'⟩, hslots, e⟩ := bind_eq_ok.1 e
      cases e
      obtain ⟨-, es, hh, hdata, -⟩ := cbrSlots_steps _ (by exact hf.trans hr) hslots
      refine ⟨es, ?_, by rw [hdata]; rfl⟩
      rw [emitted_cbr hh, (flushPsi_counters hg).2]

/-- **A frame of constant bit rate is what its call has counted.** -/
theorem flushPacketForCbr_accounts {out : Option Bytes} (e : h.flushPacketForCbr env = .ok (out, h')) :
    ∃ es, Accounts h h' es ∧ out.getD [] = (es.map Emitted.data).flatMap Packet.bytes := by
  obtain ⟨fs, s⟩ := outputSteps_accounts (flushPacketForCbr_output e)
  obtain ⟨es, hh, hout⟩ := flushPacketForCbr_emitted e
  exact ⟨es, s.eq_of_emitted hh, hout⟩

theorem drainLoop_traffic : ∀ {m : ℕ} {h h' : PacketHandler} {outs : List Bytes},
    h.drainLoop m = some (outs, h') → ReflTransGen OutputStep h h'
  | 0, h, h', outs, e => by cases e
  | m + 1, h, h', outs, e => by
    rw [drainLoop] at e
    have s := flushPacketForVbr_output h
    generalize h.flushPacketForVbr = fp at e s
    obtain ⟨out, g⟩ := fp
    cases out with
    | none => cases e; exact s
    | some out =>
      obtain ⟨⟨outs', h''⟩, e, he⟩ := Option.map_eq_some_iff.1 e
      cases he
      exact s.trans (drainLoop_traffic e)

theorem drainLoop_emitted : ∀ {m : ℕ} {h h' : PacketHandler} {outs : List Bytes}, h.Sized →
    h.drainLoop m = some (outs, h') →
    ∃ es, h'.emitted = h.emitted ++ es ∧ outs.flatten = (es.map Emitted.data).flatMap Packet.bytes
  | 0, h, h', outs, _, e => by cases e
  | m + 1, h, h', outs, hs, e => by
    cases hi : h.idle with
    | true =>
      obtain ⟨rfl, rfl⟩ := drainLoop_idle hi e
      exact ⟨[], (List.append_nil _).symm, rfl⟩
    | false =>
      simp only [idle, Bool.or_eq_false_iff, Bool.not_eq_false'] at hi
      rw [drainLoop] at e
      generalize hflush : h.flushPacketForVbr = fp at e
      obtain ⟨out, g⟩ := fp
      obtain ⟨es, s, hout, -⟩ := flushVbr_flushed hi.2 hi.1 (getPktSize_pos hs) hflush
      cases out with
      | none =>
        cases e
        exact ⟨es, s.sent, hout⟩
      | some out =>
        obtain ⟨⟨outs', h''⟩, e, he⟩ := Option.map_eq_some_iff.1 e
        cases he
        obtain ⟨fs, hfs, hrest⟩ := drainLoop_emitted (show g.Sized by rw [Sized, s.output]; exact hs) e
        refine ⟨es ++ fs, ?_, ?_⟩
        · rw [hfs, emitted, emitted, s.sent, List.append_assoc]
        · rw [List.flatten_cons, hrest, List.map_append, List.flatMap_append]
          exact congrArg (· ++ _) hout

/-- **What a drain returns is what its calls have counted.** -/
theorem drainLoop_accounts (hs : h.Sized) {m : ℕ} {outs : List Bytes} (e : h.drainLoop m = some (outs, h')) :
    ∃ es, Accounts h h' es ∧ outs.flatten = (es.map Emitted.data).flatMap Packet.bytes := by
  obtain ⟨fs, s⟩ := outputSteps_accounts (drainLoop_traffic e)
  obtain ⟨es, hh, hout⟩ := drainLoop_emitted hs e
  exact ⟨es, s.eq_of_emitted hh, hout⟩

/-! ## The pace -/

theorem PcrRestamper.processPacket_target (r : PcrRestamper) (p : Packet) :
    (r.processPacket p).2.1.targetBitrateBps = r.targetBitrateBps := by
  rw [PcrRestamper.processPacket]
  split_ifs
  · split <;> rfl
  · rfl

theorem processPacket_bitrate {pkt : TsPacket} {e : Emitted} (he : h.processPacket pkt = .ok (e, h')) :
    h'.getBitrate = h.getBitrate := by
  obtain ⟨program, r, -, -, rfl, -, hr, -⟩ := processPacket_eq he
  have hjump : (h.signalJump pkt).2.2.getBitrate = h.getBitrate := by
    rw [signalJump]
    split_ifs
    · rw [getBitrate, resync, getBitrate, Option.map_map]
      rfl
    · rfl
  have hstamp (g : PacketHandler) (data : Packet) : (g.stamp program pkt data).2.getBitrate = g.getBitrate := by
    rw [stamp]
    split_ifs
    · cases hg : g.pcrRestamper with
      | none => rfl
      | some r =>
        rw [getBitrate, getBitrate, hg]
        exact congrArg some (PcrRestamper.processPacket_target r data)
    · rfl
  exact (congrArg (Option.map _) hr).trans ((hstamp _ (h.signalJump pkt).1).trans hjump)

/-- **The rate of the clock, once it is known, never changes.** -/
theorem InputStep.getBitrate {b : ℕ} (hb : b ≠ 0) (s : InputStep env h h') (hp : h.getBitrate = some b) :
    h'.getBitrate = some b := by
  cases s with
  | push _ _ _ =>
    rw [PacketHandler.push]
    split_ifs <;> exact hp
  | drop _ hpop =>
    obtain ⟨v, a, rfl⟩ := popped_eq hpop
    exact hp
  | bitrate c _ =>
    obtain ⟨r, hr, rfl⟩ := Option.map_eq_some_iff.1 hp
    rw [PacketHandler.getBitrate, hr, Option.map_some, Option.map_some, if_neg hb]
  | ready _ _ =>
    obtain ⟨r, hr, rfl⟩ := Option.map_eq_some_iff.1 hp
    rw [PacketHandler.getBitrate, setReady, record, resync, hr]
    rfl
  | _ => exact hp

theorem OutputStep.getBitrate (s : OutputStep h h') : h'.getBitrate = h.getBitrate := by
  have hsent (g : PacketHandler) : (g.countSent 1).getBitrate = g.getBitrate := by
    rw [PacketHandler.getBitrate, countSent, PacketHandler.getBitrate, Option.map_map]
    rfl
  cases s with
  | flushPsi _ e => rw [PacketHandler.getBitrate, PacketHandler.getBitrate, (flushPsi_rest e).1]
  | @table g _ _ e =>
    refine (hsent g).trans ?_
    rw [PacketHandler.getBitrate, PacketHandler.getBitrate, (flushPsi_rest e).1]
  | null => exact hsent h
  | queued _ _ hp he =>
    refine (processPacket_bitrate he).trans ?_
    obtain ⟨v, a, rfl⟩ := popped_eq hp
    exact hsent h
  | vbrTable _ e => exact congrArg (Option.map _) (flushPsi_rest e).1
  | vbrQueued _ hp =>
    obtain ⟨v, a, rfl⟩ := popped_eq hp
    rfl
  | clock =>
    rw [PacketHandler.getBitrate, PacketHandler.getBitrate, Option.map_map]
    rfl
  | frame => rfl

end PacketHandler

end MyMuxer
