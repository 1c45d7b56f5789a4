import MyMuxer.Lib.Blocks
import MyMuxer.Mux.Clear
import MyMuxer.Mux.Delivered
import MyMuxer.Mux.Order
import MyMuxer.Mux.Sync

/-!
# From the input to the output, packet by packet (`mux.rs`)

* `Passing`: the queues may lose packets, and otherwise send what was pushed in its order.
* `Reads`: the packets of the queues are packets of the input, each from a place of its own.
* **`payload_carried`**: on a PID of the program the output carries packets of the input on that PID, descrambled, in
  their order; none comes out twice, and none but the flag and the PCR of its adaptation field is changed.
-/

namespace MyMuxer

open Relation Fifo Blocks

/-- What `process` makes of a packet of an audio or video PID. -/
def descrambled (biss : Option Biss1Descrambler) (p : Packet) : Packet :=
  biss.elim p fun b => (b.descrambleTsPacket p).2

/-- The queue of a PID. -/
def Queue.ofPid (program : Program) (pid : UInt16) : Queue := if pid ∈ program.videoPids then .video else .audio

theorem Queue.takes_ofPid {output : Output} {program : Program} (hprog : output.programs.head? = some program)
    (q : Queue) (pkt : TsPacket) : q.takes output pkt = decide (q = Queue.ofPid program pkt.pid) := by
  by_cases hv : pkt.pid ∈ program.videoPids <;> cases q <;> simp [Queue.takes, Queue.ofPid, hprog, hv]

namespace PacketHandler

variable {env : Env} {output : Output} {h h' h'' : PacketHandler}

/-! ## Through the queues -/

/-- What went out of a queue and what is in it were pushed to it in this order. -/
def Passing (h : PacketHandler) : Prop := ∀ q : Queue,
  Passed (fun pkt p => Restamped pkt.data p) (pushedTo h.output q h.history) (h.queue q)
    (emittedFrom h.output q h.history)

/-- A step without an event. -/
theorem Passing.keep (o : h.Passing) (ho : h'.output = h.output) (hh : h'.history = h.history)
    (hq : ∀ q, (h'.queue q).Sublist (h.queue q)) : h'.Passing := by
  intro q
  rw [ho, hh]
  exact (o q).lose (hq q)

/-- A step with one event, which feeds a queue, serves it, or neither. -/
theorem Passing.note {ev : Event} (o : h.Passing) (ho : h'.output = h.output) (hh : h'.history = h.history ++ [ev])
    (hstep : ∀ q fed out, Passed (fun pkt p => Restamped pkt.data p) fed (h.queue q) out →
      Passed (fun pkt p => Restamped pkt.data p) (fed ++ pushedTo h.output q [ev]) (h'.queue q)
        (out ++ emittedFrom h.output q [ev])) : h'.Passing := by
  intro q
  have hone := hstep q _ _ (o q)
  rw [ho, hh, pushedTo, emittedFrom, List.filterMap_append, List.filterMap_append]
  exact hone

/-- A step whose event pushes and sends nothing. -/
theorem Passing.other {ev : Event} (o : h.Passing) (ho : h'.output = h.output) (hh : h'.history = h.history ++ [ev])
    (hq : ∀ q, (h'.queue q).Sublist (h.queue q)) (hp : ∀ q, pushedBy h.output q ev = none)
    (he : ∀ q, emittedBy h.output q ev = none) : h'.Passing := by
  refine o.note ho hh fun q fed out hs => ?_
  simpa [pushedTo, emittedFrom, hp q, he q] using hs.lose (hq q)

/-- The packets that went to a queue, as they were read. -/
def pushedPackets (output : Output) (q : Queue) (history : List Event) : List Packet :=
  (pushedTo output q history).map TsPacket.data

/-- In between, bytes have left the front of the input, and what went to a queue since stood in them. -/
structure Reads (h h' : PacketHandler) : Prop where
  output_eq : h'.output = h.output
  biss : h'.biss = h.biss
  taken : ∃ consumed ps, h.inBuff = consumed ++ h'.inBuff ∧ Stands Packet.bytes ps consumed ∧
    ∀ q, (pushedPackets h.output q h'.history).Sublist
      (pushedPackets h.output q h.history ++ ps.map (descrambled h.biss))

namespace Reads

/-- Nothing is pushed, and what is left of the input is the end of it. -/
theorem still {d : ℕ} (ho : h'.output = h.output) (hb : h'.biss = h.biss) (hin : h'.inBuff = h.inBuff.drop d)
    (hpush : ∀ q, pushedTo h.output q h'.history = pushedTo h.output q h.history) : Reads h h' := by
  refine ⟨ho, hb, h.inBuff.take d, [], ?_, .nil _, fun q => ?_⟩
  · rw [hin, List.take_append_drop]
  · rw [pushedPackets, hpush q, List.map_nil, List.append_nil]
    exact .refl _

theorem refl (h : PacketHandler) : Reads h h := still (d := 0) rfl rfl rfl fun _ => rfl

theorem trans (r : Reads h h') (r' : Reads h' h'') : Reads h h'' := by
  obtain ⟨consumed, ps, hin, hps, hpush⟩ := r.taken
  obtain ⟨consumed', ps', hin', hps', hpush'⟩ := r'.taken
  refine ⟨r'.output_eq.trans r.output_eq, r'.biss.trans r.biss, consumed ++ consumed', ps ++ ps', ?_, hps.append hps',
    fun q => ?_⟩
  · rw [hin, hin', List.append_assoc]
  · have hpush' := hpush' q
    rw [r.output_eq, r.biss] at hpush'
    rw [List.map_append, ← List.append_assoc]
    exact hpush'.trans ((hpush q).append (.refl _))

/-- An event that pushes nothing. -/
theorem note {ev : Event} (ho : h'.output = h.output) (hb : h'.biss = h.biss) (hin : h'.inBuff = h.inBuff)
    (hh : h'.history = h.history ++ [ev]) (hev : ∀ pkt, ev ≠ .pushed pkt) : Reads h h' := by
  refine still (d := 0) ho hb hin fun q => ?_
  have hnone : pushedBy h.output q ev = none := by
    cases ev with
    | pushed pkt => exact absurd rfl (hev pkt)
    | _ => rfl
  rw [hh, pushedTo, List.filterMap_append, List.filterMap_cons_none hnone, List.filterMap_nil, List.append_nil]
  rfl

theorem buffersClear (h : PacketHandler) : Reads h h.buffersClear :=
  note rfl rfl rfl rfl fun _ e => by cases e

end Reads

/-- A packet of an audio or video PID is descrambled first, where there is a key. -/
theorem opened_descrambled {program : Program} {pkt p : Packet} {g : PacketHandler}
    (e : h.opened program pkt = some (g, p)) : (g = h ∨ g = { h with dirtyCa := false }) ∧
      (pktPid pkt.bytes ∈ program.videoPids ∨ pktPid pkt.bytes ∈ program.audioPids → p = descrambled h.biss pkt) := by
  have hplain (e : (if pktScramblingControl pkt.bytes ≠ 0 then none else some ({ h with dirtyCa := false }, pkt)) =
      some (g, p)) : g = { h with dirtyCa := false } ∧ p = pkt := by
    split_ifs at e
    cases e
    exact ⟨rfl, rfl⟩
  rw [opened] at e
  split at e
  · rename_i biss hbiss _
    cases e
    exact ⟨.inl rfl, fun _ => by rw [descrambled, hbiss]; rfl⟩
  · rename_i hno
    obtain ⟨hg, rfl⟩ := hplain e
    refine ⟨.inr hg, fun hmedia => ?_⟩
    have hnone : h.biss = none :=
      Option.eq_none_iff_forall_ne_some.2 fun biss hbiss => hno biss hbiss (decide_eq_true hmedia)
    rw [descrambled, hnone]
    rfl

/-- What one packet of the input makes of the history: it is pushed, or it is not. -/
theorem processTs_pushes {p : Packet} (e : h.processTs env p = .ok h') :
    h'.output = h.output ∧ h'.biss = h.biss ∧ h'.inBuff = h.inBuff ∧ (h'.history = h.history ∨
      ∃ pkt : TsPacket, pkt.data = descrambled h.biss p ∧ h'.history = h.history ++ [.pushed pkt]) := by
  obtain ⟨program, hprog, -⟩ := bind_eq_ok.1 e
  rw [processTs_eq hprog] at e
  cases hopened : h.opened program p with
  | none =>
    rw [hopened] at e
    cases e
    exact ⟨rfl, rfl, rfl, .inl rfl⟩
  | some gp =>
    obtain ⟨g, p'⟩ := gp
    rw [hopened] at e
    obtain ⟨hg, hp'⟩ := opened_descrambled hopened
    obtain ⟨ho, hb, hin, hh⟩ : g.output = h.output ∧ g.biss = h.biss ∧ g.inBuff = h.inBuff ∧ g.history = h.history := by
      rcases hg with rfl | rfl <;> exact ⟨rfl, rfl, rfl, rfl⟩
    obtain rfl | ⟨t, rfl, -⟩ | ⟨hmedia, e⟩ := processPid_cases e
    · exact ⟨ho, hb, hin, .inl hh⟩
    · exact ⟨ho, hb, hin, .inl hh⟩
    · obtain ⟨lastPtsDts, lastCc, ccErrors, rfl | ⟨pkt, hd, -, rfl⟩⟩ := processMedia_cases e
      · exact ⟨ho, hb, hin, .inl hh⟩
      · rw [push]
        split_ifs
        · exact ⟨ho, hb, hin, .inr ⟨pkt, hd.trans (hp' hmedia.symm), congrArg (· ++ [Event.pushed pkt]) hh⟩⟩
        · exact ⟨ho, hb, hin, .inr ⟨pkt, hd.trans (hp' hmedia.symm), congrArg (· ++ [Event.pushed pkt]) hh⟩⟩
        · exact ⟨ho, hb, hin, .inl hh⟩

/-- A packet is taken off the input. -/
theorem processTs_reads (hlen : tsPacketSize ≤ h.inBuff.length)
    (e : processTs env { h with inBuff := h.inBuff.drop tsPacketSize } (Packet.ofBytes (h.inBuff.take tsPacketSize)) =
      .ok h') : Reads h h' := by
  obtain ⟨ho, hb, hin, hh⟩ := processTs_pushes e
  dsimp only at ho hb hin hh
  have hbytes : (Packet.ofBytes (h.inBuff.take tsPacketSize)).bytes = h.inBuff.take tsPacketSize :=
    Packet.ofBytes_bytes_of_length (by rw [List.length_take, Nat.min_eq_left hlen]; rfl)
  refine ⟨ho, hb, h.inBuff.take tsPacketSize, [Packet.ofBytes (h.inBuff.take tsPacketSize)], ?_, ?_, fun q => ?_⟩
  · rw [hin]
    exact (List.take_append_drop tsPacketSize h.inBuff).symm
  · have hone : Stands Packet.bytes [Packet.ofBytes (h.inBuff.take tsPacketSize)]
        ([] ++ (Packet.ofBytes (h.inBuff.take tsPacketSize)).bytes) := .one _ []
    rw [hbytes] at hone
    exact hone
  · rcases hh with hh | ⟨pkt, hdata, hh⟩
    · rw [pushedPackets, hh]
      exact List.sublist_append_left _ _
    · have hone : ((pushedTo h.output q [.pushed pkt]).map TsPacket.data).Sublist
          [descrambled h.biss (Packet.ofBytes (h.inBuff.take tsPacketSize))] := by
        rw [pushedTo, List.filterMap_cons, pushedBy, ← hdata]
        split_ifs
        · exact .refl _
        · exact List.nil_sublist _
      rw [pushedPackets, hh, pushedTo, List.filterMap_append, List.map_append]
      exact (List.Sublist.refl _).append hone

theorem processLoop_reads : ∀ (n : ℕ) {h h' : PacketHandler} {synced : Bool}, n * tsPacketSize ≤ h.inBuff.length →
    processLoop env n h = .ok (synced, h') → Reads h h'
  | 0, h, h', synced, _, e => by cases e; exact .refl h
  | n + 1, h, h', synced, hlen, e => by
    rw [Nat.add_one_mul] at hlen
    rw [processLoop] at e
    split_ifs at e
    · obtain ⟨g, hg, e⟩ := bind_eq_ok.1 e
      have hin : g.inBuff = h.inBuff.drop tsPacketSize := (processTs_pushes hg).2.2.1
      refine (processTs_reads (by omega) hg).trans (processLoop_reads n ?_ e)
      rw [hin, List.length_drop]
      omega
    · cases e
      exact .note rfl rfl rfl rfl fun _ e => by cases e

/-! ## The other calls push nothing -/

theorem startOutput_reads (bitrate : ℕ) : Reads h (h.startOutput env bitrate) := by
  rw [startOutput]
  split_ifs
  · obtain ⟨v, a, hadjust⟩ := bufferAdjustLoop_eq (h.outBuffV.len + h.outBuffA.len) h
    rw [bufferAdjust, hadjust]
    dsimp only
    cases OutBuffer.front v with
    | none => exact .still (d := 0) rfl rfl rfl fun _ => rfl
    | some pkt => exact .note rfl rfl rfl rfl fun _ e => by cases e
  · exact .refl h

theorem becomeReady_reads (e : h.becomeReady env = .ok h') : Reads h h' := by
  rw [becomeReady] at e
  split_ifs at e
  · cases e; exact .refl h
  · cases e; exact .refl h
  · cases e; exact .refl h
  · obtain ⟨g, hg, e⟩ := bind_eq_ok.1 e
    have hfill : Reads h g := by
      rw [fillSdt] at hg
      split_ifs at hg
      · obtain ⟨program, -, hg⟩ := bind_eq_ok.1 hg
        obtain ⟨t, -, hg⟩ := bind_eq_ok.1 hg
        cases hg
        exact .still (d := 0) rfl rfl rfl fun _ => rfl
      · cases hg
        exact .refl h
    have hprobe : Reads g (g.probeBitrate env).2 := by
      rw [probeBitrate]
      dsimp only
      split_ifs
      · exact .still (d := 0) rfl rfl rfl fun _ => rfl
      · exact .refl g
    split at e
    · split_ifs at e
      · cases e
        exact hfill.trans (.buffersClear g)
      · cases e
        exact hfill.trans (hprobe.trans (startOutput_reads _))
    · cases e
      exact hfill

/-- **A call of `process`.** -/
theorem process_reads (e : h.process env = .ok h') : Reads h h' := by
  rw [process] at e
  obtain ⟨d, hd⟩ : ∃ d, (if h.isSync then (true, h.inBuff) else syncBuffer h.inBuff).2 = h.inBuff.drop d := by
    split_ifs
    · exact ⟨0, rfl⟩
    · obtain ⟨d, -, ⟨he, -⟩ | ⟨he, -⟩⟩ := syncBuffer_skips h.inBuff <;> exact ⟨d, by rw [he]⟩
  generalize (if h.isSync then (true, h.inBuff) else syncBuffer h.inBuff) = sb at e hd
  obtain ⟨isSync, inBuff⟩ := sb
  dsimp only at e hd
  have hsync : Reads h { h with isSync, inBuff } := .still rfl rfl hd fun _ => rfl
  generalize { h with isSync, inBuff } = g at e hsync
  have hclear : Reads g (if g.isBufferOverflow 2 then g.buffersClear else g) := by
    split_ifs
    · exact .buffersClear g
    · exact .refl g
  generalize (if g.isBufferOverflow 2 then g.buffersClear else g) = k at e hclear
  split_ifs at e
  · cases e; exact hsync
  · cases e; exact hsync.trans hclear
  · obtain ⟨⟨synced, k'⟩, e₁, e⟩ := bind_eq_ok.1 e
    have hloop := hsync.trans (hclear.trans (processLoop_reads _ (Nat.div_mul_le_self _ _) e₁))
    dsimp only at e
    split_ifs at e
    · exact hloop.trans (becomeReady_reads e)
    · cases e; exact hloop

theorem OutputStep.reads (s : OutputStep h h') : Reads h h' := by
  have hpsi {k : Option Table} {g : PacketHandler} (e : h.flushPsiPackets = (k, g)) : Reads h g := by
    cases k with
    | none =>
      obtain ⟨-, rfl⟩ := flushPsi_none e
      exact .note rfl rfl rfl rfl fun _ e => by cases e
    | some k =>
      obtain ⟨-, -, rfl⟩ := flushPsi_some e
      exact .note rfl rfl rfl rfl fun _ e => by cases e
  cases s with
  | flushPsi _ e => exact hpsi e
  | table _ e => exact (hpsi e).trans (.note rfl rfl rfl rfl fun _ e => by cases e)
  | null => exact .note rfl rfl rfl rfl fun _ e => by cases e
  | queued _ _ hp he =>
    obtain ⟨program, r, -, -, rfl, -⟩ := processPacket_eq he
    obtain ⟨v, a, rfl⟩ := popped_eq hp
    exact .note rfl rfl rfl rfl fun _ e => by cases e
  | vbrTable _ e => exact (hpsi e).trans (.note rfl rfl rfl rfl fun _ e => by cases e)
  | vbrQueued _ hp =>
    obtain ⟨v, a, rfl⟩ := popped_eq hp
    exact .note rfl rfl rfl rfl fun _ e => by cases e
  | clock => exact .still (d := 0) rfl rfl rfl fun _ => rfl
  | frame => exact .still (d := 0) rfl rfl rfl fun _ => rfl

/-! ## Runs -/

/-- The packets of the queues stood in the stream, one after another, in front of what is left of it. -/
def Stood (output : Output) (biss : Option Biss1Descrambler) (stream : Bytes) (h : PacketHandler) : Prop :=
  h.output = output ∧ h.biss = biss ∧ ∃ consumed ps, stream = consumed ++ h.inBuff ∧ Stands Packet.bytes ps consumed ∧
    ∀ q, (pushedPackets output q h.history).Sublist (ps.map (descrambled biss))

variable {biss : Option Biss1Descrambler} {stream : Bytes}

theorem Stood.reads (o : Stood output biss stream h) (r : Reads h h') : Stood output biss stream h' := by
  obtain ⟨rfl, rfl, consumed, ps, hstream, hps, hpush⟩ := o
  obtain ⟨consumed', ps', hin, hps', hpush'⟩ := r.taken
  refine ⟨r.output_eq, r.biss, consumed ++ consumed', ps ++ ps', ?_, hps.append hps', fun q => ?_⟩
  · rw [hstream, hin, List.append_assoc]
  · rw [List.map_append]
    exact (hpush' q).trans ((hpush q).append (.refl _))

/-- More of the stream comes in; before that the input may be given up. -/
theorem Stood.write (o : Stood output biss stream h) {chunk : Bytes} (e : h.write env chunk = .ok h') :
    Stood output biss (stream ++ chunk) h' := by
  obtain ⟨ho, hb, consumed, ps, hstream, hps, hpush⟩ := o
  rw [PacketHandler.write] at e
  split_ifs at e
  · refine Stood.reads (h := { h with inBuff := [] ++ chunk, isSync := false }) ⟨ho, hb, stream, ps, rfl, ?_, hpush⟩
      (process_reads e)
    rw [hstream]
    have hall : Stands Packet.bytes (ps ++ []) (consumed ++ h.inBuff) := hps.append (.nil h.inBuff)
    rwa [List.append_nil] at hall
  · refine Stood.reads (h := { h with inBuff := h.inBuff ++ chunk }) ⟨ho, hb, consumed, ps, ?_, hps, hpush⟩
      (process_reads e)
    rw [hstream, List.append_assoc]

theorem Stood.call (o : Stood output biss stream h) {op : Op} {out : Option Bytes}
    (e : h.call env op = .ok (out, h')) : Stood output biss (stream ++ op.chunk) h' := by
  have hflush (s : ReflTransGen OutputStep h h') : Stood output biss (stream ++ []) h' := by
    rw [List.append_nil]
    exact steps_invariant s o fun s o => o.reads s.reads
  cases op with
  | write chunk =>
    obtain ⟨g, hg, e⟩ := bind_eq_ok.1 e
    cases e
    exact o.write hg
  | flushPacketForCbr => exact hflush (flushPacketForCbr_output e)
  | flushPacketForVbr =>
    have e : h.flushPacketForVbr.2 = h' := congrArg Prod.snd (Except.ok.inj e)
    exact hflush (e ▸ flushPacketForVbr_output h)
  | flushFrame =>
    have e : h.flushFrame.2 = h' := congrArg Prod.snd (Except.ok.inj e)
    exact hflush (e ▸ flushFrame_output h)

/-! ## What the output carries -/

/-- **What goes out on a PID of the program comes from the queue of the PID.** -/
theorem filter_emittedFrom {program : Program} (hsep : Separate program) (hprog : h.output.programs = [program])
    (hs : h.SentOk) {pid : UInt16} (hnamed : Named program pid) (hres : pid ∉ reservedPids) :
    (sentPackets h.history).filter (fun p => pktPid p.bytes = pid) =
      (emittedFrom h.output (Queue.ofPid program pid) h.history).filter fun p => pktPid p.bytes = pid := by
  have hhead : h.output.programs.head? = some program := by rw [hprog]; rfl
  have hone : ∀ history : List Event, (∀ ev ∈ history, ev ∈ h.history) →
      (sentPackets history).filter (fun p => pktPid p.bytes = pid) =
        (emittedFrom h.output (Queue.ofPid program pid) history).filter fun p => pktPid p.bytes = pid := by
    intro history hsub
    induction history with
    | nil => rfl
    | cons ev history ih =>
      have ih := ih fun ev hev => hsub ev (List.mem_cons_of_mem _ hev)
      cases he : Event.sent ev with
      | none =>
        have hnone : emittedBy h.output (Queue.ofPid program pid) ev = none := by rw [emittedBy, he]; rfl
        rw [sentPackets, emittedFrom, List.filterMap_cons_none he, List.filterMap_cons_none hnone]
        exact ih
      | some e =>
        have hok := hs ev (hsub ev List.mem_cons_self) e he
        rw [IsSent, hprog] at hok
        rw [sentPackets, List.filterMap_cons_some he, List.map_cons]
        cases hsrc : e.source with
        | table k =>
          rw [hsrc] at hok
          obtain ⟨program', hp, ht⟩ := hok
          cases List.mem_singleton.1 hp
          have hpid : pktPid e.data.bytes ≠ pid := ht.pid ▸ (hsep.other_pid k (.inr ⟨hnamed, hres⟩)).symm
          have hnone : emittedBy h.output (Queue.ofPid program pid) ev = none := by
            rw [emittedBy, he, Option.bind_some, hsrc]
          rw [emittedFrom, List.filterMap_cons_none hnone, List.filter_cons_of_neg (by simpa using hpid)]
          exact ih
        | null =>
          rw [hsrc] at hok
          have hpid : pktPid e.data.bytes ≠ pid := by
            rw [show e.data = tsNullPacket from hok, show pktPid tsNullPacket.bytes = 0x1FFF by decide +kernel]
            rintro rfl
            exact hres (by decide)
          have hnone : emittedBy h.output (Queue.ofPid program pid) ev = none := by
            rw [emittedBy, he, Option.bind_some, hsrc]
          rw [emittedFrom, List.filterMap_cons_none hnone, List.filter_cons_of_neg (by simpa using hpid)]
          exact ih
        | queued pkt =>
          rw [hsrc] at hok
          obtain ⟨program', hp, hm, hr⟩ := hok
          cases List.mem_singleton.1 hp
          have hpid : pktPid e.data.bytes = pkt.pid := hr.pid.trans hm.pid
          have hby : emittedBy h.output (Queue.ofPid program pid) ev =
              if Queue.ofPid program pid = Queue.ofPid program pkt.pid then some e.data else none := by
            rw [emittedBy, he, Option.bind_some, hsrc]
            dsimp only
            rw [Queue.takes_ofPid hhead]
            simp only [decide_eq_true_eq]
          by_cases heq : pkt.pid = pid
          · rw [heq, if_pos rfl] at hby
            rw [emittedFrom, List.filterMap_cons_some hby, List.filter_cons_of_pos (by simp [hpid, heq]),
              List.filter_cons_of_pos (by simp [hpid, heq])]
            exact congrArg (e.data :: ·) ih
          · have hne : pktPid e.data.bytes ≠ pid := hpid ▸ heq
            rw [List.filter_cons_of_neg (by simpa using hne), emittedFrom]
            split_ifs at hby
            · rw [List.filterMap_cons_some hby, List.filter_cons_of_neg (by simpa using hne)]
              exact ih
            · rw [List.filterMap_cons_none hby]
              exact ih
  exact hone h.history fun _ => id

theorem descrambled_pid (biss : Option Biss1Descrambler) (p : Packet) :
    pktPid (descrambled biss p).bytes = pktPid p.bytes := by
  cases biss with
  | none => rfl
  | some biss =>
    change pktPid (biss.descrambleTsPacket p).2.bytes = _
    rw [pktPid, descramble_byte biss p (by norm_num), descramble_byte biss p (by norm_num)]
    rfl

/-- What goes out of a queue stood in the input. -/
theorem Passing.stood (o : h.Passing) {ps : List Packet} {q : Queue}
    (hps : (pushedPackets h.output q h.history).Sublist (ps.map (descrambled biss))) :
    List.SublistForall₂ (fun out p => Restamped (descrambled biss p) out) (emittedFrom h.output q h.history) ps := by
  have hpushed : List.SublistForall₂ (fun out p => Restamped p out) (emittedFrom h.output q h.history)
      (pushedPackets h.output q h.history) := List.sublistForall₂_map_right_iff.2 (o q).among
  obtain ⟨l, hl, hsub⟩ := List.sublistForall₂_iff.1 hpushed
  exact List.sublistForall₂_map_right_iff.1 (List.sublistForall₂_iff.2 ⟨l, hl, hsub.trans hps⟩)

/-- **What every call keeps**, of a muxer and of the bytes it has been given. -/
structure Carrying (env : Env) (output : Output) (stream : Bytes) (h : PacketHandler) : Prop where
  good : Good h
  sent : h.SentOk
  passing : h.Passing
  stood : Stood output (initBiss env output.bissKey) stream h

/-- What goes out on a PID of the program stood in the stream. -/
theorem Carrying.carried {program : Program} (c : Carrying env output stream h) (hprog : output.programs = [program])
    (hsep : Separate program) : ∃ ps, Stands Packet.bytes ps stream ∧
      ∀ pid, Named program pid → pid ∉ reservedPids →
        List.SublistForall₂ (fun out p => Restamped (descrambled (initBiss env output.bissKey) p) out)
          ((sentPackets h.history).filter fun p => pktPid p.bytes = pid)
          (ps.filter fun p => pktPid p.bytes = pid) := by
  obtain ⟨ho, -, consumed, ps, hstream, hps, hpush⟩ := c.stood
  refine ⟨ps, ?_, fun pid hnamed hres => ?_⟩
  · have hall : Stands Packet.bytes (ps ++ []) (consumed ++ h.inBuff) := hps.append (.nil h.inBuff)
    rwa [List.append_nil, ← hstream] at hall
  · rw [filter_emittedFrom hsep (ho ▸ hprog) c.sent hnamed hres]
    refine sublistForall₂_filter (fun out p hr => ?_) (c.passing.stood (ho ▸ hpush (Queue.ofPid program pid)))
    rw [hr.pid, descrambled_pid]

end PacketHandler

end MyMuxer
