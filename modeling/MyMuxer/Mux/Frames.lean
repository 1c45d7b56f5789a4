import MyMuxer.Mux.Runs

/-!
# Frames of constant bit rate

* `sentTables`: the packets of one table, in the order they went out; `TablesInOrder`: the invariant
  that their counters rise by one.
* `sentSince`: how many packets went out since the clock was set; `Counted`: the clock counts them.
* **`cbr_frames`**: what every frame is made of, in every run.
-/

namespace MyMuxer

open Relation Psi

namespace PacketHandler

/-! ## Tables in order -/

/-- The packet of table `k` that an event sends out. -/
def sentTable (k : Table) : Event → Option Packet
  | .cbr e | .vbr e =>
    match e.source with
    | .table j => if j = k then some e.data else none
    | _ => none
  | _ => none

def sentTables (k : Table) (history : List Event) : List Packet := history.filterMap (sentTable k)

/-- The packets of a table follow each other by their counters, and the last of them is cached. -/
structure TableInOrder (h : PacketHandler) (k : Table) : Prop where
  chain : (sentTables k h.history).IsChain CcNext
  last : ∀ p ∈ (sentTables k h.history).getLast?, p = h.tables.cache k
  none_before : h.tables.ready k = false → sentTables k h.history = []

def TablesInOrder (h : PacketHandler) : Prop := ∀ k, h.TableInOrder k

theorem Fresh.tablesInOrder {output : Output} {h : PacketHandler} (f : Fresh output h) : h.TablesInOrder := by
  intro k
  have hs : sentTables k h.history = [] := by rw [f.history]; rfl
  exact ⟨by rw [hs]; exact .nil, by rw [hs]; simp, fun _ => hs⟩

/-- A step that sends no table and leaves the caches alone. -/
theorem TablesInOrder.of_eq {h h' : PacketHandler} (o : h.TablesInOrder) (ht : h'.tables = h.tables)
    (hh : ∀ k, sentTables k h'.history = sentTables k h.history) : h'.TablesInOrder := by
  intro k
  obtain ⟨h1, h2, h3⟩ := o k
  exact ⟨by rw [hh k]; exact h1, by rw [hh k, ht]; exact h2, by rw [hh k, ht]; exact h3⟩

theorem sentTables_record {h : PacketHandler} {e : Event} {k : Table} (he : sentTable k e = none) :
    sentTables k (h.record e).history = sentTables k h.history := by
  simp [sentTables, record, List.filterMap_append, he]

/-- The next packet of a table goes out. -/
theorem TablesInOrder.send {h h' : PacketHandler} {k : Table} (o : h.TablesInOrder)
    (hr : h.tables.ready k = true) (ht : h'.tables = h.tables.next k)
    (hh : ∀ j, sentTables j h'.history = sentTables j h.history ++
      if j = k then [pktNext (h.tables.cache k)] else []) : h'.TablesInOrder := by
  intro j
  obtain ⟨h1, h2, h3⟩ := o j
  have hc := Tables.next_cache h.tables k j
  have hready : h'.tables.ready j = h.tables.ready j := by rw [ht, Tables.next_ready]
  by_cases hj : j = k
  · subst hj
    refine ⟨?_, ?_, fun hn => absurd (hr.symm.trans (hready.symm.trans hn)) (by decide)⟩
    · rw [hh j, if_pos rfl, List.isChain_append]
      refine ⟨h1, .singleton _, fun p hp q hq => ?_⟩
      cases hq
      rw [CcNext, pktNext_cc, h2 p hp]
    · rw [hh j, if_pos rfl, ht, hc, if_pos rfl]
      simp
  · refine ⟨?_, ?_, ?_⟩ <;> rw [hh j, if_neg hj, List.append_nil]
    · exact h1
    · rw [ht, hc, if_neg hj]; exact h2
    · rw [hready]; exact h3

theorem flushPsi_inOrder {h h' : PacketHandler} (e : h.flushPsiPackets = (none, h')) (o : h.TablesInOrder) :
    h'.TablesInOrder := by
  obtain ⟨-, rfl⟩ := flushPsi_none e
  exact o.of_eq rfl fun k => sentTables_record rfl

/-- Either kind of output records a table it sends. -/
theorem table_inOrder {h h' h'' : PacketHandler} {k : Table} {e : Event}
    (hf : h.flushPsiPackets = (some k, h')) (ht : h''.tables = h'.tables) (hh : h''.history = h'.history ++ [e])
    (he : ∀ j, sentTable j e = if k = j then some (h'.tables.cache k) else none) (o : h.TablesInOrder) :
    h''.TablesInOrder := by
  obtain ⟨hdue, -, rfl⟩ := flushPsi_some hf
  rw [due, Bool.and_eq_true] at hdue
  refine o.send hdue.1 ht fun j => ?_
  have hcache : (h.tables.next k).cache k = pktNext (h.tables.cache k) := by
    rw [Tables.next_cache, if_pos rfl]
  rw [hh, sentTables, List.filterMap_append]
  change sentTables j (record _ _).history ++ _ = _
  rw [sentTables_record rfl, List.filterMap_cons, he j]
  by_cases hj : k = j
  · subst hj
    simp only [if_true, List.filterMap_nil]
    exact congrArg (fun p => _ ++ [p]) hcache
  · simp [hj, Ne.symm hj, sentTables]

theorem mux_inOrder {h h' : PacketHandler} (s : MuxStep h h') (o : h.TablesInOrder) : h'.TablesInOrder := by
  cases s with
  | input => exact o.of_eq rfl fun _ => rfl
  | @tables program t hprog hg =>
    intro k
    obtain ⟨h1, h2, h3⟩ := o k
    cases hr : h.tables.ready k with
    | false =>
      have hs : sentTables k h.history = [] := h3 hr
      exact ⟨by simp [hs], by simp [hs], fun _ => hs⟩
    | true =>
      refine ⟨h1, fun p hp => (h2 p hp).trans ((hg k).1 hr).2.symm, fun hn => ?_⟩
      exact absurd (((hg k).1 hr).1.symm.trans hn) (by decide)
  | @push program pkt _ _ =>
    rw [PacketHandler.push]
    split_ifs
    · exact o.of_eq rfl fun k => sentTables_record (h := { h with outBuffV := _ }) rfl
    · exact o.of_eq rfl fun k => sentTables_record (h := { h with outBuffA := _ }) rfl
    · exact o
  | clear => exact o.of_eq rfl fun k => sentTables_record rfl
  | drop _ hp =>
    obtain ⟨v, a, rfl⟩ := popped_eq hp
    exact o.of_eq rfl fun _ => rfl
  | bitrate => exact o.of_eq rfl fun _ => rfl
  | ready => exact o.of_eq rfl fun k => sentTables_record rfl
  | flushPsi _ e => exact flushPsi_inOrder e o
  | table _ e => exact table_inOrder e rfl rfl (fun _ => rfl) o
  | null => exact o.of_eq rfl fun k => sentTables_record rfl
  | @queued h1 h2 pkt e hr hp he =>
    obtain ⟨_, r, -, hsrc, rfl, -⟩ := processPacket_eq he
    have hnone : ∀ k, sentTable k (.cbr e) = none := fun k => by rw [sentTable, hsrc]
    obtain ⟨v, a, rfl⟩ := popped_eq hp
    exact o.of_eq rfl fun k => sentTables_record (hnone k)

theorem vbr_inOrder {h h' : PacketHandler} (s : VbrStep h h') (o : h.TablesInOrder) : h'.TablesInOrder := by
  cases s with
  | table _ e => exact table_inOrder e rfl rfl (fun _ => rfl) o
  | queued _ hp =>
    obtain ⟨v, a, rfl⟩ := popped_eq hp
    exact o.of_eq rfl fun k => sentTables_record rfl
  | clock => exact o.of_eq rfl fun _ => rfl
  | frame => exact o.of_eq rfl fun _ => rfl

/-! ## Counting packets -/

/-- One event's share in the count: the clock is set, or a packet goes out. -/
def countEvent (output : Output) (n : ℕ) : Event → ℕ
  | .ready _ _ _ => 0
  | .cbr e => if e.resync.isSome || isPcrPacket output e.data then 0 else n + 1
  | _ => n

/-- The packets sent since the clock was last set, by `resync` or by a PCR. -/
def sentSince (output : Output) (history : List Event) : ℕ := history.foldl (countEvent output) 0

/-- The clock counts the packets. -/
def Counted (h : PacketHandler) : Prop :=
  ∀ r, h.pcrRestamper = some r → r.totalPacketsSent = sentSince h.output h.history

theorem sentSince_append (output : Output) (history : List Event) (e : Event) :
    sentSince output (history ++ [e]) = countEvent output (sentSince output history) e := by
  simp [sentSince]

/-- A step that neither touches the clock nor sends anything. -/
theorem Counted.keep {h h' : PacketHandler} (c : h.Counted) (hr : h'.pcrRestamper = h.pcrRestamper)
    (ho : h'.output = h.output) (hh : h'.history = h.history) : h'.Counted := by
  intro r e
  rw [ho, hh]
  exact c r (hr ▸ e)

/-- The same, with an event that does not count. -/
theorem Counted.note {h h' : PacketHandler} {e : Event} (c : h.Counted)
    (hr : h'.pcrRestamper = h.pcrRestamper) (ho : h'.output = h.output)
    (hh : h'.history = h.history ++ [e]) (he : ∀ n, countEvent h.output n e = n) : h'.Counted := by
  intro r hr'
  rw [ho, hh, sentSince_append, he]
  exact c r (hr ▸ hr')

theorem countSent_eq {h : PacketHandler} {r : PcrRestamper} (hr : h.pcrRestamper = some r) (n : ℕ) :
    (h.countSent n).pcrRestamper = some { r with totalPacketsSent := r.totalPacketsSent + n } := by
  rw [countSent, hr]; rfl

/-- A packet without a PCR goes out, and the clock counts it. -/
theorem Counted.plain {h : PacketHandler} {e : Emitted} (c : h.Counted) (hn : e.resync = none)
    (hp : isPcrPacket h.output e.data = false) : ((h.countSent 1).record (.cbr e)).Counted := by
  intro r hr
  obtain ⟨q, hq⟩ : ∃ q, h.pcrRestamper = some q := by
    cases hq : h.pcrRestamper with
    | none => rw [record, countSent, hq] at hr; cases hr
    | some q => exact ⟨q, rfl⟩
  cases hr.symm.trans (countSent_eq hq 1)
  change q.totalPacketsSent + 1 = sentSince h.output (h.history ++ [.cbr e])
  rw [sentSince_append, countEvent, hn, hp, c q hq]
  rfl

/-- A packet without an adaptation field carries no PCR. -/
theorem not_pcr_of_afControl {output : Output} {p : Packet} (h : afControl p.bytes = 1) :
    isPcrPacket output p = false := by
  have : pktIsPcrPresent p.bytes = false := by rw [pktIsPcrPresent, h]; rfl
  rw [isPcrPacket, this]
  split <;> simp

theorem null_afControl : afControl tsNullPacket.bytes = 1 := by decide +kernel

theorem mux_counted {h h' : PacketHandler} (s : MuxStep h h') (g : Good h) (c : h.Counted) : h'.Counted := by
  cases s with
  | input => exact c.keep rfl rfl rfl
  | tables => exact c.keep rfl rfl rfl
  | @push program pkt _ _ =>
    rw [PacketHandler.push]
    split_ifs
    · exact c.note rfl rfl rfl fun _ => rfl
    · exact c.note rfl rfl rfl fun _ => rfl
    · exact c
  | clear => exact c.note rfl rfl rfl fun _ => rfl
  | drop _ hp =>
    obtain ⟨v, a, rfl⟩ := popped_eq hp
    exact c.keep rfl rfl rfl
  | @bitrate r b _ hr _ =>
    intro q e
    cases e
    exact c r hr
  | @ready pkt _ _ _ _ =>
    intro r e
    obtain ⟨q, hq⟩ := g.restamper
    rw [setReady, resync, hq] at e
    cases e
    exact (sentSince_append h.output h.history (.ready _ _ _)).symm
  | flushPsi _ e =>
    obtain ⟨hr, ho, -, -, _, hh⟩ := flushPsi_rest e
    exact c.note hr ho hh fun _ => rfl
  | @table h1 k _ e =>
    obtain ⟨hr, ho, -, -, _, hh⟩ := flushPsi_rest e
    obtain ⟨_, -, ht⟩ := (g.flushPsi e).cached k (flushPsi_ready e)
    exact (c.note hr ho hh fun _ => rfl).plain rfl (not_pcr_of_afControl ht.afControl)
  | null => exact c.plain rfl (not_pcr_of_afControl null_afControl)
  | @queued h1 h2 pkt e hready hp he =>
    obtain ⟨g1, program, hprog, hm⟩ := (countSent_good g 1).popped hp
    obtain ⟨r, hr1⟩ := g1.restamper
    obtain ⟨r', rfl, spec⟩ := processPacket_spec hr1 hm.pid he
    have hfst := (g1.clocked ((popped_isReady hp).1.trans hready) r hr1).2
    obtain ⟨hh, ho, hr⟩ := popped_rest hp
    have htotal : r.totalPacketsSent = sentSince h.output h.history + 1 := by
      obtain ⟨q, hq⟩ := g.restamper
      cases hr1.symm.trans (hr.trans (countSent_eq hq 1))
      rw [← c q hq]
    intro q hq
    cases hq
    change r'.totalPacketsSent = sentSince h1.output (h1.history ++ [.cbr e])
    rw [sentSince_append, hh, ho, countEvent]
    change _ = if e.resync.isSome || isPcrPacket h.output e.data then 0 else sentSince h.output h.history + 1
    cases hpcr : isPcrPacket h1.output e.data with
    | true =>
      obtain ⟨p, hg⟩ := getPcr_isSome ((clockFor_clock h1 pkt r).2 hfst)
      rw [(spec.stamped hpcr p hg).2, if_pos]
      rw [show h.output = h1.output from ho.symm, hpcr, Bool.or_true]
    | false =>
      rw [spec.plain hpcr, show h.output = h1.output from ho.symm, hpcr, Bool.or_false, spec.resync, clockFor]
      cases h3 : h1.needsResync pkt with
      | true => rfl
      | false => rw [ho]; exact htotal

theorem vbr_counted {h h' : PacketHandler} (s : VbrStep h h') (c : h.Counted) : h'.Counted := by
  cases s with
  | table _ e =>
    obtain ⟨hr, ho, -, -, _, hh⟩ := flushPsi_rest e
    exact (c.note hr ho hh fun _ => rfl).note rfl rfl rfl fun _ => rfl
  | queued _ hp =>
    obtain ⟨hh, ho, hr⟩ := popped_rest hp
    exact (c.keep hr ho hh).note rfl rfl rfl fun _ => rfl
  | clock =>
    intro r hr
    cases hq : h.pcrRestamper with
    | none => rw [hq] at hr; cases hr
    | some q => rw [hq] at hr; cases hr; exact c q hq
  | frame => exact c.keep rfl rfl rfl

/-! ## What goes out -/

/-- A packet of the output: a table, stuffing, or a packet of a configured PID. -/
structure IsOutput (output : Output) (p : Packet) : Prop where
  sync : byte p.bytes 0 = tsSyncByte
  pid : pktPid p.bytes = 0x1FFF ∨ ∃ program ∈ output.programs, pktPid p.bytes = 0x0000 ∨
    pktPid p.bytes = program.pmtPid ∨ pktPid p.bytes = 0x0011 ∨ pktPid p.bytes ∈ program.audioPids ∨
    pktPid p.bytes ∈ program.videoPids

/-- What a packet of the output is, by its source. -/
def IsSent (output : Output) (e : Emitted) : Prop :=
  match e.source with
  | .table k => ∃ program ∈ output.programs, IsTablePacket (k.pid program) e.data
  | .null => e.data = tsNullPacket
  | .queued pkt => ∃ program ∈ output.programs, IsMedia program pkt ∧ Restamped pkt.data e.data

theorem IsSent.isOutput {output : Output} {e : Emitted} (h : IsSent output e) : IsOutput output e.data := by
  rw [IsSent] at h
  split at h
  · rename_i k _
    obtain ⟨program, hmem, ht⟩ := h
    refine ⟨ht.sync, .inr ⟨program, hmem, ?_⟩⟩
    rw [ht.pid]
    cases k with
    | pat => exact .inl rfl
    | pmt => exact .inr (.inl rfl)
    | sdt => exact .inr (.inr (.inl rfl))
  · rw [h]
    exact ⟨by decide +kernel, .inl (by decide +kernel)⟩
  · rename_i pkt _
    obtain ⟨program, hmem, hm, hp⟩ := h
    refine ⟨(hp.outside 0 (by omega)).trans hm.sync, .inr ⟨program, hmem, ?_⟩⟩
    rw [hp.pid, hm.pid]
    exact hm.mem.elim (fun h => .inr (.inr (.inr (.inr h)))) fun h => .inr (.inr (.inr (.inl h)))

/-- Every packet sent is a packet of the output. -/
def SentOk (h : PacketHandler) : Prop := ∀ ev ∈ h.history, ∀ e ∈ Event.sent ev, IsSent h.output e

theorem program_mem {h : PacketHandler} {program : Program} (e : h.getProgram = .ok program) :
    program ∈ h.output.programs := List.mem_of_mem_head? (getProgram_eq e)

theorem SentOk.note {h h' : PacketHandler} {ev : Event} (c : h.SentOk) (ho : h'.output = h.output)
    (hh : h'.history = h.history ++ [ev]) (he : ∀ e ∈ Event.sent ev, IsSent h.output e) : h'.SentOk := by
  intro ev' hmem e hev
  rw [ho]
  rw [hh, List.mem_append, List.mem_singleton] at hmem
  rcases hmem with hmem | rfl
  · exact c ev' hmem e hev
  · exact he e hev

theorem SentOk.keep {h h' : PacketHandler} (c : h.SentOk) (ho : h'.output = h.output)
    (hh : h'.history = h.history) : h'.SentOk := by
  intro ev hmem e hev
  rw [ho]
  exact c ev (hh ▸ hmem) e hev

theorem table_isSent {h : PacketHandler} (g : Good h) {k : Table} (hk : h.tables.ready k = true) :
    IsSent h.output { source := .table k, data := h.tables.cache k, resync := none } := by
  obtain ⟨program, hprog, ht⟩ := g.cached k hk
  exact ⟨program, program_mem hprog, ht⟩

/-- A call of `flush_psi_packets` sends nothing by itself. -/
theorem flushPsi_sentOk {h h' : PacketHandler} {k : Option Table} (e : h.flushPsiPackets = (k, h'))
    (c : h.SentOk) : h'.SentOk := by
  obtain ⟨-, ho, -, -, _, hh⟩ := flushPsi_rest e
  exact c.note ho hh fun _ h => by cases h

theorem mux_sentOk {h h' : PacketHandler} (s : MuxStep h h') (g : Good h) (c : h.SentOk) : h'.SentOk := by
  cases s with
  | @push program pkt _ _ =>
    rw [PacketHandler.push]
    split_ifs
    · exact c.note rfl rfl fun _ h => by cases h
    · exact c.note rfl rfl fun _ h => by cases h
    · exact c
  | clear | ready => exact c.note rfl rfl fun _ h => by cases h
  | drop _ hp => exact c.keep (popped_rest hp).2.1 (popped_rest hp).1
  | flushPsi _ e => exact flushPsi_sentOk e c
  | @table h1 k _ e =>
    have ht := table_isSent (g.flushPsi e) (flushPsi_ready e)
    exact (flushPsi_sentOk e c).note rfl rfl fun _ h => by cases h; exact ht
  | null => exact c.note rfl rfl fun _ h => by cases h; rfl
  | @queued h1 h2 pkt e hready hp he =>
    obtain ⟨g1, program, hprog, hm⟩ := (countSent_good g 1).popped hp
    obtain ⟨r, hr1⟩ := g1.restamper
    obtain ⟨r', rfl, spec⟩ := processPacket_spec hr1 hm.pid he
    obtain ⟨hh, ho, -⟩ := popped_rest hp
    have hout : IsSent h1.output e := by
      rw [IsSent, spec.source]
      exact ⟨program, ho ▸ program_mem hprog, hm, spec.restamped⟩
    exact (c.keep ho hh).note rfl rfl fun _ h => by cases h; exact hout
  | _ => exact c.keep rfl rfl

theorem vbr_sentOk {h h' : PacketHandler} (s : VbrStep h h') (g : Good h) (c : h.SentOk) : h'.SentOk := by
  cases s with
  | table _ e =>
    have ht := table_isSent (g.flushPsi e) (flushPsi_ready e)
    exact (flushPsi_sentOk e c).note rfl rfl fun _ h => by cases h; exact ht
  | queued _ hp =>
    obtain ⟨-, program, hprog, hm⟩ := g.popped hp
    obtain ⟨hh, ho, -⟩ := popped_rest hp
    refine (c.keep ho hh).note rfl rfl fun _ h => ?_
    cases h
    exact ⟨program, ho ▸ program_mem hprog, hm, .refl _⟩
  | clock | frame => exact c.keep rfl rfl

/-- The packets of a table are packets of its PID. -/
theorem SentOk.table {h : PacketHandler} (c : h.SentOk) {k : Table} {p : Packet}
    (hp : p ∈ sentTables k h.history) : ∃ program ∈ h.output.programs, IsTablePacket (k.pid program) p := by
  obtain ⟨ev, hmem, hev⟩ := List.mem_filterMap.1 hp
  have hsent (e : Emitted) (he : Event.sent ev = some e)
      (hs : (match e.source with | .table j => if j = k then some e.data else none | _ => none) = some p) :
      ∃ program ∈ h.output.programs, IsTablePacket (k.pid program) p := by
    have hok := c ev hmem e he
    rw [IsSent] at hok
    split at hs
    · rename_i j hj
      split_ifs at hs with hjk
      cases hs
      subst hjk
      rw [hj] at hok
      exact hok
    · cases hs
  cases ev with
  | cbr e => exact hsent e rfl hev
  | vbr e => exact hsent e rfl hev
  | _ => cases hev

/-- The invariants of this module, with the one they rest on. -/
structure InOrder (h : PacketHandler) : Prop where
  good : Good h
  tables : h.TablesInOrder
  counted : h.Counted
  sent : h.SentOk

theorem any_inOrder {h h' : PacketHandler} (s : AnyStep h h') (i : h.InOrder) : h'.InOrder :=
  ⟨any_good s i.good, s.elim (mux_inOrder · i.tables) (vbr_inOrder · i.tables),
    s.elim (mux_counted · i.good i.counted) (vbr_counted · i.counted),
    s.elim (mux_sentOk · i.good i.sent) (vbr_sentOk · i.good i.sent)⟩

theorem Fresh.inOrder {output : Output} {h : PacketHandler} (f : Fresh output h) (hp : output.proxy = false) :
    h.InOrder where
  good := f.good hp
  tables := f.tablesInOrder
  counted r hr := by rw [f.pcrRestamper, hp] at hr; cases hr; rw [f.history]; rfl
  sent ev he := by rw [f.history] at he; cases he

/-- **Frames of constant bit rate**, in every run of a muxer. A frame is as many packets as fit the
packet size, each of them a table, stuffing, or a packet of a configured PID; the packets of each
table follow each other by their counters; and the clock counts the packets sent since it was set. -/
theorem cbr_frames {env : Env} {output : Output} (hproxy : output.proxy = false)
    (hsize : output.pktSize = 0 ∨ tsPacketSize ≤ output.pktSize) {ops : List Op}
    {outs : List (Option Bytes)} {h : PacketHandler} (hrun : runNew env output ops = .ok (outs, h)) :
    (∀ out h', h.flushPacketForCbr env = .ok (some out, h') → ∃ (ev : Event) (es : List Emitted),
      h'.history = h.history ++ ev :: es.map .cbr ∧ out = (es.map Emitted.data).flatMap Packet.bytes ∧
      es.length = h.getPktSize / tsPacketSize ∧ ∀ e ∈ es, IsOutput output e.data) ∧
    (∀ k, (sentTables k h.history).IsChain CcNext ∧
      ∀ p ∈ sentTables k h.history, ∃ program ∈ output.programs, IsTablePacket (k.pid program) p) ∧
    ∃ r, h.pcrRestamper = some r ∧ r.totalPacketsSent = sentSince output h.history := by
  obtain ⟨h₀, f, hrun⟩ := runNew_eq_ok hrun
  have s := (run_steps hrun).1
  have i := steps_invariant s (f.inOrder hproxy) any_inOrder
  have ho : h.output = output := (steps_output s).trans f.output_eq
  refine ⟨fun out h' hcall => ?_, fun k => ⟨(i.tables k).chain, fun p hp => ho ▸ i.sent.table hp⟩, ?_⟩
  · obtain ⟨s', ⟨hnone, -⟩ | ⟨ev, es, hh, hout, hlen⟩⟩ := flushPacketForCbr_steps hcall
    · cases hnone
    · refine ⟨ev, es, hh, Option.some.inj hout, hlen ?_, fun e he => ?_⟩
      · rw [getPktSize, ho]
        rcases hsize with h0 | hle
        · rw [if_pos h0]
        · split_ifs
          · exact le_rfl
          · exact hle
      · have i' := steps_invariant (mux_any s') i any_inOrder
        have hsent := (i'.sent (.cbr e) (by rw [hh]; simp [he]) e rfl).isOutput
        rwa [steps_output (mux_any s'), ho] at hsent
  · obtain ⟨r, hr⟩ := i.good.restamper
    exact ⟨r, hr, ho ▸ i.counted r hr⟩

/-! ## A program of one video PID -/

def sampleProgram : Program where
  programId := 1
  audioPids := [0x101]
  videoPids := [0x100]
  pmtPid := 0x1000
  pcrPid := 0x100
  serviceName := ""
  serviceProviderName := ""
  serviceType := 1
  bufferDuration := 0
  jitter := 1000
  adjustBuf := 0

/-- One packet a frame, and one frame in 10 ms. -/
def sampleOutput : Output where
  bissKey := ""
  caFlag := 0
  pktSize := 0
  cbr := 150400
  proxy := false
  programs := [sampleProgram]

def samplePat : Packet := packed true 0x0000 0
  [0x00, 0xB0, 0x0D, 0x00, 0x01, 0xC1, 0x00, 0x00, 0x00, 0x01, 0xF0, 0x00, 0x00, 0x00, 0x00, 0x00]

def samplePmt : Packet := packed true 0x1000 0
  [0x02, 0xB0, 0x12, 0x00, 0x01, 0xC1, 0x00, 0x00, 0xE1, 0x00, 0xF0, 0x00,
    0x1B, 0xE1, 0x00, 0xF0, 0x00, 0x00, 0x00, 0x00, 0x00]

/-- The five bytes of a PTS. -/
def samplePts (t : ℕ) : Bytes :=
  [UInt8.ofNat (0x21 + t / 2 ^ 30 * 2), UInt8.ofNat (t / 2 ^ 22), UInt8.ofNat (t / 2 ^ 15 % 128 * 2 + 1),
    UInt8.ofNat (t / 2 ^ 7), UInt8.ofNat (t % 128 * 2 + 1)]

/-- A video packet that begins a frame, with the PCR field in its adaptation field or without one. -/
def sampleVideo (pcr : Bool) (cc : UInt8) (t : ℕ) : Packet :=
  Packet.ofBytes ([0x47, 0x41, 0x00] ++
    (if pcr then [0x30 + cc, 0x07, 0x10, 0x00, 0x00, 0x00, 0x00, 0x7E, 0x00] else [0x10 + cc]) ++
    [0x00, 0x00, 0x01, 0xE0, 0x00, 0x00, 0x80, 0x80, 0x05] ++ samplePts t)

def sampleChunk (videos : List Packet) : Bytes := (samplePat :: samplePmt :: videos).flatMap Packet.bytes

/-- Both tables and a video packet, and fifteen frames. -/
def sampleOps : List Op :=
  .write (sampleChunk [sampleVideo true 0 9000000]) :: List.replicate 15 .flushPacketForCbr

/-- Two PATs in the first fifteen frames, and their counters. -/
theorem cbr_frames_sample : ∃ outs h, runNew Env.sample sampleOutput sampleOps = .ok (outs, h) ∧
    (sentTables .pat h.history).length = 2 ∧ (sentTables .pat h.history).IsChain CcNext ∧
    ∃ r, h.pcrRestamper = some r ∧ r.totalPacketsSent = sentSince sampleOutput h.history := by
  obtain ⟨⟨outs, h⟩, hrun, hlen⟩ := ok_of_map (x := runNew Env.sample sampleOutput sampleOps)
    (f := fun x => (sentTables .pat x.2.history).length) (b := 2) (by decide +kernel)
  obtain ⟨-, htables, hclock⟩ := cbr_frames rfl (.inl rfl) hrun
  exact ⟨outs, h, hrun, hlen, (htables .pat).1, hclock⟩

end PacketHandler

end MyMuxer
