import MyMuxer.Mux.Ready

/-!
# Draining

`output_unix` calls `flush_packet_for_vbr` until nothing comes back.

* `drainLoop`: this loop, on fuel; `repeatAOrV`: what repeated calls of `get_a_or_v` give.
* `Flushed`: what one call sends out, and what is left (`flushVbr_flushed`).
* `pending`: the weight of the queues and the tables that are due. A call that returns something
  lowers it, also where a table alone fills the frame.
* **`drain_vbr`**: the loop ends, with empty queues, and has sent each queued packet once, in turn.
-/

namespace MyMuxer

namespace PacketHandler

/-- `while let Some(pkt) = flush_packet_for_vbr()`: what the calls returned, and the state in the end;
nothing when the fuel is used up before. -/
def drainLoop : ℕ → PacketHandler → Option (List Bytes × PacketHandler)
  | 0, _ => none
  | fuel + 1, h =>
    match h.flushPacketForVbr with
    | (some pkt, h) => (drainLoop fuel h).map fun (outs, h) => (pkt :: outs, h)
    | (none, h) => some ([], h)

/-- `get_a_or_v`, `n` times or until there is nothing left. -/
def repeatAOrV : ℕ → PacketHandler → List TsPacket × PacketHandler
  | 0, h => ([], h)
  | n + 1, h =>
    match h.getAOrV with
    | some (pkt, h) => (pkt :: (repeatAOrV n h).1, (repeatAOrV n h).2)
    | none => ([], h)

/-- How many packets the queues hold. -/
def queued (h : PacketHandler) : ℕ := h.outBuffV.len + h.outBuffA.len

/-- What `get_a_or_v` looks at. -/
structure SameQueues (h h' : PacketHandler) : Prop where
  video : h'.outBuffV = h.outBuffV
  audio : h'.outBuffA = h.outBuffA

variable {h h' g g' : PacketHandler}

/-! ## Repeated `get_a_or_v` -/

theorem record_same (h : PacketHandler) (c : Counters) (ev : Event) :
    SameQueues h ({ h with counters := c }.record ev) := ⟨rfl, rfl⟩

theorem SameQueues.queued (s : SameQueues h h') : h'.queued = h.queued := by
  rw [PacketHandler.queued, PacketHandler.queued, s.video, s.audio]

theorem popV_same (s : SameQueues h g) {pkt : TsPacket} (e : h.popV = some (pkt, h')) :
    ∃ g', g.popV = some (pkt, g') ∧ SameQueues h' g' := by
  obtain ⟨⟨pkt', b⟩, hb, e⟩ := Option.map_eq_some_iff.1 e
  cases e
  exact ⟨_, Option.map_eq_some_iff.2 ⟨(pkt, b), by rw [s.video]; exact hb, rfl⟩, rfl, s.audio⟩

theorem popA_same (s : SameQueues h g) {pkt : TsPacket} (e : h.popA = some (pkt, h')) :
    ∃ g', g.popA = some (pkt, g') ∧ SameQueues h' g' := by
  obtain ⟨⟨pkt', b⟩, hb, e⟩ := Option.map_eq_some_iff.1 e
  cases e
  exact ⟨_, Option.map_eq_some_iff.2 ⟨(pkt, b), by rw [s.audio]; exact hb, rfl⟩, s.video, rfl⟩

/-- The queues alone decide which packet is next. -/
theorem getAOrV_same (s : SameQueues h g) {pkt : TsPacket} (e : h.getAOrV = some (pkt, h')) :
    ∃ g', g.getAOrV = some (pkt, g') ∧ SameQueues h' g' := by
  unfold getAOrV at e ⊢
  rw [s.audio, s.video]
  cases ha : h.outBuffA.front with
  | none =>
    cases hv : h.outBuffV.front with
    | none => rw [ha, hv] at e; cases e
    | some v => rw [ha, hv] at e; exact popV_same s e
  | some a =>
    cases hv : h.outBuffV.front with
    | none => rw [ha, hv] at e; exact popA_same s e
    | some v =>
      rw [ha, hv] at e
      dsimp only at e ⊢
      split_ifs at e ⊢
      · exact popV_same s e
      · exact popA_same s e

theorem popped_queued {pkt : TsPacket} (e : h.Popped pkt h') : h.queued = h'.queued + 1 ∧
    (h.outBuffV.inner ++ h.outBuffA.inner).Perm (pkt :: (h'.outBuffV.inner ++ h'.outBuffA.inner)) := by
  rcases e with e | e
  · obtain ⟨b, hb, rfl⟩ := popV_eq e
    rw [queued, queued, OutBuffer.len, OutBuffer.len, hb, List.length_cons]
    exact ⟨Nat.succ_add _ _, .refl _⟩
  · obtain ⟨b, hb, rfl⟩ := popA_eq e
    rw [queued, queued, OutBuffer.len, OutBuffer.len, OutBuffer.len, hb, List.length_cons]
    exact ⟨rfl, List.perm_middle⟩

theorem getAOrV_none (e : h.getAOrV = none) : h.queued = 0 := by
  have hfront {b : OutBuffer} (hb : b.front ≠ none) : b.popFront ≠ none := by
    rw [OutBuffer.front, ne_eq, List.head?_eq_none_iff] at hb
    rw [OutBuffer.popFront]
    split
    · exact absurd ‹_› hb
    · simp
  have hpopV (hv : h.outBuffV.front ≠ none) : h.popV ≠ none := by simpa [popV] using hfront hv
  have hpopA (ha : h.outBuffA.front ≠ none) : h.popA ≠ none := by simpa [popA] using hfront ha
  unfold getAOrV at e
  cases ha : h.outBuffA.front with
  | none =>
    cases hv : h.outBuffV.front with
    | none =>
      rw [OutBuffer.front, List.head?_eq_none_iff] at ha hv
      rw [queued, OutBuffer.len, OutBuffer.len, ha, hv]
      rfl
    | some v => rw [ha, hv] at e; exact absurd e (hpopV (by simp [hv]))
  | some a =>
    cases hv : h.outBuffV.front with
    | none => rw [ha, hv] at e; exact absurd e (hpopA (by simp [ha]))
    | some v =>
      rw [ha, hv] at e
      dsimp only at e
      split_ifs at e
      · exact absurd e (hpopV (by simp [hv]))
      · exact absurd e (hpopA (by simp [ha]))

theorem getAOrV_eq_none_iff : h.getAOrV = none ↔ h.queued = 0 := by
  refine ⟨getAOrV_none, fun hq => ?_⟩
  cases e : h.getAOrV with
  | none => rfl
  | some x =>
    have := (popped_queued (getAOrV_popped e)).1
    omega

theorem repeatAOrV_same : ∀ (n : ℕ) {h g : PacketHandler}, SameQueues h g →
    (g.repeatAOrV n).1 = (h.repeatAOrV n).1 ∧ SameQueues (h.repeatAOrV n).2 (g.repeatAOrV n).2
  | 0, h, g, s => ⟨rfl, s⟩
  | n + 1, h, g, s => by
    rw [repeatAOrV, repeatAOrV]
    cases e : h.getAOrV with
    | none =>
      rw [getAOrV_eq_none_iff.2 (s.queued.trans (getAOrV_none e))]
      exact ⟨rfl, s⟩
    | some x =>
      obtain ⟨g', e', s'⟩ := getAOrV_same s e
      obtain ⟨h1, h2⟩ := repeatAOrV_same n s'
      rw [e']
      exact ⟨congrArg (x.1 :: ·) h1, h2⟩

theorem repeatAOrV_of_queued : ∀ (n : ℕ) {h : PacketHandler}, h.queued = 0 → h.repeatAOrV n = ([], h)
  | 0, h, _ => rfl
  | n + 1, h, hq => by rw [repeatAOrV, getAOrV_eq_none_iff.2 hq]

theorem repeatAOrV_add (m : ℕ) : ∀ (n : ℕ) (h : PacketHandler),
    (h.repeatAOrV (n + m)).1 = (h.repeatAOrV n).1 ++ ((h.repeatAOrV n).2.repeatAOrV m).1
  | 0, h => by rw [Nat.zero_add]; rfl
  | n + 1, h => by
    rw [Nat.succ_add, repeatAOrV, repeatAOrV]
    cases e : h.getAOrV with
    | none => rw [repeatAOrV_of_queued m (getAOrV_none e)]; rfl
    | some x => exact congrArg (x.1 :: ·) (repeatAOrV_add m n x.2)

theorem repeatAOrV_length : ∀ (n : ℕ) (h : PacketHandler),
    h.queued = (h.repeatAOrV n).1.length + (h.repeatAOrV n).2.queued ∧
      (h.repeatAOrV n).1.length = min n h.queued
  | 0, h => ⟨by simp [repeatAOrV], by simp [repeatAOrV]⟩
  | n + 1, h => by
    rw [repeatAOrV]
    cases e : h.getAOrV with
    | none => simp [getAOrV_none e]
    | some x =>
      have hx := (popped_queued (getAOrV_popped e)).1
      obtain ⟨h1, h2⟩ := repeatAOrV_length n x.2
      simp only [List.length_cons]
      omega

/-- Nothing is lost and nothing comes twice. -/
theorem repeatAOrV_perm : ∀ (n : ℕ) (h : PacketHandler), (h.outBuffV.inner ++ h.outBuffA.inner).Perm
    ((h.repeatAOrV n).1 ++ ((h.repeatAOrV n).2.outBuffV.inner ++ (h.repeatAOrV n).2.outBuffA.inner))
  | 0, h => .refl _
  | n + 1, h => by
    rw [repeatAOrV]
    cases e : h.getAOrV with
    | none => exact .refl _
    | some x =>
      exact (popped_queued (getAOrV_popped e)).2.trans ((repeatAOrV_perm n x.2).cons x.1)

/-! ## One call -/

/-- A queued packet that goes out as it is. -/
def unaltered (pkt : TsPacket) : Emitted := { source := .queued pkt, data := pkt.data, resync := none }

/-- The queued packet that an emitted one comes from. -/
def Emitted.queued (e : Emitted) : Option TsPacket :=
  match e.source with
  | .queued pkt => some pkt
  | _ => none

/-- A cached table with a later counter, or a queued packet as it is. -/
def Plain (h : PacketHandler) (e : Emitted) : Prop :=
  match e.source with
  | .table k => h.tables.ready k = true ∧ ∃ n, e.data = pktNext^[n + 1] (h.tables.cache k)
  | .queued pkt => e.data = pkt.data
  | .null => False

/-- From `h` to `h'` the packets `es` have gone out: tables, and the next packets of the queues. -/
structure Flushed (h h' : PacketHandler) (es : List Emitted) : Prop where
  phase : SamePhase h h'
  output : h'.output = h.output
  cache : ∀ k, ∃ n, h'.tables.cache k = pktNext^[n] (h.tables.cache k)
  plain : ∀ e ∈ es, h.Plain e
  queued : h.queued = (es.filterMap Emitted.queued).length + h'.queued
  order : ∀ m, (h.repeatAOrV ((es.filterMap Emitted.queued).length + m)).1 =
    es.filterMap Emitted.queued ++ (h'.repeatAOrV m).1
  sent : h'.history.filterMap Event.sent = h.history.filterMap Event.sent ++ es

theorem Flushed.refl (h : PacketHandler) : Flushed h h [] where
  phase := .refl h
  output := rfl
  cache _ := ⟨0, rfl⟩
  plain _ he := absurd he (by simp)
  queued := (Nat.zero_add _).symm
  order m := by rw [List.filterMap_nil, List.length_nil, Nat.zero_add]; rfl
  sent := (List.append_nil _).symm

theorem Flushed.trans {h₁ h₂ h₃ : PacketHandler} {es fs : List Emitted} (s : Flushed h₁ h₂ es)
    (t : Flushed h₂ h₃ fs) : Flushed h₁ h₃ (es ++ fs) where
  phase := s.phase.trans t.phase
  output := t.output.trans s.output
  cache k := by
    obtain ⟨n, hn⟩ := s.cache k
    obtain ⟨m, hm⟩ := t.cache k
    exact ⟨m + n, by rw [hm, hn, Function.iterate_add_apply]⟩
  plain e he := by
    rcases List.mem_append.1 he with he | he
    · exact s.plain e he
    · have hp := t.plain e he
      unfold Plain at hp ⊢
      cases hsrc : e.source with
      | table k =>
        rw [hsrc] at hp
        obtain ⟨hready, m, hm⟩ := hp
        obtain ⟨n, hn⟩ := s.cache k
        refine ⟨(congrFun s.phase.ready k).symm.trans hready, m + n, ?_⟩
        rw [hm, hn, ← Function.iterate_add_apply, Nat.add_right_comm]
      | queued pkt => rw [hsrc] at hp; exact hp
      | null => rw [hsrc] at hp; exact hp
  queued := by
    rw [s.queued, t.queued, List.filterMap_append, List.length_append, Nat.add_assoc]
  order m := by
    rw [List.filterMap_append, List.length_append, Nat.add_assoc, s.order, t.order, List.append_assoc]
  sent := by rw [t.sent, s.sent, List.append_assoc]

/-- Nothing goes out, and the queues stay. -/
theorem Flushed.of_same (s : SameQueues h h') (phase : SamePhase h h') (output : h'.output = h.output)
    (cache : ∀ k, ∃ n, h'.tables.cache k = pktNext^[n] (h.tables.cache k))
    (sent : h'.history.filterMap Event.sent = h.history.filterMap Event.sent) : Flushed h h' [] := by
  refine ⟨phase, output, cache, fun _ he => absurd he (by simp), ?_, fun m => ?_, ?_⟩
  · rw [List.filterMap_nil, List.length_nil, Nat.zero_add, s.queued]
  · rw [List.filterMap_nil, List.length_nil, Nat.zero_add, List.nil_append, (repeatAOrV_same m s).1]
  · rw [List.append_nil, sent]

/-- A call of `flush_psi_packets` on its own sends nothing. -/
theorem flushPsi_flushed {k : Option Table} (e : h.flushPsiPackets = (k, h')) : Flushed h h' [] := by
  obtain ⟨-, ho, hv, ha, _, hh⟩ := flushPsi_rest e
  refine .of_same ⟨hv, ha⟩ (flushPsi_phase e) ho (fun j => ?_) ?_
  · cases k with
    | none =>
      obtain ⟨-, rfl⟩ := flushPsi_none e
      exact ⟨0, rfl⟩
    | some k =>
      obtain ⟨-, -, rfl⟩ := flushPsi_some e
      change ∃ n, (h.tables.next k).cache j = _
      rw [Tables.next_cache]
      split_ifs
      · exact ⟨1, rfl⟩
      · exact ⟨0, rfl⟩
  · rw [hh, List.filterMap_append]
    exact List.append_nil _

/-- The table that a call of `flush_psi_packets` chose goes out. -/
theorem table_flushed {k : Table} (e : h.flushPsiPackets = (some k, h')) (c : Counters) :
    Flushed h ({ h' with counters := c }.record
      (.vbr { source := .table k, data := h'.tables.cache k, resync := none }))
      [{ source := .table k, data := h'.tables.cache k, resync := none }] := by
  have s := flushPsi_flushed e
  have hready := flushPsi_ready e
  have hcache : h'.tables.cache k = pktNext (h.tables.cache k) := by
    obtain ⟨-, -, rfl⟩ := flushPsi_some e
    exact (Tables.next_cache h.tables k k).trans (if_pos rfl)
  refine ⟨⟨s.phase.isReady, s.phase.ready, s.phase.dirtyPat, s.phase.dirtyPmt, s.phase.dirtyCa⟩, s.output,
    s.cache, ?_, s.queued, fun m => ?_, ?_⟩
  · intro e he
    rw [List.mem_singleton.1 he]
    exact ⟨(congrFun s.phase.ready k).symm.trans hready, 0, hcache⟩
  · exact (s.order m).trans (congrArg _ (repeatAOrV_same m (record_same h' c _)).1.symm)
  · have hs := s.sent
    rw [List.append_nil] at hs
    rw [record, List.filterMap_append, hs]
    rfl

/-- The next packet of the queues goes out. -/
theorem queued_flushed {pkt : TsPacket} (e : h.getAOrV = some (pkt, h')) (c : Counters) :
    Flushed h ({ h' with counters := c }.record (.vbr (unaltered pkt))) [unaltered pkt] := by
  have hp := getAOrV_popped e
  have s := popped_phase hp
  obtain ⟨hh, ho, -⟩ := popped_rest hp
  have ht : h'.tables = h.tables := by
    obtain ⟨v, a, rfl⟩ := popped_eq hp
    rfl
  refine ⟨⟨s.isReady, s.ready, s.dirtyPat, s.dirtyPmt, s.dirtyCa⟩, ho,
    fun k => ⟨0, ?_⟩, ?_, ?_, fun m => ?_, ?_⟩
  · exact congrFun (congrArg Tables.cache ht) k
  · intro e he
    rw [List.mem_singleton.1 he]
    rfl
  · exact (popped_queued hp).1.trans (Nat.add_comm _ _)
  · change (h.repeatAOrV (1 + m)).1 = _
    rw [Nat.add_comm, repeatAOrV, e]
    exact congrArg (pkt :: ·) (repeatAOrV_same m (record_same h' c _)).1.symm
  · rw [record, List.filterMap_append]
    exact congrArg (List.filterMap Event.sent · ++ _) hh

/-- What the frame loop leaves alone. -/
structure SameClock (h h' : PacketHandler) : Prop where
  tables : h'.tables = h.tables
  timers : h'.timers = h.timers
  pcrRestamper : h'.pcrRestamper = h.pcrRestamper

theorem vbrLoop_flushed : ∀ (n : ℕ) (h : PacketHandler),
    Flushed h (h.vbrLoop n).2 ((h.vbrLoop n).1.map unaltered) ∧ SameClock h (h.vbrLoop n).2 ∧
      (h.vbrLoop n).1.length = min n h.queued
  | 0, h => ⟨.refl h, ⟨rfl, rfl, rfl⟩, by simp [vbrLoop]⟩
  | n + 1, h => by
    rw [vbrLoop]
    cases e : h.getAOrV with
    | none => exact ⟨.refl h, ⟨rfl, rfl, rfl⟩, by simp [getAOrV_none e]⟩
    | some x =>
      obtain ⟨pkt, g⟩ := x
      have hc : SameClock h g := by
        obtain ⟨v, a, rfl⟩ := popped_eq (getAOrV_popped e)
        exact ⟨rfl, rfl, rfl⟩
      have hq := (popped_queued (getAOrV_popped e)).1
      have s := queued_flushed e { g.counters with payload := g.counters.payload + 1 }
      obtain ⟨t, ht, hlen⟩ := vbrLoop_flushed n ({ g with counters.payload := g.counters.payload + 1 }.record
        (.vbr (unaltered pkt)))
      refine ⟨s.trans t, ⟨ht.tables.trans hc.tables, ht.timers.trans hc.timers,
        ht.pcrRestamper.trans hc.pcrRestamper⟩, ?_⟩
      change _ = min n g.queued at hlen
      simp only [List.length_cons, unaltered] at hlen ⊢
      omega

theorem trackPcr_flushed (h : PacketHandler) (firstPcr : Option ℕ) : Flushed h (h.trackPcr firstPcr) [] := by
  unfold trackPcr
  split
  · exact .of_same ⟨rfl, rfl⟩ ⟨rfl, rfl, rfl, rfl, rfl⟩ rfl (fun _ => ⟨0, rfl⟩) rfl
  · exact .refl h

/-! ## The weight of a state -/

/-- Four for each queued packet, one for each table that is due. -/
def pending (h : PacketHandler) : ℕ := 4 * h.queued + [Table.pat, .pmt, .sdt].countP h.due

theorem insertDue_self (pcr : Option ℕ) (k : Table) : insertDue pcr pcr k.periodMs = false := by
  cases pcr with
  | none => rfl
  | some pcr =>
    have hl : k.periodMs * 27000 < pcrHalf := by cases k <;> decide
    rw [insertDue, ← Bool.not_eq_true, pcrAfter_add _ _ hl, pcrSub_self]
    exact fun h => absurd h.1 (Nat.not_lt_zero _)

theorem timers_get_set (u : UpdateTimers) (pcr : Option ℕ) (k j : Table) :
    (u.set pcr k).get j = if j = k then pcr else u.get j := by
  cases k <;> cases j <;> rfl

/-- The table that leaves was due and is due no longer; the others are as before. -/
theorem flushPsi_due {k : Table} (e : h.flushPsiPackets = (some k, h')) (j : Table) :
    h'.due j = if j = k then false else h.due j := by
  obtain ⟨-, -, rfl⟩ := flushPsi_some e
  change ((h.tables.next k).ready j && insertDue h.getPcr ((h.timers.set h.getPcr k).get j) j.periodMs) = _
  rw [Tables.next_ready, timers_get_set, due]
  split_ifs
  · rw [insertDue_self, Bool.and_false]
  · rfl

theorem flushPsi_countP {k : Table} (e : h.flushPsiPackets = (some k, h')) :
    [Table.pat, .pmt, .sdt].countP h'.due + 1 = [Table.pat, .pmt, .sdt].countP h.due := by
  have hdue := (flushPsi_some e).1
  simp only [List.countP_cons, List.countP_nil, flushPsi_due e]
  cases k <;> simp [hdue] <;> omega

theorem due_of_sameClock (c : SameClock h h') : h'.due = h.due := by
  funext k
  rw [due, due, getPcr, getPcr, c.tables, c.timers, c.pcrRestamper]

/-- A packet has left the queues: the weight is lower, whatever has become due. -/
theorem pending_of_queued (hq : h'.queued < h.queued) : h'.pending < h.pending := by
  have : [Table.pat, .pmt, .sdt].countP h'.due ≤ 3 := List.countP_le_length
  unfold pending
  omega

theorem flatMap_bytes_eq_nil {ps : List Packet} : ps.flatMap Packet.bytes = [] ↔ ps = [] := by
  cases ps with
  | nil => simp
  | cons p ps =>
    have hp : p.bytes ≠ [] := fun h => absurd p.length_eq (by rw [h]; decide)
    simp [hp]

theorem queued_unaltered (pkts : List TsPacket) : (pkts.map unaltered).filterMap Emitted.queued = pkts := by
  induction pkts with
  | nil => rfl
  | cons pkt pkts ih => exact congrArg (pkt :: ·) ih

theorem data_unaltered (pkts : List TsPacket) :
    (pkts.map unaltered).map Emitted.data = pkts.map TsPacket.data := by
  rw [List.map_map]
  rfl

/-- The packets of a call after its table, and the clock they set. -/
theorem frame_flushed (n : ℕ) (g : PacketHandler) {pkts : List TsPacket} {g' : PacketHandler}
    (e : g.vbrLoop n = (pkts, g')) :
    Flushed g (g'.trackPcr (pkts.findSome? TsPacket.pcr)) (pkts.map unaltered) ∧
      pkts.length = min n g.queued ∧ (pkts = [] → SameClock g (g'.trackPcr (pkts.findSome? TsPacket.pcr))) := by
  obtain ⟨s, hc, hlen⟩ := vbrLoop_flushed n g
  rw [e] at s hc hlen
  refine ⟨?_, hlen, ?_⟩
  · have t := s.trans (trackPcr_flushed g' (pkts.findSome? TsPacket.pcr))
    rwa [List.append_nil] at t
  · rintro rfl
    exact hc

/-- **One call**: a table and the next packets of the queues go out. Nothing goes out only when the
queues are empty; otherwise the weight is lower. -/
theorem flushVbr_flushed (hr : h.isReady = true) (hd : h.isDirty = false)
    (hs : 0 < h.getPktSize / tsPacketSize) {out : Option Bytes} (e : h.flushPacketForVbr = (out, h')) :
    ∃ es, Flushed h h' es ∧ out.getD [] = (es.map Emitted.data).flatMap Packet.bytes ∧
      (out = none → h.queued = 0) ∧ (out ≠ none → h'.pending < h.pending) := by
  rw [flushPacketForVbr, if_neg (by rw [hr, hd]; decide)] at e
  generalize hg : h.flushPsiPackets = fp at e
  obtain ⟨k, g⟩ := fp
  have hq : h.queued = g.queued := by simpa using (flushPsi_flushed hg).queued
  cases k with
  | none =>
    dsimp only [List.length_nil, Nat.sub_zero, List.nil_append] at e
    generalize hv : g.vbrLoop (h.getPktSize / tsPacketSize) = lp at e
    obtain ⟨pkts, g'⟩ := lp
    obtain ⟨hout, he⟩ := Prod.mk.inj e
    obtain ⟨t, hlen, -⟩ := frame_flushed _ g hv
    dsimp only at hout he
    rw [he] at t
    have s := (flushPsi_flushed hg).trans t
    rw [List.nil_append] at s
    have hleft := s.queued
    rw [queued_unaltered] at hleft
    refine ⟨_, s, ?_, fun hn => ?_, fun hn => pending_of_queued ?_⟩
    · rw [data_unaltered, ← hout]
      split_ifs with hnil
      · exact hnil.symm
      · rfl
    · rw [← hout, ite_eq_left_iff] at hn
      have hnil : pkts.map TsPacket.data = [] :=
        flatMap_bytes_eq_nil.1 (by_contra fun h => Option.some_ne_none _ (hn h))
      rw [List.map_eq_nil_iff.1 hnil, List.length_nil] at hlen
      omega
    · have : pkts ≠ [] := by
        rintro rfl
        exact hn hout.symm
      have := List.length_pos_iff.2 this
      omega
  | some k =>
    dsimp only [List.length_singleton, List.singleton_append] at e
    generalize hv : vbrLoop _ _ = lp at e
    obtain ⟨pkts, g'⟩ := lp
    obtain ⟨hout, he⟩ := Prod.mk.inj e
    obtain ⟨t, -, hclock⟩ := frame_flushed _ _ hv
    dsimp only at hout he
    rw [he] at t hclock
    have s := (table_flushed hg { g.counters with psi := g.counters.psi + 1 }).trans t
    have hleft := s.queued
    rw [List.singleton_append, List.filterMap_cons_none rfl, queued_unaltered] at hleft
    have hsome : out = some ((g.tables.cache k :: pkts.map TsPacket.data).flatMap Packet.bytes) := by
      rw [← hout, if_neg]
      exact fun hnil => absurd (flatMap_bytes_eq_nil.1 hnil) (by simp)
    refine ⟨_, s, ?_, fun hn => ?_, fun _ => ?_⟩
    · rw [hsome, List.singleton_append, List.map_cons, data_unaltered]
      rfl
    · rw [hsome] at hn
      cases hn
    · cases pkts with
      -- the table alone, which is due no longer
      | nil =>
        have hc := hclock rfl
        have hdue : h'.due = g.due := due_of_sameClock ⟨hc.tables, hc.timers, hc.pcrRestamper⟩
        have hcount := flushPsi_countP hg
        rw [pending, pending, hleft, hdue, List.length_nil]
        omega
      | cons pkt pkts => exact pending_of_queued (by rw [hleft, List.length_cons]; omega)

/-! ## The loop -/

/-- With more fuel than weight the loop ends, on empty queues. -/
theorem drainLoop_flushed : ∀ (fuel : ℕ) {h : PacketHandler}, h.isReady = true → h.isDirty = false →
    0 < h.getPktSize / tsPacketSize → h.pending < fuel →
    ∃ outs h' es, h.drainLoop fuel = some (outs, h') ∧ Flushed h h' es ∧ h'.queued = 0 ∧
      outs.flatten = (es.map Emitted.data).flatMap Packet.bytes
  | 0, h, _, _, _, hf => absurd hf (Nat.not_lt_zero _)
  | fuel + 1, h, hr, hd, hs, hf => by
    rw [drainLoop]
    generalize e : h.flushPacketForVbr = fp
    obtain ⟨out, g⟩ := fp
    obtain ⟨es, s, hout, hempty, hless⟩ := flushVbr_flushed hr hd hs e
    cases out with
    | none =>
      have hq := hempty rfl
      have hg : g.queued = 0 := by have := s.queued; omega
      exact ⟨[], g, es, rfl, s, hg, hout⟩
    | some pkt =>
      have hsize : g.getPktSize = h.getPktSize := by rw [getPktSize, getPktSize, s.output]
      obtain ⟨outs, h', fs, e', t, hq, hrest⟩ := drainLoop_flushed fuel (s.phase.isReady.trans hr)
        (s.phase.isDirty.trans hd) (by rw [hsize]; exact hs) (by have := hless (by simp); omega)
      refine ⟨pkt :: outs, h', es ++ fs, ?_, s.trans t, hq, ?_⟩
      · dsimp only
        rw [e']
        rfl
      · rw [List.flatten_cons, List.map_append, List.flatMap_append, hrest]
        exact congrArg (· ++ _) hout

theorem getPktSize_pos (hs : h.output.pktSize = 0 ∨ tsPacketSize ≤ h.output.pktSize) :
    0 < h.getPktSize / tsPacketSize := by
  rw [getPktSize]
  split_ifs with h0
  · decide
  · exact Nat.div_pos (hs.resolve_left h0) (by decide)

/-- **The drain loop ends.** Then both queues are empty, and what it returned is made of tables with
later counters and of the queued packets, unaltered, each once, in the order of repeated `get_a_or_v`. -/
theorem drain_vbr (hr : h.isReady = true) (hd : h.isDirty = false)
    (hs : h.output.pktSize = 0 ∨ tsPacketSize ≤ h.output.pktSize) :
    ∃ (outs : List Bytes) (h' : PacketHandler) (es : List Emitted),
      h.drainLoop (h.pending + 1) = some (outs, h') ∧
      h'.outBuffV.inner = [] ∧ h'.outBuffA.inner = [] ∧
      outs.flatten = (es.map Emitted.data).flatMap Packet.bytes ∧ (∀ e ∈ es, h.Plain e) ∧
      es.filterMap Emitted.queued = (h.repeatAOrV h.queued).1 ∧
      (h.repeatAOrV h.queued).1.Perm (h.outBuffV.inner ++ h.outBuffA.inner) := by
  obtain ⟨outs, h', es, e, s, hq, hout⟩ := drainLoop_flushed (h.pending + 1) hr hd (getPktSize_pos hs)
    (Nat.lt_succ_self _)
  have hempty : ∀ g : PacketHandler, g.queued = 0 → g.outBuffV.inner = [] ∧ g.outBuffA.inner = [] :=
    fun g hg => (Nat.add_eq_zero_iff.1 hg).imp List.length_eq_zero_iff.1 List.length_eq_zero_iff.1
  have hall := s.queued
  rw [hq, Nat.add_zero] at hall
  refine ⟨outs, h', es, e, (hempty h' hq).1, (hempty h' hq).2, hout, s.plain, ?_, ?_⟩
  · have ho := s.order 0
    rw [Nat.add_zero, ← hall] at ho
    rw [ho]
    exact (List.append_nil _).symm
  · have hperm := repeatAOrV_perm h.queued h
    obtain ⟨hcount, hlen⟩ := repeatAOrV_length h.queued h
    obtain ⟨hv, ha⟩ := hempty (h.repeatAOrV h.queued).2 (by omega)
    rw [hv, ha, List.append_nil, List.append_nil] at hperm
    exact hperm.symm

/-- Behind three tables that are due, one video packet: the loop ends. -/
theorem drain_vbr_sample : ∃ outs h out h', runNew Env.sample sampleOutput
      [.write (sampleChunk [sampleVideo true 0 9000000])] = .ok (outs, h) ∧ h.pending = 7 ∧
    h.drainLoop (h.pending + 1) = some (out, h') ∧ h'.outBuffV.inner = [] ∧ h'.outBuffA.inner = [] := by
  obtain ⟨⟨outs, h⟩, hrun, hcheck⟩ := ok_of_map (x := runNew Env.sample sampleOutput
      [.write (sampleChunk [sampleVideo true 0 9000000])])
    (f := fun x => (x.2.isReady, x.2.isDirty, x.2.output.pktSize, x.2.pending)) (b := (true, false, 0, 7))
    (by decide +kernel)
  obtain ⟨hr, hd, hs, hp⟩ : _ ∧ _ ∧ _ ∧ _ := by simpa using hcheck
  obtain ⟨out, h', -, e, hv, ha, -⟩ := drain_vbr hr hd (.inl hs)
  exact ⟨outs, h, out, h', hrun, hp, e, hv, ha⟩

end PacketHandler

end MyMuxer
