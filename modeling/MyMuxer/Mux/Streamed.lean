import MyMuxer.Mux.Drain
import MyMuxer.Mux.Inserted

/-!
# Frames for HTTP and packets for a socket (`output_http.rs`, `output_unix.rs`)

`output_unix` sends what `flush_packet_for_vbr` returns; `output_http` collects it in `frame_buff` and sends
frames of `FRAME_BUFFER_SIZE` bytes.

* `holding`: a handler with another `frame_buff`; nothing in `write` or `flush_packet_for_vbr` reads it
  (`write_holding`, `flushVbr_holding`).
* `frameDrain`: `while let Some(pkt) = flush_frame()`; `unixChunk`, `httpChunk`, `serve`: what the two outputs send.
* **`http_streams_unix`**: frame by frame, HTTP sends the bytes of the socket, less a rest that stays below
  one frame.
-/

namespace MyMuxer

open Relation

namespace PacketHandler

/-- A handler that holds these bytes in `frame_buff`. -/
abbrev holding (frameBuff : Bytes) (h : PacketHandler) : PacketHandler := { h with frameBuff }

variable {env : Env} (f : Bytes) (h : PacketHandler)

/-! ## Input -/

theorem getAOrV_holding : (h.holding f).getAOrV = h.getAOrV.map (Prod.map id (holding f)) := by
  have hpopV : (h.holding f).popV = h.popV.map (Prod.map id (holding f)) := by
    rw [popV, popV, Option.map_map]
    rfl
  have hpopA : (h.holding f).popA = h.popA.map (Prod.map id (holding f)) := by
    rw [popA, popA, Option.map_map]
    rfl
  unfold getAOrV
  rw [hpopV, hpopA]
  dsimp only [holding]
  cases h.outBuffA.front with
  | none =>
    cases h.outBuffV.front with
    | none => rfl
    | some v => rfl
  | some a =>
    cases h.outBuffV.front with
    | none => rfl
    | some v =>
      dsimp only
      split_ifs <;> rfl

theorem flushPsi_holding : (h.holding f).flushPsiPackets = Prod.map id (holding f) h.flushPsiPackets := by
  have hpcr : (h.holding f).getPcr = h.getPcr := rfl
  have htable (pcr : Option ℕ) (k : Table) :
      (h.holding f).flushTable pcr k = (h.flushTable pcr k).map (holding f) := by
    rw [flushTable, flushTable]
    dsimp only [holding]
    split_ifs <;> rfl
  have hdue : (h.holding f).dueTable h.getPcr = (h.dueTable h.getPcr).map (Prod.map id (holding f)) := by
    rw [dueTable, dueTable, htable, htable, htable]
    cases h.flushTable h.getPcr .pat with
    | some g => rfl
    | none =>
      cases h.flushTable h.getPcr .pmt with
      | some g => rfl
      | none => cases h.flushTable h.getPcr .sdt <;> rfl
  rw [flushPsiPackets, flushPsiPackets, hpcr, hdue]
  cases h.dueTable h.getPcr with
  | none => rfl
  | some x => rfl

theorem vbrLoop_holding : ∀ (n : ℕ) (h : PacketHandler),
    (h.holding f).vbrLoop n = Prod.map id (holding f) (h.vbrLoop n)
  | 0, h => rfl
  | n + 1, h => by
    rw [vbrLoop, vbrLoop, getAOrV_holding]
    cases h.getAOrV with
    | none => rfl
    | some x =>
      obtain ⟨pkt, g⟩ := x
      have ih := vbrLoop_holding n ({ g with counters.payload := g.counters.payload + 1 }.record
        (.vbr { source := .queued pkt, data := pkt.data, resync := none }))
      dsimp only [Option.map_some, Prod.map, id]
      exact congrArg (fun x : List TsPacket × PacketHandler => (pkt :: x.1, x.2)) ih

/-- `flush_packet_for_vbr` after its table. -/
def vbrFrame (n : ℕ) (table : List Packet) (h : PacketHandler) : Option Bytes × PacketHandler :=
  let (pkts, h) := h.vbrLoop n
  let h := h.trackPcr (pkts.findSome? TsPacket.pcr)
  let out := (table ++ pkts.map TsPacket.data).flatMap Packet.bytes
  (if out = [] then none else some out, h)

/-- The table that goes out in front. -/
def emitVbr (k : Table) (h : PacketHandler) : PacketHandler :=
  { h with counters.psi := h.counters.psi + 1 }.record
    (.vbr { source := .table k, data := h.tables.cache k, resync := none })

/-- Output that is paused, or not ready. -/
def idle (h : PacketHandler) : Bool := h.isDirty || !h.isReady

theorem flushVbr_eq : h.flushPacketForVbr =
    if h.idle then (none, h)
    else match h.flushPsiPackets with
      | (some k, g) => (g.emitVbr k).vbrFrame (h.getPktSize / tsPacketSize - 1) [g.tables.cache k]
      | (none, g) => g.vbrFrame (h.getPktSize / tsPacketSize) [] := by
  rw [flushPacketForVbr, idle]
  split_ifs
  · rfl
  · obtain ⟨k, g⟩ := h.flushPsiPackets
    cases k <;> rfl

theorem vbrFrame_holding (n : ℕ) (table : List Packet) :
    (h.holding f).vbrFrame n table = Prod.map id (holding f) (h.vbrFrame n table) := by
  rw [vbrFrame, vbrFrame, vbrLoop_holding]
  obtain ⟨pkts, g⟩ := h.vbrLoop n
  dsimp only [Prod.map, id]
  cases pkts.findSome? TsPacket.pcr <;> rfl

/-- **Nothing that `flush_packet_for_vbr` does depends on `frame_buff`.** -/
theorem flushVbr_holding : (h.holding f).flushPacketForVbr = Prod.map id (holding f) h.flushPacketForVbr := by
  have hidle : (h.holding f).idle = h.idle := rfl
  have hsize : (h.holding f).getPktSize = h.getPktSize := rfl
  rw [flushVbr_eq, flushVbr_eq, hidle, hsize, flushPsi_holding]
  split_ifs
  · rfl
  · obtain ⟨k, g⟩ := h.flushPsiPackets
    cases k with
    | none => exact vbrFrame_holding f g _ []
    | some k => exact vbrFrame_holding f (g.emitVbr k) _ _

/-! ## What leaves `frame_buff` as it is -/

variable {f h} {h' : PacketHandler}

theorem MuxStep.frameBuff (s : MuxStep h h') : h'.frameBuff = h.frameBuff := by
  cases s with
  | push _ _ =>
    rw [PacketHandler.push]
    split_ifs <;> rfl
  | drop _ hp =>
    obtain ⟨v, a, rfl⟩ := popped_eq hp
    rfl
  | flushPsi _ e =>
    obtain ⟨-, rfl⟩ := flushPsi_none e
    rfl
  | table _ e =>
    obtain ⟨-, -, rfl⟩ := flushPsi_some e
    rfl
  | queued _ hp he =>
    obtain ⟨program, r, -, -, rfl, -⟩ := processPacket_eq he
    obtain ⟨v, a, rfl⟩ := popped_eq hp
    rfl
  | _ => rfl

theorem write_frameBuff {chunk : Bytes} (e : h.write env chunk = .ok h') : h'.frameBuff = h.frameBuff :=
  steps_invariant (P := fun g => g.frameBuff = h.frameBuff) (write_steps e) rfl fun s hs => s.frameBuff.trans hs

theorem flushCbr_frameBuff {out : Option Bytes} (e : h.flushPacketForCbr env = .ok (out, h')) :
    h'.frameBuff = h.frameBuff :=
  steps_invariant (P := fun g => g.frameBuff = h.frameBuff) (flushPacketForCbr_steps e).1 rfl
    fun s hs => s.frameBuff.trans hs

theorem flushVbr_frameBuff (h : PacketHandler) : h.flushPacketForVbr.2.frameBuff = h.frameBuff :=
  congrArg (fun x : Option Bytes × PacketHandler => x.2.frameBuff) (flushVbr_holding h.frameBuff h)

theorem drainLoop_frameBuff : ∀ {m : ℕ} {h h' : PacketHandler} {outs : List Bytes},
    h.drainLoop m = some (outs, h') → h'.frameBuff = h.frameBuff
  | 0, h, h', outs, e => by cases e
  | m + 1, h, h', outs, e => by
    rw [drainLoop] at e
    have hf := flushVbr_frameBuff h
    generalize h.flushPacketForVbr = fp at e hf
    obtain ⟨out, g⟩ := fp
    cases out with
    | none => cases e; exact hf
    | some out =>
      obtain ⟨⟨outs', h''⟩, e, he⟩ := Option.map_eq_some_iff.1 e
      cases he
      exact (drainLoop_frameBuff e).trans hf

/-! ## The loops -/

/-- `while let Some(pkt) = flush_frame()`: the frames, and the state in the end; nothing when the fuel is used up
before. -/
def frameDrain : ℕ → PacketHandler → Option (List Bytes × PacketHandler)
  | 0, _ => none
  | fuel + 1, h =>
    match h.flushFrame with
    | (some frame, h) => (frameDrain fuel h).map fun (frames, h) => (frame :: frames, h)
    | (none, h) => some ([], h)

/-- What `flush_packet_for_vbr` returns is not empty. -/
theorem flushVbr_pos {out : Bytes} {h' : PacketHandler} (e : h.flushPacketForVbr = (some out, h')) :
    188 ≤ out.length := by
  have hframe {n : ℕ} {table : List Packet} {g : PacketHandler} (e : g.vbrFrame n table = (some out, h')) :
      188 ≤ out.length := by
    have hout := congrArg Prod.fst e
    rw [vbrFrame] at hout
    dsimp only at hout
    split_ifs at hout with hn
    cases hout
    generalize table ++ (g.vbrLoop n).1.map TsPacket.data = ps at hn
    cases ps with
    | nil => exact absurd rfl hn
    | cons p ps =>
      rw [List.flatMap_cons, List.length_append, p.length_eq]
      exact Nat.le_add_right _ _
  rw [flushVbr_eq] at e
  split_ifs at e
  · cases e
  · split at e
    · exact hframe e
    · exact hframe e

/-- **The loop of `flush_frame`** is the drain loop, until a frame is full. -/
theorem frameLoop_drains : ∀ (n : ℕ) {m : ℕ} {f : Bytes} {h h' : PacketHandler} {outs : List Bytes},
    h.drainLoop m = some (outs, h') → frameBufferSize ≤ f.length + 188 * n →
    ∃ (f' : Bytes) (g : PacketHandler), frameLoop n (h.holding f) = g.holding f' ∧
      (f'.length < frameBufferSize ∧ g = h' ∧ f' = f ++ outs.flatten ∨
        frameBufferSize ≤ f'.length ∧ ∃ m' outs', g.drainLoop m' = some (outs', h') ∧
          f' ++ outs'.flatten = f ++ outs.flatten)
  | 0, m, f, h, h', outs, e, hn => ⟨f, h, rfl, .inr ⟨hn, m, outs, e, rfl⟩⟩
  | n + 1, 0, f, h, h', outs, e, hn => by cases e
  | n + 1, m + 1, f, h, h', outs, e, hn => by
    rw [frameLoop]
    split_ifs with hlt
    · rw [drainLoop] at e
      rw [flushVbr_holding]
      generalize hflush : h.flushPacketForVbr = fp at e
      obtain ⟨out, g⟩ := fp
      cases out with
      | none =>
        cases e
        exact ⟨f, h', rfl, .inl ⟨hlt, rfl, by simp⟩⟩
      | some out =>
        obtain ⟨⟨outs', h''⟩, e, he⟩ := Option.map_eq_some_iff.1 e
        cases he
        have hpos := flushVbr_pos hflush
        obtain ⟨f', g', hloop, hend⟩ := frameLoop_drains n (f := f ++ out) e (by rw [List.length_append]; omega)
        refine ⟨f', g', hloop, ?_⟩
        rw [List.flatten_cons, ← List.append_assoc]
        exact hend
    · exact ⟨f, h, rfl, .inr ⟨Nat.not_lt.1 hlt, m + 1, outs, e, rfl⟩⟩

theorem SamePhase.idle (s : SamePhase h h') : h'.idle = h.idle := by
  rw [PacketHandler.idle, PacketHandler.idle, s.isDirty, s.isReady]

theorem drainLoop_idle (hi : h.idle = true) {m : ℕ} {outs : List Bytes} (e : h.drainLoop m = some (outs, h')) :
    outs = [] ∧ h' = h := by
  cases m with
  | zero => cases e
  | succ m =>
    rw [drainLoop, flushVbr_eq, if_pos hi] at e
    cases e
    exact ⟨rfl, rfl⟩

theorem flushFrame_idle (hi : h.idle = true) : h.flushFrame = (none, h) := if_pos hi

theorem flushFrame_eq (hi : h.idle = false) (f : Bytes) {g : PacketHandler} {f' : Bytes}
    (hloop : frameLoop frameBufferSize (h.holding f) = g.holding f') : (h.holding f).flushFrame =
      if frameBufferSize ≤ f'.length then
        (some (f'.take frameBufferSize), g.holding (f'.drop frameBufferSize)) else (none, g.holding f') := by
  have hi' : ¬ ((h.holding f).isDirty || !(h.holding f).isReady) = true := by
    rw [show ((h.holding f).isDirty || !(h.holding f).isReady) = h.idle from rfl, hi]
    decide
  rw [flushFrame, if_neg hi', hloop]

/-- **The frames are cut from what the drain loop returns**, and what is left is below one frame. -/
theorem frameDrain_drains : ∀ (n : ℕ) {m : ℕ} {f : Bytes} {h h' : PacketHandler} {outs : List Bytes},
    h.drainLoop m = some (outs, h') → f.length < frameBufferSize ∨ h.idle = false →
    f.length + outs.flatten.length < frameBufferSize * n →
    ∃ (frames : List Bytes) (f' : Bytes), frameDrain n (h.holding f) = some (frames, h'.holding f') ∧
      (∀ frame ∈ frames, frame.length = frameBufferSize) ∧ f'.length < frameBufferSize ∧
      frames.flatten ++ f' = f ++ outs.flatten
  | 0, m, f, h, h', outs, e, hf, hn => by omega
  | n + 1, m, f, h, h', outs, e, hf, hn => by
    rw [frameDrain]
    rw [Nat.mul_succ] at hn
    cases hi : h.idle with
    | true =>
      obtain ⟨rfl, rfl⟩ := drainLoop_idle hi e
      rw [flushFrame_idle (h := h'.holding f) hi]
      exact ⟨[], f, rfl, by simp, hf.resolve_right (by simp [hi]), by simp⟩
    | false =>
      obtain ⟨f', g, hloop, hend⟩ := frameLoop_drains frameBufferSize (f := f) e (by omega)
      have hphase := frameLoop_phase frameBufferSize (h.holding f)
      rw [hloop] at hphase
      have hg : g.idle = false := hphase.idle.trans hi
      rw [flushFrame_eq hi f hloop]
      rcases hend with ⟨hlt, rfl, he⟩ | ⟨hle, m', outs', e', he⟩
      · rw [if_neg (Nat.not_le.2 hlt)]
        exact ⟨[], f', rfl, by simp, hlt, he⟩
      · rw [if_pos hle]
        have hlen := congrArg List.length he
        rw [List.length_append, List.length_append] at hlen
        obtain ⟨frames, f'', e'', hframes, hrest, hcat⟩ := frameDrain_drains n (f := f'.drop frameBufferSize) e'
          (.inr hg) (by rw [List.length_drop]; omega)
        refine ⟨f'.take frameBufferSize :: frames, f'', ?_, ?_, hrest, ?_⟩
        · dsimp only
          rw [e'']
          rfl
        · intro frame hmem
          rcases List.mem_cons.1 hmem with rfl | hmem
          · rw [List.length_take, Nat.min_eq_left hle]
          · exact hframes frame hmem
        · rw [List.flatten_cons, List.append_assoc, hcat, ← List.append_assoc, List.take_append_drop, he]

/-! ## How much a drain returns -/

theorem vbrLoop_length (n : ℕ) (h : PacketHandler) : (h.vbrLoop n).1.length ≤ n := by
  rw [(vbrLoop_flushed n h).2.2]
  exact Nat.min_le_left _ _

theorem flushVbr_length {out : Bytes} (e : h.flushPacketForVbr = (some out, h')) :
    out.length ≤ tsPacketSize + h.getPktSize := by
  have hframe {n : ℕ} {table : List Packet} {g : PacketHandler} (e : g.vbrFrame n table = (some out, h')) :
      out.length ≤ tsPacketSize * (table.length + n) := by
    have hout := congrArg Prod.fst e
    rw [vbrFrame] at hout
    dsimp only at hout
    split_ifs at hout
    cases hout
    rw [length_packets, Nat.mul_comm, List.length_append, List.length_map]
    exact Nat.mul_le_mul_left _ (Nat.add_le_add_left (vbrLoop_length n g) _)
  have hsize : tsPacketSize * (h.getPktSize / tsPacketSize) ≤ h.getPktSize := Nat.mul_div_le _ _
  rw [flushVbr_eq] at e
  split_ifs at e
  · cases e
  · split at e
    · refine (hframe e).trans ?_
      rw [List.length_singleton, Nat.mul_add, Nat.mul_one]
      exact Nat.add_le_add_left ((Nat.mul_le_mul_left _ (Nat.sub_le _ _)).trans hsize) _
    · refine (hframe e).trans ?_
      rw [List.length_nil, Nat.zero_add]
      exact hsize.trans (Nat.le_add_left _ _)

theorem flushVbr_output (h : PacketHandler) : h.flushPacketForVbr.2.output = h.output :=
  steps_output (flushPacketForVbr_steps h)

theorem drainLoop_output : ∀ {m : ℕ} {h h' : PacketHandler} {outs : List Bytes},
    h.drainLoop m = some (outs, h') → h'.output = h.output
  | 0, h, h', outs, e => by cases e
  | m + 1, h, h', outs, e => by
    rw [drainLoop] at e
    have ho := flushVbr_output h
    generalize h.flushPacketForVbr = fp at e ho
    obtain ⟨out, g⟩ := fp
    cases out with
    | none => cases e; exact ho
    | some out =>
      obtain ⟨⟨outs', h''⟩, e, he⟩ := Option.map_eq_some_iff.1 e
      cases he
      exact (drainLoop_output e).trans ho

theorem drainLoop_length : ∀ {m : ℕ} {h h' : PacketHandler} {outs : List Bytes},
    h.drainLoop m = some (outs, h') → outs.flatten.length ≤ m * (tsPacketSize + h.getPktSize)
  | 0, h, h', outs, e => by cases e
  | m + 1, h, h', outs, e => by
    rw [drainLoop] at e
    generalize hflush : h.flushPacketForVbr = fp at e
    obtain ⟨out, g⟩ := fp
    cases out with
    | none =>
      cases e
      exact Nat.zero_le _
    | some out =>
      obtain ⟨⟨outs', h''⟩, e, he⟩ := Option.map_eq_some_iff.1 e
      cases he
      have hg : g.getPktSize = h.getPktSize := by
        have ho := flushVbr_output h
        rw [hflush] at ho
        rw [getPktSize, getPktSize, show g.output = h.output from ho]
      have hrest := drainLoop_length e
      rw [hg] at hrest
      rw [List.flatten_cons, List.length_append, Nat.succ_mul, Nat.add_comm]
      exact Nat.add_le_add hrest (flushVbr_length hflush)

/-! ## The two outputs -/

/-- `while let Some(pkt) = flush_packet_for_vbr()`, run to its end (`drainLoop_drain`). -/
def drain (h : PacketHandler) : List Bytes × PacketHandler := (h.drainLoop (h.pending + 1)).getD ([], h)

/-- More turns than a drain returns bytes. -/
def frameFuel (h : PacketHandler) : ℕ := h.frameBuff.length + (h.pending + 1) * (tsPacketSize + h.getPktSize) + 1

/-- `while let Some(pkt) = flush_frame()`, run to its end (`frameDrain_drainFrames`). -/
def drainFrames (h : PacketHandler) : List Bytes × PacketHandler := (h.frameDrain h.frameFuel).getD ([], h)

/-- An output that is not a proxy, chunk after chunk: what it sent. -/
def serve (turn : PacketHandler → Bytes → Rs (List Bytes × PacketHandler)) :
    PacketHandler → List Bytes → Rs (List Bytes × PacketHandler)
  | h, [] => return ([], h)
  | h, chunk :: chunks => do
    let (sent, h) ← turn h chunk
    let (rest, h) ← serve turn h chunks
    return (sent ++ rest, h)

/-- The packet size is one that the muxer can send: none is set, or there is room for a packet. -/
def Sized (h : PacketHandler) : Prop := h.output.pktSize = 0 ∨ tsPacketSize ≤ h.output.pktSize

theorem drainLoop_drain (hs : h.Sized) : h.drainLoop (h.pending + 1) = some h.drain := by
  have hsome : ∃ x, h.drainLoop (h.pending + 1) = some x := by
    cases hi : h.idle with
    | true => exact ⟨([], h), by rw [drainLoop, flushVbr_eq, if_pos hi]⟩
    | false =>
      simp only [idle, Bool.or_eq_false_iff, Bool.not_eq_false'] at hi
      obtain ⟨outs, h', -, e, -⟩ := drainLoop_flushed (h.pending + 1) hi.2 hi.1 (getPktSize_pos hs)
        (Nat.lt_succ_self _)
      exact ⟨_, e⟩
  obtain ⟨x, e⟩ := hsome
  rw [drain, e]
  rfl

/-- `output_http` cuts its frames from what `output_unix` sends for the same chunk. -/
theorem drainFrames_eq (hs : h.Sized) (hf : f.length < frameBufferSize) :
    ∃ frames f', (h.holding f).frameDrain (h.holding f).frameFuel = some (frames, h.drain.2.holding f') ∧
      (∀ frame ∈ frames, frame.length = frameBufferSize) ∧ f'.length < frameBufferSize ∧
      frames.flatten ++ f' = f ++ h.drain.1.flatten := by
  have e : h.drainLoop (h.pending + 1) = some (h.drain.1, h.drain.2) := drainLoop_drain hs
  refine frameDrain_drains _ e (.inl hf) ?_
  have hlen := drainLoop_length e
  have hfuel : (h.holding f).frameFuel = f.length + (h.pending + 1) * (tsPacketSize + h.getPktSize) + 1 := rfl
  have hbig : (h.holding f).frameFuel ≤ frameBufferSize * (h.holding f).frameFuel :=
    Nat.le_mul_of_pos_left _ (by decide)
  omega

end PacketHandler

end MyMuxer
