import MyMuxer.Mux.Cached
import MyMuxer.Mux.Steps

/-!
# What the cached PMT announces

* `Named`, `Admits`: the PIDs of the configuration, and those among them that reach the queues.
* `Pushes`: `process` pushes the packets of a PID; `pushes_iff`: these are the PIDs it admits.
* **`announced_carried`**: the output carries what its PMT announces exactly when the PMT of the input
  and the configuration agree.
-/

namespace MyMuxer

open Psi

/-- The configuration names the PID. -/
def Named (program : Program) (pid : UInt16) : Prop := pid ∈ program.videoPids ∨ pid ∈ program.audioPids

instance (program : Program) (pid : UInt16) : Decidable (Named program pid) :=
  inferInstanceAs (Decidable (_ ∨ _))

/-- The PIDs that `process` looks for before audio and video. -/
def reservedPids : List UInt16 := [0x0000, 0x0011, 0x1FFF]

/-- Audio and video packets of the PID reach their arm. -/
def Admits (program : Program) (pid : UInt16) : Prop := Named program pid ∧ pid ∉ reservedPids

namespace PacketHandler

variable {env : Env} {program : Program} {pid : UInt16} {h : PacketHandler} {p : Packet}

/-- Output that nothing disturbs. -/
structure Running (program : Program) (h : PacketHandler) : Prop where
  program_eq : h.getProgram = .ok program
  isReady : h.isReady = true
  tables : ∀ k, h.tables.ready k = true
  clean : h.isDirty = false

/-- The packet is the last one of a queue. -/
def Queued (p : Packet) (pid : UInt16) (h h' : PacketHandler) : Prop :=
  ∃ pkt : TsPacket, pkt.data = p ∧ pkt.pid = pid ∧
    (h'.outBuffV.inner = h.outBuffV.inner ++ [pkt] ∨ h'.outBuffA.inner = h.outBuffA.inner ++ [pkt])

/-- While output runs, a clear packet of the PID goes to a queue, once there has been a time stamp. -/
def Pushes (program : Program) (pid : UInt16) : Prop :=
  ∀ (env : Env) (h : PacketHandler) (p : Packet), h.Running program → (h.lastPtsDts pid).isSome = true →
    pktPid p.bytes = pid → pktScramblingControl p.bytes = 0 →
    ∃ h', h.processTs env p = .ok h' ∧ Queued p pid h h'

/-! ## One packet -/

/-- Nothing is to be descrambled in a clear packet. -/
theorem descramble_clear (b : Biss1Descrambler) (hclear : pktScramblingControl p.bytes = 0) :
    (b.descrambleTsPacket p).2 = p := by
  rw [Biss1Descrambler.descrambleTsPacket, (scramblingControl_eq_zero _).1 hclear]
  split_ifs
  · rfl
  · rfl

/-- A clear packet goes on to the match on its PID. -/
theorem processTs_clear (env : Env) (hprog : h.getProgram = .ok program)
    (hclear : pktScramblingControl p.bytes = 0) :
    ∃ dirtyCa, (h.dirtyCa = false → dirtyCa = false) ∧
      h.processTs env p = processPid env { h with dirtyCa } program (pktPid p.bytes) p := by
  rw [processTs, hprog, ok_bind]
  split
  · rename_i b _ _
    exact ⟨h.dirtyCa, id, by rw [descramble_clear b hclear]⟩
  · rw [if_neg (by simpa using hclear)]
    exact ⟨false, fun _ => rfl, rfl⟩

theorem Running.processTs (env : Env) (r : h.Running program) (hclear : pktScramblingControl p.bytes = 0) :
    ∃ dirtyCa, { h with dirtyCa }.Running program ∧
      h.processTs env p = processPid env { h with dirtyCa } program (pktPid p.bytes) p := by
  have hclean := r.clean
  rw [isDirty, Bool.or_eq_false_iff] at hclean
  obtain ⟨dirtyCa, hca, e⟩ := processTs_clear env r.program_eq hclear
  refine ⟨dirtyCa, ⟨r.program_eq, r.isReady, r.tables, ?_⟩, e⟩
  rw [isDirty, hca hclean.2]
  exact Bool.or_eq_false_iff.2 ⟨hclean.1, rfl⟩

/-- While output runs, all that the match on the PID leaves is audio and video. -/
theorem Running.processPid (r : h.Running program) : h.processPid env program pid p =
    if pid ∉ reservedPids ∧ Named program pid then h.processMedia program pid p else .ok h := by
  have hpat : ¬ (h.tables.patReady = false ∨ h.isReady = false) := by
    simp [r.isReady, show h.tables.patReady = true from r.tables .pat]
  have hpmt : ¬ (pid = program.pmtPid ∧ (h.tables.pmtReady = false ∨ h.isReady = false)) := by
    simp [r.isReady, show h.tables.pmtReady = true from r.tables .pmt]
  have hsdt : ¬ (h.tables.patReady = true ∧ h.tables.sdtReady = false) := by
    simp [show h.tables.sdtReady = true from r.tables .sdt]
  have hclean : ¬ h.isDirty = true := by simp [r.clean]
  rw [PacketHandler.processPid, if_neg hpat, if_neg hpmt, if_neg hclean, if_neg hsdt]
  by_cases h1 : pid = 0x1FFF
  · simp [h1, reservedPids]
  by_cases h2 : pid = 0x0000
  · simp [h2, reservedPids]
  by_cases h3 : pid = 0x0011
  · simp [h3, reservedPids]
  have hres : pid ∉ reservedPids := by simp [reservedPids, h1, h2, h3]
  have hnamed : (pid ∈ program.audioPids ∨ pid ∈ program.videoPids) = Named program pid :=
    propext or_comm
  simp only [if_neg h1, if_neg h2, if_neg h3, hnamed, hres, not_false_eq_true, true_and]
  rfl

/-- Audio and video packets are queued once there has been a time stamp. -/
theorem processMedia_queued (hn : Named program pid) (hlast : (h.lastPtsDts pid).isSome = true) :
    ∃ h', h.processMedia program pid p = .ok h' ∧ Queued p pid h h' := by
  obtain ⟨lastPtsDts, lastCc, ccErrors, ⟨hnone, -⟩ | ⟨pkt, hd, hp, e⟩⟩ := processMedia_spec h program pid p
  · rw [hnone] at hlast
    cases hlast
  · refine ⟨_, e, pkt, hd, hp, ?_⟩
    rw [PacketHandler.push, hp]
    split_ifs with h1 h2
    · exact .inl rfl
    · exact .inr rfl
    · exact absurd hn (not_or.2 ⟨h1, h2⟩)

/-- Some handler runs undisturbed and has seen a time stamp of the PID. -/
theorem exists_running (program : Program) (pid : UInt16) :
    ∃ h : PacketHandler, h.Running program ∧ (h.lastPtsDts pid).isSome = true := by
  have hnew : (new Env.sample { Tables.onePmtOutput with programs := [program] }).isSome = true := rfl
  obtain ⟨h, hh⟩ := Option.isSome_iff_exists.1 hnew
  have hget : h.output.programs = [program] := by
    cases hh
    rfl
  refine ⟨{ h with
    isReady := true
    lastPtsDts := fun _ => some (0, 0)
    tables := { Tables.new with patReady := true, pmtReady := true, sdtReady := true }
    dirtyCa := false }, ⟨?_, rfl, ?_, rfl⟩, rfl⟩
  · rw [getProgram, hget]
    rfl
  · rintro (_ | _ | _) <;> rfl

/-- **`process` pushes the packets of the PIDs it admits**, and no others. -/
theorem pushes_iff (hpid : pid ≤ 0x1FFF) : Pushes program pid ↔ Admits program pid := by
  constructor
  · intro hpush
    by_contra hadmit
    obtain ⟨h, r, hlast⟩ := exists_running program pid
    have hp : pktPid (packed false pid 0 []).bytes = pid := packed_pid hpid (Nat.zero_le _)
    have hclear : pktScramblingControl (packed false pid 0 []).bytes = 0 := packed_clear (Nat.zero_le _)
    obtain ⟨h', e, pkt, -, -, hq⟩ := hpush Env.sample h _ r hlast hp hclear
    obtain ⟨dirtyCa, r', e'⟩ := r.processTs Env.sample hclear
    rw [e', hp, r'.processPid, if_neg fun hc => hadmit ⟨hc.2, hc.1⟩] at e
    cases e
    rcases hq with hq | hq
    · simp at hq
    · simp at hq
  · rintro ⟨hn, hres⟩ env h p r hlast hp hclear
    obtain ⟨dirtyCa, r', e⟩ := r.processTs env hclear
    rw [e, hp, r'.processPid, if_pos ⟨hres, hn⟩]
    exact processMedia_queued hn hlast

end PacketHandler

/-! ## The cached PMT -/

namespace Tables

variable {env : Env} {output : Output} {program : Program} {t : Tables} {p : Packet} {s : Bytes}

/-- A stream stays, under its own PID, where the configuration names it. -/
theorem patchStream_esMapping (program : Program) (stripCa : Bool) (st : EsStream) :
    patchStream (esMapping program) stripCa st =
      if Named program st.pid then some { st with descriptors := patchDescriptors st.descriptors stripCa }
      else none := by
  rw [patchStream, esMapping, List.find?_map, Option.map_map]
  split_ifs with hn
  · have hmem : st.pid ∈ program.videoPids ++ program.audioPids := List.mem_append.2 hn
    cases hf : (program.videoPids ++ program.audioPids).find? _ with
    | none =>
      have hne := List.find?_eq_none.1 hf _ hmem
      simp at hne
    | some pid =>
      have hpid : pid = st.pid := by simpa using List.find?_some hf
      simp [hpid]
  · rw [Option.map_eq_none_iff, List.find?_eq_none]
    intro pid hmem
    simp only [Function.comp_apply, decide_eq_true_eq]
    rintro rfl
    exact hn (List.mem_append.1 hmem)

/-- The PIDs that stay. -/
theorem forall_patched (program : Program) (stripCa : Bool) (streams : List EsStream) (P : UInt16 → Prop) :
    (∀ st ∈ streams.filterMap (patchStream (esMapping program) stripCa), P st.pid) ↔
      ∀ st ∈ streams, Named program st.pid → P st.pid := by
  simp only [List.mem_filterMap, patchStream_esMapping]
  constructor
  · intro hP st hst hn
    have hst' := hP { st with descriptors := patchDescriptors st.descriptors stripCa } ⟨st, hst, if_pos hn⟩
    exact hst'
  · rintro hP st' ⟨st, hst, e⟩
    split_ifs at e with hn
    cases e
    exact hP st hst hn

/-- **What the cached PMT announces is carried** exactly when the PMT of the input and the configuration
agree on the PCR, and no PID that stays is reserved. -/
theorem announced_carried (hpush : (t.psiReasm.push p.bytes).1 = some s) (hwf : WellFormedPmt s)
    (hready : t.pmtReady = false) : ∃ patched t' info, t.processPmt env output program p = .ok t' ∧
      t'.pmtReady = true ∧ t'.pmt = pack patched (pktPid p.bytes) (cachedCc t.pmt) ∧
      analyzePmt patched = .ok info ∧
      ((info.pcrPid = program.pcrPid ∧ PacketHandler.Pushes program info.pcrPid ∧
          ∀ st ∈ info.streams, PacketHandler.Pushes program st.pid) ↔
        pmtPcrPid s = program.pcrPid ∧ Admits program (pmtPcrPid s) ∧
          ∀ st ∈ pmtStreams s, Named program st.pid → st.pid ∉ reservedPids) := by
  obtain ⟨t', e, hready', hpmt⟩ := processPmt_eq env output program hpush hwf hready
  have hl := hwf.length_ge
  have h8 : (s.take 8).length = 8 := by
    rw [List.length_take]
    omega
  have hpcr : pmtPcrPid s ≤ 0x1FFF := be16_le_pid _ _
  have hd : (patchDescriptors (programDescriptors s) (stripsCa output)).length < 4096 :=
    (patchDescriptors_length _ _).trans_lt (programDescriptors_length s)
  have hfits : ∀ st ∈ (pmtStreams s).filterMap (patchStream (esMapping program) (stripsCa output)),
      st.Fits := by
    intro st' hst'
    obtain ⟨st, hst, est⟩ := List.mem_filterMap.1 hst'
    have hfit : st.Fits := esStreams_fits st hst
    refine ⟨?_, (patchStream_length est).trans_lt hfit.length_lt⟩
    rw [patchStream_esMapping] at est
    split_ifs at est
    cases est
    exact hfit.pid_le
  refine ⟨_, t', _, e, hready', hpmt,
    analyzePmt_eq (pmtBytes_wellFormed env h8 _ hd fun st h => (hfits st h).length_lt), ?_⟩
  dsimp only
  rw [pmtPcrPid_pmtBytes env h8 hpcr, pmtStreams_pmtBytes env h8 _ hd hfits, PacketHandler.pushes_iff hpcr,
    List.forall_mem_map]
  have hstreams : (∀ st ∈ (pmtStreams s).filterMap (patchStream (esMapping program) (stripsCa output)),
      PacketHandler.Pushes program st.info.pid) ↔
        ∀ st ∈ pmtStreams s, Named program st.pid → st.pid ∉ reservedPids := by
    refine (forall_patched program (stripsCa output) (pmtStreams s) fun pid =>
      PacketHandler.Pushes program pid).trans ?_
    refine forall₂_congr fun st hst => forall_congr' fun hn => ?_
    have hfit : st.Fits := esStreams_fits st hst
    rw [PacketHandler.pushes_iff hfit.pid_le]
    exact and_iff_right hn
  rw [hstreams]

/-- A configuration that takes the PCR from its audio PID. -/
def audioPcrProgram : Program := { onePmtProgram with audioPids := [0x101], pcrPid := 0x101 }

/-- The PMT announces the PCR of the input on the video PID, and the PCR is restamped on the audio PID. -/
theorem wrong_pcr_announced : WellFormedPmt onePmt ∧ ∃ patched t' info,
    (Tables.new.psiReasm.push (packed true 0x1000 0 onePmt).bytes).1 = some onePmt ∧
    Tables.new.processPmt Env.sample { onePmtOutput with programs := [audioPcrProgram] } audioPcrProgram
      (packed true 0x1000 0 onePmt) = .ok t' ∧ t'.pmtReady = true ∧ t'.pmt = pack patched 0x1000 0 ∧
    analyzePmt patched = .ok info ∧ info.pcrPid = 0x100 ∧ audioPcrProgram.pcrPid = 0x101 := by
  refine ⟨⟨by decide, by decide, .entry (by decide) .nil⟩, ?_⟩
  obtain ⟨patched, hpatched, hinfo⟩ := ok_of_map (x := patchPmtSection Env.sample onePmt 0x100
    (esMapping audioPcrProgram) false) (f := fun patched => (analyzePmt patched).toOption.map PmtInfo.pcrPid)
    (b := some 0x100) (by decide +kernel)
  obtain ⟨info, hinfo, hpcr⟩ := ok_of_map hinfo
  obtain ⟨t', e, h'⟩ := ok_of_map (x := Tables.new.processPmt Env.sample
      { onePmtOutput with programs := [audioPcrProgram] } audioPcrProgram (packed true 0x1000 0 onePmt))
    (f := fun t' => (t'.pmtReady, some t'.pmt.bytes))
    (b := (true, (patchPmtSection Env.sample onePmt 0x100 (esMapping audioPcrProgram) false).toOption.map
      fun patched =>
      (pack patched 0x1000 0).bytes)) (by decide +kernel)
  obtain ⟨hready, hpmt⟩ := Prod.mk.inj h'
  rw [hpatched] at hpmt
  exact ⟨patched, t', info, by decide +kernel, e, hready, Packet.ext (Option.some.inj hpmt), hinfo, hpcr, rfl⟩

/-- The same PMT is carried as announced where the PCR of the configuration is the video PID. -/
theorem announced_carried_sample : ∃ (t' : Tables) (info : PmtInfo),
    Tables.new.processPmt Env.sample onePmtOutput onePmtProgram (packed true 0x1000 0 onePmt) = .ok t' ∧
    info.pcrPid = onePmtProgram.pcrPid ∧ PacketHandler.Pushes onePmtProgram info.pcrPid := by
  have hwf : WellFormedPmt onePmt := ⟨by decide, by decide, .entry (by decide) .nil⟩
  obtain ⟨patched, t', info, e, -, -, -, hiff⟩ := @announced_carried Env.sample onePmtOutput
    onePmtProgram Tables.new (packed true 0x1000 0 onePmt) onePmt (by decide +kernel) hwf rfl
  have hadmits : Admits onePmtProgram (pmtPcrPid onePmt) := ⟨by decide, by decide⟩
  have hstreams : ∀ st ∈ pmtStreams onePmt, Named onePmtProgram st.pid → st.pid ∉ reservedPids := by decide
  obtain ⟨hpcr, hpushes, -⟩ := hiff.2 ⟨by decide, hadmits, hstreams⟩
  exact ⟨t', info, e, hpcr, hpushes⟩

end Tables

end MyMuxer
