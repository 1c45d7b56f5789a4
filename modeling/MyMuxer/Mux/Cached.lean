import MyMuxer.Mux.Tables
import MyMuxer.Psi.Layout

/-!
# Cached tables as a receiver reads them

`process_pat` and `process_pmt` keep the first packet of the patched section, and `flush_psi_packets`
repeats this packet alone.

* `push_pack`: a receiver gets the whole section from it when it has no more than 183 bytes.
* **`cached_whole`**: so the cached PAT is always whole, and the cached PMT exactly when what is kept
  of the section is short enough.
-/

namespace MyMuxer

open Psi

/-- What a fresh reassembler makes of the packet that carries the beginning of a section. -/
theorem push_pack (s : PsiSection) {pid : UInt16} (hpid : pid ≤ 0x1FFF) (cc : UInt8) :
    ((SectionReassembler.new pid).push (pack s.bytes pid cc).bytes).1 =
      if s.bytes.length ≤ 183 then some s.bytes else none := by
  have hpush := push_first (r := .new pid) cc hpid (List.length_take_le 183 s.bytes)
  rw [pack_eq]
  refine (congrArg Prod.fst hpush).trans ?_
  split_ifs with h
  · rw [List.take_of_length_le h, takeComplete_whole (s := s) rfl rfl (.inl rfl)]
  · have hfull : padded true (s.bytes.take 183) = s.bytes.take 183 := by
      simp [padded, capacity, Nat.min_eq_left (Nat.le_of_not_le h)]
    have f : Follows pid s (s.bytes.drop 183) ⟨pid, s.bytes.take 183, none⟩ := by
      refine ⟨rfl, ?_, List.take_append_drop 183 s.bytes, ?_, .inl rfl⟩
      · rw [← List.length_pos_iff, List.length_take]
        omega
      · rw [← List.length_pos_iff, List.length_drop]
        omega
    obtain ⟨r', e, -⟩ := takeComplete_follows f
    rw [hfull]
    exact congrArg Prod.fst e

namespace Tables

/-- The streams of the configuration, each under its own PID. -/
def esMapping (program : Program) : List (UInt16 × UInt16) :=
  (program.videoPids ++ program.audioPids).map fun oldPid => (oldPid, oldPid)

def stripsCa (output : Output) : Bool := decide (output.caFlag = caFlagUnscrambled)

variable {env : Env} {output : Output} {program : Program} {t : Tables} {p : Packet} {s : Bytes}

/-- `process_pmt` with a well-formed section, no PMT being cached. -/
theorem processPmt_eq (env : Env) (output : Output) (program : Program)
    (hpush : (t.psiReasm.push p.bytes).1 = some s) (hwf : WellFormedPmt s)
    (hready : t.pmtReady = false) : ∃ t', t.processPmt env output program p = .ok t' ∧ t'.pmtReady = true ∧
      t'.pmt = pack (pmtBytes env (s.take 8) (pmtPcrPid s)
        (patchDescriptors (programDescriptors s) (stripsCa output))
        ((pmtStreams s).filterMap (patchStream (esMapping program) (stripsCa output)))) (pktPid p.bytes)
        (cachedCc t.pmt) := by
  obtain ⟨patched, hpatched, hwf'⟩ :=
    patchPmtSection_ok env hwf (pmtPcrPid s) (esMapping program) (stripsCa output)
  obtain ⟨info, hinfo⟩ := analyzePmt_ok hwf'
  have heq := patchPmtSection_eq env hwf (pmtPcrPid s) (esMapping program) (stripsCa output)
  rw [hpatched] at heq
  rw [processPmt]
  generalize t.psiReasm.push p.bytes = found at hpush
  obtain ⟨o, reasm⟩ := found
  cases hpush
  dsimp only
  rw [analyzePmt_eq hwf, ok_bind, if_pos hready]
  dsimp only
  rw [show (List.map (fun oldPid => (oldPid, oldPid)) (program.videoPids ++ program.audioPids)) =
      esMapping program
    from rfl, show decide (output.caFlag = caFlagUnscrambled) = stripsCa output from rfl,
    hpatched, ok_bind, hinfo]
  exact ⟨_, rfl, rfl, by rw [← Except.ok.inj heq]⟩

/-- `process_pat` with a well-formed section, no PAT being cached. -/
theorem processPat_eq (env : Env) (program : Program)
    (hpush : (t.psiReasm.push p.bytes).1 = some s) (hwf : WellFormedPat s)
    (hready : t.patReady = false) : ∃ t', t.processPat env program p = .ok t' ∧ t'.patReady = true ∧
      t'.pat = pack (withCrc env
        (setSectionLength (s.take 8 ++ [(program.programId, program.pmtPid)].flatMap patEntry)))
        (pktPid p.bytes) (cachedCc t.pat) := by
  obtain ⟨patched, hpatched, hwf'⟩ := patchPatSection_ok env hwf [(program.programId, program.pmtPid)]
  obtain ⟨info, hinfo⟩ := analyzePat_ok hwf
  obtain ⟨info', hinfo'⟩ := analyzePat_ok hwf'
  have heq := patchPatSection_eq env hwf [(program.programId, program.pmtPid)]
  rw [hpatched] at heq
  rw [processPat]
  generalize t.psiReasm.push p.bytes = found at hpush
  obtain ⟨o, reasm⟩ := found
  cases hpush
  dsimp only
  rw [hinfo, ok_bind, if_pos hready, hpatched, ok_bind, hinfo']
  exact ⟨_, rfl, rfl, by rw [← Except.ok.inj heq]⟩

/-- A section with its length set and its CRC, as a section. -/
def closed (env : Env) (x : Bytes) (h3 : 3 ≤ x.length) (hlt : x.length + 1 < 4096) : PsiSection where
  bytes := withCrc env (setSectionLength x)
  three_le := by rw [length_withCrc]; omega
  sectionLen_eq := by rw [sectionLen_withCrc env h3 hlt, length_withCrc]; omega

/-- **What a receiver gets from the cached packet.** The whole patched PAT, always; the whole patched
PMT exactly when what is kept of the section has no more than 183 bytes. -/
theorem cached_whole (hpush : (t.psiReasm.push p.bytes).1 = some s) (hlen : HasLength s) :
    (WellFormedPmt s → t.pmtReady = false → ∃ patched t',
      patchPmtSection env s (pmtPcrPid s) (esMapping program) (stripsCa output) = .ok patched ∧
      t.processPmt env output program p = .ok t' ∧ t'.pmtReady = true ∧
      (((SectionReassembler.new (pktPid p.bytes)).push t'.pmt.bytes).1 = some patched ↔
        patchedLength (esMapping program) (stripsCa output) s ≤ 183)) ∧
    (WellFormedPat s → t.patReady = false → ∃ patched t',
      patchPatSection env s [(program.programId, program.pmtPid)] = .ok patched ∧
      t.processPat env program p = .ok t' ∧ t'.patReady = true ∧
      ((SectionReassembler.new (pktPid p.bytes)).push t'.pat.bytes).1 = some patched) := by
  constructor
  · intro hwf hready
    have hl := hwf.length_ge
    have hle := patchedLength_le hwf (esMapping program) (stripsCa output)
    have hmax := sectionLen_lt s
    have h8 : (s.take 8).length = 8 := by
      rw [List.length_take]
      omega
    have hlength := length_pmtBytes env h8 (pmtPcrPid s)
      (patchDescriptors (programDescriptors s) (stripsCa output))
      ((pmtStreams s).filterMap (patchStream (esMapping program) (stripsCa output)))
    rw [length_flatMap_bytes] at hlength
    change _ = patchedLength (esMapping program) (stripsCa output) s at hlength
    obtain ⟨t', e, hready', hpmt⟩ := processPmt_eq env output program hpush hwf hready
    refine ⟨_, t', patchPmtSection_eq env hwf _ _ _, e, hready', ?_⟩
    have hge : 16 ≤ patchedLength (esMapping program) (stripsCa output) s := by
      rw [patchedLength, Nat.add_assoc]
      exact Nat.le_add_right _ _
    rw [HasLength] at hlen
    -- the patched section, before its length and its CRC are set
    obtain ⟨x, hx⟩ : ∃ x, pmtBytes env (s.take 8) (pmtPcrPid s) (patchDescriptors (programDescriptors s)
        (stripsCa output)) ((pmtStreams s).filterMap (patchStream (esMapping program) (stripsCa output))) =
          withCrc env (setSectionLength x) := ⟨_, rfl⟩
    rw [hx] at hpmt hlength ⊢
    have h := push_pack (closed env x (by rw [length_withCrc] at hlength; omega)
      (by rw [length_withCrc] at hlength; omega)) (pktPid_le p.bytes) (cachedCc t.pmt)
    change _ = if (withCrc env (setSectionLength x)).length ≤ 183 then
      some (withCrc env (setSectionLength x)) else _ at h
    rw [hpmt, ← hlength]
    refine (Eq.congr_left h).trans ?_
    rw [ite_eq_left_iff]
    exact ⟨fun hn => by_contra fun h => Option.some_ne_none _ (hn h).symm, fun h hn => absurd h hn⟩
  · intro hwf hready
    have hl : 12 ≤ s.length := hwf
    obtain ⟨t', e, hready', hpat⟩ := processPat_eq env program hpush hwf hready
    refine ⟨_, t', patchPatSection_eq env hwf _, e, hready', ?_⟩
    have hx : (s.take 8 ++ [(program.programId, program.pmtPid)].flatMap patEntry).length = 12 := by
      rw [List.length_append, List.length_take, Nat.min_eq_left (by omega)]
      rfl
    have h := push_pack (closed env _ (by rw [hx]; decide) (by rw [hx]; decide))
      (pktPid_le p.bytes) (cachedCc t.pat)
    rw [if_pos (by change (withCrc env _).length ≤ 183; rw [length_withCrc, hx]; decide)] at h
    rw [hpat]
    exact h

/-- A PMT with one stream and 180 bytes of descriptors. -/
def longPmt : Bytes :=
  [0x02, 0xB0, 0xC6, 0x00, 0x01, 0xC1, 0x00, 0x00, 0xE1, 0x00, 0xF0, 0x00, 0x1B, 0xE1, 0x00, 0xF0,
   0xB4, 0x05, 0xB2] ++
    List.replicate 182 0x00

def onePmtProgram : Program where
  programId := 1
  audioPids := []
  videoPids := [0x100]
  pmtPid := 0x1000
  pcrPid := 0x100
  serviceName := "s"
  serviceProviderName := "p"
  serviceType := 1
  bufferDuration := 0
  jitter := 1000
  adjustBuf := 0

def onePmtOutput : Output where
  bissKey := ""
  caFlag := 0
  pktSize := 0
  cbr := 0
  proxy := false
  programs := [onePmtProgram]

/-- The cache holds the beginning of the long PMT, and no receiver gets a section from it. -/
theorem long_pmt_cut : ∃ t t' : Tables, WellFormedPmt longPmt ∧ HasLength longPmt ∧ t.pmtReady = false ∧
    (t.psiReasm.push (packed false 0x1000 1 (longPmt.drop 183)).bytes).1 = some longPmt ∧
    t.processPmt Env.sample onePmtOutput onePmtProgram (packed false 0x1000 1 (longPmt.drop 183)) = .ok t' ∧
    t'.pmtReady = true ∧ ((SectionReassembler.new 0x1000).push t'.pmt.bytes).1 = none := by
  have hwf : WellFormedPmt longPmt := by
    refine ⟨by decide +kernel, by decide +kernel, .entry (by decide +kernel) ?_⟩
    rw [show 12 + programInfoLen longPmt + 5 + esInfoLen longPmt (12 + programInfoLen longPmt) =
      longPmt.length - 4 by decide +kernel]
    exact .nil
  obtain ⟨t, -, hcheck⟩ := ok_of_map (x := Tables.new.processPmt Env.sample onePmtOutput onePmtProgram
      (packed true 0x1000 0 (longPmt.take 183)))
    (f := fun t => (t.pmtReady, (t.psiReasm.push (packed false 0x1000 1 (longPmt.drop 183)).bytes).1,
      (t.processPmt Env.sample onePmtOutput onePmtProgram
        (packed false 0x1000 1 (longPmt.drop 183))).toOption.map fun t' =>
          (t'.pmtReady, ((SectionReassembler.new 0x1000).push t'.pmt.bytes).1)))
    (b := (false, some longPmt, some (true, none))) (by decide +kernel)
  obtain ⟨hready, hpush, hnext⟩ : _ ∧ _ ∧ _ := by simpa only [Prod.mk.injEq] using hcheck
  obtain ⟨t', e, h'⟩ := ok_of_map hnext
  obtain ⟨hready', hcut⟩ := Prod.mk.inj h'
  exact ⟨t, t', hwf, by decide +kernel, hready, hpush, e, hready', hcut⟩

/-- A receiver gets the short one. -/
theorem cached_whole_sample : ∃ patched t', patchedLength (esMapping onePmtProgram) false onePmt = 21 ∧
    Tables.new.processPmt Env.sample onePmtOutput onePmtProgram (packed true 0x1000 0 onePmt) = .ok t' ∧
    ((SectionReassembler.new 0x1000).push t'.pmt.bytes).1 = some patched := by
  have hwf : WellFormedPmt onePmt := ⟨by decide, by decide, .entry (by decide) .nil⟩
  have hlength : patchedLength (esMapping onePmtProgram) false onePmt = 21 := by decide +kernel
  obtain ⟨patched, t', -, e, -, hwhole⟩ := (cached_whole (t := Tables.new) (s := onePmt)
    (p := packed true 0x1000 0 onePmt) (by decide +kernel) (by decide)).1 hwf rfl
  have hpid : pktPid (packed true 0x1000 0 onePmt).bytes = 0x1000 := by decide +kernel
  rw [hpid] at hwhole
  exact ⟨patched, t', hlength, e, hwhole.2 (hlength.trans_le (by decide))⟩

end Tables

end MyMuxer
