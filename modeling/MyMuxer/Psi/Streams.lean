import MyMuxer.Psi.Pmt

/-!
# The streams of a PMT

* `EsStream`, `pmtStreams`: the stream entries of a well-formed section, as a list.
* `analyzePmt_eq`, `patchPmtSection_eq`: what the two functions of `psi/pmt.rs` are on that list.
* `pmtBytes`: a section put together from its parts; **`pmtStreams_pmtBytes`**: its streams are read
  back from it.
* `analyzePmt_ok`, `patchPmtSection_ok`: no panic on a well-formed section, and a patched section is
  well formed again.
-/

namespace MyMuxer.Psi

open MyMuxer

/-- A stream entry. -/
structure EsStream where
  streamType : UInt8
  pid : UInt16
  descriptors : Bytes
  deriving DecidableEq

namespace EsStream

def bytes (st : EsStream) : Bytes := esEntry st.streamType st.pid st.descriptors

/-- What `analyze_pmt` says about an entry. -/
def info (st : EsStream) : StreamInfo :=
  { streamType := st.streamType, pid := st.pid, descriptors := pasreDescriptors st.descriptors,
    description := "" }

/-- The fields of an entry fit their places. -/
structure Fits (st : EsStream) : Prop where
  pid_le : st.pid ≤ 0x1FFF
  length_lt : st.descriptors.length < 4096

end EsStream

/-- What `patch_pmt_section` makes of an entry: nothing, where no mapping names its PID. -/
def patchStream (esMappings : List (UInt16 × UInt16)) (stripCa : Bool) (st : EsStream) : Option EsStream :=
  (esMappings.find? fun m => m.1 = st.pid).map fun m =>
    { st with pid := m.2, descriptors := patchDescriptors st.descriptors stripCa }

/-- The entries from a position on, on fuel. -/
def esStreams (s : Bytes) (sectionEnd : ℕ) : ℕ → ℕ → List EsStream
  | 0, _ => []
  | fuel + 1, pos =>
    if pos + 5 ≤ sectionEnd then
      { streamType := byte s pos, pid := be16 0x1F (byte s (pos + 1)) (byte s (pos + 2)),
        descriptors := (s.drop (pos + 5)).take (esInfoLen s pos) } ::
        esStreams s sectionEnd fuel (pos + 5 + esInfoLen s pos)
    else []

def pmtPcrPid (s : Bytes) : UInt16 := be16 0x1F (byte s 8) (byte s 9)

def programDescriptors (s : Bytes) : Bytes := (s.drop 12).take (programInfoLen s)

def pmtStreams (s : Bytes) : List EsStream := esStreams s (s.length - 4) s.length (12 + programInfoLen s)

/-- A section put together from its parts. -/
def pmtBytes (env : Env) (header : Bytes) (pcrPid : UInt16)
    (descriptors : Bytes) (streams : List EsStream) : Bytes :=
  withCrc env (setSectionLength (header ++ reserved16 0x1F 0xE0 pcrPid ++
    reserved16 0x0F 0xF0 (UInt16.ofNat descriptors.length) ++ descriptors ++ streams.flatMap EsStream.bytes))

/-! ## Fields -/

theorem be16_le {k : ℕ} (hk : k ≤ 8) {mask : UInt16} (hm : mask.toNat = 2 ^ k - 1) (hi lo : UInt8) :
    (be16 mask hi lo).toNat < 2 ^ k * 256 := by
  rw [be16_toNat hk hm]
  have h1 := Nat.mod_lt hi.toNat (show 0 < 2 ^ k by positivity)
  have h2 := lo.toNat_lt
  have h3 : hi.toNat % 2 ^ k * 256 + 256 ≤ 2 ^ k * 256 := by
    rw [← Nat.succ_mul]
    exact Nat.mul_le_mul_right _ h1
  omega

theorem be16_lt (hi lo : UInt8) : (be16 0x0F hi lo).toNat < 4096 := be16_le (k := 4) (by norm_num) rfl hi lo

theorem be16_le_pid (hi lo : UInt8) : be16 0x1F hi lo ≤ 0x1FFF := by
  have h : (be16 0x1F hi lo).toNat < 2 ^ 5 * 256 := be16_le (by norm_num) rfl hi lo
  rw [UInt16.le_iff_toNat_le, show (0x1FFF : UInt16).toNat = 8191 from rfl]
  omega

/-- A field survives being written under the reserved bits and read back. -/
theorem be16_reserved16 {k : ℕ} (hk : k ≤ 8) {mask : UInt16} (hm : mask.toNat = 2 ^ k - 1) {low hi : UInt8}
    (hhi : ∀ b : UInt8, (b &&& low ||| hi).toNat % 2 ^ k = b.toNat % 2 ^ k) {v : UInt16}
    (hv : v.toNat < 2 ^ k * 256) :
    be16 mask (byte (reserved16 low hi v) 0) (byte (reserved16 low hi v) 1) = v := by
  apply UInt16.toNat_inj.1
  rw [be16_toNat hk hm]
  change ((v >>> 8).toUInt8 &&& low ||| hi).toNat % 2 ^ k * 256 + (v &&& 0xFF).toUInt8.toNat = v.toNat
  have hlt : v.toNat / 256 < 2 ^ k := Nat.div_lt_of_lt_mul (by omega)
  rw [hhi, toNat_highByte, toNat_lowByte, Nat.mod_eq_of_lt hlt]
  omega

/-- A 12-bit length. -/
theorem be16_length {n : ℕ} (h : n < 4096) :
    (be16 0x0F (byte (reserved16 0x0F 0xF0 (UInt16.ofNat n)) 0)
      (byte (reserved16 0x0F 0xF0 (UInt16.ofNat n)) 1)).toNat = n := by
  have hn : (UInt16.ofNat n).toNat = n := UInt16.toNat_ofNat_of_lt' (show n < 65536 by omega)
  rw [be16_reserved16 (k := 4) (by norm_num) rfl (by decide) (by omega), hn]

/-- A 13-bit PID. -/
theorem be16_pid {pid : UInt16} (h : pid ≤ 0x1FFF) :
    be16 0x1F (byte (reserved16 0x1F 0xE0 pid) 0) (byte (reserved16 0x1F 0xE0 pid) 1) = pid := by
  have : pid.toNat ≤ 8191 := UInt16.le_iff_toNat_le.1 h
  exact be16_reserved16 (k := 5) (by norm_num) rfl (by decide) (by omega)

theorem esStreams_fits {s : Bytes} {sectionEnd : ℕ} : ∀ {fuel pos : ℕ},
    ∀ st ∈ esStreams s sectionEnd fuel pos, st.Fits
  | 0, _ => fun _ h => absurd h (by simp [esStreams])
  | fuel + 1, pos => by
    intro st hst
    rw [esStreams] at hst
    split_ifs at hst
    · rcases List.mem_cons.1 hst with rfl | hst
      · refine ⟨be16_le_pid _ _, ?_⟩
        have := be16_lt (byte s (pos + 3)) (byte s (pos + 4))
        rw [List.length_take]
        exact (Nat.min_le_left _ _).trans_lt this
      · exact esStreams_fits st hst
    · simp at hst

/-! ## What the parsers are on streams -/

variable {s : Bytes} {sectionEnd pos : ℕ}

theorem analyzePmtLoop_eq (hs : sectionEnd ≤ s.length) (h : EsTiles s sectionEnd pos) : ∀ fuel,
    analyzePmtLoop s sectionEnd fuel pos = .ok ((esStreams s sectionEnd fuel pos).map EsStream.info) := by
  induction h with
  | nil =>
    intro fuel
    cases fuel with
    | zero => rfl
    | succ fuel =>
      rw [analyzePmtLoop, if_neg (by omega), esStreams, if_neg (by omega)]
      rfl
  | @entry pos hle _ ih =>
    intro fuel
    cases fuel with
    | zero => rfl
    | succ fuel =>
      have ih := ih fuel
      unfold esInfoLen at hle ih
      rw [analyzePmtLoop, if_pos (by omega), idx_of_lt (by omega), ok_bind, idx_of_lt (by omega), ok_bind,
        idx_of_lt (by omega), ok_bind, idx_of_lt (by omega), ok_bind, idx_of_lt (by omega), ok_bind]
      dsimp only
      rw [slice_of_le (by omega) (by omega), ok_bind, ih, esStreams, if_pos (by omega), Nat.add_sub_cancel_left]
      rfl

theorem analyzePmt_eq (h : WellFormedPmt s) :
    analyzePmt s = .ok { pcrPid := pmtPcrPid s, streams := (pmtStreams s).map EsStream.info } := by
  have hl := h.length_ge
  have hs := analyzePmtLoop_eq (Nat.sub_le _ _) h.tiles s.length
  unfold programInfoLen at hs
  rw [analyzePmt, idx_of_lt (by omega), ok_bind, idx_of_lt (by omega), ok_bind, idx_of_lt (by omega),
    ok_bind, idx_of_lt (by omega), ok_bind]
  dsimp only
  rw [hs]
  rfl

theorem patchPmtLoop_eq (esMappings : List (UInt16 × UInt16)) (stripCa : Bool) (hs : sectionEnd ≤ s.length)
    (h : EsTiles s sectionEnd pos) : ∀ fuel, patchPmtLoop s esMappings stripCa sectionEnd fuel pos =
      .ok (((esStreams s sectionEnd fuel pos).filterMap (patchStream esMappings stripCa)).flatMap
        EsStream.bytes) := by
  induction h with
  | nil =>
    intro fuel
    cases fuel with
    | zero => rfl
    | succ fuel =>
      rw [patchPmtLoop, if_neg (by omega), esStreams, if_neg (by omega)]
      rfl
  | @entry pos hle _ ih =>
    intro fuel
    cases fuel with
    | zero => rfl
    | succ fuel =>
      have ih := ih fuel
      unfold esInfoLen at hle ih
      rw [patchPmtLoop, if_pos (by omega), idx_of_lt (by omega), ok_bind, idx_of_lt (by omega), ok_bind,
        idx_of_lt (by omega), ok_bind, idx_of_lt (by omega), ok_bind, idx_of_lt (by omega), ok_bind]
      dsimp only
      rw [← Nat.add_assoc, ih, esStreams, if_pos (by omega), List.filterMap_cons, patchStream]
      unfold esInfoLen
      cases esMappings.find? fun m => m.1 = be16 0x1F (byte s (pos + 1)) (byte s (pos + 2)) with
      | none => rfl
      | some m =>
        dsimp only
        rw [slice_of_le (by omega) (by omega), Nat.add_sub_cancel_left]
        rfl

theorem patchPmtSection_eq (env : Env) (h : WellFormedPmt s) (pcrPid : UInt16)
    (esMappings : List (UInt16 × UInt16)) (stripCa : Bool) :
    patchPmtSection env s pcrPid esMappings stripCa = .ok (pmtBytes env (s.take 8) pcrPid
      (patchDescriptors (programDescriptors s) stripCa)
      ((pmtStreams s).filterMap (patchStream esMappings stripCa))) := by
  have hl := h.length_ge
  have hd := h.descriptors_le
  have hs := patchPmtLoop_eq esMappings stripCa (Nat.sub_le s.length 4) h.tiles s.length
  unfold programInfoLen at hs hd
  rw [patchPmtSection, slice_of_le (by omega) (by omega), ok_bind, idx_of_lt (by omega), ok_bind,
    idx_of_lt (by omega), ok_bind]
  dsimp only
  rw [slice_of_le (by omega) (by omega), ok_bind, usub_of_le (by omega), ok_bind, hs, Nat.add_sub_cancel_left]
  rfl

/-! ## Reading a section back -/

theorem length_entry (st : EsStream) : st.bytes.length = 5 + st.descriptors.length := by
  simp [EsStream.bytes, esEntry, reserved16]
  omega

theorem length_le_flatMap (streams : List EsStream) :
    streams.length ≤ (streams.flatMap EsStream.bytes).length := by
  induction streams with
  | nil => exact le_rfl
  | cons st streams ih =>
    rw [List.flatMap_cons, List.length_append, length_entry, List.length_cons]
    omega

theorem esInfoLen_entry {st : EsStream} (hd : st.descriptors.length < 4096) (pre rest : Bytes) :
    esInfoLen (pre ++ (st.bytes ++ rest)) pre.length = st.descriptors.length := by
  rw [esInfoLen, byte_append_right, byte_append_right]
  exact be16_length hd

theorem pid_entry {st : EsStream} (hp : st.pid ≤ 0x1FFF) (pre rest : Bytes) :
    be16 0x1F (byte (pre ++ (st.bytes ++ rest)) (pre.length + 1))
      (byte (pre ++ (st.bytes ++ rest)) (pre.length + 2)) = st.pid := by
  rw [byte_append_right, byte_append_right]
  exact be16_pid hp

theorem descriptors_entry (st : EsStream) (pre rest : Bytes) :
    ((pre ++ (st.bytes ++ rest)).drop (pre.length + 5)).take st.descriptors.length = st.descriptors := by
  rw [List.drop_length_add_append]
  exact List.take_left

/-- Entries tile the place they are put in. -/
theorem esTiles_entries : ∀ (streams : List EsStream) (pre suf : Bytes),
    (∀ st ∈ streams, st.descriptors.length < 4096) →
    EsTiles (pre ++ (streams.flatMap EsStream.bytes ++ suf))
      (pre.length + (streams.flatMap EsStream.bytes).length) pre.length
  | [], pre, suf, _ => .nil
  | st :: streams, pre, suf, hd => by
    have hlen := esInfoLen_entry (hd st List.mem_cons_self) pre (streams.flatMap EsStream.bytes ++ suf)
    have htiles := esTiles_entries streams (pre ++ st.bytes) suf fun t ht => hd t (List.mem_cons_of_mem _ ht)
    simp only [List.length_append, List.append_assoc, length_entry, ← Nat.add_assoc] at htiles
    simp only [List.flatMap_cons, List.length_append, List.append_assoc, length_entry]
    rw [← Nat.add_assoc, ← Nat.add_assoc]
    exact .entry (by rw [hlen]; omega) (by rw [hlen]; exact htiles)

/-- Entries are read back from the place they are put in. -/
theorem esStreams_entries : ∀ (streams : List EsStream) (pre suf : Bytes) (fuel : ℕ),
    (∀ st ∈ streams, st.Fits) → streams.length ≤ fuel →
    esStreams (pre ++ (streams.flatMap EsStream.bytes ++ suf))
      (pre.length + (streams.flatMap EsStream.bytes).length) fuel pre.length = streams
  | [], pre, suf, 0, _, _ => rfl
  | [], pre, suf, fuel + 1, _, _ => by
    rw [esStreams, if_neg]
    simp
  | st :: streams, pre, suf, 0, _, hf => absurd hf (by simp)
  | st :: streams, pre, suf, fuel + 1, hfits, hf => by
    have hst := hfits st List.mem_cons_self
    have htype := byte_append_right pre (st.bytes ++ (streams.flatMap EsStream.bytes ++ suf)) 0
    have hpid := pid_entry hst.pid_le pre (streams.flatMap EsStream.bytes ++ suf)
    have hlen := esInfoLen_entry hst.length_lt pre (streams.flatMap EsStream.bytes ++ suf)
    have hd := descriptors_entry st pre (streams.flatMap EsStream.bytes ++ suf)
    have ih := esStreams_entries streams (pre ++ st.bytes) suf fuel
      (fun t ht => hfits t (List.mem_cons_of_mem _ ht)) (Nat.le_of_succ_le_succ hf)
    simp only [List.length_append, List.append_assoc, length_entry, ← Nat.add_assoc] at ih
    simp only [List.flatMap_cons, List.length_append, List.append_assoc, length_entry]
    rw [← Nat.add_assoc, ← Nat.add_assoc, esStreams, if_pos (by omega), hpid, hlen, hd, ih]
    rw [Nat.add_zero] at htype
    rw [htype]
    rfl

theorem setSectionLength_append {a : Bytes} (ha : 3 ≤ a.length) (b : Bytes) :
    ∃ a' : Bytes, a'.length = a.length ∧ setSectionLength (a ++ b) = a' ++ b := by
  simp only [setSectionLength]
  rw [List.set_append_left _ _ (by omega), List.set_append_left _ _ (by simp; omega)]
  exact ⟨_, by simp, rfl⟩

/-- The parts of a section, with the section length set in the header. -/
theorem pmtBytes_eq (env : Env) {header : Bytes} (hh : header.length = 8) (pcrPid : UInt16) (d : Bytes)
    (streams : List EsStream) : ∃ hdr crc : Bytes, hdr.length = 8 ∧ crc.length = 4 ∧
      pmtBytes env header pcrPid d streams = hdr ++ (reserved16 0x1F 0xE0 pcrPid ++
        (reserved16 0x0F 0xF0 (UInt16.ofNat d.length) ++ (d ++ (streams.flatMap EsStream.bytes ++ crc)))) := by
  obtain ⟨hdr, hlen, e⟩ := setSectionLength_append (a := header) (by omega)
    (reserved16 0x1F 0xE0 pcrPid ++ (reserved16 0x0F 0xF0 (UInt16.ofNat d.length) ++
      (d ++ streams.flatMap EsStream.bytes)))
  rw [pmtBytes]
  simp only [List.append_assoc]
  rw [e, withCrc]
  generalize hcrc : crcBytes (env.crc _) = crc
  refine ⟨hdr, crc, hlen.trans hh, by rw [← hcrc]; rfl, ?_⟩
  simp only [List.append_assoc]

theorem byte_reserved16 (low hi : UInt8) (v : UInt16) (rest : Bytes) :
    byte (reserved16 low hi v ++ rest) 0 = byte (reserved16 low hi v) 0 ∧
      byte (reserved16 low hi v ++ rest) 1 = byte (reserved16 low hi v) 1 ∧
      ∀ i, byte (reserved16 low hi v ++ rest) (i + 2) = byte rest i := by
  simp [reserved16, byte]

section ReadBack

variable (env : Env) {header d : Bytes} {streams : List EsStream}

theorem length_pmtBytes (hh : header.length = 8) (pcrPid : UInt16) (d : Bytes) (streams : List EsStream) :
    (pmtBytes env header pcrPid d streams).length =
    16 + d.length + (streams.flatMap EsStream.bytes).length := by
  obtain ⟨hdr, crc, h8, h4, e⟩ := pmtBytes_eq env hh pcrPid d streams
  have hr (mask hi : UInt8) (v : UInt16) : (reserved16 mask hi v).length = 2 := rfl
  simp only [e, List.length_append, h8, h4, hr]
  omega

theorem pmtPcrPid_pmtBytes (hh : header.length = 8) {pcrPid : UInt16} (hp : pcrPid ≤ 0x1FFF) :
    pmtPcrPid (pmtBytes env header pcrPid d streams) = pcrPid := by
  obtain ⟨hdr, crc, h8, -, e⟩ := pmtBytes_eq env hh pcrPid d streams
  have h8' (i : ℕ) := byte_append_right hdr (reserved16 0x1F 0xE0 pcrPid ++
    (reserved16 0x0F 0xF0 (UInt16.ofNat d.length) ++ (d ++ (streams.flatMap EsStream.bytes ++ crc)))) i
  rw [h8] at h8'
  have hr := byte_reserved16 0x1F 0xE0 pcrPid
    (reserved16 0x0F 0xF0 (UInt16.ofNat d.length) ++ (d ++ (streams.flatMap EsStream.bytes ++ crc)))
  rw [pmtPcrPid, e, h8' 0, h8' 1, hr.1, hr.2.1, be16_pid hp]

theorem programInfoLen_pmtBytes (hh : header.length = 8) (pcrPid : UInt16) (hd : d.length < 4096) :
    programInfoLen (pmtBytes env header pcrPid d streams) = d.length := by
  obtain ⟨hdr, crc, h8, -, e⟩ := pmtBytes_eq env hh pcrPid d streams
  have h8' (i : ℕ) := byte_append_right hdr (reserved16 0x1F 0xE0 pcrPid ++
    (reserved16 0x0F 0xF0 (UInt16.ofNat d.length) ++ (d ++ (streams.flatMap EsStream.bytes ++ crc)))) (i + 2)
  rw [h8] at h8'
  simp only [(byte_reserved16 ..).2.2] at h8'
  have hr := byte_reserved16 0x0F 0xF0 (UInt16.ofNat d.length) (d ++ (streams.flatMap EsStream.bytes ++ crc))
  rw [programInfoLen, e, h8' 0, h8' 1, hr.1, hr.2.1, be16_length hd]

theorem length_partsBefore {hdr : Bytes} (h8 : hdr.length = 8) (pcrPid : UInt16) (d : Bytes) :
    (hdr ++ (reserved16 0x1F 0xE0 pcrPid ++ (reserved16 0x0F 0xF0 (UInt16.ofNat d.length) ++ d))).length =
      12 + d.length := by
  simp only [List.length_append, h8, show ∀ low hi v, (reserved16 low hi v).length = 2 from fun _ _ _ => rfl]
  omega

/-- **A section put together from parts is well formed.** -/
theorem pmtBytes_wellFormed (hh : header.length = 8) (pcrPid : UInt16) (hd : d.length < 4096)
    (hs : ∀ st ∈ streams, st.descriptors.length < 4096) :
    WellFormedPmt (pmtBytes env header pcrPid d streams) := by
  have hlen := length_pmtBytes env hh pcrPid d streams
  have hpil : programInfoLen (pmtBytes env header pcrPid d streams) = d.length :=
    programInfoLen_pmtBytes env hh pcrPid hd
  refine ⟨by omega, by omega, ?_⟩
  obtain ⟨hdr, crc, h8, h4, e⟩ := pmtBytes_eq env hh pcrPid d streams
  have h := esTiles_entries streams
    (hdr ++ (reserved16 0x1F 0xE0 pcrPid ++ (reserved16 0x0F 0xF0 (UInt16.ofNat d.length) ++ d))) crc hs
  rw [length_partsBefore h8] at h
  simp only [List.append_assoc] at h
  rw [← e] at h
  rw [hpil, hlen, show 16 + d.length + (streams.flatMap EsStream.bytes).length - 4 =
    12 + d.length + (streams.flatMap EsStream.bytes).length by omega]
  exact h

/-- **Its streams are read back from it.** -/
theorem pmtStreams_pmtBytes (hh : header.length = 8) (pcrPid : UInt16) (hd : d.length < 4096)
    (hs : ∀ st ∈ streams, st.Fits) : pmtStreams (pmtBytes env header pcrPid d streams) = streams := by
  have hlen := length_pmtBytes env hh pcrPid d streams
  have hpil : programInfoLen (pmtBytes env header pcrPid d streams) = d.length :=
    programInfoLen_pmtBytes env hh pcrPid hd
  have hcount := length_le_flatMap streams
  obtain ⟨hdr, crc, h8, h4, e⟩ := pmtBytes_eq env hh pcrPid d streams
  have h := esStreams_entries streams
    (hdr ++ (reserved16 0x1F 0xE0 pcrPid ++ (reserved16 0x0F 0xF0 (UInt16.ofNat d.length) ++ d))) crc
    (pmtBytes env header pcrPid d streams).length hs (by omega)
  rw [length_partsBefore h8] at h
  simp only [List.append_assoc] at h
  rw [← e] at h
  rw [pmtStreams, hpil, show (pmtBytes env header pcrPid d streams).length - 4 =
    12 + d.length + (streams.flatMap EsStream.bytes).length by omega]
  exact h

end ReadBack

/-! ## Patched sections -/

theorem stripCaDescriptors_length : ∀ (fuel : ℕ) (d : Bytes), (stripCaDescriptors fuel d).length ≤ d.length
  | 0, d => by simp [stripCaDescriptors]
  | fuel + 1, [] => by simp [stripCaDescriptors]
  | fuel + 1, [_] => by simp [stripCaDescriptors]
  | fuel + 1, tag :: len :: rest => by
    have ih := stripCaDescriptors_length fuel (rest.drop len.toNat)
    rw [List.length_drop] at ih
    rw [stripCaDescriptors]
    split_ifs with h1 h2
    · simp
    · simp only [List.cons_append, List.length_cons, List.length_append, List.length_take]; omega
    · simp only [List.nil_append, List.length_cons]; omega

theorem patchDescriptors_length (d : Bytes) (stripCa : Bool) :
    (patchDescriptors d stripCa).length ≤ d.length := by
  rw [patchDescriptors]
  split_ifs
  · exact le_rfl
  · exact stripCaDescriptors_length _ _

theorem programDescriptors_length (s : Bytes) : (programDescriptors s).length < 4096 :=
  (List.length_take_le _ _).trans_lt (be16_lt _ _)

theorem patchStream_length {esMappings : List (UInt16 × UInt16)} {stripCa : Bool} {st st' : EsStream}
    (e : patchStream esMappings stripCa st = some st') : st'.descriptors.length ≤ st.descriptors.length := by
  obtain ⟨m, -, rfl⟩ := Option.map_eq_some_iff.1 e
  exact patchDescriptors_length _ _

/-! ## No panic -/

theorem analyzePmt_ok (h : WellFormedPmt s) : ∃ pmt, analyzePmt s = .ok pmt := ⟨_, analyzePmt_eq h⟩

/-- **A patched section is well formed again.** -/
theorem patchPmtSection_ok (env : Env) (h : WellFormedPmt s) (pcrPid : UInt16)
    (esMappings : List (UInt16 × UInt16)) (stripCa : Bool) :
    ∃ s', patchPmtSection env s pcrPid esMappings stripCa = .ok s' ∧ WellFormedPmt s' := by
  have hl := h.length_ge
  refine ⟨_, patchPmtSection_eq env h pcrPid esMappings stripCa, pmtBytes_wellFormed env ?_ pcrPid ?_ ?_⟩
  · rw [List.length_take]
    omega
  · exact (patchDescriptors_length _ _).trans_lt (programDescriptors_length s)
  · intro st' hst'
    obtain ⟨st, hst, e⟩ := List.mem_filterMap.1 hst'
    exact (patchStream_length e).trans_lt (esStreams_fits st hst).length_lt

/-! ## Lengths -/

theorem length_flatMap_bytes (streams : List EsStream) : (streams.flatMap EsStream.bytes).length =
    (streams.map fun st => 5 + st.descriptors.length).sum := by
  rw [List.length_flatMap]
  simp only [length_entry]

/-- The streams of a section take no more room than they had. -/
theorem esStreams_length (h : EsTiles s sectionEnd pos) : ∀ fuel,
    ((esStreams s sectionEnd fuel pos).flatMap EsStream.bytes).length ≤ sectionEnd - pos := by
  induction h with
  | nil =>
    intro fuel
    cases fuel with
    | zero => exact Nat.zero_le _
    | succ fuel => rw [esStreams, if_neg (by omega)]; exact Nat.zero_le _
  | @entry pos hle _ ih =>
    intro fuel
    cases fuel with
    | zero => exact Nat.zero_le _
    | succ fuel =>
      have ih := ih fuel
      have htake : ((s.drop (pos + 5)).take (esInfoLen s pos)).length ≤ esInfoLen s pos :=
        List.length_take_le _ _
      rw [esStreams, if_pos (by omega), List.flatMap_cons, List.length_append, length_entry]
      dsimp only
      omega

/-- How long the patched section is: header, CRC and program descriptors, and the entries that stay. -/
def patchedLength (esMappings : List (UInt16 × UInt16)) (stripCa : Bool) (s : Bytes) : ℕ :=
  16 + (patchDescriptors (programDescriptors s) stripCa).length +
    (((pmtStreams s).filterMap (patchStream esMappings stripCa)).map fun st => 5 + st.descriptors.length).sum

/-- Patching never makes a section longer. -/
theorem patchedLength_le (h : WellFormedPmt s) (esMappings : List (UInt16 × UInt16)) (stripCa : Bool) :
    patchedLength esMappings stripCa s ≤ s.length := by
  have hl := h.length_ge
  have hd := h.descriptors_le
  have hstreams := esStreams_length h.tiles s.length
  have hprogram : (patchDescriptors (programDescriptors s) stripCa).length ≤ programInfoLen s :=
    (patchDescriptors_length _ _).trans (List.length_take_le _ _)
  have hkept (l : List EsStream) : ((l.filterMap (patchStream esMappings stripCa)).map
      fun st => 5 + st.descriptors.length).sum ≤ (l.map fun st => 5 + st.descriptors.length).sum := by
    induction l with
    | nil => exact le_rfl
    | cons st l ih =>
      cases e : patchStream esMappings stripCa st with
      | none =>
        rw [List.filterMap_cons_none e, List.map_cons, List.sum_cons]
        omega
      | some st' =>
        have := patchStream_length e
        rw [List.filterMap_cons_some e, List.map_cons, List.sum_cons, List.map_cons, List.sum_cons]
        omega
  have := hkept (pmtStreams s)
  rw [length_flatMap_bytes] at hstreams
  unfold patchedLength
  unfold pmtStreams at this ⊢
  omega

end MyMuxer.Psi
