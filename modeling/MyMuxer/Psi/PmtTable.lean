import MyMuxer.Psi.Patched

/-!
# The table that a PMT encodes

* `Descriptor`, `PmtTable`: a program map table; `PmtTable.bytes` puts it together as a section.
* `Encodes`: a well-formed section says what a table says.
* **`pmt_patched`**: patching a section is filtering and renaming its table.
-/

namespace MyMuxer.Psi

open MyMuxer

/-- A descriptor. -/
structure Descriptor where
  tag : UInt8
  body : Bytes
  length_lt : body.length < 256

namespace Descriptor

def bytes (d : Descriptor) : Bytes := d.tag :: UInt8.ofNat d.body.length :: d.body

/-- The descriptors that stay: all, or all but those of conditional access. -/
def kept (stripCa : Bool) (ds : List Descriptor) : List Descriptor :=
  if stripCa = false then ds else ds.filter fun d => d.tag ≠ 0x09

/-- What `pasre_descriptors` notes of a descriptor. -/
def note (x : Descriptors) (d : Descriptor) : Descriptors :=
  if d.tag = 0x0A ∧ 3 ≤ d.body.length then { x with lang := some (fromUtf8Lossy (d.body.take 3)) }
  else if d.tag = 0x09 then { x with ca := some "maybe scrambling" }
  else x

theorem toNat_length (d : Descriptor) : (UInt8.ofNat d.body.length).toNat = d.body.length :=
  UInt8.toNat_ofNat_of_lt' (show d.body.length < 256 from d.length_lt)

theorem bytes_append (d : Descriptor) (rest : Bytes) :
    d.bytes ++ rest = d.tag :: UInt8.ofNat d.body.length :: (d.body ++ rest) := rfl

/-- **Stripping is filtering.** -/
theorem stripCaDescriptors_bytes : ∀ (ds : List Descriptor) (fuel : ℕ), (ds.flatMap bytes).length ≤ fuel →
    stripCaDescriptors fuel (ds.flatMap bytes) = (ds.filter fun d => d.tag ≠ 0x09).flatMap bytes
  | [], fuel, _ => by cases fuel <;> rfl
  | d :: ds, 0, hf => absurd hf (by simp [bytes])
  | d :: ds, fuel + 1, hf => by
    rw [List.flatMap_cons, List.length_append, bytes, List.length_cons] at hf
    have ih := stripCaDescriptors_bytes ds fuel (by omega)
    rw [List.flatMap_cons, bytes_append, stripCaDescriptors, toNat_length,
      if_neg (by rw [List.length_append]; omega), List.take_left, List.drop_left, ih]
    by_cases h : d.tag = 0x09
    · rw [if_neg (by simp [h]), List.filter_cons_of_neg (by simp [h])]
      rfl
    · rw [if_pos h, List.filter_cons_of_pos (by simp [h])]
      rfl

theorem patchDescriptors_bytes (ds : List Descriptor) (stripCa : Bool) :
    patchDescriptors (ds.flatMap bytes) stripCa = (kept stripCa ds).flatMap bytes := by
  cases stripCa with
  | false => rfl
  | true => exact stripCaDescriptors_bytes ds _ le_rfl

theorem pasreDescriptorsLoop_bytes : ∀ (ds : List Descriptor) (fuel : ℕ) (x : Descriptors),
    (ds.flatMap bytes).length ≤ fuel → pasreDescriptorsLoop fuel (ds.flatMap bytes) x = ds.foldl note x
  | [], fuel, x, _ => by cases fuel <;> rfl
  | d :: ds, 0, x, hf => absurd hf (by simp [bytes])
  | d :: ds, fuel + 1, x, hf => by
    rw [List.flatMap_cons, List.length_append, bytes, List.length_cons] at hf
    have ih := fun x => pasreDescriptorsLoop_bytes ds fuel x (by omega)
    rw [List.flatMap_cons, bytes_append, pasreDescriptorsLoop, toNat_length,
      if_neg (by rw [List.length_append]; omega), List.drop_left]
    dsimp only
    rw [ih, List.foldl_cons, note]
    by_cases h : d.tag = 0x0A ∧ 3 ≤ d.body.length
    · rw [if_pos h, if_pos h, List.take_append_of_le_length h.2]
    · rw [if_neg h, if_neg h]

theorem pasreDescriptors_bytes (ds : List Descriptor) :
    pasreDescriptors (ds.flatMap bytes) = ds.foldl note { lang := none, ca := none } :=
  pasreDescriptorsLoop_bytes ds _ _ le_rfl

theorem kept_kept (stripCa : Bool) (ds : List Descriptor) : kept stripCa (kept stripCa ds) = kept stripCa ds := by
  cases stripCa with
  | false => rfl
  | true => exact List.filter_filter.trans (by simp only [Bool.and_self]; rfl)

end Descriptor

/-! ## What the analysis keeps -/

/-- The notes on the descriptors that stay. -/
def Descriptors.stripped (stripCa : Bool) (x : Descriptors) : Descriptors :=
  if stripCa = false then x else { x with ca := none }

theorem foldl_filter_note (ds : List Descriptor) (x : Descriptors) : (ds.filter fun d => d.tag ≠ 0x09).foldl
    Descriptor.note { x with ca := none } = { ds.foldl Descriptor.note x with ca := none } := by
  induction ds generalizing x with
  | nil => rfl
  | cons d ds ih =>
    rw [List.foldl_cons, ← ih, Descriptor.note]
    by_cases h : d.tag = 0x09
    · rw [List.filter_cons_of_neg (by simp [h]), if_neg (by simp [h]), if_pos h]
    · rw [List.filter_cons_of_pos (by simp [h]), List.foldl_cons, Descriptor.note, if_neg h]
      split_ifs
      · rfl
      · rfl

theorem pasreDescriptors_kept (stripCa : Bool) (ds : List Descriptor) :
    pasreDescriptors ((Descriptor.kept stripCa ds).flatMap Descriptor.bytes) =
      (pasreDescriptors (ds.flatMap Descriptor.bytes)).stripped stripCa := by
  rw [Descriptor.pasreDescriptors_bytes, Descriptor.pasreDescriptors_bytes]
  cases stripCa with
  | false => rfl
  | true => exact foldl_filter_note ds { lang := none, ca := none }

/-! ## Tables -/

structure PmtStream where
  streamType : UInt8
  pid : UInt16
  descriptors : List Descriptor

structure PmtTable where
  pcrPid : UInt16
  descriptors : List Descriptor
  streams : List PmtStream

/-- The new PID of an old one: that of the first pair of the mapping, in 13 bits. -/
def newPid (esMappings : List (UInt16 × UInt16)) (pid : UInt16) : Option UInt16 :=
  (esMappings.find? fun m => m.1 = pid).map fun m => m.2 &&& 0x1FFF

namespace PmtStream

/-- The entry of a section. -/
def entry (st : PmtStream) : EsStream :=
  { streamType := st.streamType, pid := st.pid, descriptors := st.descriptors.flatMap Descriptor.bytes }

def patched (esMappings : List (UInt16 × UInt16)) (stripCa : Bool) (st : PmtStream) : Option PmtStream :=
  (newPid esMappings st.pid).map fun pid =>
    { st with pid, descriptors := Descriptor.kept stripCa st.descriptors }

end PmtStream

/-- The table with a new PCR PID, of the streams in the mapping, under their new PIDs. -/
def PmtTable.patched (t : PmtTable) (newPcrPid : UInt16) (esMappings : List (UInt16 × UInt16)) (stripCa : Bool) :
    PmtTable where
  pcrPid := newPcrPid &&& 0x1FFF
  descriptors := Descriptor.kept stripCa t.descriptors
  streams := t.streams.filterMap (PmtStream.patched esMappings stripCa)

/-- The section of a table. -/
def PmtTable.bytes (env : Env) (header : Bytes) (t : PmtTable) : Bytes :=
  pmtBytes env header t.pcrPid (t.descriptors.flatMap Descriptor.bytes) (t.streams.map PmtStream.entry)

/-- A section, well formed and of the length it gives, says what the table says. -/
structure Encodes (s : Bytes) (t : PmtTable) : Prop where
  wellFormed : WellFormedPmt s
  hasLength : HasLength s
  pcrPid : pmtPcrPid s = t.pcrPid
  descriptors : programDescriptors s = t.descriptors.flatMap Descriptor.bytes
  streams : pmtStreams s = t.streams.map PmtStream.entry

/-- What is left of an analysis. -/
def StreamInfo.patched (esMappings : List (UInt16 × UInt16)) (stripCa : Bool) (st : StreamInfo) :
    Option StreamInfo :=
  (newPid esMappings st.pid).map fun pid => { st with pid, descriptors := st.descriptors.stripped stripCa }

def PmtInfo.patched (info : PmtInfo) (newPcrPid : UInt16) (esMappings : List (UInt16 × UInt16))
    (stripCa : Bool) : PmtInfo where
  pcrPid := newPcrPid &&& 0x1FFF
  streams := info.streams.filterMap (StreamInfo.patched esMappings stripCa)

/-! ## Patching a table -/

section Patching

variable {esMappings : List (UInt16 × UInt16)} {stripCa : Bool}

theorem bytes_entry_pid (st : EsStream) : st.bytes = { st with pid := st.pid &&& 0x1FFF : EsStream }.bytes := by
  rw [EsStream.bytes, EsStream.bytes, esEntry, esEntry, ← reserved16_pid]

theorem bytes_patchStream (st : PmtStream) : (patchStream esMappings stripCa st.entry).map EsStream.bytes =
    (st.patched esMappings stripCa).map fun st => st.entry.bytes := by
  rw [patchStream, PmtStream.patched, newPid, Option.map_map, Option.map_map, Option.map_map]
  change (esMappings.find? fun m => m.1 = st.pid).map _ = (esMappings.find? fun m => m.1 = st.pid).map _
  congr 1
  funext m
  rw [Function.comp_apply, bytes_entry_pid]
  simp only [PmtStream.entry, Descriptor.patchDescriptors_bytes, Function.comp_apply]

/-- Patching the entries is patching the streams. -/
theorem bytes_patchStreams (streams : List PmtStream) :
    ((streams.map PmtStream.entry).filterMap (patchStream esMappings stripCa)).flatMap EsStream.bytes =
      ((streams.filterMap (PmtStream.patched esMappings stripCa)).map PmtStream.entry).flatMap EsStream.bytes := by
  induction streams with
  | nil => rfl
  | cons st streams ih =>
    have hst : (patchStream esMappings stripCa st.entry).map EsStream.bytes =
        (st.patched esMappings stripCa).map fun st => st.entry.bytes := bytes_patchStream st
    rw [List.map_cons, List.filterMap_cons, List.filterMap_cons]
    cases hp : patchStream esMappings stripCa st.entry with
    | none =>
      rw [hp] at hst
      rw [Option.map_eq_none_iff.1 hst.symm]
      exact ih
    | some e =>
      rw [hp] at hst
      obtain ⟨st', hst', hbytes⟩ := Option.map_eq_some_iff.1 hst.symm
      rw [hst']
      simp only [List.map_cons, List.flatMap_cons]
      rw [ih, hbytes]

theorem info_patched (st : PmtStream) : (st.entry.info).patched esMappings stripCa =
    (st.patched esMappings stripCa).map fun st => st.entry.info := by
  rw [StreamInfo.patched, PmtStream.patched, Option.map_map]
  change (newPid esMappings st.pid).map _ = _
  congr 1
  funext pid
  simp only [EsStream.info, PmtStream.entry, Function.comp_apply, pasreDescriptors_kept]

theorem newPid_le {pid pid' : UInt16} (h : newPid esMappings pid = some pid') : pid' ≤ 0x1FFF := by
  obtain ⟨m, -, rfl⟩ := Option.map_eq_some_iff.1 h
  exact and_pid_le _

/-- The identity of the PIDs of a list of streams. -/
def identity (streams : List EsStream) : List (UInt16 × UInt16) := streams.map fun st => (st.pid, st.pid)

theorem newPid_identity {streams : List EsStream} {st : EsStream} (h : st ∈ streams) (hp : st.pid ≤ 0x1FFF) :
    newPid (identity streams) st.pid = some st.pid := by
  have hsome : ((identity streams).find? fun m => m.1 = st.pid).isSome :=
    List.find?_isSome.2 ⟨_, List.mem_map_of_mem h, by simp⟩
  obtain ⟨m, hm⟩ := Option.isSome_iff_exists.1 hsome
  have hfirst : m.1 = st.pid := by simpa using List.find?_some hm
  obtain ⟨st', -, rfl⟩ := List.mem_map.1 (List.mem_of_find?_eq_some hm)
  rw [newPid, hm, Option.map_some, show st'.pid = st.pid from hfirst, and_pid_self hp]

end Patching

/-! ## Patching a section -/

section Sections

variable (env : Env) {s : Bytes} {t : PmtTable}

theorem EsStream.fits_pmtStreams {st : EsStream} (h : st ∈ pmtStreams s) : st.Fits := esStreams_fits st h

/-- A patched section is put together from the patched table. -/
theorem patchPmtSection_table (h : Encodes s t) (newPcrPid : UInt16) (esMappings : List (UInt16 × UInt16))
    (stripCa : Bool) : patchPmtSection env s newPcrPid esMappings stripCa =
      .ok ((t.patched newPcrPid esMappings stripCa).bytes env (s.take 8)) := by
  rw [patchPmtSection_eq env h.wellFormed, h.descriptors, h.streams, Descriptor.patchDescriptors_bytes, pmtBytes,
    bytes_patchStreams, reserved16_pid, PmtTable.bytes, pmtBytes]
  rfl

/-- The descriptors are read back from a section put together from parts. -/
theorem programDescriptors_pmtBytes {header d : Bytes} {streams : List EsStream} (hh : header.length = 8)
    (pcrPid : UInt16) (hd : d.length < 4096) :
    programDescriptors (pmtBytes env header pcrPid d streams) = d := by
  rw [programDescriptors, programInfoLen_pmtBytes env hh pcrPid hd]
  obtain ⟨hdr, crc, h8, -, e⟩ := pmtBytes_eq env hh pcrPid d streams
  have h12 : (hdr ++ (reserved16 0x1F 0xE0 pcrPid ++ reserved16 0x0F 0xF0 (UInt16.ofNat d.length))).length = 12 := by
    simp only [List.length_append, h8, show ∀ low hi v, (reserved16 low hi v).length = 2 from fun _ _ _ => rfl]
  have e' : pmtBytes env header pcrPid d streams =
      (hdr ++ (reserved16 0x1F 0xE0 pcrPid ++ reserved16 0x0F 0xF0 (UInt16.ofNat d.length))) ++
        (d ++ (streams.flatMap EsStream.bytes ++ crc)) := by
    rw [e]
    simp only [List.append_assoc]
  rw [e', ← h12, List.drop_left, List.take_left]

/-- The fields of a patched table fit their places. -/
theorem Encodes.patched_fits (h : Encodes s t) (newPcrPid : UInt16) (esMappings : List (UInt16 × UInt16))
    (stripCa : Bool) : ((t.patched newPcrPid esMappings stripCa).descriptors.flatMap Descriptor.bytes).length < 4096 ∧
      ∀ st ∈ (t.patched newPcrPid esMappings stripCa).streams, st.entry.Fits := by
  constructor
  · have hd := programDescriptors_length s
    rw [h.descriptors] at hd
    have hle := patchDescriptors_length (t.descriptors.flatMap Descriptor.bytes) stripCa
    rw [Descriptor.patchDescriptors_bytes] at hle
    exact hle.trans_lt hd
  · intro st' hst'
    obtain ⟨st, hst, e⟩ := List.mem_filterMap.1 hst'
    obtain ⟨pid, hpid, rfl⟩ := Option.map_eq_some_iff.1 e
    have hmem : st.entry ∈ pmtStreams s := by
      rw [h.streams]
      exact List.mem_map_of_mem hst
    have hlt := (EsStream.fits_pmtStreams hmem).length_lt
    have hle := patchDescriptors_length (st.descriptors.flatMap Descriptor.bytes) stripCa
    rw [Descriptor.patchDescriptors_bytes] at hle
    exact ⟨newPid_le hpid, hle.trans_lt hlt⟩

/-- A patched section is no longer than the section. -/
theorem Encodes.length_patched (h : Encodes s t) (newPcrPid : UInt16) (esMappings : List (UInt16 × UInt16))
    (stripCa : Bool) : ((t.patched newPcrPid esMappings stripCa).bytes env (s.take 8)).length ≤ s.length := by
  have hs := h.wellFormed.length_ge
  have hle := patchedLength_le h.wellFormed esMappings stripCa
  have htable := patchPmtSection_table env h newPcrPid esMappings stripCa
  rw [patchPmtSection_eq env h.wellFormed] at htable
  have hheader : (s.take 8).length = 8 := List.length_take_of_le (by omega)
  have hlen := length_pmtBytes env hheader newPcrPid
    (patchDescriptors (programDescriptors s) stripCa) ((pmtStreams s).filterMap (patchStream esMappings stripCa))
  rw [length_flatMap_bytes] at hlen
  rw [← Except.ok.inj htable, hlen]
  exact hle

/-- The bytes of a table in front of its CRC: the header, and what follows it. -/
def PmtTable.body (t : PmtTable) : Bytes :=
  reserved16 0x1F 0xE0 t.pcrPid ++ (reserved16 0x0F 0xF0 (UInt16.ofNat (t.descriptors.flatMap Descriptor.bytes).length)
    ++ (t.descriptors.flatMap Descriptor.bytes ++ (t.streams.map PmtStream.entry).flatMap EsStream.bytes))

theorem PmtTable.bytes_eq (header : Bytes) (t : PmtTable) :
    t.bytes env header = withCrc env (setSectionLength (header ++ t.body)) := by
  rw [PmtTable.bytes, pmtBytes, PmtTable.body]
  simp only [List.append_assoc]

theorem sealed_table {header : Bytes} (h3 : 3 ≤ header.length) (h : (t.bytes env header).length ≤ 4098) :
    Sealed env (t.bytes env header) := by
  rw [PmtTable.bytes_eq, length_withCrc] at h
  rw [PmtTable.bytes_eq]
  apply sealed_withCrc
  · rw [List.length_append]
    omega
  · omega

/-- **A patched section says what the patched table says.** -/
theorem Encodes.patched (h : Encodes s t) (newPcrPid : UInt16) (esMappings : List (UInt16 × UInt16))
    (stripCa : Bool) : Encodes ((t.patched newPcrPid esMappings stripCa).bytes env (s.take 8))
      (t.patched newPcrPid esMappings stripCa) ∧
        Sealed env ((t.patched newPcrPid esMappings stripCa).bytes env (s.take 8)) := by
  have hs := h.wellFormed.length_ge
  have hheader : (s.take 8).length = 8 := List.length_take_of_le (by omega)
  obtain ⟨hd, hfits⟩ := h.patched_fits newPcrPid esMappings stripCa
  have hentries : ∀ st ∈ (t.patched newPcrPid esMappings stripCa).streams.map PmtStream.entry, st.Fits := by
    intro st hst
    obtain ⟨st', hst', rfl⟩ := List.mem_map.1 hst
    exact hfits st' hst'
  have hle : ((t.patched newPcrPid esMappings stripCa).bytes env (s.take 8)).length ≤ 4098 := by
    have hlen := h.hasLength
    have hlt := sectionLen_lt s
    have := h.length_patched env newPcrPid esMappings stripCa
    rw [HasLength] at hlen
    omega
  have hsealed := sealed_table env (by omega) hle
  exact ⟨{
    wellFormed := pmtBytes_wellFormed env hheader _ hd fun st hst => (hentries st hst).length_lt
    hasLength := hsealed.hasLength
    pcrPid := pmtPcrPid_pmtBytes env hheader (and_pid_le newPcrPid)
    descriptors := programDescriptors_pmtBytes env hheader _ hd
    streams := pmtStreams_pmtBytes env hheader _ hd hentries }, hsealed⟩

/-- Patching a patched table with the identity of its PIDs. -/
theorem PmtTable.patched_again (t : PmtTable) (newPcrPid : UInt16) (esMappings : List (UInt16 × UInt16))
    (stripCa : Bool) : (t.patched newPcrPid esMappings stripCa).patched newPcrPid
      (identity ((t.patched newPcrPid esMappings stripCa).streams.map PmtStream.entry)) stripCa =
        t.patched newPcrPid esMappings stripCa := by
  have hstream : ∀ st ∈ (t.patched newPcrPid esMappings stripCa).streams, st.patched
      (identity ((t.patched newPcrPid esMappings stripCa).streams.map PmtStream.entry)) stripCa = some st := by
    intro st' hst'
    obtain ⟨st, -, e⟩ := List.mem_filterMap.1 hst'
    obtain ⟨pid, hpid, hst⟩ := Option.map_eq_some_iff.1 e
    have hpid' : st'.pid = pid := by rw [← hst]
    have hid := newPid_identity (List.mem_map_of_mem (f := PmtStream.entry) hst')
      (by change st'.pid ≤ _; rw [hpid']; exact newPid_le hpid)
    rw [PmtStream.patched]
    change (newPid _ st'.entry.pid).map _ = _
    rw [hid, Option.map_some, ← hst]
    simp only [PmtStream.entry, Descriptor.kept_kept]
  have hstreams : (t.patched newPcrPid esMappings stripCa).streams.filterMap (PmtStream.patched
      (identity ((t.patched newPcrPid esMappings stripCa).streams.map PmtStream.entry)) stripCa) =
        (t.patched newPcrPid esMappings stripCa).streams := by
    rw [List.filterMap_congr hstream]
    exact List.filterMap_some
  rw [PmtTable.patched, hstreams]
  simp only [PmtTable.patched, Descriptor.kept_kept]

/-- The analysis of a section is that of its table. -/
theorem analyzePmt_table (h : Encodes s t) : analyzePmt s =
    .ok { pcrPid := t.pcrPid, streams := t.streams.map fun st => st.entry.info } := by
  rw [analyzePmt_eq h.wellFormed, h.pcrPid, h.streams, List.map_map]
  rfl

/-- **Patching a section is filtering and renaming its table**: the header is kept, section length and CRC are
right, the analysis is filtered and renamed in the same way, and patching the section again with the identity of its
PIDs changes nothing. -/
theorem pmt_patched (h : Encodes s t) (newPcrPid : UInt16) (esMappings : List (UInt16 × UInt16)) (stripCa : Bool) :
    ∃ s', patchPmtSection env s newPcrPid esMappings stripCa = .ok s' ∧
      s' = (t.patched newPcrPid esMappings stripCa).bytes env (s.take 8) ∧
      Encodes s' (t.patched newPcrPid esMappings stripCa) ∧ KeepsHeader 8 s s' ∧ Sealed env s' ∧
      (∃ info, analyzePmt s = .ok info ∧ analyzePmt s' = .ok (info.patched newPcrPid esMappings stripCa)) ∧
      patchPmtSection env s' newPcrPid (identity (pmtStreams s')) stripCa = .ok s' := by
  have hs := h.wellFormed.length_ge
  have hheader : (s.take 8).length = 8 := List.length_take_of_le (by omega)
  obtain ⟨hencodes, hsealed⟩ := h.patched env newPcrPid esMappings stripCa
  refine ⟨_, patchPmtSection_table env h newPcrPid esMappings stripCa, rfl, hencodes, ?_, hsealed,
    ⟨_, analyzePmt_table h, ?_⟩, ?_⟩
  · have hkeep := keepsHeader_withCrc env (s.take 8) (t.patched newPcrPid esMappings stripCa).body (by omega)
    rw [hheader, ← PmtTable.bytes_eq] at hkeep
    exact hkeep.of_take (by norm_num)
  · rw [analyzePmt_table hencodes, PmtInfo.patched]
    congr 2
    rw [List.filterMap_map, PmtTable.patched, List.map_filterMap]
    congr 1
    funext st
    exact (info_patched st).symm
  · rw [hencodes.streams, patchPmtSection_table env hencodes, PmtTable.patched_again, PmtTable.bytes_eq,
      PmtTable.bytes_eq]
    have htake := take_withCrc_header env (s.take 8) (t.patched newPcrPid esMappings stripCa).body
    have hagain := setSectionLength_again (s.take 8) (t.patched newPcrPid esMappings stripCa).body (by omega)
    rw [hheader] at htake hagain
    rw [htake, hagain]

end Sections

/-- A PMT of a scrambled programme, with video and sound. -/
def scrambledPmt : Bytes :=
  [0x02, 0xB0, 0x23, 0x00, 0x01, 0xC1, 0x00, 0x00, 0xE1, 0x00, 0xF0, 0x06, 0x09, 0x04, 0x0B, 0x00, 0xE0, 0x50,
    0x1B, 0xE1, 0x00, 0xF0, 0x00, 0x0F, 0xE1, 0x01, 0xF0, 0x06, 0x0A, 0x04, 0x65, 0x6E, 0x67, 0x00,
    0x00, 0x00, 0x00, 0x00]

def scrambledTable : PmtTable where
  pcrPid := 0x0100
  descriptors := [⟨0x09, [0x0B, 0x00, 0xE0, 0x50], by decide⟩]
  streams := [⟨0x1B, 0x0100, []⟩, ⟨0x0F, 0x0101, [⟨0x0A, [0x65, 0x6E, 0x67, 0x00], by decide⟩]⟩]

theorem scrambledPmt_encodes : Encodes scrambledPmt scrambledTable where
  wellFormed := ⟨by decide, by decide, .entry (by decide) (.entry (by decide) .nil)⟩
  hasLength := by decide
  pcrPid := by decide
  descriptors := by decide
  streams := by decide +kernel

/-- The sound of that programme alone, without conditional access. -/
theorem pmt_patched_sample :
    ∃ s', patchPmtSection Env.sample scrambledPmt 0x0201 [(0x0101, 0x0201)] true = .ok s' ∧
      pmtPcrPid s' = 0x0201 ∧ programDescriptors s' = [] ∧ (pmtStreams s').map EsStream.pid = [0x0201] := by
  obtain ⟨s', hpatch, -, hencodes, -⟩ :=
    pmt_patched Env.sample scrambledPmt_encodes 0x0201 [(0x0101, 0x0201)] true
  exact ⟨s', hpatch, hencodes.pcrPid, hencodes.descriptors, by rw [hencodes.streams]; rfl⟩

end MyMuxer.Psi
