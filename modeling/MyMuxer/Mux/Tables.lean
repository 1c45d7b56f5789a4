import MyMuxer.Config
import MyMuxer.Psi.Packing
import MyMuxer.Psi.Streams
import MyMuxer.Psi.Sdt

/-!
# The cached tables of an output (`mux.rs`)

* `Tables`: the fields of `PacketHandler` that `process_pat`, `process_pmt` and `process_sdt` touch,
  and these functions; the tables they only write to the log are still analysed, since that may panic.
* `Table`: one of the three, with its cache, its ready flag and its PID.
* `Tables.Grows`: **a table, once cached, stays cached**; `processPat_grows`, `processPmt_grows`,
  `processSdt_grows`, `generateSdt_grows`.
-/

namespace MyMuxer

open Psi

def defaultServiceType : UInt8 := 0x01

structure Tables where
  patInfo : List PatInfo
  pmtInfo : Option PmtInfo
  pat : Packet
  pmt : Packet
  sdt : Packet
  patReady : Bool
  pmtReady : Bool
  sdtReady : Bool
  psiReasm : SectionReassemblerMap
  dirtyPat : Bool
  dirtyPmt : Bool

namespace Tables

def new : Tables where
  patInfo := []
  pmtInfo := none
  pat := .zero
  pmt := .zero
  sdt := .zero
  patReady := false
  pmtReady := false
  sdtReady := false
  psiReasm := .new
  dirtyPat := false
  dirtyPmt := false

def patTransportStreamId (t : Tables) : UInt16 := be16 0xFFFF (byte t.pat.bytes 8) (byte t.pat.bytes 9)

def processPat (env : Env) (program : Program) (t : Tables) (pktData : Packet) : Rs Tables := do
  let pid := pktPid pktData.bytes
  let (found, psiReasm) := t.psiReasm.push pktData.bytes
  let t := { t with psiReasm }
  match found with
  | none => return t
  | some section_ =>
    let patInfo ← analyzePat section_
    if t.patReady = false then
      -- keep program_id and pmt_pid
      let section_ ← patchPatSection env section_ [(program.programId, program.pmtPid)]
      let _ ← analyzePat section_
      return { t with patInfo, pat := pack section_ pid (cachedCc t.pat), patReady := true }
    else return { t with dirtyPat := isPatChanged env t.patInfo patInfo }

def processPmt (env : Env) (output : Output) (program : Program) (t : Tables) (pktData : Packet) :
    Rs Tables := do
  let pid := pktPid pktData.bytes
  let (found, psiReasm) := t.psiReasm.push pktData.bytes
  let t := { t with psiReasm }
  match found with
  | none => return t
  | some section_ =>
    let pmtInfo ← analyzePmt section_
    if t.pmtReady = false then
      let esMapping := (program.videoPids ++ program.audioPids).map fun oldPid => (oldPid, oldPid)
      let caFlag := decide (output.caFlag = caFlagUnscrambled)
      let section_ ← patchPmtSection env section_ pmtInfo.pcrPid esMapping caFlag
      let _ ← analyzePmt section_
      return { t with pmtInfo := some pmtInfo, pmt := pack section_ pid (cachedCc t.pmt), pmtReady := true }
    else
      match t.pmtInfo with
      | some curPmtInfo => return { t with dirtyPmt := isPmtChanged curPmtInfo pmtInfo }
      | none => return t

/-- `match s { "" => other, _ => s }` on trimmed names. -/
def nameOr (s other : String) : String := if trim s = "" then trim other else trim s

def processSdt (env : Env) (program : Program) (t : Tables) (pktData : Packet) : Rs Tables := do
  let (found, psiReasm) := t.psiReasm.push pktData.bytes
  let t := { t with psiReasm }
  match found with
  | none => return t
  | some section_ =>
    let sdts ← analyzeSdt env section_
    match sdts.find? fun sdt => sdt.serviceId = program.programId with
    | none => return t
    | some sdt =>
      let serviceType :=
        if program.serviceType = 0 then if sdt.serviceType = 0 then defaultServiceType else sdt.serviceType
        else UInt8.ofNat program.serviceType
      let packet ← prepareSdt env t.patTransportStreamId program.programId serviceType
        (nameOr program.serviceProviderName sdt.providerName) (nameOr program.serviceName sdt.serviceName)
      return { t with sdt := packet, sdtReady := true }

/-- The SDT from the configuration alone, at the end of `process`. -/
def generateSdt (env : Env) (program : Program) (t : Tables) : Rs Tables := do
  let serviceType :=
    if program.serviceType = 0 then defaultServiceType else UInt8.ofNat program.serviceType
  let packet ← prepareSdt env t.patTransportStreamId program.programId serviceType
    (trim program.serviceProviderName) (trim program.serviceName)
  return { t with sdt := packet, sdtReady := true }

end Tables

/-! ## One table of the three -/

inductive Table where
  | pat
  | pmt
  | sdt
  deriving DecidableEq

namespace Tables

def cache (t : Tables) : Table → Packet
  | .pat => t.pat
  | .pmt => t.pmt
  | .sdt => t.sdt

def ready (t : Tables) : Table → Bool
  | .pat => t.patReady
  | .pmt => t.pmtReady
  | .sdt => t.sdtReady

end Tables

/-- The PID a table is sent on. -/
def Table.pid (program : Program) : Table → UInt16
  | .pat => 0x0000
  | .pmt => program.pmtPid
  | .sdt => 0x0011

/-- A packet that can be sent as a table of `pid`. -/
structure IsTablePacket (pid : UInt16) (p : Packet) : Prop where
  sync : byte p.bytes 0 = tsSyncByte
  pid : pktPid p.bytes = pid
  afControl : afControl p.bytes = 1

theorem isTablePacket_pack (s : Bytes) {pid : UInt16} (cc : UInt8) (h : pid ≤ 0x1FFF) :
    IsTablePacket pid (pack s pid cc) := by
  have hc := take_le_capacity s
  rw [pack_eq]
  exact ⟨packed_sync hc, packed_pid h hc, packed_afControl hc⟩

theorem IsTablePacket.next {pid : UInt16} {p : Packet} (h : IsTablePacket pid p) :
    IsTablePacket pid (pktNext p) :=
  ⟨(pktNext_byte p (by norm_num)).trans h.sync, (pktNext_pid p).trans h.pid,
    (pktNext_afControl p).trans h.afControl⟩

theorem pktPid_le (p : Bytes) : pktPid p ≤ 0x1FFF := by
  rw [UInt16.le_iff_toNat_le, pktPid, be16_toNat (k := 5) (by norm_num) rfl]
  have := (byte p 2).toNat_lt
  have h : (0x1FFF : UInt16).toNat = 8191 := rfl
  omega

namespace Tables

/-- A table packed for the PID it came on. -/
theorem isTablePacket_packed {q : Bytes} {pid : UInt16} (s : Bytes) (cc : UInt8) (h : pktPid q = pid) :
    IsTablePacket pid (pack s (pktPid q) cc) := by
  subst h
  exact isTablePacket_pack s cc (pktPid_le q)

/-- **A table, once cached, stays cached**, and what is cached is a packet of its PID. -/
def Grows (program : Program) (t t' : Tables) : Prop := ∀ k,
  (t.ready k = true → t'.ready k = true ∧ t'.cache k = t.cache k) ∧
  (t.ready k = false → t'.ready k = true → IsTablePacket (k.pid program) (t'.cache k))

theorem Grows.refl (program : Program) (t : Tables) : t.Grows program t := by
  intro k
  exact ⟨fun h => ⟨h, rfl⟩, fun h h' => absurd (h.symm.trans h') (by decide)⟩

/-- A change outside the caches and the ready flags. -/
theorem Grows.of_eq {program : Program} {t t' : Tables} (hc : t'.cache = t.cache)
    (hr : t'.ready = t.ready) : t.Grows program t' := by
  intro k
  rw [hc, hr]
  exact Grows.refl program t k

theorem processPat_grows {env : Env} {program : Program} {t t' : Tables} {p : Packet}
    (hp : pktPid p.bytes = 0x0000) (h : t.processPat env program p = .ok t') : t.Grows program t' := by
  rw [processPat] at h
  dsimp only at h
  split at h
  · cases h; exact .of_eq rfl rfl
  · obtain ⟨info, -, h⟩ := bind_eq_ok.1 h
    split_ifs at h with hr
    · obtain ⟨patched, -, h⟩ := bind_eq_ok.1 h
      obtain ⟨_, -, h⟩ := bind_eq_ok.1 h
      cases h
      rintro (_ | _ | _)
      · exact ⟨fun h => absurd (h.symm.trans hr) (by decide), fun _ _ => isTablePacket_packed _ _ hp⟩
      · exact Grows.refl program t .pmt
      · exact Grows.refl program t .sdt
    · cases h; exact .of_eq rfl rfl

theorem processPmt_grows {env : Env} {output : Output} {program : Program} {t t' : Tables} {p : Packet}
    (hp : pktPid p.bytes = program.pmtPid) (h : t.processPmt env output program p = .ok t') :
    t.Grows program t' := by
  rw [processPmt] at h
  dsimp only at h
  split at h
  · cases h; exact .of_eq rfl rfl
  · obtain ⟨info, -, h⟩ := bind_eq_ok.1 h
    split_ifs at h with hr
    · obtain ⟨patched, -, h⟩ := bind_eq_ok.1 h
      obtain ⟨_, -, h⟩ := bind_eq_ok.1 h
      cases h
      rintro (_ | _ | _)
      · exact Grows.refl program t .pat
      · exact ⟨fun h => absurd (h.symm.trans hr) (by decide), fun _ _ => isTablePacket_packed _ _ hp⟩
      · exact Grows.refl program t .sdt
    · split at h <;> (cases h; exact .of_eq rfl rfl)

/-- Both ways to fill the SDT cache, where it is still empty. -/
theorem grows_of_sdt {program : Program} {t : Tables} (hr : t.sdtReady = false) (r : SectionReassemblerMap)
    (s : Bytes) : t.Grows program { t with psiReasm := r, sdt := pack s 0x0011 0, sdtReady := true } := by
  rintro (_ | _ | _)
  · exact Grows.refl program t .pat
  · exact Grows.refl program t .pmt
  · exact ⟨fun h => absurd (h.symm.trans hr) (by decide), fun _ _ =>
      isTablePacket_pack _ _ (show (0x0011 : UInt16) ≤ 0x1FFF by decide)⟩

theorem processSdt_grows {env : Env} {program : Program} {t t' : Tables} {p : Packet}
    (hr : t.sdtReady = false) (h : t.processSdt env program p = .ok t') : t.Grows program t' := by
  rw [processSdt] at h
  dsimp only at h
  split at h
  · cases h; exact .of_eq rfl rfl
  · obtain ⟨sdts, -, h⟩ := bind_eq_ok.1 h
    split at h
    · cases h; exact .of_eq rfl rfl
    · obtain ⟨s, hs⟩ := prepareSdt_eq env _ program.programId _ _ _
      rw [hs] at h
      cases h
      exact grows_of_sdt hr _ s

theorem generateSdt_grows {env : Env} {program : Program} {t t' : Tables} (hr : t.sdtReady = false)
    (h : t.generateSdt env program = .ok t') : t.Grows program t' := by
  rw [generateSdt] at h
  obtain ⟨s, hs⟩ := prepareSdt_eq env t.patTransportStreamId program.programId _ _ _
  rw [hs] at h
  cases h
  exact grows_of_sdt hr _ s

end Tables

end MyMuxer
