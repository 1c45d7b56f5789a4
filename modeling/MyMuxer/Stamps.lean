import MyMuxer.Packet

/-!
# Packets with time stamps and clock values (`packet.rs`)

* `PesStart`, `PesPacket`: a packet in which a PES packet begins, as ISO/IEC 13818-1 lays it out, with any
  adaptation field and any contents of the fields that `pkt_pts_dts` does not look at.
* `PesPacket.pktPtsDts_eq`: time stamps that were written are read back.
* **`stamps_read`**: reading them never panics, whatever the packet.
* **`pcr_written`**: the two readers of a PCR agree, and what `pkt_write_pcr` changes.
-/

namespace MyMuxer

/-! ## A packet in which a PES packet begins -/

/-- The five bytes of a time stamp: a mark of four bits, then 3, 15 and 15 bits with a marker bit behind
each. -/
def stampBytes (mark t : ℕ) : Bytes :=
  [UInt8.ofNat (mark * 16 + t / 2 ^ 30 * 2 + 1), UInt8.ofNat (t / 2 ^ 22 % 256),
    UInt8.ofNat (t / 2 ^ 15 % 128 * 2 + 1), UInt8.ofNat (t / 2 ^ 7 % 256), UInt8.ofNat (t % 128 * 2 + 1)]

/-- The fields of such a packet. -/
structure PesStart where
  /-- `transport_error_indicator` and `transport_priority`, in their places. -/
  indicators : UInt8
  pid : UInt16
  pid_le : pid ≤ 0x1FFF
  /-- `transport_scrambling_control` and `continuity_counter`, in their places. -/
  control : UInt8
  /-- The bytes behind `adaptation_field_length`. -/
  adaptation : Option Bytes
  streamId : UInt8
  streamId_allowed : (0xC0 ≤ streamId ∧ streamId ≤ 0xEF) ∨ streamId = 0xBD
  pesPacketLength : UInt16
  /-- The byte before the one with `PTS_DTS_flags`. -/
  marks : UInt8
  /-- The six flags behind `PTS_DTS_flags`. -/
  flags : UInt8
  headerDataLength : UInt8
  pts : ℕ
  pts_lt : pts < 2 ^ 33
  dts : Option ℕ
  dts_lt : ∀ t ∈ dts, t < 2 ^ 33
  /-- What is behind the time stamps. -/
  rest : Bytes

namespace PesStart

variable (e : PesStart)

/-- Everything in front of the PES packet. -/
def header : Bytes :=
  let first : UInt8 := e.indicators &&& (0xA0 : UInt8) ||| (0x40 : UInt8) ||| (e.pid >>> 8).toUInt8
  let second : UInt8 := (e.pid &&& 0xFF).toUInt8
  match e.adaptation with
  | none => [0x47, first, second, e.control &&& (0xCF : UInt8) ||| (0x10 : UInt8)]
  | some field =>
    [0x47, first, second, e.control &&& (0xCF : UInt8) ||| (0x30 : UInt8), UInt8.ofNat field.length] ++ field

def stamps : Bytes :=
  match e.dts with
  | none => stampBytes 2 e.pts
  | some dts => stampBytes 3 e.pts ++ stampBytes 1 dts

def ptsDtsFlags : UInt8 := if e.dts.isSome then 0xC0 else 0x80

def payload : Bytes :=
  [0x00, 0x00, 0x01, e.streamId, (e.pesPacketLength >>> 8).toUInt8, (e.pesPacketLength &&& 0xFF).toUInt8, e.marks,
    e.ptsDtsFlags ||| e.flags &&& (0x3F : UInt8), e.headerDataLength] ++ e.stamps ++ e.rest

def bytes : Bytes := e.header ++ e.payload

end PesStart

/-- The fields fill a packet: there is room for the time stamps behind the adaptation field. -/
structure PesPacket extends PesStart where
  length_bytes : toPesStart.bytes.length = tsPacketSize

/-! ## Reading it -/

/-- The time stamp that is read from five bytes that were written. -/
theorem stampValue_stampBytes (mark : ℕ) {t : ℕ} (ht : t < 2 ^ 33) :
    stampValue (byte (stampBytes mark t) 0) (byte (stampBytes mark t) 1) (byte (stampBytes mark t) 2)
      (byte (stampBytes mark t) 3) (byte (stampBytes mark t) 4) = t := by
  have h1 : t / 2 ^ 7 / 2 ^ 8 = t / 2 ^ 15 := by rw [Nat.div_div_eq_div_mul]; norm_num
  have h2 : t / 2 ^ 15 / 2 ^ 7 = t / 2 ^ 22 := by rw [Nat.div_div_eq_div_mul]; norm_num
  have h3 : t / 2 ^ 22 / 2 ^ 8 = t / 2 ^ 30 := by rw [Nat.div_div_eq_div_mul]; norm_num
  change stampValue (UInt8.ofNat _) (UInt8.ofNat _) (UInt8.ofNat _) (UInt8.ofNat _) (UInt8.ofNat _) = t
  unfold stampValue
  rw [UInt8.toNat_ofNat', UInt8.toNat_ofNat', UInt8.toNat_ofNat', UInt8.toNat_ofNat', UInt8.toNat_ofNat']
  omega

namespace PesPacket

variable (e : PesPacket)

theorem header_length : e.header.length = e.adaptation.elim 4 fun field => field.length + 5 := by
  rw [PesStart.header]
  cases e.adaptation with
  | none => rfl
  | some field => rfl

theorem stamps_length : e.stamps.length = e.dts.elim 5 fun _ => 10 := by
  rw [PesStart.stamps]
  cases e.dts with
  | none => rfl
  | some dts => rfl

theorem header_add_payload : e.header.length + (9 + e.stamps.length + e.rest.length) = 188 := by
  have h := e.length_bytes
  rw [PesStart.bytes, List.length_append, PesStart.payload, List.length_append, List.length_append] at h
  exact h

theorem four_le_header : 4 ≤ e.header.length := by
  rw [header_length]
  cases e.adaptation with
  | none => exact le_refl 4
  | some field => exact Nat.le_add_left 4 (field.length + 1)

theorem byte_header {i : ℕ} (h : i < 4) : byte e.bytes i = byte e.header i :=
  byte_append_left (h.trans_le e.four_le_header) e.payload

theorem byte_payload (i : ℕ) : byte e.bytes (e.header.length + i) = byte e.payload i :=
  byte_append_right e.header e.payload i

/-! ### In front of the PES packet -/

theorem byte_front : byte e.bytes 0 = tsSyncByte ∧
    byte e.bytes 1 = e.indicators &&& (0xA0 : UInt8) ||| (0x40 : UInt8) ||| (e.pid >>> 8).toUInt8 ∧
      byte e.bytes 2 = (e.pid &&& 0xFF).toUInt8 := by
  rw [e.byte_header (by decide), e.byte_header (by decide), e.byte_header (by decide), PesStart.header]
  cases e.adaptation with
  | none => exact ⟨rfl, rfl, rfl⟩
  | some field => exact ⟨rfl, rfl, rfl⟩

theorem pktPid_eq : pktPid e.bytes = e.pid := by
  have hpid : e.pid.toNat ≤ 0x1FFF := UInt16.le_iff_toNat_le.1 e.pid_le
  have hfirst (x : UInt8) (hx : x.toNat < 32) :
      (e.indicators &&& (0xA0 : UInt8) ||| (0x40 : UInt8) ||| x).toNat % 2 ^ 5 = x.toNat := by
    have hindicators : ∀ f : UInt8, f &&& 0xA0 = 0 ∨ f &&& 0xA0 = 0x20 ∨ f &&& 0xA0 = 0x80 ∨ f &&& 0xA0 = 0xA0 := by
      decide
    revert x
    rcases hindicators e.indicators with h | h | h | h
    · rw [h]; decide
    · rw [h]; decide
    · rw [h]; decide
    · rw [h]; decide
  have hhigh := toNat_highByte e.pid
  rw [← UInt16.toNat_inj, pktPid, be16_toNat (k := 5) (by decide) rfl, e.byte_front.2.1, e.byte_front.2.2,
    toNat_lowByte, hfirst _ (by omega), hhigh]
  omega

theorem byte_one_pusi : byte e.bytes 1 &&& 0x40 ≠ 0 := by
  have hbit : ∀ x : UInt8, (x ||| 0x40) &&& 0x40 ≠ 0 := by decide
  rw [e.byte_front.2.1, UInt8.or_assoc, UInt8.or_comm 0x40, ← UInt8.or_assoc]
  exact hbit _

/-- The PES packet begins behind the adaptation field. -/
theorem pesOffset_eq : pesOffset e.bytes = some e.header.length := by
  have hsum := e.header_add_payload
  have hbytes : byte e.bytes 3 = byte e.header 3 := e.byte_header (by decide)
  have hnone : ∀ b : UInt8, (b &&& 0xCF ||| 0x10) >>> 4 &&& 0x03 = 1 := by decide
  have hsome : ∀ b : UInt8, (b &&& 0xCF ||| 0x30) >>> 4 &&& 0x03 = 3 := by decide
  rw [pesOffset, afControl, hbytes]
  cases hfield : e.adaptation with
  | none =>
    have hthree : byte e.header 3 = e.control &&& (0xCF : UInt8) ||| (0x10 : UInt8) := by
      rw [PesStart.header, hfield]
      rfl
    rw [hthree, hnone, if_pos rfl, header_length, hfield]
    rfl
  | some field =>
    have hthree : byte e.header 3 = e.control &&& (0xCF : UInt8) ||| (0x30 : UInt8) := by
      rw [PesStart.header, hfield]
      rfl
    have hlength : e.header.length = field.length + 5 := by
      rw [header_length, hfield]
      rfl
    have hfour : byte e.bytes 4 = UInt8.ofNat field.length := by
      rw [PesStart.bytes, byte_append_left (by omega), PesStart.header, hfield]
      rfl
    rw [hthree, hsome, if_neg (by decide), if_pos rfl, hfour, UInt8.toNat_ofNat', hlength]
    rw [Nat.mod_eq_of_lt (by omega)]
    exact congrArg some (by omega)

/-! ### The PES packet -/

theorem slice_start : slice e.bytes e.header.length (e.header.length + 3) = .ok [0x00, 0x00, 0x01] := by
  have hsum := e.header_add_payload
  have hlength : e.bytes.length = 188 := e.length_bytes
  rw [slice_of_le (by omega) (by omega), PesStart.bytes, List.drop_left, Nat.add_sub_cancel_left]
  rfl

theorem idx_payload {i : ℕ} (h : i < 9) : idx e.bytes (e.header.length + i) = .ok (byte e.payload i) := by
  have hsum := e.header_add_payload
  have hlength : e.bytes.length = 188 := e.length_bytes
  rw [idx_of_lt (by omega), byte_payload]

theorem ptsDtsFlags_eq : ((byte e.payload 7 &&& 0xC0) >>> 6 : UInt8) = if e.dts.isSome then 3 else 2 := by
  have hboth : ∀ b : UInt8, (((0xC0 : UInt8) ||| b &&& (0x3F : UInt8)) &&& 0xC0) >>> 6 = 3 := by decide
  have hpts : ∀ b : UInt8, (((0x80 : UInt8) ||| b &&& (0x3F : UInt8)) &&& 0xC0) >>> 6 = 2 := by decide
  change ((e.ptsDtsFlags ||| e.flags &&& (0x3F : UInt8)) &&& 0xC0) >>> 6 = _
  rw [PesStart.ptsDtsFlags]
  cases e.dts.isSome with
  | true => exact hboth e.flags
  | false => exact hpts e.flags

/-- A time stamp that was written at a place behind the nine bytes of the header. -/
theorem pesTimestamp_payload {mark t i : ℕ} {before after : Bytes} (ht : t < 2 ^ 33)
    (hstamps : e.stamps ++ e.rest = before ++ (stampBytes mark t ++ after)) (hi : before.length = i) :
    pesTimestamp e.bytes (e.header.length + (9 + i)) = .ok t := by
  have hsum := e.header_add_payload
  have hlength : e.bytes.length = 188 := e.length_bytes
  have hstamp : (stampBytes mark t).length = 5 := rfl
  have htotal := congrArg List.length hstamps
  rw [List.length_append, List.length_append, List.length_append, hstamp] at htotal
  have hbyte (k : ℕ) (hk : k < 5) :
      byte e.bytes (e.header.length + (9 + i) + k) = byte (stampBytes mark t) k := by
    rw [Nat.add_assoc, byte_payload, PesStart.payload, List.append_assoc, hstamps, Nat.add_assoc]
    have hnine (l : Bytes) (j : ℕ) : byte ([0x00, 0x00, 0x01, e.streamId, (e.pesPacketLength >>> 8).toUInt8,
        (e.pesPacketLength &&& 0xFF).toUInt8, e.marks, e.ptsDtsFlags ||| e.flags &&& (0x3F : UInt8),
        e.headerDataLength] ++ l) (9 + j) = byte l j := byte_append_right _ l j
    rw [hnine, ← hi, byte_append_right, byte_append_left (hstamp ▸ hk)]
  rw [pesTimestamp_eq (by omega), ← Nat.add_zero (e.header.length + (9 + i)), hbyte 0 (by decide)]
  rw [Nat.add_zero, hbyte 1 (by decide), hbyte 2 (by decide), hbyte 3 (by decide), hbyte 4 (by decide),
    stampValue_stampBytes mark ht]

/-- The PTS is the first of the time stamps, whether there is a DTS or not. -/
theorem pesTimestamp_pts : pesTimestamp e.bytes (e.header.length + (9 + 0)) = .ok e.pts := by
  cases hdts : e.dts with
  | none =>
    have h : e.stamps ++ e.rest = [] ++ (stampBytes 2 e.pts ++ e.rest) := by rw [PesStart.stamps, hdts]; rfl
    exact e.pesTimestamp_payload e.pts_lt h rfl
  | some dts =>
    have h : e.stamps ++ e.rest = [] ++ (stampBytes 3 e.pts ++ (stampBytes 1 dts ++ e.rest)) := by
      rw [PesStart.stamps, hdts]
      exact List.append_assoc ..
    exact e.pesTimestamp_payload e.pts_lt h rfl

/-- The DTS is behind the PTS. -/
theorem pesTimestamp_dts {dts : ℕ} (hdts : e.dts = some dts) :
    pesTimestamp e.bytes (e.header.length + (9 + 5)) = .ok dts := by
  have h : e.stamps ++ e.rest = stampBytes 3 e.pts ++ (stampBytes 1 dts ++ e.rest) := by
    rw [PesStart.stamps, hdts]
    exact List.append_assoc ..
  exact e.pesTimestamp_payload (e.dts_lt dts hdts) h rfl

/-- **Time stamps that were written are read back.** -/
theorem pktPtsDts_eq : pktPtsDts e.bytes e.pid = .ok (some (e.pts, e.dts.getD e.pts)) := by
  have hsum := e.header_add_payload
  have hlength : e.bytes.length = 188 := e.length_bytes
  have hsize : tsPacketSize = 188 := rfl
  have hstamps := e.stamps_length
  have hshort : 5 ≤ e.stamps.length := by
    rw [hstamps]
    cases e.dts with
    | none => exact le_refl 5
    | some dts => exact (by decide : 5 ≤ 10)
  have hsync : ¬ (e.bytes.length < tsPacketSize ∨ byte e.bytes 0 ≠ tsSyncByte) := by
    rw [hlength, hsize, e.byte_front.1]
    exact fun h => h.elim (lt_irrefl 188) fun hne => hne rfl
  have hstream : ¬ ¬ ((0xC0 ≤ e.streamId ∧ e.streamId ≤ 0xEF) ∨ e.streamId = 0xBD) := not_not.2 e.streamId_allowed
  have hid : byte e.payload 3 = e.streamId := rfl
  have hpts := e.pesTimestamp_pts
  rw [pktPtsDts, if_neg hsync, if_neg (not_not.2 e.pktPid_eq), if_neg e.byte_one_pusi, e.pesOffset_eq]
  dsimp only
  rw [if_neg (by omega), slice_start, ok_bind, if_neg (not_not.2 rfl), e.idx_payload (by decide), ok_bind, hid,
    if_neg hstream, e.idx_payload (by decide), ok_bind, ptsDtsFlags_eq]
  cases hdts : e.dts with
  | none =>
    rw [if_neg (by decide), if_neg (by omega), hpts, ok_bind, if_neg (by decide)]
    rfl
  | some dts =>
    have hlong : e.stamps.length = 10 := by rw [hstamps, hdts]; rfl
    have hread := e.pesTimestamp_dts hdts
    have hflags : (if (some dts).isSome = true then 3 else 2 : UInt8) = 3 := rfl
    rw [hflags, if_neg (by decide), if_neg (by omega), hpts, ok_bind, if_pos rfl, if_neg (by omega), hread, ok_bind]
    rfl

end PesPacket

/-- A PES packet of stream 0xE0 with both time stamps, behind the longest adaptation field. -/
def lastPes : PesPacket where
  indicators := 0
  pid := 0x100
  pid_le := by decide
  control := 0
  adaptation := some (List.replicate 164 0xFF)
  streamId := 0xE0
  streamId_allowed := .inl (by decide)
  pesPacketLength := 0
  marks := 0x80
  flags := 0
  headerDataLength := 10
  pts := 2 ^ 33 - 1
  pts_lt := by decide
  dts := some (2 ^ 33 - 3600)
  dts_lt := by decide
  rest := []
  length_bytes := rfl

/-! ## Both readers -/

/-- **Time stamps** are read from every packet without a panic, have 33 bits, and are those that were
written. -/
theorem stamps_read :
    (∀ (p : Packet) (pid : UInt16), ∃ stamp, pktPtsDts p.bytes pid = .ok stamp ∧
      ∀ s ∈ stamp, s.1 < 2 ^ 33 ∧ s.2 < 2 ^ 33) ∧
    ∀ e : PesPacket, pktPtsDts e.bytes e.pid = .ok (some (e.pts, e.dts.getD e.pts)) :=
  ⟨pktPtsDts_stamp, PesPacket.pktPtsDts_eq⟩

example : pktPtsDts lastPes.bytes 0x100 = .ok (some (2 ^ 33 - 1, 2 ^ 33 - 3600)) := by decide +kernel

/-- **The clock value**: the two tests for one agree; a value below one cycle that is written is read back,
and nothing is written but the six bytes, which lie inside the adaptation field. -/
theorem pcr_written (p : Packet) : pktIsPcrPresent p.bytes = (pktExtractPcr p.bytes).isSome ∧
    (pktIsPcrPresent p.bytes = true → ∀ pcr < 2 ^ 33 * 300,
      pktIsPcrPresent (pktWritePcr p pcr).bytes = true ∧ pktExtractPcr (pktWritePcr p pcr).bytes = some pcr ∧
      (∀ i, i < 6 ∨ 11 < i → byte (pktWritePcr p pcr).bytes i = byte p.bytes i) ∧
      ∀ i, 6 ≤ i → i ≤ 11 → InAdaptation p i) := by
  refine ⟨(pktExtractPcr_isSome p.bytes).symm, fun hpresent pcr hpcr => ?_⟩
  refine ⟨(writePcr_present p pcr).trans hpresent, extract_write_pcr p hpcr hpresent,
    fun i hi => writePcr_byte p pcr hi, fun i hi hi' => ?_⟩
  obtain ⟨hcontrol, hlength, -⟩ := (pktIsPcrPresent_iff p.bytes).1 hpresent
  have hseven : 7 ≤ (byte p.bytes 4).toNat := UInt8.le_iff_toNat_le.1 (UInt8.not_lt.1 hlength)
  exact ⟨hcontrol, by omega, by omega⟩

end MyMuxer
