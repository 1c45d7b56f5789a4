import MyMuxer.Rust

/-!
# Transport stream packets (`packet.rs`)

* `Packet`: a `[u8; 188]`, with `Packet.ofBytes` and `Packet.set`, the two ways the source builds one.
* `pktPid`, `pktPtsDts`, `pktExtractPcr`, ...: the field readers; `pktWritePcr`, `pktSetDiscontinuity`,
  `pktNext`: the in-place writers.
* `extract_write_pcr`: a PCR below one cycle survives being written and read back.
* `Restamped`: **what the two rewriters may change**, the discontinuity flag and the PCR, and only
  inside the adaptation field (`InAdaptation`); `setDiscontinuity_restamped`, `writePcr_restamped`.
-/

namespace MyMuxer

def tsPacketSize : ℕ := 188

def tsSyncByte : UInt8 := 0x47

/-- A `[u8; TS_PACKET_SIZE]`. -/
structure Packet where
  bytes : Bytes
  length_bytes : bytes.length = tsPacketSize
  deriving DecidableEq

namespace Packet

@[ext] theorem ext {p q : Packet} (h : p.bytes = q.bytes) : p = q := by
  cases p; cases q; simpa using h

/-- A `[0xFF; TS_PACKET_SIZE]` overwritten from the front by `l`. -/
def ofBytes (l : Bytes) : Packet :=
  ⟨(l ++ List.replicate tsPacketSize 0xFF).take tsPacketSize, by simp⟩

/-- `packet[i] = b`. -/
def set (p : Packet) (i : ℕ) (b : UInt8) : Packet := ⟨p.bytes.set i b, by simp [p.length_bytes]⟩

/-- `[0u8; TS_PACKET_SIZE]`. -/
def zero : Packet := ⟨List.replicate tsPacketSize 0, by simp⟩

theorem length_eq (p : Packet) : p.bytes.length = 188 := p.length_bytes

theorem ofBytes_bytes {l : Bytes} (h : l.length ≤ 188) :
    (ofBytes l).bytes = l ++ List.replicate (188 - l.length) 0xFF := by
  simp only [ofBytes, tsPacketSize, List.take_append, List.take_of_length_le h, List.take_replicate]
  congr 2; omega

theorem ofBytes_bytes_of_length {l : Bytes} (h : l.length = 188) : (ofBytes l).bytes = l := by
  rw [ofBytes_bytes h.le, h]; simp

theorem byte_ofBytes {l : Bytes} {i : ℕ} (h : i < l.length) (hl : l.length ≤ 188) :
    byte (ofBytes l).bytes i = byte l i := by
  rw [ofBytes_bytes hl]; simp [byte, List.getElem?_append_left h]

/-- A packet cut from a buffer that begins with a sync byte begins with one. -/
theorem ofBytes_sync {l : Bytes} (h : byte l 0 = tsSyncByte) :
    byte (ofBytes (l.take tsPacketSize)).bytes 0 = tsSyncByte := by
  cases l with
  | nil => exact absurd h (by decide)
  | cons b l =>
    rw [byte_ofBytes (l := (b :: l).take tsPacketSize) (by simp [tsPacketSize]) (List.length_take_le _ _)]
    exact h

@[simp] theorem byte_set_self (p : Packet) {i : ℕ} (h : i < 188) (b : UInt8) :
    byte (p.set i b).bytes i = b := by
  simp [byte, set, p.length_eq, h]

theorem byte_set_ne (p : Packet) {i j : ℕ} (h : i ≠ j) (b : UInt8) :
    byte (p.set i b).bytes j = byte p.bytes j := by
  simp [byte, set, List.getElem?_set_ne h]

end Packet

/-- `TS_NULL_PACKET`. -/
def tsNullPacket : Packet := Packet.ofBytes [0x47, 0x1F, 0xFF, 0x10]

/-! ## Readers -/

def pktPid (pkt : Bytes) : UInt16 := be16 0x1F (byte pkt 1) (byte pkt 2)

/-- `(packet[3] >> 4) & 0x03`. -/
def afControl (packet : Bytes) : UInt8 := (byte packet 3 >>> 4) &&& 0x03

/-- The 33-bit time stamp at `off` of a PES header. -/
def pesTimestamp (packet : Bytes) (off : ℕ) : Rs ℕ := do
  let b0 ← idx packet off
  let b1 ← idx packet (off + 1)
  let b2 ← idx packet (off + 2)
  let b3 ← idx packet (off + 3)
  let b4 ← idx packet (off + 4)
  return (b0 &&& 0x0E).toNat <<< 29 ||| b1.toNat <<< 22 ||| (b2 &&& 0xFE).toNat <<< 14 |||
    b3.toNat <<< 7 ||| (b4 &&& 0xFE).toNat >>> 1

/-- Where the payload of a packet starts for `pktPtsDts`: nothing without one. -/
def pesOffset (packet : Bytes) : Option ℕ :=
  if afControl packet = 1 then some 4
  else if afControl packet = 3 then some (4 + (1 + (byte packet 4).toNat))
  else none

def pktPtsDts (packet : Bytes) (checkPid : UInt16) : Rs (Option (ℕ × ℕ)) := do
  if packet.length < tsPacketSize ∨ byte packet 0 ≠ tsSyncByte then return none
  if pktPid packet ≠ checkPid then return none
  if byte packet 1 &&& 0x40 = 0 then return none
  match pesOffset packet with
  | none => return none
  | some offset =>
    if offset + 14 > tsPacketSize then return none
    let start ← slice packet offset (offset + 3)
    if start ≠ [0x00, 0x00, 0x01] then return none
    let streamId ← idx packet (offset + 3)
    if ¬ ((0xC0 ≤ streamId ∧ streamId ≤ 0xEF) ∨ streamId = 0xBD) then return none
    let flags ← idx packet (offset + 7)
    let ptsDtsFlags := (flags &&& 0xC0) >>> 6
    if ptsDtsFlags < 2 then return none
    let off := offset + 9
    if off + 4 ≥ 188 then return none
    let pts ← pesTimestamp packet off
    if ptsDtsFlags = 3 then
      let offDts := offset + 14
      if offDts + 4 ≥ tsPacketSize then return some (pts, pts)
      let dts ← pesTimestamp packet offDts
      return some (pts, dts)
    return some (pts, pts)

def pktExtractPcr (packet : Bytes) : Option ℕ :=
  if afControl packet < 2 then none
  else if byte packet 4 < 7 then none
  else if byte packet 5 &&& 0x10 = 0 then none
  else
    let base := (byte packet 6).toNat <<< 25 ||| (byte packet 7).toNat <<< 17 |||
      (byte packet 8).toNat <<< 9 ||| (byte packet 9).toNat <<< 1 ||| (byte packet 10).toNat >>> 7
    let ext := (byte packet 10 &&& 0x01).toNat <<< 8 ||| (byte packet 11).toNat
    some (base * 300 + ext)

def pktIsPcrPresent (packet : Bytes) : Bool :=
  if afControl packet < 2 then false
  else decide (byte packet 5 &&& 0x10 ≠ 0) && decide (7 ≤ byte packet 4)

def pktHasPayload (packet : Bytes) : Bool := decide (afControl packet = 1 ∨ afControl packet = 3)

def pktGetDiscontinuity (packet : Bytes) : Bool :=
  if packet.length < 6 then false
  else if afControl packet < 2 then false
  else if byte packet 4 < 1 then false
  else decide (byte packet 5 &&& 0x80 ≠ 0)

def pktScramblingControl (packet : Bytes) : UInt8 := (byte packet 3 >>> 6) &&& 0x03

/-- The two scrambling bits, where they are. -/
theorem scramblingControl_eq_zero (packet : Bytes) :
    pktScramblingControl packet = 0 ↔ byte packet 3 &&& 0xC0 = 0 := by
  have h : ∀ b : UInt8, (b >>> 6) &&& (0x03 : UInt8) = 0 ↔ b &&& (0xC0 : UInt8) = 0 := by decide
  rw [pktScramblingControl, h]

/-! ## Time stamps -/

theorem shift_or {a b k : ℕ} (h : b < 2 ^ k) : a <<< k ||| b = a * 2 ^ k + b := by
  rw [← Nat.shiftLeft_add_eq_or_of_lt h, Nat.shiftLeft_eq]

/-- 3, 15 and 15 bits, each with a marker bit behind it. -/
def stampValue (b0 b1 b2 b3 b4 : UInt8) : ℕ :=
  b0.toNat / 2 % 8 * 2 ^ 30 + b1.toNat * 2 ^ 22 + b2.toNat / 2 * 2 ^ 15 + b3.toNat * 2 ^ 7 + b4.toNat / 2

theorem stampValue_lt (b0 b1 b2 b3 b4 : UInt8) : stampValue b0 b1 b2 b3 b4 < 2 ^ 33 := by
  have h1 := b1.toNat_lt
  have h2 := b2.toNat_lt
  have h3 := b3.toNat_lt
  have h4 := b4.toNat_lt
  unfold stampValue
  omega

theorem stampValue_or (b0 b1 b2 b3 b4 : UInt8) :
    (b0 &&& 0x0E).toNat <<< 29 ||| b1.toNat <<< 22 ||| (b2 &&& 0xFE).toNat <<< 14 ||| b3.toNat <<< 7 |||
      (b4 &&& 0xFE).toNat >>> 1 = stampValue b0 b1 b2 b3 b4 := by
  have h1 := b1.toNat_lt
  have h2 := b2.toNat_lt
  have h3 := b3.toNat_lt
  have h4 := b4.toNat_lt
  have hthree : (b0 &&& 0x0E).toNat = b0.toNat / 2 % 8 * 2 := by
    revert b0
    decide
  have heven : ∀ b : UInt8, (b &&& 0xFE).toNat = b.toNat / 2 * 2 := by decide
  have hhigh : (b0 &&& 0x0E).toNat <<< 29 = (b0.toNat / 2 % 8) <<< 30 := by
    rw [hthree, Nat.shiftLeft_eq, Nat.shiftLeft_eq]
    omega
  have hmiddle : (b2 &&& 0xFE).toNat <<< 14 = (b2.toNat / 2) <<< 15 := by
    rw [heven, Nat.shiftLeft_eq, Nat.shiftLeft_eq]
    omega
  have hlow : (b4 &&& 0xFE).toNat >>> 1 = b4.toNat / 2 := by
    rw [heven, Nat.shiftRight_eq_div_pow]
    omega
  have hor1 := shift_or (a := b3.toNat) (k := 7) (b := b4.toNat / 2) (by omega)
  have hor2 := shift_or (a := b2.toNat / 2) (k := 15) (b := b3.toNat * 2 ^ 7 + b4.toNat / 2) (by omega)
  have hor3 := shift_or (a := b1.toNat) (k := 22)
    (b := b2.toNat / 2 * 2 ^ 15 + (b3.toNat * 2 ^ 7 + b4.toNat / 2)) (by omega)
  have hor4 := shift_or (a := b0.toNat / 2 % 8) (k := 30)
    (b := b1.toNat * 2 ^ 22 + (b2.toNat / 2 * 2 ^ 15 + (b3.toNat * 2 ^ 7 + b4.toNat / 2))) (by omega)
  rw [hhigh, hmiddle, hlow, Nat.or_assoc, Nat.or_assoc, Nat.or_assoc, hor1, hor2, hor3, hor4, stampValue]
  omega

theorem pesTimestamp_eq {p : Bytes} {off : ℕ} (h : off + 4 < p.length) :
    pesTimestamp p off = .ok (stampValue (byte p off) (byte p (off + 1)) (byte p (off + 2)) (byte p (off + 3))
      (byte p (off + 4))) := by
  rw [pesTimestamp, idx_of_lt (by omega), ok_bind, idx_of_lt (by omega), ok_bind, idx_of_lt (by omega), ok_bind,
    idx_of_lt (by omega), ok_bind, idx_of_lt (by omega), ok_bind, pure_eq_ok, stampValue_or]

/-- Reading the time stamps of a packet never panics, and time stamps have 33 bits. -/
theorem pktPtsDts_stamp (p : Packet) (pid : UInt16) : ∃ stamp, pktPtsDts p.bytes pid = .ok stamp ∧
    ∀ s ∈ stamp, s.1 < 2 ^ 33 ∧ s.2 < 2 ^ 33 := by
  have hl := p.length_eq
  have hsize : tsPacketSize = 188 := rfl
  have hnone : ∀ s ∈ (none : Option (ℕ × ℕ)), s.1 < 2 ^ 33 ∧ s.2 < 2 ^ 33 := fun _ hs => nomatch hs
  rw [pktPtsDts]
  by_cases h1 : p.bytes.length < tsPacketSize ∨ byte p.bytes 0 ≠ tsSyncByte
  · rw [if_pos h1]
    exact ⟨none, rfl, hnone⟩
  rw [if_neg h1]
  by_cases h2 : pktPid p.bytes ≠ pid
  · rw [if_pos h2]
    exact ⟨none, rfl, hnone⟩
  rw [if_neg h2]
  by_cases h3 : byte p.bytes 1 &&& 0x40 = 0
  · rw [if_pos h3]
    exact ⟨none, rfl, hnone⟩
  rw [if_neg h3]
  cases pesOffset p.bytes with
  | none => exact ⟨none, rfl, hnone⟩
  | some offset =>
    dsimp only
    by_cases h4 : offset + 14 > tsPacketSize
    · rw [if_pos h4]
      exact ⟨none, rfl, hnone⟩
    have hsome (a b : ℕ) (ha : a < 2 ^ 33) (hb : b < 2 ^ 33) :
        ∀ s ∈ some (a, b), s.1 < 2 ^ 33 ∧ s.2 < 2 ^ 33 := fun s hs => Option.mem_some_iff.1 hs ▸ ⟨ha, hb⟩
    -- every index below stays within the packet, since the header fits
    rw [if_neg h4, slice_of_le (by omega) (by omega), ok_bind, idx_of_lt (by omega), idx_of_lt (by omega),
      pesTimestamp_eq (by omega)]
    simp only [ok_bind, pure_eq_ok]
    split_ifs
    · exact ⟨none, rfl, hnone⟩
    · exact ⟨none, rfl, hnone⟩
    · exact ⟨none, rfl, hnone⟩
    · exact ⟨_, rfl, hsome _ _ (stampValue_lt _ _ _ _ _) (stampValue_lt _ _ _ _ _)⟩
    · rw [pesTimestamp_eq (by omega)]
      exact ⟨_, rfl, hsome _ _ (stampValue_lt _ _ _ _ _) (stampValue_lt _ _ _ _ _)⟩
    · exact ⟨_, rfl, hsome _ _ (stampValue_lt _ _ _ _ _) (stampValue_lt _ _ _ _ _)⟩
    · exact ⟨none, rfl, hnone⟩

theorem pktPtsDts_ok (p : Packet) (pid : UInt16) : ∃ stamp, pktPtsDts p.bytes pid = .ok stamp := by
  obtain ⟨stamp, hstamp, -⟩ := pktPtsDts_stamp p pid
  exact ⟨stamp, hstamp⟩

/-! ## Writers -/

def pktWritePcr (packet : Packet) (pcr : ℕ) : Packet :=
  let base := pcr / 300
  let ext := pcr % 300
  let low : UInt8 := UInt8.ofNat (base <<< 7) &&& (0x80 : UInt8) ||| (0x7E : UInt8) |||
    UInt8.ofNat (ext >>> 8) &&& (0x01 : UInt8)
  (((((packet.set 6 (UInt8.ofNat (base >>> 25))).set 7 (UInt8.ofNat (base >>> 17))).set 8
    (UInt8.ofNat (base >>> 9))).set 9 (UInt8.ofNat (base >>> 1))).set 10 low).set 11
    (UInt8.ofNat (ext &&& (0xFF : ℕ)))

def pktSetDiscontinuity (packet : Packet) : Bool × Packet :=
  if afControl packet.bytes < 2 then (false, packet)
  else if byte packet.bytes 4 < 1 then (false, packet)
  else (true, packet.set 5 (byte packet.bytes 5 ||| 0x80))

def pktNext (packet : Packet) : Packet :=
  let currentByte := byte packet.bytes 3
  let nextCounter := ((currentByte &&& 0x0F) + 1) &&& 0x0F
  packet.set 3 (currentByte &&& 0xF0 ||| nextCounter)

/-- The continuity counter of a packet. -/
def pktCc (packet : Bytes) : UInt8 := byte packet 3 &&& 0x0F

theorem pktNext_byte (p : Packet) {i : ℕ} (h : i ≠ 3) : byte (pktNext p).bytes i = byte p.bytes i :=
  p.byte_set_ne (Ne.symm h) _

theorem pktNext_cc (p : Packet) : pktCc (pktNext p).bytes = (pktCc p.bytes + 1) &&& 0x0F := by
  have h : ∀ b : UInt8, (b &&& 0xF0 ||| (((b &&& 0x0F) + 1) &&& 0x0F)) &&& 0x0F =
      ((b &&& 0x0F) + 1) &&& 0x0F := by decide
  rw [pktCc, pktNext, Packet.byte_set_self _ (by norm_num), h]; rfl

theorem pktNext_pid (p : Packet) : pktPid (pktNext p).bytes = pktPid p.bytes := by
  rw [pktPid, pktPid, pktNext_byte _ (by norm_num), pktNext_byte _ (by norm_num)]

/-- `pkt_next` changes the low four bits of byte 3 and nothing else. -/
theorem pktNext_high (p : Packet) : byte (pktNext p).bytes 3 &&& 0xF0 = byte p.bytes 3 &&& 0xF0 := by
  have h : ∀ b : UInt8,
      ((b &&& (0xF0 : UInt8)) ||| (((b &&& (0x0F : UInt8)) + 1) &&& (0x0F : UInt8))) &&& (0xF0 : UInt8) =
      b &&& 0xF0 := by decide
  rw [pktNext, Packet.byte_set_self _ (by norm_num), h]

theorem afControl_high {p q : Bytes} (h : byte p 3 &&& 0xF0 = byte q 3 &&& 0xF0) :
    afControl p = afControl q := by
  have hb : ∀ b : UInt8, (b >>> 4) &&& (0x03 : UInt8) = ((b &&& (0xF0 : UInt8)) >>> 4) &&& (0x03 : UInt8) := by
    decide
  rw [afControl, afControl, hb, h, ← hb]

theorem pktNext_afControl (p : Packet) : afControl (pktNext p).bytes = afControl p.bytes :=
  afControl_high (pktNext_high p)

/-! ## The PCR field -/

/-- The 42-bit field, read as a number. -/
theorem pcr_base_eq {a b c d e : ℕ} (hb : b < 256) (hc : c < 256) (hd : d < 256) (he : e < 2) :
    a <<< 25 ||| b <<< 17 ||| c <<< 9 ||| d <<< 1 ||| e =
      a * 2 ^ 25 + b * 2 ^ 17 + c * 2 ^ 9 + d * 2 + e := by
  have h1 := shift_or (a := d) (k := 1) (b := e) (by omega)
  have h2 := shift_or (a := c) (k := 9) (b := d * 2 ^ 1 + e) (by omega)
  have h3 := shift_or (a := b) (k := 17) (b := c * 2 ^ 9 + (d * 2 ^ 1 + e)) (by omega)
  have h4 := shift_or (a := a) (k := 25) (b := b * 2 ^ 17 + (c * 2 ^ 9 + (d * 2 ^ 1 + e))) (by omega)
  simp only [Nat.or_assoc, h1, h2, h3, h4]
  omega

/-- A 33-bit number from the digits `pktWritePcr` writes. -/
theorem pcr_base_digits {B : ℕ} (hB : B < 2 ^ 33) :
    B / 2 ^ 25 % 2 ^ 8 * 2 ^ 25 + B / 2 ^ 17 % 2 ^ 8 * 2 ^ 17 + B / 2 ^ 9 % 2 ^ 8 * 2 ^ 9 +
      B / 2 ^ 1 % 2 ^ 8 * 2 + B % 2 = B := by
  have h1 : B / 2 ^ 17 / 2 ^ 8 = B / 2 ^ 25 := by rw [Nat.div_div_eq_div_mul]; norm_num
  have h2 : B / 2 ^ 9 / 2 ^ 8 = B / 2 ^ 17 := by rw [Nat.div_div_eq_div_mul]; norm_num
  have h3 : B / 2 ^ 1 / 2 ^ 8 = B / 2 ^ 9 := by rw [Nat.div_div_eq_div_mul]; norm_num
  omega

theorem pktIsPcrPresent_iff (p : Bytes) :
    pktIsPcrPresent p = true ↔ ¬ afControl p < 2 ∧ ¬ byte p 4 < 7 ∧ byte p 5 &&& 0x10 ≠ 0 := by
  unfold pktIsPcrPresent
  split_ifs with h
  · simp [h]
  · simp [h, UInt8.not_lt, and_comm]

theorem pktExtractPcr_isSome (p : Bytes) : (pktExtractPcr p).isSome = pktIsPcrPresent p := by
  rw [Bool.eq_iff_iff, pktIsPcrPresent_iff, pktExtractPcr]
  split_ifs <;> simp_all

theorem writePcr_byte (p : Packet) (v : ℕ) {i : ℕ} (h : i < 6 ∨ 11 < i) :
    byte (pktWritePcr p v).bytes i = byte p.bytes i := by
  simp only [pktWritePcr]
  rw [Packet.byte_set_ne _ (by omega), Packet.byte_set_ne _ (by omega), Packet.byte_set_ne _ (by omega),
    Packet.byte_set_ne _ (by omega), Packet.byte_set_ne _ (by omega), Packet.byte_set_ne _ (by omega)]

theorem afControl_congr {p q : Bytes} (h : byte p 3 = byte q 3) : afControl p = afControl q := by
  rw [afControl, afControl, h]

theorem isPcrPresent_congr {p q : Bytes} (h3 : byte p 3 = byte q 3) (h4 : byte p 4 = byte q 4)
    (h5 : byte p 5 = byte q 5) : pktIsPcrPresent p = pktIsPcrPresent q := by
  rw [pktIsPcrPresent, pktIsPcrPresent, afControl_congr h3, h4, h5]

theorem writePcr_present (p : Packet) (v : ℕ) :
    pktIsPcrPresent (pktWritePcr p v).bytes = pktIsPcrPresent p.bytes :=
  isPcrPresent_congr (writePcr_byte p v (by omega)) (writePcr_byte p v (by omega))
    (writePcr_byte p v (by omega))

/-- **A PCR below one cycle survives being written and read back.** -/
theorem extract_write_pcr (p : Packet) {v : ℕ} (hv : v < 2 ^ 33 * 300)
    (hp : pktIsPcrPresent p.bytes = true) : pktExtractPcr (pktWritePcr p v).bytes = some v := by
  obtain ⟨h1, h2, h3⟩ := (pktIsPcrPresent_iff _).1 ((writePcr_present p v).trans hp)
  rw [pktExtractPcr, if_neg h1, if_neg h2, if_neg h3]
  have hlow : ∀ x y : UInt8, ((x &&& 0x80 ||| 0x7E ||| y &&& 0x01).toNat >>> 7 = x.toNat / 128) ∧
      ((x &&& 0x80 ||| 0x7E ||| y &&& 0x01) &&& 0x01).toNat = y.toNat % 2 := by
    intro x y
    have hx : (x &&& 0x80 = 0 ∧ x.toNat / 128 = 0) ∨ (x &&& 0x80 = 0x80 ∧ x.toNat / 128 = 1) := by
      revert x; decide
    have hy : (y &&& 0x01 = 0 ∧ y.toNat % 2 = 0) ∨ (y &&& 0x01 = 1 ∧ y.toNat % 2 = 1) := by
      revert y; decide
    obtain ⟨hx, hx'⟩ | ⟨hx, hx'⟩ := hx <;> obtain ⟨hy, hy'⟩ | ⟨hy, hy'⟩ := hy <;>
      rw [hx, hy, hx', hy'] <;> decide
  have b6 : byte (pktWritePcr p v).bytes 6 = UInt8.ofNat ((v / 300) >>> 25) := by
    simp only [pktWritePcr]
    iterate 5 rw [Packet.byte_set_ne _ (by norm_num)]
    rw [Packet.byte_set_self _ (by norm_num)]
  have b7 : byte (pktWritePcr p v).bytes 7 = UInt8.ofNat ((v / 300) >>> 17) := by
    simp only [pktWritePcr]
    iterate 4 rw [Packet.byte_set_ne _ (by norm_num)]
    rw [Packet.byte_set_self _ (by norm_num)]
  have b8 : byte (pktWritePcr p v).bytes 8 = UInt8.ofNat ((v / 300) >>> 9) := by
    simp only [pktWritePcr]
    iterate 3 rw [Packet.byte_set_ne _ (by norm_num)]
    rw [Packet.byte_set_self _ (by norm_num)]
  have b9 : byte (pktWritePcr p v).bytes 9 = UInt8.ofNat ((v / 300) >>> 1) := by
    simp only [pktWritePcr]
    iterate 2 rw [Packet.byte_set_ne _ (by norm_num)]
    rw [Packet.byte_set_self _ (by norm_num)]
  have b10 : byte (pktWritePcr p v).bytes 10 = UInt8.ofNat ((v / 300) <<< 7) &&& (0x80 : UInt8) |||
      (0x7E : UInt8) ||| UInt8.ofNat ((v % 300) >>> 8) &&& (0x01 : UInt8) := by
    simp only [pktWritePcr]
    rw [Packet.byte_set_ne _ (by norm_num), Packet.byte_set_self _ (by norm_num)]
  have b11 : byte (pktWritePcr p v).bytes 11 = UInt8.ofNat (v % 300 &&& (0xFF : ℕ)) := by
    simp only [pktWritePcr]
    rw [Packet.byte_set_self _ (by norm_num)]
  simp only [b6, b7, b8, b9, b10, b11, (hlow _ _).1, (hlow _ _).2]
  have hmask : v % 300 &&& 255 = v % 300 % 256 := Nat.and_two_pow_sub_one_eq_mod _ 8
  simp only [UInt8.toNat_ofNat', Nat.shiftRight_eq_div_pow, hmask, Option.some.injEq]
  have hbit : (v / 300) <<< 7 % 2 ^ 8 / 128 = v / 300 % 2 := by rw [Nat.shiftLeft_eq]; omega
  have hext : v % 300 / 2 ^ 8 % 2 ^ 8 % 2 * 2 ^ 8 + v % 300 % 256 % 2 ^ 8 = v % 300 := by
    have := Nat.mod_lt v (show 0 < 300 by norm_num)
    generalize v % 300 = e at *
    have h1 : e / 2 ^ 8 < 2 := by omega
    rw [Nat.mod_eq_of_lt (show e / 2 ^ 8 < 2 ^ 8 by omega), Nat.mod_eq_of_lt h1]
    omega
  rw [hbit, pcr_base_eq (by omega) (by omega) (by omega) (by omega), shift_or (k := 8) (by omega), hext]
  rw [pcr_base_digits (B := v / 300) (by omega)]
  exact Nat.div_add_mod' v 300

/-! ## What the rewriters change -/

/-- Byte `i` lies in the adaptation field, after its length byte. -/
def InAdaptation (p : Packet) (i : ℕ) : Prop :=
  ¬ afControl p.bytes < 2 ∧ 4 < i ∧ i ≤ 4 + (byte p.bytes 4).toNat

/-- `q` is `p` up to the discontinuity flag and the PCR, which change inside the adaptation field
alone. -/
structure Restamped (p q : Packet) : Prop where
  outside : ∀ i, i < 5 ∨ 11 < i → byte q.bytes i = byte p.bytes i
  flags : byte q.bytes 5 &&& 0x7F = byte p.bytes 5 &&& 0x7F
  inside : ∀ i, byte q.bytes i ≠ byte p.bytes i → InAdaptation p i

theorem Restamped.refl (p : Packet) : Restamped p p := ⟨fun _ _ => rfl, rfl, fun _ h => absurd rfl h⟩

theorem Restamped.inAdaptation {p q : Packet} (h : Restamped p q) {i : ℕ} :
    InAdaptation q i ↔ InAdaptation p i := by
  rw [InAdaptation, InAdaptation, h.outside 4 (by omega), afControl_congr (h.outside 3 (by omega))]

theorem Restamped.trans {p q r : Packet} (h : Restamped p q) (h' : Restamped q r) : Restamped p r where
  outside i hi := (h'.outside i hi).trans (h.outside i hi)
  flags := h'.flags.trans h.flags
  inside i hi := by
    by_cases hq : byte r.bytes i = byte q.bytes i
    · exact h.inside i (hq ▸ hi)
    · exact h.inAdaptation.1 (h'.inside i hq)

theorem Restamped.pid {p q : Packet} (h : Restamped p q) : pktPid q.bytes = pktPid p.bytes := by
  rw [pktPid, pktPid, h.outside 1 (by omega), h.outside 2 (by omega)]

theorem setDiscontinuity_restamped (p : Packet) : Restamped p (pktSetDiscontinuity p).2 := by
  rw [pktSetDiscontinuity]
  split_ifs with h1 h2
  · exact .refl p
  · exact .refl p
  · have hflag : ∀ b : UInt8, (b ||| (0x80 : UInt8)) &&& (0x7F : UInt8) = b &&& (0x7F : UInt8) := by decide
    refine ⟨fun i hi => p.byte_set_ne (by omega) _, ?_, fun i hi => ?_⟩
    · rw [Packet.byte_set_self _ (by norm_num), hflag]
    · by_cases h5 : 5 = i
      · subst h5
        have : 1 ≤ (byte p.bytes 4).toNat := UInt8.le_iff_toNat_le.1 (UInt8.not_lt.1 h2)
        exact ⟨h1, by omega, by omega⟩
      · exact absurd (p.byte_set_ne h5 _) hi

theorem writePcr_restamped {p : Packet} (hp : pktIsPcrPresent p.bytes = true) (v : ℕ) :
    Restamped p (pktWritePcr p v) := by
  obtain ⟨h1, h2, -⟩ := (pktIsPcrPresent_iff _).1 hp
  have h7 : 7 ≤ (byte p.bytes 4).toNat := UInt8.le_iff_toNat_le.1 (UInt8.not_lt.1 h2)
  refine ⟨fun i hi => writePcr_byte p v (by omega), by rw [writePcr_byte p v (by omega)], fun i hi => ?_⟩
  have : ¬ (i < 6 ∨ 11 < i) := fun h => hi (writePcr_byte p v h)
  exact ⟨h1, by omega, by omega⟩

/-- The flag says nothing about the PCR. -/
theorem setDiscontinuity_present (p : Packet) :
    pktIsPcrPresent (pktSetDiscontinuity p).2.bytes = pktIsPcrPresent p.bytes := by
  rw [pktSetDiscontinuity]
  split_ifs
  · rfl
  · rfl
  · have hb : ∀ b : UInt8, (b ||| (0x80 : UInt8)) &&& (0x10 : UInt8) = b &&& (0x10 : UInt8) := by decide
    rw [pktIsPcrPresent, pktIsPcrPresent, Packet.byte_set_self _ (by norm_num), hb,
      Packet.byte_set_ne _ (by norm_num), afControl_congr (Packet.byte_set_ne _ (by norm_num) _)]

/-- A packet with a PCR has room for the flag. -/
theorem setDiscontinuity_flag {p : Packet} (hp : pktIsPcrPresent p.bytes = true) :
    pktGetDiscontinuity (pktSetDiscontinuity p).2.bytes = true := by
  obtain ⟨h1, h2, -⟩ := (pktIsPcrPresent_iff _).1 hp
  have h2' : ¬ byte p.bytes 4 < 1 := fun h => h2 (UInt8.lt_trans h (by decide))
  have hb : ∀ b : UInt8, (b ||| (0x80 : UInt8)) &&& (0x80 : UInt8) ≠ 0 := by decide
  rw [pktSetDiscontinuity, if_neg h1, if_neg h2', pktGetDiscontinuity, Packet.length_eq,
    afControl_congr (Packet.byte_set_ne _ (by norm_num) _), Packet.byte_set_ne _ (by norm_num),
    Packet.byte_set_self _ (by norm_num)]
  simp [h1, h2', hb]

end MyMuxer
