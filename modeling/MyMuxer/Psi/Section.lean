import MyMuxer.Packet

/-!
# Sections and packets (`psi/mod.rs`)

* `SectionReassembler`, with `push`, `takeComplete`, `clear`, and `SectionReassemblerMap`, one
  reassembler for each PID.
* `packMulti` and `pack`: a section laid out in packets, and its first packet alone.
* `sectionLen`: the 12-bit `section_length`; `SectionReassembler.collect`: what a payload without a
  pointer does to a buffer, the one fact about `push` that the proofs use.
-/

namespace MyMuxer.Psi

open MyMuxer

/-- The 12-bit `section_length`. -/
def sectionLen (section_ : Bytes) : ℕ := (be16 0x0F (byte section_ 1) (byte section_ 2)).toNat

theorem sectionLen_eq (s : Bytes) : sectionLen s = (byte s 1).toNat % 16 * 256 + (byte s 2).toNat :=
  be16_toNat (k := 4) (by norm_num) rfl _ _

theorem sectionLen_lt (s : Bytes) : sectionLen s < 4096 := by
  rw [sectionLen_eq]
  have := (byte s 2).toNat_lt
  omega

/-! ## The reassembler -/

structure SectionReassembler where
  pid : UInt16
  buffer : Bytes
  expectedLen : Option ℕ
  deriving DecidableEq

namespace SectionReassembler

def new (pid : UInt16) : SectionReassembler := { pid, buffer := [], expectedLen := none }

def clear (r : SectionReassembler) : SectionReassembler := { r with buffer := [], expectedLen := none }

/-- The length `take_complete` goes by: the one already found, or the header's when three bytes are
there; `none` is the `return None` for an oversized header. -/
def expect (r : SectionReassembler) : Option SectionReassembler :=
  if r.expectedLen.isNone ∧ 3 ≤ r.buffer.length then
    if sectionLen r.buffer + 3 > 3 + 4095 then none
    else some { r with expectedLen := some (sectionLen r.buffer + 3) }
  else some r

def takeComplete (r : SectionReassembler) : Option Bytes × SectionReassembler :=
  match r.expect with
  | none => (none, r.clear)
  | some r =>
    match r.expectedLen with
    | none => (none, r)
    | some n => if r.buffer.length < n then (none, r) else (some (r.buffer.take n), r.clear)

end SectionReassembler

def payloadOffset (packet : Bytes) : Option ℕ :=
  if packet.length < tsPacketSize then none
  else if afControl packet = 1 then some 4
  else if afControl packet = 3 then
    let offset := 4 + ((byte packet 4).toNat + 1)
    if offset > packet.length then none else some offset
  else none

/-- `packet[1] & 0x40 != 0`. -/
def pusi (packet : Bytes) : Bool := decide (byte packet 1 &&& 0x40 ≠ 0)

namespace SectionReassembler

/-- The end of `push`: the payload from `offset` on goes to the buffer. -/
def collect (r : SectionReassembler) (packet : Bytes) (offset : ℕ) :
    Option Bytes × SectionReassembler :=
  if offset ≥ packet.length then (none, r)
  else takeComplete { r with buffer := r.buffer ++ packet.drop offset }

/-- A packet in which a section starts: the bytes before the start finish the old section. -/
def pushStart (r : SectionReassembler) (packet : Bytes) (offset : ℕ) :
    Option Bytes × SectionReassembler :=
  if offset ≥ packet.length then (none, r.clear)
  else
    let pointer := (byte packet offset).toNat
    let offset := offset + 1
    let pointerEnd := offset + pointer
    if pointerEnd > packet.length then (none, r.clear)
    else if r.buffer ≠ [] ∧ pointer > 0 then
      match takeComplete { r with buffer := r.buffer ++ (packet.drop offset).take pointer } with
      | (some section_, r) => (some section_, r.clear)
      | (none, r) => r.clear.collect packet pointerEnd
    else r.clear.collect packet pointerEnd

def push (r : SectionReassembler) (packet : Bytes) : Option Bytes × SectionReassembler :=
  if packet.length < tsPacketSize ∨ byte packet 0 ≠ tsSyncByte then (none, r.clear)
  else if pktPid packet ≠ r.pid then (none, r)
  else
    match payloadOffset packet with
    | none => (none, r)
    | some offset =>
      if pusi packet then r.pushStart packet offset
      else if r.buffer = [] then (none, r)
      else r.collect packet offset

end SectionReassembler

structure SectionReassemblerMap where
  perPid : UInt16 → Option SectionReassembler

namespace SectionReassemblerMap

def new : SectionReassemblerMap := ⟨fun _ => none⟩

/-- `per_pid.entry(pid).or_insert_with(..)`. -/
def entry (m : SectionReassemblerMap) (pid : UInt16) : SectionReassembler :=
  (m.perPid pid).getD (SectionReassembler.new pid)

def insert (m : SectionReassemblerMap) (pid : UInt16) (r : SectionReassembler) : SectionReassemblerMap :=
  ⟨Function.update m.perPid pid (some r)⟩

def push (m : SectionReassemblerMap) (packet : Bytes) : Option Bytes × SectionReassemblerMap :=
  if packet.length < tsPacketSize ∨ byte packet 0 ≠ tsSyncByte then (none, m)
  else
    let pid := pktPid packet
    let (section_, r) := (m.entry pid).push packet
    (section_, m.insert pid r)

end SectionReassemblerMap

/-! ## Packing -/

/-- Byte 1 of a packet: the PUSI flag and the high bits of the PID. -/
def pidHigh (pid : UInt16) (first : Bool) : UInt8 :=
  ((pid >>> 8).toUInt8 &&& 0x1F) ||| if first then 0x40 else 0x00

/-- The header `packMulti` writes, with the pointer field of a first packet. -/
def packHeader (first : Bool) (pid : UInt16) (cc : UInt8) : Bytes :=
  [tsSyncByte, pidHigh pid first, (pid &&& 0xFF).toUInt8, 0x10 ||| (cc &&& 0x0F)] ++
    if first then [0x00] else []

/-- The loop of `pack_multi`: `rest` is `section[offset..]`. -/
def packLoop (pid : UInt16) : ℕ → Bool → Bytes → UInt8 → List Packet × UInt8
  | 0, _, _, cc => ([], cc)
  | fuel + 1, first, rest, cc =>
    if first = false ∧ rest = [] then ([], cc)
    else
      let header := packHeader first pid cc
      let capacity := tsPacketSize - header.length
      let (packets, cc') := packLoop pid fuel false (rest.drop capacity) ((cc + 1) &&& 0x0F)
      (Packet.ofBytes (header ++ rest.take capacity) :: packets, cc')

def packMulti (section_ : Bytes) (pid : UInt16) (cc : UInt8) : List Packet × UInt8 :=
  packLoop pid (section_.length + 1) true section_ cc

def pack (section_ : Bytes) (pid : UInt16) (cc : UInt8) : Packet :=
  (packMulti section_ pid cc).1.headD ⟨List.replicate tsPacketSize 0xFF, by simp⟩

def cachedCc (cachedPkt : Packet) : UInt8 :=
  if byte cachedPkt.bytes 0 = tsSyncByte then byte cachedPkt.bytes 3 &&& 0x0F else 0

end MyMuxer.Psi
