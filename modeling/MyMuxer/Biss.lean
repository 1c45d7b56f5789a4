import MyMuxer.Packet
import MyMuxer.Text

/-!
# BISS-1 descrambling (`biss.rs`)

* `Cipher`: what `dvbcsa_decrypt` does under one key, a function of the payload that keeps its length.
* `Biss1Descrambler.descrambleTsPacket`: one packet; `descramble_byte`: it clears the scrambling bits
  and leaves the rest of the header alone.
* `parseBiss1Key`, `Biss1Descrambler.newFromHex`.
-/

namespace MyMuxer

/-- Decryption of a payload under one key. -/
structure Cipher where
  decrypt : Bytes → Bytes
  length_decrypt : ∀ payload, (decrypt payload).length = payload.length

structure Biss1Descrambler where
  keyEven : Cipher
  keyOdd : Cipher

/-! ## Keys -/

def hexVal (b : UInt8) : Option UInt8 :=
  if 0x30 ≤ b ∧ b ≤ 0x39 then some (b - 0x30)
  else if 0x61 ≤ b ∧ b ≤ 0x66 then some (b - 0x61 + 10)
  else if 0x41 ≤ b ∧ b ≤ 0x46 then some (b - 0x41 + 10)
  else none

def parseHexBytes : Bytes → Option Bytes
  | [] => some []
  | [_] => none
  | hi :: lo :: rest => do
    let hi ← hexVal hi
    let lo ← hexVal lo
    return (hi <<< 4 ||| lo) :: (← parseHexBytes rest)

/-- `s.strip_prefix("0x")`, or `s` where it does not begin so. -/
def stripHexPrefix (s : String) : String :=
  if s.toList.take 2 = ['0', 'x'] then String.ofList (s.toList.drop 2) else s

def parseBiss1Key (keyHex : String) : Option Bytes := do
  let s := strBytes (stripHexPrefix (trim keyHex))
  if s.length ≠ 12 ∧ s.length ≠ 16 then none
  let bytes ← parseHexBytes s
  match bytes with
  | [b0, b1, b2, b3, b4, b5] => return [b0, b1, b2, b0 + b1 + b2, b3, b4, b5, b3 + b4 + b5]
  | _ => if bytes.length = 8 then return bytes else none

/-- `Biss1Descrambler::new_from_hex`: both keys are set from one control word. `dvbcsa` is the
library behind the feature of that name, nothing without the feature. -/
def Biss1Descrambler.newFromHex (dvbcsa : Option (Bytes → Cipher)) (keyHex : String) :
    Option Biss1Descrambler := do
  let cw ← parseBiss1Key keyHex
  let key ← dvbcsa
  return { keyEven := key cw, keyOdd := key cw }

/-! ## Packets -/

/-- Where the scrambled payload of a packet starts. -/
def bissOffset (packet : Bytes) : ℕ :=
  if afControl packet = 1 then 4
  else if afControl packet = 3 then 5 + (byte packet 4).toNat
  else tsPacketSize

theorem length_decryptFrom (c : Cipher) (packet : Packet) (offset : ℕ) :
    (packet.bytes.take offset ++ c.decrypt (packet.bytes.drop offset)).length = tsPacketSize := by
  rw [List.length_append, List.length_take, c.length_decrypt, List.length_drop, packet.length_eq, tsPacketSize]
  omega

/-- The bytes from `offset` on, decrypted. -/
def decryptFrom (c : Cipher) (packet : Packet) (offset : ℕ) : Packet :=
  ⟨packet.bytes.take offset ++ c.decrypt (packet.bytes.drop offset), length_decryptFrom c packet offset⟩

/-- `packet[3] &= 0x3F`. -/
def clearScrambling (packet : Packet) : Packet := packet.set 3 (byte packet.bytes 3 &&& 0x3F)

def Biss1Descrambler.descrambleTsPacket (b : Biss1Descrambler) (packet : Packet) : Bool × Packet :=
  if byte packet.bytes 0 ≠ 0x47 then (false, packet)
  else
    let scrambling := byte packet.bytes 3 &&& 0xC0
    if scrambling = 0 ∨ scrambling = 0x40 then (false, packet)
    else
      let payloadOffset := bissOffset packet.bytes
      if payloadOffset + 8 > tsPacketSize then (false, clearScrambling packet)
      else
        let key := if scrambling = 0x80 then b.keyEven else b.keyOdd
        (true, clearScrambling (decryptFrom key packet payloadOffset))

theorem bissOffset_ge (packet : Bytes) : 4 ≤ bissOffset packet := by
  unfold bissOffset tsPacketSize; split_ifs <;> omega

theorem byte_decryptFrom (c : Cipher) (p : Packet) {offset i : ℕ} (hi : i < offset) (ho : offset ≤ 188) :
    byte (decryptFrom c p offset).bytes i = byte p.bytes i := by
  simp only [decryptFrom, byte, List.getD_eq_getElem?_getD]
  rw [List.getElem?_append_left (by simp [p.length_eq]; omega), List.getElem?_take_of_lt hi]

/-- **The first three bytes of a packet are never descrambled.** -/
theorem descramble_byte (b : Biss1Descrambler) (p : Packet) {i : ℕ} (hi : i < 3) :
    byte (b.descrambleTsPacket p).2.bytes i = byte p.bytes i := by
  have hge := bissOffset_ge p.bytes
  simp only [Biss1Descrambler.descrambleTsPacket]
  split_ifs with h1 h2 h3 <;> try rfl
  · rw [clearScrambling, Packet.byte_set_ne _ (by omega)]
  all_goals
    have : bissOffset p.bytes + 8 ≤ 188 := Nat.not_lt.1 h3
    rw [clearScrambling, Packet.byte_set_ne _ (by omega), byte_decryptFrom _ _ (by omega) (by omega)]

end MyMuxer
