import MyMuxer.Psi.DvbTime
import MyMuxer.Psi.EventSections

/-!
# The time offset table (`psi/tot.rs`)

* `getLocalOffsetBcd`, `totSection`: a section with the local time offset of a zone.
* `describedOffsets`: the two offsets that the bytes of a section say, with the bit for their sign.
* `totSection_says`: a section is well formed, and says how large the offset is.
* **`offset_described_iff`**: for which zones it says the offset.
-/

namespace MyMuxer.Psi.Tot

open Encode Greedy
open Eit (length_charBytes strBytes_eq splitBudget_of_le setSectionLength_eq)

def pid : UInt16 := 0x0014

/-- `country_code[0..3].as_bytes()`. -/
def countryBytes (countryCode : String) : Rs Bytes :=
  let code := charBytes (splitBudget 3 countryCode.toList).1
  if code.length = 3 then return code else .error .sliceOutOfRange

-- `local_minus_utc()` of the zone of a name, in seconds, or of UTC where there is none
variable (env : Env) (localMinusUtc : String → ℤ)

def getLocalOffsetBcd (timezone : String) : Bytes :=
  let offsetMinutes := (localMinusUtc timezone).natAbs / 60
  [bcd (UInt8.ofNat (offsetMinutes / 60)), bcd (UInt8.ofNat (offsetMinutes % 60))]

/-- The local_time_offset_descriptor. -/
def localTimeOffsetDescriptor (country timezoneBcd : Bytes) : Bytes :=
  [0x58, 13] ++ country ++ [0x00] ++ timezoneBcd ++ [0xFF, 0xFF, 0xFF, 0xFF, 0xFF] ++ timezoneBcd

/-- `section`. -/
def totSection (now : DateTime) (countryCode timezone : String) : Rs Section := do
  let timezoneBcd := getLocalOffsetBcd localMinusUtc timezone
  let country ← countryBytes countryCode
  let descriptor := localTimeOffsetDescriptor country timezoneBcd
  let descLoopLen := UInt16.ofNat descriptor.length
  let bytes := [0x73, 0x70, 0x00] ++ encodeDvbTime now ++ [(0xF0 : UInt8) ||| high descLoopLen, low descLoopLen] ++
    descriptor
  return sectionWithCrc env pid (Encode.setSectionLength bytes)

/-! ## What a section says -/

/-- The signed offset, in seconds, that a polarity bit and four digits say. -/
def decodeOffset (polarity hours minutes : UInt8) : ℤ :=
  let seconds := decodeBcd hours * 3600 + decodeBcd minutes * 60
  if polarity &&& 0x01 = 0 then seconds else -seconds

/-- `local_time_offset` and `next_time_offset` of the descriptor behind the time, if it is the one for them. -/
def describedOffsets (s : Bytes) : Option (ℤ × ℤ) :=
  if byte s 10 = 0x58 then
    some (decodeOffset (byte s 15) (byte s 16) (byte s 17), decodeOffset (byte s 15) (byte s 23) (byte s 24))
  else none

/-- The section length and the CRC are right, and so are the lengths of the descriptor loop and of the one
descriptor in it. -/
structure WellFormedTot (s : Bytes) : Prop where
  isSealed : Sealed env s
  loopLength : 10 + (be16 0x0F (byte s 8) (byte s 9)).toNat + 4 = s.length
  descriptorLength : (be16 0x0F (byte s 8) (byte s 9)).toNat = 2 + (byte s 11).toNat

variable {env localMinusUtc} {now : DateTime} {countryCode timezone : String}

theorem countryBytes_of_length (hcountry : (strBytes countryCode).length = 3) :
    countryBytes countryCode = .ok (strBytes countryCode) := by
  have hfit : weight Char.utf8Size countryCode.toList ≤ 3 := by
    rw [← length_charBytes, ← strBytes_eq, hcountry]
  rw [countryBytes, splitBudget_of_le _ _ hfit]
  dsimp only
  rw [← strBytes_eq, if_pos hcountry]
  rfl

/-- The bytes before the section length is set. -/
def totBytes (localMinusUtc : String → ℤ) (now : DateTime) (country : Bytes) (timezone : String) : Bytes :=
  [0x73, 0x70, 0x00] ++ encodeDvbTime now ++ [0xF0, 0x0F] ++
    localTimeOffsetDescriptor country (getLocalOffsetBcd localMinusUtc timezone)

theorem totSection_eq (hcountry : (strBytes countryCode).length = 3) :
    totSection env localMinusUtc now countryCode timezone =
      .ok (sectionWithCrc env pid (Encode.setSectionLength (totBytes localMinusUtc now (strBytes countryCode) timezone))) := by
  have hlength : (localTimeOffsetDescriptor (strBytes countryCode) (getLocalOffsetBcd localMinusUtc timezone)).length =
      15 := by
    rw [localTimeOffsetDescriptor, List.length_append, List.length_append, List.length_append, List.length_append,
      List.length_append, hcountry]
    rfl
  rw [totSection, countryBytes_of_length hcountry, ok_bind]
  dsimp only
  rw [hlength]
  rfl

/-- Without their sign, hours and minutes are those of the offset. -/
theorem decodeOffset_bcd {n : ℕ} (hday : n < 86400) (hminutes : 60 ∣ n) :
    decodeOffset 0x00 (bcd (UInt8.ofNat (n / 60 / 60))) (bcd (UInt8.ofNat (n / 60 % 60))) = n := by
  rw [decodeOffset, decodeBcd_bcd (by omega), decodeBcd_bcd (by omega), if_pos (by decide)]
  omega

/-- **What a section says**: it is well formed, and its offsets are how large that of the zone is. -/
theorem totSection_says (env : Env) (now : DateTime) (hcountry : (strBytes countryCode).length = 3)
    (hday : (localMinusUtc timezone).natAbs < 86400) (hminutes : 60 ∣ localMinusUtc timezone) :
    ∃ s, totSection env localMinusUtc now countryCode timezone = .ok s ∧ WellFormedTot env s.bytes ∧
      describedOffsets s.bytes =
        some (((localMinusUtc timezone).natAbs : ℤ), ((localMinusUtc timezone).natAbs : ℤ)) := by
  have hminutes : 60 ∣ (localMinusUtc timezone).natAbs := Int.natCast_dvd.1 hminutes
  obtain ⟨c0, c1, c2, hcode⟩ := List.length_eq_three.1 hcountry
  generalize hbytes : totBytes localMinusUtc now (strBytes countryCode) timezone = bytes
  have hlength : bytes.length = 25 := by rw [← hbytes, hcode]; rfl
  have hbyte (i : ℕ) (h3 : 3 ≤ i) (h25 : i < 25) :
      byte (sectionWithCrc env pid (Encode.setSectionLength bytes)).bytes i = byte bytes i := by
    rw [sectionWithCrc, withCrc, byte_append_left (by rw [Encode.setSectionLength_length, hlength]; exact h25),
      byte_setSectionLength bytes h3]
  -- the bytes before the section length is set, one by one
  have h8 : byte bytes 8 = 0xF0 := by rw [← hbytes]; rfl
  have h9 : byte bytes 9 = 0x0F := by rw [← hbytes]; rfl
  have h10 : byte bytes 10 = 0x58 := by rw [← hbytes]; rfl
  have h11 : byte bytes 11 = 13 := by rw [← hbytes]; rfl
  have h15 : byte bytes 15 = 0x00 := by rw [← hbytes, hcode]; rfl
  have h16 : byte bytes 16 = bcd (UInt8.ofNat ((localMinusUtc timezone).natAbs / 60 / 60)) := by
    rw [← hbytes, hcode]
    rfl
  have h17 : byte bytes 17 = bcd (UInt8.ofNat ((localMinusUtc timezone).natAbs / 60 % 60)) := by
    rw [← hbytes, hcode]
    rfl
  have h23 : byte bytes 23 = byte bytes 16 := by rw [← hbytes, hcode]; rfl
  have h24 : byte bytes 24 = byte bytes 17 := by rw [← hbytes, hcode]; rfl
  have hloop : (be16 0x0F 0xF0 0x0F).toNat = 15 := by decide
  refine ⟨_, hbytes ▸ totSection_eq hcountry, ⟨?_, ?_, ?_⟩, ?_⟩
  · rw [sectionWithCrc, setSectionLength_eq (by omega) (by omega)]
    exact sealed_withCrc env (by omega) (by omega)
  · rw [hbyte 8 (by decide) (by decide), hbyte 9 (by decide) (by decide), h8, h9, hloop, sectionWithCrc, withCrc,
      List.length_append, Encode.setSectionLength_length, hlength]
    rfl
  · rw [hbyte 8 (by decide) (by decide), hbyte 9 (by decide) (by decide), hbyte 11 (by decide) (by decide), h8, h9,
      h11, hloop]
    rfl
  · rw [describedOffsets, hbyte 10 (by decide) (by decide), if_pos h10, hbyte 15 (by decide) (by decide),
      hbyte 16 (by decide) (by decide), hbyte 17 (by decide) (by decide), hbyte 23 (by decide) (by decide),
      hbyte 24 (by decide) (by decide), h23, h24, h15, h16, h17, decodeOffset_bcd hday hminutes]

/-- **The offset of a zone is said exactly if the zone is not behind UTC.** -/
theorem offset_described_iff (env : Env) (now : DateTime) (hcountry : (strBytes countryCode).length = 3)
    (hday : (localMinusUtc timezone).natAbs < 86400) (hminutes : 60 ∣ localMinusUtc timezone) :
    (∃ s, totSection env localMinusUtc now countryCode timezone = .ok s ∧ WellFormedTot env s.bytes ∧
      describedOffsets s.bytes = some (localMinusUtc timezone, localMinusUtc timezone)) ↔
        0 ≤ localMinusUtc timezone := by
  obtain ⟨s, hsection, hformed, htold⟩ := totSection_says env now hcountry hday hminutes
  constructor
  · rintro ⟨s', hsection', -, htold'⟩
    cases hsection.symm.trans hsection'
    have heq := congrArg Prod.fst (Option.some.inj (htold.symm.trans htold'))
    dsimp only at heq
    omega
  · intro hpos
    rw [Int.natAbs_of_nonneg hpos] at htold
    exact ⟨s, hsection, hformed, htold⟩

/-- Midnight of 2025-01-01. -/
def newYear : DateTime where
  year := 2025
  month := 1
  day := 1
  hour := 0
  minute := 0
  second := 0
  nanosecond := 0

/-- Five and a half hours. -/
def kolkata : String → ℤ := fun _ => 19800

theorem offset_described_kolkata : ∃ s, totSection Env.sample kolkata newYear "IND" "Asia/Kolkata" = .ok s ∧
    WellFormedTot Env.sample s.bytes ∧ describedOffsets s.bytes = some (19800, 19800) :=
  Iff.mpr (offset_described_iff Env.sample newYear rfl (by decide) (by decide)) (by decide)

/-- Three and a half hours behind. -/
def newfoundland : String → ℤ := fun _ => -12600

/-- The section says an offset of three and a half hours ahead of UTC. -/
theorem newfoundland_ahead : ¬ ∃ s, totSection Env.sample newfoundland newYear "CAN" "America/St_Johns" = .ok s ∧
    WellFormedTot Env.sample s.bytes ∧ describedOffsets s.bytes = some (-12600, -12600) := by
  rintro ⟨s, hsection, -, htold⟩
  obtain ⟨s', hsection', -, htold'⟩ : ∃ s, totSection Env.sample newfoundland newYear "CAN" "America/St_Johns" =
      .ok s ∧ WellFormedTot Env.sample s.bytes ∧ describedOffsets s.bytes = some (12600, 12600) :=
    totSection_says Env.sample newYear rfl (by decide) (by decide)
  cases hsection.symm.trans hsection'
  exact absurd (htold.symm.trans htold') (by decide)

end MyMuxer.Psi.Tot
