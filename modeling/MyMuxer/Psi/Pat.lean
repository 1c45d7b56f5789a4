import MyMuxer.Env
import MyMuxer.Psi.Section

/-!
# The program association table (`psi/pat.rs`)

* `analyzePat`, `patchPatSection`, `isPatChanged`.
* `setSectionLength`, `withCrc`: the last two steps of every patched section.
* `WellFormedPat`: a section with its header and CRC; neither function panics on one
  (`analyzePat_ok`, `patchPatSection_ok`).
-/

namespace MyMuxer.Psi

open MyMuxer

/-- `section_length` rewritten for a section that still lacks its CRC. -/
def setSectionLength (section_ : Bytes) : Bytes :=
  let len := UInt16.ofNat (section_.length - 3 + 4)
  (section_.set 1 (byte section_ 1 &&& (0xF0 : UInt8) ||| (len >>> 8).toUInt8 &&& (0x0F : UInt8))).set 2
    (len &&& 0xFF).toUInt8

/-- `crc.to_be_bytes()`. -/
def crcBytes (crc : UInt32) : Bytes :=
  [(crc >>> 24).toUInt8, (crc >>> 16).toUInt8, (crc >>> 8).toUInt8, crc.toUInt8]

/-- The section followed by its CRC. -/
def withCrc (env : Env) (section_ : Bytes) : Bytes := section_ ++ crcBytes (env.crc section_)

/-- The entries of the loop over `section[8..section_end]`, four bytes at a time. -/
def patEntries : Bytes → List PatInfo
  | b0 :: b1 :: b2 :: b3 :: rest =>
    let progNum := be16 0xFFFF b0 b1
    let pmtPid := be16 0x1F b2 b3
    if progNum ≠ 0 then { progNum, pmtPid } :: patEntries rest else patEntries rest
  | _ => []

def analyzePat (section_ : Bytes) : Rs (List PatInfo) := do
  let sectionEnd ← usub section_.length 4
  return patEntries ((section_.take sectionEnd).drop 8)

/-- The four bytes of a program. -/
def patEntry (m : UInt16 × UInt16) : Bytes :=
  [(m.1 >>> 8).toUInt8, (m.1 &&& 0xFF).toUInt8, (m.2 >>> 8).toUInt8 &&& (0x1F : UInt8) ||| (0xE0 : UInt8),
    (m.2 &&& 0xFF).toUInt8]

def patchPatSection (env : Env) (originalSection : Bytes) (mappings : List (UInt16 × UInt16)) :
    Rs Bytes := do
  let header ← slice originalSection 0 8
  return withCrc env (setSectionLength (header ++ mappings.flatMap patEntry))

def isPatChanged (env : Env) (a b : List PatInfo) : Bool :=
  if a.length ≠ b.length then true
  else if a = b then false
  else env.sortByProgNum a ≠ env.sortByProgNum b

theorem isPatChanged_self (env : Env) (a : List PatInfo) : isPatChanged env a a = false := by
  simp [isPatChanged]

/-- A PAT section with its eight header bytes and its CRC. -/
def WellFormedPat (s : Bytes) : Prop := 12 ≤ s.length

theorem analyzePat_ok {s : Bytes} (h : WellFormedPat s) : ∃ pat, analyzePat s = .ok pat := by
  have h : 12 ≤ s.length := h
  exact ⟨_, by rw [analyzePat, usub_of_le (by omega)]; rfl⟩

theorem patchPatSection_eq (env : Env) {s : Bytes} (h : WellFormedPat s) (m : List (UInt16 × UInt16)) :
    patchPatSection env s m = .ok (withCrc env (setSectionLength (s.take 8 ++ m.flatMap patEntry))) := by
  have h : 12 ≤ s.length := h
  rw [patchPatSection, slice_of_le (by omega) (by omega)]; rfl

theorem setSectionLength_length (s : Bytes) : (setSectionLength s).length = s.length := by
  simp [setSectionLength]

/-- The rewritten `section_length` counts the CRC, in twelve bits. -/
theorem sectionLen_withCrc_mod (env : Env) {s : Bytes} (h3 : 3 ≤ s.length) :
    sectionLen (withCrc env (setSectionLength s)) = (s.length + 1) % 4096 := by
  have hhigh : ∀ b : UInt8, (b &&& (0xF0 : UInt8)).toNat % 2 ^ 4 = 0 := by decide
  have hlow : ∀ b : UInt8, (b &&& (0x0F : UInt8)).toNat % 2 ^ 4 = b.toNat % 2 ^ 4 := by decide
  have h1 : (byte s 1 &&& (0xF0 : UInt8) |||
      (UInt16.ofNat (s.length - 3 + 4) >>> 8).toUInt8 &&& (0x0F : UInt8)).toNat
      % 16 = (s.length + 1) / 256 % 16 := by
    rw [UInt8.toNat_or, Nat.or_mod_two_pow (n := 4), hhigh, hlow, Nat.zero_or, toNat_highByte, UInt16.toNat_ofNat']
    omega
  have h2 : (UInt16.ofNat (s.length - 3 + 4) &&& 0xFF).toUInt8.toNat = (s.length + 1) % 256 := by
    rw [toNat_lowByte, UInt16.toNat_ofNat']
    omega
  have hb1 : byte (withCrc env (setSectionLength s)) 1 =
      byte s 1 &&& (0xF0 : UInt8) ||| (UInt16.ofNat (s.length - 3 + 4) >>> 8).toUInt8 &&& (0x0F : UInt8) := by
    rw [withCrc, byte_append_left (by rw [setSectionLength_length]; omega)]
    simp [setSectionLength, byte, show 1 < s.length by omega]
  have hb2 : byte (withCrc env (setSectionLength s)) 2 =
      (UInt16.ofNat (s.length - 3 + 4) &&& 0xFF).toUInt8 := by
    rw [withCrc, byte_append_left (by rw [setSectionLength_length]; omega)]
    simp [setSectionLength, byte, show 2 < s.length by omega]
  rw [sectionLen_eq, hb1, hb2, h1, h2]
  omega

/-- **The rewritten `section_length` counts the CRC.** -/
theorem sectionLen_withCrc (env : Env) {s : Bytes} (h3 : 3 ≤ s.length) (h : s.length + 1 < 4096) :
    sectionLen (withCrc env (setSectionLength s)) = s.length + 1 := by
  rw [sectionLen_withCrc_mod env h3, Nat.mod_eq_of_lt h]

theorem length_withCrc (env : Env) (s : Bytes) : (withCrc env (setSectionLength s)).length = s.length + 4 := by
  rw [withCrc, List.length_append, setSectionLength_length]
  rfl

theorem patchPatSection_ok (env : Env) {s : Bytes} (h : WellFormedPat s) (m : List (UInt16 × UInt16)) :
    ∃ s', patchPatSection env s m = .ok s' ∧ WellFormedPat s' := by
  have h' : 12 ≤ s.length := h
  refine ⟨_, patchPatSection_eq env h m, ?_⟩
  simp [WellFormedPat, withCrc, setSectionLength_length, crcBytes]
  omega

end MyMuxer.Psi
