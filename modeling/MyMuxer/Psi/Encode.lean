import MyMuxer.Psi.Pat
import Mathlib.Data.Prod.Lex

/-!
# What the generated tables are made of (`psi/mod.rs`)

* `DateTime`: a time as `chrono` shows it, and the order of times.
* `mjd`, `encodeDvbTime`, `encodeDuration`, `dvbText`: the fields.
* `setSectionLength`, `sectionWithCrc`: the last two steps of every generated section.
-/

namespace MyMuxer.Psi.Encode

open MyMuxer

structure Section where
  pid : UInt16
  bytes : Bytes
  deriving DecidableEq

def high (value : UInt16) : UInt8 := (value >>> 8).toUInt8

def low (value : UInt16) : UInt8 := value.toUInt8

theorem be16_high_low (value : UInt16) : be16 0xFFFF (high value) (low value) = value := by
  have hmask : ∀ b : UInt8, b.toUInt16 &&& 0xFFFF = b.toUInt16 := by decide
  have h : (be16 0x00FF (high value) (low value)).toNat = value.toNat := by
    rw [be16_toNat (k := 8) le_rfl rfl, high, toNat_highByte, low, UInt16.toNat_toUInt8]
    have := value.toNat_lt
    omega
  have hlow : ∀ b : UInt8, b.toUInt16 &&& 0x00FF = b.toUInt16 := by decide
  refine UInt16.toNat_inj.1 (Eq.trans ?_ h)
  rw [be16, be16, hmask, hlow]

/-! ## Times -/

/-- `DateTime<Utc>`: date, time of day, and nanoseconds (from `10 ^ 9` on in a leap second). -/
structure DateTime where
  year : ℤ
  month : ℕ
  day : ℕ
  hour : ℕ
  minute : ℕ
  second : ℕ
  nanosecond : ℕ

namespace DateTime

/-- Times are in the order of their fields. -/
def fields (t : DateTime) : ℤ ×ₗ ℕ ×ₗ ℕ ×ₗ ℕ ×ₗ ℕ ×ₗ ℕ ×ₗ ℕ :=
  toLex (t.year, toLex (t.month, toLex (t.day, toLex (t.hour, toLex (t.minute, toLex (t.second, t.nanosecond))))))

theorem fields_injective : Function.Injective fields := fun s t h => by
  obtain ⟨y, mo, d, ho, mi, s, n⟩ := s
  obtain ⟨y', mo', d', ho', mi', s', n'⟩ := t
  simpa [fields] using h

instance : LinearOrder DateTime := LinearOrder.lift' fields fields_injective

end DateTime

def bcd (value : UInt8) : UInt8 := ((value / 10) <<< 4) ||| (value % 10)

/-- The day number, modulo `2 ^ 16`. The floating-point products of the source are exact: `1461 / 4` and
`306001 / 10000` to a day. -/
def mjd (year : ℤ) (month day : ℕ) : UInt16 :=
  let (year, month) := if month ≤ 2 then (year - 1, month + 12) else (year, month)
  let a := year.tdiv 100
  let b := 2 - a + a.tdiv 4
  let jd := (year + 4716) * 1461 / 4 + (306001 * (month + 1) / 10000 : ℕ) + day + b - 1524
  UInt16.ofInt (jd - 2400001)

def encodeDvbTime (dt : DateTime) : Bytes :=
  let mjd := mjd dt.year dt.month dt.day
  [high mjd, low mjd, bcd (UInt8.ofNat dt.hour), bcd (UInt8.ofNat dt.minute), bcd (UInt8.ofNat dt.second)]

/-- The nearest number with a significand of 24 bits, the even one of two. -/
def roundF32 (n : ℕ) : ℕ :=
  if n < 2 ^ 24 then n
  else
    let unit := 2 ^ (n.log2 - 23)
    let q := n / unit
    let r := n % unit
    (if unit < 2 * r ∨ (2 * r = unit ∧ q % 2 = 1) then q + 1 else q) * unit

/-- `Duration::seconds(n).as_seconds_f32() as u32`, which saturates. -/
def secondsF32 (n : ℕ) : ℕ := min (roundF32 n) (2 ^ 32 - 1)

def encodeDuration (seconds : ℕ) : Bytes :=
  let h := UInt8.ofNat (min (seconds / 3600) 99)
  let m := UInt8.ofNat (seconds % 3600 / 60)
  let s := UInt8.ofNat (seconds % 60)
  [bcd h, bcd m, bcd s]

/-! ## Texts -/

/-- The characters before `floor_char_boundary(budget)`, and the others. -/
def splitBudget : ℕ → List Char → List Char × List Char
  | _, [] => ([], [])
  | budget, c :: cs =>
    if c.utf8Size ≤ budget then
      let (fit, rest) := splitBudget (budget - c.utf8Size) cs
      (c :: fit, rest)
    else ([], c :: cs)

def charBytes (cs : List Char) : Bytes := cs.flatMap String.utf8EncodeChar

/-- A text of `max_len` bytes at most, cut at the end of a character. -/
def dvbText (text : String) (maxLen : ℕ) : Bytes := 0x15 :: charBytes (splitBudget (maxLen - 1) text.toList).1

theorem length_splitBudget (cs : List Char) : ∀ budget, (charBytes (splitBudget budget cs).1).length ≤ budget := by
  induction cs with
  | nil => exact fun budget => Nat.zero_le _
  | cons c cs ih =>
    intro budget
    unfold splitBudget
    split_ifs with hfit
    · have hrest := ih (budget - c.utf8Size)
      simp only [charBytes, List.flatMap_cons, List.length_append, String.length_utf8EncodeChar] at hrest ⊢
      omega
    · exact Nat.zero_le _

theorem length_dvbText (text : String) {maxLen : ℕ} (h : 0 < maxLen) : (dvbText text maxLen).length ≤ maxLen := by
  have := length_splitBudget text.toList (maxLen - 1)
  rw [dvbText, List.length_cons]
  omega

/-! ## Sections -/

def setSectionLength (bytes : Bytes) : Bytes :=
  let len := UInt16.ofNat (bytes.length - 3 + 4)
  (bytes.set 1 (byte bytes 1 &&& 0xF0 ||| high len)).set 2 (low len)

def sectionWithCrc (env : Env) (pid : UInt16) (bytes : Bytes) : Section := { pid, bytes := withCrc env bytes }

theorem setSectionLength_length (bytes : Bytes) : (setSectionLength bytes).length = bytes.length := by
  simp [setSectionLength]

/-- The length goes to the bytes 1 and 2. -/
theorem byte_setSectionLength (bytes : Bytes) {i : ℕ} (hi : 3 ≤ i) :
    byte (setSectionLength bytes) i = byte bytes i := by
  simp only [setSectionLength, byte, List.getD_eq_getElem?_getD]
  rw [List.getElem?_set_ne (by omega), List.getElem?_set_ne (by omega)]

end MyMuxer.Psi.Encode
