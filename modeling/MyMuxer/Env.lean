import MyMuxer.Biss

/-!
# What the source calls and does not define

`Env` gathers the code outside the repository: the `crc`, `encoding_rs` and `dvbcsa` libraries, the
order in which an unstable sort leaves equal keys, and the rounding of the `f64` expressions of
`mux.rs`. Every result holds for every `Env`. `Env.sample` is one of them that computes.
-/

namespace MyMuxer

/-- `PatInfo` of `psi/pat.rs`. -/
structure PatInfo where
  progNum : UInt16
  pmtPid : UInt16
  deriving DecidableEq

structure Env where
  /-- `MPEG2_CRC.checksum`. -/
  crc : Bytes → UInt32
  /-- `ISO_8859_5.decode(..)`. -/
  iso8859 : Bytes → String
  /-- `UTF_16BE.decode(..)`. -/
  utf16be : Bytes → String
  /-- `sort_unstable_by_key(|p| p.prog_num)`. -/
  sortByProgNum : List PatInfo → List PatInfo
  sort_perm : ∀ l, (sortByProgNum l).Perm l
  sort_sorted : ∀ l, (sortByProgNum l).Pairwise fun a b => a.progNum ≤ b.progNum
  /-- `libdvbcsa`, with the feature on. -/
  dvbcsa : Option (Bytes → Cipher)
  /-- `(buffer_duration_ms as f64 * (1.00 - adjust_buf as f64 / 100.00)) as u64`. -/
  minLimit : ℕ → ℕ → ℕ
  /-- `(buffer_duration_ms as f64 * (1.00 + adjust_buf as f64 / 100.00)) as u64`. -/
  maxLimit : ℕ → ℕ → ℕ
  /-- `(bitrate as f64 * 1.2 * 1024.00) as u64`. -/
  probeBitrate : ℕ → ℕ
  /-- `(bitrate as f64 * max_duration_ms / 8.00 / 1_000.00) as usize`, with `max_duration_ms` from
  `buffer_duration_ms` and `adjust_buf`. -/
  maxBuffSize : ℕ → ℕ → ℕ → ℕ

/-- One bit of CRC-32/MPEG-2. -/
def crcBit (c : UInt32) : UInt32 := if c &&& 0x80000000 = 0 then c <<< 1 else (c <<< 1) ^^^ 0x04C11DB7

/-- One byte of CRC-32/MPEG-2. -/
def crcByte (c : UInt32) (b : UInt8) : UInt32 := crcBit^[8] (c ^^^ (b.toUInt32 <<< 24))

/-- CRC-32/MPEG-2. -/
def crc32Mpeg2 (l : Bytes) : UInt32 := l.foldl crcByte 0xFFFFFFFF

/-- Exact arithmetic, a stable sort, and no descrambling. -/
def Env.sample : Env where
  crc := crc32Mpeg2
  iso8859 l := fromUtf8Lossy l
  utf16be l := fromUtf8Lossy l
  sortByProgNum := List.insertionSort fun a b => a.progNum ≤ b.progNum
  sort_perm l := List.perm_insertionSort _ l
  sort_sorted l := by
    have : Std.Total fun a b : PatInfo => a.progNum ≤ b.progNum := ⟨fun _ _ => UInt16.le_total _ _⟩
    have : IsTrans PatInfo fun a b => a.progNum ≤ b.progNum := ⟨fun _ _ _ => UInt16.le_trans⟩
    exact List.pairwise_insertionSort _ l
  dvbcsa := none
  minLimit d a := d * (100 - a) / 100
  maxLimit d a := d * (100 + a) / 100
  probeBitrate b := b * 12288 / 10
  maxBuffSize b d a := b * (d * (100 + a) / 100 + 500) / 8000

end MyMuxer
