import MyMuxer.Lib.Gregorian
import MyMuxer.Psi.Encode

/-!
# Times in tables (`psi/mod.rs`)

* `mjdDay`: the days from 1858-11-17 to a date, `mjdDay_iterate`; **`mjd_eq`**: `mjd` counts them.
* `decodeDvbTime`, `decodeDuration`: what the bytes of a time and of a duration say.
* **`dvb_time_exact`**: times and durations survive being written and read back.
-/

namespace MyMuxer.Psi.Encode

open MyMuxer Gregorian

/-- 1858-11-17. -/
def mjdEpoch : Date where
  year := 1858
  month := 11
  day := 17
  year_pos := by norm_num
  month_pos := by norm_num
  month_le := by norm_num
  day_pos := by norm_num
  day_le := by decide

/-- The days from 1858-11-17 to a date. -/
def mjdDay (d : Date) : ℤ := d.dayNumber - mjdEpoch.dayNumber

theorem dayNumber_mjdEpoch : mjdEpoch.dayNumber = 678576 := by
  have h := mjdEpoch.dayNumber_march
  rw [show mjdEpoch.marchYear = 1858 from rfl, show mjdEpoch.marchMonth = 8 from rfl,
    show mjdEpoch.day = 17 from rfl] at h
  generalize mjdEpoch.dayNumber = n at h ⊢
  omega

/-- The date `n` days after 1858-11-17. -/
theorem mjdDay_iterate (n : ℕ) : mjdDay (Date.next^[n] mjdEpoch) = n := by
  rw [mjdDay, Date.dayNumber_iterate]
  push_cast
  ring

/-- The months from March on, which is month 3, in days: 30.6001 for each. -/
theorem march_months {m : ℕ} (h3 : 3 ≤ m) (h14 : m ≤ 14) :
    306001 * (m + 1) / 10000 = (153 * (m - 3) + 2) / 5 + 122 := by
  have hall : ∀ k < 12, 306001 * (k + 3 + 1) / 10000 = (153 * k + 2) / 5 + 122 := by decide
  have h := hall (m - 3) (by omega)
  rwa [Nat.sub_add_cancel h3] at h

/-- The day number of a month and a year that begins in March. -/
theorem mjd_march {y m d : ℕ} (h3 : 3 ≤ m) (h14 : m ≤ 14) :
    ((y : ℤ) + 4716) * 1461 / 4 + (306001 * (m + 1) / 10000 : ℕ) + d +
      (2 - (y : ℤ).tdiv 100 + ((y : ℤ).tdiv 100).tdiv 4) - 1524 - 2400001 + y / 100 + 306 =
    365 * y + y / 4 + y / 400 + ((153 * (m - 3) + 2) / 5 : ℕ) + d - 678576 := by
  have hcentury : (y : ℤ).tdiv 100 = y / 100 := Int.tdiv_eq_ediv_of_nonneg (by omega)
  have hfour : ((y : ℤ) / 100).tdiv 4 = y / 400 := by
    rw [Int.tdiv_eq_ediv_of_nonneg (by omega)]
    omega
  have hyears : ((y : ℤ) + 4716) * 1461 / 4 = 365 * y + y / 4 + 1722519 := by omega
  rw [march_months h3 h14, hcentury, hfour, hyears]
  push_cast
  ring

/-- **`mjd` is the number of days from 1858-11-17**, modulo `2 ^ 16`. -/
theorem mjd_eq (d : Date) : mjd d.year d.month d.day = UInt16.ofInt (mjdDay d) := by
  have hmarch := d.dayNumber_march
  have hpos := d.month_pos
  have hle := d.month_le
  have hyear := d.year_pos
  rw [mjdDay, dayNumber_mjdEpoch]
  unfold mjd
  unfold Date.marchYear Date.marchMonth at hmarch
  split_ifs at hmarch ⊢ with hm
  · have h := mjd_march (y := d.year - 1) (m := d.month + 12) (d := d.day) (by omega) (by omega)
    rw [show ((d.year - 1 : ℕ) : ℤ) = (d.year : ℤ) - 1 by omega] at h
    rw [show d.month + 9 = d.month + 12 - 3 by omega] at hmarch
    dsimp only
    congr 1
    omega
  · have h := mjd_march (y := d.year) (m := d.month) (d := d.day) (by omega) (by omega)
    dsimp only
    congr 1
    omega

/-! ## Reading times -/

/-- The number of two decimal digits. -/
def decodeBcd (b : UInt8) : ℕ := (b >>> 4).toNat * 10 + (b &&& 0x0F).toNat

/-- The seconds from the start of 1858-11-17 that the five bytes of a time say. -/
def decodeDvbTime (l : Bytes) : ℕ :=
  (be16 0xFFFF (byte l 0) (byte l 1)).toNat * 86400 + decodeBcd (byte l 2) * 3600 + decodeBcd (byte l 3) * 60 +
    decodeBcd (byte l 4)

/-- The seconds that the three bytes of a duration say. -/
def decodeDuration (l : Bytes) : ℕ :=
  decodeBcd (byte l 0) * 3600 + decodeBcd (byte l 1) * 60 + decodeBcd (byte l 2)

theorem decodeBcd_bcd {n : ℕ} (h : n < 100) : decodeBcd (bcd (UInt8.ofNat n)) = n := by
  have hall : ∀ b : UInt8, b.toNat < 100 → decodeBcd (bcd b) = b.toNat := by decide
  have hn : (UInt8.ofNat n).toNat = n := UInt8.toNat_ofNat_of_lt' (show n < 256 by omega)
  rw [hall _ (by omega), hn]

/-- A time on a date. -/
structure On (d : Date) (t : DateTime) : Prop where
  year : t.year = d.year
  month : t.month = d.month
  day : t.day = d.day
  hour_lt : t.hour < 24
  minute_lt : t.minute < 60
  second_lt : t.second < 60

/-- The seconds from the start of 1858-11-17 to a time. -/
def utcSecond (d : Date) (t : DateTime) : ℤ := mjdDay d * 86400 + t.hour * 3600 + t.minute * 60 + t.second

theorem decode_encodeDvbTime {d : Date} {t : DateTime} (h : On d t) (h0 : 0 ≤ mjdDay d) (h1 : mjdDay d ≤ 65535) :
    decodeDvbTime (encodeDvbTime t) = utcSecond d t := by
  have hour := h.hour_lt
  have minute := h.minute_lt
  have second := h.second_lt
  obtain ⟨n, hn⟩ := Int.eq_ofNat_of_zero_le h0
  have hday : (mjd t.year t.month t.day).toNat = n := by
    have hmod : ((n : ℤ) % 2 ^ 16).toNat = n := by omega
    rw [h.year, h.month, h.day, mjd_eq, hn]
    change (UInt16.ofNat ((n : ℤ) % 2 ^ 16).toNat).toNat = n
    rw [hmod]
    exact UInt16.toNat_ofNat_of_lt' (show n < 65536 by omega)
  have hread : decodeDvbTime (encodeDvbTime t) = n * 86400 + t.hour * 3600 + t.minute * 60 + t.second := by
    change (be16 0xFFFF (high (mjd t.year t.month t.day)) (low (mjd t.year t.month t.day))).toNat * 86400 +
      decodeBcd (bcd (UInt8.ofNat t.hour)) * 3600 + decodeBcd (bcd (UInt8.ofNat t.minute)) * 60 +
      decodeBcd (bcd (UInt8.ofNat t.second)) = _
    rw [be16_high_low, hday, decodeBcd_bcd (by omega), decodeBcd_bcd (by omega), decodeBcd_bcd (by omega)]
  rw [hread, utcSecond, hn]
  push_cast
  rfl

theorem decode_encodeDuration {n : ℕ} (h : n < 360000) : decodeDuration (encodeDuration n) = n := by
  rw [decodeDuration, encodeDuration]
  change decodeBcd (bcd (UInt8.ofNat (min (n / 3600) 99))) * 3600 +
    decodeBcd (bcd (UInt8.ofNat (n % 3600 / 60))) * 60 + decodeBcd (bcd (UInt8.ofNat (n % 60))) = n
  rw [decodeBcd_bcd (by omega), decodeBcd_bcd (by omega), decodeBcd_bcd (by omega)]
  omega

/-- **Times are exact**: the day number is that of the calendar modulo `2 ^ 16`, a time of the range of day numbers is
read back to the second, and so is every duration below 100 hours. -/
theorem dvb_time_exact : (∀ d : Date, mjd d.year d.month d.day = UInt16.ofInt (mjdDay d)) ∧
    (∀ d t, On d t → 0 ≤ mjdDay d → mjdDay d ≤ 65535 → decodeDvbTime (encodeDvbTime t) = utcSecond d t) ∧
    ∀ n < 360000, decodeDuration (encodeDuration n) = n :=
  ⟨mjd_eq, fun _ _ h h0 h1 => decode_encodeDvbTime h h0 h1, fun _ h => decode_encodeDuration h⟩

/-- 2024-02-29. -/
def leapDate : Date where
  year := 2024
  month := 2
  day := 29
  year_pos := by norm_num
  month_pos := by norm_num
  month_le := by norm_num
  day_pos := by norm_num
  day_le := by decide

theorem mjdDay_leapDate : mjdDay leapDate = 60369 := by
  have h := leapDate.dayNumber_march
  rw [show leapDate.marchYear = 2023 from rfl, show leapDate.marchMonth = 11 from rfl,
    show leapDate.day = 29 from rfl] at h
  rw [mjdDay, dayNumber_mjdEpoch]
  generalize leapDate.dayNumber = n at h ⊢
  omega

/-- A minute before the end of a leap day. -/
theorem dvb_time_exact_sample : decodeDvbTime (encodeDvbTime ⟨2024, 2, 29, 23, 59, 0, 0⟩) =
    utcSecond leapDate ⟨2024, 2, 29, 23, 59, 0, 0⟩ :=
  dvb_time_exact.2.1 leapDate _ ⟨rfl, rfl, rfl, by norm_num, by norm_num, by norm_num⟩
    (by rw [mjdDay_leapDate]; norm_num) (by rw [mjdDay_leapDate]; norm_num)

end MyMuxer.Psi.Encode
