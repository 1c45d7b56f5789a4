import MyMuxer.Build
import MyMuxer.Lib.Bits
import MyMuxer.Lib.Search
import MyMuxer.Pes.Es

/-!
# Audio streams (`EsParser3`, `EsParser4`, `EsParser15`)

* `findMpegAudioHeader` and the three parsers: as in the source.
* `Header`: twelve ones at the front of four bytes; **`findMpegAudioHeader_of_isLeast`**: the first one is found.
* `OnesAt`: the same of the bits; **`findMpegAudioHeader_eq`**: what the search returns.
* `Adts`: the header of an ADTS frame; **`adts_parsed`**: when its fields are found.
-/

namespace MyMuxer

open Bits Search

def findByte (data : Bytes) (value : UInt8) (start : ℕ) : Option ℕ :=
  if start ≤ data.length then ((data.drop start).findIdx? (· = value)).map (· + start) else none

def readU32Be (data : Bytes) (offset : ℕ) : Option UInt32 :=
  if offset + 4 ≤ data.length then
    some (be32 (byte data offset) (byte data (offset + 1)) (byte data (offset + 2)) (byte data (offset + 3)))
  else none

def findHeaderLoop (data : Bytes) : ℕ → ℕ → Ck (Option UInt32)
  | 0, _ => throw .endless
  | fuel + 1, esPointer =>
    if esPointer < data.length then
      match findByte data 0xFF esPointer with
      | none => return none
      | some pos =>
        if pos + 4 > data.length then return none
        else
          match readU32Be data pos with
          | some tmp => if tmp >>> 20 = 0xFFF then return some tmp else findHeaderLoop data fuel (pos + 2)
          | none => findHeaderLoop data fuel (pos + 2)
    else return none

def findMpegAudioHeader (data : Bytes) : Ck (Option UInt32) := findHeaderLoop data (data.length + 1) 0

/-- `((header >> shift) & mask) as u8`. -/
def headerBits (header shift mask : UInt32) : ℕ := (header >>> shift &&& mask).toUInt8.toNat

def EsParser3.parse (data : Bytes) : Ck (Option Es) := do
  match ← findMpegAudioHeader data with
  | none => return none
  | some header =>
    return some (.es3 {
      id := some (headerBits header 19 0x1)
      layer := some (headerBits header 17 0x3)
      bitRateIndex := some (headerBits header 12 0xF)
      samplingFrequency := some (headerBits header 10 0x3)
      mode := some (headerBits header 6 0x3)
      modeExtension := some (headerBits header 4 0x3)
      copyright := some (headerBits header 3 0x1)
      original := some (headerBits header 2 0x1)
      emphasis := some (headerBits header 0 0x3) })

def EsParser4.parse (data : Bytes) : Ck (Option Es) := do
  match ← findMpegAudioHeader data with
  | none => return none
  | some header =>
    return some (.es4 {
      id := some (headerBits header 19 0x1)
      layer := some (headerBits header 17 0x3)
      bitRateIndex := some (headerBits header 12 0xF)
      samplingFrequency := some (headerBits header 10 0x3)
      mode := some (headerBits header 6 0x3)
      modeExtension := some (headerBits header 4 0x3)
      copyright := some (headerBits header 3 0x1)
      original := some (headerBits header 2 0x1)
      emphasis := some (headerBits header 0 0x3) })

def EsParser15.parse (data : Bytes) : Ck (Option Es) := do
  match ← findMpegAudioHeader data with
  | none => return none
  | some header =>
    return some (.es15 {
      id := some (headerBits header 19 0x1)
      profile := some (headerBits header 16 0x3)
      samplingFrequency := some (headerBits header 12 0xF)
      channelConfiguration := some (headerBits header 9 0x7)
      copyright := some (headerBits header 8 0x1)
      original := some (headerBits header 7 0x1) })

/-! ## The search for a header -/

/-- Twelve ones at the front of four bytes. -/
def Header (l : Bytes) : Prop := 4 ≤ l.length ∧ byte l 0 = 0xFF ∧ 0xF0 ≤ byte l 1

/-- The first four bytes. -/
def headerWord (l : Bytes) : UInt32 := be32 (byte l 0) (byte l 1) (byte l 2) (byte l 3)

variable {data l : Bytes}

theorem headerWord_toNat (l : Bytes) : (headerWord l).toNat =
    (byte l 0).toNat * 2 ^ 24 + (byte l 1).toNat * 2 ^ 16 + (byte l 2).toNat * 2 ^ 8 + (byte l 3).toNat :=
  be32_toNat _ _ _ _

theorem shift_eq_iff (w : UInt32) : w >>> 20 = 0xFFF ↔ w.toNat / 2 ^ 20 = 0xFFF := by
  rw [← UInt32.toNat_inj, UInt32.toNat_shiftRight, Nat.shiftRight_eq_div_pow]
  rfl

/-- What the search compares. -/
theorem headerWord_iff (hl : 4 ≤ l.length) : headerWord l >>> 20 = 0xFFF ↔ Header l := by
  have h0 := (byte l 0).toNat_lt
  have h1 := (byte l 1).toNat_lt
  have h2 := (byte l 2).toNat_lt
  have h3 := (byte l 3).toNat_lt
  rw [shift_eq_iff, headerWord_toNat, Header, ← UInt8.toNat_inj, UInt8.le_iff_toNat_le, and_iff_right hl]
  change _ ↔ (byte l 0).toNat = 255 ∧ 240 ≤ (byte l 1).toNat
  omega

theorem readU32Be_eq {offset : ℕ} (h : offset + 4 ≤ data.length) :
    readU32Be data offset = some (headerWord (data.drop offset)) := by
  rw [readU32Be, if_pos h, headerWord, byte_drop, byte_drop, byte_drop, byte_drop]
  rfl

theorem Header.ne_nil {b : UInt8} (h : Header (b :: l)) : b = 0xFF := h.2.1

/-- The two bytes that the search goes on by: neither begins a header. -/
theorem skips_two (hl : 4 ≤ l.length) (hff : byte l 0 = 0xFF) (hnot : ¬ Header l) : Skips Header l 2 := by
  have hsecond : byte l 1 ≠ 0xFF := fun h => hnot ⟨hl, hff, by rw [h]; decide⟩
  refine ⟨by omega, fun q hq more h => ?_⟩
  have hbyte (i : ℕ) (hi : i < l.length) : byte (l ++ more) i = byte l i := byte_append_left hi more
  have hfirst := h.2.1
  have hnext := h.2.2
  rw [byte_drop, hbyte _ (by omega)] at hfirst hnext
  obtain rfl | rfl : q = 0 ∨ q = 1 := by omega
  · exact hnot ⟨hl, hff, hnext⟩
  · exact hsecond hfirst

theorem begins_header_short (h : l.length < 4) : Begins Header l = ∅ := by
  refine Set.eq_empty_of_forall_notMem fun p (hp : Header _) => ?_
  have := hp.1
  rw [List.length_drop] at this
  omega

/-- The next byte of ones, if there is one. -/
theorem findByte_eq {e : ℕ} (he : e ≤ data.length) : findByte data 0xFF e =
    if (data.drop e).findIdx (· = 0xFF) < (data.drop e).length then some ((data.drop e).findIdx (· = 0xFF) + e)
    else none := by
  rw [findByte, if_pos he]
  split_ifs with hlt
  · rw [List.findIdx?_eq_some_iff_findIdx_eq.2 ⟨hlt, rfl⟩, Option.map_some]
  · rw [List.findIdx?_eq_none_iff_findIdx_eq.2 (List.findIdx_le_length.antisymm (Nat.not_lt.1 hlt)), Option.map_none]

/-- **The search goes past what cannot begin a header**, and stops at one or where none is left. -/
theorem findHeaderLoop_skips {fuel e : ℕ} (he : e ≤ data.length) (hfuel : data.length < fuel + e) :
    ∃ d, Skips Header (data.drop e) d ∧
      ((findHeaderLoop data fuel e = .ok (some (headerWord (data.drop (e + d)))) ∧ d ∈ Begins Header (data.drop e)) ∨
        (findHeaderLoop data fuel e = .ok none ∧ Begins Header (data.drop (e + d)) = ∅)) := by
  induction fuel generalizing e with
  | zero => omega
  | succ fuel ih =>
    have hskip : Skips Header (data.drop e) ((data.drop e).findIdx (· = 0xFF)) :=
      skips_findIdx fun b l h => decide_eq_true h.ne_nil
    have hle := hskip.le
    have hff : (data.drop e).findIdx (· = 0xFF) < (data.drop e).length →
        byte data ((data.drop e).findIdx (· = 0xFF) + e) = 0xFF := fun h => by
      rw [Nat.add_comm, ← byte_drop, byte, List.getD_eq_getElem?_getD, List.getElem?_eq_getElem h, Option.getD_some]
      exact of_decide_eq_true (List.findIdx_getElem (w := h))
    rw [findHeaderLoop, findByte_eq he]
    generalize (data.drop e).findIdx (· = 0xFF) = k at hskip hle hff ⊢
    rw [List.length_drop] at hle hff ⊢
    have hnone (d : ℕ) (hd : data.length < d + 4) : Begins Header (data.drop d) = ∅ :=
      begins_header_short (by rw [List.length_drop]; omega)
    by_cases hlt : k < data.length - e
    · rw [if_pos (by omega), if_pos hlt]
      dsimp only
      by_cases hshort : k + e + 4 > data.length
      · rw [if_pos hshort]
        exact ⟨k, hskip, .inr ⟨rfl, hnone _ (by omega)⟩⟩
      · rw [if_neg hshort, readU32Be_eq (by omega)]
        dsimp only
        have hlong : 4 ≤ (data.drop (k + e)).length := by
          rw [List.length_drop]
          omega
        have hdrop : (data.drop e).drop k = data.drop (k + e) := by rw [List.drop_drop, Nat.add_comm]
        by_cases hheader : Header (data.drop (k + e))
        · rw [if_pos ((headerWord_iff hlong).2 hheader), Nat.add_comm k e]
          exact ⟨k, hskip, .inl ⟨rfl, show Header _ by rwa [hdrop]⟩⟩
        · rw [if_neg (mt (headerWord_iff hlong).1 hheader)]
          have htwo := skips_two hlong (by rw [byte_drop]; exact hff hlt) hheader
          obtain ⟨d, hskip', hend⟩ := ih (e := k + e + 2) (by omega) (by omega)
          have hskip'' : Skips Header (data.drop e) (k + 2) := hskip.trans (by rwa [hdrop])
          have hdrop' : (data.drop e).drop (k + 2) = data.drop (k + e + 2) := by
            rw [List.drop_drop, ← Nat.add_assoc, Nat.add_comm e k]
          refine ⟨k + 2 + d, hskip''.trans (by rwa [hdrop']), ?_⟩
          rw [show e + (k + 2 + d) = k + e + 2 + d by omega]
          exact hend.imp_left fun h => ⟨h.1, hskip''.begins_iff.2 ⟨d, by rw [hdrop']; exact h.2, rfl⟩⟩
    · refine ⟨k, hskip, .inr ⟨?_, hnone _ (by omega)⟩⟩
      rw [if_neg hlt]
      split_ifs
      · rfl
      · rfl

theorem findMpegAudioHeader_skips (data : Bytes) : ∃ d, Skips Header data d ∧
    ((findMpegAudioHeader data = .ok (some (headerWord (data.drop d))) ∧ d ∈ Begins Header data) ∨
      (findMpegAudioHeader data = .ok none ∧ Begins Header (data.drop d) = ∅)) := by
  have h := @findHeaderLoop_skips data (data.length + 1) 0 (Nat.zero_le _) (Nat.lt_succ_self _)
  simp only [Nat.zero_add] at h
  exact h

/-- **The first header is found.** -/
theorem findMpegAudioHeader_of_isLeast {p : ℕ} (h : IsLeast (Begins Header data) p) :
    findMpegAudioHeader data = .ok (some (headerWord (data.drop p))) := by
  obtain ⟨d, hskip, ⟨he, hd⟩ | ⟨-, hnone⟩⟩ := findMpegAudioHeader_skips data
  · rw [he, (hskip.isLeast hd).unique h]
  · exact absurd h.1 (hskip.not_begins_of_drop hnone ▸ Set.notMem_empty p)

/-- The bits of the four bytes at a position. -/
def bitsAt (data : Bytes) (p : ℕ) : List Bool := ofBytes ((data.drop p).take 4)

/-- Four bytes that begin with twelve ones. -/
def OnesAt (data : Bytes) (p : ℕ) : Prop := p + 4 ≤ data.length ∧ (bitsAt data p).take 12 = List.replicate 12 true

theorem value_bitsAt {p : ℕ} (h : p + 4 ≤ data.length) : value (bitsAt data p) = (headerWord (data.drop p)).toNat := by
  obtain ⟨a, b, c, d, more, hl⟩ : ∃ a b c d more, data.drop p = a :: b :: c :: d :: more := by
    have hlen : 4 ≤ (data.drop p).length := by
      rw [List.length_drop]
      omega
    match data.drop p, hlen with
    | a :: b :: c :: d :: more, _ => exact ⟨a, b, c, d, more, rfl⟩
  rw [bitsAt, headerWord_toNat, hl]
  change value (ofBytes [a, b, c, d]) = a.toNat * 2 ^ 24 + b.toNat * 2 ^ 16 + c.toNat * 2 ^ 8 + d.toNat
  rw [value_ofBytes_cons, value_ofBytes_cons, value_ofBytes_cons, value_ofBytes_cons]
  simp only [List.length_cons, List.length_nil, ofBytes, List.flatMap_nil, value]
  ring

/-- The search looks for twelve ones. -/
theorem onesAt_iff (data : Bytes) (p : ℕ) : OnesAt data p ↔ p ∈ Begins Header data := by
  change _ ↔ Header (data.drop p)
  by_cases h : p + 4 ≤ data.length
  · have hlen : (bitsAt data p).length = 32 := by
      rw [bitsAt, length_ofBytes, List.length_take, List.length_drop]
      omega
    have hlong : 4 ≤ (data.drop p).length := by
      rw [List.length_drop]
      omega
    have hlt := (headerWord (data.drop p)).toNat_lt
    have hones : List.replicate 12 true = word 12 0xFFF := by decide
    rw [← headerWord_iff hlong, shift_eq_iff, OnesAt, and_iff_right h, take_eq_word (by omega), value_bitsAt h, hlen, hones]
    constructor
    · intro he
      have hvalue := congrArg value he
      rwa [value_word (by omega), value_word (by norm_num)] at hvalue
    · exact congrArg (word 12)
  · refine iff_of_false (fun hp => h hp.1) fun hp => h ?_
    have hlong := hp.1
    rw [List.length_drop] at hlong
    omega

/-- **The search ends, with the first four bytes that begin with twelve ones, or with none if there are none.** -/
theorem findMpegAudioHeader_eq (data : Bytes) :
    (∃ found, findMpegAudioHeader data = .ok found) ∧
      (∀ w, findMpegAudioHeader data = .ok (some w) ↔ ∃ p, IsLeast {p | OnesAt data p} p ∧ w.toNat = value (bitsAt data p)) ∧
      (findMpegAudioHeader data = .ok none ↔ ∀ p, ¬ OnesAt data p) := by
  have hword {w : UInt32} {p : ℕ} (hp : p ∈ Begins Header data) :
      w.toNat = value (bitsAt data p) ↔ w = headerWord (data.drop p) := by
    rw [value_bitsAt ((onesAt_iff data p).2 hp).1, UInt32.toNat_inj]
  simp only [onesAt_iff, ← Set.eq_empty_iff_forall_notMem]
  obtain ⟨d, hskip, ⟨he, hd⟩ | ⟨he, hnone⟩⟩ := findMpegAudioHeader_skips data
  · have hleast := hskip.isLeast hd
    refine ⟨⟨_, he⟩, fun w => ?_, ?_⟩
    · rw [he]
      constructor
      · intro heq
        cases heq
        exact ⟨d, hleast, (hword hd).2 rfl⟩
      · rintro ⟨p, hp, hw⟩
        cases hp.unique hleast
        rw [(hword hd).1 hw]
    · rw [he]
      exact iff_of_false nofun fun h => Set.notMem_empty d (h ▸ hd)
  · have hempty := hskip.not_begins_of_drop hnone
    refine ⟨⟨_, he⟩, fun w => ?_, iff_of_true he hempty⟩
    rw [he]
    exact iff_of_false nofun fun ⟨p, hp, _⟩ => Set.notMem_empty p (hempty ▸ hp.1)

/-! ## ADTS -/

/-- The fields of the header of an ADTS frame. `remaining` is its variable part. -/
structure Adts where
  id : Fin 2
  protectionAbsent : Fin 2
  profile : Fin 4
  samplingFrequencyIndex : Fin 16
  privateBit : Fin 2
  channelConfiguration : Fin 8
  originalCopy : Fin 2
  home : Fin 2
  remaining : Fin (2 ^ 28)

namespace Adts

variable (h : Adts)

/-- The bits of a header: the syncword, `id`, a layer of zero, and so on. -/
def encode : List Bool :=
  word 12 0xFFF ++ word 1 h.id ++ word 2 0 ++ word 1 h.protectionAbsent ++ word 2 h.profile ++
    word 4 h.samplingFrequencyIndex ++ word 1 h.privateBit ++ word 3 h.channelConfiguration ++
    word 1 h.originalCopy ++ word 1 h.home ++ word 28 h.remaining

/-- The fixed part as a number. -/
def fixed : ℕ :=
  0xFFF * 2 ^ 16 + h.id * 2 ^ 15 + h.protectionAbsent * 2 ^ 12 + h.profile * 2 ^ 10 +
    h.samplingFrequencyIndex * 2 ^ 6 + h.privateBit * 2 ^ 5 + h.channelConfiguration * 2 ^ 2 + h.originalCopy * 2 + h.home

theorem isLt : h.id.val < 2 ∧ h.protectionAbsent.val < 2 ∧ h.profile.val < 4 ∧ h.samplingFrequencyIndex.val < 16 ∧
    h.privateBit.val < 2 ∧ h.channelConfiguration.val < 8 ∧ h.originalCopy.val < 2 ∧ h.home.val < 2 ∧
    h.remaining.val < 2 ^ 28 :=
  ⟨h.id.isLt, h.protectionAbsent.isLt, h.profile.isLt, h.samplingFrequencyIndex.isLt, h.privateBit.isLt,
    h.channelConfiguration.isLt, h.originalCopy.isLt, h.home.isLt, h.remaining.isLt⟩

theorem encode_eq : h.encode = word 56 (h.fixed * 2 ^ 28 + h.remaining) := by
  obtain ⟨h0, h1, h2, h3, h4, h5, h6, h7, h8⟩ := h.isLt
  rw [encode, word_append _ _ _ _ (by omega), word_append _ _ _ _ (by omega), word_append _ _ _ _ (by omega),
    word_append _ _ _ _ (by omega), word_append _ _ _ _ (by omega), word_append _ _ _ _ (by omega),
    word_append _ _ _ _ (by omega), word_append _ _ _ _ (by omega), word_append _ _ _ _ (by omega),
    word_append _ _ _ _ (by omega)]
  refine congrArg (word 56) ?_
  rw [fixed]
  ring

theorem number_lt : h.fixed * 2 ^ 28 + h.remaining < 2 ^ 56 := by
  obtain ⟨h0, h1, h2, h3, h4, h5, h6, h7, h8⟩ := h.isLt
  rw [fixed]
  omega

end Adts

theorem headerBits_eq (w : UInt32) {shift mask : UInt32} {k n : ℕ} (hshift : shift.toNat = k) (hk : k < 32)
    (hmask : mask.toNat = 2 ^ n - 1) (hn : n ≤ 8) : headerBits w shift mask = w.toNat / 2 ^ k % 2 ^ n := by
  have hpow : 2 ^ n ≤ 2 ^ 8 := Nat.pow_le_pow_right (by norm_num) hn
  have hlt := Nat.mod_lt (w.toNat / 2 ^ k) (Nat.two_pow_pos n)
  rw [headerBits, UInt32.toNat_toUInt8, UInt32.toNat_and, UInt32.toNat_shiftRight, hshift, hmask, Nat.mod_eq_of_lt hk,
    Nat.and_two_pow_sub_one_eq_mod, Nat.shiftRight_eq_div_pow, Nat.mod_eq_of_lt (hlt.trans_le hpow)]

/-- The fields of the header are found, in what follows the first bytes. -/
def Adts.Reported (h : Adts) (data : Bytes) : Prop :=
  ∃ es, EsParser15.parse data = .ok (some (.es15 es)) ∧ es.id = some h.id.val ∧ es.profile = some h.profile.val ∧
    es.samplingFrequency = some h.samplingFrequencyIndex.val ∧ es.channelConfiguration = some h.channelConfiguration.val

/-- The fields that the source takes from the second and the third byte of what it finds. -/
theorem reported_iff (h : Adts) (hfound : findMpegAudioHeader data = .ok (some (headerWord l))) : h.Reported data ↔
    (byte l 1).toNat / 8 % 2 = h.id.val ∧ (byte l 1).toNat % 4 = h.profile.val ∧
      (byte l 2).toNat / 16 = h.samplingFrequencyIndex.val ∧ (byte l 2).toNat / 2 % 8 = h.channelConfiguration.val := by
  have h1 := (byte l 1).toNat_lt
  have h2 := (byte l 2).toNat_lt
  have h3 := (byte l 3).toNat_lt
  have hword := headerWord_toNat l
  have hid : headerBits (headerWord l) 19 0x1 = (byte l 1).toNat / 8 % 2 := by
    rw [headerBits_eq (headerWord l) (k := 19) (n := 1) rfl (by norm_num) rfl (by norm_num), hword]
    omega
  have hprofile : headerBits (headerWord l) 16 0x3 = (byte l 1).toNat % 4 := by
    rw [headerBits_eq (headerWord l) (k := 16) (n := 2) rfl (by norm_num) rfl (by norm_num), hword]
    omega
  have hfrequency : headerBits (headerWord l) 12 0xF = (byte l 2).toNat / 16 := by
    rw [headerBits_eq (headerWord l) (k := 12) (n := 4) rfl (by norm_num) rfl (by norm_num), hword]
    omega
  have hchannels : headerBits (headerWord l) 9 0x7 = (byte l 2).toNat / 2 % 8 := by
    rw [headerBits_eq (headerWord l) (k := 9) (n := 3) rfl (by norm_num) rfl (by norm_num), hword]
    omega
  rw [← hid, ← hprofile, ← hfrequency, ← hchannels, Adts.Reported, EsParser15.parse, hfound, ck_bind]
  constructor
  · rintro ⟨es, he, h1, h2, h3, h4⟩
    cases he
    exact ⟨Option.some.inj h1, Option.some.inj h2, Option.some.inj h3, Option.some.inj h4⟩
  · rintro ⟨h1, h2, h3, h4⟩
    exact ⟨_, rfl, congrArg some h1, congrArg some h2, congrArg some h3, congrArg some h4⟩

/-! ## A header behind other bytes -/

/-- No sync pattern: no byte of ones with four ones behind it. -/
def NoSync (l : Bytes) : Prop := ∀ p, p + 1 < l.length → ¬ (byte l p = 0xFF ∧ 0xF0 ≤ byte l (p + 1))

theorem exists_seven : ∀ {l : Bytes}, l.length = 7 → ∃ b0 b1 b2 b3 b4 b5 b6, l = [b0, b1, b2, b3, b4, b5, b6]
  | [b0, b1, b2, b3, b4, b5, b6], _ => ⟨b0, b1, b2, b3, b4, b5, b6, rfl⟩

/-- The bytes of a header, the first four by their fields. -/
theorem header_bytes (h : Adts) {header : Bytes} (hheader : ofBytes header = h.encode) :
    ∃ b0 b1 b2 b3 b4 b5 b6, header = [b0, b1, b2, b3, b4, b5, b6] ∧ b0.toNat = 255 ∧
      b1.toNat = 240 + 8 * h.id.val + h.protectionAbsent.val ∧
      b2.toNat = 64 * h.profile.val + 4 * h.samplingFrequencyIndex.val + 2 * h.privateBit.val +
        h.channelConfiguration.val / 4 := by
  have hlength := congrArg List.length hheader
  have hvalue := congrArg value hheader
  rw [h.encode_eq, length_ofBytes, length_word] at hlength
  rw [h.encode_eq, value_word h.number_lt] at hvalue
  obtain ⟨b0, b1, b2, b3, b4, b5, b6, rfl⟩ := exists_seven (show header.length = 7 by omega)
  have hnil : value (ofBytes []) = 0 := rfl
  simp only [value_ofBytes_cons, List.length_cons, List.length_nil, hnil, Nat.reduceAdd, Nat.reduceMul] at hvalue
  have l1 := b1.toNat_lt
  have l2 := b2.toNat_lt
  have l3 := b3.toNat_lt
  have l4 := b4.toNat_lt
  have l5 := b5.toNat_lt
  have l6 := b6.toNat_lt
  obtain ⟨h0, h1, h2, h3, h4, h5, h6, h7, h8⟩ := h.isLt
  rw [Adts.fixed] at hvalue
  norm_num at hvalue
  exact ⟨b0, b1, b2, b3, b4, b5, b6, rfl, by omega, by omega, by omega⟩

/-- The fields are where the source looks for them, for these headers only. -/
def Adts.Aligned (h : Adts) : Prop :=
  h.profile.val = 0 ∧ h.protectionAbsent.val = 0 ∧ h.samplingFrequencyIndex.val = 0 ∧
      h.channelConfiguration.val = h.privateBit.val ∨
    h.profile.val = 1 ∧ h.protectionAbsent.val = 1 ∧ h.samplingFrequencyIndex.val = 5 ∧
      h.channelConfiguration.val = 2 + h.privateBit.val

theorem aligned_iff {profile protection frequency bit channels : ℕ} (h : protection < 2) :
    protection = profile ∧ 4 * profile + frequency / 4 = frequency ∧ 2 * (frequency % 4) + bit = channels ↔
      profile = 0 ∧ protection = 0 ∧ frequency = 0 ∧ channels = bit ∨
        profile = 1 ∧ protection = 1 ∧ frequency = 5 ∧ channels = 2 + bit := by
  obtain rfl | rfl : protection = 0 ∨ protection = 1 := by omega
  · omega
  · omega

/-- What is found behind a byte of ones. -/
def Adts.Ones (h : Adts) : Prop :=
  h.id.val = 1 ∧ h.profile.val = 3 ∧ h.samplingFrequencyIndex.val = 15 ∧ h.channelConfiguration.val = 4

/-- No header begins before the last byte of such bytes. -/
theorem not_header_of_noSync {before : Bytes} (h : NoSync before) {q : ℕ} (hq : q + 1 < before.length) (l : Bytes) :
    q ∉ Begins Header (before ++ l) := by
  intro (hheader : Header _)
  have hfirst := hheader.2.1
  have hnext := hheader.2.2
  rw [byte_drop, byte_append_left (by omega)] at hfirst hnext
  exact h q hq ⟨hfirst, hnext⟩

/-- The header is found behind the bytes. -/
theorem isLeast_behind {before : Bytes} (h : NoSync before) (hlast : before.getLast? ≠ some 0xFF) (hl : Header l) :
    IsLeast (Begins Header (before ++ l)) before.length := by
  refine ⟨show Header _ by rwa [List.drop_left], fun q hq => Nat.not_lt.1 fun hlt => ?_⟩
  by_cases hnext : q + 1 < before.length
  · exact not_header_of_noSync h hnext l hq
  · refine hlast ?_
    have hfirst := (show Header _ from hq).2.1
    rw [byte_drop, byte_append_left (by omega)] at hfirst
    rw [List.getLast?_eq_getElem?, show before.length - 1 = q by omega, List.getElem?_eq_getElem hlt]
    rw [Nat.add_zero, byte, List.getD_eq_getElem?_getD, List.getElem?_eq_getElem hlt, Option.getD_some] at hfirst
    exact congrArg some hfirst

/-- A header is found one byte early. -/
theorem isLeast_early {front : Bytes} (h : NoSync (front ++ [0xFF])) (hlength : 3 ≤ l.length) (hl : 0xF0 ≤ byte l 0) :
    IsLeast (Begins Header (front ++ 0xFF :: l)) front.length := by
  refine ⟨?_, fun q hq => Nat.not_lt.1 fun hlt => ?_⟩
  · change Header _
    rw [List.drop_left]
    exact ⟨by rw [List.length_cons]; omega, rfl, hl⟩
  · have := not_header_of_noSync h (q := q) (by rw [List.length_append, List.length_singleton]; omega) l
    rw [List.append_assoc] at this
    exact this hq

/-- **The fields of an ADTS header are found** if and only if it is aligned with what the source reads; behind a byte of
ones, if and only if it has the fields that are read there. -/
theorem adts_parsed (h : Adts) {before header : Bytes} (rest : Bytes) (hbefore : NoSync before)
    (hheader : ofBytes header = h.encode) : h.Reported (before ++ header ++ rest) ↔
      if before.getLast? = some 0xFF then h.Ones else h.Aligned := by
  obtain ⟨b0, b1, b2, b3, b4, b5, b6, rfl, hb0, hb1, hb2⟩ := header_bytes h hheader
  obtain ⟨hid, hprotection, hprofile, hfrequency, hprivate, hchannels, -⟩ := h.isLt
  rw [List.append_assoc]
  split_ifs with hlast
  · obtain ⟨front, rfl⟩ := List.getLast?_eq_some_iff.1 hlast
    rw [List.append_assoc]
    have hsecond : 0xF0 ≤ b0 := by
      rw [UInt8.le_iff_toNat_le, hb0]
      decide
    have hleast := isLeast_early (l := [b0, b1, b2, b3, b4, b5, b6] ++ rest) hbefore
      (by rw [List.length_append]; simp only [List.length_cons]; omega) hsecond
    have hfound := findMpegAudioHeader_of_isLeast hleast
    rw [List.drop_left] at hfound
    refine (reported_iff h hfound).trans ?_
    change b0.toNat / 8 % 2 = _ ∧ b0.toNat % 4 = _ ∧ b1.toNat / 16 = _ ∧ b1.toNat / 2 % 8 = _ ↔ _
    rw [hb0, hb1, Adts.Ones]
    omega
  · have hsecond : 0xF0 ≤ b1 := by
      rw [UInt8.le_iff_toNat_le, hb1]
      change 240 ≤ _
      omega
    have hheader : Header ([b0, b1, b2, b3, b4, b5, b6] ++ rest) :=
      ⟨by rw [List.length_append]; simp only [List.length_cons]; omega, UInt8.toNat_inj.1 hb0, hsecond⟩
    have hfound := findMpegAudioHeader_of_isLeast (isLeast_behind hbefore hlast hheader)
    rw [List.drop_left] at hfound
    refine (reported_iff h hfound).trans ?_
    change b1.toNat / 8 % 2 = _ ∧ b1.toNat % 4 = _ ∧ b2.toNat / 16 = _ ∧ b2.toNat / 2 % 8 = _ ↔ _
    have h1 : b1.toNat / 8 % 2 = h.id.val := by omega
    have h2 : b1.toNat % 4 = h.protectionAbsent.val := by omega
    have h3 : b2.toNat / 16 = 4 * h.profile.val + h.samplingFrequencyIndex.val / 4 := by omega
    have h4 : b2.toNat / 2 % 8 = 2 * (h.samplingFrequencyIndex.val % 4) + h.privateBit.val := by omega
    rw [h1, h2, h3, h4, and_iff_right rfl]
    exact aligned_iff hprotection

/-- AAC-LC at 44.1 kHz in stereo. -/
def Adts.stereo : Adts where
  id := 0
  protectionAbsent := 1
  profile := 1
  samplingFrequencyIndex := 4
  privateBit := 0
  channelConfiguration := 2
  originalCopy := 0
  home := 0
  remaining := 0

theorem noSync_zero : NoSync [0x00] := fun _ hp => absurd hp (by simp)

theorem adts_parsed_stereo :
    Adts.stereo.Reported ([0x00] ++ [0xFF, 0xF1, 0x50, 0x80, 0x00, 0x00, 0x00] ++ [0x21]) ↔
      if ([0x00] : Bytes).getLast? = some 0xFF then Adts.stereo.Ones else Adts.stereo.Aligned :=
  adts_parsed Adts.stereo [0x21] noSync_zero (by decide)

/-- The profile and the sampling frequency of such a stream are read from the bits in front of them. -/
theorem adts_misparsed : ¬ ∀ (h : Adts) (before header rest : Bytes), NoSync before → ofBytes header = h.encode →
    h.Reported (before ++ header ++ rest) := by
  intro hall
  obtain ⟨es, he, -, -, hfrequency, -⟩ :=
    hall .stereo [0x00] [0xFF, 0xF1, 0x50, 0x80, 0x00, 0x00, 0x00] [0x21] noSync_zero (by decide)
  have hparse : EsParser15.parse ([0x00] ++ [0xFF, 0xF1, 0x50, 0x80, 0x00, 0x00, 0x00] ++ [0x21]) =
      .ok (some (.es15 ⟨some 0, some 1, some 5, some 0, some 0, some 1⟩)) := by decide
  rw [hparse] at he
  cases he
  exact absurd hfrequency (by decide)

end MyMuxer
