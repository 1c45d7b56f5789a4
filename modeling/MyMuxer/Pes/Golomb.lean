import MyMuxer.Build
import MyMuxer.Lib.Bits
import MyMuxer.Lib.Grammar

/-!
# The bit reader (`pes/golomb.rs`)

* `BitReader`: the data, the position of the next byte and a cache of up to 64 bits.
* `readBits`, `readBit`, `readUe`, `readSe`: as in the source, in a debug and in a release build.
* `BitReader.bits`: what is left to read; `BitReader.Sound`: what holds of the cache.
* `leadingZeros_endless`: behind the data a release build counts zeros for ever.
* **`word_reads`**, **`flag_reads`**, **`ue_reads`**, **`se_reads`**: what is read where it is there; a debug build
  reads nothing else.
-/

namespace MyMuxer

open Bits Grammar

structure BitReader where
  data : Bytes
  pos : ℕ
  cache : ℕ
  cacheBits : ℕ

namespace BitReader

def new (data : Bytes) : BitReader where
  data
  pos := 0
  cache := 0
  cacheBits := 0

/-- The loop of `refill`: from an empty cache it takes eight bytes. -/
def refillLoop : ℕ → BitReader → BitReader
  | 0, br => br
  | fuel + 1, br =>
    if br.cacheBits ≤ 56 then
      match br.data[br.pos >>> 3]? with
      | some b =>
        refillLoop fuel { br with
          cache := br.cache <<< 8 % 2 ^ 64 ||| b.toNat, cacheBits := br.cacheBits + 8, pos := br.pos + 8 }
      | none => br
    else br

def refill (br : BitReader) : BitReader := refillLoop 8 br

end BitReader

abbrev Read (α : Type) : Type := StateT BitReader (Except Fault) α

theorem read_bind {α β : Type} (m : Read α) (f : α → Read β) (br : BitReader) :
    (m >>= f) br = m br >>= fun x => f x.1 x.2 := (rfl)

theorem read_lift {α : Type} (x : Ck α) (br : BitReader) :
    (liftM x : Read α) br = x >>= fun a => .ok (a, br) := (rfl)

theorem read_lift_ok {α β : Type} (a : α) (f : α → Read β) : (liftM (Except.ok a : Ck α) : Read α) >>= f = f a := rfl

def readBits (build : Build) (n : ℕ) : Read ℕ := fun br => do
  let br := if br.cacheBits < n then br.refill else br
  let shift ← unsigned build 8 (br.cacheBits - n)
  let val := (br.cache >>> (← shiftBy build 64 shift)) &&& (1 <<< (← shiftBy build 64 n) - 1)
  let cacheBits ← unsigned build 8 (br.cacheBits - n)
  let cache := br.cache &&& (1 <<< (← shiftBy build 64 cacheBits) - 1)
  return (val % 2 ^ 32, { br with cache, cacheBits })

def readBit (build : Build) : Read ℕ := do return (← readBits build 1) % 2 ^ 8

/-- The loop of `read_ue`, whose count is an `i32`. It reads a bit each time, and behind the data a release build
reads zeros for ever. -/
def leadingZeros (build : Build) : ℕ → ℤ → Read ℤ
  | 0, _ => throw .endless
  | fuel + 1, leadingZeroBits => do
    if (← readBit build) = 0 then leadingZeros build fuel (← i32 build (leadingZeroBits + 1))
    else return leadingZeroBits

/-- The value of a code behind its zeros and its first one. -/
def ueValue (build : Build) (leadingZeroBits : ℤ) : Read ℕ := do
  if leadingZeroBits = 0 then return 0
  else
    let suffix ← readBits build (leadingZeroBits % 2 ^ 8).toNat
    let one ← shiftBy build 32 (leadingZeroBits % 2 ^ 32).toNat
    let base ← unsigned build 32 ((2 ^ one : ℕ) - (1 : ℕ))
    unsigned build 32 (base + suffix : ℕ)

def readZeros (build : Build) : Read ℤ := do leadingZeros build (8 * (← get).data.length + 65) 0

def readUe (build : Build) : Read ℕ := do ueValue build (← readZeros build)

/-- `v as i32` of a `u32`. -/
def asI32 (v : ℕ) : ℤ := if v < 2 ^ 31 then v else v - 2 ^ 32

/-- What `read_se` makes of its `code_num`. -/
def ofCodeNum (build : Build) (codeNum : ℤ) : Ck ℤ := do
  if codeNum % 2 = 0 then i32 build (-codeNum.tdiv 2)
  else return (← i32 build (codeNum + 1)).tdiv 2

def readSe (build : Build) : Read ℤ := do ofCodeNum build (asI32 (← readUe build))

/-! ## What is left to read -/

namespace BitReader

variable {br : BitReader}

/-- The bits in the cache and behind them. -/
def bits (br : BitReader) : List Bool := word br.cacheBits br.cache ++ ofBytes (br.data.drop (br.pos / 8))

/-- The cache holds no more than its bits. -/
structure Sound (br : BitReader) : Prop where
  cacheBits_le : br.cacheBits ≤ 64
  cache_lt : br.cache < 2 ^ br.cacheBits
  pos_dvd : 8 ∣ br.pos

def view : View BitReader Bool := ⟨Sound, bits⟩

theorem sound_new (data : Bytes) : (new data).Sound := ⟨Nat.zero_le _, Nat.one_pos, Nat.dvd_zero 8⟩

theorem bits_new (data : Bytes) : (new data).bits = ofBytes data := by simp [bits, new, word]

/-- A byte goes into the cache. -/
theorem take_byte {b : UInt8} (hs : br.Sound) (hle : br.cacheBits ≤ 56) (hb : br.data[br.pos >>> 3]? = some b) :
    let br' := { br with cache := br.cache <<< 8 % 2 ^ 64 ||| b.toNat, cacheBits := br.cacheBits + 8, pos := br.pos + 8 }
    br'.Sound ∧ br'.bits = br.bits := by
  have hlt := b.toNat_lt
  have hcache := hs.cache_lt
  have hpow : 2 ^ br.cacheBits ≤ 2 ^ 56 := Nat.pow_le_pow_right (by norm_num) hle
  have hvalue : br.cache <<< 8 % 2 ^ 64 ||| b.toNat = br.cache * 2 ^ 8 + b.toNat := by
    rw [Nat.shiftLeft_eq, Nat.mod_eq_of_lt (by omega), ← Nat.shiftLeft_eq, ← Nat.shiftLeft_add_eq_or_of_lt hlt,
      Nat.shiftLeft_eq]
  have hpos : (br.pos + 8) / 8 = br.pos / 8 + 1 := by omega
  rw [Nat.shiftRight_eq_div_pow] at hb
  obtain ⟨hlen, hget⟩ := List.getElem?_eq_some_iff.1 hb
  refine ⟨⟨?_, ?_, ?_⟩, ?_⟩
  · dsimp only
    omega
  · dsimp only
    rw [hvalue, Nat.pow_add]
    omega
  · exact Nat.dvd_add hs.pos_dvd (Nat.dvd_refl 8)
  · dsimp only [bits]
    rw [hvalue, hpos, ← word_append _ _ _ _ hlt, List.append_assoc]
    rw [show br.pos / 8 = br.pos / 2 ^ 3 from rfl, List.drop_eq_getElem_cons hlen, hget]
    rfl

theorem refillLoop_spec (fuel : ℕ) (hs : br.Sound) (hfuel : 64 ≤ br.cacheBits + 8 * fuel) :
    (refillLoop fuel br).Sound ∧ (refillLoop fuel br).bits = br.bits ∧
      (56 < (refillLoop fuel br).cacheBits ∨
        (refillLoop fuel br).bits.length = (refillLoop fuel br).cacheBits) := by
  induction fuel generalizing br with
  | zero => exact ⟨hs, rfl, .inl (by rw [refillLoop]; omega)⟩
  | succ fuel ih =>
    rw [refillLoop]
    split
    case isTrue hle =>
      split
      case h_1 b hb =>
        obtain ⟨hs', hbits⟩ := take_byte hs hle hb
        rw [← hbits]
        exact ih hs' (by dsimp only; omega)
      case h_2 hnone =>
        refine ⟨hs, rfl, .inr ?_⟩
        rw [List.getElem?_eq_none_iff, Nat.shiftRight_eq_div_pow] at hnone
        rw [bits, List.drop_of_length_le hnone, List.length_append, length_word]
        rfl
    case isFalse hlt => exact ⟨hs, rfl, .inl (Nat.lt_of_not_le hlt)⟩

theorem refill_spec (hs : br.Sound) : br.refill.Sound ∧ br.refill.bits = br.bits ∧
    (56 < br.refill.cacheBits ∨ br.refill.bits.length = br.refill.cacheBits) :=
  refillLoop_spec 8 hs (by omega)

/-- The high bits of the cache, and what is left of it. -/
theorem bits_split {n : ℕ} (hs : br.Sound) (hn : n ≤ br.cacheBits) :
    br.cache / 2 ^ (br.cacheBits - n) < 2 ^ n ∧
    br.bits = word n (br.cache / 2 ^ (br.cacheBits - n)) ++
      { br with cache := br.cache % 2 ^ (br.cacheBits - n), cacheBits := br.cacheBits - n }.bits ∧
    { br with cache := br.cache % 2 ^ (br.cacheBits - n), cacheBits := br.cacheBits - n }.Sound := by
  have hpow : 2 ^ br.cacheBits = 2 ^ (br.cacheBits - n) * 2 ^ n := by rw [← Nat.pow_add, Nat.sub_add_cancel hn]
  have hlt : br.cache / 2 ^ (br.cacheBits - n) < 2 ^ n := Nat.div_lt_of_lt_mul (hpow ▸ hs.cache_lt)
  have hmod : br.cache % 2 ^ (br.cacheBits - n) < 2 ^ (br.cacheBits - n) := Nat.mod_lt _ (Nat.two_pow_pos _)
  refine ⟨hlt, ?_, (Nat.sub_le _ _).trans hs.cacheBits_le, hmod, hs.pos_dvd⟩
  dsimp only [bits]
  rw [← List.append_assoc, word_append _ _ _ _ hmod, Nat.add_sub_cancel' hn, Nat.div_add_mod']

/-- The reader that `read_bits` takes `n` bits from. -/
def filled (br : BitReader) (n : ℕ) : BitReader := if br.cacheBits < n then br.refill else br

theorem filled_spec {n : ℕ} (hn : n ≤ 56) (hs : br.Sound) : (br.filled n).Sound ∧ (br.filled n).bits = br.bits ∧
    (n ≤ br.bits.length → n ≤ (br.filled n).cacheBits) := by
  rw [filled]
  split_ifs with h
  · obtain ⟨hs', hbits, hfull⟩ := refill_spec hs
    refine ⟨hs', hbits, fun hle => ?_⟩
    rw [← hbits] at hle
    omega
  · exact ⟨hs, rfl, fun _ => Nat.not_lt.1 h⟩

/-- `n` bits out of the cache. -/
theorem readBits_eq {build : Build} {n : ℕ} (hpos : 0 < n) (hn : n ≤ 32) (hs : (br.filled n).Sound)
    (hle : n ≤ (br.filled n).cacheBits) : readBits build n br =
      .ok ((br.filled n).cache / 2 ^ ((br.filled n).cacheBits - n), { br.filled n with
        cache := (br.filled n).cache % 2 ^ ((br.filled n).cacheBits - n)
        cacheBits := (br.filled n).cacheBits - n }) := by
  have hcache := hs.cacheBits_le
  have hlt := (bits_split hs hle).1
  have hval : (br.filled n).cache >>> ((br.filled n).cacheBits - n) &&& (1 <<< n - 1) =
      (br.filled n).cache / 2 ^ ((br.filled n).cacheBits - n) := by
    rw [Nat.one_shiftLeft, Nat.and_two_pow_sub_one_eq_mod, Nat.shiftRight_eq_div_pow, Nat.mod_eq_of_lt hlt]
  have hsmall : (br.filled n).cache / 2 ^ ((br.filled n).cacheBits - n) < 2 ^ 32 :=
    hlt.trans_le (Nat.pow_le_pow_right (by norm_num) hn)
  have hshift : (br.filled n).cacheBits - n < 64 := by omega
  rw [readBits]
  dsimp only
  rw [← filled]
  simp only [unsigned_sub hle (show (br.filled n).cacheBits < 2 ^ 8 by omega), ck_bind, shiftBy_of_lt hshift,
    shiftBy_of_lt (show n < 64 by omega)]
  rw [hval, Nat.mod_eq_of_lt hsmall, Nat.one_shiftLeft, Nat.and_two_pow_sub_one_eq_mod]
  rfl

/-- Fewer bits than that: a debug build does not get through. -/
theorem readBits_short {n : ℕ} (hlt : (br.filled n).cacheBits < n) : readBits .debug n br = .error .overflow := by
  have hsub : unsigned .debug 8 ((br.filled n).cacheBits - n) = .error .overflow := by
    rw [unsigned, if_neg (by omega)]
    rfl
  rw [readBits]
  dsimp only
  rw [← filled, hsub]
  rfl

end BitReader

/-! ## Languages -/

open BitReader

variable {build : Build} {n : ℕ}

/-- A number of `n` bits. -/
def Word (n v : ℕ) (w : List Bool) : Prop := v < 2 ^ n ∧ w = word n v

/-- One bit. -/
def Flag (v : ℕ) (w : List Bool) : Prop := ∃ b : Bool, v = b.toNat ∧ w = [b]

/-- **`read_bits` reads words.** -/
theorem readBits_reads (hpos : 0 < n) (hn : n ≤ 32) : Reads view (build = .debug) (readBits build n) (Word n) where
  complete := by
    rintro br v w more hs ⟨hv, rfl⟩ hrest
    obtain ⟨hs', hbits, hle⟩ := filled_spec (by omega : n ≤ 56) hs
    have hlen : n ≤ br.bits.length := by
      change br.bits = _ at hrest
      rw [hrest, List.length_append, length_word]
      exact Nat.le_add_right _ _
    obtain ⟨hlt, hsplit, hs''⟩ := bits_split hs' (hle hlen)
    change br.bits = _ at hrest
    rw [← hbits, hsplit] at hrest
    obtain ⟨hword, hmore⟩ := List.append_inj hrest (by rw [length_word, length_word])
    have hval := congrArg value hword
    rw [value_word hlt, value_word hv] at hval
    rw [readBits_eq hpos hn hs' (hle hlen), hval]
    exact ⟨_, rfl, hs'', hmore⟩
  sound := by
    rintro rfl br v br' hs he
    obtain ⟨hs', hbits, -⟩ := filled_spec (by omega : n ≤ 56) hs
    by_cases hle : n ≤ (br.filled n).cacheBits
    · obtain ⟨hlt, hsplit, hs''⟩ := bits_split hs' hle
      rw [readBits_eq hpos hn hs' hle] at he
      cases he
      refine ⟨hs'', _, ⟨hlt, rfl⟩, ?_⟩
      change br.bits = _
      rw [← hbits]
      exact hsplit
    · rw [readBits_short (Nat.lt_of_not_le hle)] at he
      cases he

theorem readBit_reads : Reads view (build = .debug) (readBit build) Flag := by
  refine ((readBits_reads Nat.one_pos (by norm_num)).bind fun a _ _ => Reads.pure (a % 2 ^ 8)).congr fun v w => ?_
  constructor
  · rintro ⟨b, rfl, rfl⟩
    refine ⟨b.toNat, [b], [], ⟨Bool.toNat_lt b, ?_⟩, ⟨?_, rfl⟩, rfl⟩
    · cases b <;> rfl
    · cases b <;> rfl
  · rintro ⟨a, u, v', ⟨ha, rfl⟩, ⟨rfl, rfl⟩, rfl⟩
    obtain rfl | rfl : a = 0 ∨ a = 1 := by omega
    · exact ⟨false, rfl, rfl⟩
    · exact ⟨true, rfl, rfl⟩

/-! ## Exp-Golomb codes -/

/-- The code of a number below `2 ^ 32 - 1`. -/
def Ue (k : ℕ) (w : List Bool) : Prop := k + 1 < 2 ^ 32 ∧ w = golomb k

variable {br br' : BitReader} {more : List Bool}

theorem bits_length_le (hs : br.Sound) : br.bits.length ≤ 8 * br.data.length + 64 := by
  have hle := hs.cacheBits_le
  rw [bits, List.length_append, length_word, length_ofBytes, List.length_drop]
  omega

theorem leadingZeros_succ (fuel : ℕ) (k : ℤ) (br : BitReader) : leadingZeros build (fuel + 1) k br = (do
    let (bit, br) ← readBit build br
    if bit = 0 then leadingZeros build fuel (← i32 build (k + 1)) br else return (k, br)) := by
  rw [leadingZeros]
  change (readBit build br >>= _) = _
  cases readBit build br with
  | error e => rfl
  | ok x =>
    obtain ⟨bit, br⟩ := x
    rw [ck_bind, ck_bind]
    by_cases hbit : bit = 0
    · subst hbit
      change (i32 build (k + 1) >>= fun x => Except.ok (x, br)) >>= _ = i32 build (k + 1) >>= _
      cases i32 build (k + 1) with
      | error e => rfl
      | ok k' => rfl
    · simp only [hbit, if_false]
      rfl

theorem leadingZeros_complete (z fuel k : ℕ) (hs : br.Sound)
    (hbits : br.bits = List.replicate z false ++ true :: more) (hfuel : z < fuel) (hk : k + z < 2 ^ 31) :
    ∃ br', leadingZeros build fuel k br = .ok (((k + z : ℕ) : ℤ), br') ∧ br'.Sound ∧ br'.bits = more := by
  have hread : Reads view (build = .debug) (readBit build) Flag := readBit_reads
  induction fuel generalizing z k br with
  | zero => exact absurd hfuel (Nat.not_lt_zero z)
  | succ fuel ih =>
    rw [leadingZeros_succ]
    cases z with
    | zero =>
      obtain ⟨br', he, hs', hmore⟩ := hread.complete (w := [true]) hs ⟨true, rfl, rfl⟩ hbits
      rw [he]
      exact ⟨br', rfl, hs', hmore⟩
    | succ z =>
      obtain ⟨br', he, hs', hmore⟩ := hread.complete (w := [false]) hs ⟨false, rfl, rfl⟩ hbits
      obtain ⟨br'', he', hs'', hmore'⟩ := ih z (k + 1) hs' hmore (by omega) (by omega)
      refine ⟨br'', ?_, hs'', hmore'⟩
      rw [he, ck_bind]
      change (i32 build ((k : ℤ) + 1) >>= fun x => leadingZeros build fuel x br') = _
      rw [i32_of_fits (by omega), ck_bind, show (k : ℤ) + 1 = (k + 1 : ℕ) from rfl, he', Nat.add_right_comm,
        Nat.add_assoc]

theorem leadingZeros_sound (fuel : ℕ) (k r : ℤ) (hs : br.Sound) (he : leadingZeros .debug fuel k br = .ok (r, br'))
    (hk : k < 2 ^ 31) : br'.Sound ∧ r < 2 ^ 31 ∧
      ∃ z : ℕ, r = k + z ∧ br.bits = List.replicate z false ++ true :: br'.bits := by
  induction fuel generalizing k br with
  | zero => cases he
  | succ fuel ih =>
    rw [leadingZeros_succ] at he
    cases hread : readBit .debug br with
    | error e =>
      rw [hread] at he
      cases he
    | ok x =>
      obtain ⟨v, br₁⟩ := x
      obtain ⟨hs', w, ⟨b, rfl, rfl⟩, hrest⟩ := readBit_reads.sound rfl hs hread
      rw [hread, ck_bind] at he
      change br.bits = [b] ++ br₁.bits at hrest
      cases b with
      | true =>
        cases he
        exact ⟨hs', hk, 0, (add_zero _).symm, hrest⟩
      | false =>
        change (i32 .debug (k + 1) >>= fun x => leadingZeros .debug fuel x br₁) = _ at he
        cases hadd : i32 .debug (k + 1) with
        | error e =>
          rw [hadd] at he
          cases he
        | ok k' =>
          rw [hadd, ck_bind] at he
          obtain ⟨rfl, -, hlt⟩ := i32_debug.1 hadd
          obtain ⟨hs'', hr, z, rfl, hbits⟩ := ih _ hs' he hlt
          refine ⟨hs'', hr, z + 1, ?_, ?_⟩
          · push_cast
            ring
          · rw [hrest, hbits]
            rfl

/-- Behind the data a release build reads a zero, and stays there. -/
theorem readBit_behind (hcache : br.cache = 0) (hend : br.data[br.pos >>> 3]? = none) :
    ∃ c, readBit .release br = .ok (0, { br with cacheBits := c }) := by
  have hrefill : br.refill = br := by
    rw [refill, refillLoop]
    simp only [hend, ite_self]
  have hfilled : (if br.cacheBits < 1 then br.refill else br) = br := by rw [hrefill, ite_self]
  obtain ⟨shift, hshift⟩ := @unsigned_release 8 (br.cacheBits - (1 : ℕ))
  obtain ⟨distance, hdistance⟩ := @shiftBy_release 64 shift
  obtain ⟨mask, hmask⟩ := @shiftBy_release 64 1
  have hread : readBits .release 1 br = .ok (0, { br with cacheBits := shift }) := by
    rw [readBits]
    dsimp only
    rw [hfilled, hshift, ck_bind, hdistance, ck_bind, hmask, ck_bind, ck_bind, hdistance, ck_bind, hcache, Nat.zero_shiftRight,
      Nat.zero_and, Nat.zero_and, Nat.zero_mod]
    rfl
  refine ⟨shift, ?_⟩
  rw [readBit, read_bind, hread]
  rfl

/-- The loop of `read_ue` does not end there, however long it goes on. -/
theorem leadingZeros_endless (fuel : ℕ) (k : ℤ) (hcache : br.cache = 0) (hend : br.data[br.pos >>> 3]? = none) :
    leadingZeros .release fuel k br = .error .endless := by
  induction fuel generalizing k br with
  | zero => rfl
  | succ fuel ih =>
    obtain ⟨c, hread⟩ := readBit_behind hcache hend
    obtain ⟨k', hk⟩ := @i32_release (k + 1)
    rw [leadingZeros_succ, hread, ck_bind]
    change (i32 .release (k + 1) >>= fun x => leadingZeros .release fuel x { br with cacheBits := c }) = _
    rw [hk, ck_bind]
    exact ih k' hcache hend

/-- The zeros before a one. -/
def Zeros (r : ℤ) (w : List Bool) : Prop := r < 2 ^ 31 ∧ ∃ z : ℕ, r = z ∧ w = List.replicate z false ++ [true]

theorem readZeros_reads : Reads view (build = .debug) (readZeros build) Zeros where
  complete := by
    rintro br r w more hs ⟨hr, z, rfl, rfl⟩ hrest
    change br.bits = _ at hrest
    rw [List.append_assoc, List.singleton_append] at hrest
    have hlen := bits_length_le hs
    rw [hrest, List.length_append, List.length_replicate] at hlen
    obtain ⟨br', he, hs', hmore⟩ := leadingZeros_complete z (8 * br.data.length + 65) 0 hs hrest (by omega) (by omega)
    rw [Nat.zero_add] at he
    exact ⟨br', he, hs', hmore⟩
  sound := by
    rintro rfl br r br' hs he
    obtain ⟨hs', hr, z, rfl, hbits⟩ := leadingZeros_sound (8 * br.data.length + 65) 0 r hs he (by norm_num)
    refine ⟨hs', _, ⟨hr, z, zero_add _, rfl⟩, ?_⟩
    rw [List.append_assoc]
    exact hbits

/-- The bits behind the one, as many as there were zeros. -/
def UeTail (r : ℤ) (k : ℕ) (w : List Bool) : Prop :=
  r = w.length ∧ w.length < 32 ∧ k = 2 ^ w.length - 1 + value w

theorem ueValue_eq {z : ℕ} (hpos : 0 < z) (hz : z < 32) : ueValue build z = (do
    let suffix ← readBits build z
    liftM (unsigned build 32 (2 ^ z - 1 + suffix : ℕ))) := by
  have hpow : 2 ^ z < 2 ^ 32 := Nat.pow_lt_pow_right (by norm_num) hz
  have hbyte : ((z : ℤ) % 2 ^ 8).toNat = z := by omega
  have hword : ((z : ℤ) % 2 ^ 32).toNat = z := by omega
  have hbase : unsigned build 32 ((2 ^ z : ℕ) - (1 : ℕ)) = .ok (2 ^ z - 1) := unsigned_sub (Nat.two_pow_pos z) hpow
  rw [ueValue, if_neg (by omega), hbyte, hword]
  funext br
  rw [read_bind, read_bind]
  refine congrArg _ (funext fun x => ?_)
  rw [read_bind, read_lift, shiftBy_of_lt hz, ck_bind, ck_bind, read_bind, read_lift, hbase, ck_bind, ck_bind]

theorem ueValue_reads {z : ℕ} (hz : z < 2 ^ 31) : Reads view (build = .debug) (ueValue build z) (UeTail z) := by
  by_cases hlt : z < 32
  · obtain rfl | hpos := Nat.eq_zero_or_pos z
    · refine (Reads.pure 0).congr fun k w => ⟨?_, ?_⟩
      · rintro ⟨hw, -, rfl⟩
        obtain rfl := List.eq_nil_of_length_eq_zero (Int.natCast_inj.1 hw.symm)
        exact ⟨rfl, rfl⟩
      · rintro ⟨rfl, rfl⟩
        exact ⟨rfl, by norm_num, rfl⟩
    · rw [ueValue_eq hpos hlt]
      refine ((readBits_reads hpos (by omega)).bind fun s _ _ => Reads.lift _).congr fun k w => ⟨?_, ?_⟩
      · rintro ⟨hw, -, rfl⟩
        obtain rfl : z = w.length := Int.natCast_inj.1 hw
        have hpow : 2 ^ w.length ≤ 2 ^ 31 := Nat.pow_le_pow_right (by norm_num) (by omega)
        have hsuffix := value_lt w
        refine ⟨value w, w, [], ⟨hsuffix, (word_value w).symm⟩, ⟨unsigned_of_lt (by omega), rfl⟩, ?_⟩
        rw [List.append_nil]
      · rintro ⟨s, u, v, ⟨hs, rfl⟩, ⟨hk, rfl⟩, rfl⟩
        have hpow : 2 ^ z ≤ 2 ^ 31 := Nat.pow_le_pow_right (by norm_num) (by omega)
        rw [unsigned_of_lt (by omega)] at hk
        cases hk
        rw [List.append_nil, UeTail, length_word, value_word hs]
        exact ⟨rfl, hlt, rfl⟩
  · refine ⟨fun _ hw _ => absurd hw ?_, ?_⟩
    · rintro ⟨hw, hlt', -⟩
      omega
    · rintro rfl br k br' - he
      rw [ueValue, if_neg (by omega), read_bind] at he
      cases hread : readBits .debug ((z : ℤ) % 2 ^ 8).toNat br with
      | error e =>
        rw [hread] at he
        cases he
      | ok x =>
        rw [hread, ck_bind, read_bind, read_lift, shiftBy_wide (by omega)] at he
        cases he

/-- **`read_ue` reads the codes.** -/
theorem readUe_reads : Reads view (build = .debug) (readUe build) Ue := by
  have htail (r : ℤ) (u : List Bool) (hu : Zeros r u) : Reads view (build = .debug) (ueValue build r) (UeTail r) := by
    obtain ⟨hr, z, rfl, -⟩ := hu
    exact ueValue_reads (by omega)
  refine (readZeros_reads.bind htail).congr fun k w => ⟨?_, ?_⟩
  · rintro ⟨hk, rfl⟩
    have hlen : (suffix k).length < 32 := length_suffix_lt.2 hk
    refine ⟨(suffix k).length, _, suffix k, ⟨by omega, _, rfl, rfl⟩, ⟨rfl, hlen, (value_suffix k).symm⟩, ?_⟩
    rw [golomb_eq, List.append_assoc]
    rfl
  · rintro ⟨r, u, v, ⟨-, z, rfl, rfl⟩, ⟨hz, hlen, rfl⟩, rfl⟩
    have hlt := value_lt v
    have hpow : 2 ^ v.length ≤ 2 ^ 31 := Nat.pow_le_pow_right (by norm_num) (by omega)
    refine ⟨by omega, ?_⟩
    rw [golomb_split, ← Int.natCast_inj.1 hz, List.append_assoc]
    rfl

/-- The number that a release build finds in a code, and a debug build in all but one. -/
def seValue (k : ℕ) : ℤ :=
  if asI32 k % 2 = 0 then -(asI32 k).tdiv 2 else ((asI32 k + 1).bmod (2 ^ 32)).tdiv 2

/-- Both halve even numbers only, and so exactly. -/
theorem half_eq {x : ℤ} (h : x % 2 = 0) : x.tdiv 2 = x / 2 := Int.tdiv_eq_ediv_of_dvd (Int.dvd_of_emod_eq_zero h)

theorem asI32_bounds {k : ℕ} (hk : k < 2 ^ 32) : -2 ^ 31 ≤ asI32 k ∧ asI32 k < 2 ^ 31 := by
  rw [asI32]
  split_ifs <;> omega

theorem bmod_even {x : ℤ} (h : x % 2 = 0) : x.bmod (2 ^ 32) % 2 = 0 := by
  rw [Int.bmod_def]
  split_ifs <;> omega

theorem ofCodeNum_eq {k : ℕ} (hk : k < 2 ^ 32) (hmax : build = .debug → k ≠ 2 ^ 31 - 1) :
    ofCodeNum build (asI32 k) = .ok (seValue k) := by
  have hlow := asI32_bounds hk
  have hnext : asI32 k = 2 ^ 31 - 1 → k = 2 ^ 31 - 1 := by
    rw [asI32]
    split_ifs <;> omega
  rw [ofCodeNum, seValue]
  split_ifs with heven
  · rw [half_eq heven]
    exact i32_of_fits (by omega)
  · rw [i32]
    split_ifs with hfits
    · rw [ck_bind, Int.bmod_eq_of_le (by omega) (by omega)]
      rfl
    · cases build with
      | debug => exact absurd (hnext (by omega)) (hmax rfl)
      | release => rfl

theorem ofCodeNum_max : ofCodeNum .debug (asI32 (2 ^ 31 - 1)) = .error .overflow := by decide

theorem seValue_bounds {k : ℕ} (hk : k < 2 ^ 32) : -2 ^ 30 ≤ seValue k ∧ seValue k ≤ 2 ^ 30 := by
  have hlow := asI32_bounds hk
  have hwrap : -2 ^ 31 ≤ (asI32 k + 1).bmod (2 ^ 32) ∧ (asI32 k + 1).bmod (2 ^ 32) < 2 ^ 31 :=
    ⟨Int.le_bmod (by norm_num), Int.bmod_lt (by norm_num)⟩
  unfold seValue
  split_ifs with heven
  · rw [half_eq heven]
    omega
  · rw [half_eq (bmod_even (by omega))]
    omega

/-- The number is right but for a multiple of `2 ^ 31`. -/
theorem seValue_signed {k : ℕ} (hk : k < 2 ^ 32) :
    seValue k = signed k ∨ seValue k = signed k + 2 ^ 31 ∨ seValue k = signed k - 2 ^ 31 := by
  have hcode : asI32 k = k ∧ k < 2 ^ 31 ∨ asI32 k = k - 2 ^ 32 ∧ 2 ^ 31 ≤ k := by
    rw [asI32]
    split_ifs <;> omega
  have hwrap : (asI32 k + 1).bmod (2 ^ 32) = asI32 k + 1 ∨
      k = 2 ^ 31 - 1 ∧ (asI32 k + 1).bmod (2 ^ 32) = asI32 k + 1 - 2 ^ 32 := by
    rw [Int.bmod_def]
    split_ifs <;> omega
  have heven' : asI32 k % 2 ≠ 0 → (asI32 k + 1).bmod (2 ^ 32) % 2 = 0 := fun h => bmod_even (by omega)
  unfold seValue signed
  split_ifs with heven hodd hodd
  · omega
  · rw [half_eq heven]
    omega
  · rw [half_eq (heven' heven)]
    omega
  · omega

/-! ## What the readers read -/

/-- The code of a signed number. -/
def seCode (x : ℤ) : List Bool := golomb (signCode x)

/-- What `read_se` makes of a number, `2 ^ 31` off where that does not fit. -/
def wrapped (x : ℤ) : ℤ := seValue (signCode x)

/-- The numbers with codes below `2 ^ 32 - 1`, but for one that is too much for a debug build. -/
def SeFits (build : Build) (x : ℤ) : Prop := signCode x + 1 < 2 ^ 32 ∧ (build = .debug → x ≠ 2 ^ 30)

theorem signCode_eq_max {x : ℤ} : signCode x = 2 ^ 31 - 1 ↔ x = 2 ^ 30 := by
  rw [signCode]
  split_ifs <;> omega

theorem wrapped_emod {x : ℤ} (h : signCode x < 2 ^ 32) : wrapped x % 256 = x % 256 := by
  have hvalue := seValue_signed h
  rw [signed_signCode] at hvalue
  rw [wrapped]
  omega

theorem wrapped_bounds {x : ℤ} (h : signCode x < 2 ^ 32) : -2 ^ 30 ≤ wrapped x ∧ wrapped x ≤ 2 ^ 30 :=
  seValue_bounds h

/-- The number that is too much for a debug build can be told from what a release build reads. -/
theorem wrapped_eq_min {x : ℤ} (h : signCode x + 1 < 2 ^ 32) : wrapped x = -2 ^ 30 ↔ x = 2 ^ 30 := by
  have hmax : wrapped (2 ^ 30) = -2 ^ 30 := by decide
  have hmin : wrapped (-2 ^ 30) = 2 ^ 30 := by decide
  have hvalue := seValue_signed (show signCode x < 2 ^ 32 by omega)
  rw [signed_signCode] at hvalue
  refine ⟨fun he => ?_, fun he => he ▸ hmax⟩
  obtain rfl | hne := eq_or_ne x (-2 ^ 30)
  · rw [hmin] at he
    cases he
  · have hcode : x < 2 ^ 31 ∧ -2 ^ 31 < x := by
      rw [signCode] at h
      split_ifs at h <;> omega
    rw [wrapped] at he
    omega

/-- **`read_bits` reads a word.** -/
theorem word_reads (hpos : 0 < n) (hn : n ≤ 32) :
    Reads view (build = .debug) (readBits build n) (Coded (fun v => v < 2 ^ n) (fun v => word n v) fun v => v) :=
  (readBits_reads hpos hn).congr fun v _ =>
    ⟨fun ⟨_, hv, he, hw⟩ => he ▸ ⟨hv, hw⟩, fun ⟨hv, hw⟩ => ⟨v, hv, rfl, hw⟩⟩

def readFlag (build : Build) : Read Bool := do return (← readBit build) == 1

theorem flag_reads : Reads view (build = .debug) (readFlag build) (Coded (fun _ => True) (fun b => [b]) fun b => b) := by
  have hbit : Reads view (build = .debug) (readBit build) (Coded (fun _ : Bool => True) (fun b => [b]) Bool.toNat) :=
    readBit_reads.congr fun _ _ => exists_congr fun _ => and_iff_right trivial
  refine (hbit.map (· == 1)).congr fun v w => exists_congr fun b => and_congr_right fun _ => and_congr_left fun _ => ?_
  cases b <;> rfl

/-- **`read_ue` reads a code.** -/
theorem ue_reads :
    Reads view (build = .debug) (readUe build) (Coded (fun k => k + 1 < 2 ^ 32) golomb fun k => k) :=
  readUe_reads.congr fun k _ => ⟨fun ⟨_, hk, he, hw⟩ => he ▸ ⟨hk, hw⟩, fun ⟨hk, hw⟩ => ⟨k, hk, rfl, hw⟩⟩

/-- **`read_se` reads the code of a signed number.** -/
theorem se_reads : Reads view (build = .debug) (readSe build) (Coded (SeFits build) seCode wrapped) := by
  refine (readUe_reads.bind fun k _ _ => Reads.lift (ofCodeNum build (asI32 k))).congr fun v w => ⟨?_, ?_⟩
  · rintro ⟨x, ⟨hx, hmax⟩, rfl, rfl⟩
    have hmax' : build = .debug → signCode x ≠ 2 ^ 31 - 1 := fun hb => mt signCode_eq_max.1 (hmax hb)
    exact ⟨signCode x, _, [], ⟨hx, rfl⟩, ⟨ofCodeNum_eq (by omega) hmax', rfl⟩, (List.append_nil _).symm⟩
  · rintro ⟨k, u, v', ⟨hk, rfl⟩, ⟨hv, rfl⟩, rfl⟩
    have hmax : build = .debug → k ≠ 2 ^ 31 - 1 := by
      rintro rfl rfl
      rw [ofCodeNum_max] at hv
      cases hv
    rw [ofCodeNum_eq (by omega) hmax] at hv
    cases hv
    refine ⟨signed k, ⟨?_, fun hb => ?_⟩, ?_, ?_⟩
    · rwa [signCode_signed]
    · exact mt signCode_eq_max.2 (by rw [signCode_signed]; exact hmax hb)
    · rw [wrapped, signCode_signed]
    · rw [List.append_nil, seCode, signCode_signed]

end MyMuxer
