import MyMuxer.Pes.Golomb

/-!
# The bit reader beside the bits themselves

* `BitRead`: a call of the reader; `BitRead.direct`: the same of a list of bits; `readAll`, `directAll`: any number
  of calls.
* `BitReader.Within`: where the reader stands in its data; `BitReader.consumed`: how many bits have been read.
* **`readAll_eq`**: the reader returns what is read of the bits of its data, and consumes as many of them.
-/

namespace MyMuxer

open Bits Grammar

/-! ## Calls -/

inductive BitRead
  | bits (n : ℕ)
  | ue
  deriving DecidableEq

namespace BitRead

/-- The sizes that are read of a bit stream. -/
def Legal : BitRead → Prop
  | bits n => 1 ≤ n ∧ n ≤ 32
  | ue => True

def read (build : Build) : BitRead → Read ℕ
  | bits n => readBits build n
  | ue => readUe build

/-- A number of `n` bits, or the code of a number with at most 31 zeros in front, and the bits behind it. -/
def direct : BitRead → List Bool → Option (ℕ × List Bool)
  | bits n, l => if n ≤ l.length then some (value (l.take n), l.drop n) else none
  | ue, l =>
    let z := l.findIdx id
    if z ≤ 31 ∧ 2 * z + 1 ≤ l.length then
      some (2 ^ z - 1 + value ((l.drop (z + 1)).take z), l.drop (2 * z + 1))
    else none

end BitRead

def readAll (build : Build) : List BitRead → Read (List ℕ)
  | [] => return []
  | r :: reads => do return (← r.read build) :: (← readAll build reads)

def directAll : List BitRead → List Bool → Option (List ℕ × List Bool)
  | [], l => some ([], l)
  | r :: reads, l => do
    let (v, l) ← r.direct l
    let (vs, l) ← directAll reads l
    return (v :: vs, l)

/-! ## The place in the data -/

namespace BitReader

variable {data : Bytes} {br : BitReader} {build : Build}

/-- The reader takes bytes of `data`, and none behind it. -/
structure Within (data : Bytes) (br : BitReader) : Prop where
  data_eq : br.data = data
  pos_dvd : 8 ∣ br.pos
  pos_le : br.pos ≤ 8 * data.length

/-- The bits that have been taken from the data and are not in the cache. -/
def consumed (br : BitReader) : ℕ := br.pos - br.cacheBits

theorem within_new (data : Bytes) : (new data).Within data := ⟨rfl, Nat.dvd_zero 8, Nat.zero_le _⟩

theorem refillLoop_within (fuel : ℕ) (h : br.Within data) : (refillLoop fuel br).Within data := by
  induction fuel generalizing br with
  | zero => exact h
  | succ fuel ih =>
    rw [refillLoop]
    split_ifs
    · split
      case h_1 b hb =>
        have hlt := (List.getElem?_eq_some_iff.1 hb).1
        rw [Nat.shiftRight_eq_div_pow, h.data_eq] at hlt
        have hdvd := h.pos_dvd
        exact ih ⟨h.data_eq, Nat.dvd_add hdvd (Nat.dvd_refl 8), by dsimp only; omega⟩
      case h_2 => exact h
    · exact h

theorem readBits_within (n : ℕ) : Keeps (Within data) (readBits build n) := by
  intro br x h he
  have hfilled : Within data (if br.cacheBits < n then br.refill else br) := by
    split_ifs
    · exact refillLoop_within 8 h
    · exact h
  rw [readBits] at he
  dsimp only at he
  obtain ⟨shift, -, he⟩ := ck_eq_ok.1 he
  obtain ⟨wide, -, he⟩ := ck_eq_ok.1 he
  obtain ⟨mask, -, he⟩ := ck_eq_ok.1 he
  obtain ⟨left, -, he⟩ := ck_eq_ok.1 he
  obtain ⟨kept, -, he⟩ := ck_eq_ok.1 he
  cases he
  exact ⟨hfilled.data_eq, hfilled.pos_dvd, hfilled.pos_le⟩

theorem readBit_within : Keeps (Within data) (readBit build) := (readBits_within 1).bind fun _ => Keeps.pure _

theorem leadingZeros_within (fuel : ℕ) (k : ℤ) : Keeps (Within data) (leadingZeros build fuel k) := by
  induction fuel generalizing k with
  | zero => exact fun _ _ _ he => (nomatch he)
  | succ fuel ih =>
    rw [leadingZeros]
    exact readBit_within.bind fun _ => .ite ((Keeps.lift _).bind fun _ => ih _) (.pure _)

theorem readUe_within : Keeps (Within data) (readUe build) := by
  have hzeros : Keeps (Within data) (readZeros build) := fun br x h he => leadingZeros_within _ _ br x h he
  refine hzeros.bind fun z => ?_
  rw [ueValue]
  exact .ite (.pure _) ((readBits_within _).bind fun _ => (Keeps.lift _).bind fun _ => (Keeps.lift _).bind fun _ => .lift _)

theorem read_within (r : BitRead) : Keeps (Within data) (r.read build) := by
  cases r with
  | bits n => exact readBits_within n
  | ue => exact readUe_within

/-- What has been consumed and what is left make up the data. -/
theorem consumed_eq (h : br.Within data) (hle : br.bits.length ≤ 8 * data.length) :
    br.cacheBits ≤ br.pos ∧ br.consumed = 8 * data.length - br.bits.length := by
  obtain ⟨rfl, hdvd, hpos⟩ := h
  have hlen : br.bits.length = br.cacheBits + 8 * (br.data.length - br.pos / 8) := by
    rw [bits, List.length_append, length_word, length_ofBytes, List.length_drop]
  rw [consumed]
  omega

end BitReader

/-! ## One call and all calls -/

open BitReader

variable (build : Build) {r : BitRead} {reads : List BitRead} {l rest : List Bool} {v : ℕ} {vs : List ℕ} {br : BitReader}

/-- What is read directly is in front, and the reader's call reads it. -/
theorem BitRead.read_eq (hlegal : r.Legal) (h : r.direct l = some (v, rest)) (hs : br.Sound) (hl : br.bits = l) :
    ∃ br', r.read build br = .ok (v, br') ∧ br'.Sound ∧ br'.bits = rest := by
  cases r with
  | bits n =>
    rw [direct, Option.ite_none_right_eq_some] at h
    obtain ⟨hle, he⟩ := h
    cases he
    have hlen : (l.take n).length = n := by rw [List.length_take, Nat.min_eq_left hle]
    have hword : l.take n = word n (value (l.take n)) := by
      have h := word_value (l.take n)
      rwa [hlen, eq_comm] at h
    have hlt : value (l.take n) < 2 ^ n := by
      have h := value_lt (l.take n)
      rwa [hlen] at h
    refine (word_reads hlegal.1 hlegal.2).run _ hs hlt (?_ : br.bits = _)
    rw [hl, ← hword, List.take_append_drop]
  | ue =>
    rw [direct, Option.ite_none_right_eq_some] at h
    obtain ⟨⟨hz, hle⟩, he⟩ := h
    have hsplit := zeros_split (show l.findIdx id < l.length by omega)
    generalize l.findIdx id = z at hz hle he hsplit
    cases he
    have hlen : ((l.drop (z + 1)).take z).length = z := by
      rw [List.length_take, List.length_drop]
      omega
    have hlt := value_lt ((l.drop (z + 1)).take z)
    have hpow : 2 ^ z ≤ 2 ^ 31 := Nat.pow_le_pow_right (by norm_num) hz
    have hcode := golomb_split ((l.drop (z + 1)).take z)
    have hdrop : l.drop (2 * z + 1) = (l.drop (z + 1)).drop z := by
      rw [List.drop_drop, show z + 1 + z = 2 * z + 1 by omega]
    rw [hlen] at hlt hcode
    refine ue_reads.run _ hs (by omega) (?_ : br.bits = _)
    rw [hl, hcode, hdrop, List.append_assoc, List.cons_append, List.take_append_drop]
    exact hsplit

theorem readAll_bits (hlegal : ∀ r ∈ reads, r.Legal) (h : directAll reads l = some (vs, rest)) (hs : br.Sound)
    (hl : br.bits = l) : ∃ br', readAll build reads br = .ok (vs, br') ∧ br'.Sound ∧ br'.bits = rest := by
  induction reads generalizing l vs br with
  | nil =>
    cases h
    exact ⟨br, rfl, hs, hl⟩
  | cons r reads ih =>
    rw [directAll] at h
    obtain ⟨⟨v, l'⟩, hr, h⟩ := Option.bind_eq_some_iff.1 h
    obtain ⟨⟨vs', rest'⟩, hreads, h⟩ := Option.bind_eq_some_iff.1 h
    cases h
    obtain ⟨br', he, hs', hl'⟩ := r.read_eq build (hlegal r List.mem_cons_self) hr hs hl
    obtain ⟨br'', he', hs'', hl''⟩ := ih (fun r hr => hlegal r (List.mem_cons_of_mem _ hr)) hreads hs' hl'
    refine ⟨br'', ?_, hs'', hl''⟩
    change (r.read build br >>= fun x => readAll build reads x.2 >>= fun y => Except.ok (x.1 :: y.1, y.2)) = _
    rw [he, ck_bind, he', ck_bind]

theorem readAll_within {data : Bytes} (reads : List BitRead) : Keeps (Within data) (readAll build reads) := by
  induction reads with
  | nil => exact .pure []
  | cons r reads ih => exact (read_within r).bind fun _ => ih.bind fun _ => .pure _

theorem directAll_length (h : directAll reads l = some (vs, rest)) : rest.length ≤ l.length := by
  induction reads generalizing l vs with
  | nil =>
    cases h
    exact le_rfl
  | cons r reads ih =>
    rw [directAll] at h
    obtain ⟨⟨v, l'⟩, hr, h⟩ := Option.bind_eq_some_iff.1 h
    obtain ⟨⟨vs', rest'⟩, hreads, h⟩ := Option.bind_eq_some_iff.1 h
    cases h
    refine (ih hreads).trans ?_
    cases r with
    | bits n =>
      rw [BitRead.direct, Option.ite_none_right_eq_some] at hr
      cases hr.2
      rw [List.length_drop]
      exact Nat.sub_le _ _
    | ue =>
      rw [BitRead.direct, Option.ite_none_right_eq_some] at hr
      cases hr.2
      rw [List.length_drop]
      exact Nat.sub_le _ _

/-- **The reader returns what is read of the bits of its data directly**, and has consumed as many of them; the code
of a number that comes next is read as the number, and its bits are consumed. -/
theorem readAll_eq (data : Bytes) (reads : List BitRead) (hlegal : ∀ r ∈ reads, r.Legal)
    (h : directAll reads (ofBytes data) = some (vs, rest)) : ∃ br, readAll build reads (new data) = .ok (vs, br) ∧
      br.bits = rest ∧ br.consumed = (ofBytes data).length - rest.length ∧
      ∀ v more, v ≤ 2 ^ 32 - 2 → rest = golomb v ++ more → ∃ br', readUe build br = .ok (v, br') ∧ br'.bits = more ∧
        br'.consumed = br.consumed + (golomb v).length := by
  obtain ⟨br, he, hs, hbits⟩ := readAll_bits build hlegal h (sound_new data) (bits_new data)
  have hwithin : br.Within data := readAll_within build reads _ _ (within_new data) he
  have hle := directAll_length h
  rw [length_ofBytes] at hle ⊢
  have hconsumed := (consumed_eq hwithin (hbits ▸ hle)).2
  rw [hbits] at hconsumed
  refine ⟨br, he, hbits, hconsumed, fun v more hv hrest => ?_⟩
  have hue : Reads view (build = .debug) (readUe build) (Coded (fun k => k + 1 < 2 ^ 32) golomb fun k => k) := ue_reads
  obtain ⟨br', hv', -, hbits'⟩ := hue.run v hs (by omega) (hbits.trans hrest)
  have hlen := congrArg List.length hrest
  rw [List.length_append] at hlen
  change br'.bits = more at hbits'
  have hwithin' : br'.Within data := readUe_within _ _ hwithin hv'
  have hconsumed' := (consumed_eq hwithin' (by rw [hbits']; omega)).2
  rw [hbits'] at hconsumed'
  exact ⟨br', hv', hbits', by omega⟩

theorem readAll_three : ∃ br, readAll .debug [.bits 3, .ue, .bits 2] (new [0b10100110, 0b11010000]) = .ok ([5, 5, 3], br) ∧
    br.consumed = 10 ∧ ∃ br', readUe .debug br = .ok (1, br') ∧ br'.consumed = 13 := by
  have hdirect : directAll [.bits 3, .ue, .bits 2] (ofBytes [0b10100110, 0b11010000]) = some ([5, 5, 3], word 6 16) := by
    decide
  have hlegal : ∀ r ∈ [BitRead.bits 3, .ue, .bits 2], r.Legal := by simp [BitRead.Legal]
  obtain ⟨br, he, -, hconsumed, hcode⟩ := readAll_eq .debug _ _ hlegal hdirect
  obtain ⟨br', he', -, hconsumed'⟩ := hcode 1 (word 3 0) (by norm_num) (by decide)
  refine ⟨br, he, hconsumed, br', he', ?_⟩
  rw [hconsumed', hconsumed]
  decide

end MyMuxer
