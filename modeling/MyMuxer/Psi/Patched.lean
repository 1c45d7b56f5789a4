import MyMuxer.Psi.Encode
import MyMuxer.Psi.Panics
import MyMuxer.Psi.Streams

/-!
# What is said by a patched table

* `KeepsHeader`, `EndsWithCrc`, `Sealed`: header, section length and CRC of a patched section;
  `setSectionLength_again`: the section length is set once.
* **`pat_patched`**: a patched PAT says what the mapping says, and patching it again changes nothing.
-/

namespace MyMuxer.Psi

open MyMuxer

/-- The first `n` bytes are those of another section, but for the section length. -/
structure KeepsHeader (n : ℕ) (s s' : Bytes) : Prop where
  high : byte s' 1 &&& 0xF0 = byte s 1 &&& 0xF0
  other : ∀ i < n, i ≠ 1 → i ≠ 2 → byte s' i = byte s i

/-- The last four bytes are the CRC of the others. -/
def EndsWithCrc (env : Env) (s : Bytes) : Prop :=
  s.drop (s.length - 4) = crcBytes (env.crc (s.take (s.length - 4)))

/-- The section length and the CRC are right. -/
structure Sealed (env : Env) (s : Bytes) : Prop where
  hasLength : HasLength s
  crc : EndsWithCrc env s

/-! ## Section length and CRC -/

section Sealing

variable (env : Env) (header body s : Bytes)

theorem take_withCrc : (withCrc env s).take ((withCrc env s).length - 4) = s := by
  rw [withCrc, List.length_append]
  exact List.take_left' (Nat.add_sub_cancel _ _).symm

theorem endsWithCrc_withCrc : EndsWithCrc env (withCrc env s) := by
  rw [EndsWithCrc, take_withCrc, withCrc, List.length_append]
  exact List.drop_left' (Nat.add_sub_cancel _ _).symm

variable {s header}

theorem sealed_withCrc (h3 : 3 ≤ s.length) (h : s.length + 1 < 4096) :
    Sealed env (withCrc env (setSectionLength s)) where
  hasLength := by rw [HasLength, sectionLen_withCrc env h3 h, length_withCrc]
  crc := endsWithCrc_withCrc env _

theorem byte_setSectionLength_one (h : 1 < s.length) : byte (setSectionLength s) 1 =
    byte s 1 &&& (0xF0 : UInt8) ||| (UInt16.ofNat (s.length - 3 + 4) >>> 8).toUInt8 &&& (0x0F : UInt8) := by
  simp [setSectionLength, byte, h]

theorem byte_setSectionLength_ne {i : ℕ} (h1 : i ≠ 1) (h2 : i ≠ 2) :
    byte (setSectionLength s) i = byte s i := by
  simp only [setSectionLength, byte, List.getD_eq_getElem?_getD]
  rw [List.getElem?_set_ne h2.symm, List.getElem?_set_ne h1.symm]

/-- The high bits of byte 1 stay, whatever the length is. -/
theorem high_setLength (b len : UInt8) :
    (b &&& (0xF0 : UInt8) ||| len &&& (0x0F : UInt8)) &&& (0xF0 : UInt8) = b &&& (0xF0 : UInt8) := by
  have hself : ∀ b : UInt8, (b &&& (0xF0 : UInt8)).toNat &&& (0xF0 : UInt8).toNat = (b &&& (0xF0 : UInt8)).toNat := by
    decide
  have hnone : ∀ b : UInt8, (b &&& (0x0F : UInt8)).toNat &&& (0xF0 : UInt8).toNat = 0 := by decide
  apply UInt8.toNat_inj.1
  rw [UInt8.toNat_and, UInt8.toNat_or, Nat.and_or_distrib_right, hself, hnone, Nat.or_zero]

variable (header) in
theorem keepsHeader_withCrc (h3 : 3 ≤ header.length) :
    KeepsHeader header.length header (withCrc env (setSectionLength (header ++ body))) := by
  have hlen : header.length ≤ (setSectionLength (header ++ body)).length := by
    rw [setSectionLength_length, List.length_append]
    exact Nat.le_add_right _ _
  constructor
  · rw [withCrc, byte_append_left (by omega), byte_setSectionLength_one (by rw [List.length_append]; omega),
      high_setLength, byte_append_left (by omega)]
  · intro i hi h1 h2
    rw [withCrc, byte_append_left (by omega), byte_setSectionLength_ne h1 h2, byte_append_left hi]

/-- Setting the section length is idempotent. -/
theorem setSectionLength_idem (h : 3 ≤ s.length) : setSectionLength (setSectionLength s) = setSectionLength s := by
  have h1 := byte_setSectionLength_one (s := s) (by omega)
  rw [setSectionLength, setSectionLength_length, h1, high_setLength]
  unfold setSectionLength
  dsimp only
  rw [List.set_comm _ _ (by norm_num : (2 : ℕ) ≠ 1), List.set_set, List.set_set]

theorem take_setSectionLength (h3 : 3 ≤ header.length) :
    (setSectionLength (header ++ body)).take header.length ++ body = setSectionLength (header ++ body) := by
  obtain ⟨header', hlen, e⟩ := setSectionLength_append h3 body
  rw [e, ← hlen, List.take_left]

variable (header) in
/-- **The section length is set once**: the header of a patched section is not changed by patching it. -/
theorem setSectionLength_again (h3 : 3 ≤ header.length) :
    setSectionLength ((setSectionLength (header ++ body)).take header.length ++ body) =
      setSectionLength (header ++ body) := by
  rw [take_setSectionLength body h3, setSectionLength_idem (by rw [List.length_append]; omega)]

variable (header) in
/-- The section length goes to the header, and leaves the rest of it as it is. -/
theorem setSectionLength_front (h3 : 3 ≤ header.length) : ∃ header' : Bytes, header'.length = header.length ∧
    setSectionLength (header ++ body) = header' ++ body ∧
    ∀ i < header.length, i ≠ 1 → i ≠ 2 → byte header' i = byte header i := by
  obtain ⟨header', hlen, e⟩ := setSectionLength_append h3 body
  refine ⟨header', hlen, e, ?_⟩
  intro i hi h1 h2
  rw [← byte_append_left (by omega) body, ← e, byte_setSectionLength_ne h1 h2, byte_append_left hi]

variable (header) in
theorem drop_setSectionLength (h3 : 3 ≤ header.length) :
    (setSectionLength (header ++ body)).drop header.length = body := by
  obtain ⟨header', hlen, e⟩ := setSectionLength_append h3 body
  rw [e, ← hlen, List.drop_left]

variable (header) in
theorem take_withCrc_header :
    (withCrc env (setSectionLength (header ++ body))).take header.length =
      (setSectionLength (header ++ body)).take header.length := by
  rw [withCrc, List.take_append_of_le_length]
  rw [setSectionLength_length, List.length_append]
  exact Nat.le_add_right _ _

end Sealing

theorem byte_take {i n : ℕ} (hi : i < n) (s : Bytes) : byte (s.take n) i = byte s i := by
  simp only [byte, List.getD_eq_getElem?_getD, List.getElem?_take_of_lt hi]

theorem KeepsHeader.of_take {n : ℕ} {s s' : Bytes} (h2 : 2 ≤ n) (h : KeepsHeader n (s.take n) s') :
    KeepsHeader n s s' :=
  ⟨by rw [h.high, byte_take (by omega)], fun i hi h1 h2 => by rw [h.other i hi h1 h2, byte_take hi]⟩

/-! ## Words of 13 and 16 bits -/

/-- The high bits of a PID are not written. -/
theorem reserved16_pid (v : UInt16) : reserved16 0x1F 0xE0 v = reserved16 0x1F 0xE0 (v &&& 0x1FFF) := by
  have h : ∀ b : UInt8, (b &&& 0x1F).toNat = b.toNat % 2 ^ 5 := by decide
  have hhigh : (v >>> 8).toUInt8 &&& (0x1F : UInt8) = ((v &&& 0x1FFF) >>> 8).toUInt8 &&& (0x1F : UInt8) := by
    apply UInt8.toNat_inj.1
    rw [h, h, toNat_highByte, toNat_highByte, and_low_toNat v 0x1FFF 13 rfl]
    omega
  have hlow : v &&& 0xFF = (v &&& 0x1FFF) &&& 0xFF := by
    rw [UInt16.and_assoc]
    rfl
  rw [reserved16, reserved16, hhigh, hlow]

theorem and_pid_le (v : UInt16) : v &&& 0x1FFF ≤ 0x1FFF := UInt16.and_le_right

theorem and_pid_self {v : UInt16} (h : v ≤ 0x1FFF) : v &&& 0x1FFF = v := by
  have hv : v.toNat ≤ 8191 := UInt16.le_iff_toNat_le.1 h
  apply UInt16.toNat_inj.1
  rw [and_low_toNat v 0x1FFF 13 rfl]
  exact Nat.mod_eq_of_lt (by omega)

/-- A PID of 16 bits is read back without the high ones. -/
theorem be16_reserved (v : UInt16) : be16 0x1F ((v >>> 8).toUInt8 &&& (0x1F : UInt8) ||| (0xE0 : UInt8))
    (v &&& 0xFF).toUInt8 = v &&& 0x1FFF := by
  have h := be16_pid (and_pid_le v)
  rw [← reserved16_pid] at h
  exact h

theorem low_word (v : UInt16) : (v &&& 0xFF).toUInt8 = Encode.low v := by
  apply UInt8.toNat_inj.1
  rw [toNat_lowByte, Encode.low, UInt16.toNat_toUInt8]

theorem be16_word (v : UInt16) : be16 0xFFFF (v >>> 8).toUInt8 (v &&& 0xFF).toUInt8 = v := by
  rw [low_word]
  exact Encode.be16_high_low v

/-! ## The program association table -/

/-- What a mapping says in a PAT: its pairs but those of the network, with PIDs of 13 bits. -/
def mapped (m : List (UInt16 × UInt16)) : List PatInfo :=
  (m.filter fun e => e.1 ≠ 0).map fun e => { progNum := e.1, pmtPid := e.2 &&& 0x1FFF }

theorem patEntries_mapped (m : List (UInt16 × UInt16)) : patEntries (m.flatMap patEntry) = mapped m := by
  induction m with
  | nil => rfl
  | cons e m ih =>
    rw [List.flatMap_cons]
    change patEntries ((e.1 >>> 8).toUInt8 :: (e.1 &&& 0xFF).toUInt8 ::
      ((e.2 >>> 8).toUInt8 &&& (0x1F : UInt8) ||| (0xE0 : UInt8)) :: (e.2 &&& 0xFF).toUInt8 ::
        m.flatMap patEntry) = _
    rw [patEntries, be16_word, be16_reserved, ih]
    by_cases h : e.1 = 0
    · simp [mapped, h]
    · simp [mapped, h]

theorem length_flatMap_patEntry (m : List (UInt16 × UInt16)) : (m.flatMap patEntry).length = 4 * m.length := by
  rw [List.length_flatMap]
  simp only [patEntry, List.length_cons, List.length_nil, List.map_const', List.sum_replicate, smul_eq_mul]
  omega

/-- **A patched PAT says what the mapping says.** Its section length and its CRC are right, the header is kept,
and patching it again changes nothing. -/
theorem pat_patched (env : Env) {s : Bytes} (hs : 8 ≤ s.length) {m : List (UInt16 × UInt16)}
    (hm : m.length ≤ 1021) : ∃ s', patchPatSection env s m = .ok s' ∧ analyzePat s' = .ok (mapped m) ∧
      KeepsHeader 8 s s' ∧ Sealed env s' ∧ patchPatSection env s' m = .ok s' := by
  have hheader : (s.take 8).length = 8 := List.length_take_of_le hs
  have hpatch {t : Bytes} (ht : 8 ≤ t.length) : patchPatSection env t m =
      .ok (withCrc env (setSectionLength (t.take 8 ++ m.flatMap patEntry))) := by
    rw [patchPatSection, slice_of_le (by omega) ht]
    rfl
  have hlen := length_flatMap_patEntry m
  have hlen' := length_withCrc env (s.take 8 ++ m.flatMap patEntry)
  rw [List.length_append, hheader, hlen] at hlen'
  refine ⟨_, hpatch hs, ?_, ?_, ?_, ?_⟩
  · rw [analyzePat, usub_of_le (by omega), ok_bind, take_withCrc]
    have hdrop := drop_setSectionLength (s.take 8) (m.flatMap patEntry) (by omega)
    rw [hheader] at hdrop
    rw [hdrop, patEntries_mapped]
    rfl
  · have hkeep := keepsHeader_withCrc env (s.take 8) (m.flatMap patEntry) (by omega)
    rw [hheader] at hkeep
    exact hkeep.of_take (by norm_num)
  · apply sealed_withCrc
    · rw [List.length_append]
      omega
    · rw [List.length_append]
      omega
  · rw [hpatch (by omega)]
    have htake := take_withCrc_header env (s.take 8) (m.flatMap patEntry)
    have hagain := setSectionLength_again (s.take 8) (m.flatMap patEntry) (by omega)
    rw [hheader] at htake hagain
    rw [htake, hagain]

/-- A mapping with the network in it and a PID of 14 bits. -/
theorem pat_patched_sample : ∃ s', patchPatSection Env.sample [0x00, 0xB0, 0x0D, 0x00, 0x01, 0xC1, 0x00, 0x00]
      [(0, 0x10), (7, 0x2100)] = .ok s' ∧ analyzePat s' = .ok [{ progNum := 7, pmtPid := 0x0100 }] := by
  obtain ⟨s', hpatch, hsays, -⟩ := pat_patched Env.sample (s := [0x00, 0xB0, 0x0D, 0x00, 0x01, 0xC1, 0x00, 0x00])
    (by decide) (m := [(0, 0x10), (7, 0x2100)]) (by decide)
  exact ⟨s', hpatch, hsays⟩

end MyMuxer.Psi
