import MyMuxer.Psi.Section

/-!
# What `pack_multi` writes

* `packed`: one packet of `packMulti`; its sync byte, PID, PUSI, counter and payload.
* `packLoop_succ`: the recursion of the loop once the fuel is enough; `packLoop_length`: how many
  packets a remainder takes.
* `mem_packMulti`, `packMulti_ccRun`: every packet carries the PID, and the counters rise by one.
-/

namespace MyMuxer.Psi

open MyMuxer

/-- One packet of `packMulti`. -/
def packed (first : Bool) (pid : UInt16) (cc : UInt8) (chunk : Bytes) : Packet :=
  Packet.ofBytes (packHeader first pid cc ++ chunk)

/-- How many payload bytes such a packet has room for. -/
def capacity (first : Bool) : ℕ := if first then 183 else 184

variable {first : Bool} {pid : UInt16} {cc : UInt8} {chunk : Bytes}

theorem packHeader_length : (packHeader first pid cc).length = 188 - capacity first := by
  cases first <;> rfl

theorem capacity_eq : tsPacketSize - (packHeader first pid cc).length = capacity first := by
  cases first <;> rfl

theorem capacity_le : capacity first ≤ 184 := by cases first <;> decide

/-- What a packet carries after its header. -/
def padded (first : Bool) (chunk : Bytes) : Bytes :=
  chunk ++ List.replicate (capacity first - chunk.length) 0xFF

theorem padded_length (h : chunk.length ≤ capacity first) : (padded first chunk).length = capacity first := by
  simp [padded]; omega

theorem packed_bytes (h : chunk.length ≤ capacity first) :
    (packed first pid cc chunk).bytes = packHeader first pid cc ++ padded first chunk := by
  have hc : capacity first ≤ 184 := capacity_le
  rw [packed, Packet.ofBytes_bytes (by rw [List.length_append, packHeader_length]; omega),
    List.append_assoc, List.length_append, packHeader_length, padded]
  congr 3; omega

theorem packed_byte (h : chunk.length ≤ capacity first) {i : ℕ} (hi : i < 188 - capacity first) :
    byte (packed first pid cc chunk).bytes i = byte (packHeader first pid cc) i := by
  rw [packed_bytes h]
  simp only [byte, List.getD_eq_getElem?_getD]
  rw [List.getElem?_append_left (by rw [packHeader_length]; exact hi)]

theorem packed_sync (h : chunk.length ≤ capacity first) :
    byte (packed first pid cc chunk).bytes 0 = tsSyncByte := by
  rw [packed_byte h (by cases first <;> decide)]; rfl

theorem pidHigh_mod (first : Bool) : (pidHigh pid first).toNat % 2 ^ 5 = pid.toNat / 256 % 2 ^ 5 := by
  have h : ∀ b : UInt8, (b &&& 0x1F ||| if first then 0x40 else 0x00).toNat % 2 ^ 5 =
      b.toNat % 2 ^ 5 := by cases first <;> decide
  rw [pidHigh, h, toNat_highByte]

theorem packed_pid (hpid : pid ≤ 0x1FFF) (h : chunk.length ≤ capacity first) :
    pktPid (packed first pid cc chunk).bytes = pid := by
  have hp : pid.toNat < 8192 := by
    have := UInt16.le_iff_toNat_le.1 hpid
    simp at this; omega
  have h1 : byte (packed first pid cc chunk).bytes 1 = byte (packHeader first pid cc) 1 :=
    packed_byte h (by cases first <;> decide)
  have h2 : byte (packed first pid cc chunk).bytes 2 = byte (packHeader first pid cc) 2 :=
    packed_byte h (by cases first <;> decide)
  apply UInt16.toNat_inj.1
  rw [pktPid, be16_toNat (k := 5) (by norm_num) rfl, h1, h2]
  change (pidHigh pid first).toNat % 2 ^ 5 * 256 + (pid &&& 0xFF).toUInt8.toNat = _
  rw [pidHigh_mod, toNat_lowByte]
  omega

theorem packed_pusi (h : chunk.length ≤ capacity first) :
    pusi (packed first pid cc chunk).bytes = first := by
  have hb : ∀ b : UInt8, decide ((b &&& 0x1F ||| if first then 0x40 else 0x00) &&& 0x40 ≠ 0) = first := by
    cases first <;> decide
  rw [pusi, packed_byte h (by cases first <;> decide)]
  exact hb _

theorem packed_afControl (h : chunk.length ≤ capacity first) :
    afControl (packed first pid cc chunk).bytes = 1 := by
  have hb : ∀ b : UInt8, ((0x10 ||| (b &&& 0x0F)) >>> 4) &&& 0x03 = 1 := by decide
  rw [afControl, packed_byte h (by cases first <;> decide)]
  exact hb cc

theorem packed_clear (h : chunk.length ≤ capacity first) :
    pktScramblingControl (packed first pid cc chunk).bytes = 0 := by
  have hb : ∀ b : UInt8, ((0x10 ||| (b &&& 0x0F)) >>> 6) &&& 0x03 = 0 := by decide
  rw [pktScramblingControl, packed_byte h (by cases first <;> decide)]
  exact hb cc

theorem packed_cc (h : chunk.length ≤ capacity first) :
    pktCc (packed first pid cc chunk).bytes = cc &&& 0x0F := by
  have hb : ∀ b : UInt8, (0x10 ||| (b &&& 0x0F)) &&& 0x0F = b &&& 0x0F := by decide
  rw [pktCc, packed_byte h (by cases first <;> decide)]
  exact hb cc

theorem packed_payload (h : chunk.length ≤ capacity first) :
    (packed first pid cc chunk).bytes.drop (188 - capacity first) = padded first chunk := by
  rw [packed_bytes h, List.drop_left' packHeader_length]

/-! ## The loop -/

theorem packLoop_nil (pid : UInt16) (fuel : ℕ) (cc : UInt8) : packLoop pid fuel false [] cc = ([], cc) := by
  cases fuel <;> simp [packLoop]

theorem packLoop_succ (pid : UInt16) (fuel : ℕ) (first : Bool) {rest : Bytes} (cc : UInt8)
    (h : first = true ∨ rest ≠ []) :
    packLoop pid (fuel + 1) first rest cc =
      (packed first pid cc (rest.take (capacity first)) ::
        (packLoop pid fuel false (rest.drop (capacity first)) ((cc + 1) &&& 0x0F)).1,
        (packLoop pid fuel false (rest.drop (capacity first)) ((cc + 1) &&& 0x0F)).2) := by
  have h' : ¬ (first = false ∧ rest = []) := by rintro ⟨rfl, rfl⟩; simp at h
  simp only [packLoop, if_neg h', capacity_eq, packed]

/-- A remainder takes no more packets than its length in units of 184 bytes, rounded up. -/
theorem packLoop_length (pid : UInt16) : ∀ (fuel : ℕ) (rest : Bytes) (cc : UInt8), rest ≠ [] →
    184 * (packLoop pid fuel false rest cc).1.length < rest.length + 184
  | 0, rest, cc, h => by simp [packLoop]
  | fuel + 1, rest, cc, h => by
    rw [packLoop_succ _ _ _ _ (Or.inr h)]
    have hpos := List.length_pos_iff.2 h
    by_cases hd : rest.drop (capacity false) = []
    · simp only [hd, packLoop_nil, List.length_cons, List.length_nil]; omega
    · have ih := packLoop_length pid fuel (rest.drop (capacity false)) ((cc + 1) &&& 0x0F) hd
      simp only [List.length_cons, List.length_drop] at ih ⊢
      have : 0 < (rest.drop (capacity false)).length := List.length_pos_iff.2 hd
      simp only [List.length_drop] at this
      have hc : capacity false = 184 := rfl
      omega

/-- The packets of the loop after the first: continuation packets of the PID. -/
theorem mem_packLoop {p : Packet} : ∀ (fuel : ℕ) (first : Bool) (rest : Bytes) (cc : UInt8),
    p ∈ (packLoop pid fuel first rest cc).1 → ∃ f c chunk, chunk.length ≤ capacity f ∧
      (first = false → f = false) ∧ p = packed f pid c chunk
  | 0, first, rest, cc, h => by simp [packLoop] at h
  | fuel + 1, first, rest, cc, h => by
    by_cases h' : first = false ∧ rest = []
    · obtain ⟨rfl, rfl⟩ := h'
      simp [packLoop_nil] at h
    · rw [packLoop_succ _ _ _ _ (by cases first <;> simp_all)] at h
      rcases List.mem_cons.1 h with rfl | h
      · exact ⟨first, cc, _, List.length_take_le _ _, id, rfl⟩
      · obtain ⟨f, c, chunk, hl, hf, e⟩ := mem_packLoop fuel false _ _ h
        exact ⟨f, c, chunk, hl, fun _ => hf rfl, e⟩

theorem mem_packMulti {s : Bytes} {p : Packet} (h : p ∈ (packMulti s pid cc).1) :
    ∃ f c chunk, chunk.length ≤ capacity f ∧ p = packed f pid c chunk := by
  obtain ⟨f, c, chunk, hl, _, e⟩ := mem_packLoop _ _ _ _ h
  exact ⟨f, c, chunk, hl, e⟩

theorem packMulti_eq (s : Bytes) (pid : UInt16) (cc : UInt8) :
    (packMulti s pid cc).1 = packed true pid cc (s.take 183) ::
      (packLoop pid s.length false (s.drop 183) ((cc + 1) &&& 0x0F)).1 := by
  rw [packMulti, packLoop_succ _ _ _ _ (Or.inl rfl)]; rfl

/-- `pack` is the first packet of `packMulti`: the section from its start, cut at 183 bytes. -/
theorem pack_eq (s : Bytes) (pid : UInt16) (cc : UInt8) : pack s pid cc = packed true pid cc (s.take 183) := by
  rw [pack, packMulti_eq]; rfl

theorem take_le_capacity (s : Bytes) : (s.take 183).length ≤ capacity true := List.length_take_le _ _

/-! ## Counters -/

/-- Successive packets of one PID, by their counters. -/
def CcNext (p q : Packet) : Prop := pktCc q.bytes = (pktCc p.bytes + 1) &&& 0x0F

/-- The next counter, whatever the high bits of the running one. -/
theorem cc_next (c : UInt8) : ((c + 1) &&& 0x0F) &&& 0x0F = ((c &&& 0x0F) + 1) &&& 0x0F := by
  revert c; decide

/-- A run of packets whose counters start at `c` and leave the running counter at `c'`. -/
inductive CcRun : UInt8 → List Packet → UInt8 → Prop where
  | nil (c : UInt8) : CcRun c [] c
  | cons {c c' : UInt8} {p : Packet} {ps : List Packet} :
      pktCc p.bytes = c &&& 0x0F → CcRun ((c + 1) &&& 0x0F) ps c' → CcRun c (p :: ps) c'

theorem CcRun.append {c c' c'' : UInt8} {ps qs : List Packet} (h : CcRun c ps c') (h' : CcRun c' qs c'') :
    CcRun c (ps ++ qs) c'' := by
  induction h with
  | nil c => exact h'
  | cons e _ ih => exact .cons e (ih h')

theorem CcRun.isChain {c c' : UInt8} {ps : List Packet} (h : CcRun c ps c') :
    ps.IsChain CcNext ∧ ∀ p ∈ ps.head?, pktCc p.bytes = c &&& 0x0F := by
  induction h with
  | nil c => simp
  | @cons c c' p ps e h ih =>
    refine ⟨ih.1.cons fun q hq => ?_, by simpa using e⟩
    rw [CcNext, ih.2 q hq, e, cc_next]

theorem packLoop_ccRun (pid : UInt16) : ∀ (fuel : ℕ) (first : Bool) (rest : Bytes) (cc : UInt8),
    CcRun cc (packLoop pid fuel first rest cc).1 (packLoop pid fuel first rest cc).2
  | 0, first, rest, cc => .nil cc
  | fuel + 1, first, rest, cc => by
    by_cases h : first = false ∧ rest = []
    · obtain ⟨rfl, rfl⟩ := h
      rw [packLoop_nil]; exact .nil cc
    · rw [packLoop_succ _ _ _ _ (by cases first <;> simp_all)]
      exact .cons (packed_cc (List.length_take_le _ _)) (packLoop_ccRun pid fuel false _ _)

theorem packMulti_ccRun (s : Bytes) (pid : UInt16) (cc : UInt8) :
    CcRun cc (packMulti s pid cc).1 (packMulti s pid cc).2 := packLoop_ccRun pid _ _ _ _

end MyMuxer.Psi
