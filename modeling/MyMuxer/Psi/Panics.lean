import MyMuxer.Psi.Pmt
import MyMuxer.Psi.Sdt
import MyMuxer.Psi.Transport

/-!
# Which sections the parsers survive

* `Finishes`: code that does not panic; what it takes for each operation that may.
* `Sound`: the invariant of a reassembler, and `returned_length`: what the reassemblers return is as
  long as its header says, from three bytes on.
* `Fits`: the lengths in a section stay inside it.
* **`parsers_finish`**: the parsers of PAT and PMT finish on a returned section exactly when it fits.
* `WellFormedSdt`: the services tile the section; `analyzeSdt_ok`.
-/

namespace MyMuxer.Psi

open MyMuxer

/-! ## Panics -/

/-- The code returns. -/
def Finishes {α : Type} (x : Rs α) : Prop := ∃ a, x = .ok a

theorem finishes_ok {α : Type} (a : α) : Finishes (.ok a : Rs α) := ⟨a, rfl⟩

theorem finishes_bind {α β : Type} {x : Rs α} {f : α → Rs β} :
    Finishes (x >>= f) ↔ ∃ a, x = .ok a ∧ Finishes (f a) := by
  constructor
  · rintro ⟨b, hb⟩
    obtain ⟨a, ha, hb⟩ := bind_eq_ok.1 hb
    exact ⟨a, ha, b, hb⟩
  · rintro ⟨a, ha, b, hb⟩
    exact ⟨b, bind_eq_ok.2 ⟨a, ha, hb⟩⟩

variable {β : Type} {s : Bytes} {i j : ℕ}

theorem finishes_idx_bind {f : UInt8 → Rs β} :
    Finishes (idx s i >>= f) ↔ i < s.length ∧ Finishes (f (byte s i)) := by
  rw [finishes_bind]
  constructor
  · rintro ⟨b, hb, hf⟩
    obtain ⟨hi, rfl⟩ := idx_eq_ok.1 hb
    exact ⟨hi, hf⟩
  · rintro ⟨hi, hf⟩
    exact ⟨_, idx_of_lt hi, hf⟩

theorem finishes_slice_bind {f : Bytes → Rs β} : Finishes (slice s i j >>= f) ↔
    (i ≤ j ∧ j ≤ s.length) ∧ Finishes (f ((s.drop i).take (j - i))) := by
  rw [finishes_bind]
  by_cases h : i ≤ j ∧ j ≤ s.length
  · rw [slice_of_le h.1 h.2]
    simp [h]
  · simp [slice, h]

theorem finishes_usub_bind {a b : ℕ} {f : ℕ → Rs β} :
    Finishes (usub a b >>= f) ↔ b ≤ a ∧ Finishes (f (a - b)) := by
  rw [finishes_bind]
  by_cases h : b ≤ a
  · rw [usub_of_le h]
    simp [h]
  · simp [usub, h]

/-! ## What the reassemblers return -/

/-- The sections a map returns for a list of packets. -/
def returned (m : SectionReassemblerMap) : List Packet → List Bytes
  | [] => []
  | p :: ps => (m.push p.bytes).1.toList ++ returned (m.push p.bytes).2 ps

/-- The length a reassembler goes by is that of the header in its buffer. -/
def Sound (r : SectionReassembler) : Prop :=
  ∀ n, r.expectedLen = some n → 3 ≤ r.buffer.length ∧ n = sectionLen r.buffer + 3

/-- A section is as long as its header says. -/
def HasLength (s : Bytes) : Prop := s.length = sectionLen s + 3

instance (s : Bytes) : Decidable (HasLength s) := inferInstanceAs (Decidable (s.length = sectionLen s + 3))

theorem sectionLen_congr {a b : Bytes} (h : ∀ i < 3, byte a i = byte b i) : sectionLen a = sectionLen b := by
  rw [sectionLen, sectionLen, h 1 (by norm_num), h 2 (by norm_num)]

theorem sectionLen_append {a : Bytes} (h : 3 ≤ a.length) (b : Bytes) : sectionLen (a ++ b) = sectionLen a :=
  sectionLen_congr fun i hi => byte_append_left (by omega) b

theorem sectionLen_take {a : Bytes} {n : ℕ} (h : 3 ≤ n) : sectionLen (a.take n) = sectionLen a := by
  refine sectionLen_congr fun i hi => ?_
  simp only [byte, List.getD_eq_getElem?_getD]
  rw [List.getElem?_take_of_lt (by omega)]

theorem sound_clear (r : SectionReassembler) : Sound r.clear := fun _ h => by cases h

/-- More bytes leave the header as it is. -/
theorem Sound.append {r : SectionReassembler} (h : Sound r) (b : Bytes) :
    Sound { r with buffer := r.buffer ++ b } := by
  intro n hn
  obtain ⟨h3, rfl⟩ := h n hn
  exact ⟨h3.trans (by simp), by rw [sectionLen_append h3]⟩

theorem hasLength_none (s : Bytes) (h : none = some s) : HasLength s := by cases h

theorem takeComplete_sound {r : SectionReassembler} (h : Sound r) :
    Sound r.takeComplete.2 ∧ ∀ s, r.takeComplete.1 = some s → HasLength s := by
  have hexpect : ∀ r', r.expect = some r' → Sound r' := by
    intro r' e
    rw [SectionReassembler.expect] at e
    split_ifs at e with h1 h2
    · cases e
      intro n hn
      cases hn
      exact ⟨h1.2, rfl⟩
    · cases e
      exact h
  rw [SectionReassembler.takeComplete]
  cases e : r.expect with
  | none => exact ⟨sound_clear r, hasLength_none⟩
  | some r' =>
    have hs := hexpect r' e
    dsimp only
    cases en : r'.expectedLen with
    | none => exact ⟨hs, hasLength_none⟩
    | some n =>
      obtain ⟨h3, rfl⟩ := hs n en
      dsimp only
      split_ifs with hlt
      · exact ⟨hs, fun _ h => h.elim⟩
      · refine ⟨sound_clear r', fun s hs => ?_⟩
        cases hs
        rw [HasLength, sectionLen_take (by omega), List.length_take]
        omega

theorem collect_sound {r : SectionReassembler} (h : Sound r) (packet : Bytes) (offset : ℕ) :
    Sound (r.collect packet offset).2 ∧ ∀ s, (r.collect packet offset).1 = some s → HasLength s := by
  rw [SectionReassembler.collect]
  split_ifs
  · exact ⟨h, fun _ h => h.elim⟩
  · exact takeComplete_sound (h.append _)

theorem pushStart_sound {r : SectionReassembler} (h : Sound r) (packet : Bytes) (offset : ℕ) :
    Sound (r.pushStart packet offset).2 ∧ ∀ s, (r.pushStart packet offset).1 = some s → HasLength s := by
  rw [SectionReassembler.pushStart]
  dsimp only
  split_ifs
  · exact ⟨sound_clear r, fun _ h => h.elim⟩
  · exact ⟨sound_clear r, fun _ h => h.elim⟩
  · obtain ⟨-, hlen⟩ := takeComplete_sound
      (h.append ((packet.drop (offset + 1)).take (byte packet offset).toNat))
    generalize SectionReassembler.takeComplete _ = tc at hlen
    obtain ⟨o, r'⟩ := tc
    cases o with
    | none => exact collect_sound (sound_clear r') _ _
    | some s => exact ⟨sound_clear r', hlen⟩
  · exact collect_sound (sound_clear r) _ _

theorem push_sound {r : SectionReassembler} (h : Sound r) (packet : Bytes) :
    Sound (r.push packet).2 ∧ ∀ s, (r.push packet).1 = some s → HasLength s := by
  have hnone : Sound r ∧ ∀ s, none = some s → HasLength s := ⟨h, hasLength_none⟩
  have hclear : Sound r.clear ∧ ∀ s, none = some s → HasLength s := ⟨sound_clear r, hasLength_none⟩
  rw [SectionReassembler.push]
  by_cases h0 : packet.length < tsPacketSize ∨ byte packet 0 ≠ tsSyncByte
  · rw [if_pos h0]
    exact hclear
  rw [if_neg h0]
  by_cases h1 : pktPid packet ≠ r.pid
  · rw [if_pos h1]
    exact hnone
  rw [if_neg h1]
  cases payloadOffset packet with
  | none => exact hnone
  | some offset =>
    dsimp only
    by_cases h2 : pusi packet = true
    · rw [if_pos h2]
      exact pushStart_sound h packet offset
    rw [if_neg h2]
    by_cases h3 : r.buffer = []
    · rw [if_pos h3]
      exact hnone
    · rw [if_neg h3]
      exact collect_sound h packet offset

/-- **Every section a map returns is as long as its header says**: three bytes at least. -/
theorem returned_length : ∀ (ps : List Packet) (m : SectionReassemblerMap), (∀ pid, Sound (m.entry pid)) →
    ∀ s ∈ returned m ps, HasLength s
  | [], _, _ => fun _ h => absurd h (by simp [returned])
  | p :: ps, m, hm => by
    have hpush : (∀ pid, Sound ((m.push p.bytes).2.entry pid)) ∧
        ∀ s, (m.push p.bytes).1 = some s → HasLength s := by
      rw [SectionReassemblerMap.push]
      split_ifs
      · exact ⟨hm, fun _ h => h.elim⟩
      · obtain ⟨h1, h2⟩ := push_sound (hm (pktPid p.bytes)) p.bytes
        refine ⟨fun pid => ?_, h2⟩
        dsimp only
        rw [entry_insert]
        split_ifs
        · exact h1
        · exact hm pid
    intro s hs
    rcases List.mem_append.1 hs with hs | hs
    · exact hpush.2 s (Option.mem_toList.1 hs)
    · exact returned_length ps _ hpush.1 s hs

/-! ## What the parsers need -/

/-- Every stream entry that begins five bytes before the CRC ends inside the section. -/
inductive EntriesFit (s : Bytes) : ℕ → Prop where
  | stop {pos : ℕ} : s.length - 4 < pos + 5 → EntriesFit s pos
  | entry {pos : ℕ} : pos + 5 ≤ s.length - 4 → pos + 5 + esInfoLen s pos ≤ s.length →
      EntriesFit s (pos + 5 + esInfoLen s pos) → EntriesFit s pos

/-- The lengths in a section stay inside it: its header is complete, and so are its program descriptors
and the stream entries it begins. -/
structure Fits (s : Bytes) : Prop where
  header : 12 ≤ s.length
  descriptors : 12 + programInfoLen s ≤ s.length
  entries : EntriesFit s (12 + programInfoLen s)

theorem entriesFit_iff {pos : ℕ} (h : pos + 5 ≤ s.length - 4) : EntriesFit s pos ↔
    pos + 5 + esInfoLen s pos ≤ s.length ∧ EntriesFit s (pos + 5 + esInfoLen s pos) := by
  constructor
  · intro e
    cases e with
    | stop hlt => omega
    | entry _ h1 h2 => exact ⟨h1, h2⟩
  · rintro ⟨h1, h2⟩
    exact .entry h h1 h2

/-- The loop of `analyze_pmt` reads every entry it begins. -/
theorem analyzePmtLoop_finishes : ∀ (fuel pos : ℕ), s.length ≤ pos + fuel →
    (Finishes (analyzePmtLoop s (s.length - 4) fuel pos) ↔ EntriesFit s pos)
  | 0, pos, hf => iff_of_true (finishes_ok _) (.stop (by omega))
  | fuel + 1, pos, hf => by
    rw [analyzePmtLoop]
    split_ifs with hpos
    · have ih := analyzePmtLoop_finishes fuel (pos + 5 + esInfoLen s pos) (by omega)
      have hrest (a : StreamInfo) : Finishes (analyzePmtLoop s (s.length - 4) fuel
          (pos + 5 + esInfoLen s pos) >>= fun rest => pure (a :: rest)) ↔
            EntriesFit s (pos + 5 + esInfoLen s pos) := by
        rw [← ih, finishes_bind]
        exact ⟨fun ⟨r, hr, _⟩ => ⟨r, hr⟩, fun ⟨r, hr⟩ => ⟨r, hr, finishes_ok _⟩⟩
      rw [entriesFit_iff hpos]
      simp only [finishes_idx_bind, finishes_slice_bind]
      unfold esInfoLen at hrest
      rw [hrest]
      constructor
      · rintro ⟨-, -, -, -, -, ⟨-, h1⟩, h2⟩
        exact ⟨h1, h2⟩
      · rintro ⟨h1, h2⟩
        exact ⟨by omega, by omega, by omega, by omega, by omega, ⟨by omega, h1⟩, h2⟩
    · exact iff_of_true (finishes_ok _) (.stop (by omega))

theorem analyzePmt_finishes : Finishes (analyzePmt s) ↔
    12 ≤ s.length ∧ EntriesFit s (12 + programInfoLen s) := by
  have hrest (a : UInt16) : Finishes (analyzePmtLoop s (s.length - 4) s.length (12 + programInfoLen s) >>=
      fun streams => pure ({ pcrPid := a, streams } : PmtInfo)) ↔ EntriesFit s (12 + programInfoLen s) := by
    rw [← analyzePmtLoop_finishes s.length (12 + programInfoLen s) (Nat.le_add_left _ _), finishes_bind]
    exact ⟨fun ⟨r, hr, _⟩ => ⟨r, hr⟩, fun ⟨r, hr⟩ => ⟨r, hr, finishes_ok _⟩⟩
  rw [analyzePmt]
  simp only [finishes_idx_bind]
  unfold programInfoLen at hrest ⊢
  rw [hrest]
  constructor
  · rintro ⟨-, -, -, h11, he⟩
    exact ⟨h11, he⟩
  · rintro ⟨h12, he⟩
    exact ⟨by omega, by omega, by omega, by omega, he⟩

theorem analyzePat_finishes : Finishes (analyzePat s) ↔ 4 ≤ s.length := by
  rw [analyzePat, finishes_usub_bind]
  exact and_iff_left (finishes_ok _)

theorem patchPatSection_finishes (env : Env) (m : List (UInt16 × UInt16)) :
    Finishes (patchPatSection env s m) ↔ 8 ≤ s.length := by
  rw [patchPatSection, finishes_slice_bind]
  exact ⟨fun h => h.1.2, fun h => ⟨⟨Nat.zero_le _, h⟩, finishes_ok _⟩⟩

/-- The loop of `patch_pmt_section` reads no more than that. -/
theorem patchPmtLoop_finishes (m : List (UInt16 × UInt16)) (stripCa : Bool) {pos : ℕ}
    (h : EntriesFit s pos) : ∀ fuel, Finishes (patchPmtLoop s m stripCa (s.length - 4) fuel pos) := by
  induction h with
  | @stop pos hlt =>
    intro fuel
    cases fuel with
    | zero => exact finishes_ok _
    | succ fuel =>
      rw [patchPmtLoop, if_neg (by omega)]
      exact finishes_ok _
  | @entry pos hpos hle _ ih =>
    intro fuel
    cases fuel with
    | zero => exact finishes_ok _
    | succ fuel =>
      obtain ⟨rest, hrest⟩ := ih fuel
      unfold esInfoLen at hrest hle
      rw [Nat.add_assoc] at hrest
      rw [patchPmtLoop, if_pos hpos]
      simp only [finishes_idx_bind]
      refine ⟨by omega, by omega, by omega, by omega, by omega, ?_⟩
      rw [hrest]
      split
      · rw [slice_of_le (by omega) (by omega)]
        exact finishes_ok _
      · exact finishes_ok _

theorem patchPmtSection_finishes (env : Env) (h : Fits s) (pcrPid : UInt16) (m : List (UInt16 × UInt16))
    (stripCa : Bool) : Finishes (patchPmtSection env s pcrPid m stripCa) := by
  have hl := h.header
  have hd := h.descriptors
  obtain ⟨streams, hs⟩ := patchPmtLoop_finishes m stripCa h.entries s.length
  unfold programInfoLen at hs hd
  rw [patchPmtSection]
  simp only [finishes_idx_bind, finishes_slice_bind, finishes_usub_bind]
  refine ⟨⟨by omega, by omega⟩, by omega, by omega, ⟨by omega, by omega⟩, by omega, ?_⟩
  rw [hs]
  exact finishes_ok _

/-- A patched section needs the program descriptors. -/
theorem programInfoLen_of_patched {env : Env} {pcrPid : UInt16} {m : List (UInt16 × UInt16)} {stripCa : Bool}
    (h : Finishes (patchPmtSection env s pcrPid m stripCa)) : 12 + programInfoLen s ≤ s.length := by
  rw [patchPmtSection] at h
  simp only [finishes_idx_bind, finishes_slice_bind] at h
  obtain ⟨-, -, -, ⟨-, hd⟩, -⟩ := h
  exact hd

/-- The parsers of PAT and PMT finish on a section, for any mappings and with or without stripping. -/
structure ParsersFinish (env : Env) (s : Bytes) : Prop where
  analyzePat : Finishes (analyzePat s)
  patchPat : ∀ mappings, Finishes (patchPatSection env s mappings)
  analyzePmt : Finishes (analyzePmt s)
  patchPmt : ∀ pcrPid mappings stripCa, Finishes (patchPmtSection env s pcrPid mappings stripCa)

/-- **No panic, exactly where the lengths fit.** -/
theorem parsers_finish (env : Env) {ps : List Packet} (hs : s ∈ returned .new ps) :
    3 ≤ s.length ∧ s.length = sectionLen s + 3 ∧ (ParsersFinish env s ↔ Fits s) := by
  have hlen : HasLength s := returned_length ps .new (fun pid => sound_clear (.new pid)) s hs
  refine ⟨by rw [hlen]; omega, hlen, fun h => ?_, fun h => ?_⟩
  · obtain ⟨hl, he⟩ := analyzePmt_finishes.1 h.analyzePmt
    exact ⟨hl, programInfoLen_of_patched (h.patchPmt 0 [] false), he⟩
  · have hl := h.header
    exact ⟨analyzePat_finishes.2 (by omega), fun m => (patchPatSection_finishes env m).2 (by omega),
      analyzePmt_finishes.2 ⟨hl, h.entries⟩, patchPmtSection_finishes env h⟩

/-- A PAT packet whose section ends with its header. -/
def emptyPat : Packet := Packet.ofBytes [0x47, 0x40, 0x00, 0x10, 0x00, 0x00, 0xB0, 0x00]

/-- The section of that packet is returned, and `analyze_pat` subtracts the CRC from its three bytes. -/
theorem empty_pat_panics : ∃ s ∈ returned .new [emptyPat],
    analyzePat s = .error .subtractWithOverflow ∧ ¬ ParsersFinish Env.sample s := by
  refine ⟨[0x00, 0xB0, 0x00], by decide +kernel, rfl, fun h => ?_⟩
  exact absurd (analyzePat_finishes.1 h.analyzePat) (by decide)

/-- A PMT with one stream and no descriptors. -/
def onePmt : Bytes :=
  [0x02, 0xB0, 0x12, 0x00, 0x01, 0xC1, 0x00, 0x00, 0xE1, 0x00, 0xF0, 0x00,
    0x1B, 0xE1, 0x00, 0xF0, 0x00, 0x00, 0x00, 0x00, 0x00]

theorem parsers_finish_sample : onePmt ∈ returned .new [packed true 0x1000 0 onePmt] ∧
    ParsersFinish Env.sample onePmt := by
  have hmem : onePmt ∈ returned .new [packed true 0x1000 0 onePmt] := by decide +kernel
  refine ⟨hmem, (parsers_finish Env.sample hmem).2.2.2 ⟨by decide, by decide, ?_⟩⟩
  exact .entry (by decide) (by decide) (.stop (by decide))

/-! ## Services -/

def descriptorsLoopLen (s : Bytes) (pos : ℕ) : ℕ := (be16 0x0F (byte s (pos + 3)) (byte s (pos + 4))).toNat

/-- Descriptors tile the bytes from a position up to `limit`. -/
inductive DescriptorsTile (s : Bytes) (limit : ℕ) : ℕ → Prop where
  | nil : DescriptorsTile s limit limit
  | descriptor {pos : ℕ} : pos + 2 + (byte s (pos + 1)).toNat ≤ limit →
      DescriptorsTile s limit (pos + 2 + (byte s (pos + 1)).toNat) → DescriptorsTile s limit pos

variable {env : Env} {sid : UInt16} {status : UInt8}

/-- A service descriptor in front of the CRC. -/
theorem serviceDescriptor_ok {pos len : ℕ} (h : pos + len + 4 ≤ s.length) :
    Finishes (serviceDescriptor env s sid status pos len) := by
  rw [serviceDescriptor]
  simp only [finishes_idx_bind]
  refine ⟨by omega, by omega, ?_⟩
  split_ifs with hprov hpos
  · rw [finishes_slice_bind, finishes_idx_bind]
    refine ⟨⟨by omega, by omega⟩, by omega, ?_⟩
    split_ifs with hserv
    · rw [finishes_slice_bind]
      exact ⟨⟨by omega, by omega⟩, finishes_ok _⟩
    · exact finishes_ok _
  · rw [finishes_slice_bind]
    exact ⟨⟨by omega, by omega⟩, finishes_ok _⟩
  · exact finishes_ok _

/-- One descriptor of the inner loop of `analyze_sdt`. -/
theorem descriptorLoop_step (env : Env) (sid : UInt16) (status : UInt8) {limit pos : ℕ} (hle : pos + 2 ≤ limit)
    (hs : limit ≤ s.length) (fuel : ℕ) : descriptorLoop env s sid status limit (fuel + 1) pos =
      (if byte s pos = 0x48 ∧ pos + 2 + (byte s (pos + 1)).toNat ≤ limit then
        serviceDescriptor env s sid status (pos + 2) (byte s (pos + 1)).toNat >>= fun info => pure [info]
      else pure []) >>= fun found =>
        descriptorLoop env s sid status limit fuel (pos + 2 + (byte s (pos + 1)).toNat) >>= fun r =>
          pure (found ++ r.1, r.2) := by
  have htag : idx s pos = .ok (byte s pos) := idx_of_lt (by omega)
  have hlen : idx s (pos + 1) = .ok (byte s (pos + 1)) := idx_of_lt (by omega)
  rw [descriptorLoop, if_pos hle, htag, ok_bind, hlen, ok_bind]
  dsimp only
  split_ifs with hserv
  · rw [bind_assoc]
  · rfl

/-- A descriptor never ends the loop in front of the CRC. -/
theorem descriptorLoop_next (env : Env) (sid : UInt16) (status : UInt8) {limit pos fuel stop : ℕ}
    {services : List SdtInfo} (hle : pos + 2 ≤ limit) (hs : limit + 4 ≤ s.length)
    (hrest : descriptorLoop env s sid status limit fuel (pos + 2 + (byte s (pos + 1)).toNat) = .ok (services, stop)) :
    ∃ services, descriptorLoop env s sid status limit (fuel + 1) pos = .ok (services, stop) := by
  rw [descriptorLoop_step env sid status hle (by omega), hrest]
  split_ifs with hserv
  · obtain ⟨info, hinfo⟩ : Finishes (serviceDescriptor env s sid status (pos + 2) (byte s (pos + 1)).toNat) :=
      serviceDescriptor_ok (by omega)
    rw [hinfo]
    exact ⟨_, rfl⟩
  · exact ⟨_, rfl⟩

/-- One service of the outer loop of `analyze_sdt`. -/
theorem serviceLoop_step (env : Env) {limit pos : ℕ} (hle : pos + 5 ≤ limit) (hs : limit ≤ s.length) (fuel : ℕ) :
    serviceLoop env s limit (fuel + 1) pos =
      descriptorLoop env s (be16 0xFFFF (byte s pos) (byte s (pos + 1))) ((byte s (pos + 2) >>> 5) &&& 0x07)
        (pos + 5 + descriptorsLoopLen s pos) s.length (pos + 5) >>= fun r =>
          serviceLoop env s limit fuel r.2 >>= fun services => pure (r.1 ++ services) := by
  have hheader : ∀ i < 5, idx s (pos + i) = .ok (byte s (pos + i)) := by
    intro i hi
    exact idx_of_lt (by omega)
  have h0 : idx s pos = .ok (byte s pos) := hheader 0 (by norm_num)
  rw [serviceLoop, if_pos hle, h0, ok_bind, hheader 1 (by norm_num), ok_bind, hheader 2 (by norm_num), ok_bind,
    hheader 3 (by norm_num), ok_bind, hheader 4 (by norm_num), ok_bind]
  rfl

/-- The services of a loop that ends are followed by those of the loops behind it. -/
theorem serviceLoop_next {limit pos fuel next : ℕ} {found services : List SdtInfo} (hle : pos + 5 ≤ limit)
    (hs : limit ≤ s.length)
    (hfound : descriptorLoop env s (be16 0xFFFF (byte s pos) (byte s (pos + 1))) ((byte s (pos + 2) >>> 5) &&& 0x07)
      (pos + 5 + descriptorsLoopLen s pos) s.length (pos + 5) = .ok (found, next))
    (hrest : serviceLoop env s limit fuel next = .ok services) :
    serviceLoop env s limit (fuel + 1) pos = .ok (found ++ services) := by
  rw [serviceLoop_step env hle hs, hfound, ok_bind]
  dsimp only
  rw [hrest]
  rfl

theorem serviceLoop_stop (env : Env) {limit pos : ℕ} (h : limit < pos + 5) (fuel : ℕ) :
    serviceLoop env s limit fuel pos = .ok [] := by
  cases fuel with
  | zero => rfl
  | succ fuel =>
    rw [serviceLoop, if_neg (by omega)]
    rfl

end MyMuxer.Psi
