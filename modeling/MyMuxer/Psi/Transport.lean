import MyMuxer.Psi.Packing

/-!
# Sections over a lossy, interleaved stream

Sections are packed one after another on one PID, continuation packets get lost, packets of other
PIDs come in between, and the receiver pushes what is left through a `SectionReassemblerMap`.

* `PsiSection`: a byte string whose `section_length` is its length minus 3.
* `Loses ps ks`: `ks` is `ps` without some packets that do not set PUSI.
* `feed`: the sections a single reassembler returns; `feed_hopeless`, `feed_rest`, `feed_section`:
  what one section's packets return, whole or not.
* **`sections_survive`**: exactly the sections none of whose packets was lost come out, in order.
-/

namespace MyMuxer.Psi

open MyMuxer

/-- A section: three bytes at least, and its `section_length` counts the bytes after them. -/
structure PsiSection where
  bytes : Bytes
  three_le : 3 ≤ bytes.length
  sectionLen_eq : sectionLen bytes = bytes.length - 3

/-- Sections packed one after another, one list of packets for each, sharing the counter. -/
def packAll (pid : UInt16) : UInt8 → List PsiSection → List (List Packet)
  | _, [] => []
  | cc, s :: ss => (packMulti s.bytes pid cc).1 :: packAll pid (packMulti s.bytes pid cc).2 ss

/-- Loss of packets that do not set PUSI. -/
inductive Loses : List Packet → List Packet → Prop where
  | nil : Loses [] []
  | keep (p : Packet) {ps ks : List Packet} : Loses ps ks → Loses (p :: ps) (p :: ks)
  | drop {p : Packet} {ps ks : List Packet} : pusi p.bytes = false → Loses ps ks → Loses (p :: ps) ks

theorem Loses.refl (ps : List Packet) : Loses ps ps := by
  induction ps with
  | nil => exact .nil
  | cons p ps ih => exact .keep p ih

theorem Loses.length_le {ps ks : List Packet} (h : Loses ps ks) : ks.length ≤ ps.length := by
  induction h with
  | nil => exact le_rfl
  | keep _ _ ih => exact Nat.succ_le_succ ih
  | drop _ _ ih => exact ih.trans (Nat.le_succ _)

theorem Loses.subset {ps ks : List Packet} (h : Loses ps ks) : ∀ p ∈ ks, p ∈ ps := by
  induction h with
  | nil => simp
  | keep p _ ih => intro q hq; rcases List.mem_cons.1 hq with rfl | hq <;> simp [*]
  | drop _ _ ih => intro q hq; exact List.mem_cons_of_mem _ (ih q hq)

/-- The sections a reassembler returns for a list of packets. -/
def feed (r : SectionReassembler) : List Packet → List Bytes × SectionReassembler
  | [] => ([], r)
  | p :: ps => ((r.push p.bytes).1.toList ++ (feed (r.push p.bytes).2 ps).1, (feed (r.push p.bytes).2 ps).2)

theorem feed_append (r : SectionReassembler) (ps qs : List Packet) :
    feed r (ps ++ qs) = ((feed r ps).1 ++ (feed (feed r ps).2 qs).1, (feed (feed r ps).2 qs).2) := by
  induction ps generalizing r with
  | nil => rfl
  | cons p ps ih => simp only [List.cons_append, feed, ih, List.append_assoc]

/-! ## One push -/

variable {r : SectionReassembler} {cc : UInt8} {chunk : Bytes}

theorem payloadOffset_packed {first : Bool} (hc : chunk.length ≤ capacity first) :
    payloadOffset (packed first r.pid cc chunk).bytes = some 4 := by
  rw [payloadOffset, if_neg (by rw [Packet.length_eq]; decide), if_pos (packed_afControl hc)]

/-- A continuation packet adds its payload to a buffer that has begun. -/
theorem push_continuation (cc : UInt8) (hpid : r.pid ≤ 0x1FFF) (hr : r.buffer ≠ []) (hc : chunk.length ≤ 184) :
    r.push (packed false r.pid cc chunk).bytes =
      SectionReassembler.takeComplete { r with buffer := r.buffer ++ padded false chunk } := by
  have hc' : chunk.length ≤ capacity false := hc
  rw [SectionReassembler.push, if_neg (by simp [Packet.length_eq, packed_sync hc', tsPacketSize]),
    if_neg (by rw [packed_pid hpid hc']; simp), payloadOffset_packed hc']
  simp only [packed_pusi hc', Bool.false_eq_true, if_false, if_neg hr, SectionReassembler.collect]
  rw [if_neg (by rw [Packet.length_eq]; decide)]
  congr 2
  exact congrArg (r.buffer ++ ·) (packed_payload hc')

/-- A first packet empties the buffer, whatever it held, and begins a section. -/
theorem push_first (cc : UInt8) (hpid : r.pid ≤ 0x1FFF) (hc : chunk.length ≤ 183) :
    r.push (packed true r.pid cc chunk).bytes = SectionReassembler.takeComplete
      { pid := r.pid, buffer := padded true chunk, expectedLen := none } := by
  have hc' : chunk.length ≤ capacity true := hc
  have hptr : (byte (packed true r.pid cc chunk).bytes 4).toNat = 0 := by
    rw [packed_byte hc' (by decide)]; rfl
  rw [SectionReassembler.push, if_neg (by simp [Packet.length_eq, packed_sync hc', tsPacketSize]),
    if_neg (by rw [packed_pid hpid hc']; simp), payloadOffset_packed hc']
  simp only [packed_pusi hc', if_true, SectionReassembler.pushStart, hptr]
  rw [if_neg (by rw [Packet.length_eq]; decide), if_neg (by rw [Packet.length_eq]; decide),
    if_neg (by simp), SectionReassembler.collect, if_neg (by rw [Packet.length_eq]; decide)]
  congr 2
  exact (packed_payload hc' : (packed true r.pid cc chunk).bytes.drop (188 - capacity true) = _)

theorem takeComplete_short {n : ℕ} (he : r.expectedLen = some n) (hn : r.buffer.length < n) :
    r.takeComplete = (none, r) := by
  simp [SectionReassembler.takeComplete, SectionReassembler.expect, he, hn]

theorem takeComplete_full {n : ℕ} (he : r.expectedLen = some n) (hn : n ≤ r.buffer.length) :
    r.takeComplete = (some (r.buffer.take n), r.clear) := by
  simp [SectionReassembler.takeComplete, SectionReassembler.expect, he, Nat.not_lt.2 hn]

/-- With three bytes of a section, the length is that of its header. -/
theorem takeComplete_header (he : r.expectedLen = none) (h3 : 3 ≤ r.buffer.length) :
    r.takeComplete = SectionReassembler.takeComplete
      { r with expectedLen := some (sectionLen r.buffer + 3) } := by
  have := sectionLen_lt r.buffer
  simp only [SectionReassembler.takeComplete, SectionReassembler.expect, he]
  rw [if_pos (by simpa using h3), if_neg (by omega), if_neg (by simp)]

/-! ## The packets of one section -/

/-- **A lost packet is never made up by padding**: with too few packets left, none completes. -/
theorem feed_hopeless {n : ℕ} : ∀ (ks : List Packet) (r : SectionReassembler), r.pid ≤ 0x1FFF →
    r.buffer ≠ [] → r.expectedLen = some n → r.buffer.length + 184 * ks.length < n →
    (∀ p ∈ ks, ∃ c chunk, chunk.length ≤ 184 ∧ p = packed false r.pid c chunk) →
    (feed r ks).1 = [] ∧ (feed r ks).2.pid = r.pid
  | [], r, _, _, _, _, _ => ⟨rfl, rfl⟩
  | p :: ks, r, hpid, hr, he, hn, hp => by
    obtain ⟨c, chunk, hc, rfl⟩ := hp p (by simp)
    have hlen : (padded false chunk).length = capacity false := padded_length hc
    have hcap : capacity false = 184 := rfl
    rw [List.length_cons] at hn
    have hshort : (r.buffer ++ padded false chunk).length < n := by
      rw [List.length_append, hlen]; omega
    have hpush := push_continuation c hpid hr hc
    rw [takeComplete_short (by exact he) (by exact hshort)] at hpush
    have ih := feed_hopeless (n := n) ks { r with buffer := r.buffer ++ padded false chunk } hpid
      (by simp [hr]) he (by rw [List.length_append, hlen]; omega) fun q hq => hp q (by simp [hq])
    simp only [feed, hpush]
    exact ⟨by simpa using ih.1, ih.2⟩

/-- The packets after the first of a section of which nothing is lost yet. -/
theorem feed_rest : ∀ (fuel : ℕ) (rest : Bytes) (cc : UInt8) (r : SectionReassembler)
    (ks : List Packet), r.pid ≤ 0x1FFF → r.buffer ≠ [] → rest ≠ [] → rest.length ≤ fuel →
    r.expectedLen = some (r.buffer.length + rest.length) →
    Loses (packLoop r.pid fuel false rest cc).1 ks →
    (feed r ks).1 = (if ks = (packLoop r.pid fuel false rest cc).1 then [r.buffer ++ rest] else []) ∧
      (feed r ks).2.pid = r.pid
  | 0, rest, cc, r, ks, _, _, hrest, hf, _, _ => by
    exact absurd (List.length_eq_zero_iff.1 (Nat.le_zero.1 hf)) hrest
  | fuel + 1, rest, cc, r, ks, hpid, hr, hrest, hf, he, hl => by
    have hcap : capacity false = 184 := rfl
    have hpos := List.length_pos_iff.2 hrest
    have hlen := packLoop_length r.pid (fuel + 1) rest cc hrest
    have hcont : ∀ p ∈ (packLoop r.pid (fuel + 1) false rest cc).1,
        ∃ c chunk, chunk.length ≤ 184 ∧ p = packed false r.pid c chunk := by
      intro p hp
      obtain ⟨f, c, chunk, hc, hf, e⟩ := mem_packLoop _ _ _ _ hp
      obtain rfl := hf rfl
      exact ⟨c, chunk, hc, e⟩
    rw [packLoop_succ _ _ _ _ (Or.inr hrest)] at hl hlen hcont ⊢
    simp only [hcap] at hl hlen hcont ⊢
    cases hl with
    | drop _ hl =>
      -- the first of these packets is lost: the others cannot fill the section
      have hk := hl.length_le
      rw [List.length_cons] at hlen
      obtain ⟨h1, h2⟩ := feed_hopeless ks r hpid hr he (by omega)
        fun p hp => hcont p (List.mem_cons_of_mem _ (hl.subset p hp))
      refine ⟨?_, h2⟩
      rw [h1, if_neg]
      rintro rfl
      simp only [List.length_cons] at hk
      omega
    | @keep _ _ ks hl =>
      have hc : (rest.take 184).length ≤ 184 := List.length_take_le _ _
      have hpush := push_continuation cc hpid hr hc
      have hpad : (padded false (rest.take 184)).length = capacity false := padded_length hc
      by_cases hlong : 184 < rest.length
      · -- a full packet, with more to come
        have htake : padded false (rest.take 184) = rest.take 184 := by
          simp [padded, hcap, Nat.min_eq_left hlong.le]
        rw [htake, takeComplete_short (by exact he) (by simp; omega)] at hpush
        have hsum : r.buffer.length + rest.length = (r.buffer ++ rest.take 184).length +
            (rest.drop 184).length := by simp; omega
        obtain ⟨h1, h2⟩ := feed_rest fuel (rest.drop 184) ((cc + 1) &&& 0x0F)
          { r with buffer := r.buffer ++ rest.take 184 } ks hpid (by simp [hr])
          (by simp [hlong]) (by simp; omega) (by rw [he, hsum]) hl
        simp only [feed, hpush]
        refine ⟨?_, h2⟩
        rw [h1]
        simp [List.append_assoc]
      · -- the last packet of the section
        have hdrop : rest.drop 184 = [] := List.drop_eq_nil_iff.2 (by omega)
        have htake : rest.take 184 = rest := List.take_of_length_le (by omega)
        rw [hdrop, packLoop_nil] at hl ⊢
        cases hl
        rw [takeComplete_full (by exact he) (by simp [hpad, hcap]; omega)] at hpush
        simp only [feed, hpush]
        refine ⟨?_, rfl⟩
        rw [htake]
        simp [padded, ← List.append_assoc]

/-- **The packets of one section** return it when none is lost, and nothing otherwise. -/
theorem feed_section (s : PsiSection) (cc : UInt8) (r : SectionReassembler) (ks : List Packet)
    (hpid : r.pid ≤ 0x1FFF) (hl : Loses (packMulti s.bytes r.pid cc).1 ks) :
    (feed r ks).1 = (if ks = (packMulti s.bytes r.pid cc).1 then [s.bytes] else []) ∧
      (feed r ks).2.pid = r.pid := by
  have h3 := s.three_le
  have hlen := s.sectionLen_eq
  have hc : (s.bytes.take 183).length ≤ 183 := List.length_take_le _ _
  have hpad : (padded true (s.bytes.take 183)).length = capacity true := padded_length hc
  have hcap : capacity true = 183 := rfl
  rw [packMulti_eq] at hl ⊢
  have hpush := push_first cc hpid hc
  have hbyte : ∀ i < 3, byte (padded true (s.bytes.take 183)) i = byte s.bytes i := by
    intro i hi
    simp only [padded, byte, List.getD_eq_getElem?_getD]
    rw [List.getElem?_append_left (by simp; omega), List.getElem?_take_of_lt (by omega)]
  have hhead : sectionLen (padded true (s.bytes.take 183)) + 3 = s.bytes.length := by
    have : sectionLen (padded true (s.bytes.take 183)) = sectionLen s.bytes := by
      rw [sectionLen, hbyte 1 (by norm_num), hbyte 2 (by norm_num)]; rfl
    omega
  rw [takeComplete_header rfl (by simp [hpad, hcap]), hhead] at hpush
  cases hl with
  | drop h _ => rw [packed_pusi (take_le_capacity _)] at h; exact absurd h (by decide)
  | @keep _ _ ks hl =>
    by_cases hlong : 183 < s.bytes.length
    · have htake : padded true (s.bytes.take 183) = s.bytes.take 183 := by
        simp [padded, hcap, Nat.min_eq_left hlong.le]
      rw [htake, takeComplete_short rfl (by simp; omega)] at hpush
      have hsum : s.bytes.length = (s.bytes.take 183).length + (s.bytes.drop 183).length := by
        simp; omega
      obtain ⟨h1, h2⟩ := feed_rest s.bytes.length (s.bytes.drop 183) ((cc + 1) &&& 0x0F)
        { pid := r.pid, buffer := s.bytes.take 183, expectedLen := some s.bytes.length } ks hpid
        (by simp [← List.length_pos_iff]; omega) (by simp [hlong]) (by simp)
        (by rw [hsum]) hl
      simp only [feed, hpush]
      refine ⟨?_, h2⟩
      rw [h1]
      simp
    · have hdrop : s.bytes.drop 183 = [] := List.drop_eq_nil_iff.2 (by omega)
      have htake : s.bytes.take 183 = s.bytes := List.take_of_length_le (by omega)
      rw [hdrop, packLoop_nil] at hl ⊢
      cases hl
      rw [takeComplete_full rfl (by simp [hpad, hcap]; omega)] at hpush
      simp only [feed, hpush]
      refine ⟨?_, rfl⟩
      rw [htake]
      simp [padded]

/-- A section that is packed and pushed comes back. -/
theorem feed_packMulti (s : PsiSection) (cc : UInt8) {r : SectionReassembler} (hpid : r.pid ≤ 0x1FFF) :
    (feed r (packMulti s.bytes r.pid cc).1).1 = [s.bytes] := by
  rw [(feed_section s cc r _ hpid (Loses.refl _)).1, if_pos rfl]

/-! ## Many sections, one after another -/

/-- The sections none of whose packets was lost. -/
def intact : List PsiSection → List (List Packet) → List (List Packet) → List Bytes
  | s :: ss, ps :: pss, ks :: kss => (if ks = ps then [s.bytes] else []) ++ intact ss pss kss
  | _, _, _ => []

theorem feed_sections {pid : UInt16} (hpid : pid ≤ 0x1FFF) : ∀ (ss : List PsiSection) (cc : UInt8)
    (r : SectionReassembler) (kept : List (List Packet)), r.pid = pid →
    List.Forall₂ Loses (packAll pid cc ss) kept →
    (feed r kept.flatten).1 = intact ss (packAll pid cc ss) kept
  | [], cc, r, kept, _, hk => by
    cases hk; rfl
  | s :: ss, cc, r, kept, hr, hk => by
    obtain rfl := hr
    cases hk with
    | @cons _ ks _ kept hl hk =>
      obtain ⟨h1, h2⟩ := feed_section s cc r ks hpid hl
      rw [List.flatten_cons, feed_append, packAll, intact, h1,
        feed_sections hpid ss _ _ kept h2 hk]

theorem packAll_ccRun (pid : UInt16) : ∀ (ss : List PsiSection) (cc : UInt8),
    ∃ cc', CcRun cc (packAll pid cc ss).flatten cc'
  | [], cc => ⟨cc, .nil cc⟩
  | s :: ss, cc => by
    obtain ⟨cc', h⟩ := packAll_ccRun pid ss (packMulti s.bytes pid cc).2
    exact ⟨cc', by rw [packAll, List.flatten_cons]; exact (packMulti_ccRun s.bytes pid cc).append h⟩

theorem mem_packAll {pid : UInt16} {p : Packet} : ∀ {ss : List PsiSection} {cc : UInt8},
    p ∈ (packAll pid cc ss).flatten → ∃ f c chunk, chunk.length ≤ capacity f ∧ p = packed f pid c chunk
  | [], cc, h => by simp [packAll] at h
  | s :: ss, cc, h => by
    rw [packAll, List.flatten_cons, List.mem_append] at h
    rcases h with h | h
    · exact mem_packMulti h
    · exact mem_packAll h

/-! ## Other PIDs in between -/

/-- The sections a map returns for packets of `pid` when a stream is pushed through it. -/
def sectionsOf (pid : UInt16) (m : SectionReassemblerMap) : List Packet → List Bytes
  | [] => []
  | p :: ps => (if pktPid p.bytes = pid then (m.push p.bytes).1.toList else []) ++
      sectionsOf pid (m.push p.bytes).2 ps

theorem entry_insert (m : SectionReassemblerMap) (pid pid' : UInt16) (r : SectionReassembler) :
    (m.insert pid' r).entry pid = if pid = pid' then r else m.entry pid := by
  by_cases h : pid = pid'
  · subst h; simp [SectionReassemblerMap.insert, SectionReassemblerMap.entry]
  · simp [SectionReassemblerMap.insert, SectionReassemblerMap.entry, h]

/-- A packet of another PID leaves the reassembler of `pid` alone. -/
theorem push_entry_ne {m : SectionReassemblerMap} {pid : UInt16} {p : Bytes} (h : pktPid p ≠ pid) :
    (m.push p).2.entry pid = m.entry pid := by
  rw [SectionReassemblerMap.push]
  split_ifs
  · rfl
  · exact (entry_insert _ _ _ _).trans (if_neg (Ne.symm h))

theorem push_entry_eq {m : SectionReassemblerMap} {p : Packet} (h : byte p.bytes 0 = tsSyncByte) :
    (m.push p.bytes).1 = ((m.entry (pktPid p.bytes)).push p.bytes).1 ∧
      (m.push p.bytes).2.entry (pktPid p.bytes) = ((m.entry (pktPid p.bytes)).push p.bytes).2 := by
  rw [SectionReassemblerMap.push, if_neg (by simp [Packet.length_eq, tsPacketSize, h])]
  exact ⟨rfl, (entry_insert _ _ _ _).trans (if_pos rfl)⟩

/-- **A map is one reassembler for each PID**: what it returns for `pid` depends on the packets of
`pid` alone. -/
theorem sectionsOf_eq_feed {pid : UInt16} : ∀ (stream : List Packet) (m : SectionReassemblerMap),
    (∀ p ∈ stream, pktPid p.bytes = pid → byte p.bytes 0 = tsSyncByte) →
    sectionsOf pid m stream =
      (feed (m.entry pid) (stream.filter fun p => pktPid p.bytes = pid)).1
  | [], _, _ => rfl
  | p :: stream, m, h => by
    have ih := sectionsOf_eq_feed stream (m.push p.bytes).2 fun q hq => h q (by simp [hq])
    by_cases hp : pktPid p.bytes = pid
    · obtain ⟨h1, h2⟩ := push_entry_eq (m := m) (h p (by simp) hp)
      rw [hp] at h1 h2
      rw [sectionsOf, if_pos hp, ih, List.filter_cons_of_pos (by simpa using hp), feed, h1, h2]
    · rw [sectionsOf, if_neg hp, ih, List.filter_cons_of_neg (by simpa using hp), push_entry_ne hp]
      rfl

/-- **Loss and interleaving.** Of the sections packed one after another on `pid`, exactly those
none of whose packets was lost come out of the map, in order, whatever the reassembler of `pid` held
and whatever other PIDs send in between; and the packets were numbered one after another. -/
theorem sections_survive (pid : UInt16) (hpid : pid ≤ 0x1FFF) (cc : UInt8) (ss : List PsiSection)
    (m : SectionReassemblerMap) (hm : (m.entry pid).pid = pid) (kept : List (List Packet))
    (hk : List.Forall₂ Loses (packAll pid cc ss) kept) (stream : List Packet)
    (hs : (stream.filter fun p => pktPid p.bytes = pid) = kept.flatten) :
    sectionsOf pid m stream = intact ss (packAll pid cc ss) kept ∧
      (packAll pid cc ss).flatten.IsChain CcNext ∧
      ∀ p ∈ (packAll pid cc ss).flatten.head?, pktCc p.bytes = cc &&& 0x0F := by
  have hsync : ∀ p ∈ stream, pktPid p.bytes = pid → byte p.bytes 0 = tsSyncByte := by
    intro p hp hpp
    have hmem : p ∈ kept.flatten := by rw [← hs]; simp [hp, hpp]
    obtain ⟨ks, hks, hp⟩ := List.mem_flatten.1 hmem
    obtain ⟨i, hi, rfl⟩ := List.getElem_of_mem hks
    have hl := (List.forall₂_iff_get.1 hk).2 i (by rw [hk.length_eq]; exact hi) hi
    have hin : p ∈ (packAll pid cc ss).flatten :=
      List.mem_flatten.2 ⟨_, List.get_mem _ _, hl.subset p hp⟩
    obtain ⟨f, c, chunk, hc, rfl⟩ := mem_packAll hin
    exact packed_sync hc
  obtain ⟨cc', hrun⟩ := packAll_ccRun pid ss cc
  refine ⟨?_, hrun.isChain⟩
  rw [sectionsOf_eq_feed stream m hsync, hs, feed_sections hpid ss cc _ kept hm hk]

/-- A section without a body. -/
def emptySection : PsiSection := ⟨[0x42, 0x70, 0x00], by decide, by decide⟩

/-- A section of two packets. -/
def longSection : PsiSection :=
  ⟨[0x42, 0x70, 0xC5] ++ List.replicate 197 0x00, by decide +kernel, by decide +kernel⟩

/-- The packets of three sections. -/
def samplePackets : List (List Packet) :=
  [[packed true 0x11 5 emptySection.bytes],
    [packed true 0x11 6 (longSection.bytes.take 183), packed false 0x11 7 (longSection.bytes.drop 183)],
    [packed true 0x11 8 emptySection.bytes]]

/-- What is left of them when the last packet of the second section is lost. -/
def sampleKept : List (List Packet) := samplePackets.map (·.take 1)

/-- That loss, with null packets in between: the first and the third section come out. -/
theorem sections_survive_sample :
    sectionsOf 0x11 .new (sampleKept.flatMap fun ks => tsNullPacket :: ks) =
        [emptySection.bytes, emptySection.bytes] ∧
      (packAll 0x11 5 [emptySection, longSection, emptySection]).flatten.IsChain CcNext := by
  have hpack : packAll 0x11 5 [emptySection, longSection, emptySection] = samplePackets := by
    decide +kernel
  have hpusi : pusi (packed false 0x11 7 (longSection.bytes.drop 183)).bytes = false := by decide +kernel
  have hk : List.Forall₂ Loses (packAll 0x11 5 [emptySection, longSection, emptySection]) sampleKept := by
    rw [hpack]
    exact .cons (.keep _ .nil) (.cons (.keep _ (.drop hpusi .nil)) (.cons (.keep _ .nil) .nil))
  have h := sections_survive 0x11 (by decide) 5 [emptySection, longSection, emptySection] .new rfl
    sampleKept hk (sampleKept.flatMap fun ks => tsNullPacket :: ks) (by decide +kernel)
  exact ⟨h.1.trans (by decide +kernel), h.2.1⟩

end MyMuxer.Psi
