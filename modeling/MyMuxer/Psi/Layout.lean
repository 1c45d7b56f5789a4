import MyMuxer.Psi.Panics

/-!
# Sections laid out back to back

* `Laid`: packets that carry a list of sections the way ISO/IEC 13818-1 allows: a section may start
  where the previous one ends, a packet in which one starts sets PUSI and points at the first start,
  and after the last section of a packet there is stuffing.
* `OneByOne`: no packet finishes one section and starts another, and none starts two.
* `Heard`: what a reassembler returns for such packets, whether it follows the open section or not.
* **`laid_returned`**: all sections are returned exactly when they are laid out one by one.
-/

namespace MyMuxer.Psi

open MyMuxer

/-! ## Layout -/

/-- A packet of `pid` with this payload, PUSI set or not. -/
structure Carries (pid : UInt16) (p : Packet) (start : Bool) (payload : Bytes) : Prop where
  sync : byte p.bytes 0 = tsSyncByte
  pid : pktPid p.bytes = pid
  pusi : pusi p.bytes = start
  payload : ∃ offset, payloadOffset p.bytes = some offset ∧ p.bytes.drop offset = payload

/-- A packet of `pid` without payload. -/
structure Bare (pid : UInt16) (p : Packet) : Prop where
  sync : byte p.bytes 0 = tsSyncByte
  pid : pktPid p.bytes = pid
  payload : payloadOffset p.bytes = none

def stuffing (n : ℕ) : Bytes := List.replicate n 0xFF

/-- `Laid pid rest starts ps`: the packets `ps` carry `rest`, what is left of the open section, and then
other sections; `starts` lists for each packet the sections that start in it. -/
inductive Laid (pid : UInt16) : Bytes → List (List PsiSection) → List Packet → Prop where
  | nil : Laid pid [] [] []
  | bare {p : Packet} {rest : Bytes} {starts : List (List PsiSection)} {ps : List Packet} :
      Bare pid p → Laid pid rest starts ps → Laid pid rest ([] :: starts) (p :: ps)
  /-- The open section goes on. -/
  | more {p : Packet} {inside rest : Bytes} {n : ℕ} {starts : List (List PsiSection)} {ps : List Packet} :
      Carries pid p false (inside ++ stuffing n) → (rest ≠ [] → n = 0) →
      Laid pid rest starts ps → Laid pid (inside ++ rest) ([] :: starts) (p :: ps)
  /-- The open section ends, and others start, the last of them in this packet too. -/
  | start {p : Packet} {old inside rest : Bytes} {n : ℕ} {init : List PsiSection} {last : PsiSection}
      {starts : List (List PsiSection)} {ps : List Packet} :
      Carries pid p true (UInt8.ofNat old.length :: (old ++ (inside ++ stuffing n))) →
      (init ++ [last]).flatMap PsiSection.bytes = inside ++ rest → rest.length < last.bytes.length →
      (rest ≠ [] → n = 0) →
      Laid pid rest starts ps → Laid pid old ((init ++ [last]) :: starts) (p :: ps)

/-- `pointer_field`. -/
def pointerField (p : Bytes) : ℕ := (payloadOffset p).elim 0 fun offset => (byte p offset).toNat

/-- A packet in which a section starts has nothing before it and nothing but stuffing after it. -/
structure OneByOne (starts : List (List PsiSection)) (ps : List Packet) : Prop where
  pointer : ∀ p ∈ ps, pusi p.bytes = true → pointerField p.bytes = 0
  single : ∀ started ∈ starts, started.length ≤ 1

theorem oneByOne_nil : OneByOne [] [] := ⟨by simp, by simp⟩

theorem oneByOne_cons {p : Packet} {ps : List Packet} {started : List PsiSection}
    {starts : List (List PsiSection)} (hp : pusi p.bytes = true → pointerField p.bytes = 0)
    (hs : started.length ≤ 1) : OneByOne (started :: starts) (p :: ps) ↔ OneByOne starts ps := by
  constructor
  · rintro ⟨h1, h2⟩
    exact ⟨fun q hq => h1 q (List.mem_cons_of_mem _ hq), fun t ht => h2 t (List.mem_cons_of_mem _ ht)⟩
  · rintro ⟨h1, h2⟩
    refine ⟨fun q hq => ?_, fun t ht => ?_⟩
    · rcases List.mem_cons.1 hq with rfl | hq
      · exact hp
      · exact h1 q hq
    · rcases List.mem_cons.1 ht with rfl | ht
      · exact hs
      · exact h2 t ht

/-! ## The reassembler and the open section -/

/-- The reassembler holds the beginning of the open section. -/
structure Follows (pid : UInt16) (s : PsiSection) (rest : Bytes) (r : SectionReassembler) : Prop where
  pid : r.pid = pid
  buffer : r.buffer ≠ []
  bytes : r.buffer ++ rest = s.bytes
  rest : rest ≠ []
  expectedLen : r.expectedLen = none ∨ r.expectedLen = some s.bytes.length

variable {pid : UInt16} {s : PsiSection} {r : SectionReassembler} {p : Packet} {rest payload : Bytes}

theorem PsiSection.hasLength (s : PsiSection) : sectionLen s.bytes + 3 = s.bytes.length := by
  have := s.three_le
  rw [s.sectionLen_eq]
  omega

/-- As long as bytes of the section are missing, nothing is returned. -/
theorem takeComplete_follows (h : Follows pid s rest r) :
    ∃ r', r.takeComplete = (none, r') ∧ Follows pid s rest r' := by
  have hlt : r.buffer.length < s.bytes.length := by
    rw [← h.bytes, List.length_append]
    have := List.length_pos_iff.2 h.rest
    omega
  rcases h.expectedLen with he | he
  · by_cases h3 : 3 ≤ r.buffer.length
    · have hlen : sectionLen r.buffer + 3 = s.bytes.length := by
        rw [← sectionLen_append h3 rest, h.bytes, s.hasLength]
      rw [takeComplete_header he h3, hlen,
        takeComplete_short (r := { r with expectedLen := some s.bytes.length }) rfl hlt]
      exact ⟨_, rfl, h.pid, h.buffer, h.bytes, h.rest, .inr rfl⟩
    · refine ⟨r, ?_, h⟩
      simp [SectionReassembler.takeComplete, SectionReassembler.expect, he, h3]
  · exact ⟨r, takeComplete_short he hlt, h⟩

/-- With all its bytes there, the section is returned, and what follows them is dropped. -/
theorem takeComplete_whole {junk : Bytes} (hp : r.pid = pid) (hb : r.buffer = s.bytes ++ junk)
    (he : r.expectedLen = none ∨ r.expectedLen = some s.bytes.length) :
    r.takeComplete = (some s.bytes, .new pid) := by
  have h3 : 3 ≤ r.buffer.length := by
    rw [hb, List.length_append]
    exact s.three_le.trans (Nat.le_add_right _ _)
  have hn : s.bytes.length ≤ r.buffer.length := by rw [hb, List.length_append]; omega
  have htake : r.buffer.take s.bytes.length = s.bytes := by rw [hb, List.take_left']; rfl
  subst hp
  rcases he with he | he
  · have hlen : sectionLen r.buffer + 3 = s.bytes.length := by
      rw [hb, sectionLen_append s.three_le, s.hasLength]
    rw [takeComplete_header he h3, hlen,
      takeComplete_full (r := { r with expectedLen := some s.bytes.length }) rfl hn, htake]
    rfl
  · rw [takeComplete_full he hn, htake]
    rfl

/-- The rest of the open section completes it. -/
theorem Follows.complete (f : Follows pid s rest r) (junk : Bytes) :
    SectionReassembler.takeComplete { r with buffer := r.buffer ++ (rest ++ junk) } =
      (some s.bytes, .new pid) :=
  takeComplete_whole f.pid (by rw [← List.append_assoc, f.bytes]) f.expectedLen

/-! ## One packet -/

theorem push_carried {start : Bool} (c : Carries pid p start payload) (hp : r.pid = pid) :
    ∃ offset, p.bytes.drop offset = payload ∧ payloadOffset p.bytes = some offset ∧
      r.push p.bytes = if start then r.pushStart p.bytes offset
        else if r.buffer = [] then (none, r) else r.collect p.bytes offset := by
  obtain ⟨offset, ho, hd⟩ := c.payload
  refine ⟨offset, hd, ho, ?_⟩
  rw [SectionReassembler.push, if_neg (by simp [Packet.length_eq, c.sync, tsPacketSize]),
    if_neg (by rw [c.pid, hp]; simp), ho]
  dsimp only
  rw [c.pusi]

theorem push_bare (b : Bare pid p) (hp : r.pid = pid) : r.push p.bytes = (none, r) := by
  rw [SectionReassembler.push, if_neg (by simp [Packet.length_eq, b.sync, tsPacketSize]),
    if_neg (by rw [b.pid, hp]; simp), b.payload]

theorem collect_eq {offset : ℕ} (hd : p.bytes.drop offset = payload) : r.collect p.bytes offset =
    if payload = [] then (none, r)
    else SectionReassembler.takeComplete { r with buffer := r.buffer ++ payload } := by
  rw [SectionReassembler.collect, hd]
  by_cases h : p.bytes.length ≤ offset
  · rw [if_pos h, if_pos (by rw [← hd, List.drop_eq_nil_iff]; exact h)]
  · rw [if_neg h, if_neg (by rw [← hd, List.drop_eq_nil_iff]; exact h)]

/-- A packet in which sections start. A reassembler that follows the open section returns it and drops
the rest; any other takes what comes from the first start on. -/
theorem push_start {old area : Bytes} (c : Carries pid p true (UInt8.ofNat old.length :: (old ++ area)))
    (hp : r.pid = pid) (ha : area ≠ []) : pointerField p.bytes = old.length ∧
      (r.buffer = [] ∨ old = [] →
        r.push p.bytes = SectionReassembler.takeComplete { pid, buffer := area, expectedLen := none }) ∧
      ∀ s, Follows pid s old r → r.push p.bytes = (some s.bytes, .new pid) := by
  obtain ⟨offset, hd, ho, e⟩ := push_carried c hp
  have hlen := congrArg List.length hd
  rw [List.length_drop, p.length_eq, List.length_cons, List.length_append] at hlen
  have hpos := List.length_pos_iff.2 ha
  have hpointer : (byte p.bytes offset).toNat = old.length := by
    have hb : byte p.bytes offset = byte (p.bytes.drop offset) 0 := by simp [byte]
    rw [hb, hd]
    exact UInt8.toNat_ofNat_of_lt' (show old.length < 256 by omega)
  have hold : (p.bytes.drop (offset + 1)).take old.length = old := by
    rw [← List.drop_drop, hd]
    exact List.take_left
  have harea : p.bytes.drop (offset + 1 + old.length) = area := by
    rw [Nat.add_assoc, ← List.drop_drop, hd, Nat.add_comm]
    exact List.drop_left
  rw [e, if_pos rfl, SectionReassembler.pushStart, if_neg (by rw [p.length_eq]; omega)]
  dsimp only
  rw [hpointer, if_neg (by rw [p.length_eq]; omega), hold]
  refine ⟨by rw [pointerField, ho]; exact hpointer, fun hb => ?_, fun s f => ?_⟩
  · rw [if_neg, collect_eq harea, if_neg ha, ← hp]
    · rfl
    · rintro ⟨h1, h2⟩
      exact hb.elim h1 (List.length_pos_iff.1 h2)
  · have hwhole := f.complete []
    rw [List.append_nil] at hwhole
    rw [if_pos ⟨f.buffer, List.length_pos_iff.2 f.rest⟩, hwhole]
    rfl

/-! ## What is heard of a layout -/

/-- What a reassembler returns for packets, with no section begun in its buffer, or following the open
section: at most the sections that are laid out, and all of them exactly where `OneByOne` holds. -/
structure Heard (pid : UInt16) (rest : Bytes) (starts : List (List PsiSection)) (ps : List Packet) : Prop where
  idle_le : (feed (.new pid) ps).1.length ≤ starts.flatten.length
  idle_iff : rest = [] →
    ((feed (.new pid) ps).1 = starts.flatten.map PsiSection.bytes ↔ OneByOne starts ps)
  follows_le : ∀ {r s}, Follows pid s rest r → (feed r ps).1.length ≤ starts.flatten.length + 1
  follows_iff : ∀ {r s}, Follows pid s rest r →
    ((feed r ps).1 = s.bytes :: starts.flatten.map PsiSection.bytes ↔ OneByOne starts ps)

theorem heard_nil : Heard pid [] [] [] where
  idle_le := le_rfl
  idle_iff _ := iff_of_true rfl oneByOne_nil
  follows_le f := absurd rfl f.rest
  follows_iff f := absurd rfl f.rest

theorem heard_bare {starts : List (List PsiSection)} {ps : List Packet} (b : Bare pid p)
    (ih : Heard pid rest starts ps) : Heard pid rest ([] :: starts) (p :: ps) := by
  have hone : OneByOne ([] :: starts) (p :: ps) ↔ OneByOne starts ps :=
    oneByOne_cons (fun _ => by rw [pointerField, b.payload]; rfl) (by simp)
  have hfeed (r : SectionReassembler) (hp : r.pid = pid) : (feed r (p :: ps)).1 = (feed r ps).1 := by
    rw [feed, push_bare b hp]
    rfl
  constructor
  · rw [hfeed _ rfl]
    exact ih.idle_le
  · rw [hfeed _ rfl, hone]
    exact ih.idle_iff
  · intro r s f
    rw [hfeed _ f.pid]
    exact ih.follows_le f
  · intro r s f
    rw [hfeed _ f.pid, hone]
    exact ih.follows_iff f

theorem heard_more {inside : Bytes} {n : ℕ} {starts : List (List PsiSection)} {ps : List Packet}
    (c : Carries pid p false (inside ++ stuffing n)) (hn : rest ≠ [] → n = 0)
    (ih : Heard pid rest starts ps) : Heard pid (inside ++ rest) ([] :: starts) (p :: ps) := by
  have hone : OneByOne ([] :: starts) (p :: ps) ↔ OneByOne starts ps :=
    oneByOne_cons (fun h => by rw [c.pusi] at h; cases h) (by simp)
  have hidle : (feed (.new pid) (p :: ps)).1 = (feed (.new pid) ps).1 := by
    obtain ⟨offset, -, -, e⟩ := push_carried (r := .new pid) c rfl
    rw [feed, e]
    rfl
  -- a reassembler that follows the open section
  have hfollows {r : SectionReassembler} {s : PsiSection} (f : Follows pid s (inside ++ rest) r) :
      (rest = [] ∧ (feed r (p :: ps)).1 = s.bytes :: (feed (.new pid) ps).1) ∨
        ∃ r', Follows pid s rest r' ∧ (feed r (p :: ps)).1 = (feed r' ps).1 := by
    obtain ⟨offset, hd, -, e⟩ := push_carried c f.pid
    rw [if_neg (by decide), if_neg f.buffer, collect_eq hd] at e
    by_cases hp : inside ++ stuffing n = []
    · rw [if_pos hp] at e
      rw [(List.append_eq_nil_iff.1 hp).1, List.nil_append] at f
      exact .inr ⟨r, f, by rw [feed, e]; rfl⟩
    rw [if_neg hp] at e
    by_cases hr : rest = []
    · subst hr
      rw [List.append_nil] at f
      rw [f.complete] at e
      exact .inl ⟨rfl, by rw [feed, e]; rfl⟩
    · rw [hn hr, stuffing, List.replicate_zero, List.append_nil] at e
      have g : Follows pid s rest { r with buffer := r.buffer ++ inside } :=
        ⟨f.pid, by simp [f.buffer], by rw [List.append_assoc]; exact f.bytes, hr, f.expectedLen⟩
      obtain ⟨r', e', g'⟩ := takeComplete_follows g
      rw [e'] at e
      exact .inr ⟨r', g', by rw [feed, e]; rfl⟩
  constructor
  · rw [hidle]
    exact ih.idle_le
  · intro hnil
    rw [hidle, hone]
    exact ih.idle_iff (List.append_eq_nil_iff.1 hnil).2
  · intro r s f
    rcases hfollows f with ⟨-, e⟩ | ⟨r', f', e⟩
    · rw [e]
      exact Nat.succ_le_succ ih.idle_le
    · rw [e]
      exact ih.follows_le f'
  · intro r s f
    rcases hfollows f with ⟨hr, e⟩ | ⟨r', f', e⟩
    · rw [e, hone, ← ih.idle_iff hr]
      exact List.cons_inj_right _
    · rw [e, hone]
      exact ih.follows_iff f'

theorem heard_start {old inside : Bytes} {n : ℕ} {init : List PsiSection} {last : PsiSection}
    {starts : List (List PsiSection)} {ps : List Packet}
    (c : Carries pid p true (UInt8.ofNat old.length :: (old ++ (inside ++ stuffing n))))
    (hs : (init ++ [last]).flatMap PsiSection.bytes = inside ++ rest) (hlt : rest.length < last.bytes.length)
    (hn : rest ≠ [] → n = 0) (ih : Heard pid rest starts ps) :
    Heard pid old ((init ++ [last]) :: starts) (p :: ps) := by
  have hlen := congrArg List.length hs
  rw [List.flatMap_append, List.flatMap_singleton, List.length_append, List.length_append] at hlen
  have ha : inside ++ stuffing n ≠ [] := by
    rw [← List.length_pos_iff, List.length_append]
    omega
  have hcount : (((init ++ [last]) :: starts).flatten).length = init.length + 1 + starts.flatten.length := by
    rw [List.flatten_cons, List.length_append, List.length_append, List.length_singleton]
  -- a reassembler that takes what comes from the first start on
  have hfresh {r : SectionReassembler} (hp : r.pid = pid) (hr : r.buffer = [] ∨ old = []) :
      (∃ t, (feed r (p :: ps)).1 = PsiSection.bytes t :: (feed (.new pid) ps).1 ∧
        (init = [] → t = last ∧ rest = [])) ∨
      (init = [] ∧ ∃ r', Follows pid last rest r' ∧ (feed r (p :: ps)).1 = (feed r' ps).1) := by
    have e := (push_start c hp ha).2.1 hr
    cases init with
    | nil =>
      have hb : inside ++ rest = last.bytes := by simpa using hs.symm
      by_cases hrest : rest = []
      · rw [hrest, List.append_nil] at hb
        have hwhole : SectionReassembler.takeComplete ⟨pid, inside ++ stuffing n, none⟩ =
            (some last.bytes, .new pid) := takeComplete_whole rfl (congrArg (· ++ stuffing n) hb) (.inl rfl)
        rw [hwhole] at e
        exact .inl ⟨last, by rw [feed, e]; rfl, fun _ => ⟨rfl, hrest⟩⟩
      · rw [hn hrest, stuffing, List.replicate_zero, List.append_nil] at e ha
        obtain ⟨r', e', f⟩ := takeComplete_follows (r := ⟨pid, inside, none⟩) ⟨rfl, ha, hb, hrest, .inl rfl⟩
        rw [e'] at e
        exact .inr ⟨rfl, r', f, by rw [feed, e]; rfl⟩
    | cons t init =>
      -- the first of them ends in this packet: bytes are missing of the last one alone
      rw [List.cons_append, List.flatMap_cons] at hs
      obtain ⟨x, rfl⟩ : ∃ x, inside = t.bytes ++ x := by
        rcases List.append_eq_append_iff.1 hs.symm with ⟨x, h1, h2⟩ | ⟨x, h1, -⟩
        · have := congrArg List.length h2
          simp only [List.flatMap_append, List.flatMap_singleton, List.length_append] at this
          omega
        · exact ⟨x, h1⟩
      rw [List.append_assoc, takeComplete_whole (s := t)
        (r := ⟨pid, t.bytes ++ (x ++ stuffing n), none⟩) rfl rfl
        (.inl rfl)] at e
      exact .inl ⟨t, by rw [feed, e]; rfl, fun h => by cases h⟩
  have hpointer : pointerField p.bytes = old.length := (push_start (r := .new pid) c rfl ha).1
  have hclosed {r : SectionReassembler} {s : PsiSection} (f : Follows pid s old r) :
      (feed r (p :: ps)).1 = s.bytes :: (feed (.new pid) ps).1 := by
    rw [feed, (push_start c f.pid ha).2.2 s f]
    rfl
  constructor
  · rw [hcount]
    rcases hfresh (r := .new pid) rfl (.inl rfl) with ⟨t, e, -⟩ | ⟨rfl, r', f, e⟩
    · have := ih.idle_le
      rw [e, List.length_cons]
      omega
    · have := ih.follows_le f
      rw [e]
      simp only [List.length_nil]
      omega
  · intro hold
    have hzero : pusi p.bytes = true → pointerField p.bytes = 0 := fun _ => by rw [hpointer, hold]; rfl
    rcases hfresh (r := .new pid) rfl (.inl rfl) with ⟨t, e, ht⟩ | ⟨rfl, r', f, e⟩
    · cases init with
      | nil =>
        obtain ⟨rfl, hrest⟩ := ht rfl
        rw [e, oneByOne_cons hzero le_rfl, ← ih.idle_iff hrest]
        exact List.cons_inj_right _
      | cons t' init =>
        refine iff_of_false (fun h => ?_) fun h => ?_
        · have hl := congrArg List.length h
          have := ih.idle_le
          rw [e, List.length_cons, List.length_map, hcount, List.length_cons] at hl
          omega
        · have := h.single _ List.mem_cons_self
          simp at this
    · rw [e, oneByOne_cons hzero le_rfl]
      exact ih.follows_iff f
  · intro r s f
    have := ih.idle_le
    rw [hclosed f, hcount, List.length_cons]
    omega
  · intro r s f
    refine iff_of_false (fun h => ?_) fun h => ?_
    · have hl := congrArg List.length h
      have := ih.idle_le
      rw [hclosed f, List.length_cons, List.length_cons, List.length_map, hcount] at hl
      omega
    · have hzero := h.pointer p List.mem_cons_self c.pusi
      rw [hpointer] at hzero
      exact f.rest (List.length_eq_zero_iff.1 hzero)

/-- **All sections come out exactly where they are laid out one by one.** -/
theorem laid_returned {starts : List (List PsiSection)} {ps : List Packet} (h : Laid pid [] starts ps) :
    (feed (.new pid) ps).1 = starts.flatten.map PsiSection.bytes ↔ OneByOne starts ps := by
  have heard : ∀ {rest starts ps}, Laid pid rest starts ps → Heard pid rest starts ps := by
    intro rest starts ps h
    induction h with
    | nil => exact heard_nil
    | bare b _ ih => exact heard_bare b ih
    | more c hn _ ih => exact heard_more c hn ih
    | start c hs hlt hn _ ih => exact heard_start c hs hlt hn ih
  exact (heard h).idle_iff rfl

/-- The first packet of the long section. -/
def longFirst : Packet := packed true 0x11 0 (longSection.bytes.take 183)

theorem longFirst_carries : Carries 0x11 longFirst true
    (UInt8.ofNat ([] : Bytes).length :: ([] ++ (longSection.bytes.take 183 ++ stuffing 0))) :=
  ⟨by decide +kernel, by decide +kernel, by decide +kernel, 4, by decide +kernel, by decide +kernel⟩

/-- The packet that ends the long section, with the empty section right behind it. -/
def longLast : Packet :=
  Packet.ofBytes ([0x47, 0x40, 0x11, 0x11, 17] ++ longSection.bytes.drop 183 ++ emptySection.bytes)

/-- The empty section is lost: it starts in the packet that completes the long one. -/
theorem section_lost : Laid 0x11 [] [[longSection], [emptySection]] [longFirst, longLast] ∧
    (feed (.new 0x11) [longFirst, longLast]).1 = [longSection.bytes] ∧
    (feed (.new 0x11) [longFirst, longLast]).1 ≠
      [[longSection], [emptySection]].flatten.map PsiSection.bytes := by
  have hlast : Carries 0x11 longLast true (UInt8.ofNat (longSection.bytes.drop 183).length ::
      (longSection.bytes.drop 183 ++ (emptySection.bytes ++ stuffing 163))) :=
    ⟨by decide +kernel, by decide +kernel, by decide +kernel, 4, by decide +kernel, by decide +kernel⟩
  have h₂ : Laid 0x11 (longSection.bytes.drop 183) [[emptySection]] [longLast] :=
    @Laid.start 0x11 longLast _ emptySection.bytes [] 163 [] emptySection [] [] hlast
      (by decide +kernel) (by decide) (by decide) .nil
  have h₁ : Laid 0x11 [] [[longSection], [emptySection]] [longFirst, longLast] :=
    @Laid.start 0x11 longFirst [] (longSection.bytes.take 183) (longSection.bytes.drop 183) 0 [] longSection _ _
      longFirst_carries (by decide +kernel) (by decide +kernel) (fun _ => rfl) h₂
  exact ⟨h₁, by decide +kernel, by decide +kernel⟩

/-- One by one both sections are returned. -/
theorem laid_returned_sample :
    (feed (.new 0x11) [longFirst, packed false 0x11 1 (longSection.bytes.drop 183),
      packed true 0x11 2 emptySection.bytes]).1 = [longSection.bytes, emptySection.bytes] := by
  have hmore : Carries 0x11 (packed false 0x11 1 (longSection.bytes.drop 183)) false
      (longSection.bytes.drop 183 ++ stuffing 167) :=
    ⟨by decide +kernel, by decide +kernel, by decide +kernel, 4, by decide +kernel, by decide +kernel⟩
  have hlast : Carries 0x11 (packed true 0x11 2 emptySection.bytes) true
      (UInt8.ofNat ([] : Bytes).length :: ([] ++ (emptySection.bytes ++ stuffing 180))) :=
    ⟨by decide +kernel, by decide +kernel, by decide +kernel, 4, by decide +kernel, by decide +kernel⟩
  have h₃ : Laid 0x11 [] [[emptySection]] [packed true 0x11 2 emptySection.bytes] :=
    @Laid.start 0x11 _ [] emptySection.bytes [] 180 [] emptySection [] [] hlast
      (by decide +kernel) (by decide) (by decide) .nil
  have h₂ : Laid 0x11 (longSection.bytes.drop 183) [[], [emptySection]]
      [packed false 0x11 1 (longSection.bytes.drop 183), packed true 0x11 2 emptySection.bytes] := by
    have h := Laid.more hmore (fun h => absurd rfl h) h₃
    rwa [List.append_nil] at h
  have h₁ : Laid 0x11 [] [[longSection], [], [emptySection]] [longFirst,
      packed false 0x11 1 (longSection.bytes.drop 183), packed true 0x11 2 emptySection.bytes] :=
    @Laid.start 0x11 longFirst [] (longSection.bytes.take 183) (longSection.bytes.drop 183) 0 [] longSection _ _
      longFirst_carries (by decide +kernel) (by decide +kernel) (fun _ => rfl) h₂
  exact (laid_returned h₁).2 ⟨by decide +kernel, by decide⟩

end MyMuxer.Psi
