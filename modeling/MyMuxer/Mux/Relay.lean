import MyMuxer.Lib.Log
import MyMuxer.Mux.Handler
import MyMuxer.Mux.Tracks

/-!
# What a proxy forwards

* `relay`, `relayAll`: what `proxy_packet` does with packets, without its buffers.
* `dirty`: a table differs from the one cached, by the sections alone.
* `RelayLaw`: **what is forwarded for a packet, by the packets before it**.
-/

namespace MyMuxer

open Psi

variable (env : Env) (output : Output) (program : Program)

/-- PCR, audio and video packets pass through. -/
def passes (pid : UInt16) : Prop :=
  pid = program.pcrPid ∨ pid ∈ program.audioPids ∨ pid ∈ program.videoPids

instance (pid : UInt16) : Decidable (passes program pid) := inferInstanceAs (Decidable (_ ∨ _ ∨ _))

/-- The packet forwarded for a packet of the input, and the tables after it. -/
def relay (t : Tables) (p : Packet) : Rs (Option Packet × Tables) := do
  let pid := pktPid p.bytes
  if pid = 0x0000 then
    let t ← t.processPat env program p
    if t.dirtyPat then return (none, t) else return (some (pktNext t.pat), { t with pat := pktNext t.pat })
  else if pid = program.pmtPid then
    let t ← t.processPmt env output program p
    if t.dirtyPmt then return (none, t) else return (some (pktNext t.pmt), { t with pmt := pktNext t.pmt })
  else if t.dirtyPat || t.dirtyPmt then return (none, t)
  else if passes program pid then return (some p, t)
  else return (none, t)

/-- Packet after packet: each with what is forwarded for it, and the tables after them. -/
def relayAll : Tables → List Packet → Rs (List Proxied × Tables)
  | t, [] => return ([], t)
  | t, p :: ps => do
    let (u, t) ← relay env output program t p
    let (log, t') ← relayAll t ps
    return ({ packet := p, unit := u, tables := t } :: log, t')

/-! ## The law -/

/-- The last section differs from the first one. -/
def differs {ι : Type} (analyze : Bytes → Rs ι) (changed : ι → ι → Bool) (sections : List Bytes) : Bool :=
  match sections.head?.map analyze, sections.getLast?.map analyze with
  | some (.ok first), some (.ok last) => changed first last
  | _, _ => false

/-- The last section that packets complete for a table differs from the first, in the sense of
`is_pat_changed` or `is_pmt_changed`. -/
def dirty (k : Table) (ps : List Packet) : Bool :=
  match k with
  | .pat => differs analyzePat (isPatChanged env) (Tables.sections program .pat ps)
  | .pmt => differs analyzePmt isPmtChanged (Tables.sections program .pmt ps)
  | .sdt => false

/-- The packet made from the first section of a table. -/
def build : Table → Bytes → Rs Packet
  | .pat, s => Tables.buildPat env program s
  | .pmt, s => Tables.buildPmt env output program s
  | .sdt, _ => .error .unwrapNone

/-- What a packet of a table is answered with, `sections` being those completed by then: nothing while
the table is dirty, else the packet made from its first section, but for the continuity counter. Before
there is a section, it is the empty cache. -/
def TableUnit (k : Table) (sections : List Bytes) (isDirty : Bool) (u : Option Packet) : Prop :=
  match sections.head? with
  | none => ∃ q, u = some q ∧ EqUpToCc q .zero
  | some first =>
    if isDirty then u = none
    else ∃ q base, u = some q ∧ build env output program k first = .ok base ∧
      IsTablePacket (k.pid program) base ∧ EqUpToCc q base

/-- What is forwarded for a packet `p` that comes after the packets `ps`. -/
structure Relayed (ps : List Packet) (p : Packet) (u : Option Packet) : Prop where
  pat : pktPid p.bytes = 0x0000 → TableUnit env output program .pat
    (Tables.sections program .pat (ps ++ [p])) (dirty env program .pat (ps ++ [p])) u
  pmt : pktPid p.bytes ≠ 0x0000 → pktPid p.bytes = program.pmtPid → TableUnit env output program .pmt
    (Tables.sections program .pmt (ps ++ [p])) (dirty env program .pmt (ps ++ [p])) u
  other : pktPid p.bytes ≠ 0x0000 → pktPid p.bytes ≠ program.pmtPid →
    u = if dirty env program .pat ps || dirty env program .pmt ps then none
      else if passes program (pktPid p.bytes) then some p else none

/-- **What is forwarded for a packet, by the packets before it**, and the tables then. -/
structure RelayLaw (before : List Proxied) (e : Proxied) : Prop where
  tracks : Tables.Tracks env output program (before.map Proxied.packet ++ [e.packet]) e.tables
  relayed : Relayed env output program (before.map Proxied.packet) e.packet e.unit

variable {env output program}

/-! ## One packet -/

/-- A table is dirty while its last section differs from its first. -/
theorem Watches.dirty_eq {ι : Type} {analyze : Bytes → Rs ι} {changed : ι → ι → Bool}
    {build : Bytes → Rs Packet} {pid : UInt16} {sections : List Bytes} {ready isDirty : Bool} {info : Option ι}
    {cache : Packet} (w : Watches analyze changed build pid sections ready info isDirty cache) :
    isDirty = differs analyze changed sections := by
  rw [differs]
  cases hs : sections.head? with
  | none =>
    obtain rfl := List.head?_eq_none_iff.1 hs
    exact (w.fresh rfl).2.1
  | some first =>
    obtain ⟨-, ⟨i, hi, ha⟩, -⟩ := w.cached first hs
    obtain ⟨last, hl⟩ : ∃ last, sections.getLast? = some last := by
      cases sections with
      | nil => cases hs
      | cons a l => exact ⟨_, List.getLast?_eq_getLast_of_ne_nil (List.cons_ne_nil a l)⟩
    obtain ⟨j, hj, hd⟩ := w.last i hi last hl
    rw [hl, Option.map_some, Option.map_some, ha, hj]
    exact hd

/-- A cached table, sent with the next counter. -/
theorem Watches.unit {ι : Type} {analyze : Bytes → Rs ι} {changed : ι → ι → Bool} {k : Table}
    {sections : List Bytes} {ready isDirty : Bool} {info : Option ι} {cache : Packet}
    (w : Watches analyze changed (build env output program k) (k.pid program)
      sections ready info isDirty cache) :
    TableUnit env output program k sections isDirty (if isDirty then none else some (pktNext cache)) := by
  rw [TableUnit]
  cases hs : sections.head? with
  | none =>
    obtain ⟨-, hd, he⟩ := w.fresh (List.head?_eq_none_iff.1 hs)
    exact ⟨pktNext cache, by rw [hd]; rfl, he.next⟩
  | some first =>
    obtain ⟨-, -, base, hb, ht, he⟩ := w.cached first hs
    dsimp only
    split_ifs with hd
    · rfl
    · exact ⟨_, base, rfl, hb, ht, he.next⟩

namespace Tables

variable {ps : List Packet} {t t' : Tables} {p : Packet} {u : Option Packet}

/-- A table sent with the next counter is the same table. -/
theorem Tracks.nextPat (o : Tracks env output program ps t) :
    Tracks env output program ps { t with pat := pktNext t.pat } := ⟨o.reasm, o.pat.next, o.pmt⟩

theorem Tracks.nextPmt (o : Tracks env output program ps t) :
    Tracks env output program ps { t with pmt := pktNext t.pmt } := ⟨o.reasm, o.pat, o.pmt.next⟩

/-- **One packet**: the tables follow, and what is forwarded obeys the law. -/
theorem Tracks.relay (o : Tracks env output program ps t) (hs : byte p.bytes 0 = tsSyncByte)
    (e : relay env output program t p = .ok (u, t')) :
    Tracks env output program (ps ++ [p]) t' ∧ Relayed env output program ps p u := by
  rw [MyMuxer.relay] at e
  split_ifs at e with h0 hp hd hpass
  · obtain ⟨t₁, h₁, e⟩ := bind_eq_ok.1 e
    have o₁ := processPat_tracks o hs h0 h₁
    have hunit : TableUnit env output program .pat _ _ _ := o₁.pat.unit
    have hdirty : t₁.dirtyPat = dirty env program .pat (ps ++ [p]) := o₁.pat.dirty_eq
    have hlaw (hu : u = if t₁.dirtyPat then none else some (pktNext t₁.pat)) :
        Relayed env output program ps p u :=
      ⟨fun _ => hdirty ▸ hu ▸ hunit, fun h => absurd h0 h, fun h => absurd h0 h⟩
    split_ifs at e with hd <;> cases e
    · exact ⟨o₁, hlaw (by rw [if_pos hd])⟩
    · exact ⟨o₁.nextPat, hlaw (by rw [if_neg hd])⟩
  · obtain ⟨t₁, h₁, e⟩ := bind_eq_ok.1 e
    have o₁ := processPmt_tracks o hs hp h0 h₁
    have hunit : TableUnit env output program .pmt _ _ _ := o₁.pmt.unit
    have hdirty : t₁.dirtyPmt = dirty env program .pmt (ps ++ [p]) := o₁.pmt.dirty_eq
    have hlaw (hu : u = if t₁.dirtyPmt then none else some (pktNext t₁.pmt)) :
        Relayed env output program ps p u :=
      ⟨fun h => absurd h h0, fun _ _ => hdirty ▸ hu ▸ hunit, fun _ h => absurd hp h⟩
    split_ifs at e with hd <;> cases e
    · exact ⟨o₁, hlaw (by rw [if_pos hd])⟩
    · exact ⟨o₁.nextPmt, hlaw (by rw [if_neg hd])⟩
  all_goals
    have hpat : t.dirtyPat = dirty env program .pat ps := o.pat.dirty_eq
    have hpmt : t.dirtyPmt = dirty env program .pmt ps := o.pmt.dirty_eq
    rw [hpat, hpmt] at hd
    cases e
    refine ⟨o.other h0 hp, fun h => absurd h h0, fun _ h => absurd h hp, fun _ _ => ?_⟩
  · rw [if_pos hd]
  · rw [if_neg hd, if_pos hpass]
  · rw [if_neg hd, if_neg hpass]

end Tables

/-! ## Packet after packet -/

theorem relayAll_append {t t₁ t' : Tables} {ps qs : List Packet} {log log' : List Proxied}
    (h : relayAll env output program t ps = .ok (log, t₁))
    (h' : relayAll env output program t₁ qs = .ok (log', t')) :
    relayAll env output program t (ps ++ qs) = .ok (log ++ log', t') := by
  induction ps generalizing t log with
  | nil => cases h; exact h'
  | cons p ps ih =>
    rw [relayAll] at h
    obtain ⟨⟨u, t₂⟩, h₂, h⟩ := bind_eq_ok.1 h
    obtain ⟨⟨log₃, t₃⟩, h₃, h⟩ := bind_eq_ok.1 h
    cases h
    rw [List.cons_append, relayAll, h₂, ok_bind]
    dsimp only
    rw [ih h₃]
    rfl

theorem relayAll_snoc {t t₁ t' : Tables} {ps : List Packet} {p : Packet} {u : Option Packet}
    {log : List Proxied} (h : relayAll env output program t ps = .ok (log, t₁))
    (h' : relay env output program t₁ p = .ok (u, t')) :
    relayAll env output program t (ps ++ [p]) = .ok (log ++ [⟨p, u, t'⟩], t') :=
  relayAll_append h (by rw [relayAll, h']; rfl)

end MyMuxer
