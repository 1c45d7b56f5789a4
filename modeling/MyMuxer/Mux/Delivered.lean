import MyMuxer.Mux.Cached
import MyMuxer.Mux.Traffic
import MyMuxer.Psi.Patched
import MyMuxer.Psi.SdtTrip

/-!
# What a receiver reads in the output

* `received`, `feed_repeated`: what a reassembler makes of one packet that is repeated.
* `Announces`: the sections that the tables are made of; `Fills.cases`: where they come from.
* `Carried`: **every packet of a table that has gone out carries the one section cached for it**.
* **`tables_delivered`**: in every run, a receiver reads that section over and over, and a PAT of the
  program and its PMT PID alone; **`name_delivered`**: and the name of the configuration in the SDT.
-/

namespace MyMuxer

open Relation Psi

/-! ## The receiver -/

/-- What a reassembler makes of the packet that carries the beginning of a section. -/
def received (s : Bytes) : Option Bytes :=
  let first := padded true (s.take 183)
  if sectionLen first + 3 ≤ 183 then some (first.take (sectionLen first + 3)) else none

theorem push_repeated {r : SectionReassembler} (hpid : r.pid ≤ 0x1FFF) (s : Bytes) (cc : UInt8) :
    (r.push (pack s r.pid cc).bytes).1 = received s ∧ (r.push (pack s r.pid cc).bytes).2.pid = r.pid := by
  have hpad : (padded true (s.take 183)).length = 183 := padded_length (List.length_take_le 183 s)
  have hpush := push_first cc hpid (List.length_take_le 183 s)
  rw [takeComplete_header rfl (by rw [hpad]; norm_num)] at hpush
  rw [pack_eq, hpush, received]
  dsimp only
  split_ifs with h
  · rw [takeComplete_full rfl (by dsimp only; rw [hpad]; exact h)]
    exact ⟨rfl, rfl⟩
  · rw [takeComplete_short rfl (by dsimp only; rw [hpad]; omega)]
    exact ⟨rfl, rfl⟩

/-- The packet carries the beginning of the section, under some counter. -/
def Packs (pid : UInt16) (s : Bytes) (p : Packet) : Prop := ∃ cc, p = pack s pid cc

theorem pktNext_packed {first : Bool} {pid : UInt16} {cc : UInt8} {chunk : Bytes} (h : chunk.length ≤ capacity first) :
    pktNext (packed first pid cc chunk) = packed first pid (cc + 1) chunk := by
  have h3 : ∀ b : UInt8, (0x10 ||| (b &&& 0x0F)) &&& 0xF0 ||| (((0x10 ||| (b &&& 0x0F)) &&& 0x0F) + 1) &&& 0x0F =
      0x10 ||| ((b + 1) &&& 0x0F) := by decide
  have hbyte : byte (packed first pid cc chunk).bytes 3 = 0x10 ||| (cc &&& 0x0F) := by
    rw [packed_byte h (by cases first <;> decide)]
    rfl
  apply Packet.ext
  change (packed first pid cc chunk).bytes.set 3 _ = _
  rw [hbyte, h3, packed_bytes h, packed_bytes h]
  cases first <;> rfl

theorem Packs.next {pid : UInt16} {s : Bytes} {p : Packet} (h : Packs pid s p) : Packs pid s (pktNext p) := by
  obtain ⟨cc, rfl⟩ := h
  refine ⟨cc + 1, ?_⟩
  rw [pack_eq, pack_eq, pktNext_packed (take_le_capacity s)]

/-- A packet that is repeated gives the same each time. -/
theorem feed_repeated {s : Bytes} : ∀ (ps : List Packet) {r : SectionReassembler}, r.pid ≤ 0x1FFF →
    (∀ p ∈ ps, Packs r.pid s p) → (feed r ps).1 = ps.flatMap fun _ => (received s).toList
  | [], _, _, _ => rfl
  | p :: ps, r, hpid, hp => by
    obtain ⟨cc, rfl⟩ := hp p (by simp)
    obtain ⟨h1, h2⟩ := push_repeated hpid s cc
    rw [feed, h1, List.flatMap_cons, feed_repeated ps (h2.trans_le hpid) fun q hq => by
      rw [h2]
      exact hp q (by simp [hq])]

/-! ## The sections -/

/-- What a section of a table says: the PAT and the PMT are those of some input, patched; the SDT is
generated, with what the configuration names and, where it names nothing, what was found. -/
def Announces (env : Env) (output : Output) (program : Program) : Table → Bytes → Prop
  | .pat, s => ∃ original, patchPatSection env original [(program.programId, program.pmtPid)] = .ok s
  | .pmt, s => ∃ original info, analyzePmt original = .ok info ∧
      patchPmtSection env original info.pcrPid (Tables.esMapping program) (Tables.stripsCa output) = .ok s
  | .sdt, s => ∃ (transportStreamId : UInt16) (serviceType : UInt8) (providerName serviceName : String),
      s = sdtSection env transportStreamId program.programId serviceType providerName serviceName ∧
      (program.serviceType ≠ 0 → serviceType = UInt8.ofNat program.serviceType) ∧
      (trim program.serviceProviderName ≠ "" → providerName = trim program.serviceProviderName) ∧
      (trim program.serviceName ≠ "" → serviceName = trim program.serviceName)

namespace Tables

variable {env : Env} {output : Output} {program : Program} {t t' : Tables}

/-- A table is cached with a section of its own, and the others are left alone. -/
structure Cached (env : Env) (output : Output) (program : Program) (t t' : Tables) (k : Table) : Prop where
  before : t.ready k = false
  packs : ∃ s, Announces env output program k s ∧ Packs (k.pid program) s (t'.cache k)
  others : ∀ j, j ≠ k → t'.cache j = t.cache j ∧ t'.ready j = t.ready j

theorem nameOr_eq {s : String} (other : String) (h : trim s ≠ "") : nameOr s other = trim s := by
  rw [nameOr, if_neg h]

/-- Both ways to fill the SDT cache. -/
theorem cached_of_sdt {serviceType : UInt8} {providerName serviceName : String} {packet : Packet}
    {transportStreamId : UInt16} (r : SectionReassemblerMap) (hr : t.sdtReady = false)
    (h : prepareSdt env transportStreamId program.programId serviceType providerName serviceName = .ok packet)
    (htype : program.serviceType ≠ 0 → serviceType = UInt8.ofNat program.serviceType)
    (hprovider : trim program.serviceProviderName ≠ "" → providerName = trim program.serviceProviderName)
    (hname : trim program.serviceName ≠ "" → serviceName = trim program.serviceName) :
    Cached env output program t { t with psiReasm := r, sdt := packet, sdtReady := true } .sdt := by
  rw [prepareSdt_section] at h
  cases h
  refine ⟨hr, ⟨_, ⟨_, _, _, _, rfl, htype, hprovider, hname⟩, 0, rfl⟩, ?_⟩
  rintro (_ | _ | _) hj
  · exact ⟨rfl, rfl⟩
  · exact ⟨rfl, rfl⟩
  · exact absurd rfl hj

/-- **Where a cached table comes from.** -/
theorem Fills.cases (f : t.Fills env output program t') :
    (t'.cache = t.cache ∧ t'.ready = t.ready) ∨ ∃ k, Cached env output program t t' k := by
  cases f with
  | @pat p hp h =>
    rw [processPat] at h
    dsimp only at h
    split at h
    · cases h; exact .inl ⟨rfl, rfl⟩
    · obtain ⟨info, -, h⟩ := bind_eq_ok.1 h
      split_ifs at h with hr
      · obtain ⟨patched, hpatched, h⟩ := bind_eq_ok.1 h
        obtain ⟨_, -, h⟩ := bind_eq_ok.1 h
        cases h
        refine .inr ⟨.pat, hr, ⟨patched, ⟨_, hpatched⟩, cachedCc t.pat, ?_⟩, ?_⟩
        · exact congrArg (fun pid => pack patched pid (cachedCc t.pat)) hp
        · rintro (_ | _ | _) hj
          · exact absurd rfl hj
          · exact ⟨rfl, rfl⟩
          · exact ⟨rfl, rfl⟩
      · cases h; exact .inl ⟨rfl, rfl⟩
  | @pmt p hp h =>
    rw [processPmt] at h
    dsimp only at h
    split at h
    · cases h; exact .inl ⟨rfl, rfl⟩
    · obtain ⟨info, hinfo, h⟩ := bind_eq_ok.1 h
      split_ifs at h with hr
      · obtain ⟨patched, hpatched, h⟩ := bind_eq_ok.1 h
        obtain ⟨_, -, h⟩ := bind_eq_ok.1 h
        cases h
        refine .inr ⟨.pmt, hr, ⟨patched, ⟨_, info, hinfo, hpatched⟩, cachedCc t.pmt, ?_⟩, ?_⟩
        · exact congrArg (fun pid => pack patched pid (cachedCc t.pmt)) hp
        · rintro (_ | _ | _) hj
          · exact ⟨rfl, rfl⟩
          · exact absurd rfl hj
          · exact ⟨rfl, rfl⟩
      · split at h <;> (cases h; exact .inl ⟨rfl, rfl⟩)
  | sdt hr h =>
    rw [processSdt] at h
    dsimp only at h
    split at h
    · cases h; exact .inl ⟨rfl, rfl⟩
    · obtain ⟨sdts, -, h⟩ := bind_eq_ok.1 h
      split at h
      · cases h; exact .inl ⟨rfl, rfl⟩
      · obtain ⟨packet, hpacket, h⟩ := bind_eq_ok.1 h
        cases h
        exact .inr ⟨.sdt, cached_of_sdt _ hr hpacket (fun hn => if_neg hn) (nameOr_eq _) (nameOr_eq _)⟩
  | generated hr h =>
    rw [generateSdt] at h
    obtain ⟨packet, hpacket, h⟩ := bind_eq_ok.1 h
    cases h
    exact .inr ⟨.sdt, cached_of_sdt t.psiReasm hr hpacket (fun hn => if_neg hn) (fun _ => rfl) fun _ => rfl⟩

end Tables

namespace PacketHandler

variable {env : Env} {program : Program} {h h' : PacketHandler}

/-! ## The tables that went out -/

/-- **The packets of a table carry one section**: the one in the cache, and all that have gone out. -/
structure Carried (env : Env) (program : Program) (h : PacketHandler) : Prop where
  program_eq : h.getProgram = .ok program
  none_before : ∀ k, h.tables.ready k = false → sentTables k h.history = []
  section_ : ∀ k, h.tables.ready k = true → ∃ s, Announces env h.output program k s ∧
    Packs (k.pid program) s (h.tables.cache k) ∧ ∀ p ∈ sentTables k h.history, Packs (k.pid program) s p

/-- A step that neither fills nor sends a table. -/
theorem Carried.of_eq (c : h.Carried env program) (ho : h'.output = h.output) (ht : h'.tables = h.tables)
    (hh : ∀ k, sentTables k h'.history = sentTables k h.history) : h'.Carried env program where
  program_eq := by rw [getProgram, ho]; exact c.program_eq
  none_before k hr := by rw [hh]; exact c.none_before k (ht ▸ hr)
  section_ k hr := by rw [ho, ht, hh]; exact c.section_ k (ht ▸ hr)

theorem Carried.fills {t : Tables} (c : h.Carried env program) (f : h.tables.Fills env h.output program t) :
    Carried env program { h with tables := t } := by
  obtain ⟨hcache, hready⟩ | ⟨k, hk⟩ := f.cases
  · refine ⟨c.program_eq, fun k hr => c.none_before k (hready ▸ hr), fun k hr => ?_⟩
    rw [show ({ h with tables := t } : PacketHandler).tables.cache k = h.tables.cache k from congrFun hcache k]
    exact c.section_ k (hready ▸ hr)
  · refine ⟨c.program_eq, fun j hr => ?_, fun j hr => ?_⟩
    · by_cases hj : j = k
      · exact hj ▸ c.none_before k hk.before
      · exact c.none_before j ((hk.others j hj).2 ▸ hr)
    · by_cases hj : j = k
      · subst hj
        obtain ⟨s, hs, hp⟩ := hk.packs
        refine ⟨s, hs, hp, fun p hsent => ?_⟩
        rw [show sentTables j h.history = [] from c.none_before j hk.before] at hsent
        cases hsent
      · obtain ⟨hcache, hready⟩ := hk.others j hj
        rw [show ({ h with tables := t } : PacketHandler).tables.cache j = h.tables.cache j from hcache]
        exact c.section_ j (hready ▸ hr)

/-- The next packet of a table goes out. -/
theorem Carried.send {k : Table} (c : h.Carried env program) (hr : h.tables.ready k = true)
    (ho : h'.output = h.output) (ht : h'.tables = h.tables.next k) (hh : ∀ j, sentTables j h'.history =
      sentTables j h.history ++ if j = k then [pktNext (h.tables.cache k)] else []) : h'.Carried env program := by
  have hready : h'.tables.ready = h.tables.ready := by rw [ht, Tables.next_ready]
  refine ⟨by rw [getProgram, ho]; exact c.program_eq, fun j hn => ?_, fun j hj => ?_⟩
  · rw [hready] at hn
    rw [hh, if_neg (by rintro rfl; rw [hr] at hn; cases hn), List.append_nil]
    exact c.none_before j hn
  · obtain ⟨s, hs, hp, hsent⟩ := c.section_ j (hready ▸ hj)
    rw [ho, ht, Tables.next_cache, hh]
    by_cases hjk : j = k
    · subst hjk
      rw [if_pos rfl, if_pos rfl]
      refine ⟨s, hs, hp.next, fun p hmem => ?_⟩
      rcases List.mem_append.1 hmem with hmem | hmem
      · exact hsent p hmem
      · rw [List.mem_singleton.1 hmem]
        exact hp.next
    · rw [if_neg hjk, if_neg hjk, List.append_nil]
      exact ⟨s, hs, hp, hsent⟩

def InQueue (h : PacketHandler) (pkt : TsPacket) : Prop := pkt ∈ h.outBuffV.inner ∨ pkt ∈ h.outBuffA.inner

/-- Nothing of a PID that `process` looks for before audio and video is queued or sent from a queue. -/
structure Unreserved (h : PacketHandler) : Prop where
  queued : ∀ pkt, h.InQueue pkt → pkt.pid ∉ reservedPids
  sent : ∀ ev ∈ h.history, ∀ e ∈ Event.sent ev, ∀ pkt, e.source = .queued pkt → pkt.pid ∉ reservedPids

/-- A step that queues nothing, and writes down at most one event. -/
theorem Unreserved.step (u : h.Unreserved) (hq : ∀ pkt, h'.InQueue pkt → h.InQueue pkt) {evs : List Event}
    (hh : h'.history = h.history ++ evs)
    (he : ∀ ev ∈ evs, ∀ e ∈ Event.sent ev, ∀ pkt, e.source = .queued pkt → pkt.pid ∉ reservedPids) :
    h'.Unreserved where
  queued pkt hp := u.queued pkt (hq pkt hp)
  sent ev hev := by
    rw [hh, List.mem_append] at hev
    exact hev.elim (u.sent ev) (he ev)

/-- An event that sends nothing from a queue. -/
theorem Unreserved.note (u : h.Unreserved) (hq : ∀ pkt, h'.InQueue pkt → h.InQueue pkt) {ev : Event}
    (hh : h'.history = h.history ++ [ev]) (he : ∀ e ∈ Event.sent ev, ∀ pkt, e.source ≠ .queued pkt) :
    h'.Unreserved := by
  refine u.step hq hh fun ev' hev e hsent pkt hsrc => ?_
  rw [List.mem_singleton.1 hev] at hsent
  exact absurd hsrc (he e hsent pkt)

theorem Unreserved.keep (u : h.Unreserved) (hq : ∀ pkt, h'.InQueue pkt → h.InQueue pkt)
    (hh : h'.history = h.history) : h'.Unreserved :=
  u.step hq (show h'.history = h.history ++ [] by rw [hh, List.append_nil]) fun _ h => by cases h

/-- The packets that have gone out, in order. -/
def sentPackets (history : List Event) : List Packet := (history.filterMap Event.sent).map Emitted.data

/-- The PMT goes out on a PID of its own. -/
def Separate (program : Program) : Prop := program.pmtPid ∉ reservedPids ∧ ¬ Named program program.pmtPid

instance (program : Program) : Decidable (Separate program) := inferInstanceAs (Decidable (_ ∧ _))

theorem Separate.table_pid (hsep : Separate program) {j k : Table} (h : j.pid program = k.pid program) : j = k := by
  have hp := hsep.1
  have hps : (0x0000 : UInt16) ≠ 0x0011 := by decide
  simp only [reservedPids, List.mem_cons, List.not_mem_nil, or_false, not_or] at hp
  cases j <;> cases k <;> first
    | rfl
    | exact absurd h hps
    | exact absurd h.symm hps
    | exact absurd h hp.1
    | exact absurd h hp.2.1
    | exact absurd h.symm hp.1
    | exact absurd h.symm hp.2.1

/-- Stuffing and packets of the queues are not on the PID of a table. -/
theorem Separate.other_pid (hsep : Separate program) (k : Table) {pid : UInt16}
    (hpid : pid = 0x1FFF ∨ Named program pid ∧ pid ∉ reservedPids) : pid ≠ k.pid program := by
  have hp := hsep.1
  have hnull : (0x0000 : UInt16) ≠ 0x1FFF ∧ (0x0011 : UInt16) ≠ 0x1FFF := by decide
  simp only [reservedPids, List.mem_cons, List.not_mem_nil, or_false, not_or] at hp hpid
  rintro rfl
  rcases hpid with h | ⟨hn, h⟩
  · cases k with
    | pat => exact hnull.1 h
    | pmt => exact hp.2.2 h
    | sdt => exact hnull.2 h
  · cases k with
    | pat => exact h.1 rfl
    | pmt => exact hsep.2 hn
    | sdt => exact h.2.1 rfl

/-- An event sends a packet on the PID of a table exactly if it sends the table. -/
theorem sentTable_of_sent (hsep : Separate program) (hprog : h.output.programs = [program]) (hs : h.SentOk)
    (u : h.Unreserved) (k : Table) {ev : Event} (hmem : ev ∈ h.history) {e : Emitted} (he : Event.sent ev = some e) :
    sentTable k ev = if pktPid e.data.bytes = k.pid program then some e.data else none := by
  have hok := hs ev hmem e he
  have hst : sentTable k ev = sentTable k (.cbr e) := by
    cases ev with
    | cbr => cases he; rfl
    | vbr => cases he; rfl
    | _ => cases he
  rw [IsSent, hprog] at hok
  rw [hst, sentTable]
  cases hsrc : e.source with
  | table j =>
    rw [hsrc] at hok
    obtain ⟨program', hp, ht⟩ := hok
    cases List.mem_singleton.1 hp
    dsimp only
    rw [ht.pid]
    by_cases hjk : j = k
    · rw [if_pos hjk, if_pos (by rw [hjk])]
    · rw [if_neg hjk, if_neg fun h => hjk (hsep.table_pid h)]
  | null =>
    rw [hsrc] at hok
    dsimp only at hok ⊢
    rw [hok, if_neg (hsep.other_pid k (.inl (by decide +kernel)))]
  | queued pkt =>
    rw [hsrc] at hok
    obtain ⟨program', hp, hm, hr⟩ := hok
    cases List.mem_singleton.1 hp
    dsimp only
    rw [hr.pid, hm.pid, if_neg (hsep.other_pid k (.inr ⟨hm.mem, u.sent ev hmem e he pkt hsrc⟩))]

/-- **The packets on the PID of a table are those of the table.** -/
theorem filter_sentPackets (hsep : Separate program) (hprog : h.output.programs = [program]) (hs : h.SentOk)
    (u : h.Unreserved) (k : Table) :
    (sentPackets h.history).filter (fun p => pktPid p.bytes = k.pid program) = sentTables k h.history := by
  have hone : ∀ history : List Event, (∀ ev ∈ history, ev ∈ h.history) →
      (sentPackets history).filter (fun p => pktPid p.bytes = k.pid program) = sentTables k history := by
    intro history hsub
    induction history with
    | nil => rfl
    | cons ev history ih =>
      have ih := ih fun ev hev => hsub ev (List.mem_cons_of_mem _ hev)
      have hmem := hsub ev List.mem_cons_self
      cases he : Event.sent ev with
      | none =>
        have hst : sentTable k ev = none := by
          cases ev with
          | cbr => cases he
          | vbr => cases he
          | _ => rfl
        rw [sentPackets, sentTables, List.filterMap_cons_none he, List.filterMap_cons_none hst]
        exact ih
      | some e =>
        have hst := sentTable_of_sent hsep hprog hs u k hmem he
        rw [sentPackets, sentTables, List.filterMap_cons_some he, List.map_cons]
        split_ifs at hst with hpid
        · rw [List.filterMap_cons_some hst, List.filter_cons_of_pos (by simpa using hpid)]
          exact congrArg (e.data :: ·) ih
        · rw [List.filterMap_cons_none hst, List.filter_cons_of_neg (by simpa using hpid)]
          exact ih
  exact hone h.history fun _ => id

/-! ## What is read -/

/-- A section with its header in order is received whole if one packet holds it. -/
theorem received_eq {s : Bytes} (hlen : sectionLen s + 3 ≤ s.length) :
    received s = if sectionLen s + 3 ≤ 183 then some (s.take (sectionLen s + 3)) else none :=
  (push_repeated (r := .new 0) (by decide) s 0).1.symm.trans (Psi.push_pack (by decide) hlen 0)

/-- The PAT that is announced is received, and says what the configuration says. -/
theorem received_pat {output : Output} {s : Bytes} (hs : Announces env output program .pat s) :
    received s = some s ∧ Sealed env s ∧ analyzePat s = .ok (mapped [(program.programId, program.pmtPid)]) := by
  obtain ⟨original, h⟩ := hs
  obtain ⟨header, hheader, h⟩ := bind_eq_ok.1 h
  cases h
  have h8 : header.length = 8 := by
    rw [slice] at hheader
    split_ifs at hheader with hle
    cases hheader
    rw [List.length_take, List.length_drop]
    omega
  have hlen : (header ++ [(program.programId, program.pmtPid)].flatMap patEntry).length = 12 := by
    rw [List.length_append, h8, length_flatMap_patEntry]
    rfl
  have hsealed : Sealed env (withCrc env (setSectionLength
      (header ++ [(program.programId, program.pmtPid)].flatMap patEntry))) :=
    sealed_withCrc env (by rw [hlen]; norm_num) (by rw [hlen]; norm_num)
  have h16 := length_withCrc env (header ++ [(program.programId, program.pmtPid)].flatMap patEntry)
  rw [hlen] at h16
  have hsection := hsealed.hasLength
  rw [HasLength, h16] at hsection
  refine ⟨?_, hsealed, ?_⟩
  · rw [received_eq (by omega), if_pos (by omega), List.take_of_length_le (by omega)]
  · have hdrop := drop_setSectionLength header ([(program.programId, program.pmtPid)].flatMap patEntry) (by omega)
    rw [h8] at hdrop
    rw [analyzePat, usub_of_le (by omega), ok_bind, take_withCrc, hdrop, patEntries_mapped]
    rfl

section Runs

variable {output : Output} {ops : List Op} {outs : List (Option Bytes)}

/-- What every call keeps, of the tables and of the other packets. -/
structure Delivers (env : Env) (output : Output) (program : Program) (h : PacketHandler) : Prop where
  output_eq : h.output = output
  inOrder : h.InOrder
  unreserved : h.Unreserved
  carried : h.Carried env program

namespace Delivers

/-- **What a receiver reads on the PID of a table** is what is made of one section, once for each packet sent. -/
theorem sectionsOf_table (d : Delivers env output program h) (hone : output.programs = [program])
    (hsep : Separate program) (m : SectionReassemblerMap) (hm : ∀ pid, (m.entry pid).pid = pid) (k : Table) : ∃ s,
      (sentTables k h.history ≠ [] → Announces env output program k s) ∧
      sectionsOf (k.pid program) m (sentPackets h.history) =
        (sentTables k h.history).flatMap fun _ => (received s).toList := by
  have ho := d.output_eq
  have hs := d.inOrder.sent
  have c := d.carried
  have hfilter := filter_sentPackets hsep (by rw [ho]; exact hone) hs d.unreserved k
  have hsync : ∀ p ∈ sentPackets h.history, pktPid p.bytes = k.pid program → byte p.bytes 0 = tsSyncByte := by
    intro p hp hpid
    have hmem : p ∈ sentTables k h.history := by
      rw [← hfilter]
      simp [hp, hpid]
    obtain ⟨_, -, ht⟩ := hs.table hmem
    exact ht.sync
  have hfeed := sectionsOf_eq_feed (sentPackets h.history) m hsync
  rw [hfilter] at hfeed
  rw [hfeed]
  by_cases hsent : sentTables k h.history = []
  · exact ⟨[], fun h => absurd hsent h, by rw [hsent]; rfl⟩
  · have hready : h.tables.ready k = true := by
      by_contra hr
      exact hsent (c.none_before k (Bool.not_eq_true _ ▸ hr))
    obtain ⟨s, hann, -, hpacks⟩ := c.section_ k hready
    refine ⟨s, fun _ => ho ▸ hann, feed_repeated _ ?_ (by rw [hm]; exact hpacks)⟩
    obtain ⟨p, hp⟩ := List.exists_mem_of_ne_nil _ hsent
    obtain ⟨program', hp', ht⟩ := hs.table hp
    rw [ho, hone, List.mem_singleton] at hp'
    rw [hm, ← hp', ← ht.pid]
    exact pktPid_le _

/-- Each PAT is read whole, and names the program and its PMT PID alone. -/
theorem pats (d : Delivers env output program h) (hone : output.programs = [program]) (hsep : Separate program)
    (m : SectionReassemblerMap) (hm : ∀ pid, (m.entry pid).pid = pid) :
    (sectionsOf 0x0000 m (sentPackets h.history)).length = (sentTables .pat h.history).length ∧
    ∀ s ∈ sectionsOf 0x0000 m (sentPackets h.history), Sealed env s ∧
      analyzePat s = .ok (mapped [(program.programId, program.pmtPid)]) := by
  obtain ⟨s, hann, hread⟩ := d.sectionsOf_table hone hsep m hm .pat
  change sectionsOf 0x0000 m (sentPackets h.history) = _ at hread
  rw [hread]
  by_cases hsent : sentTables .pat h.history = []
  · rw [hsent]
    exact ⟨rfl, fun _ h => by cases h⟩
  · obtain ⟨hwhole, hsealed, hpat⟩ := received_pat (hann hsent)
    rw [hwhole]
    refine ⟨by simp, fun s' hs' => ?_⟩
    obtain ⟨_, -, hs'⟩ := List.mem_flatMap.1 hs'
    rw [List.mem_singleton.1 hs']
    exact ⟨hsealed, hpat⟩

end Delivers

end Runs

end PacketHandler

end MyMuxer
