import Mathlib.Data.List.ReduceOption
import MyMuxer.Pes.Parser

/-!
# What a reassembler makes of a list of PES packets

* `Carried`: a PES packet in the TS packets that carry it.
* `Tracked`: a reassembler, and the TS packets that its buffer is made of; **`Tracked.run_sound`**: it is made of them.
* `Faithful`: what is handed out are PES packets of the list, each at most once and in order.
* **`faithful_iff`**: this is so if and only if there are at most two.
-/

namespace MyMuxer

open Search Errors
open scoped List

/-! ## PES packets in TS packets -/

/-- The payload of a TS packet. -/
def payload (packet : Packet) : Bytes := packet.bytes.drop ((pesOffset packet.bytes).getD 188)

/-- A TS packet of a PID with a payload, which starts a PES packet or does not. -/
structure Fragment (pid : UInt16) (start : Bool) (packet : Packet) : Prop where
  sync : byte packet.bytes 0 = 0x47
  pid_eq : pktPid packet.bytes = pid
  starts_iff : PesReassembler.Starts packet.bytes ↔ start = true
  payload_ne : payload packet ≠ []

/-- The TS packets that carry a PES packet. -/
structure Carried (pid : UInt16) where
  first : Packet
  rest : List Packet
  first_fragment : Fragment pid true first
  rest_fragments : ∀ packet ∈ rest, Fragment pid false packet

variable {pid : UInt16} {streamType : UInt8} {build : Build}

def Carried.packets (c : Carried pid) : List Packet := c.first :: c.rest

/-- The bytes of the PES packet. -/
def Carried.bytes (c : Carried pid) : Bytes := c.packets.flatMap payload

/-- TS packets, with the numbers of the PES packets that they carry. -/
abbrev Origin : Type := List (ℕ × Packet)

def Origin.bytes (origin : Origin) : Bytes := origin.flatMap fun input => payload input.2

/-- The TS packets of each PES packet of a list. -/
def numbered : ℕ → List (Carried pid) → List Origin
  | _, [] => []
  | k, c :: list => c.packets.map (k, ·) :: numbered (k + 1) list

/-! ## A reassembler and where its buffer is from -/

/-- A reassembler, and the TS packets whose payloads are in its buffer. -/
structure Tracked where
  reasm : PesReassembler
  origin : Origin

namespace Tracked

def new (pid : UInt16) (streamType : UInt8) : Tracked := ⟨.new pid streamType, []⟩

/-- A push. What is handed out is noted with the TS packets it is from. -/
def push (build : Build) (t : Tracked) (input : ℕ × Packet) : Ck (Option (Pes × Origin) × Tracked) := do
  let (found, reasm) ← t.reasm.push build input.2.bytes
  let origin :=
    if PesReassembler.Starts input.2.bytes then if found.isSome then t.origin else [input]
    else if t.reasm.buffer = [] then t.origin else t.origin ++ [input]
  return (found.map (·, t.origin), ⟨reasm, origin⟩)

/-- More payloads in the buffer. -/
def append (t : Tracked) (origin : Origin) : Tracked :=
  ⟨{ t.reasm with buffer := t.reasm.buffer ++ origin.bytes }, t.origin ++ origin⟩

/-- In the buffer is a PES packet, and nothing else. -/
def fresh (streamType : UInt8) (k : ℕ) (c : Carried pid) : Tracked :=
  ⟨⟨pid, streamType, c.bytes⟩, c.packets.map (k, ·)⟩

end Tracked

variable {start : Bool} {packet : Packet} {t : Tracked} {k : ℕ} {c : Carried pid} {found : Option Pes}

theorem Fragment.receives (h : Fragment pid start packet) {r : PesReassembler} (hr : r.pid = pid) :
    r.Receives packet.bytes := ⟨packet.length_eq.ge, h.sync, h.pid_eq.trans hr.symm⟩

theorem Fragment.offset (h : Fragment pid start packet) : ∃ offset, pesOffset packet.bytes = some offset ∧
    offset ≤ packet.bytes.length ∧ payload packet = packet.bytes.drop offset := by
  have hne := h.payload_ne
  unfold payload at hne ⊢
  cases hoffset : pesOffset packet.bytes with
  | none =>
    rw [hoffset, Option.getD_none, List.drop_of_length_le packet.length_eq.le] at hne
    exact absurd rfl hne
  | some offset =>
    rw [hoffset, Option.getD_some] at hne
    refine ⟨offset, rfl, ?_, rfl⟩
    by_contra hlen
    exact hne (List.drop_of_length_le (Nat.lt_of_not_le hlen).le)

namespace Tracked

theorem push_first (h : Fragment pid true packet) (ht : t.reasm.pid = pid) : t.push build (k, packet) =
    t.reasm.finished build >>= fun found => .ok (found.map (·, t.origin),
      if found.isSome then t else ⟨{ t.reasm with buffer := payload packet }, [(k, packet)]⟩) := by
  obtain ⟨offset, hoffset, hlen, hpayload⟩ := h.offset
  have hstarts : PesReassembler.Starts packet.bytes := h.starts_iff.2 rfl
  rw [push, PesReassembler.push_within (h.receives ht) hoffset hlen, if_pos hstarts, hpayload]
  cases t.reasm.finished build with
  | error e => rfl
  | ok found =>
    simp only [ck_bind, if_pos hstarts]
    cases found with
    | none => rfl
    | some result => rfl

theorem push_rest (h : Fragment pid false packet) (ht : t.reasm.pid = pid) (hne : t.reasm.buffer ≠ []) :
    t.push build (k, packet) = .ok (none, t.append [(k, packet)]) := by
  obtain ⟨offset, hoffset, hlen, hpayload⟩ := h.offset
  have hstarts : ¬ PesReassembler.Starts packet.bytes := fun h' => nomatch h.starts_iff.1 h'
  rw [push, PesReassembler.push_within (h.receives ht) hoffset hlen, if_neg hstarts, if_pos hne, ck_bind]
  dsimp only
  rw [if_neg hstarts, if_neg hne, append, Origin.bytes, List.flatMap_singleton, hpayload]
  rfl

theorem append_append (t : Tracked) (o o' : Origin) : (t.append o).append o' = t.append (o ++ o') := by
  simp only [append, Origin.bytes, List.flatMap_append, List.append_assoc]

/-- The rest of a PES packet goes into the buffer. -/
theorem run_rest {rest : List Packet} (h : ∀ packet ∈ rest, Fragment pid false packet) (ht : t.reasm.pid = pid)
    (hne : t.reasm.buffer ≠ []) : run (push build) t (rest.map (k, ·)) =
      .ok (List.replicate rest.length none, t.append (rest.map (k, ·))) := by
  induction rest generalizing t with
  | nil => simp [run, append, Origin.bytes]
  | cons packet rest ih =>
    obtain ⟨hpacket, hrest⟩ := List.forall_mem_cons.1 h
    have hne' : (t.append [(k, packet)]).reasm.buffer ≠ [] := fun h' => hne (List.append_eq_nil_iff.1 h').1
    refine run_cons_eq_ok.2 ⟨_, push_rest hpacket ht hne, _, ih (t := t.append [(k, packet)]) hrest ht hne', ?_⟩
    rw [append_append]
    rfl

/-- **The TS packets of a PES packet**: it takes the place of what is in the buffer, unless this is handed out. -/
theorem run_packets (ht : t.reasm.pid = pid) (hfound : t.reasm.finished build = .ok found) :
    run (push build) t (c.packets.map (k, ·)) =
      .ok (found.map (·, t.origin) :: List.replicate c.rest.length none,
        if found.isSome then t.append (c.rest.map (k, ·)) else fresh t.reasm.streamType k c) := by
  have hfirst : t.push build (k, c.first) = _ := push_first c.first_fragment ht
  rw [hfound, ck_bind] at hfirst
  cases found with
  | none =>
    refine run_cons_eq_ok.2 ⟨_, hfirst, _, run_rest c.rest_fragments ht c.first_fragment.payload_ne, ?_⟩
    subst ht
    simp [fresh, append, Carried.bytes, Carried.packets, Origin.bytes, List.flatMap_map]
  | some result =>
    have hcomplete := (PesReassembler.finished_isSome hfound).1 rfl
    have hne : t.reasm.buffer ≠ [] := fun h => by
      have := hcomplete.1.1
      rw [h] at this
      cases this
    exact run_cons_eq_ok.2 ⟨_, hfirst, _, run_rest c.rest_fragments ht hne, rfl⟩

/-- The buffer is made of the payloads that are noted. -/
structure Sound (pid : UInt16) (streamType : UInt8) (t : Tracked) : Prop where
  pid_eq : t.reasm.pid = pid
  type_eq : t.reasm.streamType = streamType
  bytes_eq : t.reasm.buffer = t.origin.bytes

/-- What is handed out is what `parse` makes of the payloads it is from. -/
def Parsed (build : Build) (pid : UInt16) (streamType : UInt8) (out : Option (Pes × Origin)) : Prop :=
  ∀ x ∈ out, Parser.parse build x.2.bytes pid (some streamType) = .ok (some x.1)

theorem sound_new : (new pid streamType).Sound pid streamType := ⟨rfl, rfl, rfl⟩

theorem push_sound {input : ℕ × Packet} {out : Option (Pes × Origin)} {t' : Tracked} (ht : t.Sound pid streamType)
    (h : ∃ start, Fragment pid start input.2) (he : t.push build input = .ok (out, t')) :
    t'.Sound pid streamType ∧ Parsed build pid streamType out := by
  obtain ⟨k, packet⟩ := input
  obtain ⟨start, h⟩ := h
  obtain ⟨hpid, htype, hbytes⟩ := ht
  cases start with
  | true =>
    rw [push_first h hpid] at he
    obtain ⟨found, hfound, he⟩ := ck_eq_ok.1 he
    cases he
    cases found with
    | none => exact ⟨⟨hpid, htype, by simp [Origin.bytes]⟩, fun x hx => (nomatch hx)⟩
    | some result =>
      refine ⟨⟨hpid, htype, hbytes⟩, ?_⟩
      rintro _ ⟨rfl⟩
      have hparse := (PesReassembler.finished_eq_some.1 hfound).1
      rwa [hpid, htype, hbytes] at hparse
  | false =>
    by_cases hne : t.reasm.buffer = []
    · obtain ⟨offset, hoffset, hlen, -⟩ := h.offset
      have hstarts : ¬ PesReassembler.Starts packet.bytes := fun h' => nomatch h.starts_iff.1 h'
      rw [push, PesReassembler.push_within (h.receives hpid) hoffset hlen, if_neg hstarts,
        if_neg (not_not.2 hne), ck_bind] at he
      dsimp only at he
      rw [if_neg hstarts, if_pos hne] at he
      cases he
      exact ⟨⟨hpid, htype, hbytes⟩, fun x hx => (nomatch hx)⟩
    · rw [push_rest h hpid hne] at he
      cases he
      refine ⟨⟨hpid, htype, ?_⟩, fun x hx => (nomatch hx)⟩
      simp [append, Origin.bytes, hbytes]

/-- **In a run**, too. -/
theorem run_sound {inputs : List (ℕ × Packet)} {y : List (Option (Pes × Origin)) × Tracked}
    (ht : t.Sound pid streamType) (h : ∀ input ∈ inputs, ∃ start, Fragment pid start input.2)
    (hy : run (push build) t inputs = .ok y) :
    y.2.Sound pid streamType ∧ ∀ out ∈ y.1, Parsed build pid streamType out :=
  run_invariant push_sound ht h hy

end Tracked

/-! ## What is handed out -/

/-- The parser of the stream type recognises the PES packet. -/
def Recognised (build : Build) (streamType : UInt8) (c : Carried pid) : Prop :=
  ∃ pes, Parser.parse build c.bytes pid (some streamType) = .ok (some pes) ∧ pes.es.isSome

/-- The TS packets of a list of PES packets are pushed, one after the other, and return; what they hand out is from all
the TS packets of one PES packet each, of the list and in its order, and is what `parse` makes of the bytes of this. -/
def Faithful (build : Build) (streamType : UInt8) (list : List (Carried pid)) : Prop :=
  ∃ outs t, run (Tracked.push build) (.new pid streamType) (numbered 0 list).flatten = .ok (outs, t) ∧
    outs.reduceOption.map Prod.snd <+ numbered 0 list ∧ ∀ out ∈ outs, Tracked.Parsed build pid streamType out

variable {list : List (Carried pid)} {r : PesReassembler}

/-- The number of the TS packets of a PES packet. -/
def number (origin : Origin) : Option ℕ := origin.head?.map Prod.fst

theorem number_numbered (list : List (Carried pid)) (k : ℕ) :
    (numbered k list).map number = (List.range' k list.length).map some := by
  induction list generalizing k with
  | nil => rfl
  | cons c list ih =>
    rw [numbered, List.map_cons, ih, List.length_cons, List.range'_succ, List.map_cons]
    rfl

/-- No PES packet is from two with one number. -/
theorem not_sublist_numbered {o o' : Origin} {more : List Origin} (hnumber : number o = number o') (k : ℕ) :
    ¬ o :: o' :: more <+ numbered k list := by
  intro h
  have hsub := h.map number
  rw [number_numbered] at hsub
  have hnodup : ((List.range' k list.length).map some).Nodup :=
    List.Nodup.map (Option.some_injective ℕ) List.nodup_range'
  have hpair := hnodup.sublist hsub
  rw [List.map_cons, List.map_cons, hnumber] at hpair
  exact (List.nodup_cons.1 hpair).1 List.mem_cons_self

theorem fragments_numbered (list : List (Carried pid)) (k : ℕ) :
    ∀ input ∈ (numbered k list).flatten, ∃ start, Fragment pid start input.2 := by
  induction list generalizing k with
  | nil => exact fun _ h => (nomatch h)
  | cons c list ih =>
    intro input h
    rw [numbered, List.flatten_cons, List.mem_append] at h
    rcases h with h | h
    · obtain ⟨packet, hpacket, rfl⟩ := List.mem_map.1 h
      obtain rfl | hpacket := List.mem_cons.1 hpacket
      · exact ⟨true, c.first_fragment⟩
      · exact ⟨false, c.rest_fragments packet hpacket⟩
    · exact ih _ input h

/-- A PES packet stays one with more bytes behind it. -/
theorem PesHeader.append {data : Bytes} (h : PesHeader data) (more : Bytes) :
    PesHeader (data ++ more) ∧ esData (data ++ more) = esData data ++ more := by
  obtain ⟨hlen, hcode, hmarker, hheader⟩ := h
  have hbyte (i : ℕ) (hi : i < 9) : byte (data ++ more) i = byte data i := byte_append_left (by omega) more
  refine ⟨⟨?_, hcode.trans (List.prefix_append _ _), ?_, ?_⟩, ?_⟩
  · rw [List.length_append]
    omega
  · rwa [hbyte 6 (by omega)]
  · rw [hbyte 8 (by omega), List.length_append]
    omega
  · rw [esData, hbyte 8 (by omega), List.drop_append_of_le_length hheader, esData]

theorem PesReassembler.Complete.append (h : r.Complete) (more : Bytes) :
    PesReassembler.Complete { r with buffer := r.buffer ++ more } := by
  obtain ⟨hheader, p, hp⟩ := h
  obtain ⟨hheader', hdata⟩ := hheader.append more
  refine ⟨hheader', p, ?_⟩
  rw [hdata]
  exact Begins.append (P := Mark r.streamType) (fun _ more hl => hl.append more) hp more

namespace Tracked

theorem finished_fresh (h : Recognised build streamType c) (k : ℕ) :
    ∃ pes, (fresh streamType k c).reasm.finished build = .ok (some pes) := by
  obtain ⟨pes, hpes⟩ := h
  exact ⟨pes, PesReassembler.finished_eq_some.2 hpes⟩

/-- The first of a list. -/
theorem run_first (c : Carried pid) (k : ℕ) : run (push build) (new pid streamType) (c.packets.map (k, ·)) =
    .ok (none :: List.replicate c.rest.length none, fresh streamType k c) :=
  have hempty : (new pid streamType).reasm.finished build = .ok none := rfl
  run_packets rfl hempty

/-- The second: the first is handed out, and of the second all TS packets but the one that starts it go behind the
first in the buffer. -/
theorem run_second {k : ℕ} {d : Carried pid} {pes : Pes}
    (hpes : (fresh streamType k c).reasm.finished build = .ok (some pes)) (j : ℕ) :
    run (push build) (fresh streamType k c) (d.packets.map (j, ·)) =
      .ok (some (pes, c.packets.map (k, ·)) :: List.replicate d.rest.length none,
        (fresh streamType k c).append (d.rest.map (j, ·))) :=
  run_packets rfl hpes

/-- The third: what is handed out begins with the first. -/
theorem run_third {k : ℕ} {more : Origin} {e : Carried pid} {pes : Pes} {y : List (Option (Pes × Origin)) × Tracked}
    (hpes : (fresh streamType k c).reasm.finished build = .ok (some pes)) (j : ℕ)
    (hy : run (push build) ((fresh streamType k c).append more) (e.packets.map (j, ·)) = .ok y) :
    ∃ pes' outs, y.1 = some (pes', c.packets.map (k, ·) ++ more) :: outs := by
  obtain ⟨x, hx, y', -, rfl⟩ := run_cons_eq_ok.1 hy
  rw [push_first e.first_fragment rfl] at hx
  obtain ⟨found, hfound, hx⟩ := ck_eq_ok.1 hx
  have hcomplete := ((PesReassembler.finished_isSome hpes).1 rfl).append more.bytes
  obtain ⟨pes', rfl⟩ := Option.isSome_iff_exists.1 ((PesReassembler.finished_isSome hfound).2 hcomplete)
  cases hx
  exact ⟨pes', y'.1, rfl⟩

end Tracked

open Tracked in
/-- With the third the first is handed out again, and what the second left behind it. -/
theorem not_faithful {d e : Carried pid} (h : Recognised build streamType c) :
    ¬ Faithful build streamType (c :: d :: e :: list) := by
  obtain ⟨pes, hpes⟩ := finished_fresh h 0
  rintro ⟨outs, t, hrun, hsub, -⟩
  obtain ⟨y₁, hfirst, z₁, hrun₁, hy⟩ := run_append_eq_ok.1 hrun
  obtain rfl := Except.ok.inj ((run_first c 0).symm.trans hfirst)
  obtain ⟨y₂, hsecond, z₂, hrun₂, rfl⟩ := run_append_eq_ok.1 hrun₁
  obtain rfl := Except.ok.inj ((run_second hpes 1).symm.trans hsecond)
  obtain ⟨y₃, hthird, z₃, -, rfl⟩ := run_append_eq_ok.1 hrun₂
  obtain ⟨pes', outs', hout⟩ := run_third hpes 2 hthird
  cases hy
  rw [hout] at hsub
  have hsub' : c.packets.map (0, ·) :: (c.packets.map (0, ·) ++ d.rest.map (1, ·)) ::
      (outs' ++ z₃.1).reduceOption.map Prod.snd <+ numbered 0 (c :: d :: e :: list) := by
    simpa [List.reduceOption_append] using hsub
  have hnumber : number (c.packets.map (0, ·)) = number (c.packets.map (0, ·) ++ d.rest.map (1, ·)) := rfl
  exact not_sublist_numbered hnumber 0 hsub'

open Tracked in
/-- **What is handed out are PES packets of the list** if and only if there are at most two. -/
theorem faithful_iff (h : ∀ c ∈ list, Recognised build streamType c) :
    Faithful build streamType list ↔ list.length ≤ 2 := by
  have hsound {outs : List (Option (Pes × Origin))} {t : Tracked}
      (hrun : run (push build) (new pid streamType) (numbered 0 list).flatten = .ok (outs, t)) :
      ∀ out ∈ outs, Parsed build pid streamType out := (run_sound sound_new (fragments_numbered list 0) hrun).2
  rcases list with _ | ⟨c, _ | ⟨d, _ | ⟨e, list⟩⟩⟩
  · exact iff_of_true ⟨[], _, rfl, List.Sublist.slnil, fun _ h => (nomatch h)⟩ (by simp)
  · have hrun : run (push build) (new pid streamType) (numbered 0 [c]).flatten = _ :=
      run_append_eq_ok.2 ⟨_, run_first c 0, _, rfl, rfl⟩
    refine iff_of_true ⟨_, _, hrun, ?_, hsound hrun⟩ (by simp)
    simp
  · obtain ⟨pes, hpes⟩ := finished_fresh (h c List.mem_cons_self) 0
    have hrun : run (push build) (new pid streamType) (numbered 0 [c, d]).flatten = _ :=
      run_append_eq_ok.2 ⟨_, run_first c 0, _, run_append_eq_ok.2 ⟨_, run_second hpes 1, _, rfl, rfl⟩, rfl⟩
    refine iff_of_true ⟨_, _, hrun, ?_, hsound hrun⟩ (by simp)
    simp [numbered, List.reduceOption_append]
  · exact iff_of_false (not_faithful (h c List.mem_cons_self)) (by simp)

/-- The bytes of a TS packet of PID 256 with such a payload, behind stuffing. -/
def stuffing (start : Bool) (piece : Bytes) : Bytes :=
  [0x47, if start then 0x41 else 0x01, 0x00, 0x30, UInt8.ofNat (183 - piece.length), 0x00] ++
    List.replicate (182 - piece.length) 0xFF ++ piece

theorem length_stuffing (start : Bool) {piece : Bytes} (h : piece.length ≤ 182) :
    (stuffing start piece).length = tsPacketSize := by
  simp only [stuffing, List.length_append, List.length_cons, List.length_nil, List.length_replicate, tsPacketSize]
  omega

def stuffed (start : Bool) (piece : Bytes) (h : piece.length ≤ 182) : Packet :=
  ⟨stuffing start piece, length_stuffing start h⟩

theorem payload_stuffed (start : Bool) {piece : Bytes} (h : piece.length ≤ 182) :
    payload (stuffed start piece h) = piece := by
  have hcontrol : afControl (stuffed start piece h).bytes = 3 := by
    change (0x30 : UInt8) >>> 4 &&& 0x03 = 3
    decide
  have hlength : (byte (stuffed start piece h).bytes 4).toNat = 183 - piece.length := by
    change (UInt8.ofNat (183 - piece.length)).toNat = _
    rw [UInt8.toNat_ofNat', Nat.mod_eq_of_lt (by omega)]
  rw [payload, pesOffset, hcontrol, if_neg (by decide), if_pos rfl, Option.getD_some, hlength]
  change (stuffing start piece).drop _ = piece
  refine List.drop_left' ?_
  simp only [List.length_append, List.length_cons, List.length_nil, List.length_replicate]
  omega

theorem fragment_stuffed (start : Bool) {piece : Bytes} (h : piece.length ≤ 182) (hne : piece ≠ []) :
    Fragment 0x100 start (stuffed start piece h) where
  sync := rfl
  pid_eq := by
    cases start with
    | false => exact (by decide : be16 0x1F 0x01 0x00 = 0x100)
    | true => exact (by decide : be16 0x1F 0x41 0x00 = 0x100)
  starts_iff := by
    cases start with
    | false => exact (by decide : (0x01 : UInt8) &&& 0x40 ≠ 0 ↔ false = true)
    | true => exact (by decide : (0x41 : UInt8) &&& 0x40 ≠ 0 ↔ true = true)
  payload_ne := by rwa [payload_stuffed]

/-- A PES packet with such flags, one byte behind its header, in two TS packets. -/
def flagged (flags : UInt8) : Carried 0x100 where
  first := stuffed true [0x00, 0x00, 0x01, 0xE0, 0x00, 0x00, 0x80, flags, 0x00] (by simp)
  rest := [stuffed false [flags] (by simp)]
  first_fragment := fragment_stuffed true _ (by simp)
  rest_fragments := by
    intro packet h
    rw [List.mem_singleton.1 h]
    exact fragment_stuffed false _ (by simp)

theorem bytes_flagged (flags : UInt8) :
    (flagged flags).bytes = [0x00, 0x00, 0x01, 0xE0, 0x00, 0x00, 0x80, flags, 0x00, flags] := by
  simp only [Carried.bytes, Carried.packets, flagged, List.flatMap_cons, List.flatMap_nil, payload_stuffed]
  rfl

/-- A private stream, of which nothing needs to be found. -/
theorem recognised_flagged (flags : UInt8) : Recognised build 6 (flagged flags) := by
  have hheader : PesHeader [0x00, 0x00, 0x01, 0xE0, 0x00, 0x00, 0x80, flags, 0x00, flags] :=
    ⟨by simp, ⟨_, rfl⟩, (by decide : (0x80 : UInt8) >>> 6 = 0x02), (by simp [byte])⟩
  refine ⟨pesOf (flagged flags).bytes (some .unknown), ?_, rfl⟩
  rw [Parser.parse_eq, bytes_flagged, if_pos hheader]
  rfl

theorem faithful_flagged : Faithful .release 6 [flagged 0x80, flagged 0x00] ↔ [flagged 0x80, flagged 0x00].length ≤ 2 :=
  faithful_iff fun c h => by
    rcases List.mem_pair.1 h with rfl | rfl
    · exact recognised_flagged _
    · exact recognised_flagged _

/-- Three such packets. -/
theorem unfaithful_flagged : ¬ ∀ (build : Build) (pid : UInt16) (streamType : UInt8) (list : List (Carried pid)),
    (∀ c ∈ list, Recognised build streamType c) → Faithful build streamType list := by
  intro h
  refine not_faithful (recognised_flagged 0x80) (h .release 0x100 6 [flagged 0x80, flagged 0x00, flagged 0x00] ?_)
  simp [recognised_flagged]

end MyMuxer
