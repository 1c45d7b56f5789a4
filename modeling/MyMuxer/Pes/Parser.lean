import MyMuxer.Packet
import MyMuxer.Pes.Recognised

/-!
# PES packets (`pes/pes.rs`, `pes/parser.rs`)

* `Parser.parse`, `PesReassembler.push`, `PesReassemblerMap.push`: as in the source.
* `PesHeader`, `esData`; `Parser.parse_eq`: what `parse` makes of a PES packet.
* `PesReassembler.Allows`: a packet whose payload is in it where this is taken.
* **`PesReassemblerMap.pushAll_finishes`**: when a run reads within its packets and buffers, and when it finishes.
-/

namespace MyMuxer

open Search Errors

structure Pes where
  streamId : UInt8 := 0
  scrabling : UInt8 := 0
  priority : UInt8 := 0
  alignmentIndicator : UInt8 := 0
  copyright : UInt8 := 0
  originalOrCopy : UInt8 := 0
  flagsPtsDts : UInt8 := 0
  flagEscr : UInt8 := 0
  flagEsRate : UInt8 := 0
  flagDsmTrickMode : UInt8 := 0
  flagAdditionalCopyInfo : UInt8 := 0
  flagCrc : UInt8 := 0
  flagExtension : UInt8 := 0
  es : Option Es := none
  deriving DecidableEq

/-- The fields that `parse` sets, but for `es`. -/
def Pes.ofHeader (tmpMarker : UInt8) (flags : UInt16) : Pes where
  streamId := tmpMarker &&& 0xFF
  scrabling := (flags >>> 12 &&& 0x03).toUInt8
  priority := (flags >>> 11 &&& 0x01).toUInt8
  alignmentIndicator := (flags >>> 10 &&& 0x01).toUInt8
  copyright := (flags >>> 9 &&& 0x01).toUInt8
  originalOrCopy := (flags >>> 8 &&& 0x01).toUInt8
  flagsPtsDts := (flags >>> 6 &&& 0x03).toUInt8
  flagEscr := (flags >>> 5 &&& 0x01).toUInt8
  flagEsRate := (flags >>> 4 &&& 0x01).toUInt8
  flagDsmTrickMode := (flags >>> 3 &&& 0x01).toUInt8
  flagAdditionalCopyInfo := (flags >>> 2 &&& 0x01).toUInt8
  flagCrc := (flags >>> 1 &&& 0x01).toUInt8
  flagExtension := (flags &&& 0x01).toUInt8

def Parser.parse (build : Build) (data : Bytes) (_pid : UInt16) (streamType : Option UInt8) : Ck (Option Pes) := do
  if data.length < 4 then return none
  let pointer := 0
  if data.length < pointer + 4 then return none
  let startCode := be32 (← idx data pointer) (← idx data (pointer + 1)) (← idx data (pointer + 2))
    (← idx data (pointer + 3))
  let pointer := pointer + 4
  if startCode >>> 8 ≠ 0x000001 then return none
  if data.length < pointer + 3 then return none
  let tmpMarker ← idx data (pointer + 2)
  if tmpMarker >>> 6 ≠ 0x02 then return none
  if data.length < pointer + 2 then return none
  let _pesPacketLen := be16 0xFFFF (← idx data pointer) (← idx data (pointer + 1))
  let pointer := pointer + 2
  if data.length < pointer + 2 then return none
  let flags := be16 0xFFFF (← idx data pointer) (← idx data (pointer + 1))
  let pointer := pointer + 2
  if data.length ≤ pointer then return none
  let pesHeaderLen := (← idx data pointer).toNat
  let pointer := pointer + (1 + pesHeaderLen)
  if data.length < pointer then return none
  match streamType with
  | none => return some (.ofHeader tmpMarker flags)
  | some streamType =>
    let esData ← slice data pointer data.length
    return some { Pes.ofHeader tmpMarker flags with es := ← EsParser.parse build streamType esData }

structure PesReassembler where
  pid : UInt16
  streamType : UInt8
  buffer : Bytes
  deriving DecidableEq

namespace PesReassembler

def new (pid : UInt16) (streamType : UInt8) : PesReassembler where
  pid
  streamType
  buffer := []

/-- What is handed out of the buffer when the next PES packet starts. -/
def finished (build : Build) (r : PesReassembler) : Ck (Option Pes) := do
  if r.buffer ≠ [] then
    return (← Parser.parse build r.buffer r.pid (some r.streamType)).filter fun result => result.es.isSome
  else return none

def push (build : Build) (r : PesReassembler) (packet : Bytes) : Ck (Option Pes × PesReassembler) := do
  if packet.length < 188 ∨ byte packet 0 ≠ 0x47 then return (none, r)
  if pktPid packet ≠ r.pid then return (none, r)
  match pesOffset packet with
  | none => return (none, r)
  | some offset =>
    if byte packet 1 &&& 0x40 ≠ 0 then
      match ← r.finished build with
      | some result => return (some result, r)
      | none => return (none, { r with buffer := ← slice packet offset packet.length })
    else if r.buffer ≠ [] then
      return (none, { r with buffer := r.buffer ++ (← slice packet offset packet.length) })
    else return (none, r)

end PesReassembler

structure PesReassemblerMap where
  perPid : UInt16 → Option PesReassembler

namespace PesReassemblerMap

def new : PesReassemblerMap := ⟨fun _ => none⟩

/-- `entry(pid).or_insert_with(|| PesReassembler::new(pid, stream_type))`. -/
def reasm (m : PesReassemblerMap) (pid : UInt16) (streamType : UInt8) : PesReassembler :=
  (m.perPid pid).getD (.new pid streamType)

def push (build : Build) (m : PesReassemblerMap) (packet : Bytes) (pidToStream : UInt16 → Option UInt8) :
    Ck (Option Pes × PesReassemblerMap) := do
  if packet.length < tsPacketSize ∨ byte packet 0 ≠ tsSyncByte then return (none, m)
  let pid := pktPid packet
  match pidToStream pid with
  | none => return (none, m)
  | some streamType =>
    let (found, reasm) ← (m.reasm pid streamType).push build packet
    return (found, ⟨Function.update m.perPid pid (some reasm)⟩)

end PesReassemblerMap

/-! ## The header of a PES packet -/

/-- What `parse` checks: the start code, the two bits before the flags, and that the header is complete. -/
def PesHeader (data : Bytes) : Prop :=
  9 ≤ data.length ∧ [0x00, 0x00, 0x01] <+: data ∧ byte data 6 >>> 6 = 0x02 ∧ 9 + (byte data 8).toNat ≤ data.length

/-- What follows the header. -/
def esData (data : Bytes) : Bytes := data.drop (9 + (byte data 8).toNat)

instance (data : Bytes) : Decidable (PesHeader data) := by unfold PesHeader; infer_instance

def pesOf (data : Bytes) (es : Option Es) : Pes :=
  { Pes.ofHeader (byte data 6) (be16 0xFFFF (byte data 6) (byte data 7)) with es }

variable {build : Build} {pid : UInt16} {streamType : UInt8} {data more : Bytes}

theorem startCode_iff (h : 4 ≤ data.length) :
    be32 (byte data 0) (byte data 1) (byte data 2) (byte data 3) >>> 8 = 0x000001 ↔ [0x00, 0x00, 0x01] <+: data := by
  have h0 := (byte data 0).toNat_lt
  have h1 := (byte data 1).toNat_lt
  have h2 := (byte data 2).toNat_lt
  have h3 := (byte data 3).toNat_lt
  have hdata : data = byte data 0 :: byte data 1 :: byte data 2 :: data.drop 3 :=
    EsParser27.drop_eq_three (show 0 + 2 < data.length by omega)
  rw [← UInt32.toNat_inj, UInt32.toNat_shiftRight, Nat.shiftRight_eq_div_pow, be32_toNat]
  conv_rhs => rw [hdata]
  simp only [List.cons_prefix_cons, List.nil_prefix, and_true, ← UInt8.toNat_inj]
  change _ / 2 ^ 8 = 1 ↔ 0 = _ ∧ 0 = _ ∧ 1 = _
  omega

/-- **What `parse` makes of its data.** -/
theorem Parser.parse_eq : Parser.parse build data pid (some streamType) =
    if PesHeader data then EsParser.parse build streamType (esData data) >>= fun es => .ok (some (pesOf data es))
    else .ok none := by
  have hbyte (i : ℕ) (h : i < data.length) : (liftM (idx data i) : Ck UInt8) = .ok (byte data i) := by
    rw [idx_of_lt h]
    rfl
  have hshort (h : data.length < 9) : ¬ PesHeader data := fun h' => by
    have := h'.1
    omega
  unfold Parser.parse
  by_cases h4 : data.length < 4
  · rw [if_pos h4, if_neg (hshort (by omega))]
    rfl
  rw [if_neg h4, if_neg (by omega), hbyte 0 (by omega), ck_bind, hbyte (0 + 1) (by omega), ck_bind,
    hbyte (0 + 2) (by omega), ck_bind, hbyte (0 + 3) (by omega), ck_bind]
  by_cases hcode : [0x00, 0x00, 0x01] <+: data
  · rw [if_neg (not_not.2 ((startCode_iff (by omega)).2 hcode))]
    by_cases h7 : data.length < 7
    · rw [if_pos h7, if_neg (hshort (by omega))]
      rfl
    rw [if_neg h7, hbyte _ (by omega), ck_bind]
    by_cases hmarker : byte data 6 >>> 6 = 0x02
    · rw [if_neg (not_not.2 hmarker), if_neg (by omega), hbyte _ (by omega), ck_bind, hbyte _ (by omega), ck_bind]
      by_cases h8 : data.length < 8
      · rw [if_pos h8, if_neg (hshort (by omega))]
        rfl
      rw [if_neg h8, hbyte _ (by omega), ck_bind, hbyte _ (by omega), ck_bind]
      by_cases h9 : data.length < 9
      · rw [if_pos (Nat.lt_succ_iff.1 h9), if_neg (hshort h9)]
        rfl
      rw [if_neg (by omega), hbyte _ (by omega), ck_bind, show 0 + 4 + 2 + 2 = 8 from rfl]
      by_cases hheader : data.length < 9 + (byte data 8).toNat
      · rw [if_pos (by omega), if_neg fun h => absurd h.2.2.2 (Nat.not_le.2 hheader)]
        rfl
      rw [if_neg (by omega), if_pos ⟨by omega, hcode, hmarker, by omega⟩]
      have hslice : (liftM (slice data (8 + (1 + (byte data 8).toNat)) data.length) : Ck Bytes) =
          .ok (esData data) := by
        rw [slice_of_le (by omega) le_rfl, List.take_of_length_le (by rw [List.length_drop]), esData]
        exact congrArg (fun n => Except.ok (data.drop n)) (by omega)
      exact congrArg (· >>= _) hslice
    · rw [if_pos hmarker, if_neg fun h => hmarker h.2.2.1]
      rfl
  · rw [if_pos (mt (startCode_iff (by omega)).1 hcode), if_neg fun h => hcode h.2.1]
    rfl

/-! ## One reassembler -/

namespace PesReassembler

variable {r r' : PesReassembler} {packet : Bytes} {offset : ℕ} {found : Option Pes}

/-- In the buffer is a PES packet of which something is found out. -/
def Complete (r : PesReassembler) : Prop := PesHeader r.buffer ∧ (Begins (Mark r.streamType) (esData r.buffer)).Nonempty

theorem finished_eq (build : Build) (r : PesReassembler) : r.finished build =
    if PesHeader r.buffer then EsParser.parse build r.streamType (esData r.buffer) >>= fun es =>
      .ok (if es.isSome then some (pesOf r.buffer es) else none)
    else .ok none := by
  rw [finished, Parser.parse_eq]
  by_cases hheader : PesHeader r.buffer
  · have hne : r.buffer ≠ [] := fun h => by
      have := hheader.1
      rw [h] at this
      cases this
    rw [if_pos hne, if_pos hheader, if_pos hheader]
    cases EsParser.parse build r.streamType (esData r.buffer) with
    | error e => rfl
    | ok es => cases es <;> rfl
  · rw [if_neg hheader, if_neg hheader]
    split_ifs
    · rfl
    · rfl

theorem finished_isSome (he : r.finished build = .ok found) : found.isSome ↔ r.Complete := by
  rw [finished_eq] at he
  split_ifs at he with hheader
  · obtain ⟨es, hes, he⟩ := ck_eq_ok.1 he
    rw [Complete, and_iff_right hheader, ← EsParser.parse_isSome hes]
    cases he
    cases es <;> rfl
  · cases he
    exact iff_of_false Bool.false_ne_true fun h => hheader h.1

/-- What is handed out is what `parse` makes of the buffer. -/
theorem finished_eq_some {pes : Pes} : r.finished build = .ok (some pes) ↔
    Parser.parse build r.buffer r.pid (some r.streamType) = .ok (some pes) ∧ pes.es.isSome := by
  rw [finished_eq, Parser.parse_eq]
  split_ifs with hheader
  · cases EsParser.parse build r.streamType (esData r.buffer) with
    | error e => exact iff_of_false (fun h => (nomatch h)) fun h => (nomatch h.1)
    | ok es =>
      cases es with
      | none =>
        refine iff_of_false (fun h => (nomatch h)) ?_
        rintro ⟨⟨rfl⟩, h⟩
        cases h
      | some es =>
        constructor
        · rintro ⟨rfl⟩
          exact ⟨rfl, rfl⟩
        · exact fun h => h.1
  · exact iff_of_false (fun h => (nomatch h)) fun h => (nomatch h.1)

theorem finished_incomplete (h : PesHeader r.buffer → r.streamType = 27 → 2 ≤ (esData r.buffer).length)
    (hnone : ¬ r.Complete) : r.finished build = .ok none := by
  rw [finished_eq]
  split_ifs with hheader
  · rw [EsParser.parse_unmarked (h hheader) fun hmark => hnone ⟨hheader, hmark⟩]
    rfl
  · rfl

theorem finished_inRange (h : PesHeader r.buffer → r.streamType = 27 → 2 ≤ (esData r.buffer).length) :
    Raises InRange (r.finished build) := by
  rw [finished_eq]
  split_ifs with hheader
  · exact (EsParser.parse_inRange (h hheader)).bind fun _ => raises_ok _
  · exact raises_ok none

theorem finished_short (hheader : PesHeader r.buffer) (h27 : r.streamType = 27) (h : (esData r.buffer).length < 2) :
    r.finished .release = .error (.panic .indexOutOfRange) := by
  rw [finished_eq, if_pos hheader, h27, EsParser.parse_short h]
  rfl

theorem finished_of_debug (he : r.finished .debug = .ok found) : r.finished build = .ok found := by
  rw [finished_eq] at he ⊢
  split_ifs at he ⊢
  · obtain ⟨es, hes, he⟩ := ck_eq_ok.1 he
    rw [EsParser.parse_of_debug hes]
    exact he
  · exact he

theorem finished_returns : (∃ found, ∀ build, r.finished build = .ok found) ↔
    (PesHeader r.buffer → r.streamType = 27 → EsParser27.Parsable (esData r.buffer)) := by
  simp only [finished_eq]
  by_cases hheader : PesHeader r.buffer
  · simp only [if_pos hheader]
    rw [forall_prop_of_true hheader, ← EsParser.returns_iff]
    constructor
    · rintro ⟨found, h⟩
      obtain ⟨es, hes, -⟩ := ck_eq_ok.1 (h .debug)
      exact ⟨es, fun build => EsParser.parse_of_debug hes⟩
    · rintro ⟨es, h⟩
      exact ⟨_, fun build => by rw [h build]; rfl⟩
  · simp only [if_neg hheader]
    exact iff_of_true ⟨none, fun _ => rfl⟩ fun h => absurd h hheader

/-- The packet is one of the PID, and begins with a sync byte. -/
def Receives (r : PesReassembler) (packet : Bytes) : Prop :=
  188 ≤ packet.length ∧ byte packet 0 = 0x47 ∧ pktPid packet = r.pid

/-- `payload_unit_start_indicator`. -/
def Starts (packet : Bytes) : Prop := byte packet 1 &&& 0x40 ≠ 0

instance (packet : Bytes) : Decidable (Starts packet) := by unfold Starts; infer_instance

/-- The payload goes into the buffer: at the start of a PES packet, unless one is handed out then. -/
def Takes (r : PesReassembler) (packet : Bytes) : Prop := if Starts packet then ¬ r.Complete else r.buffer ≠ []

/-- The payload is in the packet where it is taken, and an H.264 stream is of a kind where it is parsed. -/
def Allows (Data : Bytes → Prop) (r : PesReassembler) (packet : Bytes) : Prop :=
  r.Receives packet → ∀ offset ∈ pesOffset packet,
    (Starts packet → PesHeader r.buffer → r.streamType = 27 → Data (esData r.buffer)) ∧
      (r.Takes packet → offset ≤ packet.length)

theorem push_of_not_receives (h : ¬ r.Receives packet) : r.push build packet = .ok (none, r) := by
  unfold push
  by_cases hguard : packet.length < 188 ∨ byte packet 0 ≠ 0x47
  · rw [if_pos hguard]
    rfl
  rw [if_neg hguard]
  by_cases hpid : pktPid packet ≠ r.pid
  · rw [if_pos hpid]
    rfl
  · rw [not_or, not_not, Nat.not_lt] at hguard
    exact absurd ⟨hguard.1, hguard.2, not_not.1 hpid⟩ h

theorem push_eq (h : r.Receives packet) : r.push build packet =
    match pesOffset packet with
    | none => .ok (none, r)
    | some offset =>
      if Starts packet then do
        match ← r.finished build with
        | some result => return (some result, r)
        | none => return (none, { r with buffer := ← slice packet offset packet.length })
      else if r.buffer ≠ [] then
        return (none, { r with buffer := r.buffer ++ (← slice packet offset packet.length) })
      else return (none, r) := by
  obtain ⟨hlen, hsync, hpid⟩ := h
  unfold push
  rw [if_neg fun h => h.elim (Nat.not_lt.2 hlen) fun h => h hsync, if_neg fun h => h hpid]
  rfl

/-- The end of a packet from a position on. -/
theorem slice_end (h : offset ≤ packet.length) : slice packet offset packet.length = .ok (packet.drop offset) := by
  rw [slice_of_le h le_rfl, List.take_of_length_le (by rw [List.length_drop])]

theorem slice_behind (h : ¬ offset ≤ packet.length) : slice packet offset packet.length = .error .sliceOutOfRange :=
  if_neg fun h' => h h'.1

theorem push_of_none (hoffset : pesOffset packet = none) : r.push build packet = .ok (none, r) := by
  by_cases h : r.Receives packet
  · rw [push_eq h, hoffset]
  · exact push_of_not_receives h

/-- **What a push does** with the payload of a packet. -/
theorem push_within (h : r.Receives packet) (hoffset : pesOffset packet = some offset) (hlen : offset ≤ packet.length) :
    r.push build packet =
      if Starts packet then
        r.finished build >>= fun found =>
          .ok (found, if found.isSome then r else { r with buffer := packet.drop offset })
      else .ok (none, if r.buffer ≠ [] then { r with buffer := r.buffer ++ packet.drop offset } else r) := by
  rw [push_eq h, hoffset]
  dsimp only
  rw [slice_end hlen]
  split_ifs with hstarts hbuffer
  · cases r.finished build with
    | error e => rfl
    | ok found => cases found <;> rfl
  · rfl
  · rfl

/-- A payload that is taken, and is not in the packet. -/
theorem push_behind (h : r.Receives packet) (hoffset : pesOffset packet = some offset) (htake : r.Takes packet)
    (hlen : ¬ offset ≤ packet.length) (hfound : Starts packet → r.finished build = .ok none) :
    r.push build packet = .error (.panic .sliceOutOfRange) := by
  rw [push_eq h, hoffset]
  dsimp only
  rw [slice_behind hlen]
  by_cases hstarts : Starts packet
  · rw [if_pos hstarts, hfound hstarts]
    rfl
  · rw [Takes, if_neg hstarts] at htake
    rw [if_neg hstarts, if_pos htake]
    rfl

/-- **A push reads within the packet and the buffer.** -/
theorem push_inRange (h : r.Allows (2 ≤ ·.length) packet) : Raises InRange (r.push build packet) := by
  by_cases hrec : r.Receives packet
  · cases hoffset : pesOffset packet with
    | none =>
      rw [push_of_none hoffset]
      exact raises_ok _
    | some offset =>
      obtain ⟨hdata, htake⟩ := h hrec offset hoffset
      rw [push_eq hrec, hoffset]
      dsimp only
      split_ifs with hstarts hbuffer
      · refine Raises.bind_of_ok (finished_inRange (hdata hstarts)) fun found hfound => ?_
        cases found with
        | some result => exact raises_ok _
        | none =>
          have hnot : ¬ r.Complete := fun hc => nomatch (finished_isSome hfound).2 hc
          dsimp only
          rw [slice_end (htake (by rwa [Takes, if_pos hstarts]))]
          exact raises_ok _
      · rw [slice_end (htake (by rwa [Takes, if_neg hstarts]))]
        exact raises_ok _
      · exact raises_ok _
  · rw [push_of_not_receives hrec]
    exact raises_ok _

/-- A release build goes out of range otherwise. -/
theorem allows_of_release (h : Raises InRange (r.push .release packet)) : r.Allows (2 ≤ ·.length) packet := by
  intro hrec offset hoffset
  have hdata (hstarts : Starts packet) (hheader : PesHeader r.buffer) (h27 : r.streamType = 27) :
      2 ≤ (esData r.buffer).length := by
    by_contra hshort
    refine (h (.panic .indexOutOfRange) ?_).1 rfl
    rw [push_eq hrec, hoffset]
    dsimp only
    rw [if_pos hstarts, finished_short hheader h27 (Nat.lt_of_not_le hshort)]
    rfl
  refine ⟨hdata, fun htake => ?_⟩
  by_contra hlen
  refine (h (.panic .sliceOutOfRange) (push_behind hrec hoffset htake hlen fun hstarts => ?_)).2 rfl
  rw [Takes, if_pos hstarts] at htake
  exact finished_incomplete (hdata hstarts) htake

/-- What a debug build returns, a release build returns too. -/
theorem push_of_debug {x : Option Pes × PesReassembler} (he : r.push .debug packet = .ok x) :
    r.push build packet = .ok x := by
  by_cases hrec : r.Receives packet
  · rw [push_eq hrec] at he ⊢
    cases hoffset : pesOffset packet with
    | none =>
      rw [hoffset] at he
      exact he
    | some offset =>
      rw [hoffset] at he
      dsimp only at he ⊢
      by_cases hstarts : Starts packet
      · rw [if_pos hstarts] at he ⊢
        obtain ⟨found, hfound, he⟩ := ck_eq_ok.1 he
        rw [finished_of_debug hfound]
        exact he
      · rw [if_neg hstarts] at he ⊢
        exact he
  · rw [push_of_not_receives hrec] at he ⊢
    exact he

/-- **A push returns**, and with the same in both builds. -/
theorem push_returns : (∃ x, ∀ build, r.push build packet = .ok x) ↔ r.Allows EsParser27.Parsable packet := by
  constructor
  · rintro ⟨x, hx⟩ hrec offset hoffset
    have hfound (hstarts : Starts packet) : ∃ found, ∀ build, r.finished build = .ok found := by
      have he := hx .debug
      rw [push_eq hrec, hoffset] at he
      dsimp only at he
      rw [if_pos hstarts] at he
      obtain ⟨found, hfound, -⟩ := ck_eq_ok.1 he
      exact ⟨found, fun build => finished_of_debug hfound⟩
    refine ⟨fun hstarts => finished_returns.1 (hfound hstarts), fun htake => ?_⟩
    by_contra hlen
    have he := hx .debug
    rw [push_behind hrec hoffset htake hlen fun hstarts => ?_] at he
    · cases he
    · obtain ⟨found, hfound⟩ := hfound hstarts
      rw [Takes, if_pos hstarts, ← finished_isSome (hfound .debug), Option.not_isSome_iff_eq_none] at htake
      rw [hfound .debug, htake]
  · intro h
    by_cases hrec : r.Receives packet
    · cases hoffset : pesOffset packet with
      | none => exact ⟨_, fun build => push_of_none hoffset⟩
      | some offset =>
        obtain ⟨hdata, htake⟩ := h hrec offset hoffset
        simp only [push_eq hrec, hoffset]
        by_cases hstarts : Starts packet
        · obtain ⟨found, hfound⟩ := finished_returns.2 (hdata hstarts)
          simp only [if_pos hstarts, hfound, ck_bind]
          cases found with
          | some result => exact ⟨_, fun _ => rfl⟩
          | none =>
            have hnot : ¬ r.Complete := fun hc => nomatch (finished_isSome (hfound .debug)).2 hc
            rw [slice_end (htake (by rwa [Takes, if_pos hstarts]))]
            exact ⟨_, fun _ => rfl⟩
        · simp only [if_neg hstarts]
          by_cases hbuffer : r.buffer ≠ []
          · rw [if_pos hbuffer, slice_end (htake (by rwa [Takes, if_neg hstarts]))]
            exact ⟨_, fun _ => rfl⟩
          · rw [if_neg hbuffer]
            exact ⟨_, fun _ => rfl⟩
    · exact ⟨_, fun build => push_of_not_receives hrec⟩

end PesReassembler

/-! ## Runs -/

namespace PesReassemblerMap

/-- A packet, and what is known of the streams when it comes. -/
abbrev Input : Type := Packet × (UInt16 → Option UInt8)

def pushInput (build : Build) (m : PesReassemblerMap) (input : Input) : Ck (Option Pes × PesReassemblerMap) :=
  m.push build input.1.bytes input.2

/-- Push after push. -/
def pushAll (build : Build) : PesReassemblerMap → List Input → Ck (List (Option Pes) × PesReassemblerMap) :=
  run (pushInput build)

/-- The reassembler of the packet's stream, if it has one, allows the packet. -/
def Allows (Data : Bytes → Prop) (m : PesReassemblerMap) (input : Input) : Prop :=
  ∀ streamType ∈ input.2 (pktPid input.1.bytes),
    (m.reasm (pktPid input.1.bytes) streamType).Allows Data input.1.bytes

variable {m : PesReassemblerMap} {input : Input}

/-- A push is one to a reassembler, or nothing at all. -/
theorem pushInput_cases (m : PesReassemblerMap) (input : Input) :
    ((∀ build, pushInput build m input = .ok (none, m)) ∧ ∀ Data, m.Allows Data input) ∨
      ∃ (r : PesReassembler) (next : PesReassembler → PesReassemblerMap),
        (∀ build, pushInput build m input = r.push build input.1.bytes >>= fun x => .ok (x.1, next x.2)) ∧
          ∀ Data, m.Allows Data input ↔ r.Allows Data input.1.bytes := by
  by_cases hguard : input.1.bytes.length < tsPacketSize ∨ byte input.1.bytes 0 ≠ tsSyncByte
  · refine .inl ⟨fun build => if_pos hguard, fun Data streamType _ hrec => ?_⟩
    exact absurd hguard fun h => h.elim (Nat.not_lt.2 hrec.1) fun h => h hrec.2.1
  · cases hstream : input.2 (pktPid input.1.bytes) with
    | none =>
      refine .inl ⟨fun build => ?_, fun Data streamType h => ?_⟩
      · rw [pushInput, push, if_neg hguard]
        dsimp only
        rw [hstream]
        rfl
      · rw [hstream] at h
        cases h
    | some streamType =>
      refine .inr ⟨m.reasm (pktPid input.1.bytes) streamType,
        fun reasm => ⟨Function.update m.perPid (pktPid input.1.bytes) (some reasm)⟩, fun build => ?_, fun Data => ?_⟩
      · rw [pushInput, push, if_neg hguard]
        dsimp only
        rw [hstream]
        rfl
      · rw [Allows, hstream]
        exact ⟨fun h => h streamType rfl, by rintro h _ ⟨rfl⟩; exact h⟩

theorem pushInput_inRange {build : Build} (h : m.Allows (2 ≤ ·.length) input) :
    Raises InRange (pushInput build m input) := by
  obtain ⟨he, -⟩ | ⟨r, next, he, hallows⟩ := pushInput_cases m input
  · rw [he]
    exact raises_ok _
  · rw [he]
    exact (PesReassembler.push_inRange ((hallows _).1 h)).bind fun _ => raises_ok _

theorem allows_of_release (h : Raises InRange (pushInput .release m input)) : m.Allows (2 ≤ ·.length) input := by
  obtain ⟨-, hallows⟩ | ⟨r, next, he, hallows⟩ := pushInput_cases m input
  · exact hallows _
  · refine (hallows _).2 (PesReassembler.allows_of_release fun e herr => h e ?_)
    rw [he, herr]
    rfl

theorem pushInput_of_debug {x : Option Pes × PesReassemblerMap} (hx : pushInput .debug m input = .ok x)
    (build : Build) : pushInput build m input = .ok x := by
  obtain ⟨he, -⟩ | ⟨r, next, he, -⟩ := pushInput_cases m input
  · rw [he] at hx ⊢
    exact hx
  · rw [he] at hx ⊢
    obtain ⟨y, hy, hx⟩ := ck_eq_ok.1 hx
    rw [PesReassembler.push_of_debug hy]
    exact hx

theorem pushInput_returns (m : PesReassemblerMap) (input : Input) :
    (∃ x, ∀ build, pushInput build m input = .ok x) ↔ m.Allows EsParser27.Parsable input := by
  obtain ⟨he, hallows⟩ | ⟨r, next, he, hallows⟩ := pushInput_cases m input
  · exact iff_of_true ⟨_, he⟩ (hallows _)
  · rw [hallows, ← PesReassembler.push_returns]
    constructor
    · rintro ⟨x, hx⟩
      have hdebug := hx .debug
      rw [he] at hdebug
      obtain ⟨y, hy, -⟩ := ck_eq_ok.1 hdebug
      exact ⟨y, fun build => PesReassembler.push_of_debug hy⟩
    · rintro ⟨y, hy⟩
      exact ⟨_, fun build => by rw [he, hy]; rfl⟩

/-- **A run reads within its packets and buffers** if and only if each packet that is taken holds its payload and each
H.264 stream that is parsed is two bytes at least; **it finishes**, and with the same in both builds, if and only if these
streams are also such that their parser returns. -/
theorem pushAll_finishes (inputs : List Input) :
    ((∀ build, Raises InRange (pushAll build .new inputs)) ↔
        ∀ build, Along (pushInput build) (Allows (2 ≤ ·.length)) .new inputs) ∧
      ((∃ result, ∀ build, pushAll build .new inputs = .ok result) ↔
        ∀ build, Along (pushInput build) (Allows EsParser27.Parsable) .new inputs) := by
  refine ⟨⟨fun h build => ?_, fun h build => (h build).raises fun _ _ => pushInput_inRange⟩, ?_⟩
  · have hrelease := along_of_raises (fun _ _ => allows_of_release) (h .release)
    cases build with
    | debug => exact hrelease.of_le fun _ _ _ hx => pushInput_of_debug hx .release
    | release => exact hrelease
  · have hbase (m : PesReassemblerMap) (input : Input) (x : Option Pes × PesReassemblerMap)
        (hx : pushInput .debug m input = .ok x) (build : Build) : pushInput build m input = .ok x :=
      pushInput_of_debug hx build
    have hrun := run_eq_iff Build.debug pushInput hbase pushInput_returns (s := .new) (l := inputs)
    exact hrun

/-- A packet that starts a PES packet behind an adaptation field longer than itself. -/
theorem pushAll_outOfRange :
    ¬ ∀ (build : Build) (inputs : List Input), Raises InRange (pushAll build .new inputs) := by
  intro h
  have hpush : (PesReassembler.new 0x100 2).push .release (Packet.ofBytes [0x47, 0x41, 0x00, 0x30, 0xC8]).bytes =
      .error (.panic .sliceOutOfRange) := by decide +kernel
  have hpid : pktPid (Packet.ofBytes [0x47, 0x41, 0x00, 0x30, 0xC8]).bytes = 0x100 := by decide
  refine (h .release [(Packet.ofBytes [0x47, 0x41, 0x00, 0x30, 0xC8], fun _ => some 2)] _ ?_).2 rfl
  rw [pushAll, run, pushInput, push, if_neg (by decide +kernel)]
  dsimp only
  rw [hpid, reasm, new, Option.getD_none, hpush]
  rfl

end PesReassemblerMap

end MyMuxer
