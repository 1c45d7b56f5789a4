import MyMuxer.Rust

/-!
# RTP (`proto/rtp.rs`)

* `RtpState`: one type for both ends, in which an SSRC of zero means that there is none yet.
* `pack`, `unpack`: a payload gets a header, and loses it; `packAll`, `unpackAll`: one after another.
* `pack_carries`, `unpack_packed`: what a packed packet carries, and that it is taken; `unpack_outcome`: what becomes of
  any packet.
* **`rtp_sessions`**: payloads survive in any order of arrival, packets are numbered, and the receiver is locked.
-/

namespace MyMuxer

/-- The fields are private. `new` sets them, and only the last three ever change. -/
structure RtpState where
  version : UInt8
  padding : Bool
  extension : Bool
  csrcCount : UInt8
  marker : Bool
  payloadType : UInt8
  sequence : UInt16
  timestamp : UInt32
  ssrc : UInt32
  fixed : version = 2 ∧ padding = false ∧ extension = false ∧ csrcCount = 0 ∧ marker = false ∧ payloadType = 33

namespace RtpState

def new : RtpState where
  version := 2
  padding := false
  extension := false
  csrcCount := 0
  marker := false
  payloadType := 33
  sequence := 0
  timestamp := 0
  ssrc := 0
  fixed := ⟨rfl, rfl, rfl, rfl, rfl, rfl⟩

/-- The ticks of 90 kHz since `start`, of which a `u32` keeps the low bits. -/
def ticks (elapsedNanos : ℕ) : UInt32 := UInt32.ofNat (elapsedNanos * 90000 / 1000000000)

/-- `random` is what the generator would draw, `elapsedNanos` the time since `start`. The addition wraps, as in
a release build. -/
def pack (s : RtpState) (random : UInt32) (elapsedNanos : ℕ) (payload : Bytes) : Bytes × RtpState :=
  let header0 := s.version <<< 6 ||| s.padding.toUInt8 <<< 5 ||| s.extension.toUInt8 <<< 4 ||| s.csrcCount
  let header1 := s.marker.toUInt8 <<< 7 ||| s.payloadType
  let ssrc := if s.ssrc = 0 then random else s.ssrc
  let ts := ssrc + ticks elapsedNanos
  ([header0, header1] ++ be16Bytes s.sequence ++ be32Bytes ts ++ be32Bytes ssrc ++ payload,
    { s with sequence := s.sequence + 1, timestamp := ts, ssrc })

def unpack (s : RtpState) (packet : Bytes) : Except String Bytes × RtpState :=
  if packet.length < 12 then (.error "Invalid RTP packet", s)
  else if byte packet 0 >>> 6 ≠ s.version then (.error "Invalid RTP version", s)
  else if byte packet 0 &&& 0x20 ≠ 0 then (.error "Unsupported RTP padding", s)
  else if byte packet 0 &&& 0x10 ≠ 0 then (.error "Unsupported RTP extension", s)
  else if byte packet 0 &&& 0x0F ≠ 0 then (.error "Unsupported RTP CSRC count", s)
  else if byte packet 1 &&& 0x80 ≠ 0 then (.error "Unsupported RTP marker", s)
  else if byte packet 1 &&& 0x7F ≠ s.payloadType then (.error "Invalid RTP payload type", s)
  else
    let ssrc := be32 (byte packet 8) (byte packet 9) (byte packet 10) (byte packet 11)
    if s.ssrc = 0 then (.ok (packet.drop 12), { s with ssrc })
    else if ssrc ≠ s.ssrc then (.error "Invalid RTP SSRC", s)
    else (.ok (packet.drop 12), s)

/-! ## One packet -/

def packetSequence (packet : Bytes) : UInt16 := be16 0xFFFF (byte packet 2) (byte packet 3)

def packetSsrc (packet : Bytes) : UInt32 :=
  be32 (byte packet 8) (byte packet 9) (byte packet 10) (byte packet 11)

variable (s : RtpState) (random : UInt32) (elapsedNanos : ℕ) (payload : Bytes)

/-- What a packet carries. -/
theorem pack_carries : let packed := s.pack random elapsedNanos payload
    packetSequence packed.1 = s.sequence ∧ packetSsrc packed.1 = packed.2.ssrc ∧ packed.1.drop 12 = payload ∧
      12 ≤ packed.1.length ∧ byte packed.1 0 = 0x80 ∧ byte packed.1 1 = 33 := by
  obtain ⟨hv, hp, hx, hc, hm, ht⟩ := s.fixed
  refine ⟨be16_be16Bytes _, be32_be32Bytes _, rfl, Nat.le_add_left 12 payload.length, ?_, ?_⟩
  · change s.version <<< 6 ||| s.padding.toUInt8 <<< 5 ||| s.extension.toUInt8 <<< 4 ||| s.csrcCount = 0x80
    rw [hv, hp, hx, hc]
    rfl
  · change s.marker.toUInt8 <<< 7 ||| s.payloadType = 33
    rw [hm, ht]
    rfl

/-- A receiver without an SSRC, or with that of the packet, takes a packet and has the SSRC then. -/
theorem unpack_packed (r : RtpState)
    (h : r.ssrc = 0 ∨ r.ssrc = packetSsrc (s.pack random elapsedNanos payload).1) :
    (r.unpack (s.pack random elapsedNanos payload).1).1 = .ok payload ∧
      (r.unpack (s.pack random elapsedNanos payload).1).2.ssrc =
        packetSsrc (s.pack random elapsedNanos payload).1 := by
  obtain ⟨-, -, hdrop, hlen, h0, h1⟩ := pack_carries s random elapsedNanos payload
  generalize (s.pack random elapsedNanos payload).1 = packet at *
  obtain ⟨hv, -, -, -, -, ht⟩ := r.fixed
  rw [unpack, if_neg (by omega), h0, h1, if_neg (by rw [hv]; decide), if_neg (by decide), if_neg (by decide),
    if_neg (by decide), if_neg (by decide), if_neg (by rw [ht]; decide), hdrop]
  dsimp only
  rw [packetSsrc] at h ⊢
  split_ifs with hzero hne
  · exact ⟨rfl, rfl⟩
  · exact absurd (h.resolve_left hzero).symm hne
  · exact ⟨rfl, (not_not.1 hne).symm⟩

/-- A packet is rejected, or it is taken; a receiver with an SSRC takes its own, and neither way changes. -/
def Outcome (packet : Bytes) (x : Except String Bytes × RtpState) : Prop :=
  (∃ text, x = (.error text, s)) ∨
    (∃ taken, x.1 = .ok taken) ∧ (s.ssrc ≠ 0 → packetSsrc packet = s.ssrc ∧ x.2 = s)

theorem Outcome.reject {c : Prop} [Decidable c] {packet : Bytes} {x : Except String Bytes × RtpState}
    (h : s.Outcome packet x) (text : String) : s.Outcome packet (if c then (.error text, s) else x) := by
  split_ifs
  · exact .inl ⟨text, rfl⟩
  · exact h

theorem unpack_outcome (packet : Bytes) : s.Outcome packet (s.unpack packet) := by
  refine .reject _ (.reject _ (.reject _ (.reject _ (.reject _ (.reject _ (.reject _ ?_ _) _) _) _) _) _) _
  by_cases hzero : s.ssrc = 0
  · rw [if_pos hzero]
    exact .inr ⟨⟨_, rfl⟩, fun h => absurd hzero h⟩
  · rw [if_neg hzero]
    by_cases hne : packetSsrc packet ≠ s.ssrc
    · exact .inl ⟨_, if_pos hne⟩
    · refine .inr ⟨⟨_, congrArg Prod.fst (if_neg hne)⟩, fun _ => ⟨not_not.1 hne, congrArg Prod.snd (if_neg hne)⟩⟩

/-- **What is rejected changes nothing.** -/
theorem unpack_rejected (packet : Bytes) (text : String) (h : (s.unpack packet).1 = .error text) :
    (s.unpack packet).2 = s := by
  obtain ⟨text', he⟩ | ⟨⟨taken, he⟩, -⟩ := s.unpack_outcome packet
  · rw [he]
  · exact nomatch h.symm.trans he

/-- **A locked receiver takes only packets with its SSRC**, and stays locked. -/
theorem unpack_locked (hs : s.ssrc ≠ 0) (packet taken : Bytes) (h : (s.unpack packet).1 = .ok taken) :
    packetSsrc packet = s.ssrc ∧ (s.unpack packet).2 = s := by
  obtain ⟨text, he⟩ | ⟨-, hlocked⟩ := s.unpack_outcome packet
  · rw [he] at h
    cases h
  · exact hlocked hs

/-! ## Sessions -/

/-- A call of `pack`, with what the generator would draw and the time since `start`. -/
structure Call where
  payload : Bytes
  random : UInt32
  elapsedNanos : ℕ

def packAll : RtpState → List Call → List Bytes × RtpState
  | s, [] => ([], s)
  | s, call :: calls =>
    let (packet, s) := s.pack call.random call.elapsedNanos call.payload
    let (packets, s) := packAll s calls
    (packet :: packets, s)

def unpackAll : RtpState → List Bytes → List (Except String Bytes) × RtpState
  | s, [] => ([], s)
  | s, packet :: packets =>
    let (taken, s) := s.unpack packet
    let (rest, s) := unpackAll s packets
    (taken :: rest, s)

variable {s}

theorem packAll_locked (hs : s.ssrc ≠ 0) (calls : List Call) : (s.packAll calls).2.ssrc = s.ssrc ∧
    ∀ packet ∈ (s.packAll calls).1, packetSsrc packet = s.ssrc := by
  induction calls generalizing s with
  | nil => exact ⟨rfl, fun _ h => absurd h List.not_mem_nil⟩
  | cons call calls ih =>
    have hssrc : (s.pack call.random call.elapsedNanos call.payload).2.ssrc = s.ssrc := if_neg hs
    obtain ⟨hlast, hall⟩ := ih (s := (s.pack call.random call.elapsedNanos call.payload).2) (by rwa [hssrc])
    rw [hssrc] at hlast hall
    refine ⟨hlast, fun packet hp => ?_⟩
    rcases List.mem_cons.1 hp with rfl | hp
    · exact (pack_carries s _ _ _).2.1.trans hssrc
    · exact hall packet hp

/-- All packets of a sender carry the SSRC that it has in the end. -/
theorem packAll_ssrc (calls : List Call) (hrandom : ∀ call ∈ calls, call.random ≠ 0) :
    ∀ packet ∈ (s.packAll calls).1, packetSsrc packet = (s.packAll calls).2.ssrc := by
  cases calls with
  | nil => exact fun _ h => absurd h List.not_mem_nil
  | cons call calls =>
    have hne : (s.pack call.random call.elapsedNanos call.payload).2.ssrc ≠ 0 := by
      change (if s.ssrc = 0 then call.random else s.ssrc) ≠ 0
      split_ifs with h
      · exact hrandom call List.mem_cons_self
      · exact h
    obtain ⟨hlast, hall⟩ := packAll_locked hne calls
    intro packet hp
    rcases List.mem_cons.1 hp with rfl | hp
    · exact (pack_carries s _ _ _).2.1.trans hlast.symm
    · exact (hall packet hp).trans hlast.symm

theorem packAll_zip (calls : List Call) : ∀ x ∈ (calls.map Call.payload).zip (s.packAll calls).1,
    ∃ (s' : RtpState) (random : UInt32) (elapsedNanos : ℕ), x.2 = (s'.pack random elapsedNanos x.1).1 := by
  induction calls generalizing s with
  | nil => exact fun _ h => absurd h List.not_mem_nil
  | cons call calls ih =>
    intro x hx
    rcases List.mem_cons.1 hx with rfl | hx
    · exact ⟨s, call.random, call.elapsedNanos, rfl⟩
    · exact ih x hx

/-- The `k`-th packet carries the starting sequence number plus `k`. -/
theorem packAll_sequence (calls : List Call) (k : ℕ) (packet : Bytes) (h : (s.packAll calls).1[k]? = some packet) :
    (packetSequence packet).toNat = (s.sequence.toNat + k) % 2 ^ 16 := by
  induction calls generalizing s k with
  | nil => cases h
  | cons call calls ih =>
    cases k with
    | zero =>
      have hfirst : (s.pack call.random call.elapsedNanos call.payload).1 = packet := Option.some.inj h
      rw [← hfirst, (pack_carries s _ _ _).1, Nat.add_zero, Nat.mod_eq_of_lt s.sequence.toNat_lt]
    | succ k =>
      have := ih k h
      change _ = ((s.sequence + 1).toNat + k) % 2 ^ 16 at this
      rw [this, UInt16.toNat_add, Nat.mod_add_mod]
      exact congrArg (· % 2 ^ 16) (by rw [show (1 : UInt16).toNat = 1 from rfl]; omega)

theorem unpackAll_packed {ssrc : UInt32} {r : RtpState} (hr : r.ssrc = 0 ∨ r.ssrc = ssrc)
    (arrived : List (Bytes × Bytes)) (h : ∀ x ∈ arrived, packetSsrc x.2 = ssrc ∧
      ∃ (s' : RtpState) (random : UInt32) (elapsedNanos : ℕ), x.2 = (s'.pack random elapsedNanos x.1).1) :
    (r.unpackAll (arrived.map Prod.snd)).1 = arrived.map fun x => .ok x.1 := by
  induction arrived generalizing r with
  | nil => rfl
  | cons x arrived ih =>
    obtain ⟨⟨hssrc, s', random, elapsedNanos, hpack⟩, h⟩ := List.forall_mem_cons.1 h
    rw [hpack] at hssrc
    obtain ⟨hok, hlock⟩ := unpack_packed s' random elapsedNanos x.1 r (by rwa [hssrc])
    rw [List.map_cons, List.map_cons, unpackAll, hpack]
    dsimp only
    rw [hok, ih (.inr (hlock.trans hssrc)) h]

/-- **RTP sessions.** Whatever packets of a sender arrive, in whatever order, at a receiver without an SSRC or
with the sender's, their payloads come out unchanged; packets are numbered modulo `2 ^ 16`; what is rejected
changes nothing; and a receiver that has an SSRC takes no other. -/
theorem rtp_sessions (sender receiver : RtpState) (calls : List Call)
    (hrandom : ∀ call ∈ calls, call.random ≠ 0) :
    (∀ arrived : List (Bytes × Bytes), (∀ x ∈ arrived, x ∈ (calls.map Call.payload).zip (sender.packAll calls).1) →
      (receiver.ssrc = 0 ∨ receiver.ssrc = (sender.packAll calls).2.ssrc) →
      (receiver.unpackAll (arrived.map Prod.snd)).1 = arrived.map fun x => .ok x.1) ∧
    ((sender.packAll calls).1.length = calls.length ∧ ∀ k packet, (sender.packAll calls).1[k]? = some packet →
      (packetSequence packet).toNat = (sender.sequence.toNat + k) % 2 ^ 16) ∧
    (∀ packet text, (receiver.unpack packet).1 = .error text → (receiver.unpack packet).2 = receiver) ∧
    (receiver.ssrc ≠ 0 → ∀ packet taken, (receiver.unpack packet).1 = .ok taken →
      packetSsrc packet = receiver.ssrc ∧ (receiver.unpack packet).2 = receiver) := by
  refine ⟨fun arrived h hr => unpackAll_packed hr arrived fun x hx => ?_, ⟨?_, packAll_sequence calls⟩,
    unpack_rejected receiver, unpack_locked receiver⟩
  · exact ⟨packAll_ssrc calls hrandom x.2 (List.of_mem_zip (h x hx)).2, packAll_zip calls x (h x hx)⟩
  · have hlen (s : RtpState) (calls : List Call) : (s.packAll calls).1.length = calls.length := by
      induction calls generalizing s with
      | nil => rfl
      | cons call calls ih => exact congrArg (· + 1) (ih _)
    exact hlen sender calls

/-- Two packets, the second of which arrives first. -/
theorem rtp_sessions_swapped :
    let calls : List Call := [⟨[1, 2], 7, 0⟩, ⟨[3], 9, 1000000⟩]
    (new.unpackAll (((calls.map Call.payload).zip (new.packAll calls).1).reverse.map Prod.snd)).1 =
      [.ok [3], .ok [1, 2]] :=
  (rtp_sessions new new [⟨[1, 2], 7, 0⟩, ⟨[3], 9, 1000000⟩] (by decide)).1 _
    (fun _ h => List.mem_reverse.1 h) (.inl rfl)

end RtpState

end MyMuxer
