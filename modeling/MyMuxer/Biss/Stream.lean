import MyMuxer.Mux.Inserted
import MyMuxer.Mux.Sync

/-!
# BISS-1 descrambling of a stream (`biss.rs`)

* `descrambleTsPackets`: whole packets, in place; `descrambleTsStream`: those at the front of a buffer.
* `Biss1Descrambler.feed`, `Biss1Descrambler.run`: chunk after chunk is appended to the buffer of an input.
* **`stream_descrambled`**: however the packets are cut into chunks, each of them is descrambled once, in
  order, and what is left is the rest of the stream.
-/

namespace MyMuxer

open PacketHandler

namespace Biss1Descrambler

/-- The loop over `n` packets of `data`, and how many were scrambled. -/
def descrambleLoop (b : Biss1Descrambler) : ℕ → Bytes → ℕ × Bytes
  | 0, data => (0, data)
  | n + 1, data =>
    let (scrambled, packet) := b.descrambleTsPacket (Packet.ofBytes (data.take tsPacketSize))
    let (processed, rest) := descrambleLoop b n (data.drop tsPacketSize)
    (processed + scrambled.toNat, packet.bytes ++ rest)

/-- `chunks_exact_mut` leaves an incomplete packet as it is. -/
def descrambleTsPackets (b : Biss1Descrambler) (data : Bytes) : ℕ × Bytes :=
  b.descrambleLoop (data.length / tsPacketSize) data

/-- What is split off `buff`, and what stays in it. -/
def descrambleTsStream (b : Biss1Descrambler) (buff : Bytes) : Option Bytes × Bytes :=
  let (isSync, buff) := syncBuffer buff
  if isSync = false then (none, buff)
  else
    let len := buff.length / tsPacketSize * tsPacketSize
    (some (b.descrambleTsPackets (buff.take len)).2, buff.drop len)

/-! ## Inputs -/

/-- A chunk is appended to the buffer. -/
def feed (b : Biss1Descrambler) (s : List Bytes × Bytes) (chunk : Bytes) : List Bytes × Bytes :=
  let (out, buff) := b.descrambleTsStream (s.2 ++ chunk)
  (s.1 ++ out.toList, buff)

/-- What was split off after all chunks, and what is left. -/
def run (b : Biss1Descrambler) (chunks : List Bytes) : List Bytes × Bytes := chunks.foldl b.feed ([], [])

theorem run_append (b : Biss1Descrambler) (chunks : List Bytes) (chunk : Bytes) :
    b.run (chunks ++ [chunk]) = b.feed (b.run chunks) chunk := by
  rw [run, List.foldl_append, List.foldl_cons, List.foldl_nil, run]

/-! ## Streams of whole packets -/

variable {b : Biss1Descrambler} {ps : List Packet} {buff rest : Bytes}

/-- The bytes of the packets, descrambled. -/
def clear (b : Biss1Descrambler) (ps : List Packet) : Bytes :=
  ps.flatMap fun p => (b.descrambleTsPacket p).2.bytes

theorem descrambleLoop_packets (ps : List Packet) :
    (b.descrambleLoop ps.length (ps.flatMap Packet.bytes)).2 = b.clear ps := by
  induction ps with
  | nil => rfl
  | cons p ps ih =>
    have htake : (p.bytes ++ ps.flatMap Packet.bytes).take tsPacketSize = p.bytes := List.take_left' p.length_bytes
    have hdrop : (p.bytes ++ ps.flatMap Packet.bytes).drop tsPacketSize = ps.flatMap Packet.bytes :=
      List.drop_left' p.length_bytes
    rw [List.length_cons, List.flatMap_cons, descrambleLoop, htake, hdrop,
      Packet.ext (Packet.ofBytes_bytes_of_length p.length_bytes)]
    dsimp only
    rw [ih, clear, clear, List.flatMap_cons]

theorem descrambleTsPackets_packets (ps : List Packet) :
    (b.descrambleTsPackets (ps.flatMap Packet.bytes)).2 = b.clear ps := by
  rw [descrambleTsPackets, length_packets, Nat.mul_div_cancel _ (by decide), descrambleLoop_packets]

/-- The front of a stream of packets: whole packets, and less than one. -/
theorem split_packets (h : buff ++ rest = ps.flatMap Packet.bytes) :
    buff.take (buff.length / tsPacketSize * tsPacketSize) =
      (ps.take (buff.length / tsPacketSize)).flatMap Packet.bytes ∧
    buff.drop (buff.length / tsPacketSize * tsPacketSize) ++ rest =
      (ps.drop (buff.length / tsPacketSize)).flatMap Packet.bytes := by
  have hlen := congrArg List.length h
  rw [List.length_append, length_packets] at hlen
  have hpos : 0 < tsPacketSize := by decide
  have hle : buff.length / tsPacketSize * tsPacketSize ≤ buff.length := Nat.div_mul_le_self _ _
  have hn : buff.length / tsPacketSize ≤ ps.length := by
    rw [Nat.div_le_iff_le_mul_add_pred hpos, Nat.mul_comm]
    omega
  have hfront : ((ps.take (buff.length / tsPacketSize)).flatMap Packet.bytes).length =
      buff.length / tsPacketSize * tsPacketSize := by
    rw [length_packets, List.length_take, Nat.min_eq_left hn]
  have hcut : buff.take (buff.length / tsPacketSize * tsPacketSize) ++
      (buff.drop (buff.length / tsPacketSize * tsPacketSize) ++ rest) =
      (ps.take (buff.length / tsPacketSize)).flatMap Packet.bytes ++
        (ps.drop (buff.length / tsPacketSize)).flatMap Packet.bytes := by
    rw [← List.append_assoc, List.take_append_drop, h, ← List.flatMap_append, List.take_append_drop]
  exact List.append_inj hcut (by rw [hfront, List.length_take, Nat.min_eq_left hle])

/-- A buffer that starts with a packet is in sync, if it is long enough. -/
theorem synced_packets (ha : Aligned ps) (h : buff ++ rest = ps.flatMap Packet.bytes)
    (hl : tsPacketSize * 3 ≤ buff.length) : Synced buff := by
  have hps : 3 ≤ ps.length := by
    have hlen := congrArg List.length h
    rw [List.length_append, length_packets, tsPacketSize] at hlen
    rw [tsPacketSize] at hl
    omega
  refine ⟨hl, ?_⟩
  rw [← syncTriple_append hl rest, h]
  exact syncTriple_packets ha hps

theorem descrambleTsStream_short (hl : buff.length < tsPacketSize * 3) :
    b.descrambleTsStream buff = (none, buff) := by
  have hsync : syncBuffer buff = (false, buff) := by rw [syncBuffer, syncLoop, if_neg (Nat.not_le.2 hl)]
  rw [descrambleTsStream, hsync]
  exact if_pos rfl

/-- A call on a buffer that starts with a packet descrambles all whole packets. -/
theorem descrambleTsStream_packets (ha : Aligned ps) (h : buff ++ rest = ps.flatMap Packet.bytes)
    (hl : tsPacketSize * 3 ≤ buff.length) : b.descrambleTsStream buff =
      (some (b.clear (ps.take (buff.length / tsPacketSize))),
        buff.drop (buff.length / tsPacketSize * tsPacketSize)) := by
  have hsync := syncBuffer_of_isLeast (Search.Skips.zero.isLeast (synced_packets ha h hl))
  rw [descrambleTsStream, hsync, List.drop_zero]
  dsimp only
  rw [if_neg (by decide), (split_packets h).1, descrambleTsPackets_packets]

theorem length_clear (ps : List Packet) : (b.clear ps).length = ps.length * tsPacketSize := by
  induction ps with
  | nil => rfl
  | cons p ps ih =>
    rw [clear] at ih ⊢
    rw [List.flatMap_cons, List.length_append, ih, Packet.length_bytes, List.length_cons, Nat.add_one_mul,
      Nat.add_comm]

/-! ## Runs -/

/-- The first packets of a stream were descrambled, in order, and the rest of what was received is left. -/
structure Descrambled (b : Biss1Descrambler) (ps : List Packet) (received : Bytes) (s : List Bytes × Bytes)
    (n : ℕ) : Prop where
  le : n ≤ ps.length
  out : s.1.flatten = b.clear (ps.take n)
  whole : ∀ out ∈ s.1, tsPacketSize ∣ out.length
  left : received = (ps.take n).flatMap Packet.bytes ++ s.2
  short : s.2.length < tsPacketSize * 3

/-- What a call does to the buffer of an input. -/
theorem Descrambled.feed {received chunk : Bytes} {s : List Bytes × Bytes} {n : ℕ} (ha : Aligned ps)
    (d : Descrambled b ps received s n) (h : received ++ chunk ++ rest = ps.flatMap Packet.bytes) :
    ∃ n', Descrambled b ps (received ++ chunk) (b.feed s chunk) n' := by
  have hbuff : s.2 ++ chunk ++ rest = (ps.drop n).flatMap Packet.bytes := by
    rw [d.left, List.append_assoc, List.append_assoc] at h
    conv_rhs at h => rw [← List.take_append_drop n ps, List.flatMap_append]
    rw [List.append_assoc]
    exact List.append_cancel_left h
  by_cases hl : (s.2 ++ chunk).length < tsPacketSize * 3
  · have hfeed : b.feed s chunk = (s.1, s.2 ++ chunk) := by
      rw [Biss1Descrambler.feed, descrambleTsStream_short hl]
      exact congrArg (·, s.2 ++ chunk) (List.append_nil _)
    rw [hfeed]
    exact ⟨n, d.le, d.out, d.whole, by rw [d.left, List.append_assoc], Nat.lt_of_not_le (Nat.not_le.2 hl)⟩
  · have hcall := descrambleTsStream_packets (b := b) (fun p hp => ha p (List.mem_of_mem_drop hp)) hbuff
      (Nat.le_of_not_lt hl)
    set m := (s.2 ++ chunk).length / tsPacketSize with hm
    have hpos : 0 < tsPacketSize := by decide
    have htake : ps.take (n + m) = ps.take n ++ (ps.drop n).take m := List.take_add
    have hm' : m ≤ ps.length - n := by
      have hlen := congrArg List.length hbuff
      rw [List.length_append, length_packets, List.length_drop] at hlen
      rw [hm, Nat.div_le_iff_le_mul_add_pred hpos, Nat.mul_comm]
      omega
    have hle := d.le
    have hfeed : b.feed s chunk =
        (s.1 ++ [b.clear ((ps.drop n).take m)], (s.2 ++ chunk).drop (m * tsPacketSize)) := by
      rw [Biss1Descrambler.feed, hcall]
      rfl
    rw [hfeed]
    refine ⟨n + m, by omega, ?_, ?_, ?_, ?_⟩
    · rw [List.flatten_append, d.out, List.flatten_singleton, htake, clear, clear, clear, List.flatMap_append]
    · intro out hout
      rw [List.mem_append, List.mem_singleton] at hout
      rcases hout with hout | rfl
      · exact d.whole out hout
      · exact ⟨_, (length_clear _).trans (Nat.mul_comm _ _)⟩
    · dsimp only
      rw [d.left, htake, List.flatMap_append, ← (split_packets hbuff).1, List.append_assoc, List.append_assoc,
        List.take_append_drop]
    · have hmod : m * tsPacketSize + (s.2 ++ chunk).length % tsPacketSize = _ := Nat.div_add_mod' _ _
      have hlt := Nat.mod_lt (s.2 ++ chunk).length hpos
      rw [List.length_drop]
      omega

/-- **A stream of packets is descrambled packet by packet, however it is cut into chunks.** After each call
(`done` are the chunks so far), the first `n` packets were split off, and the rest of the bytes is left. -/
theorem stream_descrambled (b : Biss1Descrambler) (ps : List Packet) (done coming : List Bytes) (ha : Aligned ps)
    (hcut : (done ++ coming).flatten = ps.flatMap Packet.bytes) :
    ∃ n, Descrambled b ps done.flatten (b.run done) n := by
  rw [List.flatten_append] at hcut
  generalize coming.flatten = rest at hcut
  induction done using List.reverseRecOn generalizing rest with
  | nil =>
    have hpos : 0 < tsPacketSize * 3 := by decide
    exact ⟨0, Nat.zero_le _, rfl, fun _ h => absurd h List.not_mem_nil, rfl, hpos⟩
  | append_singleton done chunk ih =>
    rw [List.flatten_append, List.flatten_singleton] at hcut ⊢
    obtain ⟨n, d⟩ := ih (chunk ++ rest) (by rw [← List.append_assoc]; exact hcut)
    rw [run_append]
    exact d.feed ha hcut

/-- Inverting every bit, for both keys. -/
def inverting : Biss1Descrambler :=
  let invert : Cipher := ⟨List.map (~~~ ·), fun _ => List.length_map _⟩
  ⟨invert, invert⟩

/-- A scrambled packet of PID 256. -/
def scrambledPacket : Packet := Packet.ofBytes [0x47, 0x01, 0x00, 0x90]

/-- Four packets, the first 700 bytes of them in one chunk. -/
theorem stream_descrambled_four : ∃ n, Descrambled inverting (List.replicate 4 scrambledPacket)
    [((List.replicate 4 scrambledPacket).flatMap Packet.bytes).take 700].flatten
    (inverting.run [((List.replicate 4 scrambledPacket).flatMap Packet.bytes).take 700]) n :=
  stream_descrambled inverting _ _ [((List.replicate 4 scrambledPacket).flatMap Packet.bytes).drop 700]
    (fun p hp => by rw [List.eq_of_mem_replicate hp]; rfl) (by
      rw [List.singleton_append, List.flatten_cons, List.flatten_singleton, List.take_append_drop])

end Biss1Descrambler

end MyMuxer
