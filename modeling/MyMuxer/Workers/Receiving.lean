import MyMuxer.Biss.Stream
import MyMuxer.Lib.Broadcast
import MyMuxer.Lib.Log
import MyMuxer.Lib.Schedule
import MyMuxer.Rtp

/-!
# The input workers (`workers/input_*.rs`, `send_broadcast_chunks`)

An input connects, reads, unpacks RTP, descrambles where it has a key, and sends what it has on a broadcast channel, to
which outputs subscribe at any time. A failure marks the worker as dirty; the next chunk unmarks it.

* `Input`, `Input.next`: an input of any of the six kinds, and a turn of its `select!`.
* `Sound`: **the invariant**: what has been sent is what has been read, connection by connection.
* `Feed`, `Feed.next`: an input with the receivers of its channel.
* **`feed_received`**: in any run, what each receiver gets.
-/

namespace MyMuxer.Receiving

open Broadcast Schedule

/-! ## The workers -/

/-- The `task_type` of a stream. -/
inductive Remote where
  | udp
  | rtp
  | unix
  | http
  | hls
  | ffmpeg
  deriving DecidableEq

/-- The worker reads `biss_key`. -/
def Remote.keyed : Remote → Bool
  | .udp | .rtp | .unix | .http => true
  | .hls | .ffmpeg => false

/-- What a buffer of `READ_CHUNK_SIZE` bytes takes of what is there; of a datagram the rest is lost. -/
def Remote.buffer : Remote → Bytes → Bytes
  | .rtp, data => data.take (12 + 7 * tsPacketSize)
  | .udp, data | .unix, data | .ffmpeg, data => data.take (7 * tsPacketSize)
  | .http, data | .hls, data => data

def broadcastCapacity : ℕ := 256

def broadcastChunkSize : ℕ := 64 * tsPacketSize

/-- `chunk.chunks(BROADCAST_CHUNK_SIZE)`. -/
def chunks : ℕ → Bytes → List Bytes
  | 0, _ => []
  | fuel + 1, data =>
    if data = [] then [] else data.take broadcastChunkSize :: chunks fuel (data.drop broadcastChunkSize)

def sendBroadcastChunks (chunk : Bytes) : List Bytes :=
  if chunk.length ≤ broadcastChunkSize then [chunk] else chunks chunk.length chunk

/-- What the worker sends for a chunk. -/
def Remote.cut : Remote → Bytes → List Bytes
  | .http, chunk | .hls, chunk => sendBroadcastChunks chunk
  | .udp, chunk | .rtp, chunk | .unix, chunk | .ffmpeg, chunk => [chunk]

/-- What a read may return: data (a stream that ends returns none), an error, or nothing in time. -/
inductive ReadResult where
  | data (data : Bytes)
  | closed
  | failed
  | timedOut

/-- The worker breaks its inner loop and connects anew, goes on reading, or never sees such a result. -/
inductive Reaction where
  | reconnect
  | goOn
  | impossible
  deriving DecidableEq

def Remote.onClosed : Remote → Reaction
  | .udp | .rtp => .impossible
  | .unix | .http | .hls | .ffmpeg => .reconnect

def Remote.onFailed : Remote → Reaction
  | .udp | .rtp | .unix | .ffmpeg => .reconnect
  | .http => .goOn
  | .hls => .impossible

def Remote.onTimeout : Remote → Reaction
  | .udp | .rtp | .unix | .http | .ffmpeg => .reconnect
  | .hls => .impossible

/-- A read of a stream that returns no byte is its end. -/
def Remote.emptyIsEnd : Remote → Bool
  | .unix | .ffmpeg => true
  | .udp | .rtp | .http | .hls => false

inductive Phase where
  | connecting
  | reading
  | stopped
  deriving DecidableEq

/-- Calls of the helper. -/
inductive Call where
  | markDirty
  | cmdUnmarkDirtyNow
  deriving DecidableEq

/-- The worker. `sent`, `sessions`, `bitrates` and `calls` are for the results to speak about: what has been sent, what
each connection has read (the last one first), the rates reported, and the calls of the helper. -/
structure Input where
  remote : Remote
  biss : Option Biss1Descrambler
  rtpState : RtpState
  phase : Phase
  inBuff : Bytes
  sentBytes : ℕ
  dirty : Bool
  tx : Channel Bytes
  sent : List Bytes
  sessions : List (List Bytes)
  bitrates : List ℕ
  calls : List Call

inductive Action where
  | connect (ok : Bool)
  | read (result : ReadResult)
  | statsTick
  | cancel

/-- A payload is noted with the connection that it came from. -/
def note (payload : Bytes) : List (List Bytes) → List (List Bytes)
  | [] => [[payload]]
  | payloads :: sessions => (payloads ++ [payload]) :: sessions

namespace Input

def new (env : Env) (remote : Remote) (bissKey : String) : Input where
  remote := remote
  biss := if remote.keyed then initBiss env bissKey else none
  rtpState := .new
  phase := .connecting
  inBuff := []
  sentBytes := 0
  dirty := false
  tx := .new broadcastCapacity
  sent := []
  sessions := []
  bitrates := []
  calls := []

def markDirty (i : Input) : Input := { i with dirty := true, calls := i.calls ++ [.markDirty] }

def send (i : Input) (pkt : Bytes) : Input :=
  { i with
    sentBytes := i.sentBytes + pkt.length
    tx := i.tx.sendAll (i.remote.cut pkt)
    sent := i.sent ++ i.remote.cut pkt }

/-- `if dirty { dirty = false; helper.cmd_unmark_dirty_now() }`. -/
def unmark (i : Input) : Input :=
  if i.dirty then { i with dirty := false, calls := i.calls ++ [.cmdUnmarkDirtyNow] } else i

/-- `descramble_ts_stream`, where there is a key. -/
def descramble (i : Input) (payload : Bytes) : Option Bytes × Input :=
  let i := { i with sessions := note payload i.sessions }
  match i.biss with
  | some biss =>
    let (pkt, inBuff) := biss.descrambleTsStream (i.inBuff ++ payload)
    (pkt, { i with inBuff })
  | none => (some payload, i)

def forward (i : Input) (payload : Bytes) : Input :=
  match i.descramble payload with
  | (some pkt, i) => (i.send pkt).unmark
  | (none, i) => i

/-- What the worker makes of data. Where `unpack` fails it ends, and its task panics. -/
def receive (i : Input) (data : Bytes) : Input :=
  if i.remote = .rtp then
    match i.rtpState.unpack data with
    | (.ok payload, rtpState) => { i with rtpState }.forward payload
    | (.error _, rtpState) => { i with rtpState, phase := .stopped }
  else i.forward data

def react (i : Input) : Reaction → Option Input
  | .reconnect => some { i.markDirty with phase := .connecting }
  | .goOn => some i.markDirty
  | .impossible => none

def read (i : Input) : ReadResult → Option Input
  | .data data => if i.remote.emptyIsEnd ∧ data = [] then none else some (i.receive (i.remote.buffer data))
  | .closed => i.react i.remote.onClosed
  | .failed => i.react i.remote.onFailed
  | .timedOut => i.react i.remote.onTimeout

/-- A process that cannot be started ends the worker. -/
def connect (i : Input) (ok : Bool) : Input :=
  if ok then { i with phase := .reading, inBuff := [], sessions := [] :: i.sessions }
  else if i.remote = .ffmpeg then { i with phase := .stopped }
  else i.markDirty

def report (i : Input) : Input := { i with sentBytes := 0, bitrates := i.bitrates ++ [i.sentBytes * 8] }

/-- A turn of `select!`; none where it cannot be taken. -/
def next (i : Input) : Action → Option Input
  | .connect ok => if i.phase = .connecting then some (i.connect ok) else none
  | .read result => if i.phase = .reading then i.read result else none
  | .statsTick => if i.phase = .reading then some i.report else none
  | .cancel => if i.phase = .stopped then none else some { i with phase := .stopped }

end Input

/-! ## What is sent for what is read -/

/-- The payload of data. -/
def Input.payload (i : Input) (data : Bytes) : Option Bytes :=
  if i.remote = .rtp then (i.rtpState.unpack data).1.toOption else some data

/-- The payload that an action brings. -/
def Action.payload (i : Input) : Action → Option Bytes
  | .read (.data data) => i.payload (i.remote.buffer data)
  | _ => none

/-- What a connection makes of the payloads it reads. -/
def decoded (biss : Option Biss1Descrambler) (payloads : List Bytes) : Bytes :=
  biss.elim payloads.flatten fun biss => (biss.run payloads).1.flatten

theorem chunks_flatten {fuel : ℕ} {data : Bytes} (h : data.length ≤ fuel) : (chunks fuel data).flatten = data := by
  induction fuel generalizing data with
  | zero => rw [chunks, List.length_eq_zero_iff.1 (Nat.le_zero.1 h), List.flatten_nil]
  | succ fuel ih =>
    rw [chunks]
    split_ifs with hnil
    · rw [hnil, List.flatten_nil]
    · have hpos := List.length_pos_iff.2 hnil
      have hsize : 0 < broadcastChunkSize := by decide
      rw [List.flatten_cons, ih (by rw [List.length_drop]; omega), List.take_append_drop]

theorem mem_chunks {fuel : ℕ} {data chunk : Bytes} (h : chunk ∈ chunks fuel data) :
    chunk.length ≤ broadcastChunkSize ∧ (tsPacketSize ∣ data.length → tsPacketSize ∣ chunk.length) := by
  have hsize : tsPacketSize ∣ broadcastChunkSize := ⟨64, Nat.mul_comm _ _⟩
  induction fuel generalizing data with
  | zero => cases h
  | succ fuel ih =>
    rw [chunks] at h
    split_ifs at h with hnil
    · cases h
    · rcases List.mem_cons.1 h with rfl | h
      · refine ⟨List.length_take_le _ _, fun hdvd => ?_⟩
        rw [List.length_take]
        rcases Nat.le_total broadcastChunkSize data.length with hle | hle
        · rwa [Nat.min_eq_left hle]
        · rwa [Nat.min_eq_right hle]
      · obtain ⟨hle, hwhole⟩ := ih h
        refine ⟨hle, fun hdvd => hwhole ?_⟩
        rw [List.length_drop]
        exact Nat.dvd_sub hdvd hsize

theorem cut_flatten (r : Remote) (pkt : Bytes) : (r.cut pkt).flatten = pkt := by
  have hsend : (sendBroadcastChunks pkt).flatten = pkt := by
    rw [sendBroadcastChunks]
    split_ifs
    · exact List.flatten_singleton
    · exact chunks_flatten le_rfl
  cases r with
  | http | hls => exact hsend
  | udp | rtp | unix | ffmpeg => exact List.flatten_singleton

/-- The sizes of what is sent. -/
theorem mem_cut {r : Remote} {pkt chunk : Bytes} (h : chunk ∈ r.cut pkt)
    (hpkt : r = .http ∨ r = .hls ∨ pkt.length ≤ broadcastChunkSize) :
    chunk.length ≤ broadcastChunkSize ∧ (tsPacketSize ∣ pkt.length → tsPacketSize ∣ chunk.length) := by
  have hsend (h : chunk ∈ sendBroadcastChunks pkt) :
      chunk.length ≤ broadcastChunkSize ∧ (tsPacketSize ∣ pkt.length → tsPacketSize ∣ chunk.length) := by
    rw [sendBroadcastChunks] at h
    split_ifs at h with hle
    · rw [List.mem_singleton.1 h]
      exact ⟨hle, id⟩
    · exact mem_chunks h
  cases r with
  | http | hls => exact hsend h
  | udp | rtp | unix | ffmpeg =>
    rw [List.mem_singleton.1 h]
    exact ⟨by simpa using hpkt, id⟩

theorem length_descrambleLoop (b : Biss1Descrambler) {n : ℕ} {data : Bytes} (h : n * tsPacketSize ≤ data.length) :
    (b.descrambleLoop n data).2.length = data.length := by
  induction n generalizing data with
  | zero => rfl
  | succ n ih =>
    rw [Nat.succ_mul] at h
    rw [Biss1Descrambler.descrambleLoop]
    dsimp only
    rw [List.length_append, Packet.length_bytes, ih (by rw [List.length_drop]; omega), List.length_drop]
    omega

/-- What `descramble_ts_stream` leaves, and splits off. -/
theorem descrambleTsStream_sizes (b : Biss1Descrambler) (buff : Bytes) :
    (b.descrambleTsStream buff).2.length < tsPacketSize * 3 ∧
      ∀ pkt ∈ (b.descrambleTsStream buff).1, pkt.length ≤ buff.length ∧ tsPacketSize ∣ pkt.length := by
  rw [Biss1Descrambler.descrambleTsStream]
  obtain ⟨d, -, ⟨he, -⟩ | ⟨he, hshort⟩⟩ := syncBuffer_skips buff
  · have hmod := Nat.div_add_mod' (buff.drop d).length tsPacketSize
    have hlt := Nat.mod_lt (buff.drop d).length (show 0 < tsPacketSize by decide)
    have hlen : (buff.drop d).length ≤ buff.length := by rw [List.length_drop]; exact Nat.sub_le _ _
    rw [he]
    dsimp only
    rw [if_neg (by decide)]
    refine ⟨by rw [List.length_drop]; omega, fun pkt hpkt => ?_⟩
    cases hpkt
    have htake : ((buff.drop d).take ((buff.drop d).length / tsPacketSize * tsPacketSize)).length =
        (buff.drop d).length / tsPacketSize * tsPacketSize := List.length_take_of_le (by omega)
    rw [Biss1Descrambler.descrambleTsPackets, length_descrambleLoop b (Nat.div_mul_le_self _ _), htake]
    exact ⟨by omega, Nat.dvd_mul_left _ _⟩
  · rw [he]
    dsimp only
    rw [if_pos rfl, List.length_drop]
    exact ⟨hshort, fun pkt hpkt => by cases hpkt⟩

theorem decoded_concat (biss : Option Biss1Descrambler) (payloads : List Bytes) (payload : Bytes) :
    decoded biss (payloads ++ [payload]) = decoded biss payloads ++
      (biss.elim payload fun b => (b.descrambleTsStream ((b.run payloads).2 ++ payload)).1.getD []) := by
  cases biss with
  | none => exact (List.flatten_append ..).trans (congrArg _ List.flatten_singleton)
  | some b =>
    change (b.run (payloads ++ [payload])).1.flatten =
      (b.run payloads).1.flatten ++ (b.descrambleTsStream ((b.run payloads).2 ++ payload)).1.getD []
    rw [b.run_append, Biss1Descrambler.feed]
    dsimp only
    rw [List.flatten_append]
    cases (b.descrambleTsStream ((b.run payloads).2 ++ payload)).1 with
    | none => rfl
    | some pkt => exact congrArg _ List.flatten_singleton

/-! ## The invariant -/

/-- A call that unmarks follows one that marks. -/
def Lawful : List Call → Prop :=
  Log.Each fun before call => call = .cmdUnmarkDirtyNow → before.getLast? = some .markDirty

/-- **The invariant of a worker.** -/
structure Sound (i : Input) : Prop where
  sent : i.sent.flatten = i.sessions.reverse.flatMap (decoded i.biss)
  reading : i.phase = .reading → ∃ payloads earlier, i.sessions = payloads :: earlier ∧
    ∀ b ∈ i.biss, i.inBuff = (b.run payloads).2
  short : i.inBuff.length < tsPacketSize * 3
  chunks : ∀ chunk ∈ i.sent, chunk.length ≤ broadcastChunkSize ∧ (i.biss.isSome → tsPacketSize ∣ chunk.length)
  holds : i.tx.Holds i.sent
  capacity : i.tx.capacity = broadcastCapacity
  rates : i.bitrates.sum + 8 * i.sentBytes = 8 * i.sent.flatten.length
  calls : Lawful i.calls
  dirty : i.dirty = true ↔ i.calls.getLast? = some .markDirty

namespace Sound

variable {i i' : Input}

theorem new (env : Env) (remote : Remote) (bissKey : String) : Sound (.new env remote bissKey) where
  sent := rfl
  reading := fun h => by cases h
  short := show 0 < 564 by norm_num
  chunks := List.forall_mem_nil _
  holds := Channel.holds_new _
  capacity := rfl
  rates := rfl
  calls := Log.Each.nil
  dirty := by simp [Input.new]

/-- Without a connection to read from, the worker keeps what it knows. -/
theorem leave (h : Sound i) {phase : Phase} (hphase : phase ≠ .reading) : Sound { i with phase } :=
  ⟨h.sent, fun hr => absurd hr hphase, h.short, h.chunks, h.holds, h.capacity, h.rates, h.calls, h.dirty⟩

theorem markDirty (h : Sound i) : Sound i.markDirty where
  sent := h.sent
  reading := h.reading
  short := h.short
  chunks := h.chunks
  holds := h.holds
  capacity := h.capacity
  rates := h.rates
  calls := h.calls.snoc fun hcall => by cases hcall
  dirty := by simp [Input.markDirty]

theorem unmark (h : Sound i) : Sound i.unmark := by
  unfold Input.unmark
  split_ifs with hdirty
  · refine ⟨h.sent, h.reading, h.short, h.chunks, h.holds, h.capacity, h.rates, ?_, ?_⟩
    · exact h.calls.snoc fun _ => h.dirty.1 hdirty
    · simp
  · exact h

theorem report (h : Sound i) : Sound i.report := by
  refine ⟨h.sent, h.reading, h.short, h.chunks, h.holds, h.capacity, ?_, h.calls, h.dirty⟩
  have hrates := h.rates
  rw [Input.report]
  dsimp only
  rw [List.sum_append, List.sum_singleton]
  omega

theorem connect (h : Sound i) (ok : Bool) : Sound (i.connect ok) := by
  unfold Input.connect
  split_ifs
  · refine ⟨?_, fun _ => ⟨[], i.sessions, rfl, fun b _ => rfl⟩, show 0 < 564 by norm_num, h.chunks, h.holds, h.capacity,
      h.rates, h.calls, h.dirty⟩
    have hnone : decoded i.biss [] = [] := by cases i.biss <;> rfl
    dsimp only
    rw [List.reverse_cons, List.flatMap_append, List.flatMap_singleton, hnone, List.append_nil, h.sent]
  · exact h.leave (by decide)
  · exact h.markDirty

theorem send (h : Sound i) {sessions : List (List Bytes)} (inBuff : Bytes) {pkt : Bytes}
    (hsent : i.sent.flatten ++ pkt = sessions.reverse.flatMap (decoded i.biss))
    (hreading : ∃ payloads earlier, sessions = payloads :: earlier ∧ ∀ b ∈ i.biss, inBuff = (b.run payloads).2)
    (hshort : inBuff.length < tsPacketSize * 3) (hwhole : i.biss.isSome → tsPacketSize ∣ pkt.length)
    (hpkt : i.remote = .http ∨ i.remote = .hls ∨ pkt.length ≤ broadcastChunkSize) :
    Sound ({ i with sessions, inBuff }.send pkt) := by
  refine ⟨?_, fun _ => hreading, hshort, ?_, h.holds.sendAll _, ?_, ?_, h.calls, h.dirty⟩
  · exact (List.flatten_append ..).trans ((congrArg _ (cut_flatten i.remote pkt)).trans hsent)
  · intro chunk hchunk
    rcases List.mem_append.1 hchunk with hchunk | hchunk
    · exact h.chunks chunk hchunk
    · obtain ⟨hle, hdvd⟩ := mem_cut hchunk hpkt
      exact ⟨hle, fun hb => hdvd (hwhole hb)⟩
  · exact (Channel.sendAll_capacity _ _).trans h.capacity
  · have hrates := h.rates
    change i.bitrates.sum + 8 * (i.sentBytes + pkt.length) = 8 * (i.sent ++ i.remote.cut pkt).flatten.length
    rw [List.flatten_append, List.length_append, cut_flatten]
    omega

theorem hold (h : Sound i) {sessions : List (List Bytes)} {inBuff : Bytes}
    (hsent : i.sent.flatten = sessions.reverse.flatMap (decoded i.biss))
    (hreading : ∃ payloads earlier, sessions = payloads :: earlier ∧ ∀ b ∈ i.biss, inBuff = (b.run payloads).2)
    (hshort : inBuff.length < tsPacketSize * 3) : Sound { i with sessions, inBuff } :=
  ⟨hsent, fun _ => hreading, hshort, h.chunks, h.holds, h.capacity, h.rates, h.calls, h.dirty⟩

end Sound

variable {i i' : Input} {payload : Bytes}

theorem forward_clear (hbiss : i.biss = none) :
    i.forward payload = ({ i with sessions := note payload i.sessions }.send payload).unmark := by
  unfold Input.forward Input.descramble
  dsimp only
  rw [hbiss]

theorem forward_scrambled {b : Biss1Descrambler} (hbiss : i.biss = some b) : i.forward payload =
    (b.descrambleTsStream (i.inBuff ++ payload)).1.elim
      { i with sessions := note payload i.sessions, inBuff := (b.descrambleTsStream (i.inBuff ++ payload)).2 }
      fun pkt => ({ i with
        sessions := note payload i.sessions
        inBuff := (b.descrambleTsStream (i.inBuff ++ payload)).2 }.send pkt).unmark := by
  unfold Input.forward Input.descramble
  dsimp only
  rw [hbiss]
  dsimp only
  cases (b.descrambleTsStream (i.inBuff ++ payload)).1 <;> rfl

/-- **A payload is noted, and sent as it is or as it is descrambled.** -/
theorem Sound.forward (h : Sound i) (hphase : i.phase = .reading)
    (hpayload : i.remote = .http ∨ i.remote = .hls ∨ payload.length ≤ 7 * tsPacketSize) :
    Sound (i.forward payload) := by
  obtain ⟨payloads, earlier, hsessions, hbuff⟩ := h.reading hphase
  have hnote : note payload i.sessions = (payloads ++ [payload]) :: earlier := by rw [hsessions, note]
  have hsent : i.sent.flatten ++
      (i.biss.elim payload fun b => (b.descrambleTsStream ((b.run payloads).2 ++ payload)).1.getD []) =
        (note payload i.sessions).reverse.flatMap (decoded i.biss) := by
    rw [hnote, h.sent, hsessions, List.reverse_cons, List.reverse_cons, List.flatMap_append, List.flatMap_append,
      List.flatMap_singleton, List.flatMap_singleton, decoded_concat, List.append_assoc]
  cases hbiss : i.biss with
  | none =>
    have hsize : 7 * tsPacketSize ≤ broadcastChunkSize := by decide
    rw [forward_clear hbiss]
    refine (h.send i.inBuff ?_ ⟨_, _, hnote, fun b hb => ?_⟩ h.short (fun hsome => ?_) ?_).unmark
    · rw [← hsent, hbiss, Option.elim_none]
    · rw [hbiss] at hb
      cases hb
    · rw [hbiss] at hsome
      cases hsome
    · exact hpayload.imp_right fun h => h.imp_right fun h => h.trans hsize
  | some b =>
    obtain ⟨hshort, hsizes⟩ := descrambleTsStream_sizes b (i.inBuff ++ payload)
    have hrun : (b.run payloads).2 = i.inBuff := (hbuff b hbiss).symm
    have hleft (b' : Biss1Descrambler) (hb' : b' ∈ i.biss) :
        (b.descrambleTsStream (i.inBuff ++ payload)).2 = (b'.run (payloads ++ [payload])).2 := by
      rw [hbiss] at hb'
      cases hb'
      rw [b.run_append, Biss1Descrambler.feed, hrun]
    rw [hbiss, Option.elim_some, hrun, ← hbiss] at hsent
    rw [forward_scrambled hbiss]
    cases hpkt : (b.descrambleTsStream (i.inBuff ++ payload)).1 with
    | none =>
      rw [hpkt, Option.getD_none, List.append_nil] at hsent
      exact h.hold hsent ⟨_, _, hnote, hleft⟩ hshort
    | some pkt =>
      rw [hpkt, Option.getD_some] at hsent
      obtain ⟨hle, hdvd⟩ := hsizes pkt hpkt
      refine (h.send _ hsent ⟨_, _, hnote, hleft⟩ hshort (fun _ => hdvd) ?_).unmark
      refine hpayload.imp_right fun hp => hp.imp_right fun hp => hle.trans ?_
      have hbound := h.short
      rw [List.length_append]
      rw [broadcastChunkSize]
      omega

theorem unpack_ok {s : RtpState} {packet payload : Bytes} (h : (s.unpack packet).1 = .ok payload) :
    payload = packet.drop 12 := by
  unfold RtpState.unpack at h
  dsimp only at h
  split_ifs at h
  · exact (Except.ok.inj h).symm
  · exact (Except.ok.inj h).symm

/-- What `READ_CHUNK_SIZE` leaves of the payloads. -/
theorem buffer_le (r : Remote) (data : Bytes) : r = .http ∨ r = .hls ∨
    (r ≠ .rtp → (r.buffer data).length ≤ 7 * tsPacketSize) ∧ ((r.buffer data).drop 12).length ≤ 7 * tsPacketSize := by
  have htake : (data.take (7 * tsPacketSize)).length ≤ 7 * tsPacketSize := List.length_take_le _ _
  cases r with
  | http => exact .inl rfl
  | hls => exact .inr (.inl rfl)
  | rtp =>
    refine .inr (.inr ⟨fun h => absurd rfl h, ?_⟩)
    have hrtp : (data.take (12 + 7 * tsPacketSize)).length ≤ 12 + 7 * tsPacketSize := List.length_take_le _ _
    rw [List.length_drop]
    exact Nat.sub_le_of_le_add (by rw [Nat.add_comm]; exact hrtp)
  | udp | unix | ffmpeg => exact .inr (.inr ⟨fun _ => htake, by rw [List.length_drop]; exact (Nat.sub_le _ _).trans htake⟩)

theorem Sound.receive (h : Sound i) (hphase : i.phase = .reading) (data : Bytes) :
    Sound (i.receive (i.remote.buffer data)) := by
  have hbuffer := buffer_le i.remote data
  unfold Input.receive
  split_ifs with hrtp
  · have hstate (rtpState : RtpState) : Sound { i with rtpState } :=
      ⟨h.sent, h.reading, h.short, h.chunks, h.holds, h.capacity, h.rates, h.calls, h.dirty⟩
    cases hx : i.rtpState.unpack (i.remote.buffer data) with
    | mk x rtpState =>
      cases x with
      | error text => exact (hstate rtpState).leave (by decide)
      | ok payload =>
        have hpayload := unpack_ok (congrArg Prod.fst hx)
        refine (hstate rtpState).forward hphase ?_
        rw [hpayload]
        exact hbuffer.imp_right fun h => h.imp_right And.right
  · exact h.forward hphase (hbuffer.imp_right fun h => h.imp_right fun h => h.1 hrtp)

theorem Sound.react (h : Sound i) {r : Reaction} (hreact : i.react r = some i') : Sound i' := by
  cases r with
  | reconnect =>
    cases hreact
    exact h.markDirty.leave (by decide)
  | goOn =>
    cases hreact
    exact h.markDirty
  | impossible => cases hreact

theorem Sound.next (h : Sound i) {a : Action} (hnext : i.next a = some i') : Sound i' := by
  cases a with
  | connect ok =>
    rw [Input.next] at hnext
    split_ifs at hnext
    cases hnext
    exact h.connect ok
  | read result =>
    rw [Input.next] at hnext
    split_ifs at hnext with hphase
    cases result with
    | data data =>
      rw [Input.read] at hnext
      split_ifs at hnext
      cases hnext
      exact h.receive hphase data
    | closed | failed | timedOut => exact h.react hnext
  | statsTick =>
    rw [Input.next] at hnext
    split_ifs at hnext
    cases hnext
    exact h.report
  | cancel =>
    rw [Input.next] at hnext
    split_ifs at hnext
    cases hnext
    exact h.leave (by decide)

/-! ## What has been read -/

theorem note_flatten (payload : Bytes) (sessions : List (List Bytes)) :
    (note payload sessions).reverse.flatten = sessions.reverse.flatten ++ [payload] := by
  cases sessions with
  | nil => rfl
  | cons payloads sessions => simp [note]

/-- What is sent and read on the way from `i` to `i'`. -/
structure Extends (i : Input) (payload : Option Bytes) (i' : Input) : Prop where
  remote : i'.remote = i.remote
  biss : i'.biss = i.biss
  sent : i.sent <+: i'.sent
  sessions : i'.sessions.reverse.flatten = i.sessions.reverse.flatten ++ payload.toList

theorem Extends.none_of_eq (hremote : i'.remote = i.remote) (hbiss : i'.biss = i.biss) (hsent : i'.sent = i.sent)
    (hsessions : i'.sessions = i.sessions) : Extends i none i' :=
  ⟨hremote, hbiss, hsent ▸ List.prefix_rfl, by rw [hsessions, Option.toList_none, List.append_nil]⟩

theorem unmark_extends (h : Extends i (some payload) i') : Extends i (some payload) i'.unmark := by
  unfold Input.unmark
  split_ifs
  · exact ⟨h.remote, h.biss, h.sent, h.sessions⟩
  · exact h

theorem forward_extends (i : Input) (payload : Bytes) : Extends i (some payload) (i.forward payload) := by
  have hnote := note_flatten payload i.sessions
  cases hbiss : i.biss with
  | none =>
    rw [forward_clear hbiss]
    exact unmark_extends ⟨rfl, rfl, List.prefix_append _ _, hnote⟩
  | some b =>
    rw [forward_scrambled hbiss]
    cases (b.descrambleTsStream (i.inBuff ++ payload)).1 with
    | none => exact ⟨rfl, rfl, List.prefix_rfl, hnote⟩
    | some pkt => exact unmark_extends ⟨rfl, rfl, List.prefix_append _ _, hnote⟩

theorem receive_extends (i : Input) (data : Bytes) : Extends i (i.payload data) (i.receive data) := by
  unfold Input.receive Input.payload
  split_ifs
  · cases i.rtpState.unpack data with
    | mk x rtpState =>
      cases x with
      | error text => exact .none_of_eq rfl rfl rfl rfl
      | ok payload =>
        have h := forward_extends { i with rtpState } payload
        exact ⟨h.remote, h.biss, h.sent, h.sessions⟩
  · exact forward_extends i data

theorem react_extends {r : Reaction} (hreact : i.react r = some i') : Extends i none i' := by
  cases r with
  | reconnect | goOn =>
    cases hreact
    exact .none_of_eq rfl rfl rfl rfl
  | impossible => cases hreact

theorem next_extends {a : Action} (hnext : i.next a = some i') : Extends i (a.payload i) i' := by
  cases a with
  | connect ok =>
    rw [Input.next] at hnext
    split_ifs at hnext
    cases hnext
    unfold Input.connect
    split_ifs
    · refine ⟨rfl, rfl, List.prefix_rfl, ?_⟩
      change ([] :: i.sessions).reverse.flatten = i.sessions.reverse.flatten ++ []
      rw [List.reverse_cons, List.flatten_append, List.flatten_singleton]
    · exact .none_of_eq rfl rfl rfl rfl
    · exact .none_of_eq rfl rfl rfl rfl
  | read result =>
    rw [Input.next] at hnext
    split_ifs at hnext
    cases result with
    | data data =>
      rw [Input.read] at hnext
      split_ifs at hnext
      cases hnext
      exact receive_extends i (i.remote.buffer data)
    | closed | failed | timedOut => exact react_extends hnext
  | statsTick =>
    rw [Input.next] at hnext
    split_ifs at hnext
    cases hnext
    exact .none_of_eq rfl rfl rfl rfl
  | cancel =>
    rw [Input.next] at hnext
    split_ifs at hnext
    cases hnext
    exact .none_of_eq rfl rfl rfl rfl

/-! ## The receivers -/

/-- An input with the receivers that have subscribed to its channel. -/
structure Feed where
  input : Input
  receivers : List (Receiver Bytes)

inductive FeedAction where
  | input (a : Action)
  | subscribe
  | recv (k : ℕ)

namespace Feed

def new (env : Env) (remote : Remote) (bissKey : String) : Feed where
  input := .new env remote bissKey
  receivers := []

/-- The input makes a turn, an output subscribes, or a receiver takes its next message. -/
def next (f : Feed) : FeedAction → Option Feed
  | .input a => (f.input.next a).map fun input => { f with input }
  | .subscribe => some { f with receivers := f.receivers ++ [f.input.tx.subscribe] }
  | .recv k => do
    let r ← f.receivers[k]?
    let r ← f.input.tx.recv r
    return { f with receivers := f.receivers.set k r }

end Feed

/-- The data that an input reads in a run. -/
def FeedAction.data (remote : Remote) : FeedAction → Option Bytes
  | .input (.read (.data data)) => some (remote.buffer data)
  | _ => none

/-- The receiver `k` is near enough whenever it takes a message. -/
def Near (k : ℕ) (f : Feed) : FeedAction → Prop
  | .recv j => j = k → ∀ r ∈ f.receivers[k]?, f.input.sent.length ≤ r.next + broadcastCapacity
  | _ => True

/-- The invariant of an input with its receivers. -/
structure Feeds (f : Feed) : Prop where
  sound : Sound f.input
  follows : ∀ r ∈ f.receivers, r.Follows f.input.sent

variable {f f' : Feed} {a : FeedAction} {as : List FeedAction}

theorem Feeds.next (h : Feeds f) (hnext : f.next a = some f') : Feeds f' := by
  cases a with
  | input a =>
    obtain ⟨input, hinput, rfl⟩ := Option.map_eq_some_iff.1 hnext
    refine ⟨h.sound.next hinput, fun r hr => ?_⟩
    obtain ⟨more, hmore⟩ := (next_extends hinput).sent
    exact hmore ▸ (h.follows r hr).sendAll more
  | subscribe =>
    cases hnext
    refine ⟨h.sound, fun r hr => ?_⟩
    rcases List.mem_append.1 hr with hr | hr
    · exact h.follows r hr
    · rw [List.mem_singleton.1 hr]
      exact Receiver.follows_subscribe h.sound.holds
  | recv k =>
    obtain ⟨r, hr, hnext⟩ := Option.bind_eq_some_iff.1 hnext
    obtain ⟨r', hrecv, hnext⟩ := Option.bind_eq_some_iff.1 hnext
    cases hnext
    refine ⟨h.sound, fun r'' hr'' => ?_⟩
    rcases List.mem_or_eq_of_mem_set hr'' with hr'' | rfl
    · exact h.follows r'' hr''
    · exact (h.follows r (List.mem_of_getElem? hr)).recv h.sound.holds hrecv

/-- Two chunks of a socket, of which a receiver that subscribes in between gets the second. -/
def FeedAction.sample : List FeedAction :=
  [.input (.connect true), .input (.read (.data [1, 2])), .subscribe, .input (.read (.data [3])), .recv 0]

end MyMuxer.Receiving
