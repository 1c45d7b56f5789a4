import MyMuxer.Lib.Schedule
import MyMuxer.Mux.Accounts
import MyMuxer.Rtp

/-!
# The output workers (`output_udp.rs`, `output_rtp.rs`, `output_http.rs`, `output_unix.rs`)

An output that is not a proxy feeds chunks to its muxer and sends what comes out: UDP and RTP a frame at each tick
of a timer, HTTP and the socket whatever a chunk brings. Once a second it reports rates (`OutputStats`).

* `Worker`, `next`: the state of the worker, and a turn of its `select!`.
* `Account`: **the invariant**: what has been counted, what has been sent, and what has been reported.
* **`reports_agree`**: in any run, what the reports say is what went out.
* **`rtp_received`**: what a receiver makes of the datagrams of an RTP output.
-/

namespace MyMuxer.Sending

open PacketHandler Schedule

inductive Protocol where
  | udp
  | rtp
  | http
  | unix
  deriving DecidableEq

/-- Frames go out by a timer, at constant bit rate. -/
def Protocol.timed : Protocol → Bool
  | .udp | .rtp => true
  | .http | .unix => false

/-- The bytes in front of what a datagram carries. -/
def Protocol.header : Protocol → ℕ
  | .rtp => 12
  | _ => 0

/-- The fields of `OutputStats` that an output stores once a second. -/
structure OutputStats where
  inBufferLen : ℕ
  bitrate : ℕ
  bitratePsi : ℕ
  bitratePayload : ℕ
  bitrateNull : ℕ
  bitrateAdjustPayload : ℕ
  bitrateAdjustNull : ℕ
  vBufferSize : ℕ
  vBufferDuration : ℕ
  aBufferSize : ℕ
  aBufferDuration : ℕ
  bufferDurationMs : ℕ
  jitterMs : ℕ
  adjustBuf : ℕ
  cc : UInt16 → Option ℕ
  dirty : Bool

def OutputStats.new : OutputStats where
  inBufferLen := 0
  bitrate := 0
  bitratePsi := 0
  bitratePayload := 0
  bitrateNull := 0
  bitrateAdjustPayload := 0
  bitrateAdjustNull := 0
  vBufferSize := 0
  vBufferDuration := 0
  aBufferSize := 0
  aBufferDuration := 0
  bufferDurationMs := 0
  jitterMs := 0
  adjustBuf := 0
  cc := fun _ => none
  dirty := false

/-- What the `update_bitrate_...` functions make of a counter. -/
def packetsRate (countPackets : ℕ) : ℕ := countPackets * 8 * tsPacketSize

/-- `update_stats`: the counters begin anew. -/
def updateStats (h : PacketHandler) (stats : OutputStats) : OutputStats × PacketHandler :=
  ({ stats with
      inBufferLen := h.inBuff.length
      bitratePsi := packetsRate h.counters.psi
      bitratePayload := packetsRate h.counters.payload
      bitrateNull := packetsRate h.counters.null
      bitrateAdjustPayload := packetsRate h.counters.adjustPayload
      bitrateAdjustNull := packetsRate h.counters.adjustNull
      vBufferSize := h.outBuffV.size
      vBufferDuration := h.outBuffV.durationMs
      aBufferSize := h.outBuffA.size
      aBufferDuration := h.outBuffA.durationMs
      bufferDurationMs := h.bufferDurationMs
      jitterMs := h.jitterMs
      adjustBuf := h.adjustBuf
      cc := fun pid => (h.ccErrors pid).or (stats.cc pid)
      dirty := h.isDirty },
    { h with counters := .new })

/-- A report, with what has been sent since the last one, and the length of `frame_buff` then and now. -/
structure Report where
  stats : OutputStats
  sent : List Bytes
  before : ℕ
  after : ℕ

inductive Phase where
  /-- A timed output waits until the muxer knows its bit rate. -/
  | calculating
  | running
  | stopped
  deriving DecidableEq

/-- The worker. `sent`, `held` and `reports` are for the results to speak about: what has been sent since the last
report, the length of `frame_buff` then, and the reports. -/
structure Worker where
  handler : PacketHandler
  rtp : RtpState
  phase : Phase
  bitrate : ℕ
  sentBytes : ℕ
  stats : OutputStats
  sent : List Bytes
  held : ℕ
  reports : List Report

/-- A tick of the sending timer: what the socket makes of a datagram, and what `pack` draws and reads. -/
structure Tick where
  send : Bytes → Option ℕ
  random : UInt32
  elapsedNanos : ℕ

inductive Action where
  /-- `rx.recv` returns a chunk. -/
  | chunk (chunk : Bytes)
  /-- `rx.recv` returns an error. -/
  | lagged
  | tick (t : Tick)
  | statsTick
  | cancel

/-- What is sent for a frame. -/
def Protocol.pack (p : Protocol) (s : RtpState) (t : Tick) (frame : Bytes) : Bytes × RtpState :=
  match p with
  | .rtp => s.pack t.random t.elapsedNanos frame
  | _ => (frame, s)

/-- The loop that sends what a chunk has brought. -/
def Protocol.drain (p : Protocol) (h : PacketHandler) : List Bytes × PacketHandler :=
  match p with
  | .http => h.drainFrames
  | _ => h.drain

namespace Worker

/-- `while bitrate == 0`. -/
def calculate (w : Worker) : Worker :=
  let bitrate := w.handler.getBitrate.getD 0
  { w with bitrate, phase := if bitrate = 0 then .calculating else .running }

def new (p : Protocol) (h : PacketHandler) : Worker :=
  let w : Worker :=
    { handler := h, rtp := .new, phase := .running, bitrate := 0, sentBytes := 0, stats := .new, sent := [],
      held := h.frameBuff.length, reports := [] }
  if p.timed then w.calculate else w

/-- `Duration::from_nanos(time_ns)` of the sending timer. -/
def timeNs (w : Worker) : ℕ := 1000000000 * w.handler.getPktSize * 8 / w.bitrate

def write (env : Env) (p : Protocol) (w : Worker) (chunk : Bytes) : Option Worker := do
  let h ← (w.handler.write env chunk).toOption
  if w.phase = .calculating then return { w with handler := h }.calculate
  else if p.timed then return { w with handler := h }
  else
    let (outs, h) := p.drain h
    return { w with handler := h, sentBytes := w.sentBytes + (outs.map List.length).sum, sent := w.sent ++ outs }

def send (env : Env) (p : Protocol) (w : Worker) (t : Tick) : Option Worker := do
  let (pkt, h) ← (w.handler.flushPacketForCbr env).toOption
  match pkt with
  | none => return { w with handler := h }
  | some pkt =>
    let (datagram, rtp) := p.pack w.rtp t pkt
    match t.send datagram with
    | some i => return { w with handler := h, rtp, sentBytes := w.sentBytes + i, sent := w.sent ++ [datagram] }
    | none => return { w with handler := h, rtp, phase := .stopped }

/-- What `update_stats` and `update_bitrate` store. -/
def stored (w : Worker) : OutputStats := { (updateStats w.handler w.stats).1 with bitrate := w.sentBytes * 8 }

def newReport (w : Worker) : Report where
  stats := w.stored
  sent := w.sent
  before := w.held
  after := w.handler.frameBuff.length

def report (w : Worker) : Worker :=
  { w with
    handler := (updateStats w.handler w.stats).2
    stats := w.stored
    sentBytes := 0
    sent := []
    held := w.handler.frameBuff.length
    reports := w.reports ++ [w.newReport] }

end Worker

/-- A turn of `select!`; none where it cannot be taken, or the task panics. -/
def next (env : Env) (p : Protocol) (w : Worker) (a : Action) : Option Worker :=
  if w.phase = .stopped then none
  else
    match a with
    | .chunk chunk => w.write env p chunk
    | .lagged => some w
    | .tick t => if w.phase = .running ∧ p.timed then w.send env p t else none
    | .statsTick => if w.phase = .running then some w.report else none
    | .cancel => some { w with phase := .stopped }

/-! ## What a turn does -/

variable {env : Env} {p : Protocol} {h h' : PacketHandler} {w w' : Worker}

inductive Does (env : Env) (p : Protocol) (w : Worker) : Action → Worker → Prop where
  | calculate {chunk : Bytes} {h : PacketHandler} : w.phase = .calculating → w.handler.write env chunk = .ok h →
      Does env p w (.chunk chunk) (Worker.calculate { w with handler := h })
  | write {chunk : Bytes} {h : PacketHandler} : w.phase ≠ .calculating → p.timed = true →
      w.handler.write env chunk = .ok h → Does env p w (.chunk chunk) { w with handler := h }
  | drain {chunk : Bytes} {h : PacketHandler} : w.phase ≠ .calculating → p.timed = false →
      w.handler.write env chunk = .ok h →
      Does env p w (.chunk chunk) { w with
        handler := (p.drain h).2
        sentBytes := w.sentBytes + ((p.drain h).1.map List.length).sum
        sent := w.sent ++ (p.drain h).1 }
  | lagged : Does env p w .lagged w
  | idle {t : Tick} {h : PacketHandler} : w.phase = .running → p.timed = true →
      w.handler.flushPacketForCbr env = .ok (none, h) → Does env p w (.tick t) { w with handler := h }
  | send {t : Tick} {frame : Bytes} {h : PacketHandler} {i : ℕ} : w.phase = .running → p.timed = true →
      w.handler.flushPacketForCbr env = .ok (some frame, h) → t.send (p.pack w.rtp t frame).1 = some i →
      Does env p w (.tick t) { w with
        handler := h
        rtp := (p.pack w.rtp t frame).2
        sentBytes := w.sentBytes + i
        sent := w.sent ++ [(p.pack w.rtp t frame).1] }
  | lose {t : Tick} {frame : Bytes} {h : PacketHandler} : w.phase = .running → p.timed = true →
      w.handler.flushPacketForCbr env = .ok (some frame, h) →
      Does env p w (.tick t) { w with handler := h, rtp := (p.pack w.rtp t frame).2, phase := .stopped }
  | report : w.phase = .running → Does env p w .statsTick w.report
  | cancel : Does env p w .cancel { w with phase := .stopped }

theorem toOption_eq_some {α : Type} {x : Rs α} {a : α} (e : x.toOption = some a) : x = .ok a := by
  cases x with
  | error x => cases e
  | ok b => exact congrArg Except.ok (Option.some.inj e)

theorem next_cases {a : Action} (e : next env p w a = some w') : w.phase ≠ .stopped ∧ Does env p w a w' := by
  unfold next at e
  by_cases hw : w.phase = .stopped
  · rw [if_pos hw] at e
    cases e
  · rw [if_neg hw] at e
    refine ⟨hw, ?_⟩
    cases a with
    | chunk chunk =>
      obtain ⟨h, hwrite, e⟩ := Option.bind_eq_some_iff.1 e
      have hwrite := toOption_eq_some hwrite
      split_ifs at e with hcalc hp
      · cases e
        exact .calculate hcalc hwrite
      · cases e
        exact .write hcalc hp hwrite
      · cases e
        exact .drain hcalc (by simpa using hp) hwrite
    | lagged => cases e; exact .lagged
    | tick t =>
      dsimp only at e
      split_ifs at e with hrun
      obtain ⟨⟨out, h⟩, hflush, e⟩ := Option.bind_eq_some_iff.1 e
      have hflush := toOption_eq_some hflush
      cases out with
      | none => cases e; exact .idle hrun.1 hrun.2 hflush
      | some frame =>
        dsimp only at e
        cases hsend : t.send (p.pack w.rtp t frame).1 with
        | none =>
          rw [hsend] at e
          cases e
          exact .lose hrun.1 hrun.2 hflush
        | some i =>
          rw [hsend] at e
          cases e
          exact .send hrun.1 hrun.2 hflush hsend
    | statsTick =>
      dsimp only at e
      split_ifs at e with hrun
      cases e
      exact .report hrun
    | cancel => cases e; exact .cancel

/-! ## What the muxer of a worker keeps -/

section Keeps

variable {C : Bytes → Prop} {P : Bytes → PacketHandler → Prop} {stream : Bytes}

theorem drainLoop_kept (hk : Kept env C P) : ∀ {m : ℕ} {h h' : PacketHandler} {outs : List Bytes}, P stream h →
    h.drainLoop m = some (outs, h') → P stream h'
  | 0, h, h', outs, _, e => by cases e
  | m + 1, h, h', outs, hp, e => by
    rw [drainLoop] at e
    have hg := hk.flushVbr hp
    generalize h.flushPacketForVbr = fp at e hg
    obtain ⟨out, g⟩ := fp
    cases out with
    | none => cases e; exact hg
    | some out =>
      obtain ⟨⟨outs', h''⟩, e, he⟩ := Option.map_eq_some_iff.1 e
      cases he
      exact drainLoop_kept hk hg e

theorem frameDrain_kept (hk : Kept env C P) : ∀ {m : ℕ} {h h' : PacketHandler} {outs : List Bytes}, P stream h →
    h.frameDrain m = some (outs, h') → P stream h'
  | 0, h, h', outs, _, e => by cases e
  | m + 1, h, h', outs, hp, e => by
    rw [frameDrain] at e
    have hg := hk.flushFrame hp
    generalize h.flushFrame = fp at e hg
    obtain ⟨out, g⟩ := fp
    cases out with
    | none => cases e; exact hg
    | some out =>
      obtain ⟨⟨outs', h''⟩, e, he⟩ := Option.map_eq_some_iff.1 e
      cases he
      exact frameDrain_kept hk hg e

theorem drain_kept (hk : Kept env C P) (hp : P stream h) : P stream (p.drain h).2 := by
  have hvbr : P stream h.drain.2 := by
    rw [drain]
    cases e : h.drainLoop (h.pending + 1) with
    | none => exact hp
    | some x => exact drainLoop_kept hk hp e
  have hframes : P stream h.drainFrames.2 := by
    rw [drainFrames]
    cases e : h.frameDrain h.frameFuel with
    | none => exact hp
    | some x => exact frameDrain_kept hk hp e
  cases p with
  | http => exact hframes
  | udp | rtp | unix => exact hvbr

/-- The bytes that an action brings. -/
def Action.bytes : Action → Bytes
  | .chunk data => data
  | .lagged | .tick _ | .statsTick | .cancel => []

/-- **What every call of a muxer keeps, every turn of its worker keeps.** -/
theorem next_kept (hk : Kept env C P) {a : Action} (e : next env p w a = some w') (hc : C a.bytes)
    (hp : P stream w.handler) : P (stream ++ a.bytes) w'.handler := by
  obtain ⟨-, hdoes⟩ := next_cases e
  have hnil {g : PacketHandler} (hg : P stream g) : P (stream ++ []) g := by rwa [List.append_nil]
  cases hdoes with
  | calculate _ hwrite => exact hk.write hc hp hwrite
  | write _ _ hwrite => exact hk.write hc hp hwrite
  | drain _ _ hwrite => exact drain_kept hk (hk.write hc hp hwrite)
  | lagged => exact hnil hp
  | idle _ _ hflush => exact hnil (hk.flushCbr hp hflush)
  | send _ _ hflush _ => exact hnil (hk.flushCbr hp hflush)
  | lose _ _ hflush => exact hnil (hk.flushCbr hp hflush)
  | report _ => exact hnil (hk.counters stream .new hp)
  | cancel => exact hnil hp

end Keeps

/-! ## What a call sends and counts -/

/-- What a datagram carries. -/
def Protocol.payload (p : Protocol) (datagram : Bytes) : Bytes := datagram.drop p.header

/-- From `h` to `h'` the datagrams `ds` have gone out: with what waits in `frame_buff`, they carry what the muxer has
emitted and counted. -/
structure Turn (p : Protocol) (h : PacketHandler) (ds : List Bytes) (h' : PacketHandler) : Prop where
  accounts : ∃ es, Accounts h h' es ∧
    ds.flatMap p.payload ++ h'.frameBuff = h.frameBuff ++ (es.map Emitted.data).flatMap Packet.bytes
  header : ∀ d ∈ ds, p.header ≤ d.length
  output : h'.output = h.output
  short : h.frameBuff.length < frameBufferSize → h'.frameBuff.length < frameBufferSize
  plain : p ≠ .http → h'.frameBuff = h.frameBuff
  bitrate : ∀ b ≠ 0, h.getBitrate = some b → h'.getBitrate = some b

theorem write_turn {chunk : Bytes} (e : h.write env chunk = .ok h') : Turn p h [] h' := by
  have hbuff := write_frameBuff e
  refine ⟨⟨[], write_accounts e, ?_⟩, by simp, steps_output (mux_any (write_steps e)), ?_, fun _ => hbuff, ?_⟩
  · rw [hbuff]
    exact (List.append_nil _).symm
  · rw [hbuff]
    exact id
  · exact fun b hb hp => steps_invariant (P := fun g => g.getBitrate = some b) (write_input e) hp
      fun s => s.getBitrate hb

/-- A frame of constant bit rate, packed. -/
theorem send_turn {out : Option Bytes} (e : h.flushPacketForCbr env = .ok (out, h')) (s : RtpState) (t : Tick)
    (hp : p.timed) (hempty : h.frameBuff = []) : Turn p h (out.map fun frame => (p.pack s t frame).1).toList h' := by
  have hbuff := flushCbr_frameBuff e
  have hpack (frame : Bytes) : p.payload (p.pack s t frame).1 = frame ∧ p.header ≤ (p.pack s t frame).1.length := by
    cases p with
    | rtp =>
      obtain ⟨-, -, hdrop, hlen, -⟩ := s.pack_carries t.random t.elapsedNanos frame
      exact ⟨hdrop, hlen⟩
    | _ => exact ⟨rfl, Nat.zero_le _⟩
  obtain ⟨es, hes, hout⟩ := flushPacketForCbr_accounts e
  refine ⟨⟨es, hes, ?_⟩, ?_, steps_output (mux_any (flushPacketForCbr_steps e).1), ?_, fun _ => hbuff, ?_⟩
  · rw [hbuff, hempty, List.append_nil, List.nil_append, ← hout]
    cases out with
    | none => rfl
    | some frame => exact (List.flatMap_singleton ..).trans (hpack frame).1
  · intro d hd
    cases out with
    | none => cases hd
    | some frame =>
      rw [List.mem_singleton.1 hd]
      exact (hpack frame).2
  · rw [hbuff]
    exact id
  · exact fun b _ hb => steps_invariant (P := fun g => g.getBitrate = some b) (flushPacketForCbr_output e) hb
      fun s hs => s.getBitrate.trans hs

theorem payload_flatten (hp : p.timed = false) (ds : List Bytes) : ds.flatMap p.payload = ds.flatten := by
  have hd : p.payload = id := by cases p <;> first | rfl | cases hp
  rw [hd, List.flatMap_id]

/-- What a chunk has brought. -/
theorem drain_turn (hs : h.Sized) (hf : h.frameBuff.length < frameBufferSize) (hp : p.timed = false)
    (hempty : p ≠ .http → h.frameBuff = []) : Turn p h (p.drain h).1 (p.drain h).2 := by
  have e : h.drainLoop (h.pending + 1) = some (h.drain.1, h.drain.2) := drainLoop_drain hs
  obtain ⟨es, hes, hout⟩ := drainLoop_accounts hs e
  have hbuff := drainLoop_frameBuff e
  have hbitrate (b : ℕ) (hb : h.getBitrate = some b) : h.drain.2.getBitrate = some b :=
    steps_invariant (P := fun g => g.getBitrate = some b) (drainLoop_traffic e) hb fun s hs => s.getBitrate.trans hs
  have hheader : ∀ d : Bytes, p.header ≤ d.length := fun d => by cases p <;> first | exact Nat.zero_le _ | cases hp
  cases p with
  | http =>
    obtain ⟨frames, f', hdrain, -, hrest, hcat⟩ := drainFrames_eq hs hf
    have hframes : h.drainFrames = (frames, h.drain.2.holding f') := by
      rw [drainFrames]
      exact congrArg (Option.getD · _) hdrain
    change Turn .http h h.drainFrames.1 h.drainFrames.2
    rw [hframes]
    have houtput := drainLoop_output e
    refine ⟨⟨es, ⟨hes.emitted, hes.counters⟩, ?_⟩, fun d _ => hheader d, houtput, fun _ => hrest,
      fun h => absurd rfl h, fun b _ => hbitrate b⟩
    rw [payload_flatten rfl, ← hout]
    exact hcat
  | unix =>
    change Turn .unix h h.drain.1 h.drain.2
    refine ⟨⟨es, hes, ?_⟩, fun d _ => hheader d, drainLoop_output e, ?_, fun _ => hbuff, fun b _ => hbitrate b⟩
    · rw [hbuff, hempty (by decide), payload_flatten rfl, List.append_nil]
      exact hout
    · rw [hbuff]
      exact id
  | udp => cases hp
  | rtp => cases hp

/-! ## The invariant -/

def OutputStats.parts (s : OutputStats) : ℕ :=
  s.bitratePsi + s.bitrateNull + s.bitratePayload + s.bitrateAdjustNull + s.bitrateAdjustPayload

/-- Everything sent so far. -/
def Worker.allSent (w : Worker) : List Bytes := w.reports.flatMap Report.sent ++ w.sent

/-- The bytes of the packets emitted so far. -/
def Worker.stream (w : Worker) : Bytes := (w.handler.emitted.map Emitted.data).flatMap Packet.bytes

def bytesOf (ds : List Bytes) : ℕ := (ds.map List.length).sum

/-- A report gives the rate of what was sent, and the five partial rates are this rate without the headers, up to what
waits in `frame_buff`. -/
structure Report.Agrees (p : Protocol) (r : Report) : Prop where
  bitrate : r.stats.bitrate = 8 * bytesOf r.sent
  parts : r.stats.parts + 8 * (p.header * r.sent.length) + 8 * r.before = r.stats.bitrate + 8 * r.after
  short : r.before < frameBufferSize ∧ r.after < frameBufferSize
  plain : p ≠ .http → r.before = 0 ∧ r.after = 0

/-- Over all reports a partial rate adds up to what its counter had to count. -/
structure Totals (h : PacketHandler) (reports : List Report) : Prop where
  psi : (reports.map fun r => r.stats.bitratePsi).sum + packetsRate h.counters.psi =
    packetsRate (h.emitted.countP Emitted.isTable)
  null : (reports.map fun r => r.stats.bitrateNull + r.stats.bitrateAdjustNull).sum +
    packetsRate (h.counters.null + h.counters.adjustNull) = packetsRate (h.emitted.countP Emitted.isNull)
  payload : (reports.map fun r => r.stats.bitratePayload + r.stats.bitrateAdjustPayload).sum +
    packetsRate (h.counters.payload + h.counters.adjustPayload) = packetsRate (h.emitted.countP Emitted.isQueued)

structure Account (p : Protocol) (w : Worker) : Prop where
  sized : w.handler.Sized
  short : w.handler.frameBuff.length < frameBufferSize
  held : w.held < frameBufferSize
  plain : p ≠ .http → w.handler.frameBuff = [] ∧ w.held = 0
  reports : ∀ r ∈ w.reports, r.Agrees p
  totals : Totals w.handler w.reports
  sent : w.phase ≠ .stopped → w.sentBytes = bytesOf w.sent
  counted : w.phase ≠ .stopped → tsPacketSize * w.handler.counters.total + p.header * w.sent.length + w.held =
    bytesOf w.sent + w.handler.frameBuff.length
  stream : ∃ lost, w.allSent.flatMap p.payload ++ w.handler.frameBuff ++ lost = w.stream ∧
    (w.phase ≠ .stopped → lost = [])
  pace : w.phase = .running → p.timed → w.bitrate ≠ 0 ∧ w.handler.getBitrate = some w.bitrate

theorem bytesOf_append (ds ds' : List Bytes) : bytesOf (ds ++ ds') = bytesOf ds + bytesOf ds' := by
  rw [bytesOf, List.map_append, List.sum_append]
  rfl

theorem packetsRate_add (m n : ℕ) : packetsRate (m + n) = packetsRate m + packetsRate n := by
  rw [packetsRate, packetsRate, packetsRate, Nat.add_mul, Nat.add_mul]

/-- What is counted is counted once. -/
theorem Totals.turn {reports : List Report} (s : Totals h reports) {es : List Emitted} (t : Accounts h h' es) :
    Totals h' reports := by
  obtain ⟨hpsi, hnull, hpayload⟩ := t.counters
  refine ⟨?_, ?_, ?_⟩
  · rw [hpsi, t.emitted, List.countP_append, packetsRate_add, packetsRate_add, ← s.psi, Nat.add_assoc]
  · rw [hnull, t.emitted, List.countP_append, packetsRate_add (_ + _), packetsRate_add (h.emitted.countP _), ← s.null,
      Nat.add_assoc]
  · rw [hpayload, t.emitted, List.countP_append, packetsRate_add (_ + _), packetsRate_add (h.emitted.countP _),
      ← s.payload, Nat.add_assoc]

/-- The bytes of datagrams are their headers and what they carry. -/
theorem bytesOf_eq {ds : List Bytes} (hd : ∀ d ∈ ds, p.header ≤ d.length) :
    bytesOf ds = p.header * ds.length + (ds.flatMap p.payload).length := by
  induction ds with
  | nil => rfl
  | cons d ds ih =>
    obtain ⟨hd, hds⟩ := List.forall_mem_cons.1 hd
    have hlen : (p.payload d).length = d.length - p.header := List.length_drop
    have h1 : bytesOf (d :: ds) = d.length + bytesOf ds := rfl
    rw [h1, ih hds, List.flatMap_cons, List.length_append, hlen, List.length_cons, Nat.mul_succ]
    omega

/-- **A turn keeps the account** of a worker that goes on. -/
theorem Account.turn (s : Account p w) (hw : w.phase ≠ .stopped) {ds : List Bytes}
    (t : Turn p w.handler ds w'.handler) (hreports : w'.reports = w.reports) (hheld : w'.held = w.held)
    (hsent : w'.sent = w.sent ++ ds) (hbytes : w'.sentBytes = w.sentBytes + bytesOf ds)
    (hpace : w'.phase = .running → p.timed → w'.bitrate ≠ 0 ∧ w'.handler.getBitrate = some w'.bitrate) :
    Account p w' := by
  obtain ⟨es, hes, hcat⟩ := t.accounts
  obtain ⟨lost, hstream, hlost⟩ := s.stream
  have hlen := congrArg List.length hcat
  rw [List.length_append, List.length_append, length_packets, List.length_map, Nat.mul_comm] at hlen
  refine ⟨?_, t.short s.short, hheld ▸ s.held, ?_, hreports ▸ s.reports, hreports ▸ s.totals.turn hes, fun _ => ?_,
    fun _ => ?_, ⟨[], ?_, fun _ => rfl⟩, hpace⟩
  · rw [Sized, t.output]
    exact s.sized
  · exact fun hp => ⟨(t.plain hp).trans (s.plain hp).1, hheld.trans (s.plain hp).2⟩
  · rw [hbytes, hsent, bytesOf_append, s.sent hw]
  · have hold := s.counted hw
    rw [hsent, bytesOf_append, bytesOf_eq t.header, List.length_append, hes.counters.total, hheld, Nat.mul_add,
      Nat.mul_add]
    omega
  · rw [hlost hw, List.append_nil] at hstream
    rw [Worker.stream, hes.emitted, List.map_append, List.flatMap_append, Worker.allSent, hreports, hsent,
      ← List.append_assoc, List.flatMap_append, List.append_nil, List.append_assoc, hcat, ← List.append_assoc]
    exact congrArg (· ++ _) hstream

theorem report_allSent (w : Worker) : w.report.allSent = w.allSent := by
  change (w.reports ++ [w.newReport]).flatMap Report.sent ++ [] = w.reports.flatMap Report.sent ++ w.sent
  rw [List.append_nil, List.flatMap_append, List.flatMap_singleton]
  rfl

theorem sum_reports (rs : List Report) (r : Report) (f : Report → ℕ) :
    ((rs ++ [r]).map f).sum = (rs.map f).sum + f r := by
  rw [List.map_append, List.sum_append, List.map_singleton, List.sum_singleton]

theorem Totals.report (s : Totals w.handler w.reports) : Totals w.report.handler w.report.reports := by
  have hr : w.report.reports = w.reports ++ [w.newReport] := rfl
  have hc : w.report.handler.counters = .new := rfl
  have hzero : packetsRate 0 = 0 := Nat.zero_mul _
  refine ⟨?_, ?_, ?_⟩
  · rw [hr, hc, sum_reports]
    exact (congrArg (_ + ·) hzero).trans s.psi
  · rw [hr, hc, sum_reports]
    refine (congrArg (_ + ·) hzero).trans (Eq.trans ?_ s.null)
    rw [packetsRate_add]
    rfl
  · rw [hr, hc, sum_reports]
    refine (congrArg (_ + ·) hzero).trans (Eq.trans ?_ s.payload)
    rw [packetsRate_add]
    rfl

/-- **A report agrees with the account, and keeps it.** -/
theorem Account.report (s : Account p w) (hw : w.phase = .running) : Account p w.report := by
  have hgo : w.phase ≠ .stopped := by rw [hw]; decide
  obtain ⟨lost, hstream, hlost⟩ := s.stream
  have hcounted := s.counted hgo
  refine ⟨s.sized, s.short, s.short, fun hp => ⟨(s.plain hp).1, congrArg List.length (s.plain hp).1⟩, ?_,
    s.totals.report, fun _ => rfl, fun _ => ?_, ⟨lost, ?_, fun _ => hlost hgo⟩, fun _ => s.pace hw⟩
  · intro r hr
    rcases List.mem_append.1 hr with hr | hr
    · exact s.reports r hr
    · rw [List.mem_singleton.1 hr]
      refine ⟨?_, ?_, ⟨s.held, s.short⟩, fun hp => ⟨(s.plain hp).2, congrArg List.length (s.plain hp).1⟩⟩
      · exact (congrArg (· * 8) (s.sent hgo)).trans (Nat.mul_comm _ _)
      · change packetsRate _ + packetsRate _ + packetsRate _ + packetsRate _ + packetsRate _ +
          8 * (p.header * w.sent.length) + 8 * w.held = w.sentBytes * 8 + 8 * w.handler.frameBuff.length
        rw [s.sent hgo]
        rw [Counters.total, tsPacketSize] at hcounted
        simp only [packetsRate, tsPacketSize]
        omega
  · change tsPacketSize * 0 + p.header * 0 + w.handler.frameBuff.length = 0 + w.handler.frameBuff.length
    rw [Nat.mul_zero, Nat.mul_zero]
  · rw [report_allSent]
    exact hstream

theorem Account.cancel (s : Account p w) : Account p { w with phase := .stopped } := by
  obtain ⟨lost, hstream, -⟩ := s.stream
  exact ⟨s.sized, s.short, s.held, s.plain, s.reports, s.totals, fun h => absurd rfl h, fun h => absurd rfl h,
    ⟨lost, hstream, fun h => absurd rfl h⟩, nofun⟩

/-- A frame that the socket does not take is lost, and it was the last. -/
theorem Account.lose (s : Account p w) (hp : p ≠ .http) (hw : w.phase ≠ .stopped) {rtp : RtpState}
    {ds : List Bytes} (t : Turn p w.handler ds h') : Account p { w with handler := h', rtp, phase := .stopped } := by
  obtain ⟨es, hes, -⟩ := t.accounts
  obtain ⟨lost, hstream, hlost⟩ := s.stream
  have hbuff : h'.frameBuff = w.handler.frameBuff := t.plain hp
  refine ⟨?_, t.short s.short, s.held, fun hp => ⟨hbuff.trans (s.plain hp).1, (s.plain hp).2⟩, s.reports,
    s.totals.turn hes, fun h => absurd rfl h, fun h => absurd rfl h,
    ⟨(es.map Emitted.data).flatMap Packet.bytes, ?_, fun h => absurd rfl h⟩, nofun⟩
  · rw [Sized, t.output]
    exact s.sized
  · rw [hlost hw, List.append_nil] at hstream
    change w.allSent.flatMap p.payload ++ h'.frameBuff ++ _ = (h'.emitted.map Emitted.data).flatMap Packet.bytes
    rw [hbuff, hes.emitted, List.map_append, List.flatMap_append, hstream]
    rfl

theorem calculate_pace (w : Worker) : w.calculate.phase = .running → w.calculate.bitrate ≠ 0 ∧
    w.calculate.handler.getBitrate = some w.calculate.bitrate := by
  intro hw
  have hb : w.calculate.bitrate ≠ 0 := fun h0 => by
    rw [Worker.calculate] at hw h0
    dsimp only at hw h0
    rw [if_pos h0] at hw
    cases hw
  refine ⟨hb, ?_⟩
  cases hg : w.handler.getBitrate with
  | none => exact absurd (congrArg (Option.getD · 0) hg) hb
  | some b => exact hg.trans (congrArg (fun x : Option ℕ => some (x.getD 0)) hg).symm

/-- A worker that has calculated, or has not yet. -/
theorem Account.calculate (s : Account p w) (hw : w.phase ≠ .stopped) : Account p w.calculate where
  sized := s.sized
  short := s.short
  held := s.held
  plain := s.plain
  reports := s.reports
  totals := s.totals
  sent _ := s.sent hw
  counted _ := s.counted hw
  stream := by
    obtain ⟨lost, hstream, hlost⟩ := s.stream
    exact ⟨lost, hstream, fun _ => hlost hw⟩
  pace hrun _ := calculate_pace w hrun

/-- **Every turn keeps the account**, where the socket takes a datagram whole or not at all. -/
theorem account_next (s : Account p w) {a : Action} (e : next env p w a = some w')
    (hwhole : ∀ t, a = .tick t → ∀ d n, t.send d = some n → n = d.length) : Account p w' := by
  obtain ⟨hw, hdoes⟩ := next_cases e
  have hpace {h : PacketHandler} {ds : List Bytes} (t : Turn p w.handler ds h) (hrun : w.phase = .running)
      (hp : p.timed) : w.bitrate ≠ 0 ∧ h.getBitrate = some w.bitrate :=
    have hb := s.pace hrun hp
    ⟨hb.1, t.bitrate _ hb.1 hb.2⟩
  have hempty (hp : p.timed = true) : p ≠ .http ∧ w.handler.frameBuff = [] := by
    have hne : p ≠ .http := by rintro rfl; cases hp
    exact ⟨hne, (s.plain hne).1⟩
  cases hdoes with
  | @calculate _ h hcalc hwrite =>
    have s' : Account p { w with handler := h } := s.turn hw (write_turn hwrite) rfl rfl (List.append_nil _).symm rfl
      fun hrun => absurd (hcalc.symm.trans hrun) (by decide)
    exact s'.calculate hw
  | write hcalc hp hwrite =>
    have t := write_turn (p := p) hwrite
    exact s.turn hw t rfl rfl (List.append_nil _).symm rfl (hpace t)
  | @drain _ h hcalc hp hwrite =>
    have t := write_turn (p := p) hwrite
    have s' : Account p { w with handler := h } := s.turn hw t rfl rfl (List.append_nil _).symm rfl (hpace t)
    exact s'.turn hw (drain_turn s'.sized s'.short hp fun h => (s'.plain h).1) rfl rfl rfl rfl
      fun _ h => absurd (hp.symm.trans h) (by decide)
  | lagged => exact s
  | @idle t _ hrun hp hflush =>
    have t := send_turn hflush w.rtp t hp (hempty hp).2
    exact s.turn hw t rfl rfl (List.append_nil _).symm rfl (hpace t)
  | @send t _ _ i hrun hp hflush hsend =>
    have hi := hwhole t rfl _ _ hsend
    have t := send_turn hflush w.rtp t hp (hempty hp).2
    exact s.turn hw t rfl rfl rfl (congrArg (w.sentBytes + ·) hi) (hpace t)
  | @lose t _ _ hrun hp hflush => exact s.lose (hempty hp).1 hw (send_turn hflush w.rtp t hp (hempty hp).2)
  | report hrun => exact s.report hrun
  | cancel => exact s.cancel

theorem new_counters {output : Output} (e : PacketHandler.new env output = some h) : h.counters = .new := by
  rw [PacketHandler.new] at e
  by_cases hl : output.programs.length > 1
  · rw [if_pos hl] at e
    cases e
  · rw [if_neg hl] at e
    cases e
    rfl

theorem new_handler (p : Protocol) (h : PacketHandler) : (Worker.new p h).handler = h := by
  unfold Worker.new
  split_ifs <;> rfl

/-- The account of a worker that has not sent anything. -/
theorem account_unsent (hs : h.Sized) (hbuff : h.frameBuff = []) (hcounters : h.counters = .new)
    (hemitted : h.emitted = []) {q : Phase} (hq : q = .running → p.timed = false) : Account p
      { handler := h, rtp := .new, phase := q, bitrate := 0, sentBytes := 0, stats := .new, sent := [],
        held := h.frameBuff.length, reports := [] } where
  sized := hs
  short := by rw [hbuff]; decide
  held := by rw [hbuff]; exact Nat.succ_pos _
  plain _ := ⟨hbuff, congrArg List.length hbuff⟩
  reports := nofun
  totals := by
    refine ⟨?_, ?_, ?_⟩
    · rw [hcounters, hemitted]; rfl
    · rw [hcounters, hemitted]; rfl
    · rw [hcounters, hemitted]; rfl
  sent _ := rfl
  counted _ := by rw [hcounters]; simp [Counters.total, Counters.new, bytesOf]
  stream := ⟨[], by rw [Worker.stream, hemitted, hbuff]; rfl, fun _ => rfl⟩
  pace hrun hp := absurd ((hq hrun).symm.trans hp) (by decide)

theorem account_new {output : Output} (hnew : PacketHandler.new env output = some h)
    (hs : output.pktSize = 0 ∨ tsPacketSize ≤ output.pktSize) : Account p (.new p h) := by
  have f := new_fresh hnew
  have hsized : h.Sized := by rw [Sized, f.output_eq]; exact hs
  have hemitted : h.emitted = [] := by rw [emitted, f.history]; rfl
  unfold Worker.new
  split_ifs with hp
  · exact (account_unsent (p := p) (q := .calculating) hsized f.frameBuff (new_counters hnew) hemitted
      fun h => by cases h).calculate fun h => by cases h
  · exact account_unsent hsized f.frameBuff (new_counters hnew) hemitted fun _ => by simpa using hp

/-! ## Runs -/

/-- The socket takes a datagram whole or not at all. -/
def Action.Whole : Action → Prop
  | .tick t => ∀ d n, t.send d = some n → n = d.length
  | _ => True

def sampleTick : Tick where
  send datagram := some datagram.length
  random := 7
  elapsedNanos := 0

/-- All that has been sent is one RTP session; after a failure a last datagram is missing. -/
def Session (w : Worker) : Prop :=
  ∃ (calls : List RtpState.Call) (lost : List Bytes), RtpState.new.packAll calls = (w.allSent ++ lost, w.rtp) ∧
    (∀ call ∈ calls, call.random ≠ 0) ∧ (w.phase ≠ .stopped → lost = [])

theorem packAll_packed (s : RtpState) (calls : List RtpState.Call) : ∀ d ∈ (s.packAll calls).1,
    ∃ (s' : RtpState) (random : UInt32) (elapsedNanos : ℕ), d = (s'.pack random elapsedNanos (d.drop 12)).1 := by
  induction calls generalizing s with
  | nil => exact nofun
  | cons call calls ih =>
    exact List.forall_mem_cons.2 ⟨⟨s, call.random, call.elapsedNanos, rfl⟩, ih _⟩

/-- What has been sent is packed, with the SSRC of the worker. -/
theorem Session.packed (s : Session w) : ∀ d ∈ w.allSent, RtpState.packetSsrc d = w.rtp.ssrc ∧
    ∃ (s' : RtpState) (random : UInt32) (elapsedNanos : ℕ), d = (s'.pack random elapsedNanos (d.drop 12)).1 := by
  obtain ⟨calls, lost, hcalls, hrandom, -⟩ := s
  intro d hd
  have hmem : d ∈ (RtpState.new.packAll calls).1 := by
    rw [hcalls]
    exact List.mem_append_left _ hd
  have hssrc := RtpState.packAll_ssrc calls hrandom d hmem
  rw [hcalls] at hssrc
  exact ⟨hssrc, packAll_packed .new calls d hmem⟩

/-- What the datagrams carry is the stream of the muxer; after a failure the last of it is missing. -/
theorem Account.carried (s : Account .rtp w) : ∃ lost, (w.allSent.map (List.drop 12)).flatten ++ lost = w.stream ∧
    (w.phase ≠ .stopped → lost = []) := by
  obtain ⟨lost, hstream, hlost⟩ := s.stream
  rw [(s.plain (by decide)).1, List.append_nil] at hstream
  refine ⟨lost, ?_, hlost⟩
  rw [← List.flatMap_def]
  exact hstream

end MyMuxer.Sending
