import MyMuxer.Mux.Process

/-!
# The output side of the muxer (`mux.rs`)

* `flushPsiPackets`: at most one cached table, when its timer says so.
* `processPacket`: a queued packet made ready to go out; `resync` and the clock happen here.
* `cbrSlot`, `flushPacketForCbr`: one packet, and one frame, of constant bit rate.
* `flushPacketForVbr`, `flushFrame`: output without stuffing.
-/

namespace MyMuxer

def Table.periodMs : Table → ℕ
  | .pat => periodPatMs
  | .pmt => periodPmtMs
  | .sdt => periodSdtMs

/-- The cached packet of a table with the next counter. -/
def Tables.next (t : Tables) : Table → Tables
  | .pat => { t with pat := pktNext t.pat }
  | .pmt => { t with pmt := pktNext t.pmt }
  | .sdt => { t with sdt := pktNext t.sdt }

/-- `match (pcr, ins)`: is the table of this period due? -/
def insertDue (pcr ins : Option ℕ) (periodMs : ℕ) : Bool :=
  match pcr, ins with
  | some pcr, some ins => pcrAfter pcr (pcrAdd ins (periodMs * 27000))
  | some _, none => true
  | none, _ => false

namespace PacketHandler

/-! ## Tables -/

/-- One of the three blocks of `flush_psi_packets`. -/
def flushTable (h : PacketHandler) (pcr : Option ℕ) (k : Table) : Option PacketHandler :=
  if h.tables.ready k && insertDue pcr (h.timers.get k) k.periodMs then
    some { h with tables := h.tables.next k, timers := h.timers.set pcr k }
  else none

/-- The first table that is due: `pkt_count` is 1, so a block runs when no block before it did. -/
def dueTable (h : PacketHandler) (pcr : Option ℕ) : Option (Table × PacketHandler) :=
  match h.flushTable pcr .pat with
  | some h => some (.pat, h)
  | none =>
    match h.flushTable pcr .pmt with
    | some h => some (.pmt, h)
    | none => (h.flushTable pcr .sdt).map fun h => (.sdt, h)

def flushPsiPackets (h : PacketHandler) : Option Table × PacketHandler :=
  let pcr := h.getPcr
  let (k, h') := match h.dueTable pcr with
    | some (k, h') => (some k, h')
    | none => (none, h)
  (k, h'.record (.flushPsi h.tables.patReady pcr h.timers.insertPat h'.timers.insertPat))

/-! ## Queued packets -/

def dtsDrift (h : PacketHandler) (dts : ℕ) : ℤ :=
  match h.getPcr with
  | some currentPcr => (dtsSignedDelta dts (currentPcr / 300)).tdiv 90
  | none => 0

/-- Does a packet make `process_packet` set the clock anew? -/
def needsResync (h : PacketHandler) (pkt : TsPacket) : Bool :=
  pkt.discontinuity ||
    !decide (minDtsPcrDiffMs ≤ h.dtsDrift pkt.dts ∧ h.dtsDrift pkt.dts ≤ maxDtsPcrDiffMs)

/-- The first half of `process_packet`: the discontinuity flag and the clock. -/
def signalJump (h : PacketHandler) (pkt : TsPacket) : Packet × Option ℕ × PacketHandler :=
  if h.needsResync pkt then
    ((pktSetDiscontinuity pkt.data).2, some (resyncBase pkt.dts), h.resync pkt.dts)
  else (pkt.data, none, h)

/-- The second half: a packet of the PCR PID gets the time of the clock. -/
def stamp (h : PacketHandler) (program : Program) (pkt : TsPacket) (data : Packet) : Packet × PacketHandler :=
  if pkt.pid = program.pcrPid then
    match h.pcrRestamper with
    | some r =>
      let (_, r, data) := r.processPacket data
      (data, { h with pcrRestamper := some r })
    | none => (data, h)
  else (data, h)

def processPacket (h : PacketHandler) (pkt : TsPacket) : Rs (Emitted × PacketHandler) := do
  let (data, resync, h) := h.signalJump pkt
  let program ← h.getProgram
  let (data, h) := h.stamp program pkt data
  return ({ source := .queued pkt, data, resync }, h)

/-! ## Constant bit rate -/

/-- `total_packets_sent += n`. -/
def countSent (h : PacketHandler) (n : ℕ) : PacketHandler :=
  { h with pcrRestamper := h.pcrRestamper.map fun r => { r with totalPacketsSent := r.totalPacketsSent + n } }

def emitCbr (h : PacketHandler) (e : Emitted) : Packet × PacketHandler := (e.data, h.record (.cbr e))

def emitTable (h : PacketHandler) (k : Table) : Packet × PacketHandler :=
  h.emitCbr { source := .table k, data := h.tables.cache k, resync := none }

def emitNull (h : PacketHandler) : Packet × PacketHandler :=
  h.emitCbr { source := .null, data := tsNullPacket, resync := none }

def emitQueued (h : PacketHandler) (pkt : TsPacket) : Rs (Packet × PacketHandler) := do
  let (e, h) ← h.processPacket pkt
  return h.emitCbr e

/-- The packet that goes out although none is ready: none without `adjust_buf`. -/
def adjustPacket (env : Env) (h : PacketHandler) : Option (TsPacket × PacketHandler) :=
  if h.adjustBuf = 0 then none
  else if h.isDirty || h.outBuffV.isDirty || h.isBufferOverflow 1 then h.getAOrV
  else if h.outBuffV.durationMs > env.maxLimit h.bufferDurationMs h.adjustBuf then h.getAOrVDrain
  else none

/-- One turn of the loop of `flush_packet_for_cbr`. -/
def cbrSlot (env : Env) (h : PacketHandler) : Rs (Packet × PacketHandler) :=
  let h := h.countSent 1
  if h.adjustBuf ≠ 0 ∧ h.outBuffV.isDirty = false ∧
      h.outBuffV.durationMs < env.minLimit h.bufferDurationMs h.adjustBuf then
    .ok (emitNull { h with counters.adjustNull := h.counters.adjustNull + 1 })
  else
    match h.getAOrVReady with
    | some (pkt, h) => emitQueued { h with counters.payload := h.counters.payload + 1 } pkt
    | none =>
      match h.adjustPacket env with
      | some (pkt, h) => emitQueued { h with counters.adjustPayload := h.counters.adjustPayload + 1 } pkt
      | none => .ok (emitNull { h with counters.null := h.counters.null + 1 })

def cbrSlots (env : Env) : ℕ → PacketHandler → Rs (List Packet × PacketHandler)
  | 0, h => return ([], h)
  | n + 1, h => do
    let (data, h) ← h.cbrSlot env
    let (out, h) ← cbrSlots env n h
    return (data :: out, h)

def flushPacketForCbr (env : Env) (h : PacketHandler) : Rs (Option Bytes × PacketHandler) := do
  if h.isDirty || !h.isReady then return (none, h)
  else
    let pktCount := h.getPktSize / tsPacketSize
    match h.flushPsiPackets with
    | (some k, h) =>
      let h := { h.countSent 1 with counters.psi := h.counters.psi + 1 }
      let (table, h) := h.emitTable k
      let (out, h) ← h.cbrSlots env (pktCount - 1)
      return (some ((table :: out).flatMap Packet.bytes), h)
    | (none, h) =>
      let (out, h) ← h.cbrSlots env pktCount
      return (some (out.flatMap Packet.bytes), h)

/-! ## Variable bit rate -/

def vbrLoop : ℕ → PacketHandler → List TsPacket × PacketHandler
  | 0, h => ([], h)
  | n + 1, h =>
    match h.getAOrV with
    | some (pkt, h) =>
      let h := { h with counters.payload := h.counters.payload + 1 }.record
        (.vbr { source := .queued pkt, data := pkt.data, resync := none })
      let (out, h) := vbrLoop n h
      (pkt :: out, h)
    | none => ([], h)

/-- The clock follows the first PCR of a frame. -/
def trackPcr (h : PacketHandler) (firstPcr : Option ℕ) : PacketHandler :=
  match firstPcr with
  | some pcr => { h with pcrRestamper := h.pcrRestamper.map fun r => { r with firstPcrValue := some pcr } }
  | none => h

def flushPacketForVbr (h : PacketHandler) : Option Bytes × PacketHandler :=
  if h.isDirty || !h.isReady then (none, h)
  else
    let pktCount := h.getPktSize / tsPacketSize
    let (k, h) := h.flushPsiPackets
    let (table, h) := match k with
      | some k => ([h.tables.cache k], { h with counters.psi := h.counters.psi + 1 }.record
          (.vbr { source := .table k, data := h.tables.cache k, resync := none }))
      | none => ([], h)
    let (pkts, h) := h.vbrLoop (pktCount - table.length)
    let h := h.trackPcr (pkts.findSome? TsPacket.pcr)
    let out := (table ++ pkts.map TsPacket.data).flatMap Packet.bytes
    (if out = [] then none else some out, h)

/-- The loop of `flush_frame`, on fuel. -/
def frameLoop : ℕ → PacketHandler → PacketHandler
  | 0, h => h
  | fuel + 1, h =>
    if h.frameBuff.length < frameBufferSize then
      match h.flushPacketForVbr with
      | (some pkt, h) => frameLoop fuel { h with frameBuff := h.frameBuff ++ pkt }
      | (none, h) => h
    else h

def flushFrame (h : PacketHandler) : Option Bytes × PacketHandler :=
  if h.isDirty || !h.isReady then (none, h)
  else
    let h := h.frameLoop frameBufferSize
    if h.frameBuff.length ≥ frameBufferSize then
      (some (h.frameBuff.take frameBufferSize), { h with frameBuff := h.frameBuff.drop frameBufferSize })
    else (none, h)

end PacketHandler

end MyMuxer
