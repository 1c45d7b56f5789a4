import MyMuxer.Biss
import MyMuxer.Mux.Queue
import MyMuxer.Mux.Tables

/-!
# The packet handler (`mux.rs`)

* `PacketHandler`: the state of one output, and `PacketHandler.new`.
* `Event`, `PacketHandler.history`: what has happened so far, for the results to speak about. The
  source has no such field, and nothing in the model reads it.
* The small operations that the input and the output side share.
-/

namespace MyMuxer

def maxBufferSize : ℕ := 10 * 1024 * 1024

def frameBufferSize : ℕ := 8192

structure UpdateTimers where
  insertPat : Option ℕ
  insertPmt : Option ℕ
  insertSdt : Option ℕ

def UpdateTimers.get (u : UpdateTimers) : Table → Option ℕ
  | .pat => u.insertPat
  | .pmt => u.insertPmt
  | .sdt => u.insertSdt

def UpdateTimers.set (u : UpdateTimers) (pcr : Option ℕ) : Table → UpdateTimers
  | .pat => { u with insertPat := pcr }
  | .pmt => { u with insertPmt := pcr }
  | .sdt => { u with insertSdt := pcr }

/-- The `count_..._packets` fields. -/
structure Counters where
  psi : ℕ
  null : ℕ
  payload : ℕ
  adjustNull : ℕ
  adjustPayload : ℕ

def Counters.new : Counters := { psi := 0, null := 0, payload := 0, adjustNull := 0, adjustPayload := 0 }

/-! ## History -/

/-- Where a packet of the output comes from. -/
inductive Source where
  | table (k : Table)
  | null
  | queued (pkt : TsPacket)

/-- A packet of the output; `resync` is the clock value `resync` set on its account. -/
structure Emitted where
  source : Source
  data : Packet
  resync : Option ℕ

/-- A packet that `proxy_packet` takes off its input, the one it appends to `frame_buff` on its account,
and the tables then. -/
structure Proxied where
  packet : Packet
  unit : Option Packet
  tables : Tables

inductive Event where
  /-- A packet goes to the queue of its PID. -/
  | pushed (pkt : TsPacket)
  /-- `buffers_clear`. -/
  | cleared
  /-- `is_ready` is set, with these queues and this clock value. -/
  | ready (video audio : List TsPacket) (base : ℕ)
  /-- A call of `flush_psi_packets` with the PAT cached or not, at this clock value, and the PAT
  timer before and after. -/
  | flushPsi (patReady : Bool) (pcr before after : Option ℕ)
  /-- `flush_packet_for_cbr` emits a packet. -/
  | cbr (e : Emitted)
  /-- `flush_packet_for_vbr` emits a packet. -/
  | vbr (e : Emitted)
  | proxied (e : Proxied)

namespace Event

/-- The packet an event sends out. -/
def sent : Event → Option Emitted
  | .cbr e | .vbr e => some e
  | _ => none

def isReady : Event → Bool
  | .ready .. => true
  | _ => false

def isCleared : Event → Bool
  | .cleared => true
  | _ => false

end Event

/-! ## State -/

structure PacketHandler where
  output : Output
  isReady : Bool
  isSync : Bool
  inBuff : Bytes
  frameBuff : Bytes
  outBuffV : OutBuffer
  outBuffA : OutBuffer
  maxBuffSize : ℕ
  lastPtsDts : UInt16 → Option (ℕ × ℕ)
  lastCc : UInt16 → Option UInt8
  ccErrors : UInt16 → Option ℕ
  bufferDurationMs : ℕ
  jitterMs : ℕ
  adjustBuf : ℕ
  tables : Tables
  timers : UpdateTimers
  counters : Counters
  pcrRestamper : Option PcrRestamper
  biss : Option Biss1Descrambler
  dirtyCa : Bool
  history : List Event

def initBiss (env : Env) (bissKey : String) : Option Biss1Descrambler :=
  if (strBytes bissKey).length > 0 then Biss1Descrambler.newFromHex env.dvbcsa bissKey else none

namespace PacketHandler

def new (env : Env) (output : Output) : Option PacketHandler :=
  if output.programs.length > 1 then none
  else
    let program := output.programs.head?
    let pids := output.programs.flatMap fun program => program.audioPids ++ program.videoPids
    some
      { output
        isReady := false
        isSync := false
        inBuff := []
        frameBuff := []
        outBuffV := .new
        outBuffA := .new
        maxBuffSize := maxBufferSize
        lastPtsDts := fun _ => none
        lastCc := fun _ => none
        ccErrors := fun pid => if pid ∈ pids then some 0 else none
        bufferDurationMs := (program.map Program.bufferDuration).getD 0
        jitterMs := (program.map fun program => max minJitterMs (min program.jitter maxJitterMs)).getD 0
        adjustBuf := (program.map Program.adjustBuf).getD 0
        tables := .new
        timers := { insertPat := none, insertPmt := none, insertSdt := none }
        counters := .new
        pcrRestamper := if output.proxy then none else some (.new output.cbr)
        biss := initBiss env output.bissKey
        dirtyCa := false
        history := [] }

def getPktSize (h : PacketHandler) : ℕ :=
  if h.output.pktSize = 0 then tsPacketSize else h.output.pktSize

def getProgram (h : PacketHandler) : Rs Program := unwrap h.output.programs.head?

def getBitrate (h : PacketHandler) : Option ℕ := h.pcrRestamper.map fun r => r.targetBitrateBps

def getPcr (h : PacketHandler) : Option ℕ := h.pcrRestamper.bind fun r => r.getPcr

def isDirty (h : PacketHandler) : Bool := h.tables.dirtyPat || h.tables.dirtyPmt || h.dirtyCa

def isBufferOverflow (h : PacketHandler) (rate : ℕ) : Bool :=
  decide (h.outBuffV.size + h.outBuffA.size > h.maxBuffSize * rate)

def record (h : PacketHandler) (e : Event) : PacketHandler := { h with history := h.history ++ [e] }

def buffersClear (h : PacketHandler) : PacketHandler :=
  { h with
    isReady := false
    outBuffV := .new
    outBuffA := .new
    maxBuffSize := maxBufferSize
    lastPtsDts := fun _ => none }.record .cleared

/-- The clock value that `resync` sets for a packet. -/
def resyncBase (dts : ℕ) : ℕ := pcrNormalize ((wrappingSub dts (dtsPcrDiffMs * 90) &&& dtsMask) * 300)

def resync (h : PacketHandler) (dts : ℕ) : PacketHandler :=
  { h with pcrRestamper := h.pcrRestamper.map fun r =>
      r.resync (wrappingSub dts (dtsPcrDiffMs * 90) &&& dtsMask) }

/-! ## Taking a packet off the queues -/

def popV (h : PacketHandler) : Option (TsPacket × PacketHandler) :=
  h.outBuffV.popFront.map fun (pkt, b) => (pkt, { h with outBuffV := b })

def popA (h : PacketHandler) : Option (TsPacket × PacketHandler) :=
  h.outBuffA.popFront.map fun (pkt, b) => (pkt, { h with outBuffA := b })

def getAOrV (h : PacketHandler) : Option (TsPacket × PacketHandler) :=
  match h.outBuffA.front, h.outBuffV.front with
  | some a, some v => if dtsAfter a.dts v.dts then h.popV else h.popA
  | some _, none => h.popA
  | none, some _ => h.popV
  | none, none => none

def readySend (h : PacketHandler) (dts : ℕ) : Bool :=
  match h.getPcr with
  | some currentPcr => !pcrAfter (pcrNormalize (dts * 300)) (pcrAdd currentPcr (h.jitterMs * 27000))
  | none => false

def drainSend (h : PacketHandler) (dts : ℕ) : Bool :=
  match h.getPcr with
  | some currentPcr => !pcrAfter (pcrNormalize (dts * 300)) (pcrAdd currentPcr (maxDtsPcrDiffMs * 27000))
  | none => false

def getAOrVReady (h : PacketHandler) : Option (TsPacket × PacketHandler) :=
  match h.outBuffA.front, h.outBuffV.front with
  | some a, some v =>
    if dtsAfter a.dts v.dts && (h.readySend v.dts || v.discontinuity) then h.popV
    else if h.readySend a.dts || a.discontinuity then h.popA
    else none
  | some a, none => if h.readySend a.dts || a.discontinuity then h.popA else none
  | none, some v => if h.readySend v.dts || v.discontinuity then h.popV else none
  | none, none => none

def getAOrVDrain (h : PacketHandler) : Option (TsPacket × PacketHandler) :=
  match h.outBuffA.front, h.outBuffV.front with
  | some a, some v =>
    if dtsAfter a.dts v.dts && h.drainSend v.dts then h.popV
    else if h.drainSend a.dts then h.popA
    else none
  | some a, none => if h.drainSend a.dts then h.popA else none
  | none, some v => if h.drainSend v.dts then h.popV else none
  | none, none => none

end PacketHandler

end MyMuxer
