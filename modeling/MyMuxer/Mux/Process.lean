import MyMuxer.Mux.Handler

/-!
# The input side of the muxer (`mux.rs`)

* `syncBuffer`: the search for three sync bytes at the distance of a packet.
* `processTs`: one packet of the input; `processLoop`: all whole packets of `in_buff`.
* `becomeReady`: the end of `process`, which decides whether output can start.
* `process`, `write`.
-/

namespace MyMuxer

/-- Three packets in a row begin with a sync byte. -/
def syncTriple (buff : Bytes) : Bool :=
  decide (byte buff 0 = tsSyncByte ∧ byte buff tsPacketSize = tsSyncByte ∧
    byte buff (tsPacketSize * 2) = tsSyncByte)

/-- The bytes from the next sync byte on, the first byte left out. -/
def nextSync (buff : Bytes) : Bytes := (buff.drop 1).dropWhile fun b => b ≠ tsSyncByte

/-- The loop of `sync_buffer`. -/
def syncLoop : ℕ → Bytes → Bool × Bytes
  | 0, buff => (false, buff)
  | fuel + 1, buff =>
    if tsPacketSize * 3 ≤ buff.length then
      if syncTriple buff then (true, buff) else syncLoop fuel (nextSync buff)
    else (false, buff)

def syncBuffer (buff : Bytes) : Bool × Bytes := syncLoop (buff.length + 1) buff

namespace PacketHandler

def updateCc (h : PacketHandler) (pid : UInt16) : PacketHandler :=
  { h with ccErrors := Function.update h.ccErrors pid (some ((h.ccErrors pid).elim 1 (· + 1))) }

def checkCc (h : PacketHandler) (packet : Bytes) (pid : UInt16) : PacketHandler :=
  if pktHasPayload packet then
    let currentCc := byte packet 3 &&& 0x0F
    let h := match h.lastCc pid with
      | some lastCc => if currentCc ≠ (lastCc + 1) &&& 0x0F then h.updateCc pid else h
      | none => h
    { h with lastCc := Function.update h.lastCc pid (some currentCc) }
  else h

/-- Does the new DTS of a PID call for a discontinuity? -/
def dtsJump (last : Option (ℕ × ℕ)) (dts : ℕ) : Bool :=
  match last with
  | none => false
  | some (_, lastDts) =>
    match dtsForwardDeltaMs dts lastDts with
    | some deltaMs => decide (deltaMs > discontinuityThresholdMs)
    | none => true

/-- The queue of a PID takes the packet. -/
def push (h : PacketHandler) (program : Program) (pkt : TsPacket) : PacketHandler :=
  if pkt.pid ∈ program.videoPids then
    { h with outBuffV := h.outBuffV.pushBack pkt }.record (.pushed pkt)
  else if pkt.pid ∈ program.audioPids then
    { h with outBuffA := h.outBuffA.pushBack pkt }.record (.pushed pkt)
  else h

/-- The arm of `process` for audio and video PIDs. -/
def processMedia (h : PacketHandler) (program : Program) (pid : UInt16) (pktData : Packet) :
    Rs PacketHandler := do
  let discontinuity := pktGetDiscontinuity pktData.bytes
  let h := if discontinuity then h else h.checkCc pktData.bytes pid
  let stamp ← pktPtsDts pktData.bytes pid
  let discontinuity := match stamp with
    | some (_, dts) => discontinuity || dtsJump (h.lastPtsDts pid) dts
    | none => discontinuity
  let h := match stamp with
    | some (pts, dts) => { h with lastPtsDts := Function.update h.lastPtsDts pid (some (pts, dts)) }
    | none => h
  match h.lastPtsDts pid with
  | none => return h
  | some (pts, dts) =>
    let tsPacket := TsPacket.new pktData pid pts dts stamp.isSome discontinuity
    return h.push program (if pid = program.pcrPid then tsPacket.extractPcr else tsPacket)

/-- The match on the PID. -/
def processPid (env : Env) (h : PacketHandler) (program : Program) (pid : UInt16) (pktData : Packet) :
    Rs PacketHandler := do
  if pid = 0x1FFF then return h
  else if pid = 0x0000 then
    if h.tables.patReady = false ∨ h.isReady = false then
      return { h with tables := ← h.tables.processPat env program pktData }
    else return h
  else if pid = program.pmtPid ∧ (h.tables.pmtReady = false ∨ h.isReady = false) then
    return { h with tables := ← h.tables.processPmt env h.output program pktData }
  else if h.isDirty then return h
  else if pid = 0x0011 then
    if h.tables.patReady = true ∧ h.tables.sdtReady = false then
      return { h with tables := ← h.tables.processSdt env program pktData }
    else return h
  else if pid ∈ program.audioPids ∨ pid ∈ program.videoPids then h.processMedia program pid pktData
  else return h

/-- One packet of the input. -/
def processTs (env : Env) (h : PacketHandler) (pkt : Packet) : Rs PacketHandler := do
  let pid := pktPid pkt.bytes
  let program ← h.getProgram
  match h.biss, decide (pid ∈ program.videoPids ∨ pid ∈ program.audioPids) with
  | some biss, true => processPid env h program pid (biss.descrambleTsPacket pkt).2
  | _, _ =>
    if pktScramblingControl pkt.bytes ≠ 0 then return { h with dirtyCa := true }
    else processPid env { h with dirtyCa := false } program pid pkt

/-- The loop over `n` packets: whether it reached the end of them without losing sync. -/
def processLoop (env : Env) : ℕ → PacketHandler → Rs (Bool × PacketHandler)
  | 0, h => return (true, h)
  | n + 1, h => do
    if byte h.inBuff 0 = tsSyncByte then
      let pkt := Packet.ofBytes (h.inBuff.take tsPacketSize)
      let h ← processTs env { h with inBuff := h.inBuff.drop tsPacketSize } pkt
      processLoop env n h
    else return (false, { h with isSync := false }.buffersClear)

/-! ## Readiness -/

/-- `buffer_adjust`, on fuel. -/
def bufferAdjustLoop : ℕ → PacketHandler → PacketHandler
  | 0, h => h
  | fuel + 1, h =>
    if h.outBuffV.durationMs > h.bufferDurationMs then
      match h.getAOrV with
      | some (_, h) => bufferAdjustLoop fuel h
      | none => h
    else h

def bufferAdjust (h : PacketHandler) : PacketHandler :=
  bufferAdjustLoop (h.outBuffV.len + h.outBuffA.len) h

/-- The bitrate to go by, measured where none is configured. -/
def probeBitrate (env : Env) (h : PacketHandler) : ℕ × PacketHandler :=
  let bitrate := h.getBitrate.getD 0
  if bitrate = 0 ∧ h.outBuffV.durationMs ≥ 5000 then
    let probeBuffSize := h.outBuffV.size + h.outBuffA.size
    let bitrate := env.probeBitrate (probeBuffSize * 8 / h.outBuffV.durationMs)
    (bitrate, { h with pcrRestamper := h.pcrRestamper.map fun r =>
      if r.targetBitrateBps = 0 then { r with targetBitrateBps := bitrate } else r })
  else (bitrate, h)

/-- Output starts with the first packet of the video queue. -/
def setReady (h : PacketHandler) (dts : ℕ) : PacketHandler :=
  { h.resync dts with ccErrors := fun _ => none, isReady := true }.record
    (.ready h.outBuffV.inner h.outBuffA.inner (resyncBase dts))

/-- Output starts once the video queue is long enough. -/
def startOutput (env : Env) (h : PacketHandler) (bitrate : ℕ) : PacketHandler :=
  if bitrate ≠ 0 ∧ h.outBuffV.durationMs ≥ h.bufferDurationMs then
    let h := h.bufferAdjust
    let h := { h with maxBuffSize := env.maxBuffSize bitrate h.bufferDurationMs h.adjustBuf }
    match h.outBuffV.front with
    | some pkt => h.setReady pkt.dts
    | none => h
  else h

/-- Where the input had no SDT, one is generated from the configuration. -/
def fillSdt (env : Env) (h : PacketHandler) : Rs PacketHandler := do
  if h.tables.sdtReady = false then
    let program ← h.getProgram
    return { h with tables := ← h.tables.generateSdt env program }
  else return h

/-- The end of `process`. -/
def becomeReady (env : Env) (h : PacketHandler) : Rs PacketHandler := do
  if h.isDirty then return h
  else if h.isReady then return h
  else if h.tables.patReady = false ∨ h.tables.pmtReady = false then return h
  else
    let h ← h.fillSdt env
    match h.outBuffV.front, h.outBuffV.back with
    | some first, some last =>
      if dtsAfter first.dts last.dts then return h.buffersClear
      else
        let (bitrate, h) := h.probeBitrate env
        return h.startOutput env bitrate
    | _, _ => return h

/-! ## Calls -/

def process (env : Env) (h : PacketHandler) : Rs PacketHandler := do
  let (isSync, inBuff) := if h.isSync then (true, h.inBuff) else syncBuffer h.inBuff
  let h := { h with isSync, inBuff }
  if isSync = false then return h
  else
    let h := if h.isBufferOverflow 2 then h.buffersClear else h
    if h.inBuff.length / tsPacketSize = 0 then return h
    else
      let (synced, h) ← processLoop env (h.inBuff.length / tsPacketSize) h
      if synced then h.becomeReady env else return h

def write (env : Env) (h : PacketHandler) (chunk : Bytes) : Rs PacketHandler :=
  let h := if h.inBuff.length + chunk.length ≥ maxBufferSize then { h with inBuff := [], isSync := false }
    else h
  process env { h with inBuff := h.inBuff ++ chunk }

end PacketHandler

end MyMuxer
