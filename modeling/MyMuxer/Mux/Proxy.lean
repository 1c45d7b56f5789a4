import MyMuxer.Mux.Process

/-!
# Proxy mode (`mux.rs`)

* `proxyPid`: one packet of the input; `proxyLoop`: all whole packets of `in_buff`.
* `proxyPacket`: a chunk, with the number of bytes sent and the frames handed to the handler.
* `proxyRun`: chunk after chunk.
-/

namespace MyMuxer

namespace PacketHandler

/-- `frame_buff.extend_from_slice(..)` for a packet of the input, where there is something to append. -/
def forward (h : PacketHandler) (p : Packet) (unit : Option Packet) : PacketHandler :=
  { h with frameBuff := h.frameBuff ++ (unit.map Packet.bytes).getD [] }.record 
    (.proxied { packet := p, unit, tables := h.tables })

/-- The match on the PID; `false` is its `continue`. -/
def proxyPid (env : Env) (h : PacketHandler) (program : Program) (pktData : Packet) :
    Rs (Bool × PacketHandler) := do
  let pid := pktPid pktData.bytes
  if pid = 0x0000 then
    let h := { h with tables := ← h.tables.processPat env program pktData }
    if h.tables.dirtyPat then return (true, h.forward pktData none)
    else
      let h := { h with tables.pat := pktNext h.tables.pat }
      return (true, h.forward pktData (some h.tables.pat))
  else if pid = program.pmtPid then
    let h := { h with tables := ← h.tables.processPmt env h.output program pktData }
    if h.tables.dirtyPmt then return (true, h.forward pktData none)
    else
      let h := { h with tables.pmt := pktNext h.tables.pmt }
      return (true, h.forward pktData (some h.tables.pmt))
  else if h.isDirty then return (false, h.forward pktData none)
  else if pid = program.pcrPid then return (true, h.forward pktData (some pktData))
  else if pid ∈ program.audioPids ∨ pid ∈ program.videoPids then
    return (true, h.forward pktData (some pktData))
  else return (true, h.forward pktData none)

/-- The end of the loop: a frame, once there are bytes enough for one. -/
def splitFrame (h : PacketHandler) : List Bytes × PacketHandler :=
  if h.frameBuff.length ≥ h.getPktSize then
    ([h.frameBuff.take h.getPktSize], { h with frameBuff := h.frameBuff.drop h.getPktSize })
  else ([], h)

/-- One packet of the input, and the frame it completes. -/
def proxyTs (env : Env) (h : PacketHandler) (pktData : Packet) : Rs (List Bytes × PacketHandler) := do
  let program ← h.getProgram
  let (more, h) ← h.proxyPid env program pktData
  return if more then h.splitFrame else ([], h)

/-- The loop over `n` packets: the frames it completes. -/
def proxyLoop (env : Env) : ℕ → PacketHandler → Rs (List Bytes × PacketHandler)
  | 0, h => return ([], h)
  | n + 1, h => do
    if byte h.inBuff 0 = tsSyncByte then
      let pktData := Packet.ofBytes (h.inBuff.take tsPacketSize)
      let (frame, h) ← proxyTs env { h with inBuff := h.inBuff.drop tsPacketSize } pktData
      let (frames, h) ← proxyLoop env n h
      return (frame ++ frames, h)
    else return ([], { h with isSync := false })

/-- The frames of a chunk, in order. -/
def proxyFrames (env : Env) (h : PacketHandler) (chunk : Bytes) : Rs (List Bytes × PacketHandler) := do
  let inBuff := h.inBuff ++ chunk
  let (isSync, inBuff) := if h.isSync then (true, inBuff) else syncBuffer inBuff
  let h := { h with isSync, inBuff }
  if isSync then proxyLoop env (inBuff.length / tsPacketSize) h else return ([], h)

/-- `proxy_packet`: the bytes it says it sent, and the frames handed to `handler`, which answers with
the number of bytes sent or fails. -/
def proxyPacket (env : Env) (handler : Bytes → Option ℕ) (h : PacketHandler) (chunk : Bytes) :
    Rs (ℕ × List Bytes × PacketHandler) := do
  if h.output.programs = [] then return (chunk.length, [chunk], h)
  else
    let (frames, h) ← h.proxyFrames env chunk
    return ((frames.map fun frame => (handler frame).getD 0).sum, frames, h)

/-- Chunk after chunk: the frames handed over, and the state after them. -/
def proxyRun (env : Env) (handler : Bytes → Option ℕ) :
    PacketHandler → List Bytes → Rs (List Bytes × PacketHandler)
  | h, [] => return ([], h)
  | h, chunk :: chunks => do
    let (_, frames, h) ← h.proxyPacket env handler chunk
    let (frames', h) ← proxyRun env handler h chunks
    return (frames ++ frames', h)

/-- The proxy of a new handler. -/
def proxyNew (env : Env) (handler : Bytes → Option ℕ) (output : Output) (chunks : List Bytes) :
    Rs (List Bytes × PacketHandler) := do
  let h ← unwrap (new env output)
  h.proxyRun env handler chunks

end PacketHandler

end MyMuxer
