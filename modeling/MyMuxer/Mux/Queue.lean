import MyMuxer.Mux.Clock

/-!
# Output queues (`mux.rs`)

* `TsPacket`: a packet with what `process` found out about it.
* `OutBuffer`: a queue of them, first in, first out.
-/

namespace MyMuxer

structure TsPacket where
  data : Packet
  pid : UInt16
  pts : ℕ
  dts : ℕ
  pusi : Bool
  discontinuity : Bool
  pcr : Option ℕ
  deriving DecidableEq

def TsPacket.new (data : Packet) (pid : UInt16) (pts dts : ℕ) (pusi discontinuity : Bool) : TsPacket :=
  { data, pid, pts, dts, pusi, discontinuity, pcr := none }

def TsPacket.extractPcr (p : TsPacket) : TsPacket := { p with pcr := pktExtractPcr p.data.bytes }

structure OutBuffer where
  inner : List TsPacket
  uniqueFramesCount : ℕ
  pcrCount : ℕ
  deriving DecidableEq

namespace OutBuffer

def new : OutBuffer := { inner := [], uniqueFramesCount := 0, pcrCount := 0 }

def clear (b : OutBuffer) : OutBuffer := { b with inner := [], uniqueFramesCount := 0, pcrCount := 0 }

def pushBack (b : OutBuffer) (pkt : TsPacket) : OutBuffer where
  inner := b.inner ++ [pkt]
  uniqueFramesCount := if pkt.pusi then b.uniqueFramesCount + 1 else b.uniqueFramesCount
  pcrCount := if pkt.pcr.isSome then b.pcrCount + 1 else b.pcrCount

/-- The first packet and the queue without it. -/
def popFront (b : OutBuffer) : Option (TsPacket × OutBuffer) :=
  match b.inner with
  | [] => none
  | current :: inner => some (current,
      { inner
        uniqueFramesCount := if current.pusi then b.uniqueFramesCount - 1 else b.uniqueFramesCount
        pcrCount := if current.pcr.isSome then b.pcrCount - 1 else b.pcrCount })

def front (b : OutBuffer) : Option TsPacket := b.inner.head?

def back (b : OutBuffer) : Option TsPacket := b.inner.getLast?

def len (b : OutBuffer) : ℕ := b.inner.length

def size (b : OutBuffer) : ℕ := b.inner.length * tsPacketSize

def durationMs (b : OutBuffer) : ℕ :=
  match b.front, b.back with
  | some first, some last => (dtsForwardDeltaMs last.dts first.dts).getD 0
  | _, _ => 0

def isDirty (b : OutBuffer) : Bool := decide (b.durationMs = 0 ∧ b.uniqueFramesCount > 1)

theorem popFront_eq_some {b b' : OutBuffer} {pkt : TsPacket} (h : b.popFront = some (pkt, b')) :
    b.inner = pkt :: b'.inner := by
  rw [popFront] at h
  split at h
  · cases h
  · rename_i hb
    cases h
    rw [hb]

end OutBuffer

end MyMuxer
