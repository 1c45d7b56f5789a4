import MyMuxer.Lib.Fifo
import MyMuxer.Lib.Log
import MyMuxer.Mux.Frames

/-!
# Queues in order

* `Queue`: the two queues of a muxer; `pushedTo`, `emittedFrom`: what events say about one of them.
* `Ordered`: the invariant. Since `is_ready` was set, each queue has served what it was fed.
* **`queues_in_order`**: nothing is lost, duplicated, reordered or altered outside the adaptation
  field.
-/

namespace MyMuxer

open Relation Fifo

inductive Queue where
  | video
  | audio
  deriving DecidableEq

/-- The queue that takes a packet. -/
def Queue.takes (output : Output) (q : Queue) (pkt : TsPacket) : Bool :=
  match output.programs.head?, q with
  | some program, .video => decide (pkt.pid ∈ program.videoPids)
  | some program, .audio => !decide (pkt.pid ∈ program.videoPids)
  | none, _ => false

namespace PacketHandler

def queue (h : PacketHandler) : Queue → List TsPacket
  | .video => h.outBuffV.inner
  | .audio => h.outBuffA.inner

def pushedBy (output : Output) (q : Queue) : Event → Option TsPacket
  | .pushed pkt => if q.takes output pkt then some pkt else none
  | _ => none

def emittedBy (output : Output) (q : Queue) (ev : Event) : Option Packet :=
  ev.sent.bind fun e =>
    match e.source with
    | .queued pkt => if q.takes output pkt then some e.data else none
    | _ => none

/-- The packets pushed to a queue, in order. -/
def pushedTo (output : Output) (q : Queue) (events : List Event) : List TsPacket :=
  events.filterMap (pushedBy output q)

/-- The packets of a queue that went out, in order. -/
def emittedFrom (output : Output) (q : Queue) (events : List Event) : List Packet :=
  events.filterMap (emittedBy output q)

/-- A queue has served what it was fed, each packet as `process_packet` may change it. -/
def InTurn (fed queue : List TsPacket) (out : List Packet) : Prop :=
  Served (fun pkt p => Restamped pkt.data p) fed queue out

/-- The queue that `is_ready` was set with. -/
def Queue.start (video audio : List TsPacket) : Queue → List TsPacket
  | .video => video
  | .audio => audio

/-- From any time `is_ready` was set to any time before the queues are cleared, what went out is what
was there or came in; and now, what is left of it is in the queue. -/
def Ordered (h : PacketHandler) : Prop :=
  ∀ pre video audio base post rest, h.history = pre ++ .ready video audio base :: (post ++ rest) →
    (∀ ev ∈ post, ev.isCleared = false) → ∀ q : Queue, ∃ left,
      InTurn (Queue.start video audio q ++ pushedTo h.output q post) left (emittedFrom h.output q post) ∧
        (rest = [] → left = h.queue q ∧ h.isReady = true)

/-! ## Steps -/

/-- A step without an event. -/
theorem Ordered.keep {h h' : PacketHandler} (o : h.Ordered) (ho : h'.output = h.output)
    (hh : h'.history = h.history)
    (hq : h.isReady = true → h'.isReady = true ∧ ∀ q, h'.queue q = h.queue q) : h'.Ordered := by
  intro pre video audio base post rest e hc q
  rw [hh] at e
  obtain ⟨left, hleft, hnow⟩ := o pre video audio base post rest e hc q
  rw [ho]
  refine ⟨left, hleft, fun hrest => ?_⟩
  obtain ⟨h1, h2⟩ := hnow hrest
  obtain ⟨h3, h4⟩ := hq h2
  exact ⟨h1.trans (h4 q).symm, h3⟩

/-- A step with one event: it sets `is_ready`, clears the queues, or feeds and serves them. -/
theorem Ordered.note {h h' : PacketHandler} {ev : Event} (o : h.Ordered) (ho : h'.output = h.output)
    (hh : h'.history = h.history ++ [ev])
    (hnew : ∀ video audio base, ev = .ready video audio base →
      h'.isReady = true ∧ ∀ q, h'.queue q = Queue.start video audio q)
    (hstep : ev.isCleared = false → h.isReady = true → h'.isReady = true ∧ ∀ q fed out,
      InTurn fed (h.queue q) out → InTurn (fed ++ pushedTo h.output q [ev]) (h'.queue q)
        (out ++ emittedFrom h.output q [ev])) : h'.Ordered := by
  intro pre video audio base post rest e hc q
  rw [hh] at e
  rw [ho]
  rcases Log.snoc_eq_split e with ⟨-, rfl, hnil⟩ | ⟨tail, htail, e'⟩
  -- the event is the one that sets `is_ready`
  · obtain ⟨rfl, rfl⟩ := List.append_eq_nil_iff.1 hnil
    obtain ⟨h1, h2⟩ := hnew video audio base rfl
    refine ⟨h'.queue q, ?_, fun _ => ⟨rfl, h1⟩⟩
    rw [h2 q]
    simp only [pushedTo, emittedFrom, List.filterMap_nil, List.append_nil]
    exact Served.start _
  · rcases rest.eq_nil_or_concat' with rfl | ⟨rest, last, rfl⟩
    · obtain rfl : post = tail ++ [ev] := by rw [← htail, List.append_nil]
      obtain ⟨left, hleft, hnow⟩ := o pre video audio base tail [] (by rw [e', List.append_nil])
        (fun x hx => hc x (by simp [hx])) q
      obtain ⟨rfl, hr⟩ := hnow rfl
      obtain ⟨hr', hq⟩ := hstep (hc _ (by simp)) hr
      refine ⟨h'.queue q, ?_, fun _ => ⟨rfl, hr'⟩⟩
      have := hq q _ _ hleft
      simpa [pushedTo, emittedFrom, List.filterMap_append, List.append_assoc] using this
    · rw [← List.append_assoc] at htail
      obtain ⟨rfl, -⟩ := List.append_inj' htail rfl
      obtain ⟨left, hleft, -⟩ := o pre video audio base post rest e' hc q
      exact ⟨left, hleft, fun hrest => absurd hrest (by simp)⟩

/-- A step whose event is none of the queues' business. -/
theorem Ordered.other {h h' : PacketHandler} {ev : Event} (o : h.Ordered) (ho : h'.output = h.output)
    (hh : h'.history = h.history ++ [ev]) (hr : h'.isReady = h.isReady) (hq : ∀ q, h'.queue q = h.queue q)
    (hev : ev.isReady = false) (hp : ∀ q, pushedBy h.output q ev = none)
    (he : ∀ q, emittedBy h.output q ev = none) : h'.Ordered := by
  refine o.note ho hh (fun _ _ _ h => ?_) fun _ hready => ⟨hr.trans hready, fun q fed out hs => ?_⟩
  · rw [h] at hev; cases hev
  · rw [hq q]
    simpa [pushedTo, emittedFrom, hp q, he q] using hs

theorem flushPsi_ordered {h h' : PacketHandler} {k : Option Table} (e : h.flushPsiPackets = (k, h'))
    (o : h.Ordered) : h'.Ordered := by
  have hr := (flushPsi_isReady h).1
  rw [e] at hr
  obtain ⟨-, ho, hv, ha, _, hh⟩ := flushPsi_rest e
  refine o.other ho hh hr (fun q => ?_) rfl (fun _ => rfl) fun _ => rfl
  cases q with
  | video => exact congrArg OutBuffer.inner hv
  | audio => exact congrArg OutBuffer.inner ha

/-- The queue of its PID takes a packet. -/
theorem push_ordered {h : PacketHandler} {program : Program} {pkt : TsPacket} (o : h.Ordered)
    (hprog : h.getProgram = .ok program) : (h.push program pkt).Ordered := by
  have hpush (q : Queue) : pushedTo h.output q [.pushed pkt] =
      if q.takes h.output pkt then [pkt] else [] := by
    rw [pushedTo, List.filterMap_cons, pushedBy]
    split_ifs <;> simp
  have hemit (q : Queue) (out : List Packet) : out ++ emittedFrom h.output q [.pushed pkt] = out := by
    simp [emittedFrom, emittedBy, Event.sent]
  rw [PacketHandler.push]
  split_ifs with h1 h2
  · refine o.note rfl rfl (fun _ _ _ h => by cases h) fun _ hr => ⟨hr, fun q fed out hs => ?_⟩
    rw [hpush, hemit]
    cases q with
    | video =>
      rw [if_pos (by simp [Queue.takes, getProgram_eq hprog, h1])]
      exact hs.feed [pkt]
    | audio =>
      rw [if_neg (by simp [Queue.takes, getProgram_eq hprog, h1]), List.append_nil]
      exact hs
  · refine o.note rfl rfl (fun _ _ _ h => by cases h) fun _ hr => ⟨hr, fun q fed out hs => ?_⟩
    rw [hpush, hemit]
    cases q with
    | video =>
      rw [if_neg (by simp [Queue.takes, getProgram_eq hprog, h1]), List.append_nil]
      exact hs
    | audio =>
      rw [if_pos (by simp [Queue.takes, getProgram_eq hprog, h1])]
      exact hs.feed [pkt]
  · exact o

/-- A packet leaves the front of the queue that took it. -/
theorem Good.popped_queue {h h' : PacketHandler} {pkt : TsPacket} (g : Good h) (hp : h.Popped pkt h') :
    ∃ q : Queue, h.queue q = pkt :: h'.queue q ∧
      ∀ j : Queue, j.takes h.output pkt = decide (j = q) ∧ (j ≠ q → h'.queue j = h.queue j) := by
  rcases hp with e | e
  · obtain ⟨b, hb, rfl⟩ := popV_eq e
    obtain ⟨program, hprog, -, hmem⟩ := g.queuedV pkt (by rw [hb]; simp)
    refine ⟨.video, hb, fun j => ?_⟩
    cases j with
    | video => simp [Queue.takes, getProgram_eq hprog, hmem]
    | audio => simp [Queue.takes, getProgram_eq hprog, hmem]; rfl
  · obtain ⟨b, hb, rfl⟩ := popA_eq e
    obtain ⟨program, hprog, -, hmem⟩ := g.queuedA pkt (by rw [hb]; simp)
    refine ⟨.audio, hb, fun j => ?_⟩
    cases j with
    | video => simp [Queue.takes, getProgram_eq hprog, hmem]; rfl
    | audio => simp [Queue.takes, getProgram_eq hprog, hmem]

/-- The front of a queue goes out. -/
theorem popped_ordered {h h' h'' : PacketHandler} {pkt : TsPacket} {ev : Event} {e : Emitted} (g : Good h)
    (o : h.Ordered) (hp : h.Popped pkt h') (hev : ev.sent = some e) (hsrc : e.source = .queued pkt)
    (hdata : Restamped pkt.data e.data) (ho : h''.output = h'.output)
    (hr : h''.isReady = h'.isReady) (hh : h''.history = h'.history ++ [ev])
    (hq : ∀ q, h''.queue q = h'.queue q) : h''.Ordered := by
  have hnone (q : Queue) : pushedBy h.output q ev = none := by
    cases ev with
    | pushed => cases hev
    | _ => rfl
  have hready : ev.isReady = false := by
    cases ev with
    | ready => cases hev
    | _ => rfl
  obtain ⟨hh', ho', -⟩ := popped_rest hp
  rw [hh'] at hh
  refine o.note (ho.trans ho') hh (fun _ _ _ h => by rw [h] at hready; cases hready)
    fun _ hisReady => ⟨(hr.trans (popped_isReady hp).1).trans hisReady, fun q fed out hs => ?_⟩
  rw [hq q]
  have hout : emittedFrom h.output q [ev] = if q.takes h.output pkt then [e.data] else [] := by
    rw [emittedFrom, List.filterMap_cons, emittedBy, hev, Option.bind_some, hsrc]
    split_ifs with ht <;> simp [ht]
  rw [show pushedTo h.output q [ev] = [] by simp [pushedTo, hnone q], hout, List.append_nil]
  obtain ⟨q', hfront, hrest⟩ := g.popped_queue hp
  obtain ⟨htakes, hsame⟩ := hrest q
  by_cases hj : q = q'
  · subst hj
    rw [hfront] at hs
    rw [htakes, if_pos (by simp)]
    exact hs.serve hdata
  · rw [htakes, if_neg (by simpa using hj), hsame hj, List.append_nil]
    exact hs

theorem mux_ordered {h h' : PacketHandler} (s : MuxStep h h') (g : Good h) (o : h.Ordered) : h'.Ordered := by
  have hcount : (h.countSent 1).Ordered := o.keep rfl rfl fun hr => ⟨hr, fun q => by cases q <;> rfl⟩
  cases s with
  | push hprog _ => exact push_ordered o hprog
  | clear =>
    exact o.note rfl rfl (fun _ _ _ h => by cases h) fun h => absurd h (by decide)
  | drop hr hp =>
    obtain ⟨hh, ho, -⟩ := popped_rest hp
    exact o.keep ho hh fun hr' => absurd (hr.symm.trans hr') (by decide)
  | bitrate _ hr => exact o.keep rfl rfl fun hr' => absurd (hr.symm.trans hr') (by decide)
  | ready hr =>
    refine o.note rfl rfl (fun _ _ _ h => ?_) fun _ hr' => absurd (hr.symm.trans hr') (by decide)
    cases h
    exact ⟨rfl, fun q => by cases q <;> rfl⟩
  | flushPsi _ e => exact flushPsi_ordered e o
  | table _ e =>
    exact (flushPsi_ordered e o).other rfl rfl rfl (fun q => by cases q <;> rfl) rfl (fun _ => rfl)
      fun _ => rfl
  | null =>
    exact o.other rfl rfl rfl (fun q => by cases q <;> rfl) rfl (fun _ => rfl) fun _ => rfl
  | queued _ hp he =>
    obtain ⟨g1, program, hprog, hm⟩ := (countSent_good g 1).popped hp
    obtain ⟨r, hr1⟩ := g1.restamper
    obtain ⟨r', rfl, spec⟩ := processPacket_spec hr1 hm.pid he
    exact popped_ordered (countSent_good g 1) hcount hp rfl spec.source spec.restamped rfl rfl rfl
      fun q => by cases q <;> rfl
  | _ => exact o.keep rfl rfl fun hr => ⟨hr, fun q => by cases q <;> rfl⟩

theorem vbr_ordered {h h' : PacketHandler} (s : VbrStep h h') (g : Good h) (o : h.Ordered) : h'.Ordered := by
  cases s with
  | table _ e =>
    exact (flushPsi_ordered e o).other rfl rfl rfl (fun q => by cases q <;> rfl) rfl (fun _ => rfl)
      fun _ => rfl
  | queued _ hp => exact popped_ordered g o hp rfl rfl (.refl _) rfl rfl rfl fun q => by cases q <;> rfl
  | clock | frame => exact o.keep rfl rfl fun hr => ⟨hr, fun q => by cases q <;> rfl⟩

/-! ## Runs -/

/-- **The queues leave in order.** From any time `is_ready` was set to any time before the queues are
cleared, the packets of a queue that went out are the first of those in it at the start and pushed
since, in order, each changed in its adaptation field alone; those left over are still in the queue. -/
theorem queues_in_order {env : Env} {output : Output} (hproxy : output.proxy = false) {ops : List Op}
    {outs : List (Option Bytes)} {h : PacketHandler} (hrun : runNew env output ops = .ok (outs, h))
    {pre post rest : List Event} {video audio : List TsPacket} {base : ℕ}
    (hh : h.history = pre ++ .ready video audio base :: (post ++ rest))
    (hc : ∀ ev ∈ post, ev.isCleared = false) (q : Queue) :
    let fed := Queue.start video audio q ++ pushedTo output q post
    let out := emittedFrom output q post
    List.Forall₂ (fun pkt p => Restamped pkt.data p) (fed.take out.length) out ∧
      (rest = [] → fed.drop out.length = h.queue q) := by
  obtain ⟨h₀, f, hrun⟩ := runNew_eq_ok hrun
  have s := (run_steps hrun).1
  have start : Good h₀ ∧ h₀.Ordered := by
    refine ⟨f.good hproxy, fun pre video audio base post rest e => ?_⟩
    rw [f.history] at e
    exact absurd e (by simp)
  obtain ⟨-, o⟩ := steps_invariant (P := fun h => Good h ∧ h.Ordered) s start fun s ⟨g, o⟩ =>
    ⟨any_good s g, s.elim (mux_ordered · g o) (vbr_ordered · g o)⟩
  obtain ⟨left, hleft, hnow⟩ := o pre video audio base post rest hh hc q
  rw [(steps_output s).trans f.output_eq] at hleft
  exact ⟨hleft.take, fun hrest => hleft.drop.trans (hnow hrest).1⟩

/-- The one video packet of the sample leaves. -/
theorem queues_in_order_sample : ∃ outs h pre video audio base post,
    runNew Env.sample sampleOutput sampleOps = .ok (outs, h) ∧
    h.history = pre ++ .ready video audio base :: post ∧
      (emittedFrom sampleOutput .video h.history).length = 1 ∧
    (video ++ pushedTo sampleOutput .video post).drop (emittedFrom sampleOutput .video post).length =
      h.queue .video := by
  obtain ⟨⟨outs, h⟩, hrun, hcheck⟩ := ok_of_map (x := runNew Env.sample sampleOutput sampleOps)
    (f := fun x => (x.2.history.any Event.isReady, x.2.history.all fun ev => !ev.isCleared,
      (emittedFrom sampleOutput .video x.2.history).length)) (b := (true, true, 1)) (by decide +kernel)
  obtain ⟨hready, hclear, hlen⟩ : _ ∧ _ ∧ _ := by simpa using hcheck
  obtain ⟨ev, hmem, hev⟩ := hready
  obtain ⟨pre, post, hh⟩ := List.append_of_mem hmem
  cases ev with
  | ready video audio base =>
    have hh' : h.history = pre ++ .ready video audio base :: (post ++ []) := by rw [hh, List.append_nil]
    obtain ⟨-, hleft⟩ := queues_in_order rfl hrun hh'
      (fun ev hmem => hclear ev (by rw [hh]; simp [hmem])) .video
    exact ⟨outs, h, pre, video, audio, base, post, hrun, hh, hlen, hleft rfl⟩
  | _ => cases hev

end PacketHandler

end MyMuxer
