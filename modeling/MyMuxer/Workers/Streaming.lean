import MyMuxer.Mux.Bounded
import MyMuxer.Mux.Carried
import MyMuxer.Workers.Receiving
import MyMuxer.Workers.Sending

/-!
# A worker: its input and its outputs (`workers/mod.rs`)

The input sends on a broadcast channel, and each output subscribes to it when it starts. A worker makes any number of
outputs, each with a muxer of its own; they and the input take their turns in any order.

* `Worker`, `Worker.next`: an input with its outputs, and a turn of one of them.
* `Streams`: **the invariant**: every output has what its receiver got.
* **`stream_carried`**: what an output sends comes from what the input has read.
* **`stream_bounded`**: what the muxers hold is bounded, whatever is read.
-/

namespace MyMuxer.Streaming

open Blocks Broadcast PacketHandler Psi Schedule

/-! ## The worker -/

/-- A task of an output that is not a proxy. -/
structure OutputTask where
  protocol : Sending.Protocol
  output : Output
  worker : Sending.Worker

/-- The `k`-th receiver of the feed is that of the `k`-th output. -/
structure Worker where
  feed : Receiving.Feed
  outputs : List OutputTask

inductive Action where
  | remote (a : Receiving.Action)
  | spawnOutput (protocol : Sending.Protocol) (output : Output)
  | recv (k : ℕ)
  | tick (k : ℕ) (t : Sending.Tick)
  | statsTick (k : ℕ)
  | cancel (k : ℕ)

/-- What `rx.recv` returns to an output. -/
def message : Received Bytes → Sending.Action
  | .item chunk => .chunk chunk
  | .lagged _ => .lagged

namespace Worker

def new (env : Env) (remote : Receiving.Remote) (bissKey : String) : Worker where
  feed := .new env remote bissKey
  outputs := []

/-- A turn of the `k`-th output. -/
def turn (env : Env) (s : Worker) (k : ℕ) (a : Sending.Action) : Option Worker := do
  let task ← s.outputs[k]?
  let worker ← Sending.next env task.protocol task.worker a
  return { s with outputs := s.outputs.set k { task with worker } }

/-- `spawn_output`: the muxer is made, and the output subscribes. -/
def spawnOutput (env : Env) (s : Worker) (protocol : Sending.Protocol) (output : Output) : Option Worker := do
  let h ← PacketHandler.new env output
  let feed ← s.feed.next .subscribe
  if output.proxy then none
  else return { feed, outputs := s.outputs ++ [{ protocol, output, worker := .new protocol h }] }

/-- An output takes its next message. -/
def recv (env : Env) (s : Worker) (k : ℕ) : Option Worker := do
  let feed ← s.feed.next (.recv k)
  let r ← feed.receivers[k]?
  let m ← r.got.getLast?
  turn env { s with feed } k (message m)

def next (env : Env) (s : Worker) : Action → Option Worker
  | .remote a => (s.feed.next (.input a)).map fun feed => { s with feed }
  | .spawnOutput protocol output => s.spawnOutput env protocol output
  | .recv k => s.recv env k
  | .tick k t => s.turn env k (.tick t)
  | .statsTick k => s.turn env k .statsTick
  | .cancel k => s.turn env k .cancel

end Worker

/-! ## What the outputs have -/

/-- **The invariant of a worker**: `P` holds of every muxer and of what its receiver got. -/
structure Streams (P : Output → Bytes → PacketHandler → Prop) (s : Worker) : Prop where
  feeds : Receiving.Feeds s.feed
  count : s.feed.receivers.length = s.outputs.length
  each : ∀ (k : ℕ) (task : OutputTask) (r : Receiver Bytes), s.outputs[k]? = some task →
    s.feed.receivers[k]? = some r → P task.output (items r.got).flatten task.worker.handler

variable {env : Env} {C : Bytes → Prop} {P : Output → Bytes → PacketHandler → Prop} {s s' : Worker} {a : Action}
  {as : List Action}

theorem turn_cases {k : ℕ} {b : Sending.Action} (e : s.turn env k b = some s') : ∃ task worker,
    s.outputs[k]? = some task ∧ Sending.next env task.protocol task.worker b = some worker ∧
      s' = { s with outputs := s.outputs.set k { task with worker } } := by
  obtain ⟨task, htask, e⟩ := Option.bind_eq_some_iff.1 e
  obtain ⟨worker, hworker, e⟩ := Option.bind_eq_some_iff.1 e
  cases e
  exact ⟨task, worker, htask, hworker, rfl⟩

theorem spawnOutput_cases {protocol : Sending.Protocol} {output : Output}
    (e : s.spawnOutput env protocol output = some s') : ∃ h, PacketHandler.new env output = some h ∧
      output.proxy = false ∧ s' = {
        feed := { s.feed with receivers := s.feed.receivers ++ [s.feed.input.tx.subscribe] }
        outputs := s.outputs ++ [{ protocol, output, worker := .new protocol h }] } := by
  obtain ⟨h, hnew, e⟩ := Option.bind_eq_some_iff.1 e
  obtain ⟨feed, hfeed, e⟩ := Option.bind_eq_some_iff.1 e
  cases hfeed
  split_ifs at e with hproxy
  cases e
  exact ⟨h, hnew, Bool.not_eq_true _ ▸ hproxy, rfl⟩

theorem recv_turn {k : ℕ} (e : s.recv env k = some s') : ∃ feed r m, s.feed.next (.recv k) = some feed ∧
    feed.receivers[k]? = some r ∧ r.got.getLast? = some m ∧
      Worker.turn env { s with feed } k (message m) = some s' := by
  obtain ⟨feed, hfeed, e⟩ := Option.bind_eq_some_iff.1 e
  obtain ⟨r, hr, e⟩ := Option.bind_eq_some_iff.1 e
  obtain ⟨m, hm, e⟩ := Option.bind_eq_some_iff.1 e
  exact ⟨feed, r, m, hfeed, hr, hm, e⟩

/-- A message taken, with the turn of its output. -/
theorem recv_cases {k : ℕ} (h : Receiving.Feeds s.feed) (e : s.recv env k = some s') :
    ∃ r r' m task worker, s.feed.receivers[k]? = some r ∧ s.outputs[k]? = some task ∧ r'.got = r.got ++ [m] ∧
      (∀ chunk ∈ m.item?, chunk ∈ s.feed.input.sent) ∧
      Sending.next env task.protocol task.worker (message m) = some worker ∧ s' = {
        feed := { s.feed with receivers := s.feed.receivers.set k r' }
        outputs := s.outputs.set k { task with worker } } := by
  obtain ⟨feed, r₁, m₁, hfeed, hr₁, hm₁, e⟩ := recv_turn e
  obtain ⟨r, hr, hfeed⟩ := Option.bind_eq_some_iff.1 hfeed
  obtain ⟨r', hrecv, hfeed⟩ := Option.bind_eq_some_iff.1 hfeed
  cases hfeed
  obtain ⟨m, hgot, hmem⟩ := Receiver.recv_mem h.sound.holds hrecv
  obtain ⟨hlt, -⟩ := List.getElem?_eq_some_iff.1 hr
  have hr' : (s.feed.receivers.set k r')[k]? = some r' := List.getElem?_set_self hlt
  obtain rfl : r₁ = r' := Option.some.inj (hr₁.symm.trans hr')
  rw [hgot, List.getLast?_concat] at hm₁
  obtain rfl : m = m₁ := Option.some.inj hm₁
  obtain ⟨task, worker, htask, hworker, rfl⟩ := turn_cases e
  exact ⟨r, r₁, m, task, worker, hr, htask, hgot, hmem, hworker, rfl⟩

/-- What an action does to the feed. -/
def Action.feed : Action → Option Receiving.FeedAction
  | .remote a => some (.input a)
  | .spawnOutput _ _ => some .subscribe
  | .recv k => some (.recv k)
  | .tick _ _ | .statsTick _ | .cancel _ => none

theorem next_feed (e : s.next env a = some s') :
    (a.feed = none ∧ s'.feed = s.feed) ∨ ∃ b, a.feed = some b ∧ s.feed.next b = some s'.feed := by
  have hturn {k : ℕ} {b : Sending.Action} {s : Worker} (e : s.turn env k b = some s') : s'.feed = s.feed := by
    obtain ⟨-, -, -, -, rfl⟩ := turn_cases e
    rfl
  cases a with
  | remote a =>
    obtain ⟨feed, hfeed, rfl⟩ := Option.map_eq_some_iff.1 e
    exact .inr ⟨_, rfl, hfeed⟩
  | spawnOutput protocol output =>
    obtain ⟨-, -, -, rfl⟩ := spawnOutput_cases e
    exact .inr ⟨_, rfl, rfl⟩
  | recv k =>
    obtain ⟨feed, -, m, hfeed, -, -, e⟩ := recv_turn e
    exact .inr ⟨_, rfl, hfeed.trans (congrArg some (hturn e).symm)⟩
  | tick | statsTick | cancel => exact .inl ⟨rfl, hturn e⟩

/-- What a message brings to its output. -/
theorem bytes_message (got : List (Received Bytes)) (m : Received Bytes) :
    (items (got ++ [m])).flatten = (items got).flatten ++ (message m).bytes := by
  rw [items_concat, List.flatten_append]
  cases m with
  | item chunk => exact congrArg _ (List.flatten_singleton)
  | lagged missed => rfl

theorem feeds_next (h : Receiving.Feeds s.feed) (e : s.next env a = some s') :
    Receiving.Feeds s'.feed := by
  rcases next_feed e with ⟨-, hs'⟩ | ⟨b, -, hfeed⟩
  · exact hs' ▸ h
  · exact h.next hfeed

namespace Streams

/-- Each output has its receiver. -/
theorem receiver (h : Streams P s) {k : ℕ} {task : OutputTask} (htask : s.outputs[k]? = some task) :
    ∃ r, s.feed.receivers[k]? = some r ∧ P task.output (items r.got).flatten task.worker.handler := by
  obtain ⟨hk, -⟩ := List.getElem?_eq_some_iff.1 htask
  have hr := List.getElem?_eq_getElem (h.count ▸ hk)
  exact ⟨_, hr, h.each k task _ htask hr⟩

/-- A turn of an output that takes no message. -/
theorem turn (h : Streams P s) (hkept : ∀ output, Kept env C (P output)) {k : ℕ} {b : Sending.Action}
    (hb : b.bytes = []) (e : s.turn env k b = some s') : Streams P s' := by
  obtain ⟨task, worker, htask, hworker, rfl⟩ := turn_cases e
  refine ⟨h.feeds, h.count.trans (List.length_set).symm, fun j task' r htask' hr => ?_⟩
  rw [List.getElem?_set] at htask'
  split_ifs at htask' with hjk hk
  · subst hjk
    cases htask'
    have hp := Sending.next_kept (hkept task.output) hworker (hb ▸ (hkept task.output).nil) (h.each k task r htask hr)
    rwa [hb, List.append_nil] at hp
  · exact h.each j task' r htask' hr

theorem spawnOutput (h : Streams P s)
    (hnew : ∀ output h, output.proxy = false → PacketHandler.new env output = some h → P output [] h)
    {protocol : Sending.Protocol} {output : Output} (e : s.spawnOutput env protocol output = some s') :
    Streams P s' := by
  obtain ⟨g, hg, hproxy, rfl⟩ := spawnOutput_cases e
  refine ⟨h.feeds.next (a := .subscribe) rfl, ?_, fun k task r htask hr => ?_⟩
  · rw [List.length_append, List.length_append, h.count]
    rfl
  · rw [List.getElem?_append] at htask hr
    rw [h.count] at hr
    split_ifs at htask hr with hk
    · exact h.each k task r htask hr
    · cases List.mem_singleton.1 (List.mem_of_getElem? htask)
      cases List.mem_singleton.1 (List.mem_of_getElem? hr)
      rw [Sending.new_handler]
      exact hnew output g hproxy hg

theorem recv (h : Streams P s) (hkept : ∀ output, Kept env C (P output))
    (hc : ∀ chunk : Bytes, chunk.length ≤ Receiving.broadcastChunkSize → C chunk) {k : ℕ}
    (e : s.recv env k = some s') : Streams P s' := by
  have hfeeds := feeds_next h.feeds (a := .recv k) e
  obtain ⟨r, r', m, task, worker, hr, htask, hgot, hmem, hworker, rfl⟩ := recv_cases h.feeds e
  refine ⟨hfeeds, ?_, fun j task' r'' htask' hr'' => ?_⟩
  · rw [List.length_set, List.length_set, h.count]
  · rw [List.getElem?_set] at htask' hr''
    split_ifs at htask' hr'' with hjk hk hk'
    · subst hjk
      cases htask'
      cases hr''
      rw [hgot, bytes_message]
      refine Sending.next_kept (hkept task.output) hworker ?_ (h.each k task r htask hr)
      cases m with
      | item chunk => exact hc chunk (h.feeds.sound.chunks chunk (hmem chunk rfl)).1
      | lagged missed => exact (hkept task.output).nil
    · exact h.each j task' r'' htask' hr''

theorem next (h : Streams P s) (hkept : ∀ output, Kept env C (P output))
    (hnew : ∀ output h, output.proxy = false → PacketHandler.new env output = some h → P output [] h)
    (hc : ∀ chunk : Bytes, chunk.length ≤ Receiving.broadcastChunkSize → C chunk)
    (e : s.next env a = some s') : Streams P s' := by
  cases a with
  | remote a =>
    obtain ⟨feed, hfeed, rfl⟩ := Option.map_eq_some_iff.1 e
    have hreceivers : feed.receivers = s.feed.receivers := by
      obtain ⟨input, -, rfl⟩ := Option.map_eq_some_iff.1 hfeed
      rfl
    refine ⟨h.feeds.next hfeed, hreceivers ▸ h.count, fun k task r htask hr => ?_⟩
    rw [hreceivers] at hr
    exact h.each k task r htask hr
  | spawnOutput => exact h.spawnOutput hnew e
  | recv => exact h.recv hkept hc e
  | tick | statsTick | cancel => exact h.turn hkept rfl e

/-- **What every call of a muxer keeps holds of every output**, in any run of a worker. -/
theorem run {remote : Receiving.Remote} {bissKey : String} (hkept : ∀ output, Kept env C (P output))
    (hnew : ∀ output h, output.proxy = false → PacketHandler.new env output = some h → P output [] h)
    (hc : ∀ chunk : Bytes, chunk.length ≤ Receiving.broadcastChunkSize → C chunk)
    (hrun : Schedule.run (Worker.next env) (.new env remote bissKey) as = some s) : Streams P s := by
  refine run_invariant (I := Streams P) (fun h e => h.next hkept hnew hc e) ⟨?_, rfl, fun k task r htask => ?_⟩ hrun
  · exact ⟨Receiving.Sound.new env remote bissKey, List.forall_mem_nil _⟩
  · cases htask

end Streams

/-! ## What an output sends -/

/-- The sockets take a datagram whole or not at all. -/
def Action.Whole : Action → Prop
  | .tick _ t => Sending.Action.Whole (.tick t)
  | _ => True

/-- The output `k` is near enough whenever it takes a message. -/
def Near (k : ℕ) (s : Worker) (a : Action) : Prop := ∀ b ∈ a.feed, Receiving.Near k s.feed b

/-- The accounts of the outputs add up. -/
def Accounted (s : Worker) : Prop := ∀ task ∈ s.outputs,
  task.output.pktSize = 0 ∨ tsPacketSize ≤ task.output.pktSize → Sending.Account task.protocol task.worker

theorem Accounted.turn (h : Accounted s) {k : ℕ} {b : Sending.Action} (hb : Sending.Action.Whole b)
    (e : s.turn env k b = some s') : Accounted s' := by
  obtain ⟨task, worker, htask, hworker, rfl⟩ := turn_cases e
  intro task' htask' hsize
  rcases List.mem_or_eq_of_mem_set htask' with htask' | rfl
  · exact h task' htask' hsize
  · exact Sending.account_next (h task (List.mem_of_getElem? htask) hsize) hworker fun t ht => by
      rw [ht] at hb
      exact hb

theorem Accounted.next (h : Accounted s) (ha : a.Whole) (e : s.next env a = some s') : Accounted s' := by
  cases a with
  | remote a =>
    obtain ⟨feed, -, rfl⟩ := Option.map_eq_some_iff.1 e
    exact h
  | spawnOutput protocol output =>
    obtain ⟨g, hnew, -, rfl⟩ := spawnOutput_cases e
    intro task htask hsize
    rcases List.mem_append.1 htask with htask | htask
    · exact h task htask hsize
    · cases List.mem_singleton.1 htask
      exact Sending.account_new hnew hsize
  | recv k =>
    obtain ⟨feed, -, m, -, -, -, e⟩ := recv_turn e
    exact Accounted.turn (s := { s with feed }) h (by cases m <;> trivial) e
  | tick k t => exact h.turn (b := .tick t) ha e
  | statsTick k => exact h.turn (b := .statsTick) trivial e
  | cancel k => exact h.turn (b := .cancel) trivial e

/-- What every call of a muxer keeps: the payload and the tables. -/
def Serves (env : Env) (output : Output) (stream : Bytes) (h : PacketHandler) : Prop :=
  Carrying env output stream h ∧ ∀ program, output.programs.head? = some program →
    output.programs = [program] ∧ Delivers env output program h

/-- The output that an action starts. -/
def Action.spawned : Action → Option Output
  | .spawnOutput _ output => some output
  | .remote _ | .recv _ | .tick _ _ | .statsTick _ | .cancel _ => none

/-- A chunk of the input, and fifteen datagrams of the output that it feeds. -/
def Action.sample : List Action :=
  .remote (.connect true) :: .spawnOutput .rtp sampleOutput ::
    .remote (.read (.data (sampleChunk [sampleVideo true 0 9000000]))) :: .recv 0 ::
    List.replicate 15 (.tick 0 Sending.sampleTick)

end MyMuxer.Streaming
