import MyMuxer.Lib.Calls
import MyMuxer.Lib.Schedule
import MyMuxer.Lib.Table
import Mathlib.Data.List.AList
import Mathlib.Tactic

/-!
# Dumps of outputs (`supervisor.rs`, `workers/mod.rs`)

The requests `/startdump/{id}` and `/stopdump/{id}`, and the clients that leave, interleaved at their lock
and await points. A request runs to its end; a client leaves only once it has its stream.

* `Supervisor`: the map `dumps`, the dumps started so far, and which of them were cancelled.
* `stepCall`, `next`: one step of a request; requests, clients that leave, other workers.
* `Alone`: a dump is inserted where there is no entry of its output and no drop guard of an earlier one.
* `Owned`: the invariant of runs with this condition.
* **`dumps_kept`**, and `second_dump_orphans` without the condition.
-/

namespace MyMuxer.Dumps

open Calls Schedule

/-! ## What is dumped -/

/-- What `start_dump` reads of a `config::Output`. -/
structure OutputConfig where
  id : ℕ
  name : String
  outputUrl : String
  taskType : String
  bissKey : String

/-- A running worker: its stream, the outputs configured, and the keys of its map `outputs`. -/
structure Worker where
  streamId : ℕ
  configured : List OutputConfig
  outputs : List ℕ

/-- The `config::Stream` of a dump, which has no outputs and no errors. -/
structure Stream where
  id : ℕ
  remoteUrl : String
  bissKey : String
  name : String
  taskType : String

def dumpUrl (output : OutputConfig) : Option String :=
  match output.taskType with
  | "http" => some ("http://" ++ output.outputUrl)
  | "udp" => some ("udp://" ++ output.outputUrl)
  | "rtp" => some ("rtp://" ++ output.outputUrl)
  | "unix" => some output.outputUrl
  | _ => none

/-- The closure of `find_map`: the stream of a dump of output `id`, where this worker runs it. -/
def dumpConfig (id : ℕ) (worker : Worker) : Option Stream :=
  if id ∈ worker.outputs then
    (worker.configured.find? fun output => output.id = id).bind fun output =>
      (dumpUrl output).map fun url =>
        { id := worker.streamId
          remoteUrl := url
          bissKey := output.bissKey
          name := output.name ++ "_dump"
          taskType := output.taskType }
  else none

/-! ## Requests -/

/-- The `n`-th dump started. -/
abbrev Task : Type := ℕ

structure DumpTask where
  output : ℕ
  config : Stream

inductive DumpError where
  /-- `Output id {} not found`. -/
  | outputNotFound (id : ℕ)
  /-- `Dump with id {} not found`. -/
  | dumpNotFound (id : ℕ)
  deriving DecidableEq

/-- Where a request is. -/
inductive Pc where
  /-- `start_dump`, before `self.workers.read()`. -/
  | finding (id : ℕ)
  /-- Before `self.dumps.write()`; the task is spawned. -/
  | inserting (id : ℕ) (task : Task)
  /-- The client reads its dump; the drop guard knows `id` alone. -/
  | streaming (id : ℕ) (own : Task)
  /-- `stop_dump`, before `self.dumps.write()`; called by the drop guard of the client of `own`, if by one. -/
  | removing (id : ℕ) (own : Option Task)
  /-- Before `dump.cancel.cancel()`. -/
  | cancelling (task : Task)
  /-- In `wait_and_abort(..)`. -/
  | waiting (task : Task)
  | done (result : Except DumpError Unit)

structure Supervisor where
  /-- The workers, in the order in which the map yields them. -/
  workers : List Worker
  dumps : AList fun _ : ℕ => Task
  started : List DumpTask
  cancelled : Task → Bool

/-- One step of a request. -/
def stepCall (s : Supervisor) (_t : ℕ) (pc : Pc) (_ : Unit) : Option (Supervisor × Pc) :=
  match pc with
  | .finding id =>
    match s.workers.findSome? (dumpConfig id) with
    | some config =>
      some ({ s with started := s.started ++ [{ output := id, config }] }, .inserting id s.started.length)
    | none => some (s, .done (.error (.outputNotFound id)))
  | .inserting id task => some ({ s with dumps := s.dumps.insert id task }, .streaming id task)
  | .streaming _ _ => none
  | .removing id _ =>
    match s.dumps.lookup id with
    | some task => some ({ s with dumps := s.dumps.erase id }, .cancelling task)
    | none => some (s, .done (.error (.dumpNotFound id)))
  | .cancelling task => some ({ s with cancelled := Function.update s.cancelled task true }, .waiting task)
  | .waiting _ => some (s, .done (.ok ()))
  | .done _ => none

/-- The stream of a client is dropped, and its guard spawns `stop_dump`. -/
def dropStream (s : Supervisor) (_t : ℕ) (pc : Pc) (_ : Unit) : Option (Supervisor × Pc) :=
  match pc with
  | .streaming id own => some (s, .removing id (some own))
  | _ => none

inductive Action where
  | startDump (id : ℕ)
  | stopDump (id : ℕ)
  /-- The client of request number `t` leaves, or its stream ends. -/
  | leave (t : ℕ)
  /-- Request number `t` takes its next step. -/
  | run (t : ℕ)
  /-- Workers are started and stopped. -/
  | workers (workers : List Worker)

abbrev State : Type := Cfg Supervisor Pc

def next (c : State) : Action → Option State
  | .startDump id => some (c.request [.finding id])
  | .stopDump id => some (c.request [.removing id none])
  | .leave t => c.run dropStream t ()
  | .run t => c.run stepCall t ()
  | .workers workers => some { c with shared := { c.shared with workers } }

def new (workers : List Worker) : State where
  shared := { workers, dumps := ∅, started := [], cancelled := fun _ => false }
  calls := []

/-! ## What a run may rely on -/

/-- The output whose entry the drop guard of this request removes, or is about to. -/
def Pc.guards : Pc → Option (ℕ × Task)
  | .streaming id own => some (id, own)
  | .removing id own => own.map fun own => (id, own)
  | _ => none

/-- The request is about to insert the task, or to cancel it. -/
def Pc.inHand (pc : Pc) (task : Task) : Prop :=
  match pc with
  | .inserting _ task' | .cancelling task' => task' = task
  | _ => False

instance (pc : Pc) (task : Task) : Decidable (pc.inHand task) := by
  unfold Pc.inHand
  split <;> infer_instance

/-- The task is the entry of its output. -/
def Stored (s : Supervisor) (task : Task) : Prop :=
  ∃ dump, s.started[task]? = some dump ∧ s.dumps.lookup dump.output = some task

/-- A dump is inserted where the map has no entry of its output, and where no client of an earlier dump of
it has its guard's removal still to come. -/
def Alone (c : State) : Action → Prop
  | .run t =>
    match c.calls[t]? with
    | some (.inserting id _) => id ∉ c.shared.dumps ∧ ∀ pc ∈ c.calls, ∀ g ∈ pc.guards, g.1 ≠ id
    | _ => True
  | _ => True

instance (c : State) (a : Action) : Decidable (Alone c a) := by
  unfold Alone
  split
  · split <;> infer_instance
  · infer_instance

/-- A drop guard takes a dump that is not its client's. -/
def stopsOther (c : State) : Action → Bool
  | .run t =>
    match c.calls[t]? with
    | some (.removing id (some own)) => (c.shared.dumps.lookup id).any fun task => task ≠ own
    | _ => false
  | _ => false

/-! ## The invariant -/

/-- A task about to be inserted is of that output; a guard finds its own dump or none. -/
def Named (s : Supervisor) (pc : Pc) : Prop :=
  (∀ id task, pc = .inserting id task → ∃ config, s.started[task]? = some { output := id, config }) ∧
    ∀ id own, pc.guards = some (id, own) → ∀ task, s.dumps.lookup id = some task → task = own

/-- No running dump is out of reach, and no guard in the way of another's dump. -/
structure Owned (c : State) : Prop where
  named : Every Named c
  kept : ∀ task < c.shared.started.length, c.shared.cancelled task = false → Kept Stored Pc.inHand c task

variable {c c' : State} {a : Action} {s s' : Supervisor} {t : ℕ} {pc pc' : Pc} {task : Task}

theorem owned_new (workers : List Worker) : Owned (new workers) where
  named _ hpc := absurd hpc List.not_mem_nil
  kept task htask := absurd htask (Nat.not_lt_zero task)

theorem Stored.append (h : Stored s task) (dump : DumpTask) :
    Stored { s with started := s.started ++ [dump] } task := by
  obtain ⟨d, hd, hlook⟩ := h
  exact ⟨d, (List.getElem?_append_left (List.getElem?_eq_some_iff.1 hd).1).trans hd, hlook⟩

theorem Stored.insert {id : ℕ} (h : Stored s task) (hid : id ∉ s.dumps) (new : Task) :
    Stored { s with dumps := s.dumps.insert id new } task := by
  obtain ⟨d, hd, hlook⟩ := h
  refine ⟨d, hd, (AList.lookup_insert_ne ?_).trans hlook⟩
  rintro rfl
  exact hid (Table.mem_iff.2 ⟨_, hlook⟩)

/-- More dumps started and fewer entries leave a request what it relies on. -/
theorem Named.mono (h : Named s pc)
    (hstarted : ∀ (task : Task) (d : DumpTask), s.started[task]? = some d → s'.started[task]? = some d)
    (hdumps : ∀ id task, s'.dumps.lookup id = some task → s.dumps.lookup id = some task) : Named s' pc := by
  refine ⟨fun id task e => ?_, fun id own e task hlook => h.2 id own e task (hdumps id task hlook)⟩
  obtain ⟨config, hconfig⟩ := h.1 id task e
  exact ⟨config, hstarted _ _ hconfig⟩

/-- **What the requests do to the tasks**: a task that is not cancelled stays in store or in hand. -/
theorem stepCall_kept (hc : Owned c) (hpc : c.calls[t]? = some pc)
    (hs : stepCall c.shared t pc () = some (s, pc')) (ha : Alone c (.run t)) (htask : task < s.started.length)
    (hrun : s.cancelled task = false) : Kept Stored Pc.inHand { shared := s, calls := c.calls.set t pc' } task := by
  cases pc with
  | finding id =>
    simp only [stepCall] at hs
    split at hs <;> cases hs
    · rcases Nat.lt_succ_iff_lt_or_eq.1 (List.length_append.symm ▸ htask) with hlt | rfl
      · exact (hc.kept task hlt hrun).run hpc (fun h => .inl (h.append _)) False.elim
      · exact .inr ⟨_, mem_set_self hpc, rfl⟩
    · exact (hc.kept task htask hrun).run hpc .inl False.elim
  | inserting id new =>
    cases hs
    simp only [Alone, hpc] at ha
    refine (hc.kept task htask hrun).run hpc (fun h => .inl (h.insert ha.1 new)) ?_
    rintro rfl
    obtain ⟨config, hstarted⟩ := (hc.named _ (List.mem_of_getElem? hpc)).1 id new rfl
    exact .inl ⟨_, hstarted, AList.lookup_insert _⟩
  | streaming id own => cases hs
  | removing id own =>
    simp only [stepCall] at hs
    split at hs <;> rename_i hlook <;> cases hs
    · refine (hc.kept task htask hrun).run hpc (fun ⟨d, hd, h⟩ => ?_) False.elim
      by_cases hid : d.output = id
      · rw [hid] at h
        exact .inr (Option.some.inj (hlook.symm.trans h))
      · exact .inl ⟨d, hd, (AList.lookup_erase_ne hid).trans h⟩
    · exact (hc.kept task htask hrun).run hpc .inl False.elim
  | cancelling other =>
    cases hs
    have hne : task ≠ other := by
      rintro rfl
      simp at hrun
    simp only [Function.update_of_ne hne] at hrun
    exact (hc.kept task htask hrun).run hpc .inl fun h => absurd h.symm hne
  | waiting other => cases hs; exact (hc.kept task htask hrun).run hpc .inl False.elim
  | done result => cases hs

/-- **What the requests do to the guards**: each finds its own dump or none. -/
theorem stepCall_named (hc : Owned c) (hpc : c.calls[t]? = some pc)
    (hs : stepCall c.shared t pc () = some (s, pc')) (ha : Alone c (.run t)) :
    Every Named { shared := s, calls := c.calls.set t pc' } := by
  have hsame : Named c.shared pc' → Every Named { shared := c.shared, calls := c.calls.set t pc' } :=
    fun h => hc.named.run hpc h fun _ _ _ _ h => h
  cases pc with
  | finding id =>
    simp only [stepCall] at hs
    split at hs <;> cases hs
    · refine hc.named.run hpc ⟨fun id' task h => ?_, fun _ _ h => by cases h⟩ fun _ q _ _ hq => ?_
      · cases h
        exact ⟨_, List.getElem?_concat_length⟩
      · refine hq.mono (fun task d hd => ?_) fun _ _ h => h
        exact (List.getElem?_append_left (List.getElem?_eq_some_iff.1 hd).1).trans hd
    · exact hsame ⟨fun _ _ h => (by cases h), fun _ _ h => by cases h⟩
  | inserting id new =>
    cases hs
    simp only [Alone, hpc] at ha
    refine hc.named.run hpc ⟨fun _ _ h => (by cases h), fun id' own h task hlook => ?_⟩ fun u q _ hu hq => ?_
    · cases h
      exact Option.some.inj (hlook.symm.trans (AList.lookup_insert _))
    · refine ⟨hq.1, fun id' own h task hlook => hq.2 id' own h task ?_⟩
      have hne : id' ≠ id := ha.2 q (List.mem_of_getElem? hu) (id', own) h
      exact (AList.lookup_insert_ne hne).symm.trans hlook
  | streaming id own => cases hs
  | removing id own =>
    simp only [stepCall] at hs
    split at hs <;> cases hs
    · refine hc.named.run hpc ⟨fun _ _ h => (by cases h), fun _ _ h => by cases h⟩ fun _ q _ _ hq =>
        hq.mono (fun _ _ h => h) fun id' task hlook => ?_
      by_cases hid : id' = id
      · subst hid
        rw [AList.lookup_erase] at hlook
        cases hlook
      · exact (AList.lookup_erase_ne hid).symm.trans hlook
    · exact hsame ⟨fun _ _ h => (by cases h), fun _ _ h => by cases h⟩
  | cancelling other =>
    cases hs
    exact hc.named.run hpc ⟨fun _ _ h => (by cases h), fun _ _ h => by cases h⟩ fun _ q _ _ hq =>
      hq.mono (fun _ _ h => h) fun _ _ h => h
  | waiting other => cases hs; exact hsame ⟨fun _ _ h => (by cases h), fun _ _ h => by cases h⟩
  | done result => cases hs

/-- **Every step with the condition keeps the invariant.** -/
theorem Owned.next (hc : Owned c) (hs : next c a = some c') (ha : Alone c a) : Owned c' := by
  cases a with
  | startDump id =>
    cases hs
    refine ⟨hc.named.request fun pc hpc => ?_, fun task ht hr => (hc.kept task ht hr).request _⟩
    rw [List.mem_singleton.1 hpc]
    exact ⟨fun _ _ h => (by cases h), fun _ _ h => by cases h⟩
  | stopDump id =>
    cases hs
    refine ⟨hc.named.request fun pc hpc => ?_, fun task ht hr => (hc.kept task ht hr).request _⟩
    rw [List.mem_singleton.1 hpc]
    exact ⟨fun _ _ h => (by cases h), fun _ _ h => by cases h⟩
  | leave t =>
    obtain ⟨pc, s, pc', hpc, hdrop, rfl⟩ := Cfg.run_eq_some.1 hs
    simp only [dropStream] at hdrop
    split at hdrop <;> cases hdrop
    rename_i id own
    have hown : Named c.shared (.streaming id own) := hc.named _ (List.mem_of_getElem? hpc)
    refine ⟨hc.named.run hpc ⟨fun _ _ h => (by cases h), hown.2⟩ fun _ _ _ _ h => h, fun task ht hr => ?_⟩
    exact (hc.kept task ht hr).run hpc .inl False.elim
  | run t =>
    obtain ⟨pc, s, pc', hpc, hstep, rfl⟩ := Cfg.run_eq_some.1 hs
    exact ⟨stepCall_named hc hpc hstep ha, fun task ht hr => stepCall_kept hc hpc hstep ha ht hr⟩
  | workers ws =>
    cases hs
    exact ⟨hc.named.shared fun _ h => h, fun task ht hr => (hc.kept task ht hr).shared id⟩

theorem Owned.stopsOther (hc : Owned c) (a : Action) : stopsOther c a = false := by
  unfold MyMuxer.Dumps.stopsOther
  split
  · split
    · rename_i id own hpc
      have hown := (hc.named _ (List.mem_of_getElem? hpc)).2 id own rfl
      rw [Option.any_eq_false]
      intro task htask
      simp [hown task htask]
    · rfl
  · rfl

/-! ## Runs -/

/-- **No dump is orphaned and none is stopped by another's client.** In every run in which a dump is
inserted only where there is no entry of its output and no guard of an earlier one, a dump that is not
cancelled is the entry of its output, or a request is about to insert or cancel it; and no guard takes
another's dump. -/
theorem dumps_kept {workers : List Worker} {as : List Action} (hrun : run next (new workers) as = some c)
    (ha : Along next Alone (new workers) as) :
    (∀ task dump, c.shared.started[task]? = some dump → c.shared.cancelled task = false →
      c.shared.dumps.lookup dump.output = some task ∨ ∃ pc ∈ c.calls, pc.inHand task) ∧
    Along next (fun c a => stopsOther c a = false) (new workers) as := by
  have hc : Owned c := invariant Owned.next (owned_new workers) hrun ha
  refine ⟨fun task dump hd hr => ?_, ?_⟩
  · refine (hc.kept task (List.getElem?_eq_some_iff.1 hd).1 hr).imp_left ?_
    rintro ⟨d, hd', hlook⟩
    cases hd.symm.trans hd'
    exact hlook
  · exact along_of_invariant Owned.next (fun h _ => h.stopsOther _) (owned_new workers) ha

/-- A worker that runs output 7. -/
def udpWorker : Worker where
  streamId := 1
  configured := [{ id := 7, name := "o", outputUrl := "239.0.0.1:1234", taskType := "udp", bissKey := "" }]
  outputs := [7]

/-- A client dumps output 7 and leaves, and then another one does. -/
def oneAfterAnother : List Action :=
  [.startDump 7, .run 0, .run 0, .leave 0, .run 0, .run 0, .run 0, .startDump 7, .run 1, .run 1]

theorem dumps_kept_sample : ∃ c, run next (new [udpWorker]) oneAfterAnother = some c ∧
    c.shared.started.length = 2 ∧ (c.shared.dumps.lookup 7 = some 1 ∨ ∃ pc ∈ c.calls, pc.inHand 1) := by
  have hcheck : (run next (new [udpWorker]) oneAfterAnother).map
      (fun c => (c.shared.started.map DumpTask.output, c.shared.cancelled 1)) = some ([7, 7], false) := by
    decide
  obtain ⟨c, hc, hcheck⟩ := Option.map_eq_some_iff.1 hcheck
  obtain ⟨hstarted, hcancelled⟩ := Prod.mk.inj hcheck
  have hlen : c.shared.started.length = 2 := by simpa using congrArg List.length hstarted
  obtain ⟨dump, hdump⟩ : ∃ dump, c.shared.started[1]? = some dump :=
    ⟨_, List.getElem?_eq_getElem (by omega)⟩
  have houtput : dump.output = 7 := by
    have h := congrArg (fun l : List ℕ => l[1]?) hstarted
    simpa [hdump] using h
  have hkept := (dumps_kept hc (by decide)).1 1 dump hdump hcancelled
  rw [houtput] at hkept
  exact ⟨c, hc, hlen, hkept⟩

/-- Two clients dump output 7, and the first one leaves. -/
def twoClients : List Action :=
  [.startDump 7, .run 0, .run 0, .startDump 7, .run 1, .run 1, .leave 0, .run 0, .run 0, .run 0]

/-- **The second dump takes the place of the first, whose client then stops the second**: the first goes
on, and nobody can stop it any more; the second is cancelled while its client reads it. -/
theorem second_dump_orphans : ∃ c, run next (new [udpWorker]) twoClients = some c ∧
    c.shared.started.length = 2 ∧ c.shared.cancelled 0 = false ∧ c.shared.dumps.lookup 7 = none ∧
    (∀ pc ∈ c.calls, ¬ pc.inHand 0) ∧ c.shared.cancelled 1 = true ∧ c.calls[1]? = some (.streaming 7 1) ∧
    ¬ Along next (fun c a => stopsOther c a = false) (new [udpWorker]) twoClients := by
  have hcheck : (run next (new [udpWorker]) twoClients).map (fun c => ((c.shared.started.length,
      c.shared.cancelled 0), (c.shared.dumps.lookup 7, c.shared.cancelled 1), c.calls)) =
      some ((2, false), (none, true), [.done (.ok ()), .streaming 7 1]) := rfl
  obtain ⟨c, hc, hcheck⟩ := Option.map_eq_some_iff.1 hcheck
  obtain ⟨hfirst, hrest⟩ := Prod.mk.inj hcheck
  obtain ⟨hlen, hzero⟩ := Prod.mk.inj hfirst
  obtain ⟨hmap, hcalls⟩ := Prod.mk.inj hrest
  obtain ⟨hlook, hone⟩ := Prod.mk.inj hmap
  refine ⟨c, hc, hlen, hzero, hlook, ?_, hone, by rw [hcalls]; rfl, by decide⟩
  rw [hcalls]
  decide

end MyMuxer.Dumps
