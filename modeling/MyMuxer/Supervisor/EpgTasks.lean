import MyMuxer.Lib.Calls
import MyMuxer.Lib.Schedule
import MyMuxer.Lib.Table
import Mathlib.Data.List.AList
import Mathlib.Tactic

/-!
# EPG tasks of the supervisor (`supervisor.rs`)

The calls `epg_start` and `epg_stop` and the passes of `monitor`, interleaved at their lock and await
points, with EPG tasks that finish at any time.

* `Supervisor`: the map `epg` with its lock, and what became of every task that was spawned.
* `stepCall`, `monitor`, `next`: one step of a call, a pass of `monitor`, and all that may happen.
* `Owned`: the invariant: one call at a time holds the lock; a running task is in the map or in hand.
* **`epg_tasks_kept`**: no running task is overwritten, dropped or out of reach.
-/

namespace MyMuxer.EpgTasks

open Calls Schedule

structure EpgConfig where
  id : ℕ
  url : String

/-- The `n`-th EPG task spawned. -/
abbrev Task : Type := ℕ

/-- What became of a task. -/
inductive Status where
  | running
  | finished
  | cancelled
  deriving DecidableEq

inductive EpgError where
  /-- `EPG already running for stream with id {}`. -/
  | alreadyRunning (id : ℕ)
  /-- `Config not loaded`. -/
  | configNotLoaded
  /-- `EPG config with id {} not found`. -/
  | configNotFound (id : ℕ)
  /-- `EPG not running`. -/
  | notRunning
  /-- The task has panicked. -/
  | joinFailed
  deriving DecidableEq

/-- Where a call is. -/
inductive Pc where
  /-- `epg_start`, before `self.epg.write()`. -/
  | locking (id : ℕ)
  /-- Before `self.config.read()`. -/
  | configuring (id : ℕ)
  /-- Before `tokio::spawn(..)`. -/
  | spawning (id : ℕ) (config : EpgConfig)
  /-- Before the task is inserted, and the lock released. -/
  | inserting (id : ℕ) (task : Task)
  /-- `epg_stop`, before `self.epg.write()`. -/
  | removing (id : ℕ)
  /-- Before `epg_task.cancel.cancel()`. -/
  | cancelling (task : Task)
  /-- In `wait_and_abort(..)`. -/
  | waiting (task : Task)
  | done (result : Except EpgError Unit)

/-- The call holds the lock of `epg` while it waits. -/
def Pc.holds : Pc → Option Unit
  | .configuring _ | .spawning _ _ | .inserting _ _ => some ()
  | _ => none

/-- `epg_configs` is that of the configuration, if one is loaded. -/
structure Supervisor where
  epgConfigs : Option (List EpgConfig)
  epg : AList fun _ : ℕ => Task
  locked : Bool
  started : List EpgConfig
  status : Task → Status

/-- One step of a call; `ok` says whether the task that is waited for ends without a panic. -/
def stepCall (s : Supervisor) (_t : ℕ) (pc : Pc) (ok : Bool) : Option (Supervisor × Pc) :=
  match pc with
  | .locking id =>
    if s.locked then none
    else if id ∈ s.epg then some (s, .done (.error (.alreadyRunning id)))
    else some ({ s with locked := true }, .configuring id)
  | .configuring id =>
    match s.epgConfigs with
    | none => some ({ s with locked := false }, .done (.error .configNotLoaded))
    | some epgConfigs =>
      match epgConfigs.find? fun config => config.id = id with
      | none => some ({ s with locked := false }, .done (.error (.configNotFound id)))
      | some config => some (s, .spawning id config)
  | .spawning id config =>
    some ({ s with
      started := s.started ++ [config]
      status := Function.update s.status s.started.length .running }, .inserting id s.started.length)
  | .inserting id task => some ({ s with epg := s.epg.insert id task, locked := false }, .done (.ok ()))
  | .removing id =>
    if s.locked then none
    else
      match s.epg.lookup id with
      | some task => some ({ s with epg := s.epg.erase id }, .cancelling task)
      | none => some (s, .done (.error .notRunning))
  | .cancelling task =>
    some ({ s with status := Function.update s.status task .cancelled }, .waiting task)
  | .waiting _ => some (s, .done (if ok then .ok () else .error .joinFailed))
  | .done _ => none

/-- `task.handle.is_finished()`. -/
def Supervisor.isFinished (s : Supervisor) (task : Task) : Bool := s.status task = .finished

/-- `epg_tasks.retain(..)`, and the ids it leaves to restart. -/
def retainTasks (s : Supervisor) : AList fun _ : ℕ => Task :=
  ⟨s.epg.entries.filter fun e => !s.isFinished e.2, s.epg.nodupKeys.sublist List.filter_sublist⟩

def epgTasksIds (s : Supervisor) : List ℕ := (s.epg.entries.filter fun e => s.isFinished e.2).map Sigma.fst

abbrev State : Type := Cfg Supervisor Pc

/-- The EPG part of a pass of `monitor`. -/
def monitor (c : State) : Option State :=
  if c.shared.locked then none
  else some (Cfg.request { c with shared := { c.shared with epg := retainTasks c.shared } }
    ((epgTasksIds c.shared).map .locking))

inductive Action where
  | epgStart (id : ℕ)
  | epgStop (id : ℕ)
  /-- Call number `t` takes its next step. -/
  | run (t : ℕ) (ok : Bool)
  /-- A task ends. -/
  | finishes (task : Task)
  | monitor
  /-- A configuration is loaded. -/
  | load (epgConfigs : List EpgConfig)

def next (c : State) : Action → Option State
  | .epgStart id => some (c.request [.locking id])
  | .epgStop id => some (c.request [.removing id])
  | .run t ok => c.run stepCall t ok
  | .finishes task =>
    if task < c.shared.started.length ∧ c.shared.status task = .running then
      some { c with shared := { c.shared with status := Function.update c.shared.status task .finished } }
    else none
  | .monitor => monitor c
  | .load epgConfigs => some { c with shared := { c.shared with epgConfigs := some epgConfigs } }

def new : State where
  shared := { epgConfigs := none, epg := ∅, locked := false, started := [], status := fun _ => .finished }
  calls := []

/-! ## The invariant -/

/-- The call is about to insert the task, or to cancel it. -/
def Pc.inHand (pc : Pc) (task : Task) : Prop :=
  match pc with
  | .inserting _ task' | .cancelling task' => task' = task
  | _ => False

/-- The task is the entry of its id. -/
def Stored (s : Supervisor) (task : Task) : Prop :=
  ∃ config, s.started[task]? = some config ∧ s.epg.lookup config.id = some task

def Locked (s : Supervisor) (_ : Unit) : Prop := s.locked = true

/-- The map has no entry where a call that holds the lock is going to insert one, of the id it has. -/
def Pc.Ready (s : Supervisor) : Pc → Prop
  | .configuring id => id ∉ s.epg
  | .spawning id config => id ∉ s.epg ∧ config.id = id
  | .inserting id task => id ∉ s.epg ∧ ∃ config, s.started[task]? = some config ∧ config.id = id
  | _ => True

structure Owned (c : State) : Prop where
  lock : Exclusive Locked Pc.holds c
  ready : Every Pc.Ready c
  kept : ∀ task < c.shared.started.length, c.shared.status task = .running → Kept Stored Pc.inHand c task

variable {c c' : State} {a : Action} {s s' : Supervisor} {t : ℕ} {pc pc' : Pc} {task : Task} {ok : Bool}

theorem owned_new : Owned new where
  lock := ⟨fun _ => ⟨fun h => (by cases h), fun ⟨_, _, h, _⟩ => by cases h⟩, fun _ _ _ _ _ h => by cases h⟩
  ready _ hpc := absurd hpc List.not_mem_nil
  kept task htask := absurd htask (Nat.not_lt_zero task)

/-- A call that is ready stays so while another one takes a step: none but a holder of the lock adds an
entry. -/
theorem Pc.Ready.mono (h : pc.Ready s)
    (hstarted : ∀ (task : Task) (config : EpgConfig), s.started[task]? = some config →
      s'.started[task]? = some config)
    (hepg : pc.holds = some () → ∀ id, id ∈ s'.epg → id ∈ s.epg) : pc.Ready s' := by
  cases pc with
  | configuring id => exact fun hid => h (hepg rfl id hid)
  | spawning id config => exact ⟨fun hid => h.1 (hepg rfl id hid), h.2⟩
  | inserting id task =>
    obtain ⟨hid, config, hconfig, he⟩ := h
    exact ⟨fun hid' => hid (hepg rfl id hid'), config, hstarted _ _ hconfig, he⟩
  | _ => trivial

theorem Pc.ready_of_holds (h : pc.holds = none) : pc.Ready s := by
  cases pc <;> trivial

/-- New calls hold nothing yet. -/
theorem Owned.request (hc : Owned c) {ps : List Pc} (hps : ∀ pc ∈ ps, pc.holds = none) : Owned (c.request ps) where
  lock := hc.lock.request hps
  ready := hc.ready.request fun pc hpc => Pc.ready_of_holds (hps pc hpc)
  kept task htask hrun := (hc.kept task htask hrun).request ps

theorem mem_of_mem_erase {m : AList fun _ : ℕ => Task} {id id' : ℕ} (h : id ∈ m.erase id') : id ∈ m :=
  (AList.mem_erase.1 h).2

/-- **What a step does to the lock.** -/
theorem stepCall_locks (hc : Owned c) (hpc : c.calls[t]? = some pc)
    (hs : stepCall c.shared t pc ok = some (s, pc')) : Locks Locked Pc.holds c.shared pc s pc' := by
  have hheld : pc.holds = some () → c.shared.locked = true := fun h =>
    (hc.lock.taken_iff ()).2 ⟨t, pc, hpc, h⟩
  have hdrop : ∀ {epg : AList fun _ : ℕ => Task} (j : Unit),
      Locked { c.shared with epg, locked := false } j ↔ j ≠ () ∧ Locked c.shared j := fun j =>
    ⟨fun h => (by cases h), fun h => absurd rfl h.1⟩
  cases pc with
  | locking id =>
    simp only [stepCall] at hs
    split_ifs at hs with hlock hid <;> cases hs
    · exact .keeps rfl fun _ => .rfl
    · exact .takes () rfl rfl hlock fun j => ⟨fun _ => .inl rfl, fun _ => rfl⟩
  | configuring id =>
    simp only [stepCall] at hs
    split at hs
    · cases hs; exact .drops () rfl rfl hdrop
    · split at hs <;> cases hs
      · exact .drops () rfl rfl hdrop
      · exact .keeps rfl fun _ => .rfl
  | spawning id config => cases hs; exact .keeps rfl fun _ => .rfl
  | inserting id task => cases hs; exact .drops () rfl rfl hdrop
  | removing id =>
    simp only [stepCall] at hs
    split_ifs at hs
    split at hs <;> cases hs <;> exact .keeps rfl fun _ => .rfl
  | cancelling task => cases hs; exact .keeps rfl fun _ => .rfl
  | waiting task => cases hs; exact .keeps rfl fun _ => .rfl
  | done result => cases hs

/-- **What a step does to the calls that hold the lock.** -/
theorem stepCall_ready (hc : Owned c) (hpc : c.calls[t]? = some pc)
    (hs : stepCall c.shared t pc ok = some (s, pc')) :
    Every Pc.Ready { shared := s, calls := c.calls.set t pc' } := by
  have hown : pc.Ready c.shared := hc.ready pc (List.mem_of_getElem? hpc)
  have hsame {s : Supervisor} (hready : pc'.Ready s) (hstarted : s.started = c.shared.started)
      (hepg : ∀ id, id ∈ s.epg → id ∈ c.shared.epg) :
      Every Pc.Ready { shared := s, calls := c.calls.set t pc' } :=
    hc.ready.run hpc hready fun _ q _ _ hq => hq.mono (fun _ _ h => hstarted ▸ h) fun _ => hepg
  cases pc with
  | locking id =>
    simp only [stepCall] at hs
    split_ifs at hs with hlock hid <;> cases hs
    · exact hsame trivial rfl fun _ h => h
    · exact hsame hid rfl fun _ h => h
  | configuring id =>
    simp only [stepCall] at hs
    split at hs
    · cases hs; exact hsame trivial rfl fun _ h => h
    · split at hs <;> rename_i hfind <;> cases hs
      · exact hsame trivial rfl fun _ h => h
      · exact hsame ⟨hown, by simpa using List.find?_some hfind⟩ rfl fun _ h => h
  | spawning id config =>
    cases hs
    refine hc.ready.run hpc ⟨hown.1, config, List.getElem?_concat_length, hown.2⟩ fun _ q _ _ hq => ?_
    exact hq.mono (fun task d hd => (List.getElem?_append_left (List.getElem?_eq_some_iff.1 hd).1).trans hd)
      fun _ _ h => h
  | inserting id task =>
    cases hs
    refine hc.ready.run hpc trivial fun u q hut hu hq => hq.mono (fun _ _ h => h) fun hholds => ?_
    -- no other call holds the lock
    exact absurd (hc.lock.unique u t q _ () hu hpc hholds rfl) hut
  | removing id =>
    simp only [stepCall] at hs
    split_ifs at hs
    split at hs <;> cases hs
    · exact hsame trivial rfl fun _ => mem_of_mem_erase
    · exact hsame trivial rfl fun _ h => h
  | cancelling task => cases hs; exact hsame trivial rfl fun _ h => h
  | waiting task => cases hs; exact hsame trivial rfl fun _ h => h
  | done result => cases hs

/-- **What a step does to the running tasks.** -/
theorem stepCall_kept (hc : Owned c) (hpc : c.calls[t]? = some pc)
    (hs : stepCall c.shared t pc ok = some (s, pc')) (htask : task < s.started.length)
    (hrun : s.status task = .running) :
    Kept Stored Pc.inHand { shared := s, calls := c.calls.set t pc' } task := by
  have hown : pc.Ready c.shared := hc.ready pc (List.mem_of_getElem? hpc)
  cases pc with
  | locking id =>
    simp only [stepCall] at hs
    split_ifs at hs <;> cases hs <;> exact (hc.kept task htask hrun).run hpc .inl False.elim
  | configuring id =>
    simp only [stepCall] at hs
    split at hs
    · cases hs; exact (hc.kept task htask hrun).run hpc .inl False.elim
    · split at hs <;> cases hs <;> exact (hc.kept task htask hrun).run hpc .inl False.elim
  | spawning id config =>
    cases hs
    rcases Nat.lt_succ_iff_lt_or_eq.1 (List.length_append.symm ▸ htask) with hlt | rfl
    · simp only [Function.update_of_ne (Nat.ne_of_lt hlt)] at hrun
      refine (hc.kept task hlt hrun).run hpc (fun ⟨d, hd, hlook⟩ => .inl ⟨d, ?_, hlook⟩) False.elim
      exact (List.getElem?_append_left hlt).trans hd
    · exact .inr ⟨_, mem_set_self hpc, rfl⟩
  | inserting id new =>
    cases hs
    obtain ⟨hid, config, hconfig, hcid⟩ := hown
    refine (hc.kept task htask hrun).run hpc (fun ⟨d, hd, hlook⟩ => .inl ⟨d, hd, ?_⟩) fun h => .inl ?_
    · refine (AList.lookup_insert_ne ?_).trans hlook
      rintro rfl
      exact hid (Table.mem_iff.2 ⟨_, hlook⟩)
    · cases h
      refine ⟨config, hconfig, ?_⟩
      rw [hcid]
      exact AList.lookup_insert _
  | removing id =>
    simp only [stepCall] at hs
    split_ifs at hs
    split at hs <;> rename_i hlook <;> cases hs
    · refine (hc.kept task htask hrun).run hpc (fun ⟨d, hd, h⟩ => ?_) False.elim
      by_cases hid : d.id = id
      · rw [hid] at h
        exact .inr (Option.some.inj (hlook.symm.trans h))
      · exact .inl ⟨d, hd, (AList.lookup_erase_ne hid).trans h⟩
    · exact (hc.kept task htask hrun).run hpc .inl False.elim
  | cancelling other =>
    cases hs
    have hne : task ≠ other := by
      rintro rfl
      simp at hrun
    simp only [Function.update_of_ne hne] at hrun
    exact (hc.kept task htask hrun).run hpc .inl fun h => absurd h.symm hne
  | waiting other => cases hs; exact (hc.kept task htask hrun).run hpc .inl False.elim
  | done result => cases hs

/-- A pass of `monitor` takes out finished tasks only. -/
theorem lookup_retain {id : ℕ} : (retainTasks s).lookup id = some task ↔
    s.epg.lookup id = some task ∧ s.isFinished task = false :=
  Table.lookup_filter.trans (and_congr_right fun _ => by rw [Bool.not_eq_true'])

theorem monitor_owned (hc : Owned c) (hs : monitor c = some c') : Owned c' := by
  simp only [monitor] at hs
  split_ifs at hs with hlock
  cases hs
  have hmem : ∀ id, id ∈ retainTasks c.shared → id ∈ c.shared.epg := by
    intro id hid
    obtain ⟨task, htask⟩ := Table.mem_iff.1 hid
    exact Table.mem_iff.2 ⟨task, (lookup_retain.1 htask).1⟩
  have hretained : Owned { c with shared := { c.shared with epg := retainTasks c.shared } } := by
    refine ⟨hc.lock.shared fun _ => .rfl, hc.ready.shared fun pc h => h.mono (fun _ _ h => h) fun _ => hmem,
      fun task htask hrun => (hc.kept task htask hrun).shared ?_⟩
    rintro ⟨d, hd, hlook⟩
    have hrun : c.shared.status task = .running := hrun
    exact ⟨d, hd, lookup_retain.2 ⟨hlook, by simp [Supervisor.isFinished, hrun]⟩⟩
  refine hretained.request fun pc hpc => ?_
  obtain ⟨id, -, rfl⟩ := List.mem_map.1 hpc
  rfl

/-- **Every step keeps the invariant.** -/
theorem Owned.next (hc : Owned c) (hs : next c a = some c') : Owned c' := by
  cases a with
  | epgStart id =>
    cases hs
    exact hc.request fun pc hpc => by rw [List.mem_singleton.1 hpc]; rfl
  | epgStop id =>
    cases hs
    exact hc.request fun pc hpc => by rw [List.mem_singleton.1 hpc]; rfl
  | run t ok =>
    obtain ⟨pc, s, pc', hpc, hstep, rfl⟩ := Cfg.run_eq_some.1 hs
    exact ⟨hc.lock.run hpc (stepCall_locks hc hpc hstep), stepCall_ready hc hpc hstep,
      fun task ht hr => stepCall_kept hc hpc hstep ht hr⟩
  | finishes other =>
    simp only [MyMuxer.EpgTasks.next] at hs
    split_ifs at hs
    cases hs
    refine ⟨hc.lock.shared fun _ => .rfl, hc.ready.shared fun pc h => h.mono (fun _ _ h => h) fun _ _ h => h,
      fun task ht hr => Kept.shared (hc.kept task ht ?_) id⟩
    have hne : task ≠ other := by
      rintro rfl
      simp at hr
    simpa only [Function.update_of_ne hne] using hr
  | monitor => exact monitor_owned hc hs
  | load epgConfigs =>
    cases hs
    exact ⟨hc.lock.shared fun _ => .rfl, hc.ready.shared fun pc h => h.mono (fun _ _ h => h) fun _ _ h => h,
      fun task ht hr => (hc.kept task ht hr).shared id⟩

/-! ## Runs -/

/-- The next step of call `t` cancels the task. -/
def CancelsNext (c : State) (t : ℕ) (task : Task) : Prop :=
  ∀ ok, ∃ c', next c (.run t ok) = some c' ∧ c'.shared.status task = .cancelled

theorem cancelsNext_of_cancelling (h : c.calls[t]? = some (.cancelling task)) : CancelsNext c t task :=
  fun _ => ⟨_, Cfg.run_eq_some.2 ⟨_, _, _, h, rfl, rfl⟩, Function.update_self ..⟩

/-- A step takes an entry out of the map only with its task finished, or for `epg_stop` to cancel it; and
it puts nothing in its place. -/
theorem next_lookup (hc : Owned c) (hs : next c a = some c') {id : ℕ} (hlook : c.shared.epg.lookup id = some task)
    (hrun : c.shared.status task = .running) : c'.shared.epg.lookup id = some task ∨
      ∃ t ok, a = .run t ok ∧ c.calls[t]? = some (.removing id) ∧ c'.calls[t]? = some (.cancelling task) := by
  cases a with
  | epgStart id => cases hs; exact .inl hlook
  | epgStop id => cases hs; exact .inl hlook
  | run t ok =>
    obtain ⟨pc, s, pc', hpc, hstep, rfl⟩ := Cfg.run_eq_some.1 hs
    have hown : pc.Ready c.shared := hc.ready pc (List.mem_of_getElem? hpc)
    cases pc with
    | locking id =>
      simp only [stepCall] at hstep
      split_ifs at hstep <;> cases hstep <;> exact .inl hlook
    | configuring id =>
      simp only [stepCall] at hstep
      split at hstep
      · cases hstep; exact .inl hlook
      · split at hstep <;> cases hstep <;> exact .inl hlook
    | spawning id config => cases hstep; exact .inl hlook
    | inserting id' new =>
      cases hstep
      refine .inl ((AList.lookup_insert_ne ?_).trans hlook)
      rintro rfl
      exact hown.1 (Table.mem_iff.2 ⟨_, hlook⟩)
    | removing id' =>
      simp only [stepCall] at hstep
      split_ifs at hstep
      split at hstep <;> rename_i hlook' <;> cases hstep
      · by_cases hid : id = id'
        · subst hid
          cases hlook.symm.trans hlook'
          exact .inr ⟨t, ok, rfl, hpc, List.getElem?_set_self (List.getElem?_eq_some_iff.1 hpc).1⟩
        · exact .inl ((AList.lookup_erase_ne hid).trans hlook)
      · exact .inl hlook
    | cancelling other => cases hstep; exact .inl hlook
    | waiting other => cases hstep; exact .inl hlook
    | done result => cases hstep
  | finishes other =>
    simp only [MyMuxer.EpgTasks.next] at hs
    split_ifs at hs
    cases hs
    exact .inl hlook
  | monitor =>
    simp only [MyMuxer.EpgTasks.next, monitor] at hs
    split_ifs at hs
    cases hs
    exact .inl (lookup_retain.2 ⟨hlook, by simp [Supervisor.isFinished, hrun]⟩)
  | load epgConfigs => cases hs; exact .inl hlook

/-- **No running task is overwritten, dropped or out of reach.** After any run, with the lock free: a
running task is the entry of its id, or a call of `epg_stop` has just taken it out and cancels it with its
next step; and a step leaves the entry of a running task as it is, unless `epg_stop` takes it out so. -/
theorem epg_tasks_kept {as : List Action} (hrun : run next new as = some c) :
    (c.shared.locked = false → ∀ (task : Task) (config : EpgConfig), c.shared.started[task]? = some config →
      c.shared.status task = .running → c.shared.epg.lookup config.id = some task ∨
        ∃ t, c.calls[t]? = some (.cancelling task) ∧ CancelsNext c t task) ∧
    ∀ a c', next c a = some c' → ∀ id task, c.shared.epg.lookup id = some task →
      c.shared.status task = .running → c'.shared.epg.lookup id = some task ∨
        ∃ t ok, a = .run t ok ∧ c.calls[t]? = some (.removing id) ∧ c'.calls[t]? = some (.cancelling task) := by
  have hc : Owned c := run_invariant Owned.next owned_new hrun
  refine ⟨fun hfree task config hconfig hstatus => ?_, fun a c' hs id task hl hr => next_lookup hc hs hl hr⟩
  rcases hc.kept task (List.getElem?_eq_some_iff.1 hconfig).1 hstatus with ⟨d, hd, hlook⟩ | ⟨pc, hpc, hhand⟩
  · cases hconfig.symm.trans hd
    exact .inl hlook
  · obtain ⟨t, ht⟩ := List.mem_iff_getElem?.1 hpc
    cases pc with
    | inserting id task' =>
      have hlocked : c.shared.locked = true := (hc.lock.taken_iff ()).2 ⟨t, _, ht, rfl⟩
      rw [hfree] at hlocked
      cases hlocked
    | cancelling task' =>
      obtain rfl : task' = task := hhand
      exact .inr ⟨t, ht, cancelsNext_of_cancelling ht⟩
    | _ => cases hhand

/-- EPG 3 is started; its task ends, and a pass of `monitor` starts it again while a user does. -/
def restartedTwice : List Action :=
  [Action.load [{ id := 3, url := "udp://239.0.0.1:1234" }], .epgStart 3] ++ List.replicate 4 (Action.run 0 true) ++
    [Action.finishes 0, .monitor, .epgStart 3] ++ List.replicate 4 (Action.run 2 true) ++ [Action.run 1 true]

theorem epg_tasks_kept_sample : ∃ c, run next new restartedTwice = some c ∧
    c.shared.started.length = 2 ∧ c.shared.epg.lookup 3 = some 1 := by
  have hcheck : (run next new restartedTwice).map (fun c => ((c.shared.started.map EpgConfig.id, c.shared.locked),
      c.shared.status 1, c.calls)) = some (([3, 3], false), .running,
        [.done (.ok ()), .done (.error (.alreadyRunning 3)), .done (.ok ())]) := rfl
  obtain ⟨c, hc, hcheck⟩ := Option.map_eq_some_iff.1 hcheck
  obtain ⟨hfirst, hrest⟩ := Prod.mk.inj hcheck
  obtain ⟨hids, hfree⟩ := Prod.mk.inj hfirst
  obtain ⟨hstatus, hcalls⟩ := Prod.mk.inj hrest
  have hlen : c.shared.started.length = 2 := by simpa using congrArg List.length hids
  obtain ⟨config, hconfig⟩ : ∃ config, c.shared.started[1]? = some config :=
    ⟨_, List.getElem?_eq_getElem (by omega)⟩
  have hid : config.id = 3 := by
    have h := congrArg (fun l : List ℕ => l[1]?) hids
    simpa [hconfig] using h
  refine ⟨c, hc, hlen, ?_⟩
  rcases (epg_tasks_kept hc).1 hfree 1 config hconfig hstatus with hlook | ⟨t, ht, -⟩
  · rwa [hid] at hlook
  · rw [hcalls] at ht
    have hmem := List.mem_of_getElem? ht
    simp at hmem

end MyMuxer.EpgTasks
