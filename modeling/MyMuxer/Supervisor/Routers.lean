import MyMuxer.Lib.Calls
import MyMuxer.Lib.RwLock
import MyMuxer.Lib.Schedule
import Mathlib.Data.List.AList
import Mathlib.Tactic

/-!
# HTTP routers of the supervisor (`supervisor.rs`, `http_router.rs`, `database.rs`)

The requests `http_router_start`, `http_router_stop`, `http_router_add_alias` and
`http_router_rm_alias`, interleaved at their lock and await points, and the router tasks that take
commands from their channels.

* `Storage`, `HttpRouter`, `Supervisor`: the database, a router task, and what the requests share.
* `Pc`, `stepCall`, `next`: where a request is, its next step, and all that may happen.
* `Guarded`: the invariant: a request holds the guards that its place in the code says.
* **`no_deadlock_iff`**: a run meets no deadlock exactly if no `add_alias` asks for the lock a second time
  while a writer waits for it; `no_deadlock_otherwise`.
-/

namespace MyMuxer.Routers

open Calls Schedule RwLock

/-! ## The database and the routers -/

/-- The table of aliases: the socket for the id of a router and an alias. -/
abbrev Storage : Type := AList fun _ : ℕ × String => String

def Storage.setAlias (database : Storage) (id : ℕ) (name socket : String) : Storage :=
  database.insert (id, name) socket

def Storage.getAlias (database : Storage) (id : ℕ) (name : String) : Option String :=
  database.lookup (id, name)

def Storage.removeAlias (database : Storage) (id : ℕ) (name : String) : Storage := database.erase (id, name)

/-- The alias at which the range of `aliases` ends: U+10FFFF. -/
def lastAlias : String := String.singleton (Char.ofNat 0x10FFFF)

def Storage.aliases (database : Storage) (id : ℕ) : List (String × String) :=
  (database.entries.filter fun e => e.1.1 = id ∧ e.1.2 ≤ lastAlias).map fun e => (e.1.2, e.2)

inductive HttpRouterCmd where
  | addAlias (name socket : String)
  | removeAlias (name : String)
  deriving DecidableEq

/-- A router task; `aliases` is its alias map, `rx` what is in its channel. -/
structure HttpRouter where
  id : ℕ
  aliases : AList fun _ : String => String
  rx : List HttpRouterCmd
  /-- The aliases of the database are added. -/
  loaded : Bool
  /-- `run` has not returned. -/
  running : Bool

def HttpRouter.new (id : ℕ) : HttpRouter where
  id
  aliases := ∅
  rx := []
  loaded := false
  running := true

def HttpRouter.removeAlias (router : HttpRouter) (name : String) : HttpRouter :=
  { router with aliases := router.aliases.erase name }

def HttpRouter.addAlias (router : HttpRouter) (name socket : String) : HttpRouter :=
  { router with aliases := (router.removeAlias name).aliases.insert name socket }

/-- The beginning of `run`. -/
def HttpRouter.load (router : HttpRouter) (aliases : List (String × String)) : HttpRouter :=
  { aliases.foldl (fun router e => router.addAlias e.1 e.2) router with loaded := true }

def HttpRouter.handle (router : HttpRouter) : HttpRouterCmd → HttpRouter
  | .addAlias name socket => router.addAlias name socket
  | .removeAlias name => router.removeAlias name

/-- The number of commands that a channel takes. -/
def capacity : ℕ := 1

/-! ## The requests -/

inductive RouterError where
  /-- `Http router with id {} not found`. -/
  | notFound (id : ℕ)
  /-- `Http router {} not running`. -/
  | notRunning (id : ℕ)
  /-- `Config not loaded`. -/
  | configNotLoaded
  /-- An operation of the database has failed. -/
  | database
  /-- The router has dropped its end of the channel. -/
  | send
  /-- The task has panicked. -/
  | joinFailed
  deriving DecidableEq

/-- Where a request is. -/
inductive Pc where
  /-- `http_router_add_alias`, before the first `self.http_router.read()`. -/
  | adding (id : ℕ) (name socket : String)
  /-- Before `contains_key`, once the guard is there. -/
  | checking (id : ℕ) (name socket : String)
  /-- Before `get_alias`. -/
  | comparing (id : ℕ) (name socket : String)
  /-- Before `set_alias`. -/
  | storing (id : ℕ) (name socket : String)
  /-- `http_router_rm_alias`, before `remove_alias`. -/
  | removing (id : ℕ) (name : String)
  /-- Before the `self.http_router.read()` for the channel; `outer`: the first guard is alive. -/
  | asking (outer : Bool) (id : ℕ) (cmd : HttpRouterCmd)
  /-- Before `get(&id)`, once the guard is there. -/
  | finding (outer : Bool) (id : ℕ) (cmd : HttpRouterCmd)
  /-- In `tx.send(..)`, with the guard alive. -/
  | sending (outer : Bool) (id : ℕ) (task : ℕ) (cmd : HttpRouterCmd)
  /-- `http_router_start`, before `self.config.read()`. -/
  | starting
  /-- Before the `self.http_router.write()` for the next id. -/
  | starts (ids : List ℕ)
  /-- Before `contains_key`, once the guard is there. -/
  | inserting (id : ℕ) (ids : List ℕ)
  /-- `http_router_stop`, before `self.http_router.read()`. -/
  | stopping
  /-- Before the ids are collected, once the guard is there. -/
  | collecting
  /-- Before the `self.http_router.write()` for the next id. -/
  | stops (ids : List ℕ)
  /-- Before `remove(&id)`, once the guard is there. -/
  | taking (id : ℕ) (ids : List ℕ)
  /-- Before `cancel.cancel()` and `wait_and_abort(..)`. -/
  | cancelling (task : ℕ) (ids : List ℕ)
  | done (result : Except RouterError Unit)
  deriving DecidableEq

/-- `http_router` is the map with its lock; `config` the ids of the configured routers, if a
configuration is loaded. `written` is not part of the program: the commands that requests have written
to the database and neither sent nor given up, in the order of the writes. -/
structure Supervisor where
  config : Option (List ℕ)
  lock : Lock ℕ
  httpRouter : AList fun _ : ℕ => ℕ
  routers : List HttpRouter
  database : Storage
  written : List (ℕ × ℕ × HttpRouterCmd)

/-- What the outside decides in a step: whether the operation that is awaited succeeds, and the order in
which the map is iterated. -/
structure Input where
  ok : Bool
  ids : List ℕ

/-- The guards of `http_router_add_alias` and `http_router_rm_alias` at their end. -/
def unlock (lock : Lock ℕ) (t : ℕ) (outer : Bool) : Lock ℕ :=
  if outer then (lock.release t .read).release t .read else lock.release t .read

def forget (written : List (ℕ × ℕ × HttpRouterCmd)) (t : ℕ) : List (ℕ × ℕ × HttpRouterCmd) :=
  written.filter fun w => w.1 ≠ t

/-- One step of a request. -/
def stepCall (s : Supervisor) (t : ℕ) (pc : Pc) (i : Input) : Option (Supervisor × Pc) :=
  match pc with
  | .adding id name socket => some ({ s with lock := s.lock.request t .read }, .checking id name socket)
  | .checking id name socket =>
    if s.lock.Waits t then none
    else if id ∈ s.httpRouter then some (s, .comparing id name socket)
    else some ({ s with lock := s.lock.release t .read }, .done (.error (.notFound id)))
  | .comparing id name socket =>
    if i.ok ∧ s.database.getAlias id name = some socket then
      some ({ s with lock := s.lock.release t .read }, .done (.ok ()))
    else some (s, .storing id name socket)
  | .storing id name socket =>
    if i.ok then
      some ({ s with
        database := s.database.setAlias id name socket
        written := s.written ++ [(t, id, .addAlias name socket)] }, .asking true id (.addAlias name socket))
    else some ({ s with lock := s.lock.release t .read }, .done (.error .database))
  | .removing id name =>
    if i.ok then
      some ({ s with
        database := s.database.removeAlias id name
        written := s.written ++ [(t, id, .removeAlias name)] }, .asking false id (.removeAlias name))
    else some (s, .done (.error .database))
  | .asking outer id cmd => some ({ s with lock := s.lock.request t .read }, .finding outer id cmd)
  | .finding outer id cmd =>
    if s.lock.Waits t then none
    else
      match s.httpRouter.lookup id with
      | some task => some (s, .sending outer id task cmd)
      | none => some ({ s with lock := unlock s.lock t outer, written := forget s.written t }, .done (.ok ()))
  | .sending outer _ task cmd =>
    match s.routers[task]? with
    | none => none
    | some router =>
      if router.running then
        -- which of several senders gets the free place is left open
        if router.rx.length < capacity then
          some ({ s with
            lock := unlock s.lock t outer
            routers := s.routers.set task { router with rx := router.rx ++ [cmd] }
            written := forget s.written t }, .done (.ok ()))
        else none
      else some ({ s with lock := unlock s.lock t outer, written := forget s.written t }, .done (.error .send))
  | .starting =>
    match s.config with
    | none => some (s, .done (.error .configNotLoaded))
    | some ids => some (s, .starts ids)
  | .starts [] => some (s, .done (.ok ()))
  | .starts (id :: ids) => some ({ s with lock := s.lock.request t .write }, .inserting id ids)
  | .inserting id ids =>
    if s.lock.Waits t then none
    else if id ∈ s.httpRouter then some ({ s with lock := s.lock.release t .write }, .starts ids)
    else
      some ({ s with
        lock := s.lock.release t .write
        httpRouter := s.httpRouter.insert id s.routers.length
        routers := s.routers ++ [.new id] }, .starts ids)
  | .stopping => some ({ s with lock := s.lock.request t .read }, .collecting)
  | .collecting =>
    if s.lock.Waits t then none
    else if i.ids.Perm s.httpRouter.keys then some ({ s with lock := s.lock.release t .read }, .stops i.ids)
    else none
  | .stops [] => some (s, .done (.ok ()))
  | .stops (id :: ids) => some ({ s with lock := s.lock.request t .write }, .taking id ids)
  | .taking id ids =>
    if s.lock.Waits t then none
    else
      match s.httpRouter.lookup id with
      | some task =>
        some ({ s with lock := s.lock.release t .write, httpRouter := s.httpRouter.erase id },
          .cancelling task ids)
      | none => some ({ s with lock := s.lock.release t .write }, .done (.error (.notRunning id)))
  | .cancelling task ids =>
    -- the task has ended or is aborted
    some ({ s with routers := s.routers.modify task fun router => { router with running := false } },
      if i.ok then .stops ids else .done (.error .joinFailed))
  | .done _ => none

inductive Action where
  | addAlias (id : ℕ) (name socket : String)
  | rmAlias (id : ℕ) (name : String)
  | start
  | stop
  /-- Request number `t` takes its next step. -/
  | run (t : ℕ) (i : Input)
  /-- A router task adds the aliases of the database. -/
  | load (task : ℕ)
  /-- A router task takes the next command from its channel. -/
  | recv (task : ℕ)
  /-- The `run` of a router task returns. -/
  | ends (task : ℕ)

abbrev State : Type := Cfg Supervisor Pc

/-- A step of a router task that runs. -/
def Supervisor.turn (s : Supervisor) (task : ℕ) (turn : HttpRouter → Option HttpRouter) : Option Supervisor :=
  (s.routers[task]?.filter HttpRouter.running).bind fun router =>
    (turn router).map fun router => { s with routers := s.routers.set task router }

def loadTurn (database : Storage) (router : HttpRouter) : Option HttpRouter :=
  if router.loaded then none else some (router.load (database.aliases router.id))

def recvTurn (router : HttpRouter) : Option HttpRouter :=
  if router.loaded then
    match router.rx with
    | [] => none
    | cmd :: rx => some ({ router with rx }.handle cmd)
  else none

def next (c : State) : Action → Option State
  | .addAlias id name socket => some (c.request [.adding id name socket])
  | .rmAlias id name => some (c.request [.removing id name])
  | .start => some (c.request [.starting])
  | .stop => some (c.request [.stopping])
  | .run t i => c.run stepCall t i
  | .load task => (c.shared.turn task (loadTurn c.shared.database)).map fun shared => { c with shared }
  | .recv task => (c.shared.turn task recvTurn).map fun shared => { c with shared }
  | .ends task =>
    (c.shared.turn task fun router => some { router with running := false }).map fun shared => { c with shared }

/-- No router runs yet. -/
def new (config : Option (List ℕ)) (database : Storage) : State where
  shared := { config, lock := .free, httpRouter := ∅, routers := [], database, written := [] }
  calls := []

/-! ## The guards of a request -/

variable {c c' : State} {a : Action} {s s' : Supervisor} {t : ℕ} {pc pc' : Pc} {i : Input} {l l' : Lock ℕ}

/-- The guards that a request holds or waits for. -/
def Pc.guards : Pc → Mode → ℕ
  | .checking .., .read | .comparing .., .read | .storing .., .read | .collecting, .read => 1
  | .asking outer .., .read => outer.toNat
  | .finding outer .., .read | .sending outer .., .read => outer.toNat + 1
  | .inserting .., .write | .taking .., .write => 1
  | _, _ => 0

/-- The request waits for the guard that it has asked for last. -/
def Pc.awaits : Pc → Bool
  | .checking .. | .finding .. | .inserting .. | .collecting | .taking .. => true
  | _ => false

/-- The request has done nothing yet. -/
def Pc.isNew : Pc → Bool
  | .adding .. | .removing .. | .starting | .stopping => true
  | _ => false

theorem guards_of_isNew (h : pc.isNew = true) (m : Mode) : pc.guards m = 0 := by
  cases pc with
  | adding | removing | starting | stopping => cases m <;> rfl
  | _ => cases h

/-- What a step does to the lock. -/
inductive LockStep (l : Lock ℕ) (t : ℕ) (pc : Pc) (l' : Lock ℕ) (pc' : Pc) : Prop where
  | keeps : l' = l → pc'.guards = pc.guards → pc'.awaits = false → LockStep l t pc l' pc'
  | asks (m : Mode) : l' = l.request t m → pc'.awaits = true →
      (∀ k, pc'.guards k = pc.guards k + Lock.one t m t k) → LockStep l t pc l' pc'
  | drops (m : Mode) : l' = l.release t m → pc'.awaits = false →
      (∀ k, pc'.guards k + Lock.one t m t k = pc.guards k) → LockStep l t pc l' pc'
  | dropsBoth : l' = (l.release t .read).release t .read → pc'.awaits = false →
      (∀ k, pc'.guards k + Lock.one t .read t k + Lock.one t .read t k = pc.guards k) → LockStep l t pc l' pc'

theorem lockStep_unlock {outer : Bool} (haw : pc'.awaits = false)
    (hguards : ∀ k, pc'.guards k = 0) (hpc : pc.guards .read = outer.toNat + 1) (hw : pc.guards .write = 0) :
    LockStep l t pc (unlock l t outer) pc' := by
  cases outer with
  | true => exact .dropsBoth rfl haw fun k => by cases k <;> simp [hguards, hpc, hw, Lock.one]
  | false => exact .drops .read rfl haw fun k => by cases k <;> simp [hguards, hpc, hw, Lock.one]

/-- A step is one of these; a request that waits takes none. -/
theorem lockStep_of_step (h : stepCall s t pc i = some (s', pc')) : LockStep s.lock t pc s'.lock pc' := by
  have hone : ∀ {m k : Mode}, Lock.one t m t k = if m = k then 1 else 0 := fun {m k} => by simp [Lock.one]
  cases pc with
  | adding id name socket =>
    cases h
    exact .asks .read rfl rfl fun k => by cases k <;> simp [Pc.guards, hone]
  | checking id name socket =>
    simp only [stepCall] at h
    split_ifs at h <;> cases h
    · exact .keeps rfl (funext fun k => by cases k <;> rfl) rfl
    · exact .drops .read rfl rfl fun k => by cases k <;> simp [Pc.guards, hone]
  | comparing id name socket =>
    simp only [stepCall] at h
    split_ifs at h <;> cases h
    · exact .drops .read rfl rfl fun k => by cases k <;> simp [Pc.guards, hone]
    · exact .keeps rfl (funext fun k => by cases k <;> rfl) rfl
  | storing id name socket =>
    simp only [stepCall] at h
    split_ifs at h <;> cases h
    · exact .keeps rfl (funext fun k => by cases k <;> rfl) rfl
    · exact .drops .read rfl rfl fun k => by cases k <;> simp [Pc.guards, hone]
  | removing id name =>
    simp only [stepCall] at h
    split_ifs at h <;> cases h
    · exact .keeps rfl (funext fun k => by cases k <;> rfl) rfl
    · exact .keeps rfl rfl rfl
  | asking outer id cmd =>
    cases h
    exact .asks .read rfl rfl fun k => by cases k <;> simp [Pc.guards, hone]
  | finding outer id cmd =>
    simp only [stepCall] at h
    split_ifs at h
    split at h <;> cases h
    · exact .keeps rfl (funext fun k => by cases k <;> rfl) rfl
    · exact lockStep_unlock rfl (fun _ => rfl) rfl rfl
  | sending outer id task cmd =>
    simp only [stepCall] at h
    split at h
    · cases h
    · split_ifs at h <;> cases h <;> exact lockStep_unlock rfl (fun _ => rfl) rfl rfl
  | starting =>
    simp only [stepCall] at h
    split at h
    · cases h
      exact .keeps rfl rfl rfl
    · cases h
      exact .keeps rfl rfl rfl
  | starts ids =>
    cases ids <;> cases h
    · exact .keeps rfl rfl rfl
    · exact .asks .write rfl rfl fun k => by cases k <;> simp [Pc.guards, hone]
  | inserting id ids =>
    simp only [stepCall] at h
    split_ifs at h <;> cases h <;>
      exact .drops .write rfl rfl fun k => by cases k <;> simp [Pc.guards, hone]
  | stopping =>
    cases h
    exact .asks .read rfl rfl fun k => by cases k <;> simp [Pc.guards, hone]
  | collecting =>
    simp only [stepCall] at h
    split_ifs at h
    cases h
    exact .drops .read rfl rfl fun k => by cases k <;> simp [Pc.guards, hone]
  | stops ids =>
    cases ids <;> cases h
    · exact .keeps rfl rfl rfl
    · exact .asks .write rfl rfl fun k => by cases k <;> simp [Pc.guards, hone]
  | taking id ids =>
    simp only [stepCall] at h
    split_ifs at h
    split at h <;> cases h <;> exact .drops .write rfl rfl fun k => by cases k <;> simp [Pc.guards, hone]
  | cancelling task ids =>
    cases h
    cases i.ok <;> exact .keeps rfl rfl rfl
  | done result => cases h

theorem not_waits_of_step (h : stepCall s t pc i = some (s', pc')) (hpc : pc.awaits = true) :
    ¬ s.lock.Waits t := by
  intro hwaits
  cases pc <;> first | exact absurd hpc Bool.false_ne_true | simp [stepCall, hwaits] at h

/-! ## The invariant -/

/-- The guards that request number `t` holds or waits for. -/
def guards (c : State) (t : ℕ) (m : Mode) : ℕ := c.calls[t]?.elim 0 fun pc => pc.guards m

structure Guarded (c : State) : Prop where
  sound : c.shared.lock.Sound
  demand : ∀ t m, c.shared.lock.demand t m = guards c t m
  awaits : ∀ {t}, c.shared.lock.Waits t → ∃ pc, c.calls[t]? = some pc ∧ pc.awaits = true

theorem guarded_new (config : Option (List ℕ)) (database : Storage) : Guarded (new config database) where
  sound := Lock.sound_free
  demand t m := by cases m <;> rfl
  awaits h := absurd h List.not_mem_nil

theorem Guarded.not_waits (h : Guarded c) (hpc : c.calls[t]? = some pc)
    (hstep : stepCall c.shared t pc i = some (s', pc')) : ¬ c.shared.lock.Waits t := by
  intro hwaits
  obtain ⟨q, hq, haw⟩ := h.awaits hwaits
  cases hpc.symm.trans hq
  exact not_waits_of_step hstep haw hwaits

/-- A request that takes a step holds all of its guards. -/
theorem Guarded.held (h : Guarded c) (hpc : c.calls[t]? = some pc) (hw : ¬ c.shared.lock.Waits t) (m : Mode) :
    c.shared.lock.held t m = pc.guards m := by
  rw [Lock.held_of_not_waits hw, h.demand, guards, hpc]
  rfl

theorem guards_set (hpc : c.calls[t]? = some pc) (u : ℕ) (m : Mode) :
    guards { shared := s, calls := c.calls.set t pc' } u m = if u = t then pc'.guards m else guards c u m := by
  unfold guards
  split_ifs with hut
  · subst hut
    rw [List.getElem?_set_self (List.getElem?_eq_some_iff.1 hpc).1]
    rfl
  · rw [List.getElem?_set_ne (Ne.symm hut)]

theorem Guarded.of_lock (h : Guarded c) (hpc : c.calls[t]? = some pc) (hsound : s.lock.Sound)
    (hdemand : ∀ m, s.lock.demand t m = pc'.guards m)
    (hothers : ∀ u m, u ≠ t → s.lock.demand u m = c.shared.lock.demand u m)
    (hwaits : ∀ {u}, s.lock.Waits u → u = t ∧ pc'.awaits = true ∨ u ≠ t ∧ c.shared.lock.Waits u) :
    Guarded { shared := s, calls := c.calls.set t pc' } := by
  refine ⟨hsound, fun u m => ?_, fun {u} hu => ?_⟩
  · rw [guards_set hpc]
    split_ifs with hut
    · subst hut
      exact hdemand m
    · exact (hothers u m hut).trans (h.demand u m)
  · rcases hwaits hu with ⟨rfl, haw⟩ | ⟨hut, hu⟩
    · exact ⟨pc', List.getElem?_set_self (List.getElem?_eq_some_iff.1 hpc).1, haw⟩
    · obtain ⟨q, hq, haw⟩ := h.awaits hu
      exact ⟨q, (List.getElem?_set_ne (Ne.symm hut)).trans hq, haw⟩

/-- **Every step of a request keeps the invariant.** -/
theorem Guarded.stepCall (h : Guarded c) (hpc : c.calls[t]? = some pc)
    (hstep : stepCall c.shared t pc i = some (s', pc')) :
    Guarded { shared := s', calls := c.calls.set t pc' } := by
  have hw := h.not_waits hpc hstep
  have hheld := h.held hpc hw
  have hdemand : ∀ m, c.shared.lock.demand t m = pc.guards m := fun m => by rw [h.demand, guards, hpc]; rfl
  have hne : ∀ {u}, c.shared.lock.Waits u → u ≠ t := fun hu hut => hw (hut ▸ hu)
  cases lockStep_of_step hstep with
  | keeps hlock hguards =>
    refine h.of_lock hpc (hlock ▸ h.sound) (fun m => ?_) (fun u m _ => by rw [hlock]) fun hu => ?_
    · rw [hlock, hguards]
      exact hdemand m
    · rw [hlock] at hu
      exact .inr ⟨hne hu, hu⟩
  | asks k hlock haw hguards =>
    refine h.of_lock hpc (hlock ▸ h.sound.request) (fun m => ?_) (fun u m hut => ?_) fun hu => ?_
    · rw [hlock, Lock.demand_request, hdemand, hguards]
    · rw [hlock, Lock.demand_request, Lock.one_of_ne hut, Nat.add_zero]
    · rw [hlock] at hu
      rcases Lock.waits_of_request hu with rfl | hu
      · exact .inl ⟨rfl, haw⟩
      · exact .inr ⟨hne hu, hu⟩
  | drops k hlock haw hguards =>
    have hpos : 0 < c.shared.lock.held t k := by
      rw [hheld, ← hguards k, Lock.one_self]
      exact Nat.succ_pos _
    refine h.of_lock hpc (hlock ▸ h.sound.release) (fun m => ?_) (fun u m hut => ?_) fun hu => ?_
    · have hrel := Lock.demand_release (j := t) (k := m) hpos
      rw [hdemand, ← hguards m] at hrel
      rw [hlock]
      exact Nat.add_right_cancel hrel
    · have hrel := Lock.demand_release (j := u) (k := m) hpos
      rw [hlock, ← hrel, Lock.one_of_ne hut, Nat.add_zero]
    · rw [hlock] at hu
      have hu := Lock.waits_of_release hu
      exact .inr ⟨hne hu, hu⟩
  | dropsBoth hlock haw hguards =>
    have htwo := hguards .read
    rw [Lock.one_self] at htwo
    have hpos : 0 < c.shared.lock.held t .read := by
      rw [hheld]
      omega
    have hw' : ¬ (c.shared.lock.release t .read).Waits t := fun hu => hw (Lock.waits_of_release hu)
    have hpos' : 0 < (c.shared.lock.release t .read).held t .read := by
      have hrel := Lock.demand_release (j := t) (k := .read) hpos
      rw [hdemand, Lock.one_self] at hrel
      rw [Lock.held_of_not_waits hw']
      omega
    refine h.of_lock hpc (hlock ▸ h.sound.release.release) (fun m => ?_) (fun u m hut => ?_) fun hu => ?_
    · have hrel := Lock.demand_release (j := t) (k := m) hpos
      have hrel' := Lock.demand_release (j := t) (k := m) hpos'
      rw [hdemand, ← hguards m] at hrel
      rw [hlock]
      omega
    · have hrel := Lock.demand_release (j := u) (k := m) hpos
      have hrel' := Lock.demand_release (j := u) (k := m) hpos'
      rw [Lock.one_of_ne hut, Nat.add_zero] at hrel hrel'
      rw [hlock, hrel', hrel]
    · rw [hlock] at hu
      have hu := Lock.waits_of_release (Lock.waits_of_release hu)
      exact .inr ⟨hne hu, hu⟩

theorem Guarded.request (h : Guarded c) (hnew : pc.isNew = true) : Guarded (c.request [pc]) := by
  have hpc := guards_of_isNew hnew
  refine ⟨h.sound, fun t m => (h.demand t m).trans ?_, fun {t} ht => ?_⟩
  · unfold guards Cfg.request
    rw [List.getElem?_append]
    split_ifs with hlt
    · rfl
    · rw [List.getElem?_eq_none (Nat.le_of_not_lt hlt)]
      cases hget : ([pc] : List Pc)[t - c.calls.length]? with
      | none => rfl
      | some q =>
        obtain rfl : q = pc := by simpa using List.mem_of_getElem? hget
        exact (hpc m).symm
  · obtain ⟨q, hq, haw⟩ := h.awaits ht
    exact ⟨q, Cfg.getElem?_request hq, haw⟩

theorem Guarded.shared (h : Guarded c) (hlock : s.lock = c.shared.lock) : Guarded { c with shared := s } :=
  ⟨hlock ▸ h.sound, fun t m => (congrArg (Lock.demand · t m) hlock).trans (h.demand t m),
    fun ht => h.awaits (hlock ▸ ht)⟩

/-- The turn of a router touches nothing but the router. -/
theorem turn_eq_some {task : ℕ} {turn : HttpRouter → Option HttpRouter} :
    s.turn task turn = some s' ↔ ∃ router router', s.routers[task]? = some router ∧ router.running = true ∧
      turn router = some router' ∧ s' = { s with routers := s.routers.set task router' } := by
  simp only [Supervisor.turn, Option.bind_eq_some_iff, Option.map_eq_some_iff, Option.filter_eq_some_iff]
  constructor
  · rintro ⟨router, ⟨hr, hrun⟩, router', ht, rfl⟩
    exact ⟨router, router', hr, hrun, ht, rfl⟩
  · rintro ⟨router, router', hr, hrun, ht, rfl⟩
    exact ⟨router, ⟨hr, hrun⟩, router', ht, rfl⟩

/-- What an action does: a new request, a step of a request, or the turn of a router. -/
inductive Moves (c : State) : Action → State → Prop where
  | requests {a : Action} {pc : Pc} : pc.isNew = true → Moves c a (c.request [pc])
  | runs {t : ℕ} {i : Input} {pc pc' : Pc} {s : Supervisor} : c.calls[t]? = some pc →
      Routers.stepCall c.shared t pc i = some (s, pc') →
      Moves c (.run t i) { shared := s, calls := c.calls.set t pc' }
  | turns {a : Action} {task : ℕ} {router router' : HttpRouter} : c.shared.routers[task]? = some router →
      router.running = true →
      (a = .load task ∧ loadTurn c.shared.database router = some router' ∨
        a = .recv task ∧ recvTurn router = some router' ∨
        a = .ends task ∧ router' = { router with running := false }) →
      Moves c a { c with shared := { c.shared with routers := c.shared.routers.set task router' } }

theorem moves_of_next (h : next c a = some c') : Moves c a c' := by
  cases a with
  | addAlias id name socket =>
    cases h
    exact .requests rfl
  | rmAlias id name =>
    cases h
    exact .requests rfl
  | start =>
    cases h
    exact .requests rfl
  | stop =>
    cases h
    exact .requests rfl
  | run t i =>
    obtain ⟨pc, s, pc', hpc, hstep, rfl⟩ := Cfg.run_eq_some.1 h
    exact .runs hpc hstep
  | load task =>
    obtain ⟨s, hs, rfl⟩ := Option.map_eq_some_iff.1 h
    obtain ⟨router, router', hr, hrun, ht, rfl⟩ := turn_eq_some.1 hs
    exact .turns hr hrun (.inl ⟨rfl, ht⟩)
  | recv task =>
    obtain ⟨s, hs, rfl⟩ := Option.map_eq_some_iff.1 h
    obtain ⟨router, router', hr, hrun, ht, rfl⟩ := turn_eq_some.1 hs
    exact .turns hr hrun (.inr (.inl ⟨rfl, ht⟩))
  | ends task =>
    obtain ⟨s, hs, rfl⟩ := Option.map_eq_some_iff.1 h
    obtain ⟨router, router', hr, hrun, ht, rfl⟩ := turn_eq_some.1 hs
    cases ht
    exact .turns hr hrun (.inr (.inr ⟨rfl, rfl⟩))

theorem Guarded.next (h : Guarded c) (hn : next c a = some c') : Guarded c' := by
  cases moves_of_next hn with
  | requests hpc => exact h.request hpc
  | runs hpc hstep => exact h.stepCall hpc hstep
  | turns => exact h.shared rfl

/-! ## Deadlocks -/

/-- An `add_alias` asks for the lock a second time only while no writer waits for it. -/
def Unhindered (c : State) : Action → Prop
  | .run t _ =>
    match c.calls[t]? with
    | some (.asking true _ _) => ∀ e ∈ c.shared.lock.queue, e.2 = .read
    | _ => True
  | _ => True

instance (c : State) (a : Action) : Decidable (Unhindered c a) := by
  unfold Unhindered
  split
  · split <;> infer_instance
  · infer_instance

/-- No `add_alias` waits for its second guard. -/
def Calm (c : State) : Prop :=
  ∀ t id cmd, c.calls[t]? = some (.finding true id cmd) → ¬ c.shared.lock.Waits t

theorem calm_new (config : Option (List ℕ)) (database : Storage) : Calm (new config database) := fun _ _ _ h => by
  cases h

theorem LockStep.waits {u : ℕ} (h : LockStep l t pc l' pc') (hu : l'.Waits u) : u = t ∨ l.Waits u := by
  cases h with
  | keeps hlock => exact .inr (hlock ▸ hu)
  | asks m hlock =>
    subst hlock
    exact Lock.waits_of_request hu
  | drops m hlock =>
    subst hlock
    exact .inr (Lock.waits_of_release hu)
  | dropsBoth hlock =>
    subst hlock
    exact .inr (Lock.waits_of_release (Lock.waits_of_release hu))

theorem asking_of_step {outer : Bool} {id : ℕ} {cmd : HttpRouterCmd}
    (h : stepCall s t pc i = some (s', .finding outer id cmd)) :
    pc = .asking outer id cmd ∧ s'.lock = s.lock.request t .read := by
  cases pc with
  | asking outer id cmd =>
    cases h
    exact ⟨rfl, rfl⟩
  | starts ids => cases ids <;> cases h
  | stops ids => cases ids <;> cases h
  | starting => simp only [stepCall] at h; split at h <;> cases h
  | cancelling task ids => simp only [stepCall] at h; split_ifs at h <;> cases h
  | finding | taking => simp only [stepCall] at h; split_ifs at h; split at h <;> cases h
  | sending =>
    simp only [stepCall] at h
    split at h
    · cases h
    · split_ifs at h <;> cases h
  | adding | stopping | done => cases h
  | checking | comparing | storing | removing | inserting | collecting =>
    simp only [stepCall] at h
    split_ifs at h <;> cases h

/-- An `add_alias` that asks again holds its first guard. -/
theorem Guarded.reads (h : Guarded c) {id : ℕ} {cmd : HttpRouterCmd}
    (hpc : c.calls[t]? = some (.asking true id cmd)) : t ∈ c.shared.lock.readers := by
  have hw : ¬ c.shared.lock.Waits t := by
    intro hw
    obtain ⟨q, hq, haw⟩ := h.awaits hw
    cases hpc.symm.trans hq
    exact absurd haw Bool.false_ne_true
  exact List.count_pos_iff.1 (Nat.one_pos.trans_eq (h.held hpc hw .read).symm)

theorem Calm.next (hc : Calm c) (h : Guarded c) (hn : next c a = some c') (hu : Unhindered c a) : Calm c' := by
  cases moves_of_next hn with
  | requests hpc =>
    intro t id cmd ht hw
    obtain ⟨q, hq, haw⟩ := h.awaits hw
    cases ht.symm.trans (Cfg.getElem?_request hq)
    exact hc t id cmd hq hw
  | @runs t i pc pc' s hpc hstep =>
    intro u id cmd hu' hw
    rcases (getElem?_set hpc).1 hu' with ⟨rfl, rfl⟩ | ⟨hut, hu'⟩
    · obtain ⟨rfl, hlock⟩ := asking_of_step hstep
      simp only [Unhindered, hpc] at hu
      have hwriter : c.shared.lock.writer = none := by
        by_contra hne
        exact List.ne_nil_of_mem (h.reads hpc) (h.sound.alone hne)
      have hqueue := h.sound.request_read (i := u) hwriter hu
      rw [← hlock] at hqueue
      exact absurd hw (by simp [Lock.Waits, hqueue])
    · rcases (lockStep_of_step hstep).waits hw with hut' | hw
      · exact hut hut'
      · exact hc u id cmd hu' hw
  | turns => exact hc

/-- Whoever waits has asked for one guard, and holds none. -/
theorem Guarded.one_of_waits (h : Guarded c) (hc : Calm c) (hw : c.shared.lock.Waits t) :
    c.shared.lock.demand t .read + c.shared.lock.demand t .write = 1 := by
  obtain ⟨q, hq, haw⟩ := h.awaits hw
  rw [h.demand, h.demand, guards, guards, hq]
  cases q with
  | finding outer id cmd =>
    cases outer with
    | true => exact absurd hw (hc t id cmd hq)
    | false => rfl
  | checking | inserting | collecting | taking => rfl
  | _ => cases haw

theorem Guarded.not_deadlock (h : Guarded c) (hc : Calm c) : ¬ c.shared.lock.Deadlock := by
  have hone : ∀ t, c.shared.lock.Waits t →
      (c.shared.lock.queue.map Prod.fst).count t = 1 ∧ ¬ c.shared.lock.Holds t := by
    intro t hw
    have hsum := h.one_of_waits hc hw
    have hpos : 0 < (c.shared.lock.queue.map Prod.fst).count t := List.count_pos_iff.2 hw
    rw [Lock.queue_count_fst] at hpos ⊢
    rw [Lock.holds_iff_held]
    unfold Lock.demand at hsum
    omega
  refine Lock.not_deadlock (List.nodup_iff_count_le_one.2 fun t => ?_) fun t hw => (hone t hw).2
  by_cases hw : c.shared.lock.Waits t
  · exact (hone t hw).1.le
  · exact (List.count_eq_zero.2 hw).le.trans (Nat.zero_le 1)

/-- An `add_alias` that asks for the lock again behind a writer waits for it, and the writer for its first
guard. -/
theorem Guarded.deadlock (h : Guarded c) (hu : ¬ Unhindered c a) :
    ∃ c', Routers.next c a = some c' ∧ c'.shared.lock.Deadlock := by
  cases a with
  | run t i =>
    simp only [Unhindered] at hu
    split at hu
    · rename_i id cmd hpc
      push Not at hu
      obtain ⟨⟨w, m⟩, hmem, hm⟩ := hu
      have hwrite : (w, Mode.write) ∈ c.shared.lock.queue := by
        cases m with
        | read => exact absurd rfl hm
        | write => exact hmem
      obtain ⟨h₁, h₂⟩ := Lock.deadlock_request .read h.sound (h.reads hpc) hwrite
      exact ⟨_, Cfg.run_eq_some.2 ⟨_, _, _, hpc, rfl, rfl⟩, Lock.deadlock_of_mutual h₁ h₂⟩
    · exact absurd trivial hu
  | _ => exact absurd trivial hu

/-- **A run meets no deadlock exactly if no `add_alias` asks for the lock a second time while a writer
waits for it.** -/
theorem no_deadlock_iff (config : Option (List ℕ)) (database : Storage) (as : List Action) :
    (∀ bs c, bs <+: as → run next (new config database) bs = some c → ¬ c.shared.lock.Deadlock) ↔
      Along next Unhindered (new config database) as :=
  never_iff_along (I := fun c => Guarded c ∧ Calm c)
    (fun h hn hu => ⟨h.1.next hn, h.2.next h.1 hn hu⟩) (fun h => h.1.not_deadlock h.2)
    (fun h hu => h.1.deadlock hu) ⟨guarded_new config database, calm_new config database⟩

/-- An alias is added while the routers are started once more. -/
def hang : List Action :=
  let i : Input := { ok := true, ids := [] }
  [.start, .run 0 i, .run 0 i, .run 0 i, .run 0 i, .addAlias 1 "news" "/run/news.sock", .start,
    .run 1 i, .run 1 i, .run 1 i, .run 1 i, .run 2 i, .run 2 i, .run 1 i]

/-- Request 1 waits for its second guard behind request 2, and request 2 for the first guard of request 1. -/
theorem no_deadlock_otherwise : ∃ c, run next (new (some [1]) ∅) hang = some c ∧
    c.calls = [.done (.ok ()), .finding true 1 (.addAlias "news" "/run/news.sock"), .inserting 1 []] ∧
      c.shared.lock.BlockedBy 1 2 ∧ c.shared.lock.BlockedBy 2 1 ∧ c.shared.lock.Deadlock := by
  have hend : (run next (new (some [1]) ∅) hang).map (fun c => (c.calls, c.shared.lock.readers,
      c.shared.lock.writer, c.shared.lock.queue)) =
        some ([.done (.ok ()), .finding true 1 (.addAlias "news" "/run/news.sock"), .inserting 1 []], [1], none,
          [(2, .write), (1, .read)]) := by decide
  obtain ⟨c, hrun, hc⟩ := Option.map_eq_some_iff.1 hend
  simp only [Prod.mk.injEq] at hc
  obtain ⟨hcalls, hreaders, -, hqueue⟩ := hc
  have h₁ : c.shared.lock.BlockedBy 1 2 := ⟨[(2, .write)], .read, [], hqueue, .inl (by simp)⟩
  have h₂ : c.shared.lock.BlockedBy 2 1 :=
    ⟨[], .write, [(1, .read)], hqueue, .inr (.inr ⟨rfl, by simp [hreaders]⟩)⟩
  exact ⟨c, hrun, hcalls, h₁, h₂, Lock.deadlock_of_mutual h₁ h₂⟩

end MyMuxer.Routers
