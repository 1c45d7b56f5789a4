import MyMuxer.Lib.Calls
import Mathlib.Data.List.AList
import Mathlib.Data.Finset.Basic
import Mathlib.Tactic

/-!
# Workers of the supervisor (`supervisor.rs`)

The calls `start_worker`, `stop_worker`, `restart_worker` and the passes of `monitor`, interleaved at
their lock and await points.

* `Supervisor`: the map `workers`, the set `workersLock`, what became of every spawned worker, and
  the calls in flight, each at a program point (`Pc`).
* `stepCall`: one step of one call, from one lock or await point to the next; `next` adds new calls,
  the end of an input task and a pass of `monitor`; `Reachable` is any sequence of these.
* `LockInv`: an id is in `workersLock` exactly while one call holds it (`reachable_lockInv`), so at
  most one does (`LockInv.unique`).
-/

namespace MyMuxer.Supervision

open Calls

/-- The `n`-th worker spawned. -/
abbrev Worker : Type := ℕ

inductive Op where
  | start
  | stop
  | restart
  deriving DecidableEq

/-- The error of a call. -/
inductive CallError where
  | workerNotFound (id : ℕ)
  | startFailed
  | stopFailed
  deriving DecidableEq

/-- Where a call is. -/
inductive Pc where
  /-- Before `self.workers.read()`. -/
  | check
  /-- Before `self.workers_lock.lock()`. -/
  | lock
  /-- Before the worker is removed from the map. -/
  | take
  /-- In `worker.stop()`. -/
  | stopping (worker : Worker)
  /-- In `sleep(..)`. -/
  | sleeping
  /-- In `workers::start(..)`. -/
  | starting
  /-- Before the new worker is inserted. -/
  | inserting (worker : Worker)
  /-- Before `_guard` is dropped. -/
  | releasing (result : Except CallError Unit)
  | done (result : Except CallError Unit)

/-- Between the insertion of the id into `workersLock` and the drop of the guard. -/
def Pc.holds : Pc → Bool
  | .check | .lock | .done _ => false
  | _ => true

structure Call where
  op : Op
  id : ℕ
  pc : Pc

/-- What became of a spawned worker: its input task runs, has finished, or it was stopped. -/
inductive Status where
  | running
  | finished
  | stopped
  deriving DecidableEq

structure Supervisor where
  workers : AList fun _ : ℕ => Worker
  workersLock : Finset ℕ
  spawned : ℕ
  status : Worker → Status
  calls : List Call

def Supervisor.new : Supervisor :=
  { workers := ∅, workersLock := ∅, spawned := 0, status := fun _ => .stopped, calls := [] }

/-- Where a call begins. -/
def Op.entry : Op → Pc
  | .start | .stop => .check
  | .restart => .lock

/-- One step of a call; `ok` says whether `workers::start` or `worker.stop` succeeds, where the step
runs one of them. -/
def stepCall (s : Supervisor) (c : Call) (ok : Bool) : Option (Supervisor × Pc) :=
  match c.pc with
  | .check =>
    match c.op with
    | .start => some (s, if c.id ∈ s.workers then .done (.ok ()) else .lock)
    | .stop | .restart => some (s, if c.id ∈ s.workers then .lock else .done (.ok ()))
  | .lock =>
    if c.id ∈ s.workersLock then some (s, .done (.ok ()))
    else some ({ s with workersLock := insert c.id s.workersLock },
      match c.op with
      | .start => .starting
      | .stop | .restart => .take)
  | .take =>
    match s.workers.lookup c.id with
    | none => some (s, .releasing (.error (.workerNotFound c.id)))
    | some w => some ({ s with workers := s.workers.erase c.id }, .stopping w)
  | .stopping w =>
    if ok then some ({ s with status := Function.update s.status w .stopped },
      match c.op with
      | .restart => .sleeping
      | .start | .stop => .releasing (.ok ()))
    else some (s, .releasing (.error .stopFailed))
  | .sleeping => some (s, .starting)
  | .starting =>
    if ok then
      let status := Function.update s.status s.spawned .running
      some ({ s with spawned := s.spawned + 1, status }, .inserting s.spawned)
    else some (s, .releasing (.error .startFailed))
  | .inserting w => some ({ s with workers := s.workers.insert c.id w }, .releasing (.ok ()))
  | .releasing result => some ({ s with workersLock := s.workersLock.erase c.id }, .done result)
  | .done _ => none

/-- `worker.monitor()`: the input task has finished. -/
def Supervisor.finished (s : Supervisor) (w : Worker) : Bool := s.status w = .finished

/-- `workers.retain(..)` of a pass, and the ids it leaves to restart. -/
def retainWorkers (s : Supervisor) : AList fun _ : ℕ => Worker :=
  ⟨s.workers.entries.filter fun e => !s.finished e.2, s.workers.nodupKeys.sublist List.filter_sublist⟩

def restartIds (s : Supervisor) : List ℕ :=
  (s.workers.entries.filter fun e => s.finished e.2).map Sigma.fst

/-- The worker part of a pass of `monitor`. -/
def monitor (s : Supervisor) : Supervisor :=
  { s with
    workers := retainWorkers s
    calls := s.calls ++ (restartIds s).map fun id => { op := .restart, id, pc := Op.entry .restart } }

inductive Action where
  /-- A call comes in. -/
  | request (op : Op) (id : ℕ)
  /-- Call number `t` takes its next step. -/
  | run (t : ℕ) (ok : Bool)
  /-- The input task of a worker ends. -/
  | inputEnds (w : Worker)
  /-- A pass of `monitor`. -/
  | monitor
  deriving DecidableEq

def next (s : Supervisor) : Action → Option Supervisor
  | .request op id => some { s with calls := s.calls ++ [{ op, id, pc := op.entry }] }
  | .run t ok => do
    let c ← s.calls[t]?
    let (s', pc) ← stepCall s c ok
    return { s' with calls := s.calls.set t { c with pc } }
  | .inputEnds w =>
    if s.status w = .running then some { s with status := Function.update s.status w .finished }
    else none
  | .monitor => some (monitor s)

/-- A sequence of actions. -/
def run (s : Supervisor) : List Action → Option Supervisor
  | [] => some s
  | a :: as => (next s a).bind (run · as)

inductive Reachable : Supervisor → Prop where
  | new : Reachable .new
  | step {s s' : Supervisor} {a : Action} : Reachable s → next s a = some s' → Reachable s'

theorem Reachable.run {s s' : Supervisor} (h : Reachable s) : ∀ {as : List Action},
    run s as = some s' → Reachable s'
  | [], e => by cases e; exact h
  | a :: as, e => by
    obtain ⟨s₁, h₁, h₂⟩ := Option.bind_eq_some_iff.1 e
    exact (h.step h₁).run h₂

/-! ## One step of one call -/

theorem next_run {s s' : Supervisor} {t : ℕ} {ok : Bool} (h : next s (.run t ok) = some s') :
    ∃ c s₁ pc, s.calls[t]? = some c ∧ stepCall s c ok = some (s₁, pc) ∧
      s' = { s₁ with calls := s.calls.set t { c with pc } } := by
  simp only [next, Option.bind_eq_bind, Option.bind_eq_some_iff, Option.pure_def,
    Option.some.injEq] at h
  obtain ⟨c, hc, ⟨s₁, pc⟩, hs, rfl⟩ := h
  exact ⟨c, s₁, pc, hc, hs, rfl⟩

/-- What a step does to `workersLock`: it takes the id, drops it, or leaves the set alone. -/
theorem stepCall_lock {s s₁ : Supervisor} {c : Call} {ok : Bool} {pc : Pc}
    (h : stepCall s c ok = some (s₁, pc)) :
    (c.pc.holds = false ∧ pc.holds = true ∧ c.id ∉ s.workersLock ∧
        s₁.workersLock = insert c.id s.workersLock) ∨
      (c.pc.holds = true ∧ pc.holds = false ∧ s₁.workersLock = s.workersLock.erase c.id) ∨
      (pc.holds = c.pc.holds ∧ s₁.workersLock = s.workersLock) := by
  obtain ⟨op, id, cpc⟩ := c
  cases cpc with
  | check => cases op <;> simp only [stepCall, Option.some.injEq, Prod.mk.injEq] at h <;>
      obtain ⟨rfl, rfl⟩ := h <;> exact Or.inr (Or.inr ⟨by split_ifs <;> rfl, rfl⟩)
  | lock =>
    simp only [stepCall] at h
    split_ifs at h with hid
    · cases h; exact Or.inr (Or.inr ⟨rfl, rfl⟩)
    · cases h; exact Or.inl ⟨rfl, by cases op <;> rfl, hid, rfl⟩
  | take =>
    simp only [stepCall] at h
    split at h <;> cases h <;> exact Or.inr (Or.inr ⟨rfl, rfl⟩)
  | stopping w =>
    simp only [stepCall] at h
    split_ifs at h <;> cases h
    · exact Or.inr (Or.inr ⟨by cases op <;> rfl, rfl⟩)
    · exact Or.inr (Or.inr ⟨rfl, rfl⟩)
  | sleeping => cases h; exact Or.inr (Or.inr ⟨rfl, rfl⟩)
  | starting =>
    simp only [stepCall] at h
    split_ifs at h <;> cases h <;> exact Or.inr (Or.inr ⟨rfl, rfl⟩)
  | inserting w => cases h; exact Or.inr (Or.inr ⟨rfl, rfl⟩)
  | releasing r => cases h; exact Or.inr (Or.inl ⟨rfl, rfl, rfl⟩)
  | done r => cases h

/-- A step that changes the entry of an id belongs to a call that holds that id. -/
theorem stepCall_lookup {s s₁ : Supervisor} {c : Call} {ok : Bool} {pc : Pc}
    (h : stepCall s c ok = some (s₁, pc)) {id : ℕ} (hne : c.pc.holds = true → c.id ≠ id) :
    s₁.workers.lookup id = s.workers.lookup id := by
  obtain ⟨op, cid, cpc⟩ := c
  cases cpc with
  | check => cases op <;> simp only [stepCall, Option.some.injEq, Prod.mk.injEq] at h <;>
      obtain ⟨rfl, rfl⟩ := h <;> rfl
  | lock =>
    simp only [stepCall] at h
    split_ifs at h <;> cases h <;> rfl
  | take =>
    have hid : id ≠ cid := (hne rfl).symm
    simp only [stepCall] at h
    split at h <;> cases h
    · rfl
    · exact AList.lookup_erase_ne hid
  | stopping w =>
    simp only [stepCall] at h
    split_ifs at h <;> cases h <;> rfl
  | sleeping => cases h; rfl
  | starting =>
    simp only [stepCall] at h
    split_ifs at h <;> cases h <;> rfl
  | inserting w => cases h; exact AList.lookup_insert_ne (hne rfl).symm
  | releasing r => cases h; rfl
  | done r => cases h

/-! ## The lock set -/

/-- An id is in `workersLock` exactly while some call holds it, and then only one does. -/
structure LockInv (s : Supervisor) : Prop where
  mem_iff : ∀ id, id ∈ s.workersLock ↔ ∃ t : ℕ, ∃ c : Call,
    s.calls[t]? = some c ∧ c.id = id ∧ c.pc.holds = true
  unique : ∀ (t t' : ℕ) (c c' : Call), s.calls[t]? = some c → s.calls[t']? = some c' → c.id = c'.id →
    c.pc.holds = true → c'.pc.holds = true → t = t'

/-- The id whose guard a call holds. -/
def Call.guard (c : Call) : Option ℕ := if c.pc.holds = true then some c.id else none

theorem Call.guard_eq_some {c : Call} {id : ℕ} : c.guard = some id ↔ c.id = id ∧ c.pc.holds = true := by
  unfold Call.guard
  split_ifs with hh
  · rw [Option.some_inj, and_iff_left hh]
  · exact iff_of_false (fun h => by cases h) fun h => hh h.2

/-- The invariant is that of a lock for each id. -/
theorem lockInv_iff {s : Supervisor} : LockInv s ↔
    Exclusive (fun s id => id ∈ s.workersLock) Call.guard { shared := s, calls := s.calls } := by
  constructor
  · intro h
    refine ⟨fun id => ?_, fun t t' c c' id hc hc' hg hg' => ?_⟩
    · simp only [Call.guard_eq_some]
      exact h.mem_iff id
    · obtain ⟨hid, hh⟩ := Call.guard_eq_some.1 hg
      obtain ⟨hid', hh'⟩ := Call.guard_eq_some.1 hg'
      exact h.unique t t' c c' hc hc' (hid.trans hid'.symm) hh hh'
  · intro h
    refine ⟨fun id => ?_, fun t t' c c' hc hc' hid hh hh' => ?_⟩
    · have hiff := h.taken_iff id
      simp only [Call.guard_eq_some] at hiff
      exact hiff
    · exact h.unique t t' c c' c'.id hc hc' (Call.guard_eq_some.2 ⟨hid, hh⟩) (Call.guard_eq_some.2 ⟨rfl, hh'⟩)

/-- New calls hold nothing yet. -/
theorem LockInv.append {s : Supervisor} (h : LockInv s) {l : List Call}
    (hl : ∀ c ∈ l, c.pc.holds = false) {s' : Supervisor} (hc : s'.calls = s.calls ++ l)
    (hs : s'.workersLock = s.workersLock) : LockInv s' := by
  have hguard : ∀ c ∈ l, c.guard = none := by
    intro c hmem
    rw [Call.guard, hl c hmem, if_neg Bool.false_ne_true]
  have hshared : ∀ id, id ∈ s'.workersLock ↔ id ∈ s.workersLock := fun id => by rw [hs]
  have hlocks := ((lockInv_iff.1 h).request hguard).shared hshared
  rw [lockInv_iff, hc]
  exact hlocks

/-- A step of a call keeps the lock set and the holders in line. -/
theorem LockInv.stepCall {s s₁ : Supervisor} (h : LockInv s) {t : ℕ} {c : Call} {ok : Bool} {pc : Pc}
    (hc : s.calls[t]? = some c) (hs : stepCall s c ok = some (s₁, pc)) :
    LockInv { s₁ with calls := s.calls.set t { c with pc } } := by
  have hlocks : Locks (fun s id => id ∈ s.workersLock) Call.guard s c s₁ { c with pc } := by
    rcases stepCall_lock hs with ⟨hbefore, hafter, hfree, hlock⟩ | ⟨hbefore, hafter, hlock⟩ | ⟨hsame, hlock⟩
    · refine .takes c.id ?_ (Call.guard_eq_some.2 ⟨rfl, hafter⟩) hfree fun id => ?_
      · rw [Call.guard, hbefore, if_neg Bool.false_ne_true]
      · rw [hlock, Finset.mem_insert]
    · refine .drops c.id (Call.guard_eq_some.2 ⟨rfl, hbefore⟩) ?_ fun id => ?_
      · rw [Call.guard, hafter, if_neg Bool.false_ne_true]
      · rw [hlock, Finset.mem_erase]
    · refine .keeps ?_ fun id => ?_
      · rw [Call.guard, Call.guard, hsame]
      · rw [hlock]
  exact lockInv_iff.2 (((lockInv_iff.1 h).run hc hlocks).shared fun _ => Iff.rfl)

theorem LockInv.next {s s' : Supervisor} {a : Action} (h : LockInv s) (hs : next s a = some s') :
    LockInv s' := by
  cases a with
  | request op id =>
    cases hs
    exact h.append (l := [{ op, id, pc := op.entry }]) (by cases op <;> simp [Op.entry, Pc.holds]) rfl rfl
  | run t ok =>
    obtain ⟨c, s₁, pc, hc, hstep, rfl⟩ := next_run hs
    exact h.stepCall hc hstep
  | inputEnds w =>
    simp only [MyMuxer.Supervision.next] at hs
    split_ifs at hs
    cases hs
    exact ⟨h.mem_iff, h.unique⟩
  | monitor =>
    cases hs
    exact h.append (by simp [Op.entry, Pc.holds]) rfl rfl

/-- **In every reachable state an id is in `workersLock` exactly while one call holds it.** -/
theorem reachable_lockInv {s : Supervisor} (h : Reachable s) : LockInv s := by
  induction h with
  | new => exact ⟨by simp [Supervisor.new], by simp [Supervisor.new]⟩
  | step _ hs ih => exact ih.next hs

end MyMuxer.Supervision
