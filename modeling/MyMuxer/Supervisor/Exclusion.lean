import MyMuxer.Lib.Schedule
import MyMuxer.Supervisor.Restart

/-!
# The lock set and the map of workers

* **`workers_lock_exclusive`**: one call at a time is between its insertion into `workersLock` and the
  drop of its guard, and an id without calls is not in it.
* `Rechecked`: a call of `start_worker` that takes the lock set finds no worker of its id still.
* `Owned`: the invariant of runs with this condition: no entry of the map is in the way of an insertion,
  and no running worker is out of reach.
* **`insert_never_replaces`**: in these runs an insertion replaces nothing; `insert_replaces`: without
  the condition it may.
-/

namespace MyMuxer.Supervision

open Calls

/-! ## The lock set -/

/-- **One call at a time**, and every guard is dropped: whatever steps fail, an id without a call in
flight is not in `workersLock`. -/
theorem workers_lock_exclusive {s : Supervisor} (h : Reachable s) :
    (∀ (t t' : ℕ) (c c' : Call), s.calls[t]? = some c → s.calls[t']? = some c' → c.id = c'.id →
      c.pc.holds = true → c'.pc.holds = true → t = t') ∧
    ∀ id, (∀ c ∈ s.calls, c.id = id → ∃ result, c.pc = .done result) → id ∉ s.workersLock := by
  have hl := reachable_lockInv h
  refine ⟨hl.unique, fun id hdone hid => ?_⟩
  obtain ⟨t, c, hc, hcid, hholds⟩ := (hl.mem_iff id).1 hid
  obtain ⟨result, hpc⟩ := hdone c (List.mem_of_getElem? hc) hcid
  rw [hpc] at hholds
  cases hholds

/-- A call whose `workers::start` fails. -/
def failedStart : List Action := [.request .start 7, .run 0 true, .run 0 true, .run 0 false, .run 0 true]

theorem workers_lock_exclusive_sample : ∃ s, run .new failedStart = some s ∧ 7 ∉ s.workersLock := by
  have hcalls : (run .new failedStart).map Supervisor.calls = some [⟨.start, 7, .done (.error .startFailed)⟩] :=
    rfl
  obtain ⟨s, hs, hcalls⟩ := Option.map_eq_some_iff.1 hcalls
  refine ⟨s, hs, (workers_lock_exclusive (Reachable.new.run hs)).2 7 fun c hc _ => ?_⟩
  rw [hcalls] at hc
  obtain rfl := List.mem_singleton.1 hc
  exact ⟨_, rfl⟩

/-! ## The map -/

/-- The action inserts a worker over an entry that is still in the map. -/
def replaces (s : Supervisor) : Action → Bool
  | .run t _ =>
    match s.calls[t]? with
    | some ⟨_, id, .inserting _⟩ => id ∈ s.workers
    | _ => false
  | _ => false

/-- Where a call of `start_worker` takes the lock set for its id, the map has no entry for it;
`worker.stop()` returns `Ok` on every path. -/
def Rechecked (s : Supervisor) : Action → Prop
  | .run t ok =>
    match s.calls[t]? with
    | some ⟨.start, id, .lock⟩ => id ∉ s.workersLock → id ∉ s.workers
    | some ⟨_, _, .stopping _⟩ => ok = true
    | _ => True
  | _ => True

instance (s : Supervisor) (a : Action) : Decidable (Rechecked s a) := by
  unfold Rechecked
  split
  · split <;> infer_instance
  · infer_instance

/-- A call at this point has no entry of its id in the map. -/
def Pc.absent : Pc → Bool
  | .stopping _ | .sleeping | .starting | .inserting _ => true
  | _ => false

/-- A call has this worker in its hands: it stops it, or it is about to insert it. -/
def Pc.inHand (w : Worker) : Pc → Prop
  | .stopping w' | .inserting w' => w' = w
  | _ => False

/-- The worker is in the map, where `stop_worker` finds it, or in the hands of a call. -/
def Held (s : Supervisor) (w : Worker) : Prop :=
  (∃ id, s.workers.lookup id = some w) ∨ ∃ c ∈ s.calls, c.pc.inHand w

/-- No entry is in the way of an insertion, and no running worker is out of reach. -/
structure Owned (s : Supervisor) : Prop where
  lock : LockInv s
  absent : ∀ c ∈ s.calls, c.pc.absent = true → c.id ∉ s.workers
  held : ∀ w < s.spawned, s.status w = .running → Held s w

theorem Pc.holds_of_absent {pc : Pc} (h : pc.absent = true) : pc.holds = true := by
  cases pc <;> first | rfl | cases h

theorem Owned.new : Owned .new where
  lock := reachable_lockInv .new
  absent _ hc := absurd hc List.not_mem_nil
  held w hw := absurd hw (Nat.not_lt_zero w)

/-! ## One step -/

/-- A worker stays in hand, but for what call `t` does with it. -/
theorem Held.step {s s₁ : Supervisor} {t : ℕ} {c e : Call} {w : Worker} (h : Held s w)
    (hc : s.calls[t]? = some c)
    (hmap : ∀ id, s.workers.lookup id = some w → s₁.workers.lookup id = some w ∨ e.pc.inHand w)
    (hhand : c.pc.inHand w → (∃ id, s₁.workers.lookup id = some w) ∨ e.pc.inHand w) :
    Held { s₁ with calls := s.calls.set t e } w := by
  have hkept : Kept (fun (s : Supervisor) w => ∃ id, s.workers.lookup id = some w) (fun c w => c.pc.inHand w)
      { shared := s, calls := s.calls } w := h
  exact hkept.run hc (fun ⟨id, hid⟩ => (hmap id hid).imp_left fun hid => ⟨id, hid⟩) hhand

/-- A step of call `t` leaves no entry of its id where it must not. -/
theorem Owned.stepCall_absent {s s₁ : Supervisor} (o : Owned s) {t : ℕ} {c : Call} {ok : Bool} {pc : Pc}
    (hc : s.calls[t]? = some c) (hs : stepCall s c ok = some (s₁, pc)) (hr : Rechecked s (.run t ok))
    (ha : pc.absent = true) : c.id ∉ s₁.workers := by
  have hold := o.absent c (List.mem_of_getElem? hc)
  obtain ⟨op, id, cpc⟩ := c
  simp only [Rechecked, hc] at hr
  cases cpc with
  | check =>
    cases op <;> simp only [stepCall, Option.some.injEq, Prod.mk.injEq] at hs <;> obtain ⟨-, rfl⟩ := hs <;>
      split_ifs at ha <;> cases ha
  | lock =>
    simp only [stepCall] at hs
    split_ifs at hs with hid <;> cases hs
    · cases ha
    · cases op with
      | start => exact hr hid
      | stop | restart => cases ha
  | take =>
    simp only [stepCall] at hs
    split at hs <;> cases hs
    · cases ha
    · exact fun h => (AList.mem_erase.1 h).1 rfl
  | stopping w =>
    simp only [stepCall] at hs
    split_ifs at hs <;> cases hs
    · exact hold rfl
    · cases ha
  | sleeping => cases hs; exact hold rfl
  | starting =>
    simp only [stepCall] at hs
    split_ifs at hs <;> cases hs
    · exact hold rfl
    · cases ha
  | inserting w => cases hs; cases ha
  | releasing r => cases hs; cases ha
  | done r => cases hs

/-- A step of call `t` puts no running worker out of reach. -/
theorem Owned.stepCall_held {s s₁ : Supervisor} (o : Owned s) {t : ℕ} {c : Call} {ok : Bool} {pc : Pc}
    (hc : s.calls[t]? = some c) (hs : stepCall s c ok = some (s₁, pc)) (hr : Rechecked s (.run t ok))
    {w : Worker} (hw : w < s₁.spawned) (hrun : s₁.status w = .running) :
    Held { s₁ with calls := s.calls.set t { c with pc } } w := by
  have hold := o.absent c (List.mem_of_getElem? hc)
  obtain ⟨op, id, cpc⟩ := c
  simp only [Rechecked, hc] at hr
  cases cpc with
  | check =>
    cases op <;> simp only [stepCall, Option.some.injEq, Prod.mk.injEq] at hs <;> obtain ⟨rfl, rfl⟩ := hs <;>
      exact (o.held w hw hrun).step hc (fun _ h => .inl h) False.elim
  | lock =>
    simp only [stepCall] at hs
    split_ifs at hs <;> cases hs <;> exact (o.held w hw hrun).step hc (fun _ h => .inl h) False.elim
  | take =>
    simp only [stepCall] at hs
    split at hs <;> rename_i hlook <;> cases hs
    · exact (o.held w hw hrun).step hc (fun _ h => .inl h) False.elim
    · refine (o.held w hw hrun).step hc (fun id' h => ?_) False.elim
      by_cases hid : id' = id
      · subst hid
        exact .inr (Option.some.inj (hlook.symm.trans h))
      · exact .inl ((AList.lookup_erase_ne hid).trans h)
  | stopping w' =>
    obtain rfl : ok = true := by cases op <;> exact hr
    cases hs
    dsimp only at hrun
    have hne : w ≠ w' := by
      rintro rfl
      rw [Function.update_self] at hrun
      cases hrun
    rw [Function.update_of_ne hne] at hrun
    exact (o.held w hw hrun).step hc (fun _ h => .inl h) fun h => absurd h.symm hne
  | sleeping => cases hs; exact (o.held w hw hrun).step hc (fun _ h => .inl h) False.elim
  | starting =>
    simp only [stepCall] at hs
    split_ifs at hs <;> cases hs
    · by_cases hnew : w = s.spawned
      · exact .inr ⟨_, List.mem_set (List.getElem?_eq_some_iff.1 hc).1 _, hnew.symm⟩
      · have hlt : w < s.spawned := Nat.lt_of_le_of_ne (Nat.lt_succ_iff.1 hw) hnew
        dsimp only at hrun
        rw [Function.update_of_ne hnew] at hrun
        exact (o.held w hlt hrun).step hc (fun _ h => .inl h) False.elim
    · exact (o.held w hw hrun).step hc (fun _ h => .inl h) False.elim
  | inserting w' =>
    cases hs
    refine (o.held w hw hrun).step hc (fun id' h => .inl ?_) fun h => .inl ⟨id, ?_⟩
    · have hne : id' ≠ id := by
        rintro rfl
        exact hold rfl (Table.mem_iff.2 ⟨_, h⟩)
      exact (AList.lookup_insert_ne hne).trans h
    · have h : w' = w := h
      exact h ▸ AList.lookup_insert s.workers
  | releasing r => cases hs; exact (o.held w hw hrun).step hc (fun _ h => .inl h) False.elim
  | done r => cases hs

/-- **Every step with the condition keeps the invariant.** -/
theorem Owned.next {s s' : Supervisor} {a : Action} (o : Owned s) (hs : next s a = some s')
    (hr : Rechecked s a) : Owned s' := by
  have hl := o.lock.next hs
  cases a with
  | request op id =>
    cases hs
    refine ⟨hl, fun c hc ha => ?_, fun w hw hrun => ?_⟩
    · rcases List.mem_append.1 hc with hc | hc
      · exact o.absent c hc ha
      · obtain rfl := List.mem_singleton.1 hc
        cases op <;> cases ha
    · exact (o.held w hw hrun).imp (fun h => h) fun ⟨c, hc, h⟩ => ⟨c, List.mem_append_left _ hc, h⟩
  | run t ok =>
    obtain ⟨c, s₁, pc, hc, hstep, rfl⟩ := next_run hs
    refine ⟨hl, fun d hd ha => ?_, fun w hw hrun => o.stepCall_held hc hstep hr hw hrun⟩
    rcases mem_set hc hd with rfl | ⟨u, hu, hd⟩
    · have habsent := o.stepCall_absent hc hstep hr ha
      exact habsent
    · have hne : c.pc.holds = true → c.id ≠ d.id := fun hh hid =>
        hu (o.lock.unique u t d c hd hc hid.symm (Pc.holds_of_absent ha) hh)
      have hsame := stepCall_lookup hstep hne
      exact fun h => o.absent d (List.mem_of_getElem? hd) ha ((mem_workers_congr hsame).1 h)
  | inputEnds w =>
    simp only [MyMuxer.Supervision.next] at hs
    split_ifs at hs
    cases hs
    refine ⟨hl, o.absent, fun v hv hrun => o.held v hv ?_⟩
    have hrun : Function.update s.status w .finished v = .running := hrun
    by_cases hvw : v = w
    · subst hvw
      rw [Function.update_self] at hrun
      cases hrun
    · rwa [Function.update_of_ne hvw] at hrun
  | monitor =>
    cases hs
    refine ⟨hl, fun c hc ha hmem => ?_, fun w hw hrun => ?_⟩
    · rcases List.mem_append.1 hc with hc | hc
      · exact o.absent c hc ha (mem_retain.1 hmem).1
      · obtain ⟨id, -, rfl⟩ := List.mem_map.1 hc
        cases ha
    · rcases o.held w hw hrun with ⟨id, hid⟩ | ⟨c, hc, h⟩
      · refine .inl ⟨id, Table.lookup_filter.2 ⟨hid, ?_⟩⟩
        have hrun : s.status w = .running := hrun
        simp [Supervisor.finished, hrun]
      · exact .inr ⟨c, List.mem_append_left _ hc, h⟩

/-! ## Runs -/

theorem Owned.replaces {s : Supervisor} (o : Owned s) (a : Action) : replaces s a = false := by
  unfold MyMuxer.Supervision.replaces
  split
  · split
    · rename_i op id w hc
      exact decide_eq_false (o.absent _ (List.mem_of_getElem? hc) rfl)
    · rfl
  · rfl

theorem run_eq_schedule : ∀ (as : List Action) (s : Supervisor), run s as = Schedule.run next s as
  | [], _ => rfl
  | a :: as, s => by
    rw [MyMuxer.Supervision.run, Schedule.run]
    exact congrArg _ (funext fun s' => run_eq_schedule as s')

theorem along_iff_schedule {P : Supervisor → Action → Prop} : ∀ (as : List Action) (s : Supervisor),
    Along P s as ↔ Schedule.Along next P s as
  | [], _ => .rfl
  | a :: as, s => by
    rw [Along, Schedule.Along]
    cases next s a with
    | none => rfl
    | some s' => exact and_congr_right fun _ => along_iff_schedule as s'

theorem Owned.run {as : List Action} {s s' : Supervisor} (o : Owned s) (e : run s as = some s')
    (hr : Along Rechecked s as) :
    Owned s' ∧ Along (fun s a => MyMuxer.Supervision.replaces s a = false) s as := by
  rw [run_eq_schedule] at e
  rw [along_iff_schedule] at hr ⊢
  have hfree : ∀ {s : Supervisor} {a : Action}, Owned s → Rechecked s a →
      MyMuxer.Supervision.replaces s a = false := fun o _ => o.replaces _
  exact ⟨Schedule.invariant Owned.next o e hr, Schedule.along_of_invariant Owned.next hfree o hr⟩

/-- **An insertion replaces nothing.** In every run in which a start that takes the lock set finds no
worker of its id still, no insertion meets an entry, and every running worker is in the map or in the
hands of the call that stops or inserts it. -/
theorem insert_never_replaces {as : List Action} {s : Supervisor} (hrun : run .new as = some s)
    (hr : Along Rechecked .new as) :
    Along (fun s a => replaces s a = false) .new as ∧ ∀ w < s.spawned, s.status w = .running → Held s w :=
  ⟨(Owned.new.run hrun hr).2, (Owned.new.run hrun hr).1.held⟩

/-- A stream is started, stopped and started again. -/
def startedTwice : List Action :=
  Action.request .start 7 :: List.replicate 5 (Action.run 0 true) ++
    Action.request .stop 7 :: List.replicate 5 (Action.run 1 true) ++
    Action.request .start 7 :: List.replicate 5 (Action.run 2 true)

theorem insert_never_replaces_sample : ∃ s, run .new startedTwice = some s ∧
    s.status 1 = .running ∧ Held s 1 := by
  have hsome : (run .new startedTwice).map (fun s => (s.spawned, s.status 1)) = some (2, .running) := rfl
  obtain ⟨s, hs, hcheck⟩ := Option.map_eq_some_iff.1 hsome
  obtain ⟨hspawned, hstatus⟩ := Prod.mk.inj hcheck
  have hheld := (insert_never_replaces hs (by decide)).2 1 (by omega) hstatus
  exact ⟨s, hs, hstatus, hheld⟩

/-- A second start of the same stream runs from its first step to its last between the two checks of the
first one. -/
def startedBetweenChecks : List Action :=
  [Action.request .start 7, .request .start 7, .run 0 true] ++ List.replicate 5 (Action.run 1 true) ++
    List.replicate 4 (Action.run 0 true)

/-- **The first start replaces the worker of the second**, which nobody can stop any more. -/
theorem insert_replaces : ∃ s, run .new startedBetweenChecks = some s ∧
    ¬ Along (fun s a => replaces s a = false) .new startedBetweenChecks ∧
    0 < s.spawned ∧ s.status 0 = .running ∧ ¬ Held s 0 := by
  have hcheck : (run .new startedBetweenChecks).map
      (fun s => ((s.spawned, s.status 0), s.workers.entries, s.calls)) =
        some ((2, .running), [⟨7, 1⟩], [⟨.start, 7, .done (.ok ())⟩, ⟨.start, 7, .done (.ok ())⟩]) := rfl
  obtain ⟨s, hs, hcheck⟩ := Option.map_eq_some_iff.1 hcheck
  obtain ⟨hstatus, hrest⟩ := Prod.mk.inj hcheck
  obtain ⟨hentries, hcalls⟩ := Prod.mk.inj hrest
  obtain ⟨hspawned, hstatus⟩ := Prod.mk.inj hstatus
  refine ⟨s, hs, by decide, by omega, hstatus, ?_⟩
  rintro (⟨id, hid⟩ | ⟨c, hc, hw⟩)
  · have hmem := Table.lookup_iff.1 hid
    rw [hentries] at hmem
    cases List.mem_singleton.1 hmem
  · rw [hcalls] at hc
    simp only [List.mem_cons, List.not_mem_nil, or_false, or_self] at hc
    rw [hc] at hw
    exact hw

end MyMuxer.Supervision
