import MyMuxer.Lib.Table
import MyMuxer.Supervisor.Model

/-!
# Restarting a stream whose input has finished

A pass of `monitor` takes the worker out of the map and spawns `restart_worker`, which takes the
worker out of the map again before it starts a new one.

* `Along P s as`: every step of a run meets `P`.
* `Finds`, `Keeps`: the restart call finds a worker of its id in the map where it looks for one, and
  no pass takes the new worker out before the call is over.
* `RestartRun`: the run of such a call, from the pass to its last step.
* **`restart_worker_iff`**: the call ends with a worker in the map exactly when every step of the run
  meets these two; `restart_worker_fails`: left alone, it ends with none.
-/

namespace MyMuxer.Supervision

/-- Every step of the run of `as` from `s` meets `P`. -/
def Along (P : Supervisor → Action → Prop) : Supervisor → List Action → Prop
  | _, [] => True
  | s, a :: as => P s a ∧ match next s a with
    | some s' => Along P s' as
    | none => True

instance decidableAlong {P : Supervisor → Action → Prop} [∀ s a, Decidable (P s a)] :
    ∀ (s : Supervisor) (as : List Action), Decidable (Along P s as)
  | _, [] => inferInstanceAs (Decidable True)
  | s, a :: as =>
    match h : next s a with
    | some s' =>
      have : Decidable (Along P s' as) := decidableAlong s' as
      decidable_of_iff (P s a ∧ Along P s' as) (by simp [Along, h])
    | none => decidable_of_iff (P s a) (by simp [Along, h])

/-- Where call `t` is. -/
def callPc (s : Supervisor) (t : ℕ) : Option Pc := s.calls[t]?.map Call.pc

/-- Call `t` is over. -/
def isDone (s : Supervisor) (t : ℕ) : Bool :=
  match callPc s t with
  | some (.done _) => true
  | _ => false

/-- Call `t` has nothing left but to drop its guard. -/
def isReleasing (s : Supervisor) (t : ℕ) : Bool :=
  match callPc s t with
  | some (.releasing _) => true
  | _ => false

/-- Call `t` looks for the worker of `id` in this step: it removes it from the map, or it returns
because another call holds the id. -/
def looks (s : Supervisor) (t id : ℕ) : Bool :=
  match callPc s t with
  | some .lock => id ∈ s.workersLock
  | some .take => true
  | _ => false

/-- Where call `t` looks for a worker of `id`, there is one. -/
def Finds (t id : ℕ) (s : Supervisor) (a : Action) : Prop :=
  (a = .run t true ∧ looks s t id = true) → id ∈ s.workers

/-- No pass takes the worker of `id` out again while call `t` is about to drop its guard. -/
def Keeps (t id : ℕ) (s : Supervisor) (a : Action) : Prop :=
  (a = .monitor ∧ isReleasing s t = true) → id ∉ restartIds s

instance (t id : ℕ) (s : Supervisor) (a : Action) : Decidable (Finds t id s a) := by
  unfold Finds; infer_instance

instance (t id : ℕ) (s : Supervisor) (a : Action) : Decidable (Keeps t id s a) := by
  unfold Keeps; infer_instance

/-- A step of a call of `stop_worker(id)`. -/
def stops (id : ℕ) (s : Supervisor) : Action → Bool
  | .run t _ =>
    match s.calls[t]? with
    | some c => c.op = .stop && c.id = id
    | none => false
  | _ => false

/-- The run of call `t`, spawned by a pass of `monitor` in the reachable state `s` to restart `id`,
from the pass to the last step of the call, with every `workers::start` of the call succeeding. -/
structure RestartRun (s : Supervisor) (t id : ℕ) (as : List Action) (s' : Supervisor) : Prop where
  reachable : Reachable s
  spawned : ∃ i, (restartIds s)[i]? = some id ∧ t = s.calls.length + i
  run : run (monitor s) as = some s'
  starts : Action.run t false ∉ as
  unfinished : Along (fun s _ => isDone s t = false) (monitor s) as
  finished : isDone s' t = true

/-- The two conditions on a step. -/
def Meets (t id : ℕ) (s : Supervisor) (a : Action) : Prop := Finds t id s a ∧ Keeps t id s a

instance (t id : ℕ) (s : Supervisor) (a : Action) : Decidable (Meets t id s a) := by
  unfold Meets; infer_instance

/-! ## What a step leaves of a waiting call -/

theorem mem_workers_iff {s : Supervisor} {id : ℕ} : id ∈ s.workers ↔ (s.workers.lookup id).isSome :=
  AList.lookup_isSome.symm

theorem mem_workers_congr {s s' : Supervisor} {id : ℕ} (h : s'.workers.lookup id = s.workers.lookup id) :
    id ∈ s'.workers ↔ id ∈ s.workers := by rw [mem_workers_iff, mem_workers_iff, h]

theorem mem_restartIds {s : Supervisor} {id : ℕ} :
    id ∈ restartIds s ↔ ∃ w, ⟨id, w⟩ ∈ s.workers.entries ∧ s.finished w = true := by
  simp only [restartIds, List.mem_map, List.mem_filter]
  constructor
  · rintro ⟨⟨_, w⟩, ⟨h1, h2⟩, rfl⟩; exact ⟨w, h1, h2⟩
  · rintro ⟨w, h1, h2⟩; exact ⟨⟨id, w⟩, ⟨h1, h2⟩, rfl⟩

/-- A pass keeps the workers whose input still runs. -/
theorem mem_retain {s : Supervisor} {id : ℕ} :
    id ∈ (monitor s).workers ↔ id ∈ s.workers ∧ id ∉ restartIds s := by
  rw [Table.mem_iff, Table.mem_iff, mem_restartIds]
  simp only [Table.lookup_iff, monitor, retainWorkers, List.mem_filter]
  constructor
  · rintro ⟨w, h1, h2⟩
    refine ⟨⟨w, h1⟩, ?_⟩
    rintro ⟨w', h1', h2'⟩
    have := s.workers.nodupKeys.eq_of_mk_mem h1 h1'
    subst this
    simp [h2'] at h2
  · rintro ⟨⟨w, h1⟩, h2⟩
    refine ⟨w, h1, ?_⟩
    by_contra hf
    exact h2 ⟨w, h1, by simpa using hf⟩

/-- A step of anyone else leaves call `t` where it is. -/
theorem next_call {s s' : Supervisor} {a : Action} {t : ℕ} {c : Call} (hc : s.calls[t]? = some c)
    (h : next s a = some s') (hne : ∀ ok, a ≠ .run t ok) : s'.calls[t]? = some c := by
  have ht : t < s.calls.length := (List.getElem?_eq_some_iff.1 hc).1
  cases a with
  | request op id => cases h; exact (List.getElem?_append_left ht).trans hc
  | run u ok =>
    obtain ⟨d, s₁, pc, _, _, rfl⟩ := next_run h
    have hu : u ≠ t := fun e => hne ok (by rw [e])
    exact (List.getElem?_set_ne hu).trans hc
  | inputEnds w =>
    simp only [next] at h
    split_ifs at h
    cases h; exact hc
  | monitor => cases h; exact (List.getElem?_append_left ht).trans hc

/-- While call `t` holds `id`, only a pass of `monitor` changes the entry of `id`, or `t` itself. -/
theorem next_workers {s s' : Supervisor} {a : Action} {t : ℕ} {c : Call} (hl : LockInv s)
    (hc : s.calls[t]? = some c) (hh : c.pc.holds = true) (h : next s a = some s')
    (hne : ∀ ok, a ≠ .run t ok) (hm : a ≠ .monitor) : c.id ∈ s'.workers ↔ c.id ∈ s.workers := by
  cases a with
  | request op id => cases h; exact Iff.rfl
  | run u ok =>
    obtain ⟨d, s₁, pc, hd, hs, rfl⟩ := next_run h
    refine mem_workers_congr (stepCall_lookup hs fun hd' hid => hne ok ?_)
    rw [hl.unique u t d c hd hc hid hd' hh]
  | inputEnds w =>
    simp only [next] at h
    split_ifs at h
    cases h; exact Iff.rfl
  | monitor => exact absurd rfl hm

/-! ## The run of a restart -/

/-- What is left to hold at a program point: once the call has only its guard to drop, the worker
must be in the map. -/
def Stage (s : Supervisor) (id : ℕ) : Pc → Prop
  | .releasing _ | .done _ => id ∈ s.workers
  | _ => True

/-- A step of anyone else keeps the stage exactly when it meets the condition. -/
theorem stage_other {s s' : Supervisor} {a : Action} {t : ℕ} {c : Call} (hl : LockInv s)
    (hc : s.calls[t]? = some c) (h : next s a = some s') (hne : ∀ ok, a ≠ .run t ok)
    (hd : isDone s t = false) :
    Stage s' c.id c.pc ↔ Stage s c.id c.pc ∧ Meets t c.id s a := by
  have hpc : callPc s t = some c.pc := by rw [callPc, hc]; rfl
  have hf : Finds t c.id s a := fun ⟨e, _⟩ => absurd e (hne true)
  cases hcp : c.pc with
  | releasing r =>
    have hr : isReleasing s t = true := by rw [isReleasing, hpc, hcp]
    simp only [Stage, Meets, hf, true_and, Keeps, hr, and_true]
    by_cases hm : a = .monitor
    · subst hm; cases h
      simp only [true_imp_iff]
      exact mem_retain
    · simp only [hm, false_imp_iff, and_true]
      exact next_workers hl hc (by rw [hcp]; rfl) h hne hm
  | done r => rw [isDone, hpc, hcp] at hd; exact Bool.noConfusion hd
  | _ =>
    have hr : isReleasing s t = false := by rw [isReleasing, hpc, hcp]
    simp [Stage, Meets, hf, Keeps, hr]

/-- A step of the restart call itself. -/
theorem stage_self {s s' : Supervisor} {t : ℕ} {c : Call} (hop : c.op = .restart)
    (hc : s.calls[t]? = some c) (h : next s (.run t true) = some s') (hd : isDone s t = false)
    (hcheck : c.pc ≠ .check) :
    ∃ pc, s'.calls[t]? = some { c with pc } ∧ pc ≠ .check ∧
      (Stage s' c.id pc ↔ Stage s c.id c.pc ∧ Meets t c.id s (.run t true)) := by
  have ht : t < s.calls.length := (List.getElem?_eq_some_iff.1 hc).1
  obtain ⟨d, s₁, pc, hd', hs, rfl⟩ := next_run h
  rw [hc] at hd'; cases hd'
  have hk : Keeps t c.id s (.run t true) := fun ⟨e, _⟩ => by cases e
  have hpc : callPc s t = some c.pc := by rw [callPc, hc]; rfl
  refine ⟨pc, by simp [ht], ?_⟩
  simp only [Meets, hk, and_true, Finds, looks, hpc, true_and]
  obtain ⟨op, id, cpc⟩ := c
  obtain rfl : op = .restart := hop
  cases cpc with
  | check => exact absurd rfl hcheck
  | lock =>
    simp only [stepCall] at hs
    split_ifs at hs with hid <;> cases hs
    · exact ⟨by simp, by simp [Stage, hid]⟩
    · exact ⟨by simp, by simp [Stage, hid]⟩
  | take =>
    simp only [stepCall] at hs
    split at hs <;> rename_i hlook <;> cases hs
    · have : id ∉ s.workers := AList.lookup_eq_none.1 hlook
      exact ⟨by simp, by simp [Stage, this]⟩
    · have : id ∈ s.workers := Table.mem_iff.2 ⟨_, hlook⟩
      exact ⟨by simp, by simp [Stage, this]⟩
  | stopping w => cases hs; exact ⟨by simp, by simp [Stage]⟩
  | sleeping => cases hs; exact ⟨by simp, by simp [Stage]⟩
  | starting => cases hs; exact ⟨by simp, by simp [Stage]⟩
  | inserting w => cases hs; exact ⟨by simp, by simp [Stage]⟩
  | releasing r => cases hs; exact ⟨by simp, by simp [Stage]⟩
  | done r => rw [isDone, hpc] at hd; exact Bool.noConfusion hd

/-- The run of a restart call from any of its program points. -/
theorem run_stage {t : ℕ} : ∀ (as : List Action) {s s' : Supervisor} {c : Call}, LockInv s →
    s.calls[t]? = some c → c.op = .restart → c.pc ≠ .check → run s as = some s' →
    Action.run t false ∉ as → Along (fun s _ => isDone s t = false) s as → isDone s' t = true →
    (c.id ∈ s'.workers ↔ Stage s c.id c.pc ∧ Along (Meets t c.id) s as)
  | [], s, s', c, _, hc, _, _, hrun, _, _, hdone => by
    cases hrun
    have hpc : callPc s t = some c.pc := by rw [callPc, hc]; rfl
    cases hcp : c.pc with
    | done r => simp [Stage, Along]
    | _ => rw [isDone, hpc, hcp] at hdone; exact Bool.noConfusion hdone
  | a :: as, s, s', c, hl, hc, hop, hcheck, hrun, hok, hun, hdone => by
    obtain ⟨s₁, h₁, hrun₁⟩ := Option.bind_eq_some_iff.1 hrun
    simp only [Along, h₁] at hun ⊢
    rw [List.mem_cons, not_or] at hok
    rw [← and_assoc]
    by_cases ha : ∃ ok, a = .run t ok
    · obtain ⟨ok, rfl⟩ := ha
      obtain rfl : ok = true := by cases ok; exact absurd rfl hok.1; rfl
      obtain ⟨pc, hc₁, hcheck₁, hiff⟩ := stage_self hop hc h₁ hun.1 hcheck
      rw [← hiff]
      exact run_stage as (hl.next h₁) hc₁ hop hcheck₁ hrun₁ hok.2 hun.2 hdone
    · rw [← stage_other hl hc h₁ (fun ok e => ha ⟨ok, e⟩) hun.1]
      exact run_stage as (hl.next h₁) (next_call hc h₁ fun ok e => ha ⟨ok, e⟩) hop hcheck hrun₁
        hok.2 hun.2 hdone

/-- **When a restart brings the stream back.** The restart call ends with a worker for its id in the
map exactly when it finds one where it looks for it, and no pass takes the new one out again. -/
theorem restart_worker_iff {s s' : Supervisor} {t id : ℕ} {as : List Action}
    (h : RestartRun s t id as s') :
    id ∈ s'.workers ↔ Along (Meets t id) (monitor s) as := by
  obtain ⟨i, hi, rfl⟩ := h.spawned
  have hc : (monitor s).calls[s.calls.length + i]? = some ⟨.restart, id, .lock⟩ := by
    simp only [monitor]
    rw [List.getElem?_append_right (by omega)]
    simp [hi, Op.entry]
  have hl : LockInv (monitor s) := (reachable_lockInv h.reachable).next (a := .monitor) rfl
  have := run_stage as hl hc rfl (by simp) h.run h.starts h.unfinished h.finished
  simpa only [Stage, true_and] using this

/-! ## Two runs -/

/-- Stream 7 is started and its input ends. -/
def inputEnded : List Action :=
  [.request .start 7, .run 0 true, .run 0 true, .run 0 true, .run 0 true, .run 0 true, .inputEnds 0]

/-- The restart call, number 1, on its own: lock, remove, drop the guard. -/
def restartAlone : List Action := [.run 1 true, .run 1 true, .run 1 true]

/-- A user starts stream 7 again before the restart call takes its first step. -/
def startedBetween : List Action :=
  [.request .start 7, .run 2 true, .run 2 true, .run 2 true, .run 2 true, .run 2 true] ++
    List.replicate 7 (.run 1 true)

theorem restartRun_of_run {s s' : Supervisor} (as₀ as : List Action) (h₀ : run .new as₀ = some s)
    (hid : (restartIds s)[0]? = some 7) (ht : s.calls.length = 1) (h : run (monitor s) as = some s')
    (hok : Action.run 1 false ∉ as) (hun : Along (fun s _ => isDone s 1 = false) (monitor s) as)
    (hd : isDone s' 1 = true) : RestartRun s 1 7 as s' :=
  ⟨Reachable.new.run h₀, ⟨0, hid, by omega⟩, h, hok, hun, hd⟩

/-- **Left alone, the restart call finds no worker to stop**, and the stream is not restarted. -/
theorem restart_worker_fails : ¬ ∀ (s s' : Supervisor) (t id : ℕ) (as : List Action),
    RestartRun s t id as s' → Along (fun s a => stops id s a = false) (monitor s) as →
      id ∈ s'.workers := by
  intro h
  have hrun := restartRun_of_run inputEnded restartAlone rfl rfl rfl rfl (by decide)
    (by decide) rfl
  exact absurd (h _ _ _ _ _ hrun (by decide)) (by decide)

/-- With a worker started in between, the stream comes back. -/
theorem restart_worker_iff_started : ∃ s s', RestartRun s 1 7 startedBetween s' ∧
    (7 ∈ s'.workers ↔ Along (Meets 1 7) (monitor s) startedBetween) ∧ 7 ∈ s'.workers := by
  have hrun := restartRun_of_run inputEnded startedBetween rfl rfl rfl rfl (by decide)
    (by decide) rfl
  exact ⟨_, _, hrun, restart_worker_iff hrun, (restart_worker_iff hrun).2 (by decide)⟩

end MyMuxer.Supervision
