import MyMuxer.Lib.Schedule
import MyMuxer.Lib.Table
import MyMuxer.Supervisor.Validate

/-!
# The output tasks of a worker (`workers/mod.rs`)

Tasks are numbered in the order in which they are spawned, and a worker holds them by the ids of their outputs. A task
that finishes while `monitor` runs has finished before it, if it is found to be, or finishes after it.

* `Worker`, `Worker.new`, `Worker.monitor`, `Worker.stop`: as in the source; `next`: what may happen to a worker.
* `Accounted`: running tasks are held, `monitor` restarts what is missing, and `stop` reaches all of them.
* `Inv`, `Live`: what is known of the tasks that are held; `Refills`: what the loop of `monitor` does to them.
* **`accounted_iff`**: while the input runs this is so in every run, exactly if no two outputs have one id.
-/

namespace MyMuxer.Outputs

open Schedule Validation

/-! ## The worker -/

structure Worker where
  config : Stream
  outputs : AList fun _ : ℕ => ℕ
  /-- The output that each task was spawned for. -/
  spawned : List Validation.Output
  /-- `handle.is_finished()` of a task. -/
  finished : ℕ → Bool
  /-- The token of a task is cancelled. -/
  cancelled : ℕ → Bool
  remoteFinished : Bool
  remoteCancelled : Bool

namespace Worker

/-- `spawn_output` and `outputs.insert`. -/
def spawn (w : Worker) (output : Validation.Output) : Worker :=
  { w with outputs := w.outputs.insert output.id w.spawned.length, spawned := w.spawned ++ [output] }

/-- The worker before its loop over the outputs. -/
def remoteOnly (config : Stream) : Worker where
  config
  outputs := ∅
  spawned := []
  finished _ := false
  cancelled _ := false
  remoteFinished := false
  remoteCancelled := false

/-- The body of the loop of `new`. -/
def add (w : Worker) (output : Validation.Output) : Worker :=
  if isTaskTypeAllowed output.taskType then w.spawn output else w

def new (config : Stream) : Worker := config.outputs.foldl add (remoteOnly config)

/-- The token of every task that is held is cancelled. -/
def cancelAll (w : Worker) : Worker :=
  { w with cancelled := fun t => w.cancelled t || w.outputs.entries.any (·.2 == t) }

/-- `outputs.retain(..)`. -/
def retain (w : Worker) : Worker :=
  { w with
    outputs := ⟨w.outputs.entries.filter fun e => !w.finished e.2, w.outputs.nodupKeys.sublist List.filter_sublist⟩ }

/-- The body of the loop of `monitor`. -/
def restart (w : Worker) (output : Validation.Output) : Worker := if output.id ∈ w.outputs then w else w.add output

/-- Whether the input has finished, and the worker after it. -/
def monitor (w : Worker) : Bool × Worker :=
  if w.remoteFinished then (true, { w.cancelAll with outputs := ∅ })
  else (false, w.config.outputs.foldl restart w.retain)

/-- Each task that is held is cancelled, and aborted if it does not end in time. -/
def stop (w : Worker) : Worker :=
  { w.cancelAll with
    remoteCancelled := true
    outputs := ∅
    finished := fun t => w.finished t || w.outputs.entries.any (·.2 == t)
    remoteFinished := true }

end Worker

inductive Action where
  /-- A task finishes. -/
  | finish (t : ℕ)
  /-- The task of the input finishes. -/
  | finishRemote
  | monitor
  deriving DecidableEq

def next (w : Worker) : Action → Option Worker
  | .finish t => if t < w.spawned.length then some { w with finished := Function.update w.finished t true } else none
  | .finishRemote => some { w with remoteFinished := true }
  | .monitor => some w.monitor.2

/-! ## What is accounted for -/

def Running (w : Worker) (t : ℕ) : Prop := t < w.spawned.length ∧ w.finished t = false

def Held (w : Worker) (t : ℕ) : Prop := ∃ id, w.outputs.lookup id = some t

/-- After `monitor`, if it returns false, each output of an allowed type has a task that runs. -/
def Restarted (w : Worker) : Prop :=
  ∀ w', w.monitor = (false, w') → ∀ output ∈ w.config.outputs, isTaskTypeAllowed output.taskType →
    ∃ t, w'.outputs.lookup output.id = some t ∧ w'.spawned[t]? = some output ∧ Running w' t

structure Accounted (w : Worker) : Prop where
  held : ∀ t, Running w t → Held w t
  restarted : Restarted w
  stopped : ∀ t, Running w t → w.stop.cancelled t = true

/-- No pass of `monitor` finds the input finished. -/
def InputRuns (w : Worker) (a : Action) : Prop := a = .monitor → w.remoteFinished = false

instance (w : Worker) (a : Action) : Decidable (InputRuns w a) := by unfold InputRuns; infer_instance

variable {w w' : Worker} {config : Stream} {output : Validation.Output} {t id : ℕ}

theorem held_iff : Held w t ↔ w.outputs.entries.any (·.2 == t) = true := Table.exists_lookup

instance (w : Worker) (t : ℕ) : Decidable (Held w t) := decidable_of_iff _ held_iff.symm

/-- A task that is held is cancelled with the others. -/
theorem cancelAll_cancelled (h : Held w t) : w.cancelAll.cancelled t = true :=
  Bool.or_eq_true_iff.2 (.inr (held_iff.1 h))

theorem lookup_retain : w.retain.outputs.lookup id = some t ↔ w.outputs.lookup id = some t ∧ w.finished t = false :=
  Table.lookup_filter.trans (and_congr_right fun _ => by rw [Bool.not_eq_true'])

theorem lookup_spawn (w : Worker) (output : Validation.Output) (id : ℕ) : (w.spawn output).outputs.lookup id =
    if id = output.id then some w.spawned.length else w.outputs.lookup id := by
  split_ifs with h
  · subst h
    exact AList.lookup_insert _
  · exact AList.lookup_insert_ne h

/-! ## What is known of the tasks that are held -/

/-- A task that is held belongs to an output of its id, and no task is lost. -/
structure Inv (w : Worker) : Prop where
  named : ∀ id t, w.outputs.lookup id = some t →
    ∃ output ∈ w.config.outputs, isTaskTypeAllowed output.taskType ∧ output.id = id ∧ w.spawned[t]? = some output
  kept : ∀ t, Running w t → Held w t ∨ w.cancelled t = true
  fresh : ∀ t, w.spawned.length ≤ t → w.finished t = false

/-- The tasks that are held run. -/
def Live (w : Worker) : Prop := ∀ id t, w.outputs.lookup id = some t → w.finished t = false

theorem Inv.spawn (h : Inv w) (houtput : output ∈ w.config.outputs) (hallowed : isTaskTypeAllowed output.taskType)
    (hvacant : output.id ∉ w.outputs) : Inv (w.spawn output) where
  named id t ht := by
    rw [lookup_spawn] at ht
    split_ifs at ht with hid
    · cases ht
      exact ⟨output, houtput, hallowed, hid.symm, List.getElem?_concat_length⟩
    · obtain ⟨other, hother, hallowed', hid', hspawned⟩ := h.named id t ht
      exact ⟨other, hother, hallowed', hid',
        (List.getElem?_append_left (List.getElem?_eq_some_iff.1 hspawned).1).trans hspawned⟩
  kept t ht := by
    have hlt : t < w.spawned.length + 1 := by
      have := ht.1
      rwa [Worker.spawn, List.length_append] at this
    rcases Nat.lt_succ_iff_lt_or_eq.1 hlt with hlt | rfl
    · refine (h.kept t ⟨hlt, ht.2⟩).imp_left fun ⟨id, hid⟩ => ⟨id, ?_⟩
      have hne : id ≠ output.id := by
        rintro rfl
        rw [AList.lookup_eq_none.2 hvacant] at hid
        cases hid
      rw [lookup_spawn, if_neg hne]
      exact hid
    · exact .inl ⟨output.id, by rw [lookup_spawn, if_pos rfl]⟩
  fresh t ht := h.fresh t ((Nat.le_succ _).trans (by rwa [Worker.spawn, List.length_append] at ht))

theorem Live.spawn (h : Inv w) (hl : Live w) : Live (w.spawn output) := by
  intro id t ht
  rw [lookup_spawn] at ht
  split_ifs at ht
  · cases ht
    exact h.fresh _ le_rfl
  · exact hl id t ht

/-- What the loop of `monitor` does to the tasks: it adds some. -/
structure Refills (w w' : Worker) : Prop where
  config : w'.config = w.config
  cancelled : w'.cancelled = w.cancelled
  outputs : ∀ id ∈ w.outputs, id ∈ w'.outputs
  inv : Inv w → Inv w'
  live : Inv w → Live w → Live w'

theorem Refills.refl (w : Worker) : Refills w w := ⟨rfl, rfl, fun _ => id, id, fun _ => id⟩

theorem Refills.trans {w'' : Worker} (h : Refills w w') (h' : Refills w' w'') : Refills w w'' where
  config := h'.config.trans h.config
  cancelled := h'.cancelled.trans h.cancelled
  outputs id hid := h'.outputs id (h.outputs id hid)
  inv hi := h'.inv (h.inv hi)
  live hi hl := h'.live (h.inv hi) (h.live hi hl)

theorem restart_refills (houtput : output ∈ w.config.outputs) : Refills w (w.restart output) := by
  unfold Worker.restart Worker.add
  split_ifs with hvacant hallowed
  · exact .refl w
  · exact
      { config := rfl
        cancelled := rfl
        outputs := fun id hid => (AList.mem_insert _).2 (.inr hid)
        inv := fun h => h.spawn houtput hallowed hvacant
        live := fun h hl => hl.spawn h }
  · exact .refl w

theorem restart_mem (hallowed : isTaskTypeAllowed output.taskType) : output.id ∈ (w.restart output).outputs := by
  unfold Worker.restart Worker.add
  split_ifs with hmem
  · exact hmem
  · exact (AList.mem_insert _).2 (.inl rfl)

/-- **The loop of `monitor`**: afterwards every output of an allowed type has an entry. -/
theorem restartAll_refills (l : List Validation.Output) (hl : ∀ output ∈ l, output ∈ w.config.outputs) :
    Refills w (l.foldl Worker.restart w) ∧
      ∀ output ∈ l, isTaskTypeAllowed output.taskType → output.id ∈ (l.foldl Worker.restart w).outputs := by
  induction l generalizing w with
  | nil => exact ⟨.refl w, fun _ h => (nomatch h)⟩
  | cons output l ih =>
    obtain ⟨houtput, hl⟩ := List.forall_mem_cons.1 hl
    have hone := restart_refills houtput
    obtain ⟨hrest, hmem⟩ := @ih (w.restart output) fun o ho => hone.config ▸ hl o ho
    exact ⟨hone.trans hrest, List.forall_mem_cons.2 ⟨fun hallowed => hrest.outputs _ (restart_mem hallowed), hmem⟩⟩

/-! ## A new worker -/

/-- With one id for each output `new` does what `monitor` does. -/
theorem addAll_eq {l : List Validation.Output} (hids : (l.map (·.id)).Nodup)
    (hvacant : ∀ output ∈ l, output.id ∉ w.outputs) : l.foldl Worker.add w = l.foldl Worker.restart w := by
  induction l generalizing w with
  | nil => rfl
  | cons output l ih =>
    obtain ⟨hnot, hids⟩ := List.nodup_cons.1 hids
    obtain ⟨hout, hvacant⟩ := List.forall_mem_cons.1 hvacant
    have hone : w.restart output = w.add output := if_neg hout
    rw [List.foldl_cons, List.foldl_cons, hone]
    refine ih hids fun other hother hmem => ?_
    unfold Worker.add at hmem
    split_ifs at hmem
    · rcases (AList.mem_insert _).1 hmem with he | hmem
      · exact hnot (List.mem_map.2 ⟨other, hother, he⟩)
      · exact hvacant other hother hmem
    · exact hvacant other hother hmem

theorem remoteOnly_inv (config : Stream) : Inv (.remoteOnly config) where
  named _ _ ht := absurd ht (by simp [Worker.remoteOnly])
  kept t ht := absurd ht.1 (Nat.not_lt_zero t)
  fresh _ _ := rfl

theorem new_refills (hids : (config.outputs.map (·.id)).Nodup) : Refills (.remoteOnly config) (.new config) := by
  rw [Worker.new, addAll_eq hids fun _ _ => AList.notMem_empty _]
  exact (restartAll_refills config.outputs fun _ h => h).1

theorem add_of_allowed (h : isTaskTypeAllowed output.taskType) : w.add output = w.spawn output := if_pos h

theorem addAll_spawned (l : List Validation.Output) : (l.foldl Worker.add w).finished = w.finished ∧
    (l.foldl Worker.add w).spawned = w.spawned ++ l.filter (isTaskTypeAllowed ·.taskType) := by
  induction l generalizing w with
  | nil => exact ⟨rfl, (List.append_nil _).symm⟩
  | cons output l ih =>
    rw [List.foldl_cons, List.filter_cons]
    by_cases hallowed : isTaskTypeAllowed output.taskType = true
    · rw [add_of_allowed hallowed, if_pos hallowed, ih.1, ih.2, Worker.spawn, List.append_assoc]
      exact ⟨rfl, rfl⟩
    · have hskip : w.add output = w := if_neg hallowed
      rw [hskip, if_neg hallowed]
      exact ih

/-- An entry is of a task of its id. -/
def Named (w : Worker) : Prop := ∀ id t, w.outputs.lookup id = some t → w.spawned[t]?.map (·.id) = some id

theorem Named.spawn (h : Named w) (output : Validation.Output) : Named (w.spawn output) := by
  intro id t ht
  rw [lookup_spawn] at ht
  split_ifs at ht with hid
  · cases ht
    rw [Worker.spawn, List.getElem?_concat_length, hid]
    rfl
  · have hname := h id t ht
    obtain ⟨other, hother, -⟩ := Option.map_eq_some_iff.1 hname
    rwa [Worker.spawn, List.getElem?_append_left (List.getElem?_eq_some_iff.1 hother).1]

theorem addAll_named (l : List Validation.Output) (h : Named w) : Named (l.foldl Worker.add w) := by
  induction l generalizing w with
  | nil => exact h
  | cons output l ih =>
    refine ih ?_
    unfold Worker.add
    split_ifs
    · exact h.spawn output
    · exact h

/-- **Two outputs with one id share an entry**: where every task of a new worker is held, there are none. -/
theorem nodup_of_held (hallowed : config.Allowed) (h : ∀ t, Running (.new config) t → Held (.new config) t) :
    (config.outputs.map (·.id)).Nodup := by
  have hall : config.outputs.filter (isTaskTypeAllowed ·.taskType) = config.outputs := List.filter_eq_self.2 hallowed.2
  obtain ⟨hfinished, hspawned⟩ : (Worker.new config).finished = (fun _ => false) ∧
      (Worker.new config).spawned = [] ++ config.outputs.filter (isTaskTypeAllowed ·.taskType) :=
    addAll_spawned config.outputs
  have hnamed : Named (.new config) := addAll_named config.outputs fun _ _ h => absurd h (by simp [Worker.remoteOnly])
  rw [hall, List.nil_append] at hspawned
  have hentry (t : ℕ) (output : Validation.Output) (ht : config.outputs[t]? = some output) :
      (Worker.new config).outputs.lookup output.id = some t := by
    obtain ⟨id, hid⟩ := h t ⟨hspawned ▸ (List.getElem?_eq_some_iff.1 ht).1, congrFun hfinished t⟩
    have hname := hnamed id t hid
    rw [hspawned, ht] at hname
    have he : output.id = id := Option.some.inj hname
    rwa [he]
  rw [List.nodup_iff_pairwise_ne, List.pairwise_iff_getElem]
  intro i j hi hj hij he
  rw [List.getElem_map, List.getElem_map] at he
  have hi' := hentry i _ (List.getElem?_eq_getElem (by rwa [List.length_map] at hi))
  have hj' := hentry j _ (List.getElem?_eq_getElem (by rwa [List.length_map] at hj))
  rw [he, hj'] at hi'
  exact hij.ne' (Option.some.inj hi')

/-! ## Steps -/

theorem Inv.retain (h : Inv w) : Inv w.retain where
  named id t ht := h.named id t (lookup_retain.1 ht).1
  kept t ht := (h.kept t ht).imp_left fun ⟨id, hid⟩ => ⟨id, lookup_retain.2 ⟨hid, ht.2⟩⟩
  fresh := h.fresh

theorem retain_live (w : Worker) : Live w.retain := fun _ _ ht => (lookup_retain.1 ht).2

theorem monitor_eq (h : w.remoteFinished = false) :
    w.monitor = (false, w.config.outputs.foldl Worker.restart w.retain) := by
  rw [Worker.monitor, if_neg (by rw [h]; exact Bool.false_ne_true)]

/-- **What can happen**: a task finishes, or the input; `monitor` gives all up, or refills what it keeps. -/
theorem next_cases {a : Action} (hs : next w a = some w') :
    (∃ t < w.spawned.length, w' = { w with finished := Function.update w.finished t true }) ∨
    w' = { w with remoteFinished := true } ∨
    (a = .monitor ∧ w.remoteFinished = true ∧ w' = { w.cancelAll with outputs := ∅ }) ∨
    Refills w.retain w' := by
  cases a with
  | finish t =>
    rw [next] at hs
    split_ifs at hs with hlt
    exact .inl ⟨t, hlt, (Option.some.inj hs).symm⟩
  | finishRemote => exact .inr (.inl (Option.some.inj hs).symm)
  | monitor =>
    cases hs
    cases hremote : w.remoteFinished with
    | true =>
      rw [Worker.monitor, if_pos hremote]
      exact .inr (.inr (.inl ⟨rfl, rfl, rfl⟩))
    | false =>
      rw [monitor_eq hremote]
      exact .inr (.inr (.inr (@restartAll_refills w.retain w.config.outputs fun _ h => h).1))

/-- A running task is cancelled with the others, if it has not been before. -/
theorem Inv.cancelAll (h : Inv w) (ht : Running w t) : w.cancelAll.cancelled t = true := by
  rcases h.kept t ht with hheld | hcancelled
  · exact cancelAll_cancelled hheld
  · exact Bool.or_eq_true_iff.2 (.inl hcancelled)

theorem Inv.finish (h : Inv w) (ht : t < w.spawned.length) :
    Inv { w with finished := Function.update w.finished t true } := by
  refine ⟨h.named, fun u ⟨hlt, hu⟩ => ?_, fun u hu => ?_⟩
  · change Function.update w.finished t true u = false at hu
    rw [Function.update_apply] at hu
    split_ifs at hu
    exact h.kept u ⟨hlt, hu⟩
  · change Function.update w.finished t true u = false
    rw [Function.update_of_ne (Nat.ne_of_gt (ht.trans_le hu))]
    exact h.fresh u hu

/-- **Every step keeps the invariant**, and the configuration. -/
theorem Inv.next {a : Action} (h : Inv w) (hs : next w a = some w') : Inv w' ∧ w'.config = w.config := by
  obtain ⟨t, ht, rfl⟩ | rfl | ⟨-, -, rfl⟩ | hrefills := next_cases hs
  · exact ⟨h.finish ht, rfl⟩
  · exact ⟨⟨h.named, h.kept, h.fresh⟩, rfl⟩
  · exact ⟨⟨fun id t ht => absurd ht (by simp), fun t ht => .inr (h.cancelAll ht), h.fresh⟩, rfl⟩
  · exact ⟨hrefills.inv h.retain, hrefills.config⟩

/-- While the input runs nothing is cancelled. -/
theorem uncancelled_next {a : Action} (h : ∀ t, w.cancelled t = false) (hs : next w a = some w') (ha : InputRuns w a) :
    ∀ t, w'.cancelled t = false := by
  obtain ⟨t, -, rfl⟩ | rfl | ⟨hmonitor, hremote, -⟩ | hrefills := next_cases hs
  · exact h
  · exact h
  · cases hremote.symm.trans (ha hmonitor)
  · exact fun t => (congrFun hrefills.cancelled t).trans (h t)

/-- **With one id for each output `monitor` restarts all that have finished.** -/
theorem Inv.restarted (h : Inv w) (hids : (w.config.outputs.map (·.id)).Nodup) : Restarted w := by
  intro w' hmonitor output houtput hallowed
  have hremote : w.remoteFinished = false := by
    by_contra htrue
    rw [Worker.monitor, if_pos (Bool.eq_true_of_not_eq_false htrue)] at hmonitor
    cases hmonitor
  obtain ⟨hrefills, hmem⟩ := @restartAll_refills w.retain w.config.outputs fun _ h => h
  rw [monitor_eq hremote] at hmonitor
  cases hmonitor
  obtain ⟨t, ht⟩ := Table.mem_iff.1 (hmem output houtput hallowed)
  -- the entry is of an output with this id, and there is no other
  obtain ⟨other, hother, -, hid, hspawned⟩ := (hrefills.inv h.retain).named output.id t ht
  rw [hrefills.config] at hother
  obtain rfl : other = output := List.inj_on_of_nodup_map hids hother houtput hid
  exact ⟨t, ht, hspawned, (List.getElem?_eq_some_iff.1 hspawned).1, hrefills.live h.retain (retain_live w) _ t ht⟩

/-! ## Runs -/

/-- **With one id for each output a run keeps the invariant**, and cancels nothing while the input runs. -/
theorem run_inv (hids : (config.outputs.map (·.id)).Nodup) {as : List Action}
    (hrun : run next (.new config) as = some w) :
    (Inv w ∧ w.config = config) ∧ (Along next InputRuns (.new config) as → ∀ t, w.cancelled t = false) := by
  have hnew := new_refills hids
  refine ⟨?_, invariant (fun hn hs ha => uncancelled_next hn hs ha) (congrFun hnew.cancelled) hrun⟩
  exact run_invariant (I := fun w => Inv w ∧ w.config = config)
    (fun ⟨hi, hc⟩ hs => ⟨(hi.next hs).1, (hi.next hs).2.trans hc⟩) ⟨hnew.inv (remoteOnly_inv config), hnew.config⟩ hrun

/-- **Exactly if no two outputs have one id, every run of a worker whose input runs has all running tasks accounted
for**; and in the other runs the tasks that are held no more have been cancelled. -/
theorem accounted_iff {cfg : Config} (hvalid : validateConfig cfg = .ok ()) (hstream : config ∈ cfg.streams) :
    ((∀ as w, run next (.new config) as = some w → Along next InputRuns (.new config) as → Accounted w) ↔
      (config.outputs.map (·.id)).Nodup) ∧
    ((config.outputs.map (·.id)).Nodup → ∀ as w, run next (.new config) as = some w →
      (∀ t, Running w t → Held w t ∨ w.cancelled t = true) ∧ Restarted w ∧
        ∀ t, Running w t → w.stop.cancelled t = true) := by
  have hallowed := (validateConfig_eq_ok cfg).1 hvalid config hstream
  refine ⟨⟨fun h => ?_, fun hids as w hrun halong => ?_⟩, fun hids as w hrun => ?_⟩
  · exact nodup_of_held hallowed (h [] (.new config) rfl trivial).held
  · obtain ⟨⟨hinv, hconfig⟩, huncancelled⟩ := run_inv hids hrun
    refine ⟨fun t ht => (hinv.kept t ht).resolve_right fun hcancelled => ?_, hinv.restarted (hconfig ▸ hids), fun _ =>
      hinv.cancelAll⟩
    rw [huncancelled halong t] at hcancelled
    cases hcancelled
  · obtain ⟨⟨hinv, hconfig⟩, -⟩ := run_inv hids hrun
    exact ⟨hinv.kept, hinv.restarted (hconfig ▸ hids), fun _ => hinv.cancelAll⟩

/-- A stream with two outputs. -/
def twoOutputs (first second : ℕ) : Stream where
  id := 1
  taskType := "udp"
  outputs := [⟨first, "udp"⟩, ⟨second, "udp"⟩]

theorem accounted_two : ∃ w, run next (.new (twoOutputs 1 2)) [.finish 0, .monitor, .finish 1] = some w ∧
    Accounted w ∧ Held w 2 ∧ w.finished 2 = false := by
  have hvalid : validateConfig { streams := [twoOutputs 1 2] } = .ok () := rfl
  have hids : ((twoOutputs 1 2).outputs.map (·.id)).Nodup := by decide
  have halong : Along next InputRuns (.new (twoOutputs 1 2)) [.finish 0, .monitor, .finish 1] := by decide
  have haccounted := (accounted_iff hvalid List.mem_cons_self).1.2 hids [.finish 0, .monitor, .finish 1] _ rfl halong
  exact ⟨_, rfl, haccounted, ⟨1, rfl⟩, rfl⟩

/-- The entry of the first task is overwritten: it runs, and `stop` does not reach it. -/
theorem unaccounted_same_id : validateConfig { streams := [twoOutputs 1 1] } = .ok () ∧
    Running (.new (twoOutputs 1 1)) 0 ∧ ¬ Held (.new (twoOutputs 1 1)) 0 ∧
    (Worker.new (twoOutputs 1 1)).stop.cancelled 0 = false := by
  exact ⟨rfl, ⟨by decide, rfl⟩, by decide, by decide⟩

end MyMuxer.Outputs
