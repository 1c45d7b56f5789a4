import MyMuxer.Lib.Calls
import MyMuxer.Lib.Schedule
import Mathlib.Tactic

/-!
# The dirty status of a worker (`workers/mod.rs`)

`mark_dirty`, `unmark_dirty`, `cmd_unmark_dirty` and `cmd_unmark_dirty_now`, called by the tasks of one
worker on the `WorkerStatus` and the API channel they share; each read, write and send is one step.

* `Worker`, `Pc`: the shared state, and where a call is.
* `stepPc`, `next`: one step of a call; new calls, and time that passes.
* `Serial`: the writes of marking and unmarking calls do not overlap, and the commands go out in the order
  in which the flag was written.
* `Agree`: the invariant of runs with this condition.
* **`told_when_quiet`**, and `told_otherwise` without the condition.
-/

namespace MyMuxer.Dirty

open Calls Schedule

/-- `DIRTY_TIMEOUT_SEC`, in nanoseconds. -/
def dirtyTimeout : ℕ := 30 * 10 ^ 9

structure WorkerStatus where
  dirty : Bool
  lastDirtyTime : Option ℕ
  unmarkMessage : Option String

inductive Cmd where
  | markDirty
  | unMarkDirty
  deriving DecidableEq

/-- The levels of the messages that these calls log. -/
inductive LogLevels where
  | info
  | warn
  deriving DecidableEq

/-- A task's own handle on the status and the channel. -/
structure Helper where
  workerId : ℕ
  outputId : ℕ

inductive ApiMessage where
  | log (helper : Helper) (message : String) (level : LogLevels)
  | cmd (helper : Helper) (cmd : Cmd)

/-- What the calls share; `now` is what `Instant::now()` reads. -/
structure Worker where
  status : WorkerStatus
  sent : List ApiMessage
  now : ℕ

/-- Where a call is. -/
inductive Pc where
  /-- `mark_dirty`, before `set_last_dirty_time(Some(..))`. -/
  | timing (message : String)
  /-- Before `is_dirty()`. -/
  | reading (message : String)
  /-- `cmd_mark_dirty`, before `set_dirty(true)`. -/
  | setting (message : String)
  /-- Before `send_cmd(Cmd::MarkDirty)`. -/
  | sendingMark (message : String)
  /-- Before `log_warn(message)`. -/
  | warning (message : String)
  /-- `cmd_unmark_dirty`, before `get_last_dirty_time()`. -/
  | checking
  /-- `cmd_unmark_dirty_now`, before `set_dirty(false)`. -/
  | clearing
  /-- Before `set_last_dirty_time(None)`. -/
  | forgetting
  /-- Before `send_cmd(Cmd::UnMarkDirty)`. -/
  | sendingUnmark
  /-- Before `get_unmark_message()`. -/
  | recalling
  /-- Before `log_info(&message)`. -/
  | informing (message : String)
  /-- Before `set_unmark_message(None)`. -/
  | resetting
  /-- `unmark_dirty`, before `set_unmark_message(Some(..))`. -/
  | noting (message : String)
  | done
  deriving DecidableEq

structure Call where
  helper : Helper
  pc : Pc

/-- One step of a call. -/
def stepPc (s : Worker) (helper : Helper) : Pc → Option (Worker × Pc)
  | .timing message => some ({ s with status.lastDirtyTime := some s.now }, .reading message)
  | .reading message => some (s, if s.status.dirty then .done else .setting message)
  | .setting message => some ({ s with status.dirty := true }, .sendingMark message)
  | .sendingMark message => some ({ s with sent := s.sent ++ [.cmd helper .markDirty] }, .warning message)
  | .warning message => some ({ s with sent := s.sent ++ [.log helper message .warn] }, .done)
  | .checking =>
    match s.status.lastDirtyTime with
    | some time => some (s, if s.now - time > dirtyTimeout then .clearing else .done)
    | none => some (s, .done)
  | .clearing => some ({ s with status.dirty := false }, .forgetting)
  | .forgetting => some ({ s with status.lastDirtyTime := none }, .sendingUnmark)
  | .sendingUnmark => some ({ s with sent := s.sent ++ [.cmd helper .unMarkDirty] }, .recalling)
  | .recalling =>
    match s.status.unmarkMessage with
    | some message => some (s, .informing message)
    | none => some (s, .done)
  | .informing message => some ({ s with sent := s.sent ++ [.log helper message .info] }, .resetting)
  | .resetting => some ({ s with status.unmarkMessage := none }, .done)
  | .noting message => some ({ s with status.unmarkMessage := some message }, .done)
  | .done => none

def stepCall (s : Worker) (_t : ℕ) (call : Call) (_ : Unit) : Option (Worker × Call) :=
  (stepPc s call.helper call.pc).map fun (s, pc) => (s, { call with pc })

inductive Action where
  | markDirty (helper : Helper) (message : String)
  | unmarkDirty (helper : Helper) (message : String)
  | cmdUnmarkDirty (helper : Helper)
  | cmdUnmarkDirtyNow (helper : Helper)
  /-- Call number `t` takes its next step. -/
  | run (t : ℕ)
  /-- Time passes. -/
  | tick (ns : ℕ)

abbrev State : Type := Cfg Worker Call

def next (c : State) : Action → Option State
  | .markDirty helper message => some (c.request [{ helper, pc := .timing message }])
  | .unmarkDirty helper message => some (c.request [{ helper, pc := .noting message }])
  | .cmdUnmarkDirty helper => some (c.request [{ helper, pc := .checking }])
  | .cmdUnmarkDirtyNow helper => some (c.request [{ helper, pc := .clearing }])
  | .run t => c.run stepCall t ()
  | .tick ns => some { c with shared := { c.shared with now := c.shared.now + ns } }

/-- `Helper::new`, and a channel that nothing was sent on. -/
def new : State where
  shared := { status := { dirty := false, lastDirtyTime := none, unmarkMessage := none }, sent := [], now := 0 }
  calls := []

def ApiMessage.cmd? : ApiMessage → Option Cmd
  | .log .. => none
  | .cmd _ command => some command

/-- The last command sent. -/
def Worker.lastCmd (s : Worker) : Option Cmd := (s.sent.filterMap ApiMessage.cmd?).getLast?

/-! ## What a run may rely on -/

/-- The command that tells the server a value of the flag. -/
def cmdOf (dirty : Bool) : Cmd := if dirty then .markDirty else .unMarkDirty

/-- The command that a call has yet to send, once it has written the flag. -/
def Pc.pending : Pc → Option Cmd
  | .sendingMark _ => some .markDirty
  | .forgetting | .sendingUnmark => some .unMarkDirty
  | _ => none

/-- The call has written the time, and not yet the flag. -/
def Pc.marking : Pc → Bool
  | .reading _ | .setting _ => true
  | _ => false

/-- The two writes of marking calls and those of unmarking calls do not overlap, and where a command that
agrees with the flag is sent, no call that wrote the other value has its command still to send. -/
def Serial (c : State) : Action → Prop
  | .run t =>
    match c.calls[t]?.map Call.pc with
    | some .clearing => ∀ call ∈ c.calls, call.pc.marking = false
    | some (.timing _) => ∀ call ∈ c.calls, call.pc ≠ .forgetting
    | some (.sendingMark _) =>
      c.shared.status.dirty = true → ∀ call ∈ c.calls, call.pc.pending ≠ some .unMarkDirty
    | some .sendingUnmark =>
      c.shared.status.dirty = false → ∀ call ∈ c.calls, call.pc.pending ≠ some .markDirty
    | _ => True
  | _ => True

instance (c : State) (a : Action) : Decidable (Serial c a) := by
  unfold Serial
  split
  · split <;> infer_instance
  · infer_instance

/-! ## The invariant -/

variable {c c' : State} {a : Action} {s s' : Worker} {t : ℕ} {call : Call} {pc pc' : Pc}

/-- The server has been told the flag, or a call is about to tell it. -/
def Told (c : State) : Prop :=
  (∃ call ∈ c.calls, call.pc.pending = some (cmdOf c.shared.status.dirty)) ∨
    c.shared.lastCmd.getD .unMarkDirty = cmdOf c.shared.status.dirty ∧
      ∀ call ∈ c.calls, call.pc.pending ≠ some (cmdOf !c.shared.status.dirty)

structure Agree (c : State) : Prop where
  told : Told c
  apart : ∀ p ∈ c.calls, ∀ q ∈ c.calls, p.pc.marking = true → q.pc ≠ .forgetting
  timed : ∀ p ∈ c.calls, p.pc.marking = true → c.shared.status.lastDirtyTime.isSome
  cleared : ∀ p ∈ c.calls, p.pc = .forgetting → c.shared.status.dirty = false
  dated : c.shared.status.dirty = true → c.shared.status.lastDirtyTime.isSome

theorem agree_new : Agree new where
  told := .inr ⟨rfl, fun _ h => absurd h List.not_mem_nil⟩
  apart _ h := absurd h List.not_mem_nil
  timed _ h := absurd h List.not_mem_nil
  cleared _ h := absurd h List.not_mem_nil
  dated h := by cases h

theorem lastCmd_cmd (s : Worker) (helper : Helper) (cmd : Cmd) :
    Worker.lastCmd { s with sent := s.sent ++ [.cmd helper cmd] } = some cmd := by
  simp [Worker.lastCmd, ApiMessage.cmd?]

theorem lastCmd_log (s : Worker) (helper : Helper) (message : String) (level : LogLevels) :
    Worker.lastCmd { s with sent := s.sent ++ [.log helper message level] } = s.lastCmd := by
  simp [Worker.lastCmd, ApiMessage.cmd?]

/-- A step that neither writes the flag nor the time nor sends a command, and does not begin to mark. -/
structure Plain (s : Worker) (pc : Pc) (s' : Worker) (pc' : Pc) : Prop where
  dirty : s'.status.dirty = s.status.dirty
  time : s'.status.lastDirtyTime = s.status.lastDirtyTime
  lastCmd : s'.lastCmd = s.lastCmd
  pending : pc.pending = none
  pending' : pc'.pending = none
  marking' : pc'.marking = false

/-- What a step does: a write of the time or the flag, a command, or nothing that matters here. -/
inductive Effect (s : Worker) (helper : Helper) : Pc → Worker → Pc → Prop where
  | times (m : String) : Effect s helper (.timing m) { s with status.lastDirtyTime := some s.now } (.reading m)
  | reads (m : String) : Effect s helper (.reading m) s (if s.status.dirty then .done else .setting m)
  | sets (m : String) : Effect s helper (.setting m) { s with status.dirty := true } (.sendingMark m)
  | sendsMark (m : String) :
      Effect s helper (.sendingMark m) { s with sent := s.sent ++ [.cmd helper .markDirty] } (.warning m)
  | clears : Effect s helper .clearing { s with status.dirty := false } .forgetting
  | forgets : Effect s helper .forgetting { s with status.lastDirtyTime := none } .sendingUnmark
  | sendsUnmark :
      Effect s helper .sendingUnmark { s with sent := s.sent ++ [.cmd helper .unMarkDirty] } .recalling
  | plain {pc pc' : Pc} {s' : Worker} : Plain s pc s' pc' → Effect s helper pc s' pc'

theorem effect_of_step {helper : Helper} (h : stepPc s helper pc = some (s', pc')) : Effect s helper pc s' pc' := by
  cases pc with
  | timing m => cases h; exact .times m
  | reading m => cases h; exact .reads m
  | setting m => cases h; exact .sets m
  | sendingMark m => cases h; exact .sendsMark m
  | clearing => cases h; exact .clears
  | forgetting => cases h; exact .forgets
  | sendingUnmark => cases h; exact .sendsUnmark
  | warning m => cases h; exact .plain ⟨rfl, rfl, lastCmd_log .., rfl, rfl, rfl⟩
  | informing m => cases h; exact .plain ⟨rfl, rfl, lastCmd_log .., rfl, rfl, rfl⟩
  | checking =>
    simp only [stepPc] at h
    split at h <;> cases h
    · split_ifs <;> exact .plain ⟨rfl, rfl, rfl, rfl, rfl, rfl⟩
    · exact .plain ⟨rfl, rfl, rfl, rfl, rfl, rfl⟩
  | recalling =>
    simp only [stepPc] at h
    split at h <;> cases h <;> exact .plain ⟨rfl, rfl, rfl, rfl, rfl, rfl⟩
  | resetting => cases h; exact .plain ⟨rfl, rfl, rfl, rfl, rfl, rfl⟩
  | noting m => cases h; exact .plain ⟨rfl, rfl, rfl, rfl, rfl, rfl⟩
  | done => cases h

/-! ### What the server is told -/

/-- A step that leaves the flag and what is to be sent as they are. -/
theorem Told.keep (h : Told c) (hcall : c.calls[t]? = some call) {call' : Call}
    (hdirty : s.status.dirty = c.shared.status.dirty) (hlast : s.lastCmd = c.shared.lastCmd)
    (hpending : call'.pc.pending = call.pc.pending) :
    Told { shared := s, calls := c.calls.set t call' } := by
  unfold Told
  simp only [hdirty, hlast]
  refine h.imp ?_ (And.imp_right fun hnone q hq => ?_)
  · rintro ⟨q, hq, hp⟩
    by_cases hqc : q = call
    · subst hqc
      exact ⟨call', mem_set_self hcall, hpending.trans hp⟩
    · exact ⟨q, mem_set_of_ne hcall hq hqc, hp⟩
  · rcases mem_set hcall hq with rfl | ⟨u, -, hu⟩
    · rw [hpending]
      exact hnone call (List.mem_of_getElem? hcall)
    · exact hnone q (List.mem_of_getElem? hu)

/-- A step that writes the flag is about to tell it. -/
theorem Told.write (hcall : c.calls[t]? = some call) {call' : Call}
    (hpending : call'.pc.pending = some (cmdOf s.status.dirty)) :
    Told { shared := s, calls := c.calls.set t call' } := .inl ⟨call', mem_set_self hcall, hpending⟩

theorem cmdOf_of_ne {cmd : Cmd} {dirty : Bool} (h : cmd ≠ cmdOf dirty) : cmd = cmdOf !dirty := by
  cases cmd <;> cases dirty <;> first | rfl | exact absurd rfl h

/-- A command that agrees with the flag is the last one to be sent; one that does not is followed. -/
theorem Told.send (h : Told c) (hcall : c.calls[t]? = some call) {call' : Call} {cmd : Cmd}
    (hdirty : s.status.dirty = c.shared.status.dirty) (hlast : s.lastCmd = some cmd)
    (hpending : call.pc.pending = some cmd) (hpending' : call'.pc.pending = none)
    (hserial : cmd = cmdOf c.shared.status.dirty →
      ∀ q ∈ c.calls, q.pc.pending ≠ some (cmdOf !c.shared.status.dirty)) :
    Told { shared := s, calls := c.calls.set t call' } := by
  unfold Told
  simp only [hdirty, hlast, Option.getD_some]
  by_cases hcmd : cmd = cmdOf c.shared.status.dirty
  · refine .inr ⟨hcmd, fun q hq => ?_⟩
    rcases mem_set hcall hq with rfl | ⟨u, -, hu⟩
    · rw [hpending']
      simp
    · exact hserial hcmd q (List.mem_of_getElem? hu)
  · left
    rcases h with ⟨q, hq, hp⟩ | ⟨-, hnone⟩
    · refine ⟨q, mem_set_of_ne hcall hq ?_, hp⟩
      rintro rfl
      exact hcmd (Option.some.inj (hpending.symm.trans hp))
    · refine absurd ?_ (hnone call (List.mem_of_getElem? hcall))
      rw [hpending, cmdOf_of_ne hcmd]

/-- **Every serial step keeps what the server is told.** -/
theorem Agree.told_step (h : Agree c) (hcall : c.calls[t]? = some call)
    (he : Effect c.shared call.helper call.pc s pc') (hs : Serial c (.run t)) :
    Told { shared := s, calls := c.calls.set t { call with pc := pc' } } := by
  obtain ⟨helper, pc⟩ := call
  simp only [Serial, hcall, Option.map_some] at hs
  cases he with
  | times m => exact h.told.keep hcall rfl rfl rfl
  | reads m => exact h.told.keep hcall rfl rfl (by split_ifs <;> rfl)
  | sets m => exact Told.write hcall rfl
  | sendsMark m =>
    refine h.told.send hcall rfl (lastCmd_cmd ..) rfl rfl fun hcmd => ?_
    cases hd : c.shared.status.dirty with
    | true => exact hs hd
    | false => rw [hd] at hcmd; cases hcmd
  | clears => exact Told.write hcall rfl
  | forgets => exact h.told.keep hcall rfl rfl rfl
  | sendsUnmark =>
    refine h.told.send hcall rfl (lastCmd_cmd ..) rfl rfl fun hcmd => ?_
    cases hd : c.shared.status.dirty with
    | false => exact hs hd
    | true => rw [hd] at hcmd; cases hcmd
  | plain p => exact h.told.keep hcall p.dirty p.lastCmd (p.pending'.trans p.pending.symm)

/-! ### The time of a set flag -/

/-- Only a step that writes the time begins to mark, and only one that clears the flag is before
`set_last_dirty_time(None)`. -/
theorem Effect.marking' {helper : Helper} (he : Effect s helper pc s' pc') (h : pc'.marking = true) :
    pc.marking = true ∨ ∃ m, pc = .timing m := by
  cases he with
  | times m => exact .inr ⟨m, rfl⟩
  | reads m => exact .inl rfl
  | plain p => exact absurd (h.symm.trans p.marking') (by decide)
  | sets m => cases h
  | sendsMark m => cases h
  | clears => cases h
  | forgets => cases h
  | sendsUnmark => cases h

theorem Effect.forgetting' {helper : Helper} (he : Effect s helper pc s' pc') (h : pc' = .forgetting) :
    pc = .clearing := by
  cases he with
  | clears => rfl
  | reads m => split_ifs at h
  | plain p =>
    subst h
    exact absurd p.pending' (by decide)
  | times m => cases h
  | sets m => cases h
  | sendsMark m => cases h
  | forgets => cases h
  | sendsUnmark => cases h

theorem Agree.apart_step (h : Agree c) (hcall : c.calls[t]? = some call)
    (he : Effect c.shared call.helper call.pc s pc') (hs : Serial c (.run t)) :
    ∀ p ∈ c.calls.set t { call with pc := pc' }, ∀ q ∈ c.calls.set t { call with pc := pc' },
      p.pc.marking = true → q.pc ≠ .forgetting := by
  have hmem := List.mem_of_getElem? hcall
  simp only [Serial, hcall, Option.map_some] at hs
  intro p hp q hq hmarking hforgetting
  rcases mem_set hcall hp with rfl | ⟨u, -, hu⟩ <;> rcases mem_set hcall hq with rfl | ⟨v, -, hv⟩
  · rw [show pc' = .forgetting from hforgetting] at hmarking
    cases hmarking
  · rcases he.marking' hmarking with hold | ⟨m, htiming⟩
    · exact h.apart call hmem q (List.mem_of_getElem? hv) hold hforgetting
    · rw [htiming] at hs
      exact hs q (List.mem_of_getElem? hv) hforgetting
  · rw [he.forgetting' hforgetting] at hs
    exact absurd (hmarking.symm.trans (hs p (List.mem_of_getElem? hu))) (by decide)
  · exact h.apart p (List.mem_of_getElem? hu) q (List.mem_of_getElem? hv) hmarking hforgetting

/-- The time is forgotten while no call marks. -/
theorem Agree.timed_step (h : Agree c) (hcall : c.calls[t]? = some call)
    (he : Effect c.shared call.helper call.pc s pc') :
    ∀ p ∈ c.calls.set t { call with pc := pc' }, p.pc.marking = true → s.status.lastDirtyTime.isSome := by
  have hmem := List.mem_of_getElem? hcall
  have hkeep : (∀ p ∈ c.calls, p.pc.marking = false) ∨ s.status.lastDirtyTime = c.shared.status.lastDirtyTime ∨
      s.status.lastDirtyTime.isSome := by
    obtain ⟨helper, pc⟩ := call
    cases he with
    | times m => exact .inr (.inr rfl)
    | forgets => exact .inl fun p hp => by_contra fun hne => h.apart p hp _ hmem (by simpa using hne) rfl
    | plain p => exact .inr (.inl p.time)
    | reads m => exact .inr (.inl rfl)
    | sets m => exact .inr (.inl rfl)
    | sendsMark m => exact .inr (.inl rfl)
    | clears => exact .inr (.inl rfl)
    | sendsUnmark => exact .inr (.inl rfl)
  have hold : ∀ p ∈ c.calls, p.pc.marking = true → s.status.lastDirtyTime.isSome := by
    intro p hp hmarking
    rcases hkeep with hnone | htime | hsome
    · exact absurd (hmarking.symm.trans (hnone p hp)) (by decide)
    · rw [htime]
      exact h.timed p hp hmarking
    · exact hsome
  intro p hp hmarking
  rcases mem_set hcall hp with rfl | ⟨u, -, hu⟩
  · rcases he.marking' hmarking with hmark | ⟨m, htiming⟩
    · exact hold call hmem hmark
    · rw [htiming] at he
      cases he with
      | times => rfl
      | plain p => exact absurd (hmarking.symm.trans p.marking') (by decide)
  · exact hold p (List.mem_of_getElem? hu) hmarking

/-- The flag is set while no call is between clearing it and forgetting the time. -/
theorem Agree.cleared_step (h : Agree c) (hcall : c.calls[t]? = some call)
    (he : Effect c.shared call.helper call.pc s pc') :
    ∀ p ∈ c.calls.set t { call with pc := pc' }, p.pc = .forgetting → s.status.dirty = false := by
  have hmem := List.mem_of_getElem? hcall
  intro p hp hforgetting
  rcases mem_set hcall hp with rfl | ⟨u, -, hu⟩
  · have hclearing := he.forgetting' hforgetting
    rw [hclearing] at he
    cases he with
    | clears => rfl
    | plain p =>
      subst hforgetting
      exact absurd p.pending' (by decide)
  · have hold := h.cleared p (List.mem_of_getElem? hu) hforgetting
    obtain ⟨helper, pc⟩ := call
    cases he with
    | sets m => exact absurd hforgetting (h.apart _ hmem p (List.mem_of_getElem? hu) rfl)
    | clears => rfl
    | plain p => exact p.dirty.trans hold
    | times m => exact hold
    | reads m => exact hold
    | sendsMark m => exact hold
    | forgets => exact hold
    | sendsUnmark => exact hold

theorem Agree.dated_step (h : Agree c) (hmem : call ∈ c.calls)
    (he : Effect c.shared call.helper call.pc s pc') (hdirty : s.status.dirty = true) :
    s.status.lastDirtyTime.isSome := by
  obtain ⟨helper, pc⟩ := call
  cases he with
  | times m => rfl
  | sets m => exact h.timed _ hmem rfl
  | clears => cases hdirty
  | forgets => exact absurd (hdirty.symm.trans (h.cleared _ hmem rfl)) (by decide)
  | plain p =>
    rw [p.time]
    exact h.dated (p.dirty.symm.trans hdirty)
  | reads m => exact h.dated hdirty
  | sendsMark m => exact h.dated hdirty
  | sendsUnmark => exact h.dated hdirty

/-! ## Steps and runs -/

/-- A new call has neither written anything nor is it about to send a command. -/
theorem Agree.request (h : Agree c) (hp : call.pc.pending = none) (hm : call.pc.marking = false) :
    Agree (c.request [call]) := by
  have hmem : ∀ {q : Call}, q ∈ (c.request [call]).calls → q ∈ c.calls ∨ q = call := by
    intro q hq
    simpa [Cfg.request] using hq
  have hf : call.pc ≠ .forgetting := by
    intro hf
    rw [hf] at hp
    cases hp
  refine ⟨?_, ?_, ?_, ?_, h.dated⟩
  · refine h.told.imp (fun ⟨q, hq, hq'⟩ => ⟨q, List.mem_append_left _ hq, hq'⟩) (And.imp_right ?_)
    intro hnone q hq
    rcases hmem hq with hq | rfl
    · exact hnone q hq
    · simp [hp]
  · intro p hp' q hq hmarking
    rcases hmem hq with hq | rfl
    · rcases hmem hp' with hp' | rfl
      · exact h.apart p hp' q hq hmarking
      · exact absurd (hmarking.symm.trans hm) (by decide)
    · exact hf
  · intro p hp' hmarking
    rcases hmem hp' with hp' | rfl
    · exact h.timed p hp' hmarking
    · exact absurd (hmarking.symm.trans hm) (by decide)
  · intro p hp' hforgetting
    rcases hmem hp' with hp' | rfl
    · exact h.cleared p hp' hforgetting
    · exact absurd hforgetting hf

/-- **Every step that meets the condition keeps the invariant.** -/
theorem Agree.next (h : Agree c) (hn : next c a = some c') (hs : Serial c a) : Agree c' := by
  cases a with
  | markDirty helper message =>
    cases hn
    exact h.request rfl rfl
  | unmarkDirty helper message =>
    cases hn
    exact h.request rfl rfl
  | cmdUnmarkDirty helper =>
    cases hn
    exact h.request rfl rfl
  | cmdUnmarkDirtyNow helper =>
    cases hn
    exact h.request rfl rfl
  | run t =>
    obtain ⟨call, s, call', hcall, hstep, rfl⟩ := Cfg.run_eq_some.1 hn
    obtain ⟨⟨s', pc'⟩, hpc, heq⟩ := Option.map_eq_some_iff.1 hstep
    cases heq
    have he := effect_of_step hpc
    exact ⟨h.told_step hcall he hs, h.apart_step hcall he hs, h.timed_step hcall he,
      h.cleared_step hcall he, h.dated_step (List.mem_of_getElem? hcall) he⟩
  | tick ns =>
    cases hn
    exact ⟨h.told, h.apart, h.timed, h.cleared, h.dated⟩

/-- **Once all calls of a serial run have finished, the last command sent, if any, is `MarkDirty` exactly
when the flag is set, and a set flag comes with a time.** -/
theorem told_when_quiet {as : List Action} {c : State} (hrun : run next new as = some c)
    (hserial : Along next Serial new as) (hdone : ∀ call ∈ c.calls, call.pc = .done) :
    (c.shared.lastCmd ≠ none → (c.shared.lastCmd = some .markDirty ↔ c.shared.status.dirty = true)) ∧
      (c.shared.status.dirty = true → c.shared.status.lastDirtyTime.isSome) := by
  have h : Agree c := invariant (fun h hn hs => h.next hn hs) agree_new hrun hserial
  refine ⟨fun hsent => ?_, h.dated⟩
  rcases h.told with ⟨call, hcall, hp⟩ | ⟨htold, -⟩
  · rw [hdone call hcall] at hp
    cases hp
  · cases hlast : c.shared.lastCmd with
    | none => exact absurd hlast hsent
    | some cmd =>
      rw [hlast, Option.getD_some] at htold
      rw [htold]
      cases c.shared.status.dirty <;> simp [cmdOf]

/-- An input that is marked, and whose time is up afterwards. -/
def sample : List Action :=
  [.markDirty ⟨7, 0⟩ "PSI error", .run 0, .run 0, .run 0, .run 0, .run 0, .tick (31 * 10 ^ 9),
    .cmdUnmarkDirty ⟨7, 0⟩, .run 1, .run 1, .run 1, .run 1, .run 1]

theorem told_when_quiet_sample : ∃ c, run next new sample = some c ∧
    c.shared.lastCmd = some .unMarkDirty ∧ c.shared.status.dirty = false ∧
      (c.shared.lastCmd = some .markDirty ↔ c.shared.status.dirty = true) :=
  have hsent : (run next new sample).map (fun c => c.shared.lastCmd) = some (some .unMarkDirty) := by decide
  match hrun : run next new sample with
  | none => by rw [hrun] at hsent; cases hsent
  | some c =>
    have hlast : c.shared.lastCmd = some .unMarkDirty := by
      rw [hrun] at hsent
      exact Option.some.inj hsent
    have hdone : ∀ call ∈ c.calls, call.pc = .done := by
      have hall : (run next new sample).map (fun c => c.calls.all fun call => decide (call.pc = .done)) =
          some true := by decide
      rw [hrun, Option.map_some] at hall
      simpa using hall
    have hiff := (told_when_quiet hrun (by decide) hdone).1 (by simp [hlast])
    ⟨c, rfl, hlast, by simpa [hlast] using hiff, hiff⟩

/-- One task marks the worker while another unmarks it: the server is last told that it is dirty. -/
def lateMark : List Action :=
  [.markDirty ⟨7, 0⟩ "PSI error", .cmdUnmarkDirtyNow ⟨7, 0⟩, .run 0, .run 0, .run 0,
    .run 1, .run 1, .run 1, .run 1, .run 0, .run 0]

/-- The same, and the flag is set while the other task forgets the time. -/
def timeLost : List Action :=
  [.markDirty ⟨7, 0⟩ "PSI error", .cmdUnmarkDirtyNow ⟨7, 0⟩, .run 0, .run 0, .run 1, .run 1, .run 1, .run 1,
    .run 0, .run 0, .run 0]

/-- All calls have finished, and what was last told is not the flag; or the flag is set without a time. -/
theorem told_otherwise :
    ((run next new lateMark).map fun c => (c.calls.map Call.pc, c.shared.lastCmd, c.shared.status.dirty)) =
        some ([.done, .done], some .markDirty, false) ∧
      ((run next new timeLost).map fun c =>
          (c.calls.map Call.pc, c.shared.status.dirty, c.shared.status.lastDirtyTime)) =
        some ([.done, .done], true, none) := by
  decide

end MyMuxer.Dirty
