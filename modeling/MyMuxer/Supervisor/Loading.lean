import MyMuxer.Lib.Calls
import MyMuxer.Lib.Schedule
import MyMuxer.Supervisor.Validate

/-!
# Loading a configuration (`supervisor.rs`)

Calls of `Supervisor::load`, interleaved at their lock and await points with each other and with readers of the two
locks. The JSON parser is a parameter.

* `Shared`, `Pc`, `step`, `next`: what the calls share, where a call is, its next step, and all that may happen.
* `Agree`: the text and the configuration belong together, and the configuration is valid.
* `Consistent`: the invariant: they agree, but between the two assignments of a call that holds both locks.
* **`load_consistent`**: after any steps; and a call that ends in an error has changed neither.
-/

namespace MyMuxer.Loading

open Calls Schedule Validation

/-! ## The calls -/

/-- The guards of a lock that are held. -/
structure Guards where
  readers : ℕ
  writer : Bool
  deriving DecidableEq

def Guards.free : Guards := { readers := 0, writer := false }

inductive Field where
  | srcConfig
  | config
  deriving DecidableEq

structure Shared where
  srcConfig : Option String
  config : Option Config
  guards : Field → Guards

def Shared.new : Shared where
  srcConfig := none
  config := none
  guards := fun _ => .free

def Shared.setWriter (s : Shared) (field : Field) (writer : Bool) : Shared :=
  { s with guards := Function.update s.guards field { s.guards field with writer } }

def Shared.setReaders (s : Shared) (field : Field) (readers : ℕ) : Shared :=
  { s with guards := Function.update s.guards field { s.guards field with readers } }

inductive LoadError (ε : Type) where
  /-- `Error in parse config: {:?}`. -/
  | parse (e : ε)
  | validation (text : String)
  /-- `Lock contention`. -/
  | lockContention

/-- Where a call is. -/
inductive Pc (ε : Type) where
  | parsing (cfgJson : String)
  /-- In `self.src_config.write()`. -/
  | awaitingSrc (cfgJson : String) (parsedConfig : Config)
  /-- In `self.config.write()`, with the guard of `src_config`. -/
  | awaitingConfig (cfgJson : String) (parsedConfig : Config)
  /-- Before `*src_lock = ..`, with both guards. -/
  | storingSrc (cfgJson : String) (parsedConfig : Config)
  /-- Before `*cfg_lock = ..`. -/
  | storingConfig (cfgJson : String) (parsedConfig : Config)
  /-- The guards are dropped, the one of `config` first. -/
  | droppingConfig
  | droppingSrc
  | returned (result : Except (LoadError ε) Unit)

variable {ε : Type}

/-- The call holds both locks. -/
def Pc.holdsBoth : Pc ε → Bool
  | .storingSrc _ _ | .storingConfig _ _ | .droppingConfig => true
  | _ => false

/-- The call holds the lock of `src_config`. -/
def Pc.holdsSrc : Pc ε → Option Unit
  | .awaitingConfig _ _ | .storingSrc _ _ | .storingConfig _ _ | .droppingConfig | .droppingSrc => some ()
  | _ => none

abbrev State (ε : Type) : Type := Cfg Shared (Pc ε)

variable (parseConfig : String → Except ε Config)

/-- One step of a call. At an await point the 50 ms may have `elapsed`; the guards are dropped then. A lock is given to
any of those who wait for it. -/
def step (s : Shared) (_t : ℕ) (pc : Pc ε) (elapsed : Bool) : Option (Shared × Pc ε) :=
  match pc with
  | .parsing cfgJson =>
    match parseConfig cfgJson with
    | .ok cfg =>
      match validateConfig cfg with
      | .ok () => some (s, .awaitingSrc cfgJson cfg)
      | .error e => some (s, .returned (.error (.validation e)))
    | .error e => some (s, .returned (.error (.parse e)))
  | .awaitingSrc cfgJson cfg =>
    if elapsed then some (s, .returned (.error .lockContention))
    else if s.guards .srcConfig = .free then some (s.setWriter .srcConfig true, .awaitingConfig cfgJson cfg)
    else none
  | .awaitingConfig cfgJson cfg =>
    if elapsed then some (s.setWriter .srcConfig false, .returned (.error .lockContention))
    else if s.guards .config = .free then some (s.setWriter .config true, .storingSrc cfgJson cfg)
    else none
  | .storingSrc cfgJson cfg => some ({ s with srcConfig := some cfgJson }, .storingConfig cfgJson cfg)
  | .storingConfig _ cfg => some ({ s with config := some cfg }, .droppingConfig)
  | .droppingConfig => some (s.setWriter .config false, .droppingSrc)
  | .droppingSrc => some (s.setWriter .srcConfig false, .returned (.ok ()))
  | .returned _ => none

inductive Action where
  /-- A call of `load`. -/
  | load (cfgJson : String)
  /-- Call number `t` takes its next step. -/
  | run (t : ℕ) (elapsed : Bool)
  /-- Another request gets a guard to read, or drops one. -/
  | read (field : Field)
  | unread (field : Field)
  deriving DecidableEq

def next (c : State ε) : Action → Option (State ε)
  | .load cfgJson => some (c.request [.parsing cfgJson])
  | .run t elapsed => c.run (step parseConfig) t elapsed
  | .read field =>
    if (c.shared.guards field).writer then none
    else some { c with shared := c.shared.setReaders field ((c.shared.guards field).readers + 1) }
  | .unread field =>
    if (c.shared.guards field).readers = 0 then none
    else some { c with shared := c.shared.setReaders field ((c.shared.guards field).readers - 1) }

/-- A supervisor without a configuration. -/
def start : State ε := { shared := .new, calls := [] }

/-! ## What belongs together -/

/-- The configuration is what the text says, and valid. -/
def Matches (cfgJson : String) (cfg : Config) : Prop := parseConfig cfgJson = .ok cfg ∧ validateConfig cfg = .ok ()

/-- Neither is set, or both are and belong together. -/
def Agree (s : Shared) : Prop :=
  (s.srcConfig = none ∧ s.config = none) ∨
    ∃ cfgJson cfg, s.srcConfig = some cfgJson ∧ s.config = some cfg ∧ Matches parseConfig cfgJson cfg

/-- What a call has in hand, and what it has stored. -/
def Pc.Has (s : Shared) : Pc ε → Prop
  | .awaitingSrc cfgJson cfg | .awaitingConfig cfgJson cfg | .storingSrc cfgJson cfg => Matches parseConfig cfgJson cfg
  | .storingConfig cfgJson cfg => Matches parseConfig cfgJson cfg ∧ s.srcConfig = some cfgJson
  | _ => True

/-- The call is between its two assignments. -/
def Pc.isHalf : Pc ε → Bool
  | .storingConfig _ _ => true
  | _ => false

/-- The call has stored something, and cannot end in an error any more. -/
def Pc.stored : Pc ε → Bool
  | .storingConfig _ _ | .droppingConfig | .droppingSrc | .returned (.ok _) => true
  | _ => false

/-- The lock of `src_config` is held. -/
def SrcTaken (s : Shared) (_ : Unit) : Prop := (s.guards .srcConfig).writer = true

/-- The lock of `src_config` is held by one call at most, and text and configuration agree but between two
assignments. -/
structure Consistent (c : State ε) : Prop where
  locked : Exclusive SrcTaken Pc.holdsSrc c
  has : Every (Pc.Has parseConfig) c
  agree : (∀ p ∈ c.calls, p.isHalf = false) → Agree parseConfig c.shared

variable {parseConfig} {c c' : State ε} {s s' : Shared} {p p' : Pc ε} {t : ℕ} {elapsed : Bool}

/-! ## Steps -/

/-- **What a step can do**: the two assignments, or nothing to text and configuration. -/
theorem step_cases (h : step parseConfig s t p elapsed = some (s', p')) :
    (s'.srcConfig = s.srcConfig ∧ s'.config = s.config ∧ p.isHalf = false ∧ p'.isHalf = false ∧
      (p.Has parseConfig s → p'.Has parseConfig s') ∧ (p.stored = true → p'.stored = true)) ∨
    (∃ cfgJson cfg, p = .storingSrc cfgJson cfg ∧ s' = { s with srcConfig := some cfgJson } ∧
      p' = .storingConfig cfgJson cfg) ∨
    ∃ cfgJson cfg, p = .storingConfig cfgJson cfg ∧ s' = { s with config := some cfg } ∧ p' = .droppingConfig := by
  cases p with
  | parsing cfgJson =>
    rw [step] at h
    cases hparse : parseConfig cfgJson with
    | error e =>
      rw [hparse] at h
      cases h
      exact .inl ⟨rfl, rfl, rfl, rfl, fun _ => trivial, nofun⟩
    | ok cfg =>
      rw [hparse] at h
      dsimp only at h
      cases hvalid : validateConfig cfg with
      | error text =>
        rw [hvalid] at h
        cases h
        exact .inl ⟨rfl, rfl, rfl, rfl, fun _ => trivial, nofun⟩
      | ok u =>
        rw [hvalid] at h
        cases h
        exact .inl ⟨rfl, rfl, rfl, rfl, fun _ => ⟨hparse, hvalid⟩, nofun⟩
  | awaitingSrc cfgJson cfg =>
    rw [step] at h
    split_ifs at h
    · cases h
      exact .inl ⟨rfl, rfl, rfl, rfl, fun _ => trivial, nofun⟩
    · cases h
      exact .inl ⟨rfl, rfl, rfl, rfl, id, nofun⟩
  | awaitingConfig cfgJson cfg =>
    rw [step] at h
    split_ifs at h
    · cases h
      exact .inl ⟨rfl, rfl, rfl, rfl, fun _ => trivial, nofun⟩
    · cases h
      exact .inl ⟨rfl, rfl, rfl, rfl, id, nofun⟩
  | storingSrc cfgJson cfg =>
    cases h
    exact .inr (.inl ⟨cfgJson, cfg, rfl, rfl, rfl⟩)
  | storingConfig cfgJson cfg =>
    cases h
    exact .inr (.inr ⟨cfgJson, cfg, rfl, rfl, rfl⟩)
  | droppingConfig =>
    cases h
    exact .inl ⟨rfl, rfl, rfl, rfl, fun _ => trivial, fun _ => rfl⟩
  | droppingSrc =>
    cases h
    exact .inl ⟨rfl, rfl, rfl, rfl, fun _ => trivial, fun _ => rfl⟩
  | returned result => cases h

theorem setWriter_self (s : Shared) (field : Field) (writer : Bool) :
    ((s.setWriter field writer).guards field).writer = writer := by
  have h : (s.setWriter field writer).guards field = { s.guards field with writer } := Function.update_self ..
  rw [h]

theorem setWriter_of_ne (s : Shared) {field other : Field} (h : other ≠ field) (writer : Bool) :
    (s.setWriter field writer).guards other = s.guards other := Function.update_of_ne h ..

theorem setReaders_writer (s : Shared) (field other : Field) (readers : ℕ) :
    ((s.setReaders field readers).guards other).writer = (s.guards other).writer := by
  by_cases h : other = field
  · subst h
    have hself : (s.setReaders other readers).guards other = { s.guards other with readers } := Function.update_self ..
    rw [hself]
  · exact congrArg Guards.writer (Function.update_of_ne h ..)

theorem step_locks (h : step parseConfig s t p elapsed = some (s', p')) : Locks SrcTaken Pc.holdsSrc s p s' p' := by
  have hconfig (writer : Bool) (u : Unit) : SrcTaken (s.setWriter .config writer) u ↔ SrcTaken s u := by
    have hne : Field.srcConfig ≠ .config := nofun
    rw [SrcTaken, setWriter_of_ne s hne, SrcTaken]
  have hdrop (u : Unit) : SrcTaken (s.setWriter .srcConfig false) u ↔ u ≠ () ∧ SrcTaken s u :=
    iff_of_false (fun hw => by rw [SrcTaken, setWriter_self] at hw; cases hw) fun hw => hw.1 rfl
  cases p with
  | parsing cfgJson =>
    rw [step] at h
    split at h
    · split at h
      · cases h
        exact .keeps rfl fun _ => Iff.rfl
      · cases h
        exact .keeps rfl fun _ => Iff.rfl
    · cases h
      exact .keeps rfl fun _ => Iff.rfl
  | awaitingSrc cfgJson cfg =>
    rw [step] at h
    split_ifs at h with _ hfree
    · cases h
      exact .keeps rfl fun _ => Iff.rfl
    · cases h
      refine .takes () rfl rfl (fun hw => ?_) fun u => iff_of_true (setWriter_self ..) (.inl rfl)
      rw [SrcTaken, hfree] at hw
      cases hw
  | awaitingConfig cfgJson cfg =>
    rw [step] at h
    split_ifs at h
    · cases h
      exact .drops () rfl rfl hdrop
    · cases h
      exact .keeps rfl (hconfig true)
  | storingSrc cfgJson cfg =>
    cases h
    exact .keeps rfl fun _ => Iff.rfl
  | storingConfig cfgJson cfg =>
    cases h
    exact .keeps rfl fun _ => Iff.rfl
  | droppingConfig =>
    cases h
    exact .keeps rfl (hconfig false)
  | droppingSrc =>
    cases h
    exact .drops () rfl rfl hdrop
  | returned result => cases h

/-- **What can happen**: a call begins, or takes a step, or the readers of a lock change. -/
theorem next_cases {a : Action} (hs : next parseConfig c a = some c') :
    (∃ cfgJson, c' = c.request [.parsing cfgJson]) ∨
    (∃ t p elapsed s p', c.calls[t]? = some p ∧ step parseConfig c.shared t p elapsed = some (s, p') ∧
      c' = { shared := s, calls := c.calls.set t p' }) ∨
    ∃ field readers, c' = { c with shared := c.shared.setReaders field readers } := by
  cases a with
  | load cfgJson => exact .inl ⟨cfgJson, (Option.some.inj hs).symm⟩
  | run t elapsed =>
    obtain ⟨p, s, p', hp, hstep, rfl⟩ := Cfg.run_eq_some.1 hs
    exact .inr (.inl ⟨t, p, elapsed, s, p', hp, hstep, rfl⟩)
  | read field =>
    rw [next] at hs
    split_ifs at hs
    exact .inr (.inr ⟨field, _, (Option.some.inj hs).symm⟩)
  | unread field =>
    rw [next] at hs
    split_ifs at hs
    exact .inr (.inr ⟨field, _, (Option.some.inj hs).symm⟩)

/-! ## Runs -/

theorem start_consistent : Consistent parseConfig (start : State ε) where
  locked := ⟨fun _ => iff_of_false (fun h => (nomatch h)) fun ⟨_, _, h, _⟩ => (nomatch h), fun _ _ _ _ _ h => (nomatch h)⟩
  has _ hp := (nomatch hp)
  agree _ := .inl ⟨rfl, rfl⟩

/-- What a call has in hand depends on `src_config` alone. -/
theorem Pc.Has.of_eq (h : p.Has parseConfig s) (hsrc : s'.srcConfig = s.srcConfig) : p.Has parseConfig s' := by
  cases p with
  | storingConfig cfgJson cfg => exact ⟨h.1, hsrc.trans h.2⟩
  | _ => exact h

theorem Agree.of_eq (h : Agree parseConfig s) (hsrc : s'.srcConfig = s.srcConfig) (hconfig : s'.config = s.config) :
    Agree parseConfig s' := by rwa [Agree, hsrc, hconfig]

theorem Consistent.run (hc : Consistent parseConfig c) (hp : c.calls[t]? = some p)
    (hs : step parseConfig c.shared t p elapsed = some (s', p')) :
    Consistent parseConfig { shared := s', calls := c.calls.set t p' } := by
  have hhas : p.Has parseConfig c.shared := hc.has p (List.mem_of_getElem? hp)
  refine ⟨hc.locked.run hp (step_locks hs), ?_, fun hhalf => ?_⟩
  · rcases step_cases hs with ⟨hsrc, -, -, -, hown, -⟩ | ⟨cfgJson, cfg, rfl, rfl, rfl⟩ | ⟨cfgJson, cfg, rfl, rfl, rfl⟩
    · exact hc.has.run hp (hown hhas) fun _ q _ _ hq => hq.of_eq hsrc
    · -- no other call holds the lock, so none has stored another text
      refine hc.has.run hp ⟨hhas, rfl⟩ fun u q hut hu hq => ?_
      cases q with
      | storingConfig cfgJson' cfg' => exact absurd (hc.locked.unique u t _ _ () hu hp rfl rfl) hut
      | _ => exact hq
    · exact hc.has.run hp trivial fun _ q _ _ hq => hq.of_eq rfl
  · rcases step_cases hs with ⟨hsrc, hconfig, hp', -, -, -⟩ | ⟨cfgJson, cfg, rfl, rfl, rfl⟩ | ⟨cfgJson, cfg, rfl, rfl, rfl⟩
    · refine (hc.agree fun q hq => ?_).of_eq hsrc hconfig
      by_cases hqp : q = p
      · rw [hqp]
        exact hp'
      · exact hhalf q (mem_set_of_ne hp hq hqp)
    · have := hhalf _ (mem_set_self hp)
      cases this
    · exact .inr ⟨cfgJson, cfg, hhas.2, rfl, hhas.1⟩

/-- **Every step keeps the invariant.** -/
theorem Consistent.next {a : Action} (hc : Consistent parseConfig c) (hs : next parseConfig c a = some c') :
    Consistent parseConfig c' := by
  obtain ⟨cfgJson, rfl⟩ | ⟨t, p, elapsed, s, p', hp, hstep, rfl⟩ | ⟨field, readers, rfl⟩ := next_cases hs
  · have hnew {P : Pc ε → Prop} (hP : P (.parsing cfgJson)) : ∀ p ∈ [Pc.parsing cfgJson], P p := fun p hp => by
      rw [List.mem_singleton.1 hp]
      exact hP
    exact ⟨hc.locked.request (hnew rfl), hc.has.request (hnew trivial),
      fun hhalf => hc.agree fun p hp => hhalf p (List.mem_append_left _ hp)⟩
  · exact hc.run hp hstep
  · exact ⟨hc.locked.shared fun _ => by rw [SrcTaken, setReaders_writer, SrcTaken],
      hc.has.shared fun _ hq => hq.of_eq rfl, fun hhalf => (hc.agree hhalf).of_eq rfl rfl⟩

/-- A call that has stored something does not end in an error. -/
theorem stored_next {a : Action} (hp : c.calls[t]? = some p) (hstored : p.stored = true)
    (hs : next parseConfig c a = some c') : ∃ p', c'.calls[t]? = some p' ∧ p'.stored = true := by
  obtain ⟨cfgJson, rfl⟩ | ⟨u, q, elapsed, s, q', hq, hstep, rfl⟩ | ⟨field, readers, rfl⟩ := next_cases hs
  · exact ⟨p, Cfg.getElem?_request hp, hstored⟩
  · by_cases hut : u = t
    · subst hut
      cases hp.symm.trans hq
      refine ⟨q', (getElem?_set hq).2 (.inl ⟨rfl, rfl⟩), ?_⟩
      rcases step_cases hstep with ⟨-, -, -, -, -, hkeep⟩ | ⟨_, _, rfl, rfl, rfl⟩ | ⟨_, _, rfl, rfl, rfl⟩
      · exact hkeep hstored
      · rfl
      · rfl
    · exact ⟨p, (getElem?_set hq).2 (.inr ⟨Ne.symm hut, hp⟩), hstored⟩
  · exact ⟨p, hp, hstored⟩

theorem stored_run {as : List Action} (hp : c.calls[t]? = some p) (hstored : p.stored = true)
    (hrun : run (next parseConfig) c as = some c') : ∃ p', c'.calls[t]? = some p' ∧ p'.stored = true :=
  run_invariant (I := fun c : State ε => ∃ p, c.calls[t]? = some p ∧ p.stored = true)
    (fun ⟨_, hp, hstored⟩ hs => stored_next hp hstored hs) ⟨p, hp, hstored⟩ hrun

/-- **Whatever the calls do, text and configuration belong together and are valid while no call holds both locks**, and
a call that ends in an error has changed neither of them. -/
theorem load_consistent {as : List Action} (hrun : run (next parseConfig) start as = some c) :
    ((∀ p ∈ c.calls, p.holdsBoth = false) → Agree parseConfig c.shared) ∧
      ∀ before t elapsed behind c₁ c₂ e, as = before ++ .run t elapsed :: behind →
        run (next parseConfig) start before = some c₁ → next parseConfig c₁ (.run t elapsed) = some c₂ →
        run (next parseConfig) c₂ behind = some c → c.calls[t]? = some (.returned (.error e)) →
        c₂.shared.srcConfig = c₁.shared.srcConfig ∧ c₂.shared.config = c₁.shared.config := by
  have hc : Consistent parseConfig c := run_invariant (fun hc hs => hc.next hs) start_consistent hrun
  refine ⟨fun hfree => hc.agree fun p hp => ?_, ?_⟩
  · have hboth := hfree p hp
    cases p with
    | storingConfig cfgJson cfg => cases hboth
    | _ => rfl
  · rintro before t elapsed behind c₁ c₂ e - - hs hbehind herror
    obtain ⟨p, s, p', hp, hstep, rfl⟩ := Cfg.run_eq_some.1 hs
    have hnew : (c₁.calls.set t p')[t]? = some p' := (getElem?_set hp).2 (.inl ⟨rfl, rfl⟩)
    have hnot (hstored : p'.stored = true) : False := by
      obtain ⟨q, hq, hstored'⟩ := stored_run hnew hstored hbehind
      cases herror.symm.trans hq
      cases hstored'
    rcases step_cases hstep with ⟨hsrc, hconfig, -⟩ | ⟨_, _, rfl, rfl, rfl⟩ | ⟨_, _, rfl, rfl, rfl⟩
    · exact ⟨hsrc, hconfig⟩
    · exact (hnot rfl).elim
    · exact (hnot rfl).elim

/-- A parser that finds no streams. -/
def parseNothing (_ : String) : Except Unit Config := .ok { streams := [] }

/-- Two calls, the second of which waits for the lock until its time has elapsed. -/
def twoLoads : List Action :=
  [.load "a", .load "b", .run 0 false, .run 1 false, .run 0 false, .run 1 true, .run 0 false, .run 0 false, .run 0 false,
    .run 0 false, .run 0 false]

theorem load_consistent_two : ∃ c, run (next parseNothing) start twoLoads = some c ∧
    c.calls[1]? = some (.returned (.error .lockContention)) ∧ c.shared.srcConfig = some "a" ∧ Agree parseNothing c.shared := by
  refine ⟨_, rfl, rfl, rfl, (load_consistent (show run (next parseNothing) start twoLoads = some _ from rfl)).1 ?_⟩
  decide

end MyMuxer.Loading
