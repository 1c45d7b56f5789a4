import MyMuxer.Lib.Calls
import MyMuxer.Lib.Schedule
import MyMuxer.Rust

/-!
# Loading and saving the configuration (`supervisor.rs`, `config.rs`)

The requests `/load` (`Supervisor::load`, then `Supervisor::dirty`) and `/save`, and the autosave of
`monitor`, interleaved at their await points.

* `Store`: `src_config`, the dirty flag, the files that `config.json` names and has named, and the
  requests in flight, each at a program point (`Pc`).
* `stepCall`, `next`: one step of one request, and new requests.
* `Undisturbed`: where a load sets the flag or a save makes its copy, no save under way has another copy
  than `src_config`.
* `Copies`, `File`, `Saved`: the invariants of runs with this condition.
* **`saved_when_quiet`**, and `lost_update` without the condition.
-/

namespace MyMuxer.Saving

open Schedule

/-- Where a request is. The copy a save has made goes with it. -/
inductive Pc where
  /-- `load`: the text is parsed and validated, and both locks are awaited. -/
  | loading (cfgJson : Bytes)
  /-- Before `self.dirty.store(true, ..)`. -/
  | marking
  /-- `save`, before `self.src_config.read()`. -/
  | copying
  /-- `write_config`, before `try_exists`. -/
  | checking (copy : Bytes)
  /-- Before `config.json` is renamed to `json.1`. -/
  | rotating (copy : Bytes)
  /-- Before `File::create`. -/
  | creating (copy : Bytes)
  /-- Before `write_all` on the file that was created. -/
  | filling (copy : Bytes) (file : ℕ)
  /-- Before `self.dirty.store(false, ..)`. -/
  | clearing (copy : Bytes)
  | done
  deriving DecidableEq

/-- The copy that a save under way has made. -/
def Pc.copy? : Pc → Option Bytes
  | .checking copy | .rotating copy | .creating copy | .filling copy _ | .clearing copy => some copy
  | .loading _ | .marking | .copying | .done => none

/-- The file is created. -/
def Pc.created : Pc → Bool
  | .filling _ _ | .clearing _ => true
  | _ => false

/-- The request has changed something that it is not through with, or may change `config.json` yet. -/
def Pc.touches : Pc → Bool
  | .loading _ | .copying | .done => false
  | _ => true

/-- The state of `Supervisor` that these requests share, and the files: `configJson` is the one that
`config.json` names. -/
structure Store where
  srcConfig : Option Bytes
  dirty : Bool
  configJson : Option ℕ
  contents : ℕ → Bytes
  created : ℕ
  calls : List Pc

/-- What `config.json` holds. -/
def Store.saved (s : Store) : Option Bytes := s.configJson.map s.contents

/-- A supervisor that has read its configuration, or has found none. -/
structure Booted (s : Store) : Prop where
  srcConfig : s.srcConfig = s.saved ∨ s.srcConfig = none
  calls : s.calls = []

/-- `write_all` at the start of a file. -/
def overwrite (old new : Bytes) : Bytes := new ++ old.drop new.length

/-- One step of a request. `accepts` is `parse_config` and `validate_config`, and `ok` says whether the
locks are taken before the timeout. A rename of a file that is not there any more fails, and no step
models that. -/
def stepCall (accepts : Bytes → Bool) (s : Store) (pc : Pc) (ok : Bool) : Option (Store × Pc) :=
  match pc with
  | .loading cfgJson =>
    if accepts cfgJson && ok then some ({ s with srcConfig := some cfgJson }, .marking) else some (s, .done)
  | .marking => some ({ s with dirty := true }, .done)
  | .copying =>
    match s.srcConfig with
    | some copy => some (s, .checking copy)
    | none => some (s, .done)
  | .checking copy => some (s, if s.configJson.isSome then .rotating copy else .creating copy)
  | .rotating copy => if s.configJson.isSome then some ({ s with configJson := none }, .creating copy) else none
  | .creating copy =>
    match s.configJson with
    | some file => some ({ s with contents := Function.update s.contents file [] }, .filling copy file)
    | none =>
      some ({ s with
        configJson := some s.created
        contents := Function.update s.contents s.created []
        created := s.created + 1 }, .filling copy s.created)
  | .filling copy file =>
    some ({ s with contents := Function.update s.contents file (overwrite (s.contents file) copy) },
      .clearing copy)
  | .clearing _ => some ({ s with dirty := false }, .done)
  | .done => none

inductive Action where
  /-- A request to `/load`. -/
  | load (cfgJson : Bytes)
  /-- A request to `/save`. -/
  | save
  /-- `monitor` finds the flag set, long enough after the last update. -/
  | autosave
  /-- Request number `t` takes its next step. -/
  | run (t : ℕ) (ok : Bool)
  deriving DecidableEq

def next (accepts : Bytes → Bool) (s : Store) : Action → Option Store
  | .load cfgJson => some { s with calls := s.calls ++ [.loading cfgJson] }
  | .save => some { s with calls := s.calls ++ [.copying] }
  | .autosave => if s.dirty then some { s with calls := s.calls ++ [.copying] } else none
  | .run t ok => do
    let pc ← s.calls[t]?
    let (s', pc') ← stepCall accepts s pc ok
    return { s' with calls := s.calls.set t pc' }

/-- Every save under way has `src_config` as its copy. -/
def UpToDate (s : Store) : Prop := ∀ pc ∈ s.calls, pc.copy?.isSome → pc.copy? = s.srcConfig

/-- No save overlaps a load with another configuration: where a load sets the flag, and where a save makes
its copy, every save under way is up to date. -/
def Undisturbed (s : Store) : Action → Prop
  | .run t _ => s.calls[t]? = some .marking ∨ s.calls[t]? = some .copying → UpToDate s
  | _ => True

instance (s : Store) (a : Action) : Decidable (Undisturbed s a) := by
  unfold Undisturbed UpToDate
  split <;> infer_instance

/-! ## The invariants -/

variable {accepts : Bytes → Bool} {s s' s₁ : Store} {a : Action} {t : ℕ} {pc pc' : Pc} {ok : Bool}

/-- No request is in the middle of a change. -/
def Quiet (s : Store) : Prop := ∀ pc ∈ s.calls, pc.touches = false

/-- Saves under way have one copy, and an outdated one only while a load is about to set the flag. -/
structure Copies (s : Store) : Prop where
  same : ∀ p ∈ s.calls, ∀ q ∈ s.calls, ∀ c d, p.copy? = some c → q.copy? = some d → c = d
  current : ∀ p ∈ s.calls, ∀ c, p.copy? = some c → s.srcConfig = some c ∨ .marking ∈ s.calls

/-- A save past the creation of its file finds it under the name `config.json`, or another save is about
to create it again; and the file has its copy, or another save is about to write it. -/
structure File (s : Store) : Prop where
  named : ∀ p ∈ s.calls, p.created → s.configJson = none → ∃ c, .creating c ∈ s.calls
  written : ∀ p ∈ s.calls, p.created → ∀ file, s.configJson = some file → ∀ c, p.copy? = some c →
    s.contents file = c ∨ s.contents file = [] ∧ ∃ d, .filling d file ∈ s.calls

/-- What is not marked for saving is saved. -/
def Saved (s : Store) : Prop := Quiet s → s.dirty = false → ∀ cfgJson ∈ s.srcConfig, s.saved = some cfgJson

theorem Booted.not_mem (b : Booted s) (p : Pc) : p ∉ s.calls := by
  rw [b.calls]
  exact List.not_mem_nil

theorem Booted.copies (b : Booted s) : Copies s :=
  ⟨fun p hp => absurd hp (b.not_mem p), fun p hp => absurd hp (b.not_mem p)⟩

theorem Booted.file (b : Booted s) : File s :=
  ⟨fun p hp => absurd hp (b.not_mem p), fun p hp => absurd hp (b.not_mem p)⟩

theorem Booted.saved (b : Booted s) : Saved s := by
  intro _ _ cfgJson hc
  rcases b.srcConfig with h | h
  · rw [← h]; exact hc
  · rw [h] at hc; cases hc

theorem next_run (h : next accepts s (.run t ok) = some s') :
    ∃ pc s₁ pc', s.calls[t]? = some pc ∧ stepCall accepts s pc ok = some (s₁, pc') ∧
      s' = { s₁ with calls := s.calls.set t pc' } := by
  simp only [next, Option.bind_eq_bind, Option.bind_eq_some_iff, Option.pure_def, Option.some.injEq] at h
  obtain ⟨pc, hpc, ⟨s₁, pc'⟩, hs, rfl⟩ := h
  exact ⟨pc, s₁, pc', hpc, hs, rfl⟩

/-- What a new request does not have, one of the others has. -/
theorem mem_of_mem_append {calls : List Pc} {p : Pc} (P : Pc → Prop) (hpc : ¬ P pc)
    (hp : p ∈ calls ++ [pc]) (h : P p) : p ∈ calls := by
  rcases List.mem_append.1 hp with hp | hp
  · exact hp
  · rw [List.mem_singleton.1 hp] at h
    exact absurd h hpc

/-! ### Copies -/

/-- Where every save is up to date, so are the copies. -/
theorem UpToDate.copies (h : UpToDate s) : Copies s := by
  have hsrc : ∀ p ∈ s.calls, ∀ c, p.copy? = some c → s.srcConfig = some c := by
    intro p hp c hc
    rw [← h p hp (by rw [hc]; rfl), hc]
  refine ⟨fun p hp q hq c d hc hd => ?_, fun p hp c hc => .inl (hsrc p hp c hc)⟩
  exact Option.some.inj ((hsrc p hp c hc).symm.trans (hsrc q hq d hd))

theorem UpToDate.set (h : UpToDate s) (hsrc : s₁.srcConfig = s.srcConfig)
    (hpc' : pc'.copy?.isSome → pc'.copy? = s.srcConfig) : UpToDate { s₁ with calls := s.calls.set t pc' } := by
  intro p hp hc
  dsimp only
  rw [hsrc]
  rcases List.mem_or_eq_of_mem_set hp with hp | rfl
  · exact h p hp hc
  · exact hpc' hc

/-- A new request has no copy. -/
theorem Copies.append (h : Copies s) (hpc : pc.copy? = none) : Copies { s with calls := s.calls ++ [pc] } := by
  have hold : ∀ p ∈ s.calls ++ [pc], ∀ c, p.copy? = some c → p ∈ s.calls := fun p hp c =>
    mem_of_mem_append (fun p => p.copy? = some c) (by rw [hpc]; simp) hp
  refine ⟨fun p hp q hq c d hc hd => ?_, fun p hp c hc => ?_⟩
  · exact h.same p (hold p hp c hc) q (hold q hq d hd) c d hc hd
  · exact (h.current p (hold p hp c hc) c hc).imp_right (List.mem_append_left _)

/-- A request that makes no copy of its own changes no copy. -/
theorem Copies.set (h : Copies s) (hpc : s.calls[t]? = some pc)
    (hcopy : ∀ c, pc'.copy? = some c → pc.copy? = some c)
    (hcur : ∀ p ∈ s.calls, ∀ c, p.copy? = some c → s₁.srcConfig = some c ∨ .marking ∈ s.calls.set t pc') :
    Copies { s₁ with calls := s.calls.set t pc' } := by
  have hold : ∀ p ∈ s.calls.set t pc', ∀ c, p.copy? = some c → ∃ q ∈ s.calls, q.copy? = some c := by
    intro p hp c hc
    rcases List.mem_or_eq_of_mem_set hp with hp | rfl
    · exact ⟨p, hp, hc⟩
    · exact ⟨pc, List.mem_of_getElem? hpc, hcopy c hc⟩
  refine ⟨fun p hp q hq c d hc hd => ?_, fun p hp c hc => ?_⟩
  · obtain ⟨p₀, hp₀, hc₀⟩ := hold p hp c hc
    obtain ⟨q₀, hq₀, hd₀⟩ := hold q hq d hd
    exact h.same p₀ hp₀ q₀ hq₀ c d hc₀ hd₀
  · obtain ⟨p₀, hp₀, hc₀⟩ := hold p hp c hc
    exact hcur p₀ hp₀ c hc₀

/-- A save under way leaves `src_config` and its copy as they are. -/
theorem stepCall_copy {copy : Bytes} (hc : pc.copy? = some copy)
    (h : stepCall accepts s pc ok = some (s₁, pc')) :
    s₁.srcConfig = s.srcConfig ∧ (pc'.copy? = some copy ∨ pc'.copy? = none) := by
  cases pc with
  | checking c =>
    cases h
    refine ⟨rfl, .inl ?_⟩
    split_ifs <;> exact hc
  | rotating c =>
    simp only [stepCall] at h
    split_ifs at h
    cases h
    exact ⟨rfl, .inl hc⟩
  | creating c =>
    simp only [stepCall] at h
    split at h <;> cases h <;> exact ⟨rfl, .inl hc⟩
  | filling c file => cases h; exact ⟨rfl, .inl hc⟩
  | clearing c => cases h; exact ⟨rfl, .inr rfl⟩
  | _ => cases hc

/-- **Every undisturbed step of a request keeps the copies in step.** -/
theorem Copies.step (h : Copies s) (hpc : s.calls[t]? = some pc)
    (hstep : stepCall accepts s pc ok = some (s₁, pc')) (hu : Undisturbed s (.run t ok)) :
    Copies { s₁ with calls := s.calls.set t pc' } := by
  have hmark : ∀ {pc'}, pc ≠ .marking → ∀ p ∈ s.calls, ∀ c, p.copy? = some c →
      s.srcConfig = some c ∨ .marking ∈ s.calls.set t pc' := fun hne p hp c hc =>
    (h.current p hp c hc).imp_right fun hm => Calls.mem_set_of_ne hpc hm hne.symm
  cases hcopy : pc.copy? with
  | some copy =>
    have hne : pc ≠ .marking := by
      rintro rfl
      cases hcopy
    obtain ⟨hsrc, hpc'⟩ := stepCall_copy hcopy hstep
    refine h.set hpc (fun c hc => ?_) (by rw [hsrc]; exact hmark hne)
    rcases hpc' with hpc' | hpc'
    · rw [hcopy, ← hpc', hc]
    · rw [hc] at hpc'
      cases hpc'
  | none =>
    cases pc with
    | loading cfgJson =>
      simp only [stepCall] at hstep
      split_ifs at hstep <;> cases hstep
      · exact h.set hpc (fun c hc => hc) fun _ _ _ _ =>
          .inr (List.mem_set (List.getElem?_eq_some_iff.1 hpc).1 .marking)
      · exact h.set hpc (fun c hc => hc) (hmark (by simp))
    | marking =>
      cases hstep
      refine UpToDate.copies (UpToDate.set (hu (.inl hpc)) rfl fun hc => ?_)
      cases hc
    | copying =>
      simp only [stepCall] at hstep
      split at hstep <;> rename_i hsrc <;> cases hstep <;>
        refine UpToDate.copies (UpToDate.set (hu (.inr hpc)) rfl fun hc => ?_)
      · exact hsrc.symm
      · cases hc
    | done => cases hstep
    | _ => cases hcopy

/-! ### The file -/

theorem File.append (h : File s) (hpc : pc.created = false) : File { s with calls := s.calls ++ [pc] } := by
  have hold : ∀ p ∈ s.calls ++ [pc], p.created = true → p ∈ s.calls := fun p hp =>
    mem_of_mem_append (fun p => p.created = true) (by rw [hpc]; simp) hp
  refine ⟨fun p hp hc hj => ?_, fun p hp hc file hj c hcopy => ?_⟩
  · obtain ⟨c, hm⟩ := h.named p (hold p hp hc) hc hj
    exact ⟨c, List.mem_append_left _ hm⟩
  · refine (h.written p (hold p hp hc) hc file hj c hcopy).imp_right fun ⟨hnil, d, hm⟩ => ?_
    exact ⟨hnil, d, List.mem_append_left _ hm⟩

/-- A request that leaves the files alone. -/
theorem File.keep (h : File s) (hpc : s.calls[t]? = some pc) (hjson : s₁.configJson = s.configJson)
    (hcont : s₁.contents = s.contents) (hpc' : pc'.created = false) (hcr : ∀ c, pc ≠ .creating c)
    (hfi : ∀ c file, pc ≠ .filling c file) : File { s₁ with calls := s.calls.set t pc' } := by
  have hold : ∀ p ∈ s.calls.set t pc', p.created → p ∈ s.calls := by
    intro p hp hc
    rcases List.mem_or_eq_of_mem_set hp with hp | rfl
    · exact hp
    · rw [hpc'] at hc
      cases hc
  refine ⟨fun p hp hc hj => ?_, fun p hp hc file hj c hcopy => ?_⟩
  · obtain ⟨c, hm⟩ := h.named p (hold p hp hc) hc (hjson ▸ hj)
    exact ⟨c, Calls.mem_set_of_ne hpc hm (hcr c).symm⟩
  · dsimp only
    rw [hcont]
    refine (h.written p (hold p hp hc) hc file (hjson ▸ hj) c hcopy).imp_right fun ⟨hnil, d, hm⟩ => ?_
    exact ⟨hnil, d, Calls.mem_set_of_ne hpc hm (hfi d file).symm⟩

/-- A file that has just been created is about to be written. -/
theorem File.of_created {file : ℕ} {copy : Bytes} (hjson : s.configJson = some file)
    (hnil : s.contents file = [])
    (hmem : .filling copy file ∈ s.calls) : File s := by
  refine ⟨fun p _ _ hj => ?_, fun p _ _ file' hj c _ => .inr ?_⟩
  · rw [hjson] at hj
    cases hj
  · cases hjson.symm.trans hj
    exact ⟨hnil, copy, hmem⟩

theorem overwrite_nil (copy : Bytes) : overwrite [] copy = copy := by simp [overwrite]

theorem overwrite_self (copy : Bytes) : overwrite copy copy = copy := by simp [overwrite]

/-- The save that fills a file writes the copy that every save under way has. -/
theorem File.fill {copy : Bytes} {file : ℕ} (h : File s) (hcop : Copies s)
    (hpc : s.calls[t]? = some (.filling copy file)) :
    File { s with
      contents := Function.update s.contents file (overwrite (s.contents file) copy)
      calls := s.calls.set t (.clearing copy) } := by
  have hmem : .filling copy file ∈ s.calls := List.mem_of_getElem? hpc
  have hold : ∀ p ∈ s.calls.set t (.clearing copy), p.created →
      ∃ q ∈ s.calls, q.created ∧ q.copy? = p.copy? := by
    intro p hp hc
    rcases List.mem_or_eq_of_mem_set hp with hp | rfl
    · exact ⟨p, hp, hc, rfl⟩
    · exact ⟨_, hmem, rfl, rfl⟩
  refine ⟨fun p hp hc hj => ?_, fun p hp hc file' hj c hcopy => ?_⟩
  · obtain ⟨q, hq, hqc, -⟩ := hold p hp hc
    obtain ⟨c, hm⟩ := h.named q hq hqc hj
    exact ⟨c, Calls.mem_set_of_ne hpc hm (by simp)⟩
  · obtain ⟨q, hq, hqc, hqcopy⟩ := hold p hp hc
    rw [hcopy] at hqcopy
    by_cases hf : file' = file
    · subst hf
      have hcc : c = copy := hcop.same q hq _ hmem c copy hqcopy rfl
      dsimp only
      rw [Function.update_self, hcc]
      rcases h.written _ hmem rfl file' hj copy rfl with hw | ⟨hw, -⟩
      · rw [hw, overwrite_self]
        exact .inl rfl
      · rw [hw, overwrite_nil]
        exact .inl rfl
    · dsimp only
      rw [Function.update_of_ne hf]
      refine (h.written q hq hqc file' hj c hqcopy).imp_right fun ⟨hnil, d, hm⟩ => ?_
      exact ⟨hnil, d, Calls.mem_set_of_ne hpc hm fun he => hf (by cases he; rfl)⟩

/-- **Every step of a request keeps the file**, where the saves under way have one copy. -/
theorem File.step (h : File s) (hcop : Copies s) (hpc : s.calls[t]? = some pc)
    (hstep : stepCall accepts s pc ok = some (s₁, pc')) : File { s₁ with calls := s.calls.set t pc' } := by
  have hmem : ∀ q, q ∈ s.calls.set t q := List.mem_set (List.getElem?_eq_some_iff.1 hpc).1
  cases pc with
  | loading cfgJson =>
    simp only [stepCall] at hstep
    split_ifs at hstep <;> cases hstep <;> exact h.keep hpc rfl rfl rfl (by simp) (by simp)
  | marking => cases hstep; exact h.keep hpc rfl rfl rfl (by simp) (by simp)
  | copying =>
    simp only [stepCall] at hstep
    split at hstep <;> cases hstep <;> exact h.keep hpc rfl rfl rfl (by simp) (by simp)
  | checking copy =>
    cases hstep
    exact h.keep hpc rfl rfl (by split_ifs <;> rfl) (by simp) (by simp)
  | rotating copy =>
    simp only [stepCall] at hstep
    split_ifs at hstep
    cases hstep
    exact ⟨fun _ _ _ _ => ⟨copy, hmem _⟩, fun _ _ _ file hj => by cases hj⟩
  | creating copy =>
    simp only [stepCall] at hstep
    split at hstep <;> rename_i hj <;> cases hstep
    · exact .of_created hj (Function.update_self ..) (hmem _)
    · exact .of_created rfl (Function.update_self ..) (hmem _)
  | filling copy file => cases hstep; exact h.fill hcop hpc
  | clearing copy => cases hstep; exact h.keep hpc rfl rfl rfl (by simp) (by simp)
  | done => cases hstep

/-! ### What is saved -/

/-- New requests have changed nothing yet. -/
theorem Saved.append (h : Saved s) (pc : Pc) : Saved { s with calls := s.calls ++ [pc] } :=
  fun hq => h fun q hc => hq q (List.mem_append_left _ hc)

/-- A step leaves the store alone, sets or clears the flag as the last step of its request, or leaves its
request in the middle of a change. -/
theorem stepCall_cases (h : stepCall accepts s pc ok = some (s₁, pc')) :
    (s₁ = s ∧ pc.touches = false) ∨ pc'.touches = true ∨ s₁.dirty = true ∨
      ∃ copy, pc = .clearing copy ∧ s₁ = { s with dirty := false } := by
  cases pc with
  | loading cfgJson =>
    simp only [stepCall] at h
    split_ifs at h <;> cases h
    · exact .inr (.inl rfl)
    · exact .inl ⟨rfl, rfl⟩
  | marking => cases h; exact .inr (.inr (.inl rfl))
  | copying =>
    simp only [stepCall] at h
    split at h <;> cases h
    · exact .inr (.inl rfl)
    · exact .inl ⟨rfl, rfl⟩
  | checking copy =>
    cases h
    refine .inr (.inl ?_)
    split_ifs <;> rfl
  | rotating copy =>
    simp only [stepCall] at h
    split_ifs at h
    cases h
    exact .inr (.inl rfl)
  | creating copy =>
    simp only [stepCall] at h
    split at h <;> cases h <;> exact .inr (.inl rfl)
  | filling copy file => cases h; exact .inr (.inl rfl)
  | clearing copy => cases h; exact .inr (.inr (.inr ⟨copy, rfl, rfl⟩))
  | done => cases h

/-- A save that clears the flag while every other request is quiet has saved `src_config`. -/
theorem saved_of_clearing {copy : Bytes} (hcop : Copies s) (hfile : File s)
    (hpc : s.calls[t]? = some (.clearing copy)) (hq : ∀ q ∈ s.calls.set t .done, q.touches = false) :
    s.srcConfig = some copy ∧ s.saved = some copy := by
  have hmem : .clearing copy ∈ s.calls := List.mem_of_getElem? hpc
  -- no other request is in the middle of a change
  have hother : ∀ q ∈ s.calls, q.touches = true → q = .clearing copy := by
    intro q hqc ht
    by_contra hne
    rw [hq q (Calls.mem_set_of_ne hpc hqc hne)] at ht
    cases ht
  have hsrc : s.srcConfig = some copy := by
    rcases hcop.current _ hmem copy rfl with hsrc | hm
    · exact hsrc
    · cases hother _ hm rfl
  refine ⟨hsrc, ?_⟩
  cases hj : s.configJson with
  | none =>
    obtain ⟨c, hm⟩ := hfile.named _ hmem rfl hj
    cases hother _ hm rfl
  | some file =>
    rcases hfile.written _ hmem rfl file hj copy rfl with hw | ⟨-, d, hm⟩
    · simp only [Store.saved, hj, Option.map_some, hw]
    · cases hother _ hm rfl

/-- **Every step of a request keeps what is saved**, where the copies and the file are in step. -/
theorem Saved.step (h : Saved s) (hcop : Copies s) (hfile : File s) (hpc : s.calls[t]? = some pc)
    (hstep : stepCall accepts s pc ok = some (s₁, pc')) : Saved { s₁ with calls := s.calls.set t pc' } := by
  intro hq hd cfgJson hc
  have hpc' : pc'.touches = false := hq pc' (List.mem_set (List.getElem?_eq_some_iff.1 hpc).1 pc')
  rcases stepCall_cases hstep with ⟨rfl, hno⟩ | htouch | hdirty | ⟨copy, rfl, rfl⟩
  · refine h (fun q hqc => ?_) hd cfgJson hc
    by_cases hne : q = pc
    · rw [hne, hno]
    · exact hq q (Calls.mem_set_of_ne hpc hqc hne)
  · rw [htouch] at hpc'
    cases hpc'
  · exact absurd (hdirty.symm.trans hd) (by decide)
  · cases hstep
    obtain ⟨hsrc, hsaved⟩ := saved_of_clearing hcop hfile hpc hq
    rw [Option.mem_def, hsrc] at hc
    rw [← hc]
    exact hsaved

/-! ## Runs -/

/-- The invariant of undisturbed runs. -/
structure InOrder (s : Store) : Prop where
  copies : Copies s
  file : File s
  saved : Saved s

theorem Booted.inOrder (b : Booted s) : InOrder s := ⟨b.copies, b.file, b.saved⟩

theorem InOrder.append (h : InOrder s) (hcopy : pc.copy? = none) (hcreated : pc.created = false) :
    InOrder { s with calls := s.calls ++ [pc] } :=
  ⟨h.copies.append hcopy, h.file.append hcreated, h.saved.append pc⟩

/-- **Every undisturbed step keeps the invariant.** -/
theorem InOrder.next (h : InOrder s) (hs : next accepts s a = some s') (hu : Undisturbed s a) : InOrder s' := by
  cases a with
  | load cfgJson => cases hs; exact h.append rfl rfl
  | save => cases hs; exact h.append rfl rfl
  | autosave =>
    simp only [MyMuxer.Saving.next] at hs
    split_ifs at hs
    cases hs
    exact h.append rfl rfl
  | run t ok =>
    obtain ⟨pc, s₁, pc', hpc, hstep, rfl⟩ := next_run hs
    exact ⟨h.copies.step hpc hstep hu, h.file.step h.copies hpc hstep,
      h.saved.step h.copies h.file hpc hstep⟩

end MyMuxer.Saving
