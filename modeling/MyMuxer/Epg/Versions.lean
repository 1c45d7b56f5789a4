import MyMuxer.Epg.Loop

/-!
# The versions of a run of the EPG loop (`epg/epg.rs`)

* `EpgLoop.run`: downloads and turns, in any order.
* `Lists.turns`: what the turns of a run find: a time, a list, and the number of changes of the list before it.
* **`filter_run`**: a section of a run is that of its turn, with the changes of the list as its version.
* **`version_changes_iff`**: a section that changes also changes its version exactly if what it shows never changes
  between two turns of one version; `version_changes_otherwise`.
-/

namespace MyMuxer.Epg

open Psi Psi.Encode Psi.Eit

/-- What happens to the loop: its other task loads a list, or it makes a turn. -/
inductive Action
  | download (epg : EpgEvents)
  | turn (now : DateTime)

structure EpgLoop where
  epgServices : EpgState × List (ServiceKey × List EpgEvent)
  current : EpgState

/-! ## The loop -/

section Run

variable (env : Env) (lib : EpgLib)

def loadEpgEvents (epg : EpgEvents) : EpgState × List EpgEvent :=
  let events := sortByStart epg.events
  ({ currentVersion := epg.version, lastHash := lib.hash events }, events)

namespace EpgLoop

/-- The loop once a first list is there. -/
def start (epg : EpgEvents) : EpgLoop :=
  let (epgState, epgEvents) := loadEpgEvents lib epg
  { epgServices := (epgState, groupEventsByService epgEvents), current := epgState }

def load (epg : EpgEvents) (loop : EpgLoop) : EpgLoop :=
  let (newEpgState, newEpgEvents) := loadEpgEvents lib epg
  { loop with epgServices := (newEpgState, groupEventsByService newEpgEvents) }

/-- The state of a turn: a list of another hash has the next version. -/
def turn (loop : EpgLoop) : EpgLoop :=
  let newEpgState := loop.epgServices.1
  if newEpgState.lastHash ≠ loop.current.lastHash then
    let current : EpgState :=
      { currentVersion := (loop.current.currentVersion + 1) &&& 0x1F, lastHash := newEpgState.lastHash }
    { loop with current }
  else loop

/-- The sections of all the turns. -/
def run : EpgLoop → List Action → List Section
  | _, [] => []
  | loop, .download epg :: actions => (loop.load lib epg).run actions
  | loop, .turn now :: actions =>
    sections env lib loop.turn.current.currentVersion now loop.turn.epgServices.2 ++ loop.turn.run actions

end EpgLoop

end Run

/-! ## The lists of a run -/

/-- The list that is stored, that of the last turn, and the changes so far. -/
structure Lists where
  stored : List EpgEvent
  last : List EpgEvent
  changes : ℕ

structure Turn where
  now : DateTime
  events : List EpgEvent
  changes : ℕ

namespace Lists

def start (epg : EpgEvents) : Lists where
  stored := epg.events
  last := epg.events
  changes := 0

def turn (lists : Lists) : Lists where
  stored := lists.stored
  last := lists.stored
  changes := if sortByStart lists.stored = sortByStart lists.last then lists.changes else lists.changes + 1

/-- What the turns find. -/
def turns : Lists → List Action → List Turn
  | _, [] => []
  | lists, .download epg :: actions => { lists with stored := epg.events }.turns actions
  | lists, .turn now :: actions =>
    { now, events := lists.stored, changes := lists.turn.changes } :: lists.turn.turns actions

end Lists

/-- The lists of a run, as they are hashed. -/
def loaded (epg : EpgEvents) (actions : List Action) : Set (List EpgEvent) :=
  {l | l = sortByStart epg.events ∨ ∃ epg, Action.download epg ∈ actions ∧ l = sortByStart epg.events}

/-! ## What a section shows -/

/-- The event of a section, if the service has one: none in the empty section. -/
def shown (lib : EpgLib) (key : ServiceKey) (n : UInt8) (now : DateTime) (events : List EpgEvent) :
    Option (Option EpgEvent) :=
  match selected lib now key events with
  | none => none
  | some (present, following) =>
    if n = 0 then some (some present)
    else if n = 1 then some (following.map fun event => { event with language := present.language })
    else none

/-- The bytes of an event. -/
def content (event : Option EpgEvent) : Bytes :=
  event.elim [] fun event => eventBytes event.eventId event.startTimeUtc event.durationSeconds.toNat event.title
    (eventDescription event) event.language

/-- The section of a service that shows an event. -/
def sectionFor (env : Env) (key : ServiceKey) (n version : UInt8) (event : Option EpgEvent) : Section :=
  sectionOf env key.serviceId key.transportStreamId key.originalNetworkId version n (content event)

def hasId (key : ServiceKey) (n : UInt8) (s : Section) : Bool :=
  sectionId s.bytes = ((key.originalNetworkId, key.transportStreamId, key.serviceId), n)

variable {env : Env} {lib : EpgLib} {key : ServiceKey} {n version : UInt8} {now : DateTime} {events : List EpgEvent}

theorem sectionId_sectionFor (event : Option EpgEvent) : sectionId (sectionFor env key n version event).bytes =
    ((key.originalNetworkId, key.transportStreamId, key.serviceId), n) := sectionId_section ..

theorem ownSection_eq (event : EpgEvent) :
    ownSection env version key n event = sectionFor env key n version (some event) := rfl

theorem emptySection_eq : emptyPresentFollowingSection env key.serviceId version key.transportStreamId
    key.originalNetworkId n = sectionFor env key n version none := by
  rw [sectionFor, content, Option.elim_none, sectionOf, List.append_nil]
  rfl

theorem ownSections_eq (present : EpgEvent) (following : Option EpgEvent) :
    ownSections env version key present following =
      [sectionFor env key 0 version (some present), sectionFor env key 1 version following] := by
  rw [ownSections, ownSection_eq]
  cases following with
  | none => rw [Option.elim_none, emptySection_eq]
  | some event => rw [Option.elim_some, ownSection_eq]

/-- A turn emits the section that shows what the service has. -/
theorem filter_emittedFor : (emittedFor env lib version now key events).filter (hasId key n) =
    ((shown lib key n now events).map (sectionFor env key n version)).toList := by
  unfold shown
  cases h : selected lib now key events with
  | none =>
    rw [emittedFor_none h]
    rfl
  | some pair =>
    obtain ⟨present, following⟩ := pair
    have hid : ∀ m event, hasId key n (sectionFor env key m version event) = decide (n = m) := by
      intro m event
      rw [hasId, sectionId_sectionFor]
      simp [eq_comm]
    rw [emittedFor_eq h, ownSections_eq, List.filter_cons, List.filter_cons, List.filter_nil, hid, hid]
    dsimp only
    by_cases h0 : n = 0
    · subst h0
      rfl
    · by_cases h1 : n = 1
      · subst h1
        rfl
      · simp [h0, h1]

theorem filter_sections :
    (sections env lib version now (groupEventsByService (sortByStart events))).filter (hasId key n) =
      ((shown lib key n now events).map (sectionFor env key n version)).toList := by
  rw [← filter_emittedFor, emittedFor, List.filter_filter]
  refine List.filter_congr fun s _ => ?_
  by_cases h : hasId key n s = true
  · rw [h, sectionKey_eq key (of_decide_eq_true h)]
    simp
  · rw [Bool.eq_false_of_not_eq_true h, Bool.false_and]

/-! ## The versions -/

theorem and_toNat : ∀ w : UInt8, (w &&& 0x1F).toNat = w.toNat % 32 := by decide

/-- A section has five bits of the version. -/
theorem sectionFor_congr {w w' : UInt8} (h : w.toNat % 32 = w'.toNat % 32) (event : Option EpgEvent) :
    sectionFor env key n w event = sectionFor env key n w' event := by
  have hmask : w &&& 0x1F = w' &&& 0x1F := by rw [← UInt8.toNat_inj, and_toNat, and_toNat, h]
  rw [sectionFor, sectionFor, sectionOf, sectionOf, sectionHeader, sectionHeader, hmask]

theorem unversioned_sectionFor_iff {w w' : UInt8} {event event' : Option EpgEvent} :
    unversioned (sectionFor env key n w event).bytes = unversioned (sectionFor env key n w' event').bytes ↔
      content event = content event' := by
  rw [sectionFor, sectionFor, unversioned_section, unversioned_section]
  constructor
  · intro h
    have hdrop : ∀ rest, (Encode.setSectionLength (sectionHeader key.serviceId 0 key.transportStreamId
        key.originalNetworkId n ++ rest)).drop 14 = rest := fun rest => rfl
    rw [← hdrop (content event), h, hdrop]
  · exact fun h => h ▸ rfl

theorem versionNumber_sectionFor (event : Option EpgEvent) :
    (versionNumber (sectionFor env key n version event).bytes).toNat = version.toNat % 32 := by
  rw [sectionFor, versionNumber_section, and_toNat]

/-- The loop has seen the lists of a run, and counts their changes from `v` on. -/
structure Counts (lib : EpgLib) (v : ℕ) (loop : EpgLoop) (lists : Lists) : Prop where
  hash : loop.epgServices.1.lastHash = lib.hash (sortByStart lists.stored)
  services : loop.epgServices.2 = groupEventsByService (sortByStart lists.stored)
  lastHash : loop.current.lastHash = lib.hash (sortByStart lists.last)
  version : loop.current.currentVersion.toNat % 32 = (v + lists.changes) % 32

namespace Counts

variable {v : ℕ} {loop : EpgLoop} {lists : Lists}

theorem start (epg : EpgEvents) : Counts lib epg.version.toNat (EpgLoop.start lib epg) (Lists.start epg) where
  hash := rfl
  services := rfl
  lastHash := rfl
  version := rfl

theorem load (h : Counts lib v loop lists) (epg : EpgEvents) :
    Counts lib v (loop.load lib epg) { lists with stored := epg.events } where
  hash := rfl
  services := rfl
  lastHash := h.lastHash
  version := h.version

theorem next_version : ∀ w : UInt8, ((w + 1) &&& 0x1F).toNat = (w.toNat + 1) % 32 := by decide

/-- Where two lists of one hash are one list, a turn counts the changes. -/
theorem turn (h : Counts lib v loop lists)
    (hhash : lib.hash (sortByStart lists.stored) = lib.hash (sortByStart lists.last) →
      sortByStart lists.stored = sortByStart lists.last) : Counts lib v loop.turn lists.turn := by
  unfold EpgLoop.turn Lists.turn
  dsimp only
  by_cases hlist : sortByStart lists.stored = sortByStart lists.last
  · have hsame : loop.epgServices.1.lastHash = loop.current.lastHash := by rw [h.hash, h.lastHash, hlist]
    rw [if_neg (not_not.2 hsame), if_pos hlist]
    exact ⟨h.hash, h.services, h.lastHash.trans (congrArg lib.hash hlist.symm), h.version⟩
  · have hother : loop.epgServices.1.lastHash ≠ loop.current.lastHash := by
      rw [h.hash, h.lastHash]
      exact mt hhash hlist
    rw [if_pos hother, if_neg hlist]
    refine ⟨h.hash, h.services, h.hash, ?_⟩
    have hversion := h.version
    rw [next_version]
    dsimp only
    omega

end Counts

/-- **A section of a run is that of its turn, with the changes of the list as its version.** -/
theorem filter_run {S : Set (List EpgEvent)} (hhash : Set.InjOn lib.hash S) {v : ℕ} (actions : List Action) :
    ∀ {loop : EpgLoop} {lists : Lists}, Counts lib v loop lists → sortByStart lists.stored ∈ S →
      sortByStart lists.last ∈ S → (∀ epg, Action.download epg ∈ actions → sortByStart epg.events ∈ S) →
      (loop.run env lib actions).filter (hasId key n) = (lists.turns actions).filterMap fun turn =>
        (shown lib key n turn.now turn.events).map
          (sectionFor env key n (UInt8.ofNat ((v + turn.changes) % 32))) := by
  induction actions with
  | nil => exact fun _ _ _ _ => rfl
  | cons action actions ih =>
    intro loop lists hcounts hstored hlast hdownloads
    have hrest : ∀ epg, Action.download epg ∈ actions → sortByStart epg.events ∈ S :=
      fun epg hepg => hdownloads epg (List.mem_cons_of_mem _ hepg)
    cases action with
    | download epg => exact ih (hcounts.load epg) (hdownloads epg List.mem_cons_self) hlast hrest
    | turn now =>
      have hturn := hcounts.turn (hhash hstored hlast)
      have hversion : loop.turn.current.currentVersion.toNat % 32 =
          (UInt8.ofNat ((v + lists.turn.changes) % 32)).toNat % 32 := by
        rw [hturn.version, UInt8.toNat_ofNat']
        omega
      have hsection : sectionFor env key n loop.turn.current.currentVersion =
          sectionFor env key n (UInt8.ofNat ((v + lists.turn.changes) % 32)) := funext (sectionFor_congr hversion)
      rw [EpgLoop.run, Lists.turns, List.filter_append, hturn.services, filter_sections,
        ih hturn hstored hstored hrest, List.filterMap_eq_flatMap_toList, List.filterMap_eq_flatMap_toList,
        List.flatMap_cons, hsection]
      rfl

/-! ## The changes of a section -/

/-- What a section shows, and the changes of the list until then. -/
structure Appearance where
  event : Option EpgEvent
  changes : ℕ

/-- What a section of a service shows, turn after turn. -/
def appearances (lib : EpgLib) (key : ServiceKey) (n : UInt8) (epg : EpgEvents) (actions : List Action) :
    List Appearance :=
  ((Lists.start epg).turns actions).filterMap fun turn =>
    (shown lib key n turn.now turn.events).map fun event => { event, changes := turn.changes }

/-- A section of a service, turn after turn. -/
def emitted (env : Env) (lib : EpgLib) (key : ServiceKey) (n : UInt8) (epg : EpgEvents) (actions : List Action) :
    List Section :=
  ((EpgLoop.start lib epg).run env lib actions).filter (hasId key n)

/-- A section that changes also changes its version. -/
def Bumped (s s' : Section) : Prop :=
  unversioned s.bytes ≠ unversioned s'.bytes → versionNumber s.bytes ≠ versionNumber s'.bytes

variable {epg : EpgEvents} {actions : List Action}

theorem emitted_eq (hhash : Set.InjOn lib.hash (loaded epg actions)) :
    emitted env lib key n epg actions = (appearances lib key n epg actions).map fun a =>
      sectionFor env key n (UInt8.ofNat ((epg.version.toNat + a.changes) % 32)) a.event := by
  have hdownloads : ∀ e, Action.download e ∈ actions → sortByStart e.events ∈ loaded epg actions :=
    fun e he => .inr ⟨e, he, rfl⟩
  rw [emitted, filter_run hhash actions (Counts.start epg) (.inl rfl) (.inl rfl) hdownloads, appearances,
    List.map_filterMap]
  simp only [Option.map_map]
  rfl

theorem bumped_iff {v : ℕ} {a b : Appearance} :
    Bumped (sectionFor env key n (UInt8.ofNat ((v + a.changes) % 32)) a.event)
        (sectionFor env key n (UInt8.ofNat ((v + b.changes) % 32)) b.event) ↔
      content a.event = content b.event ∨ a.changes % 32 ≠ b.changes % 32 := by
  have hversion : ∀ c : Appearance, (UInt8.ofNat ((v + c.changes) % 32)).toNat % 32 = (v + c.changes) % 32 := by
    intro c
    rw [UInt8.toNat_ofNat']
    omega
  rw [Bumped, Ne, Ne, unversioned_sectionFor_iff, ← UInt8.toNat_inj, versionNumber_sectionFor,
    versionNumber_sectionFor, hversion, hversion, ← or_iff_not_imp_left]
  refine or_congr_right (not_congr ?_)
  omega

/-- **Whenever a section of a service changes, its version does**, exactly if from one turn with the service to the
next one the event that it shows stays the same, as it is encoded, or the number of changes of the list in between is
no multiple of 32. -/
theorem version_changes_iff (hhash : Set.InjOn lib.hash (loaded epg actions)) :
    (emitted env lib key n epg actions).IsChain Bumped ↔
      (appearances lib key n epg actions).IsChain fun a a' =>
        content a.event = content a'.event ∨ a.changes % 32 ≠ a'.changes % 32 := by
  rw [emitted_eq hhash, List.isChain_map]
  exact List.IsChain.iff fun a a' => bumped_iff

/-- The list of two events. -/
def EpgEvents.sample (version : UInt8) : EpgEvents where
  version := version
  events := [EpgEvent.sample 10 "News" "eng", EpgEvent.sample 11 "Film" "eng"]

/-- A list of one event replaces it: after version 31 comes version 0. -/
theorem version_changes_sample :
    (emitted Env.sample EpgLib.sample ServiceKey.sample 0 (EpgEvents.sample 31)
      [.turn (oclock 10), .download { version := 0, events := [EpgEvent.sample 11 "Film" "eng"] },
        .turn (oclock 11)]).IsChain Bumped ↔
      (appearances EpgLib.sample ServiceKey.sample 0 (EpgEvents.sample 31)
        [.turn (oclock 10), .download { version := 0, events := [EpgEvent.sample 11 "Film" "eng"] },
          .turn (oclock 11)]).IsChain fun a a' =>
            content a.event = content a'.event ∨ a.changes % 32 ≠ a'.changes % 32 := by
  refine version_changes_iff fun l hl l' hl' hlength => ?_
  simp only [loaded, List.mem_cons, reduceCtorEq, Action.download.injEq, List.not_mem_nil, or_false, false_or,
    exists_eq_left, Set.mem_ofPred_eq] at hl hl'
  rcases hl with rfl | rfl
  · rcases hl' with rfl | rfl
    · rfl
    · exact absurd hlength (by decide)
  · rcases hl' with rfl | rfl
    · exact absurd hlength (by decide)
    · rfl

/-- The news end, the list stays, and so does the version. -/
theorem version_changes_otherwise :
    Set.InjOn EpgLib.sample.hash (loaded (EpgEvents.sample 0) [.turn (oclock 10), .turn (oclock 11)]) ∧
      oclock 10 ≤ oclock 11 ∧
      ¬ (emitted Env.sample EpgLib.sample ServiceKey.sample 0 (EpgEvents.sample 0)
        [.turn (oclock 10), .turn (oclock 11)]).IsChain Bumped := by
  have hhash : Set.InjOn EpgLib.sample.hash
      (loaded (EpgEvents.sample 0) [.turn (oclock 10), .turn (oclock 11)]) := by
    rintro l (rfl | ⟨e, he, -⟩) l' (rfl | ⟨e', he', -⟩) _
    · rfl
    · simp at he'
    · simp at he
    · simp at he
  have happearances : appearances EpgLib.sample ServiceKey.sample 0 (EpgEvents.sample 0)
      [.turn (oclock 10), .turn (oclock 11)] =
        [{ event := some (EpgEvent.sample 10 "News" "eng"), changes := 0 },
          { event := some (EpgEvent.sample 11 "Film" "eng"), changes := 0 }] := rfl
  refine ⟨hhash, by decide, fun hchain => ?_⟩
  rw [emitted_eq hhash, happearances, List.map_cons, List.map_cons, List.map_nil, List.isChain_pair] at hchain
  have hcontent := (bumped_iff (a := { event := some (EpgEvent.sample 10 "News" "eng"), changes := 0 })
    (b := { event := some (EpgEvent.sample 11 "Film" "eng"), changes := 0 })).1 hchain
  revert hcontent
  decide

end MyMuxer.Epg
