import MyMuxer.Lib.Groups
import MyMuxer.Psi.Eit

/-!
# The events of the programme guide (`epg/epg.rs`)

* `EpgEvent`, `loadEpgEvents`: the events of a download, in the order of their start.
* `groupEventsByService`, `presentFollowingEvents`, `eventDescription`.
* **`services_filter`**: the list of a service holds its events; `present_isSome`: one of them is its present event.
-/

namespace MyMuxer.Epg

open Psi.Encode

structure EpgEvent where
  originalNetworkId : UInt16
  transportStreamId : UInt16
  serviceId : UInt16
  eventId : UInt16
  startTimeUtc : DateTime
  durationSeconds : UInt32
  title : String
  subtitle : Option String
  description : Option String
  language : String
  deriving DecidableEq

/-- What is downloaded. -/
structure EpgEvents where
  version : UInt8
  events : List EpgEvent

structure EpgState where
  currentVersion : UInt8
  lastHash : UInt64
  deriving DecidableEq

/-- The hash of a list of events, and the sum of a time and a number of seconds: the libraries of the loop. -/
structure EpgLib where
  hash : List EpgEvent → UInt64
  addSeconds : DateTime → ℕ → DateTime

/-- `events.sort_by_key(|event| event.start_time_utc)`. -/
def sortByStart (events : List EpgEvent) : List EpgEvent :=
  events.insertionSort fun a b => a.startTimeUtc ≤ b.startTimeUtc

/-! ## Services -/

structure ServiceKey where
  originalNetworkId : UInt16
  transportStreamId : UInt16
  serviceId : UInt16

namespace ServiceKey

/-- Keys are in the order of their fields. -/
def fields (k : ServiceKey) : ℕ ×ₗ ℕ ×ₗ ℕ :=
  toLex (k.originalNetworkId.toNat, toLex (k.transportStreamId.toNat, k.serviceId.toNat))

theorem fields_injective : Function.Injective fields := fun k k' h => by
  obtain ⟨o, t, s⟩ := k
  obtain ⟨o', t', s'⟩ := k'
  simpa [fields, UInt16.toNat_inj] using h

instance : LinearOrder ServiceKey := LinearOrder.lift' fields fields_injective

end ServiceKey

def EpgEvent.key (event : EpgEvent) : ServiceKey where
  originalNetworkId := event.originalNetworkId
  transportStreamId := event.transportStreamId
  serviceId := event.serviceId

def groupEventsByService (events : List EpgEvent) : List (ServiceKey × List EpgEvent) :=
  (Groups.group EpgEvent.key events).map fun e => (e.1, sortByStart e.2)

/-- The events of one service, as they are grouped. -/
def serviceEvents (key : ServiceKey) (events : List EpgEvent) : List EpgEvent :=
  sortByStart (events.filter fun event => event.key = key)

/-! ## The present event and the following one -/

variable (lib : EpgLib)

def EpgEvent.isActive (event : EpgEvent) (now : DateTime) : Bool :=
  event.startTimeUtc ≤ now && now < lib.addSeconds event.startTimeUtc event.durationSeconds.toNat

def presentFollowingEvents (events : List EpgEvent) (now : DateTime) : Option (EpgEvent × Option EpgEvent) :=
  match events.findIdx? fun event => event.isActive lib now with
  | some index => events[index]?.map fun present => (present, events[index + 1]?)
  | none =>
    match events.filter fun event => event.startTimeUtc > now with
    | present :: upcoming => some (present, upcoming.head?)
    | [] => events.head?.map fun present => (present, events[1]?)

def eventDescription (event : EpgEvent) : String :=
  match event.description, event.subtitle with
  | some description, subtitle => if description ≠ "" then description else subtitle.getD ""
  | none, subtitle => subtitle.getD ""

/-! ## Facts -/

theorem sortByStart_eq_nil {events : List EpgEvent} : sortByStart events = [] ↔ events = [] := by
  have hperm : (sortByStart events).Perm events := List.perm_insertionSort _ events
  constructor
  · intro h
    rw [h] at hperm
    exact hperm.nil_eq.symm
  · rintro rfl
    rfl

theorem serviceEvents_ne_nil {key : ServiceKey} {events : List EpgEvent} :
    serviceEvents key events ≠ [] ↔ ∃ event ∈ events, event.key = key := by
  rw [serviceEvents, Ne, sortByStart_eq_nil, List.filter_eq_nil_iff]
  push Not
  exact exists_congr fun event => and_congr Iff.rfl decide_eq_true_iff

/-- **The list of a service holds its events**, in the order of their start. -/
theorem services_filter (key : ServiceKey) (events : List EpgEvent) :
    (groupEventsByService events).filter (fun e => e.1 = key) = Groups.entry key (serviceEvents key events) := by
  obtain ⟨-, hgroup⟩ := Groups.filter_group EpgEvent.key key events
  rw [groupEventsByService, List.filter_map]
  change ((Groups.group EpgEvent.key events).filter fun e => e.1 = key).map _ = _
  rw [hgroup, Groups.entry, Groups.entry, serviceEvents]
  simp only [sortByStart_eq_nil]
  split_ifs
  · rfl
  · rfl

/-- A list of events has a present one, and only the empty list has none. -/
theorem present_isSome {events : List EpgEvent} {now : DateTime} :
    (presentFollowingEvents lib events now).isSome = true ↔ events ≠ [] := by
  rw [presentFollowingEvents]
  cases hactive : events.findIdx? fun event => event.isActive lib now with
  | some index =>
    have hlt : index < events.length := (List.findIdx?_eq_some_iff_getElem.1 hactive).1
    dsimp only
    rw [List.getElem?_eq_getElem hlt]
    exact iff_of_true rfl (List.ne_nil_of_length_pos (Nat.zero_lt_of_lt hlt))
  | none =>
    cases events with
    | nil => exact iff_of_false Bool.false_ne_true (fun h => h rfl)
    | cons event events =>
      refine iff_of_true ?_ (List.cons_ne_nil _ _)
      dsimp only
      split
      · rfl
      · rfl

end MyMuxer.Epg
