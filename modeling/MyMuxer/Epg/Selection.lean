import MyMuxer.Epg.Loop

/-!
# Which events are sent (`epg/epg.rs`)

* `endTime`, `presentIndex`: the first event that is not over, in the order of a service.
* `present_split`: what the three searches of `present_following_events` find, on a list of events that are over and
  events that are not.
* **`groups_select`**: the groups partition the events, each is stably sorted, and the first event that is not over
  is the present one.
-/

namespace MyMuxer.Epg

open Psi.Encode

variable (lib : EpgLib)

def EpgEvent.endTime (event : EpgEvent) : DateTime := lib.addSeconds event.startTimeUtc event.durationSeconds.toNat

/-- The first event whose end lies after `now`, or the first event where there is none. -/
def presentIndex (events : List EpgEvent) (now : DateTime) : ℕ :=
  (events.findIdx? fun event => now < event.endTime lib).getD 0

variable {lib} {now : DateTime}

theorem isActive_iff {event : EpgEvent} :
    event.isActive lib now = true ↔ event.startTimeUtc ≤ now ∧ now < event.endTime lib := by
  rw [EpgEvent.isActive, Bool.and_eq_true, decide_eq_true_eq, decide_eq_true_eq]
  rfl

/-- The events that are over before the first one that is not. -/
theorem events_split (lib : EpgLib) (now : DateTime) (events : List EpgEvent) : ∃ past rest, events = past ++ rest ∧
    (∀ event ∈ past, event.endTime lib ≤ now) ∧ ∀ event ∈ rest.head?, now < event.endTime lib := by
  induction events with
  | nil => exact ⟨[], [], rfl, by simp, by simp⟩
  | cons event events ih =>
    by_cases hend : now < event.endTime lib
    · exact ⟨[], event :: events, rfl, by simp, fun e he => by cases he; exact hend⟩
    · obtain ⟨past, rest, rfl, hpast, hrest⟩ := ih
      refine ⟨event :: past, rest, rfl, fun e he => ?_, hrest⟩
      rcases List.mem_cons.1 he with rfl | he
      · exact not_lt.1 hend
      · exact hpast e he

theorem getElem?_following (past rest : List EpgEvent) (present : EpgEvent) :
    (past ++ present :: rest)[past.length]? = some present ∧
      (past ++ present :: rest)[past.length + 1]? = rest.head? := by
  rw [List.getElem?_append_right le_rfl, Nat.sub_self, List.getElem?_append_right (Nat.le_add_right _ 1),
    Nat.add_sub_cancel_left, List.getElem?_cons_succ, List.head?_eq_getElem?]
  exact ⟨rfl, rfl⟩

variable {past : List EpgEvent} (hpast : ∀ event ∈ past, event.endTime lib ≤ now)

include hpast

theorem findIdx_past {p : EpgEvent → Bool} (hp : ∀ event, p event = true → now < event.endTime lib) :
    past.findIdx? p = none := by
  refine List.findIdx?_eq_none_iff.2 fun event he => ?_
  by_contra hne
  exact absurd (hp event (by simpa using hne)) (not_lt.2 (hpast event he))

/-- Where an event is not over, it is the present one. -/
theorem present_split (hadd : ∀ t n, t ≤ lib.addSeconds t n) {present : EpgEvent} {rest : List EpgEvent}
    (hpresent : now < present.endTime lib)
    (hsorted : ∀ event ∈ rest, present.startTimeUtc ≤ event.startTimeUtc) :
    presentFollowingEvents lib (past ++ present :: rest) now = some (present, rest.head?) := by
  have hactive : past.findIdx? (fun event => event.isActive lib now) = none :=
    findIdx_past hpast fun event he => (isActive_iff.1 he).2
  obtain ⟨hhere, hfollowing⟩ := getElem?_following past rest present
  rw [presentFollowingEvents, List.findIdx?_append, hactive, Option.none_or, List.findIdx?_cons]
  by_cases hstart : present.startTimeUtc ≤ now
  · -- the event is on
    rw [if_pos (isActive_iff.2 ⟨hstart, hpresent⟩), Option.map_some, Nat.zero_add]
    dsimp only
    rw [hfollowing, hhere]
    rfl
  · -- the event is to come, and so are all after it
    have hcome : ∀ event ∈ present :: rest, now < event.startTimeUtc := by
      intro event he
      rcases List.mem_cons.1 he with rfl | he
      · exact not_le.1 hstart
      · exact (not_le.1 hstart).trans_le (hsorted event he)
    have hrest : rest.findIdx? (fun event => event.isActive lib now) = none := by
      refine List.findIdx?_eq_none_iff.2 fun event he => ?_
      by_contra hne
      have hon := isActive_iff.1 (Bool.not_eq_false _ ▸ hne)
      exact absurd hon.1 (not_le.2 (hcome event (List.mem_cons_of_mem _ he)))
    have hover : past.filter (fun event => event.startTimeUtc > now) = [] := by
      refine List.filter_eq_nil_iff.2 fun event he => ?_
      rw [decide_eq_true_eq, gt_iff_lt, not_lt]
      exact (hadd _ _).trans (hpast event he)
    have hall : (present :: rest).filter (fun event => event.startTimeUtc > now) = present :: rest :=
      List.filter_eq_self.2 fun event he => decide_eq_true (hcome event he)
    rw [if_neg (fun hon => hstart (isActive_iff.1 hon).1), hrest]
    dsimp only [Option.map_none]
    rw [List.filter_append, hover, hall]
    rfl

/-- Where all events are over, the first one is the present one. -/
theorem present_over (hadd : ∀ t n, t ≤ lib.addSeconds t n) :
    presentFollowingEvents lib past now = past.head?.map fun present => (present, past[1]?) := by
  have hactive : past.findIdx? (fun event => event.isActive lib now) = none :=
    findIdx_past hpast fun event he => (isActive_iff.1 he).2
  have hover : past.filter (fun event => event.startTimeUtc > now) = [] := by
    refine List.filter_eq_nil_iff.2 fun event he => ?_
    rw [decide_eq_true_eq, gt_iff_lt, not_lt]
    exact (hadd _ _).trans (hpast event he)
  rw [presentFollowingEvents, hactive]
  dsimp only
  rw [hover]

omit hpast

/-- **One search for three**: the event at `presentIndex` and the one after it. -/
theorem presentFollowing_eq (hadd : ∀ t n, t ≤ lib.addSeconds t n) {events : List EpgEvent}
    (hsorted : events.Pairwise fun a b => a.startTimeUtc ≤ b.startTimeUtc) :
    presentFollowingEvents lib events now = (events[presentIndex lib events now]?).map fun present =>
      (present, events[presentIndex lib events now + 1]?) := by
  obtain ⟨past, rest, rfl, hpast, hrest⟩ := events_split lib now events
  have hindex : past.findIdx? (fun event => now < event.endTime lib) = none :=
    findIdx_past hpast fun event he => of_decide_eq_true he
  rw [presentIndex, List.findIdx?_append, hindex, Option.none_or]
  cases rest with
  | nil =>
    rw [List.append_nil, present_over hpast hadd, List.head?_eq_getElem?]
    rfl
  | cons present rest =>
    have hpresent := hrest present rfl
    have htail := (List.pairwise_cons.1 (List.pairwise_append.1 hsorted).2.1).1
    obtain ⟨hhere, hfollowing⟩ := getElem?_following past rest present
    rw [present_split hpast hadd hpresent htail, List.findIdx?_cons, if_pos (decide_eq_true hpresent),
      Option.map_some, Option.getD_some, Nat.zero_add, hhere, hfollowing]
    rfl

variable (lib now) in
theorem presentIndex_lt {events : List EpgEvent} (h : events ≠ []) : presentIndex lib events now < events.length := by
  rw [presentIndex]
  cases e : events.findIdx? fun event => now < event.endTime lib with
  | none => exact List.length_pos_iff.2 h
  | some index => exact (List.findIdx?_eq_some_iff_getElem.1 e).1

theorem sortByStart_sorted (events : List EpgEvent) :
    (sortByStart events).Pairwise fun a b => a.startTimeUtc ≤ b.startTimeUtc := by
  have htotal : Std.Total fun a b : EpgEvent => a.startTimeUtc ≤ b.startTimeUtc := ⟨fun _ _ => le_total _ _⟩
  have htrans : IsTrans EpgEvent fun a b => a.startTimeUtc ≤ b.startTimeUtc := ⟨fun _ _ _ => le_trans⟩
  exact List.pairwise_insertionSort _ events

/-- A group holds the events of its service, one at least, in the order of their start. -/
structure IsGroup (events : List EpgEvent) (e : ServiceKey × List EpgEvent) : Prop where
  nonempty : e.2 ≠ []
  key : ∀ event ∈ e.2, event.key = e.1
  sorted : e.2.Pairwise fun a b => a.startTimeUtc ≤ b.startTimeUtc
  /-- Events that start together stay in their order. -/
  stable : ∀ t, e.2.filter (fun event => event.startTimeUtc = t) =
    (events.filter fun event => event.key = e.1).filter fun event => event.startTimeUtc = t

theorem isGroup_of_mem {events : List EpgEvent} {e : ServiceKey × List EpgEvent}
    (h : e ∈ groupEventsByService events) : IsGroup events e := by
  obtain ⟨⟨k, l⟩, hmem, rfl⟩ := List.mem_map.1 h
  obtain ⟨hne, hl⟩ : l ≠ [] ∧ l = events.filter fun event => event.key = k := Groups.mem_group EpgEvent.key hmem
  have hperm : (sortByStart l).Perm l := List.perm_insertionSort _ l
  refine ⟨fun h => hne (sortByStart_eq_nil.1 h), fun event he => ?_, sortByStart_sorted l, fun t => ?_⟩
  · have hmem : event ∈ l := hperm.mem_iff.1 he
    rw [hl] at hmem
    exact of_decide_eq_true (List.mem_filter.1 hmem).2
  · dsimp only
    rw [← hl]
    exact Groups.filter_insertionSort EpgEvent.startTimeUtc l t

/-- The groups hold every event once. -/
theorem perm_groups (events : List EpgEvent) : ((groupEventsByService events).flatMap Prod.snd).Perm events := by
  refine List.Perm.trans ?_ (Groups.perm_group EpgEvent.key events)
  rw [groupEventsByService, List.flatMap_map]
  exact List.Perm.flatMap_left _ fun e _ => List.perm_insertionSort _ e.2

theorem groups_sorted (events : List EpgEvent) : Groups.Sorted (groupEventsByService events) :=
  List.pairwise_map.2 (Groups.sorted_group EpgEvent.key events)

/-- **The events of a service and the present one.** The groups partition the events by service, each in the order of
its start times; of each the first event that is not over is the present one, or the first event where all are over,
and the event after it is the following one. -/
theorem groups_select (hadd : ∀ t n, t ≤ lib.addSeconds t n) (events : List EpgEvent) (now : DateTime) :
    Groups.Sorted (groupEventsByService events) ∧
      ((groupEventsByService events).flatMap Prod.snd).Perm events ∧
      ∀ e ∈ groupEventsByService events, IsGroup events e ∧
        ∃ present, e.2[presentIndex lib e.2 now]? = some present ∧
          presentFollowingEvents lib e.2 now = some (present, e.2[presentIndex lib e.2 now + 1]?) := by
  refine ⟨groups_sorted events, perm_groups events, fun e he => ?_⟩
  have hgroup := isGroup_of_mem he
  have hlt := presentIndex_lt lib now hgroup.nonempty
  refine ⟨hgroup, _, List.getElem?_eq_getElem hlt, ?_⟩
  rw [presentFollowing_eq hadd hgroup.sorted, List.getElem?_eq_getElem hlt]
  rfl

/-- A sum within a day is no earlier. -/
theorem EpgLib.sample_le (t : DateTime) (n : ℕ) : t ≤ EpgLib.sample.addSeconds t n := by
  change t.fields ≤ (EpgLib.sample.addSeconds t n).fields
  simp only [DateTime.fields, Prod.Lex.toLex_le_toLex, EpgLib.sample]
  refine .inr ⟨trivial, .inr ⟨trivial, .inr ⟨trivial, ?_⟩⟩⟩
  omega

/-- Between the news and the film, the film is the present event. -/
theorem groups_select_sample : ∃ present,
    presentFollowingEvents EpgLib.sample [EpgEvent.sample 10 "News" "eng", EpgEvent.sample 12 "Film" "eng"]
      (oclock 11) = some (present, none) ∧ present.title = "Film" := by
  have hgroups : groupEventsByService [EpgEvent.sample 12 "Film" "eng", EpgEvent.sample 10 "News" "eng"] =
      [(ServiceKey.sample, [EpgEvent.sample 10 "News" "eng", EpgEvent.sample 12 "Film" "eng"])] := by decide
  obtain ⟨-, -, hselect⟩ := groups_select EpgLib.sample_le
    [EpgEvent.sample 12 "Film" "eng", EpgEvent.sample 10 "News" "eng"] (oclock 11)
  rw [hgroups] at hselect
  obtain ⟨-, present, hpresent, hfollowing⟩ := hselect _ List.mem_cons_self
  cases hpresent
  exact ⟨_, hfollowing, rfl⟩

end MyMuxer.Epg
