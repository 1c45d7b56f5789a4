import MyMuxer.Epg.Events

/-!
# The sections of one turn of the EPG loop (`epg/epg.rs`)

* `serviceSections`, `sections`: what a turn emits for a service, and for all of them.
* **`sections_filter`**: a service gets the sections made from its own events, and no others.
* **`own_sections_iff`**: the second section is made from the following event alone exactly if that event has the
  language of the present one; `own_sections_otherwise`.
-/

namespace MyMuxer.Epg

open Psi Psi.Encode Psi.Eit

/-- The sections of a service. -/
def serviceSections (env : Env) (lib : EpgLib) (version : UInt8) (now : DateTime) (key : ServiceKey)
    (events : List EpgEvent) : List Section :=
  match presentFollowingEvents lib events now with
  | none => []
  | some (present, following) =>
    [presentFollowingSection env key.serviceId version key.transportStreamId key.originalNetworkId 0
      present.eventId present.startTimeUtc present.durationSeconds.toNat present.title (eventDescription present)
      present.language,
    match following with
    | some following =>
      presentFollowingSection env key.serviceId version key.transportStreamId key.originalNetworkId 1
        following.eventId following.startTimeUtc following.durationSeconds.toNat following.title
        (eventDescription following) present.language
    | none =>
      emptyPresentFollowingSection env key.serviceId version key.transportStreamId key.originalNetworkId 1]

/-- The sections of a turn. -/
def sections (env : Env) (lib : EpgLib) (version : UInt8) (now : DateTime)
    (services : List (ServiceKey × List EpgEvent)) : List Section :=
  services.flatMap fun e => serviceSections env lib version now e.1 e.2

/-! ## One service -/

variable (env : Env) (lib : EpgLib) (version : UInt8) (now : DateTime) (key : ServiceKey)

/-- The service that a section names. -/
def sectionKey (s : Section) : ServiceKey where
  originalNetworkId := (sectionId s.bytes).1.1
  transportStreamId := (sectionId s.bytes).1.2.1
  serviceId := (sectionId s.bytes).1.2.2

theorem sectionKey_eq {s : Section} {n : UInt8}
    (h : sectionId s.bytes = ((key.originalNetworkId, key.transportStreamId, key.serviceId), n)) :
    sectionKey s = key := by
  rw [sectionKey, h]

theorem serviceSections_key {events : List EpgEvent} {s : Section}
    (hs : s ∈ serviceSections env lib version now key events) : sectionKey s = key := by
  unfold serviceSections at hs
  split at hs
  · cases hs
  · rcases List.mem_cons.1 hs with rfl | hs
    · exact sectionKey_eq key (sectionId_section ..)
    · rw [List.mem_singleton.1 hs]
      split
      · exact sectionKey_eq key (sectionId_section ..)
      · exact sectionKey_eq key
          (sectionId_section env key.serviceId key.transportStreamId key.originalNetworkId version 1 [])

/-- Where the other elements give nothing. -/
theorem flatMap_filter {α β : Type} {p : α → Bool} {f : α → List β} {l : List α}
    (h : ∀ a ∈ l, p a = false → f a = []) : l.flatMap f = (l.filter p).flatMap f := by
  induction l with
  | nil => rfl
  | cons a l ih =>
    have hrest := ih fun b hb => h b (List.mem_cons_of_mem a hb)
    rw [List.flatMap_cons, List.filter_cons, hrest]
    split_ifs with hp
    · rw [List.flatMap_cons]
    · rw [h a List.mem_cons_self (Bool.eq_false_of_not_eq_true hp), List.nil_append]

/-- **A service gets the sections made from its own events, and no others.** -/
theorem sections_filter (events : List EpgEvent) :
    (sections env lib version now (groupEventsByService events)).filter (fun s => sectionKey s = key) =
      serviceSections env lib version now key (serviceEvents key events) := by
  have hother : ∀ e : ServiceKey × List EpgEvent, decide (e.1 = key) = false →
      (serviceSections env lib version now e.1 e.2).filter (fun s => sectionKey s = key) = [] := by
    intro e he
    refine List.filter_eq_nil_iff.2 fun s hs => ?_
    rw [decide_eq_true_eq, serviceSections_key env lib version now e.1 hs]
    exact of_decide_eq_false he
  rw [sections, List.filter_flatMap, flatMap_filter (p := fun e => e.1 = key) fun e _ he => hother e he,
    services_filter, Groups.entry]
  split_ifs with hnone
  · rw [hnone, serviceSections]
    rfl
  · rw [List.flatMap_cons, List.flatMap_nil, List.append_nil]
    refine List.filter_eq_self.2 fun s hs => ?_
    rw [decide_eq_true_eq]
    exact serviceSections_key env lib version now key hs

/-! ## Whose fields a section is made from -/

/-- The section of an event with the event's own fields. -/
def ownSection (sectionNumber : UInt8) (event : EpgEvent) : Section :=
  presentFollowingSection env key.serviceId version key.transportStreamId key.originalNetworkId sectionNumber
    event.eventId event.startTimeUtc event.durationSeconds.toNat event.title (eventDescription event) event.language

/-- Two sections, each from its own event. -/
def ownSections (present : EpgEvent) (following : Option EpgEvent) : List Section :=
  [ownSection env version key 0 present,
    following.elim
      (emptyPresentFollowingSection env key.serviceId version key.transportStreamId key.originalNetworkId 1)
      (ownSection env version key 1)]

/-- The events of a service that a turn selects from a download. -/
def selected (events : List EpgEvent) : Option (EpgEvent × Option EpgEvent) :=
  presentFollowingEvents lib (serviceEvents key (sortByStart events)) now

/-- The sections that a turn emits for a service. -/
def emittedFor (events : List EpgEvent) : List Section :=
  (sections env lib version now (groupEventsByService (sortByStart events))).filter fun s => sectionKey s = key

variable {env lib version now key} {events : List EpgEvent} {present : EpgEvent} {following : Option EpgEvent}

/-- What a turn emits for a service: the second section has the language of the present event. -/
theorem emittedFor_eq (h : selected lib now key events = some (present, following)) :
    emittedFor env lib version now key events =
      ownSections env version key present
        (following.map fun event => { event with language := present.language }) := by
  rw [emittedFor, sections_filter, serviceSections]
  unfold selected at h
  rw [h]
  cases following with
  | none => rfl
  | some following => rfl

theorem emittedFor_none (h : selected lib now key events = none) :
    emittedFor env lib version now key events = [] := by
  rw [emittedFor, sections_filter, serviceSections]
  unfold selected at h
  rw [h]

theorem langCode_ownSection (n : UInt8) (event : EpgEvent) :
    langCode (ownSection env version key n event).bytes = parseIso6392 event.language := langCode_section ..

/-- Only the language code tells the two apart. -/
theorem ownSection_language_iff {n : UInt8} {event : EpgEvent} {language language' : String} :
    ownSection env version key n { event with language } =
        ownSection env version key n { event with language := language' } ↔
      parseIso6392 language = parseIso6392 language' := by
  constructor
  · intro h
    have hcode := congrArg (fun s : Section => langCode s.bytes) h
    simpa only [langCode_ownSection] using hcode
  · intro h
    simp only [ownSection, presentFollowingSection, eventBytes, h]
    rfl

theorem selected_isSome (hkey : ∃ event ∈ events, event.key = key) :
    ∃ present following, selected lib now key events = some (present, following) := by
  have hsorted : serviceEvents key (sortByStart events) ≠ [] := by
    obtain ⟨event, hmem, he⟩ := hkey
    exact serviceEvents_ne_nil.2 ⟨event, (List.perm_insertionSort _ events).mem_iff.2 hmem, he⟩
  have hsome : (selected lib now key events).isSome = true := (present_isSome lib).2 hsorted
  obtain ⟨⟨present, following⟩, h⟩ := Option.isSome_iff_exists.1 hsome
  exact ⟨present, following, h⟩

/-- The second section is that of the following event where the language codes agree. -/
theorem emittedFor_eq_iff (h : selected lib now key events = some (present, following)) :
    emittedFor env lib version now key events = ownSections env version key present following ↔
      ∀ event ∈ following, parseIso6392 event.language = parseIso6392 present.language := by
  rw [emittedFor_eq h]
  cases following with
  | none => simp
  | some event =>
    have hsecond : ownSections env version key present (some { event with language := present.language }) =
        ownSections env version key present (some event) ↔
          ownSection env version key 1 { event with language := present.language } =
            ownSection env version key 1 event := by
      unfold ownSections
      rw [List.cons_inj_right, List.singleton_inj]
      exact Iff.rfl
    have hcode : ownSection env version key 1 { event with language := present.language } =
        ownSection env version key 1 event ↔ parseIso6392 present.language = parseIso6392 event.language :=
      ownSection_language_iff
    rw [Option.map_some, hsecond]
    refine hcode.trans ⟨fun hlang event' hevent => ?_, fun hlang => (hlang event rfl).symm⟩
    cases hevent
    exact hlang.symm

theorem second_ownSections {language : String} :
    (ownSections env version key present (following.map fun event => { event with language }))[1]? =
      some (following.elim
        (emptyPresentFollowingSection env key.serviceId version key.transportStreamId key.originalNetworkId 1)
        fun event => ownSection env version key 1 { event with language }) := by
  unfold ownSections
  rw [List.getElem?_cons_succ, List.getElem?_cons_zero, Option.elim_map]
  rfl

/-- Two turns with one following event. -/
theorem second_eq_iff {now' : DateTime} {events' : List EpgEvent} {present' : EpgEvent}
    (h : selected lib now key events = some (present, following))
    (h' : selected lib now' key events' = some (present', following)) :
    (emittedFor env lib version now key events)[1]? = (emittedFor env lib version now' key events')[1]? ↔
      ∀ event ∈ following, parseIso6392 present.language = parseIso6392 present'.language := by
  rw [emittedFor_eq h, emittedFor_eq h', second_ownSections, second_ownSections, Option.some_inj]
  cases following with
  | none => simp
  | some event =>
    have hcode : ownSection env version key 1 { event with language := present.language } =
        ownSection env version key 1 { event with language := present'.language } ↔
          parseIso6392 present.language = parseIso6392 present'.language := ownSection_language_iff
    rw [Option.elim_some, Option.elim_some]
    exact hcode.trans ⟨fun hlang _ _ => hlang, fun hlang => hlang event rfl⟩

/-- **Both sections of a service are made from the fields of their own events** exactly if the following event,
where there is one, has the language code of the present event; and two turns with the same following event emit
the same second section exactly if their present events have the same language code. -/
theorem own_sections_iff (hkey : ∃ event ∈ events, event.key = key) :
    ∃ present following, selected lib now key events = some (present, following) ∧
      (emittedFor env lib version now key events = ownSections env version key present following ↔
        ∀ event ∈ following, parseIso6392 event.language = parseIso6392 present.language) ∧
      ∀ now' events' present', selected lib now' key events' = some (present', following) →
        ((emittedFor env lib version now key events)[1]? = (emittedFor env lib version now' key events')[1]? ↔
          ∀ event ∈ following, parseIso6392 present.language = parseIso6392 present'.language) := by
  obtain ⟨present, following, h⟩ : ∃ present following, selected lib now key events = some (present, following) :=
    selected_isSome hkey
  exact ⟨present, following, h, emittedFor_eq_iff h, fun _ _ _ h' => second_eq_iff h h'⟩

/-! ## Two languages -/

/-- Lists of different lengths, and times of one day. -/
def EpgLib.sample : EpgLib where
  hash l := UInt64.ofNat l.length
  addSeconds t n :=
    let total := t.hour * 3600 + t.minute * 60 + t.second + n
    { t with hour := total / 3600, minute := total % 3600 / 60, second := total % 60 }

def oclock (hour : ℕ) : DateTime where
  year := 2026
  month := 1
  day := 1
  hour := hour
  minute := 0
  second := 0
  nanosecond := 0

/-- An event of an hour. -/
def EpgEvent.sample (hour : ℕ) (title language : String) : EpgEvent where
  originalNetworkId := 1
  transportStreamId := 1
  serviceId := 1
  eventId := UInt16.ofNat hour
  startTimeUtc := oclock hour
  durationSeconds := 3600
  title := title
  subtitle := none
  description := none
  language := language

def ServiceKey.sample : ServiceKey where
  originalNetworkId := 1
  transportStreamId := 1
  serviceId := 1

theorem own_sections_sample :
    ∃ present following, selected EpgLib.sample (oclock 10) ServiceKey.sample
        [EpgEvent.sample 10 "News" "eng", EpgEvent.sample 11 "Film" "eng"] = some (present, following) ∧
      (emittedFor Env.sample EpgLib.sample 0 (oclock 10) ServiceKey.sample
          [EpgEvent.sample 10 "News" "eng", EpgEvent.sample 11 "Film" "eng"] =
          ownSections Env.sample 0 ServiceKey.sample present following ↔
        ∀ event ∈ following, parseIso6392 event.language = parseIso6392 present.language) ∧
      ∀ now' events' present', selected EpgLib.sample now' ServiceKey.sample events' = some (present', following) →
        ((emittedFor Env.sample EpgLib.sample 0 (oclock 10) ServiceKey.sample
            [EpgEvent.sample 10 "News" "eng", EpgEvent.sample 11 "Film" "eng"])[1]? =
            (emittedFor Env.sample EpgLib.sample 0 now' ServiceKey.sample events')[1]? ↔
          ∀ event ∈ following, parseIso6392 present.language = parseIso6392 present'.language) :=
  own_sections_iff ⟨EpgEvent.sample 10 "News" "eng", List.mem_cons_self, rfl⟩

/-- The film is announced in the language of the news, and another one if the news change theirs. -/
theorem own_sections_otherwise :
    selected EpgLib.sample (oclock 10) ServiceKey.sample
        [EpgEvent.sample 10 "News" "ukr", EpgEvent.sample 11 "Film" "eng"] =
      some (EpgEvent.sample 10 "News" "ukr", some (EpgEvent.sample 11 "Film" "eng")) ∧
    emittedFor Env.sample EpgLib.sample 0 (oclock 10) ServiceKey.sample
        [EpgEvent.sample 10 "News" "ukr", EpgEvent.sample 11 "Film" "eng"] ≠
      ownSections Env.sample 0 ServiceKey.sample (EpgEvent.sample 10 "News" "ukr")
        (some (EpgEvent.sample 11 "Film" "eng")) ∧
    (emittedFor Env.sample EpgLib.sample 0 (oclock 10) ServiceKey.sample
        [EpgEvent.sample 10 "News" "ukr", EpgEvent.sample 11 "Film" "eng"])[1]? ≠
      (emittedFor Env.sample EpgLib.sample 0 (oclock 10) ServiceKey.sample
        [EpgEvent.sample 10 "News" "eng", EpgEvent.sample 11 "Film" "eng"])[1]? := by
  have hukr : selected EpgLib.sample (oclock 10) ServiceKey.sample
      [EpgEvent.sample 10 "News" "ukr", EpgEvent.sample 11 "Film" "eng"] =
        some (EpgEvent.sample 10 "News" "ukr", some (EpgEvent.sample 11 "Film" "eng")) := by decide
  have heng : selected EpgLib.sample (oclock 10) ServiceKey.sample
      [EpgEvent.sample 10 "News" "eng", EpgEvent.sample 11 "Film" "eng"] =
        some (EpgEvent.sample 10 "News" "eng", some (EpgEvent.sample 11 "Film" "eng")) := by decide
  have hcode : parseIso6392 "eng" ≠ parseIso6392 "ukr" := by decide
  refine ⟨hukr, fun hown => ?_, fun hsecond => ?_⟩
  · exact hcode ((emittedFor_eq_iff hukr).1 hown (EpgEvent.sample 11 "Film" "eng") rfl)
  · exact hcode ((second_eq_iff hukr heng).1 hsecond (EpgEvent.sample 11 "Film" "eng") rfl).symm

end MyMuxer.Epg
