import MyMuxer.Psi.EventTexts
import MyMuxer.Psi.Patched

/-!
# The sections of an event (`psi/eit.rs`)

* `splitDescriptors`: a descriptor loop as a list; `tile_flatten`: descriptors back to back tile their bytes.
* `eventDescriptors`: what is written about an event, descriptor by descriptor; `length_descriptorsLoop`.
* `EventArgs.present`: `presentFollowingSection` for any duration; `EventArgs.layout`: where its parts are.
* **`event_wellFormed`**: for which titles and descriptions a section is well formed.
-/

namespace MyMuxer.Psi

open MyMuxer

/-! ## Descriptor loops -/

/-- A descriptor is as long as its second byte says. -/
def IsDescriptor (d : Bytes) : Prop := d.length = (byte d 1).toNat + 2

/-- The descriptors of a loop, on fuel. -/
def splitDescriptors : ℕ → Bytes → List Bytes
  | fuel + 1, tag :: len :: rest =>
    (tag :: len :: rest.take len.toNat) :: splitDescriptors fuel (rest.drop len.toNat)
  | _, _ => []

theorem IsDescriptor.eq_cons {d : Bytes} (h : IsDescriptor d) :
    ∃ tag len body, d = tag :: len :: body ∧ body.length = len.toNat := by
  have hlen : d.length = (byte d 1).toNat + 2 := h
  match d, hlen with
  | tag :: len :: body, hlen => exact ⟨tag, len, body, rfl, Nat.succ.inj (Nat.succ.inj hlen)⟩

theorem splitDescriptors_flatten : ∀ (ds : List Bytes) (fuel : ℕ), (∀ d ∈ ds, IsDescriptor d) → ds.length ≤ fuel →
    splitDescriptors fuel ds.flatten = ds
  | [], fuel, _, _ => by cases fuel <;> rfl
  | d :: ds, 0, _, hfuel => absurd hfuel (Nat.not_succ_le_zero _)
  | d :: ds, fuel + 1, h, hfuel => by
    obtain ⟨tag, len, body, rfl, hbody⟩ := (h d List.mem_cons_self).eq_cons
    have ih := splitDescriptors_flatten ds fuel (fun x hx => h x (List.mem_cons_of_mem _ hx))
      (Nat.le_of_succ_le_succ hfuel)
    rw [List.flatten_cons, List.cons_append, List.cons_append, splitDescriptors, ← hbody, List.take_left,
      List.drop_left, ih]

theorem length_le_flatten (ds : List Bytes) (h : ∀ d ∈ ds, IsDescriptor d) : ds.length ≤ ds.flatten.length := by
  induction ds with
  | nil => exact Nat.zero_le _
  | cons d ds ih =>
    have hd : d.length = (byte d 1).toNat + 2 := h d List.mem_cons_self
    have := ih fun x hx => h x (List.mem_cons_of_mem _ hx)
    rw [List.flatten_cons, List.length_append, List.length_cons]
    omega

/-- **Descriptors back to back tile their bytes.** -/
theorem tile_flatten (post : Bytes) (ds : List Bytes) : ∀ pre : Bytes, (∀ d ∈ ds, IsDescriptor d) →
    DescriptorsTile (pre ++ (ds.flatten ++ post)) (pre.length + ds.flatten.length) pre.length := by
  induction ds with
  | nil => exact fun pre _ => .nil
  | cons d ds ih =>
    intro pre h
    have hd : d.length = (byte d 1).toNat + 2 := h d List.mem_cons_self
    have hbyte : byte (pre ++ ((d :: ds).flatten ++ post)) (pre.length + 1) = byte d 1 := by
      rw [byte_append_right, List.flatten_cons, List.append_assoc, byte_append_left (by omega)]
    have hrest := ih (pre ++ d) fun x hx => h x (List.mem_cons_of_mem _ hx)
    rw [List.append_assoc, ← List.append_assoc d, ← List.flatten_cons, List.length_append, Nat.add_assoc,
      ← List.length_append, ← List.flatten_cons] at hrest
    refine .descriptor ?_ ?_
    · rw [hbyte, List.flatten_cons, List.length_append]
      omega
    · rw [hbyte]
      exact (show pre.length + d.length = pre.length + 2 + (byte d 1).toNat by omega) ▸ hrest

namespace Eit

open Encode Greedy

/-! ## The descriptors of an event -/

def shortTextBytes (description : String) : Bytes :=
  if (strBytes description).length > 160 then [] else dvbText description 160

def shortPayload (lang : Bytes) (title description : String) : Bytes :=
  lang ++ [UInt8.ofNat (dvbText title 80).length] ++ dvbText title 80 ++
    [UInt8.ofNat (shortTextBytes description).length] ++ shortTextBytes description

def shortEvent (lang : Bytes) (title description : String) : Bytes :=
  [0x4D, UInt8.ofNat (shortPayload lang title description).length] ++ shortPayload lang title description

/-- The extended event descriptors, if there are any. -/
def extendedEvents (lang : Bytes) (description : String) : List Bytes :=
  if (strBytes description).length > 160 then buildExtendedEventDescriptors lang description else []

def eventDescriptors (lang : Bytes) (title description : String) : List Bytes :=
  shortEvent lang title description :: extendedEvents lang description

/-- The bytes of a title that are written. -/
def titleBytes (title : String) : ℕ := (charBytes (splitBudget 79 title.toList).1).length

/-- The bytes of a description in its first sixteen chunks. -/
def heldBytes (description : String) : ℕ := (charBytes ((chunksOf description).take 16).flatten).length

section Descriptors

variable {lang : Bytes} (hlang : lang.length = 3) (title description : String)

theorem length_title : (dvbText title 80).length = 1 + titleBytes title := by
  rw [dvbText, List.length_cons, titleBytes, Nat.add_comm]

theorem titleBytes_le : titleBytes title ≤ 79 := length_splitBudget _ _

theorem length_shortTextBytes_le : (shortTextBytes description).length ≤ 160 := by
  unfold shortTextBytes
  split_ifs
  · exact Nat.zero_le _
  · exact length_dvbText description (by norm_num)

include hlang in
theorem length_shortPayload : (shortPayload lang title description).length =
    6 + titleBytes title + (shortTextBytes description).length := by
  simp only [shortPayload, List.length_append, List.length_singleton, hlang, length_title]
  omega

include hlang in
theorem length_shortPayload_le : (shortPayload lang title description).length ≤ 245 := by
  have h1 := titleBytes_le title
  have h2 := length_shortTextBytes_le description
  rw [length_shortPayload hlang]
  omega

include hlang in
theorem descriptorsLoop_flatten :
    descriptorsLoop lang title description = (eventDescriptors lang title description).flatten := by
  have hle := length_shortPayload_le hlang title description
  have hloop : descriptorsLoop lang title description =
      (if (shortPayload lang title description).length ≤ 255 then shortEvent lang title description else []) ++
        (if (strBytes description).length > 160 then (buildExtendedEventDescriptors lang description).flatten
          else []) := rfl
  rw [hloop, if_pos (by omega), eventDescriptors, List.flatten_cons, extendedEvents]
  split_ifs
  · rfl
  · rfl

include hlang in
theorem isDescriptor_shortEvent : IsDescriptor (shortEvent lang title description) := by
  have hle := length_shortPayload_le hlang title description
  rw [IsDescriptor, shortEvent, List.length_append]
  change 2 + _ = (UInt8.ofNat (shortPayload lang title description).length).toNat + 2
  rw [UInt8.toNat_ofNat_of_lt' (by rw [UInt8.size]; omega)]
  omega

include hlang in
theorem isDescriptor_extended {d : Bytes} (hd : d ∈ buildExtendedEventDescriptors lang description) :
    IsDescriptor d := by
  obtain ⟨i, chunk, h⟩ := mem_buildExtended hlang hd
  exact h.length.symm

include hlang in
theorem isDescriptor_event : ∀ d ∈ eventDescriptors lang title description, IsDescriptor d := by
  intro d hd
  rcases List.mem_cons.1 hd with rfl | hd
  · exact isDescriptor_shortEvent hlang title description
  unfold extendedEvents at hd
  split_ifs at hd
  · exact isDescriptor_extended hlang description hd
  · cases hd

/-! ## How long they are -/

theorem length_flatten_extended (ds : List Bytes) (h : ∀ d ∈ ds, d.length = 9 + (extendedText d).length) :
    ds.flatten.length = 9 * ds.length + (ds.map extendedText).flatten.length := by
  induction ds with
  | nil => rfl
  | cons d ds ih =>
    have hd := h d List.mem_cons_self
    have hrest := ih fun x hx => h x (List.mem_cons_of_mem _ hx)
    rw [List.flatten_cons, List.map_cons, List.flatten_cons, List.length_append, List.length_append, List.length_cons]
    omega

include hlang in
theorem length_buildExtended_flatten : (buildExtendedEventDescriptors lang description).flatten.length =
    9 * min (chunksOf description).length 16 + heldBytes description := by
  rw [length_flatten_extended, extendedTexts_eq hlang, length_buildExtended, heldBytes, charBytes_flatten]
  intro d hd
  obtain ⟨i, chunk, h⟩ := mem_buildExtended hlang hd
  have hlen := congrArg List.length h.text
  have htext := h.textLength
  rw [List.length_drop, List.length_cons] at hlen
  rw [h.extendedText_eq]
  omega

theorem heldBytes_le_mul : heldBytes description ≤ min (chunksOf description).length 16 * 246 := by
  have hall : ∀ chunk ∈ (chunksOf description).take 16, weight Char.utf8Size chunk ≤ maxTextChunk :=
    fun chunk hchunk => (split_chunksOf description).weight_le chunk (List.mem_of_mem_take hchunk)
  have h := weight_flatten_le _ _ hall
  rw [List.length_take, Nat.min_comm] at h
  rw [heldBytes, length_charBytes]
  exact h

/-- What is held is a prefix of the description. -/
theorem prefix_held : charBytes ((chunksOf description).take 16).flatten <+: strBytes description := by
  rw [charBytes_flatten, ← charBytes_chunksOf]
  exact ((List.take_prefix 16 _).map charBytes).flatten

/-- All but the last chunk have 243 bytes, so `243 * n` bytes take `n` chunks at most. -/
theorem length_chunksOf_le {n : ℕ} (h : (strBytes description).length ≤ n * 243) :
    (chunksOf description).length ≤ n := by
  have hsplit := split_chunksOf description
  by_cases hnil : description.toList = []
  · have hempty : chunksOf description = [] := by rw [chunksOf, hnil]; rfl
    rw [hempty]
    exact Nat.zero_le _
  have hlt := hsplit.length_lt (fun c => c.utf8Size_pos) (fun c => c.utf8Size_le_four) hnil
  rw [← length_charBytes, maxTextChunk] at hlt
  have hmul : (chunksOf description).tail.length * 243 < n * 243 := hlt.trans_le h
  have := Nat.lt_of_mul_lt_mul_right hmul
  rw [List.length_tail] at this
  omega

theorem held_eq (h : (chunksOf description).length ≤ 16) :
    charBytes ((chunksOf description).take 16).flatten = strBytes description := by
  rw [List.take_of_length_le h, charBytes_flatten, charBytes_chunksOf]

include hlang in
theorem length_descriptorsLoop : (descriptorsLoop lang title description).length =
    8 + titleBytes title + (shortTextBytes description).length +
      (extendedEvents lang description).flatten.length := by
  rw [descriptorsLoop_flatten hlang, eventDescriptors, List.flatten_cons, List.length_append, shortEvent,
    List.length_append, length_shortPayload hlang]
  change 2 + _ + _ = _
  omega

include hlang in
/-- The descriptors are short enough for a section exactly when title and description are. -/
theorem descriptorsLoop_le_iff : (descriptorsLoop lang title description).length ≤ 4066 ↔
    titleBytes title + heldBytes description ≤ 3914 := by
  have htitle := titleBytes_le title
  have hmul := heldBytes_le_mul description
  rw [length_descriptorsLoop hlang, shortTextBytes, extendedEvents]
  split_ifs with hlong
  · rw [length_buildExtended_flatten hlang, List.length_nil]
    omega
  · have htext := length_dvbText description (show 0 < 160 by norm_num)
    have hheld := (prefix_held description).length_le
    rw [← heldBytes] at hheld
    rw [List.flatten_nil, List.length_nil]
    omega

include hlang in
theorem descriptorsLoop_lt : (descriptorsLoop lang title description).length < 4336 := by
  have htitle := titleBytes_le title
  have htext := length_shortTextBytes_le description
  have hmul := heldBytes_le_mul description
  have hbuild := length_buildExtended_flatten hlang description
  have hextended : (extendedEvents lang description).flatten.length ≤ 4080 := by
    unfold extendedEvents
    split_ifs
    · omega
    · exact Nat.zero_le _
  rw [length_descriptorsLoop hlang]
  omega

end Descriptors

/-! ## The section -/

/-- The arguments of `present_following_section`; `seconds` is the `as_seconds_f32() as u32` of the duration. -/
structure EventArgs where
  serviceId : UInt16
  version : UInt8
  transportStreamId : UInt16
  originalNetworkId : UInt16
  sectionNumber : UInt8
  eventId : UInt16
  start : DateTime
  seconds : ℕ
  title : String
  description : String
  language : String

namespace EventArgs

variable (a : EventArgs)

def lang : Bytes := parseIso6392 a.language

theorem length_lang : a.lang.length = 3 := rfl

/-- The descriptors, before they are cut. -/
def loop : Bytes := descriptorsLoop a.lang a.title a.description

def header : Bytes :=
  sectionHeader a.serviceId a.version a.transportStreamId a.originalNetworkId a.sectionNumber

/-- `eventBytes`, for any duration. -/
def event : Bytes :=
  let descLoopLen := UInt16.ofNat a.loop.length
  let descriptors := if descLoopLen > 0x0FFF then a.loop.take 0x0FFF else a.loop
  [high a.eventId, low a.eventId] ++ encodeDvbTime a.start ++ encodeDuration a.seconds ++
    [(0x80 : UInt8) ||| high descLoopLen, low descLoopLen] ++ descriptors

/-- `presentFollowingSection`, for any duration. -/
def present (env : Env) : Section := sectionWithCrc env pid (Encode.setSectionLength (a.header ++ a.event))

end EventArgs

theorem presentFollowingSection_eq (env : Env) (serviceId : UInt16) (version : UInt8)
    (transportStreamId originalNetworkId : UInt16) (sectionNumber : UInt8) (eventId : UInt16) (start : DateTime)
    (duration : ℕ) (title description language : String) :
    presentFollowingSection env serviceId version transportStreamId originalNetworkId sectionNumber eventId start
      duration title description language = EventArgs.present
        { serviceId, version, transportStreamId, originalNetworkId, sectionNumber, eventId, start,
          seconds := secondsF32 duration, title, description, language } env := rfl

/-- A length of twelve bits is written by both functions in the same way. -/
theorem setSectionLength_eq {s : Bytes} (h3 : 3 ≤ s.length) (h : s.length + 1 < 4096) :
    Encode.setSectionLength s = Psi.setSectionLength s := by
  have hmask : ∀ b : UInt8, b.toNat < 16 → b &&& (0x0F : UInt8) = b := by decide
  have hhigh : (high (UInt16.ofNat (s.length - 3 + 4))).toNat < 16 := by
    rw [high, toNat_highByte, UInt16.toNat_ofNat']
    omega
  unfold Encode.setSectionLength Psi.setSectionLength
  dsimp only
  rw [low_word]
  change _ = (s.set 1 (byte s 1 &&& (0xF0 : UInt8) |||
    high (UInt16.ofNat (s.length - 3 + 4)) &&& (0x0F : UInt8))).set 2 _
  rw [hmask _ hhigh]

/-- Descriptors are cut by their length alone. -/
theorem cut_iff {ds : Bytes} (hds : ds.length < 65536) : UInt16.ofNat ds.length > 0x0FFF ↔ 4095 < ds.length := by
  rw [gt_iff_lt, UInt16.lt_iff_toNat_lt, UInt16.toNat_ofNat_of_lt' hds]
  rfl

namespace EventArgs

variable (a : EventArgs) (env : Env)

theorem bytes_present : (a.present env).bytes = withCrc env (Encode.setSectionLength (a.header ++ a.event)) := rfl

theorem loop_flatten : a.loop = (eventDescriptors a.lang a.title a.description).flatten :=
  descriptorsLoop_flatten a.length_lang a.title a.description

theorem loop_le_iff : a.loop.length ≤ 4066 ↔ titleBytes a.title + heldBytes a.description ≤ 3914 :=
  descriptorsLoop_le_iff a.length_lang a.title a.description

theorem length_present : (a.present env).bytes.length = 30 + min a.loop.length 4095 := by
  have hlt : a.loop.length < 4336 := descriptorsLoop_lt a.length_lang a.title a.description
  have hcut : (if UInt16.ofNat a.loop.length > 0x0FFF then a.loop.take 0x0FFF else a.loop).length =
      min a.loop.length 4095 := by
    split_ifs with h
    · rw [List.length_take, Nat.min_comm]
    · rw [cut_iff (by omega)] at h
      omega
  rw [bytes_present, withCrc, List.length_append, Encode.setSectionLength_length, List.length_append, event,
    List.length_append, hcut]
  change 14 + (12 + _) + 4 = _
  omega

/-- **Where the parts of a section are**, if the descriptors are not cut. -/
theorem layout (hle : a.loop.length ≤ 4066) : Sealed env (a.present env).bytes ∧ ∃ pre crc, pre.length = 26 ∧
    crc.length = 4 ∧ (a.present env).bytes = pre ++ (a.loop ++ crc) ∧
      byte pre 24 = (0x80 : UInt8) ||| high (UInt16.ofNat a.loop.length) ∧
      byte pre 25 = low (UInt16.ofNat a.loop.length) := by
  have hcut : ¬ UInt16.ofNat a.loop.length > 0x0FFF := by
    rw [cut_iff (by omega)]
    omega
  -- the 26 bytes in front of the descriptors
  obtain ⟨front, hfront, hlen, h24, h25⟩ : ∃ front : Bytes, a.header ++ a.event = front ++ a.loop ∧
      front.length = 26 ∧ byte front 24 = (0x80 : UInt8) ||| high (UInt16.ofNat a.loop.length) ∧
      byte front 25 = low (UInt16.ofNat a.loop.length) := by
    refine ⟨a.header ++ ([high a.eventId, low a.eventId] ++ encodeDvbTime a.start ++ encodeDuration a.seconds ++
      [(0x80 : UInt8) ||| high (UInt16.ofNat a.loop.length), low (UInt16.ofNat a.loop.length)]), ?_, rfl, rfl, rfl⟩
    rw [event, if_neg hcut, List.append_assoc a.header]
  have hsum : (front ++ a.loop).length = 26 + a.loop.length := by rw [List.length_append, hlen]
  rw [bytes_present, hfront, setSectionLength_eq (by omega) (by omega)]
  refine ⟨sealed_withCrc env (by omega) (by omega), ?_⟩
  obtain ⟨pre, hpre, e, hbyte⟩ := setSectionLength_front front a.loop (by omega)
  refine ⟨pre, crcBytes (env.crc (Psi.setSectionLength (front ++ a.loop))), hpre.trans hlen, rfl, ?_, ?_, ?_⟩
  · rw [withCrc, e, List.append_assoc]
  · rw [hbyte 24 (by omega) (by norm_num) (by norm_num), h24]
  · rw [hbyte 25 (by omega) (by norm_num) (by norm_num), h25]

end EventArgs

/-! ## Well-formed sections -/

/-- `descriptors_loop_length`. -/
def loopLen (s : Bytes) : ℕ := (be16 0x0F (byte s 24) (byte s 25)).toNat

/-- The lengths of a section are right, its descriptors tile their loop, and it comes back when it is packed. -/
structure WellFormedEit (section_ : Section) : Prop where
  hasLength : HasLength section_.bytes
  sectionLen_le : sectionLen section_.bytes ≤ 4093
  loopLen_eq : loopLen section_.bytes + 30 = section_.bytes.length
  tiled : DescriptorsTile section_.bytes (section_.bytes.length - 4) 26
  runningStatus : byte section_.bytes 24 >>> 5 = 4
  freeCaMode : (byte section_.bytes 24 >>> 4) &&& 1 = 0
  repacked : ∀ (cc : UInt8) (r : SectionReassembler), r.pid = section_.pid →
    (feed r (packMulti section_.bytes section_.pid cc).1).1 = [section_.bytes]

/-- The byte of `running_status` and `free_CA_mode` has four bits left for the loop length. -/
theorem high_loopLen {n : ℕ} (hn : n < 4096) : ((0x80 : UInt8) ||| high (UInt16.ofNat n)) >>> 5 = 4 ∧
    (((0x80 : UInt8) ||| high (UInt16.ofNat n)) >>> 4) &&& 1 = 0 ∧
    (be16 0x0F ((0x80 : UInt8) ||| high (UInt16.ofNat n)) (low (UInt16.ofNat n))).toNat = n := by
  have hbits : ∀ b : UInt8, b.toNat < 16 → ((0x80 : UInt8) ||| b) >>> 5 = 4 ∧
      (((0x80 : UInt8) ||| b) >>> 4) &&& 1 = 0 ∧ ((0x80 : UInt8) ||| b).toNat % 2 ^ 4 = b.toNat := by decide
  have hhigh : (high (UInt16.ofNat n)).toNat = n / 256 := by
    rw [high, toNat_highByte, UInt16.toNat_ofNat']
    omega
  have hlow : (low (UInt16.ofNat n)).toNat = n % 256 := by
    rw [low, UInt16.toNat_toUInt8, UInt16.toNat_ofNat']
    omega
  obtain ⟨h1, h2, h3⟩ := hbits (high (UInt16.ofNat n)) (by omega)
  refine ⟨h1, h2, ?_⟩
  rw [be16_toNat (k := 4) (by norm_num) rfl, h3, hhigh, hlow]
  omega

section WellFormed

variable (env : Env) (a : EventArgs)

theorem wellFormed_of_le (hle : a.loop.length ≤ 4066) : WellFormedEit (a.present env) := by
  obtain ⟨hsealed, pre, crc, hpre, hcrc, hbytes, h24, h25⟩ := a.layout env hle
  have hall := isDescriptor_event a.length_lang a.title a.description
  have hlen : (a.present env).bytes.length = a.loop.length + 30 := by
    rw [hbytes, List.length_append, List.length_append, hpre, hcrc]
    omega
  have hb : ∀ i < 26, byte (a.present env).bytes i = byte pre i := by
    intro i hi
    rw [hbytes, byte_append_left (by omega)]
  have hsection : (a.present env).bytes.length = sectionLen (a.present env).bytes + 3 := hsealed.hasLength
  obtain ⟨hstatus, hca, hloop⟩ := high_loopLen (show a.loop.length < 4096 by omega)
  constructor
  · exact hsealed.hasLength
  · omega
  · rw [loopLen, hb 24 (by norm_num), hb 25 (by norm_num), h24, h25, hloop, hlen]
  · have htile := tile_flatten crc _ pre hall
    rw [← a.loop_flatten, ← hbytes, hpre] at htile
    rw [show (a.present env).bytes.length - 4 = 26 + a.loop.length by omega]
    exact htile
  · rw [hb 24 (by norm_num), h24, hstatus]
  · rw [hb 24 (by norm_num), h24, hca]
  · intro cc r hr
    have hpid : r.pid ≤ 0x1FFF := by
      rw [hr]
      exact show (0x0012 : UInt16) ≤ 0x1FFF by decide
    rw [← hr]
    exact feed_packMulti ⟨(a.present env).bytes, by omega, by omega⟩ cc hpid

/-- A section that is longer than its length field can say is not well formed. -/
theorem le_of_wellFormed (h : WellFormedEit (a.present env)) : a.loop.length ≤ 4066 := by
  have hlength := a.length_present env
  have hsection := h.hasLength
  have hle := h.sectionLen_le
  rw [HasLength, hlength] at hsection
  omega

/-- **A section is well formed exactly when title and description leave room for its header.** -/
theorem event_wellFormed : WellFormedEit (a.present env) ↔ titleBytes a.title + heldBytes a.description ≤ 3914 := by
  constructor
  · intro h
    exact a.loop_le_iff.1 (le_of_wellFormed env a h)
  · intro h
    exact wellFormed_of_le env a (a.loop_le_iff.2 h)

/-- A title and a description that are too long together. -/
theorem not_wellFormed {title description : String} (h : 3914 < titleBytes title + heldBytes description) :
    ¬ WellFormedEit (presentFollowingSection env a.serviceId a.version a.transportStreamId a.originalNetworkId
      a.sectionNumber a.eventId a.start a.seconds title description a.language) := by
  intro hwell
  rw [presentFollowingSection_eq] at hwell
  have hle := (EventArgs.loop_le_iff _).1 (le_of_wellFormed _ _ hwell)
  dsimp only at hle
  omega

end WellFormed

/-- New Year's Day. -/
def newYear : DateTime :=
  { year := 2026, month := 1, day := 1, hour := 0, minute := 0, second := 0, nanosecond := 0 }

theorem titleBytes_letters {n : ℕ} (hn : n ≤ 79) : titleBytes (letters n) = n := by
  have hfit := splitBudget_of_le (List.replicate n 'a') 79 (by rwa [weight_letters])
  rw [titleBytes, toList_letters, hfit, length_charBytes, weight_letters]

theorem heldBytes_letters {n : ℕ} (hn : n ≤ 16 * 243) : heldBytes (letters n) = n := by
  have hchunks := length_chunksOf_le (letters n) (show _ ≤ 16 * 243 by rwa [length_letters])
  rw [heldBytes, held_eq _ hchunks, length_letters]

/-- An event without texts. -/
def newYearEvent : EventArgs :=
  { serviceId := 1, version := 0, transportStreamId := 1, originalNetworkId := 1, sectionNumber := 0, eventId := 7,
    start := newYear, seconds := 3600, title := "", description := "", language := "eng" }

/-- A title of 79 and a description of 3888 letters: more than the length field can say. -/
theorem event_overflows : ¬ WellFormedEit
    (presentFollowingSection Env.sample 1 0 1 1 0 7 newYear 3600 (letters 79) (letters 3888) "eng") := by
  apply not_wellFormed Env.sample newYearEvent
  rw [titleBytes_letters le_rfl, heldBytes_letters (by norm_num)]
  norm_num

end Eit

end MyMuxer.Psi
