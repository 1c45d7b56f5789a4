import Mathlib.Data.List.Sort
import MyMuxer.Psi.EventSections

/-!
# The text that the section of an event carries

* `carriedText`: the text of the extended event descriptors, in the order of their numbers, or that of the short one.
* `shortText_shortEvent`, `loopText_short`, `loopText_long`: what is read of the two kinds of loops.
* **`event_carried`**: which descriptions of `15 * 243` bytes at most are carried whole.
-/

namespace MyMuxer.Psi.Eit

open MyMuxer Encode Greedy

/-- The descriptors of a section. -/
def carriedDescriptors (s : Bytes) : List Bytes := splitDescriptors s.length ((s.take (s.length - 4)).drop 26)

/-- The text of a short event descriptor, without the byte for the character table. -/
def shortText (d : Bytes) : Bytes :=
  let nameLen := (byte d 5).toNat
  ((d.drop (7 + nameLen)).take (byte d (6 + nameLen)).toNat).drop 1

def descriptorNumber (d : Bytes) : UInt8 := byte d 2 >>> 4

/-- The text of the extended event descriptors in the order of their numbers, if there are any, and that of the
short event descriptor if there are none. -/
def loopText (ds : List Bytes) : Bytes :=
  let extended := ds.filter fun d => byte d 0 = 0x4E
  if extended = [] then ((ds.filter fun d => byte d 0 = 0x4D).map shortText).flatten
  else ((extended.insertionSort fun a b => descriptorNumber a ≤ descriptorNumber b).map extendedText).flatten

/-- The text that a section carries. -/
def carriedText (s : Bytes) : Bytes := loopText (carriedDescriptors s)

theorem carriedDescriptors_eq {pre crc : Bytes} {ds : List Bytes} (hpre : pre.length = 26) (hcrc : crc.length = 4)
    (hds : ∀ d ∈ ds, IsDescriptor d) : carriedDescriptors (pre ++ (ds.flatten ++ crc)) = ds := by
  have hlen : (pre ++ (ds.flatten ++ crc)).length - 4 = (pre ++ ds.flatten).length := by
    rw [List.length_append, List.length_append, List.length_append, hcrc]
    omega
  have htake : (pre ++ (ds.flatten ++ crc)).take (pre ++ ds.flatten).length = pre ++ ds.flatten := by
    rw [← List.append_assoc]
    exact List.take_left
  have hfuel : ds.length ≤ (pre ++ (ds.flatten ++ crc)).length := by
    have := length_le_flatten ds hds
    rw [List.length_append, List.length_append]
    omega
  rw [carriedDescriptors, hlen, htake, ← hpre, List.drop_left, splitDescriptors_flatten ds _ hds hfuel]

section Carried

variable {lang : Bytes} (hlang : lang.length = 3) (title description : String)

include hlang in
theorem shortText_shortEvent :
    shortText (shortEvent lang title description) = (shortTextBytes description).drop 1 := by
  obtain ⟨x, y, z, rfl⟩ := List.length_eq_three.1 hlang
  have hname := titleBytes_le title
  have htext := length_shortTextBytes_le description
  have hnameLen : (UInt8.ofNat (dvbText title 80).length).toNat = (dvbText title 80).length :=
    UInt8.toNat_ofNat_of_lt' (by rw [UInt8.size, length_title]; omega)
  have htextLen : (UInt8.ofNat (shortTextBytes description).length).toNat = (shortTextBytes description).length :=
    UInt8.toNat_ofNat_of_lt' (by rw [UInt8.size]; omega)
  -- the name, with what is in front of it, and the text, with its length
  obtain ⟨front, hfront, h5, e⟩ : ∃ front : Bytes, front.length = 6 ∧
      byte front 5 = UInt8.ofNat (dvbText title 80).length ∧ shortEvent [x, y, z] title description =
        (front ++ dvbText title 80) ++
          (UInt8.ofNat (shortTextBytes description).length :: shortTextBytes description) := by
    refine ⟨[0x4D, UInt8.ofNat (shortPayload [x, y, z] title description).length, x, y, z,
      UInt8.ofNat (dvbText title 80).length], rfl, rfl, ?_⟩
    simp only [shortEvent, shortPayload, List.cons_append, List.nil_append, List.append_assoc]
  have hlen : (front ++ dvbText title 80).length = 6 + (dvbText title 80).length := by
    rw [List.length_append, hfront]
  have hb5 : (byte (shortEvent [x, y, z] title description) 5).toNat = (dvbText title 80).length := by
    rw [e, byte_append_left (by omega), byte_append_left (by omega), h5, hnameLen]
  have hb6 : byte (shortEvent [x, y, z] title description) (6 + (dvbText title 80).length) =
      UInt8.ofNat (shortTextBytes description).length := by
    rw [e, ← hlen]
    exact byte_append_right _ _ 0
  have hdrop : (shortEvent [x, y, z] title description).drop (7 + (dvbText title 80).length) =
      shortTextBytes description := by
    rw [e, show 7 + (dvbText title 80).length = (front ++ dvbText title 80).length + 1 by omega, ← List.drop_drop,
      List.drop_left]
    rfl
  rw [shortText, hb5, hb6, hdrop, htextLen, List.take_length]

include hlang in
theorem pairwise_descriptorNumber : (buildExtendedEventDescriptors lang description).Pairwise
    fun a b => descriptorNumber a ≤ descriptorNumber b := by
  rw [List.pairwise_iff_getElem]
  intro i j hi hj hij
  obtain ⟨_, -, h⟩ := getElem?_buildExtended hlang (List.getElem?_eq_getElem hi)
  obtain ⟨_, -, h'⟩ := getElem?_buildExtended hlang (List.getElem?_eq_getElem hj)
  rw [UInt8.le_iff_toNat_le, descriptorNumber, descriptorNumber, h.descriptorNumber, h'.descriptorNumber]
  omega

include hlang in
theorem tag_extended {d : Bytes} (hd : d ∈ buildExtendedEventDescriptors lang description) : byte d 0 = 0x4E := by
  obtain ⟨i, chunk, h⟩ := mem_buildExtended hlang hd
  exact h.tag

/-- The extended event descriptors of a section are found among its descriptors. -/
theorem filter_extended (hall : ∀ d ∈ extendedEvents lang description, byte d 0 = 0x4E) :
    (eventDescriptors lang title description).filter (fun d => byte d 0 = 0x4E) =
      extendedEvents lang description := by
  have htag : byte (shortEvent lang title description) 0 = 0x4D := rfl
  rw [eventDescriptors, List.filter_cons_of_neg (by rw [htag]; decide), List.filter_eq_self]
  intro d hd
  exact decide_eq_true (hall d hd)

include hlang in
theorem loopText_short (hshort : (strBytes description).length ≤ 160) :
    loopText (eventDescriptors lang title description) = charBytes (splitBudget 159 description.toList).1 := by
  have hnone : extendedEvents lang description = [] := if_neg (by omega)
  have hall : ∀ d ∈ extendedEvents lang description, byte d 0 = 0x4E := by
    rw [hnone]
    exact fun d hd => nomatch hd
  have hfilter := filter_extended title description hall
  have htag : byte (shortEvent lang title description) 0 = 0x4D := rfl
  rw [loopText, hfilter, if_pos hnone, eventDescriptors, hnone, List.filter_cons_of_pos (by rw [htag]; decide),
    List.filter_nil, List.map_singleton, List.flatten_singleton, shortText_shortEvent hlang, shortTextBytes,
    if_neg (by omega)]
  rfl

include hlang in
theorem loopText_long (hlong : 160 < (strBytes description).length) :
    loopText (eventDescriptors lang title description) = charBytes ((chunksOf description).take 16).flatten := by
  have hsome : extendedEvents lang description = buildExtendedEventDescriptors lang description := if_pos hlong
  have hall : ∀ d ∈ extendedEvents lang description, byte d 0 = 0x4E := by
    rw [hsome]
    exact fun d hd => tag_extended hlang description hd
  have hfilter := filter_extended title description hall
  have hne : buildExtendedEventDescriptors lang description ≠ [] := by
    intro hnil
    have hlen := length_buildExtended lang description
    have htext := charBytes_chunksOf description
    rw [hnil, List.length_nil] at hlen
    rw [List.length_eq_zero_iff.1 (show (chunksOf description).length = 0 by omega)] at htext
    rw [← htext] at hlong
    exact absurd hlong (Nat.not_lt_zero _)
  rw [loopText, hfilter, hsome, if_neg hne, (pairwise_descriptorNumber hlang description).insertionSort_eq,
    extendedTexts_eq hlang, charBytes_flatten]

end Carried

section Whole

variable (env : Env) (a : EventArgs)

theorem carriedText_eq (h : a.loop.length ≤ 4066) :
    carriedText (a.present env).bytes = loopText (eventDescriptors a.lang a.title a.description) := by
  obtain ⟨-, pre, crc, hpre, hcrc, hbytes, -⟩ := a.layout env h
  rw [hbytes, carriedText, a.loop_flatten,
    carriedDescriptors_eq hpre hcrc (isDescriptor_event a.length_lang a.title a.description)]

theorem loop_le_of_short (h : (strBytes a.description).length ≤ 15 * 243) : a.loop.length ≤ 4066 := by
  have hheld := (prefix_held a.description).length_le
  have htitle := titleBytes_le a.title
  apply a.loop_le_iff.2
  rw [heldBytes]
  omega

/-- A description of 160 bytes loses its last character. -/
theorem carried_short (h : (strBytes a.description).length = 160) :
    carriedText (a.present env).bytes ≠ strBytes a.description := by
  rw [carriedText_eq env a (loop_le_of_short a (by omega)), loopText_short a.length_lang a.title a.description h.le]
  intro heq
  have hfit := length_splitBudget a.description.toList 159
  rw [heq, h] at hfit
  omega

/-- **A section carries all of a description, but for one of 160 bytes.** -/
theorem event_carried (hbytes : (strBytes a.description).length ≤ 15 * 243) :
    carriedText (a.present env).bytes = strBytes a.description ↔ (strBytes a.description).length ≠ 160 := by
  have hchunks := length_chunksOf_le a.description hbytes
  constructor
  · intro heq h160
    exact carried_short env a h160 heq
  · intro hne
    rw [carriedText_eq env a (loop_le_of_short a hbytes)]
    rcases Nat.lt_or_ge 160 (strBytes a.description).length with hlong | hshort
    · rw [loopText_long a.length_lang a.title a.description hlong, held_eq a.description (by omega)]
    · have hfit : weight Char.utf8Size a.description.toList ≤ 159 := by
        rw [← length_charBytes, ← strBytes_eq]
        omega
      rw [loopText_short a.length_lang a.title a.description hshort, splitBudget_of_le _ _ hfit, strBytes_eq]

end Whole

/-- An event with a description of `n` letters. -/
def film (n : ℕ) : EventArgs := { newYearEvent with title := "Film", description := letters n }

/-- A description of 3000 letters, in thirteen descriptors. -/
theorem event_carried_sample :
    carriedText ((film 3000).present Env.sample).bytes = strBytes (film 3000).description := by
  have hlen : (strBytes (film 3000).description).length = 3000 := length_letters 3000
  apply (event_carried Env.sample (film 3000) (by rw [hlen]; norm_num)).2
  rw [hlen]
  norm_num

/-- A description of 160 letters is not carried whole. -/
theorem event_loses : carriedText (presentFollowingSection Env.sample 1 0 1 1 0 7 newYear 3600 "Film"
    (letters 160) "eng").bytes ≠ strBytes (letters 160) := by
  rw [presentFollowingSection_eq]
  exact carried_short Env.sample { film 160 with seconds := secondsF32 3600 } (length_letters 160)

end MyMuxer.Psi.Eit
