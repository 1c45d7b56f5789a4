import MyMuxer.Psi.Encode

/-!
# The event information table (`psi/eit.rs`)

* `buildExtendedEventDescriptors`, `descriptorsLoop`: what a section says about an event.
* `presentFollowingSection`, `emptyPresentFollowingSection`.
* `sectionId`, `versionNumber`, `unversioned`: what the bytes of such a section say; `unversioned_section`: all
  but its version number is the same for every version.
* `langCode_section`: the language code is in the section.
-/

namespace MyMuxer.Psi.Eit

open Encode

def pid : UInt16 := 0x0012

def maxTextChunk : ℕ := 246

def dvbUtf8Prefix : UInt8 := 0x15

/-- The loop of `build_extended_event_descriptors`. -/
def textChunks : ℕ → List Char → List (List Char)
  | 0, _ => []
  | fuel + 1, remaining =>
    if remaining = [] then []
    else if (charBytes remaining).length ≤ maxTextChunk then [remaining]
    else
      let (chunk, remaining) := splitBudget maxTextChunk remaining
      if chunk = [] then [] else chunk :: textChunks fuel remaining

def buildExtendedEventDescriptors (lang : Bytes) (text : String) : List Bytes :=
  if text.toList = [] then []
  else
    let chunks := textChunks text.toList.length text.toList
    let totalChunks := min chunks.length 16
    let lastDescNum := UInt8.ofNat (totalChunks - 1)
    (chunks.take totalChunks).zipIdx.map fun (chunk, i) =>
      let textLen := 1 + (charBytes chunk).length
      let payloadLen := 6 + textLen
      [0x4E, UInt8.ofNat payloadLen, (UInt8.ofNat i <<< 4) ||| (lastDescNum &&& 0x0F)] ++ lang ++
        [0x00, UInt8.ofNat textLen, dvbUtf8Prefix] ++ charBytes chunk

def isAsciiAlphabetic (b : UInt8) : Bool := (0x41 ≤ b && b ≤ 0x5A) || (0x61 ≤ b && b ≤ 0x7A)

def toAsciiLowercase (b : UInt8) : UInt8 := if 0x41 ≤ b && b ≤ 0x5A then b + 0x20 else b

/-- The letters of a language code, and those of `eng` in the place of what is no letter. -/
def parseIso6392 (lang : String) : Bytes :=
  let bytes := strBytes lang
  let letter (i : ℕ) (default : UInt8) : UInt8 :=
    match bytes[i]? with
    | some b => if isAsciiAlphabetic b then toAsciiLowercase b else default
    | none => default
  [letter 0 0x65, letter 1 0x6E, letter 2 0x67]

/-- The descriptors of an event. -/
def descriptorsLoop (langCode : Bytes) (title description : String) : Bytes :=
  let nameBytes := dvbText title 80
  let shortTextBytes := if (strBytes description).length > 160 then [] else dvbText description 160
  let shortPayload := langCode ++ [UInt8.ofNat nameBytes.length] ++ nameBytes ++
    [UInt8.ofNat shortTextBytes.length] ++ shortTextBytes
  (if shortPayload.length ≤ 255 then [0x4D, UInt8.ofNat shortPayload.length] ++ shortPayload else []) ++
    if (strBytes description).length > 160 then (buildExtendedEventDescriptors langCode description).flatten else []

/-- The bytes that every section begins with. -/
def sectionHeader (serviceId : UInt16) (version : UInt8) (transportStreamId originalNetworkId : UInt16)
    (sectionNumber : UInt8) : Bytes :=
  [0x4E, 0xF0, 0x00, high serviceId, low serviceId, (0xC1 : UInt8) ||| ((version &&& 0x1F) <<< 1), sectionNumber, 0x01,
    high transportStreamId, low transportStreamId, high originalNetworkId, low originalNetworkId, 0x01, 0x4E]

/-- The event of a section. -/
def eventBytes (eventId : UInt16) (start : DateTime) (duration : ℕ) (title description language : String) : Bytes :=
  let descriptors := descriptorsLoop (parseIso6392 language) title description
  -- the length is that of the loop before it is cut
  let descLoopLen := UInt16.ofNat descriptors.length
  let descriptors := if descLoopLen > 0x0FFF then descriptors.take 0x0FFF else descriptors
  [high eventId, low eventId] ++ encodeDvbTime start ++ encodeDuration (secondsF32 duration) ++
    [(0x80 : UInt8) ||| high descLoopLen, low descLoopLen] ++ descriptors

def presentFollowingSection (env : Env) (serviceId : UInt16) (version : UInt8)
    (transportStreamId originalNetworkId : UInt16) (sectionNumber : UInt8) (eventId : UInt16) (start : DateTime)
    (duration : ℕ) (title description language : String) : Section :=
  sectionWithCrc env pid (Encode.setSectionLength
    (sectionHeader serviceId version transportStreamId originalNetworkId sectionNumber ++
      eventBytes eventId start duration title description language))

def emptyPresentFollowingSection (env : Env) (serviceId : UInt16) (version : UInt8)
    (transportStreamId originalNetworkId : UInt16) (sectionNumber : UInt8) : Section :=
  sectionWithCrc env pid (Encode.setSectionLength
    (sectionHeader serviceId version transportStreamId originalNetworkId sectionNumber))

/-! ## What a section says -/

/-- `original_network_id`, `transport_stream_id`, `service_id` and `section_number`. -/
def sectionId (s : Bytes) : (UInt16 × UInt16 × UInt16) × UInt8 :=
  ((be16 0xFFFF (byte s 10) (byte s 11), be16 0xFFFF (byte s 8) (byte s 9), be16 0xFFFF (byte s 3) (byte s 4)),
    byte s 6)

/-- `version_number`. -/
def versionNumber (s : Bytes) : UInt8 := (byte s 5 >>> 1) &&& 0x1F

/-- A section without its version number and its CRC. -/
def unversioned (s : Bytes) : Bytes := (s.take (s.length - 4)).set 5 (byte s 5 &&& 0xC1)

/-- The language code of the first descriptor. -/
def langCode (s : Bytes) : Bytes := [byte s 28, byte s 29, byte s 30]

variable (env : Env) (serviceId transportStreamId originalNetworkId : UInt16) (version sectionNumber : UInt8)

/-- A section of the header and a rest. -/
def sectionOf (rest : Bytes) : Section :=
  sectionWithCrc env pid (Encode.setSectionLength
    (sectionHeader serviceId version transportStreamId originalNetworkId sectionNumber ++ rest))

variable (rest : Bytes)

theorem bytes_sectionOf :
    (sectionOf env serviceId transportStreamId originalNetworkId version sectionNumber rest).bytes =
      withCrc env (Encode.setSectionLength
        (sectionHeader serviceId version transportStreamId originalNetworkId sectionNumber ++ rest)) := rfl

theorem byte_sectionOf {i : ℕ} (h3 : 3 ≤ i) (hi : i < 14 + rest.length) :
    byte (sectionOf env serviceId transportStreamId originalNetworkId version sectionNumber rest).bytes i =
      byte (sectionHeader serviceId version transportStreamId originalNetworkId sectionNumber ++ rest) i := by
  have hlen : i < (Encode.setSectionLength
      (sectionHeader serviceId version transportStreamId originalNetworkId sectionNumber ++ rest)).length := by
    rw [Encode.setSectionLength_length, List.length_append]
    exact hi
  rw [bytes_sectionOf, withCrc, byte_append_left hlen, byte_setSectionLength _ h3]

theorem sectionId_section :
    sectionId (sectionOf env serviceId transportStreamId originalNetworkId version sectionNumber rest).bytes =
      ((originalNetworkId, transportStreamId, serviceId), sectionNumber) := by
  have hbyte : ∀ i, 3 ≤ i → i < 14 →
      byte (sectionOf env serviceId transportStreamId originalNetworkId version sectionNumber rest).bytes i =
        byte (sectionHeader serviceId version transportStreamId originalNetworkId sectionNumber ++ rest) i :=
    fun i h3 hi => byte_sectionOf _ _ _ _ _ _ _ h3 (by omega)
  rw [sectionId, hbyte 3 (by norm_num) (by norm_num), hbyte 4 (by norm_num) (by norm_num),
    hbyte 6 (by norm_num) (by norm_num), hbyte 8 (by norm_num) (by norm_num), hbyte 9 (by norm_num) (by norm_num),
    hbyte 10 (by norm_num) (by norm_num), hbyte 11 (by norm_num) (by norm_num)]
  change ((be16 0xFFFF (high originalNetworkId) (low originalNetworkId),
    be16 0xFFFF (high transportStreamId) (low transportStreamId), be16 0xFFFF (high serviceId) (low serviceId)),
    sectionNumber) = _
  rw [be16_high_low, be16_high_low, be16_high_low]

theorem byte_version :
    byte (sectionOf env serviceId transportStreamId originalNetworkId version sectionNumber rest).bytes 5 =
      (0xC1 : UInt8) ||| ((version &&& 0x1F) <<< 1) := byte_sectionOf _ _ _ _ _ _ _ (by norm_num) (by omega)

theorem versionNumber_section :
    versionNumber (sectionOf env serviceId transportStreamId originalNetworkId version sectionNumber rest).bytes =
      version &&& 0x1F := by
  have h : ∀ v : UInt8, (((0xC1 : UInt8) ||| ((v &&& 0x1F) <<< 1)) >>> 1) &&& 0x1F = v &&& 0x1F := by decide
  rw [versionNumber, byte_version]
  exact h version

/-- **All but the version number is the same for every version.** -/
theorem unversioned_section : unversioned
      (sectionOf env serviceId transportStreamId originalNetworkId version sectionNumber rest).bytes =
    (Encode.setSectionLength
      (sectionHeader serviceId 0 transportStreamId originalNetworkId sectionNumber ++ rest)) := by
  have h : ∀ v : UInt8, ((0xC1 : UInt8) ||| ((v &&& 0x1F) <<< 1)) &&& 0xC1 = 0xC1 := by decide
  rw [unversioned, byte_version, h, bytes_sectionOf, withCrc, List.length_append,
    show (crcBytes (env.crc (Encode.setSectionLength (sectionHeader serviceId version transportStreamId
      originalNetworkId sectionNumber ++ rest)))).length = 4 from rfl, Nat.add_sub_cancel, List.take_left]
  rfl

/-! ## The language code -/

/-- The descriptors begin with the language code: the name and the text always leave room for it. -/
theorem descriptorsLoop_eq (lang : Bytes) (hlang : lang.length = 3) (title description : String) :
    ∃ len rest, descriptorsLoop lang title description = 0x4D :: len :: (lang ++ rest) := by
  have hname : (dvbText title 80).length ≤ 80 := length_dvbText title (by norm_num)
  have htext : (if (strBytes description).length > 160 then [] else dvbText description 160).length ≤ 160 := by
    split_ifs
    · exact Nat.zero_le _
    · exact length_dvbText description (by norm_num)
  rw [descriptorsLoop]
  generalize (if (strBytes description).length > 160 then [] else dvbText description 160) = text at htext ⊢
  rw [if_pos (by simp only [List.length_append, List.length_singleton]; omega)]
  simp only [List.cons_append, List.nil_append, List.append_assoc]
  exact ⟨_, _, rfl⟩

/-- **The language code is in the section.** -/
theorem langCode_section (eventId : UInt16) (start : DateTime) (duration : ℕ) (title description language : String) :
    langCode (presentFollowingSection env serviceId version transportStreamId originalNetworkId sectionNumber eventId
      start duration title description language).bytes = parseIso6392 language := by
  obtain ⟨x, y, z, hlang⟩ : ∃ x y z, parseIso6392 language = [x, y, z] := ⟨_, _, _, rfl⟩
  obtain ⟨len, rest, hloop⟩ := descriptorsLoop_eq (parseIso6392 language) rfl title description
  rw [hlang] at hloop ⊢
  obtain ⟨descLoopLen, rest, hevent⟩ : ∃ (descLoopLen : UInt16) (rest : Bytes),
      eventBytes eventId start duration title description language =
        [high eventId, low eventId] ++ encodeDvbTime start ++ encodeDuration (secondsF32 duration) ++
          [(0x80 : UInt8) ||| high descLoopLen, low descLoopLen] ++ 0x4D :: len :: x :: y :: z :: rest := by
    rw [eventBytes, hlang, hloop]
    split_ifs
    · exact ⟨_, rest.take 4090, rfl⟩
    · exact ⟨_, rest, rfl⟩
  have hbyte : ∀ i, 3 ≤ i → i < 31 → byte (presentFollowingSection env serviceId version transportStreamId
      originalNetworkId sectionNumber eventId start duration title description language).bytes i =
        byte (sectionHeader serviceId version transportStreamId originalNetworkId sectionNumber ++
          eventBytes eventId start duration title description language) i := by
    intro i h3 hi
    refine byte_sectionOf _ _ _ _ _ _ _ h3 ?_
    have htime : (encodeDvbTime start).length = 5 := rfl
    have hduration : (encodeDuration (secondsF32 duration)).length = 3 := rfl
    rw [hevent]
    simp only [List.length_append, List.length_cons, List.length_nil]
    omega
  rw [langCode, hbyte 28 (by norm_num) (by norm_num), hbyte 29 (by norm_num) (by norm_num),
    hbyte 30 (by norm_num) (by norm_num), hevent]
  rfl

end MyMuxer.Psi.Eit
