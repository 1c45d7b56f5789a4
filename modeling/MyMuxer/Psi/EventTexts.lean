import MyMuxer.Lib.Greedy
import MyMuxer.Psi.Eit

/-!
# The texts of the extended event descriptors (`psi/eit.rs`)

* `splitBudget_append`, `splitBudget_maximal`: a text is cut at the end of the last character that fits.
* `split_textChunks`: the chunks are those of the greedy split, whatever the characters.
* `IsExtended`: what a descriptor says; `isExtended_descriptor`: what the code writes is one.
* **`extendedEvents_exact`**: the number of the descriptors, their fields, and their texts.
-/

namespace MyMuxer.Psi.Eit

open Encode Greedy

/-! ## The greedy split -/

theorem length_charBytes (cs : List Char) : (charBytes cs).length = weight Char.utf8Size cs := by
  induction cs with
  | nil => rfl
  | cons c cs ih =>
    rw [charBytes, List.flatMap_cons, List.length_append, String.length_utf8EncodeChar, weight_cons, ← ih, charBytes]

theorem strBytes_eq (text : String) : strBytes text = charBytes text.toList := rfl

theorem charBytes_append (cs ds : List Char) : charBytes (cs ++ ds) = charBytes cs ++ charBytes ds :=
  List.flatMap_append

theorem charBytes_flatten (chunks : List (List Char)) :
    charBytes chunks.flatten = (chunks.map charBytes).flatten := by
  induction chunks with
  | nil => rfl
  | cons chunk chunks ih => rw [List.flatten_cons, charBytes_append, ih, List.map_cons, List.flatten_cons]

theorem splitBudget_append (cs : List Char) :
    ∀ budget, (splitBudget budget cs).1 ++ (splitBudget budget cs).2 = cs := by
  induction cs with
  | nil => exact fun _ => rfl
  | cons c cs ih =>
    intro budget
    unfold splitBudget
    split_ifs with hfit
    · rw [List.cons_append, ih]
    · rfl

theorem splitBudget_of_le (cs : List Char) : ∀ budget, weight Char.utf8Size cs ≤ budget →
    splitBudget budget cs = (cs, []) := by
  induction cs with
  | nil => exact fun _ _ => rfl
  | cons c cs ih =>
    intro budget hle
    rw [weight_cons] at hle
    rw [splitBudget, if_pos (by omega), ih _ (by omega)]

/-- The first letter of an alphabet, `n` times. -/
def letters (n : ℕ) : String := String.ofList (List.replicate n 'a')

theorem toList_letters (n : ℕ) : (letters n).toList = List.replicate n 'a' := String.toList_ofList

theorem weight_letters (n : ℕ) : weight Char.utf8Size (List.replicate n 'a') = n := by
  induction n with
  | zero => rfl
  | succ n ih =>
    rw [List.replicate_succ, weight_cons, ih, Nat.add_comm]
    rfl

theorem length_letters (n : ℕ) : (strBytes (letters n)).length = n := by
  rw [strBytes_eq, length_charBytes, toList_letters, weight_letters]

/-- The next character does not fit. -/
theorem splitBudget_maximal (cs : List Char) {c : Char} {rest : List Char} : ∀ budget,
    (splitBudget budget cs).2 = c :: rest → budget < weight Char.utf8Size (splitBudget budget cs).1 + c.utf8Size := by
  induction cs with
  | nil => exact fun _ h => nomatch h
  | cons d cs ih =>
    intro budget
    unfold splitBudget
    split_ifs with hfit
    · intro h
      have := ih (budget - d.utf8Size) h
      rw [weight_cons]
      omega
    · intro h
      obtain ⟨rfl, -⟩ := List.cons.inj h
      rw [weight_nil]
      omega

/-- The loop ends, and all of the text is cut: it never meets a character that does not fit into an empty chunk. -/
theorem split_textChunks (fuel : ℕ) : ∀ cs : List Char, cs.length ≤ fuel →
    Split Char.utf8Size maxTextChunk cs (textChunks fuel cs) := by
  induction fuel with
  | zero =>
    intro cs hfuel
    rw [List.length_eq_zero_iff.1 (Nat.le_zero.1 hfuel)]
    exact .nil
  | succ fuel ih =>
    intro cs hfuel
    unfold textChunks
    split_ifs with hnil hle
    · exact hnil ▸ .nil
    · exact .last hnil (by rwa [length_charBytes] at hle)
    have happend := splitBudget_append cs maxTextChunk
    have hbytes := length_splitBudget cs maxTextChunk
    rw [length_charBytes] at hle hbytes
    cases hrest : (splitBudget maxTextChunk cs).2 with
    | nil =>
      rw [hrest, List.append_nil] at happend
      exact absurd (happend ▸ hbytes) hle
    | cons c rest =>
      have hmax := splitBudget_maximal cs maxTextChunk hrest
      -- a character has four bytes at most, so one at least is in the chunk
      have hne : (splitBudget maxTextChunk cs).1 ≠ [] := by
        intro hempty
        have := c.utf8Size_le_four
        rw [hempty, weight_nil, maxTextChunk] at hmax
        omega
      have hlen := congrArg List.length happend
      have hpos := List.length_pos_of_ne_nil hne
      rw [hrest, List.length_append] at hlen
      simp only [hrest]
      rw [if_neg hne]
      exact .cut (by rw [← hrest, happend]) hbytes hmax (ih _ (by omega))

/-- The chunks of a text. -/
def chunksOf (text : String) : List (List Char) := textChunks text.toList.length text.toList

theorem split_chunksOf (text : String) : Split Char.utf8Size maxTextChunk text.toList (chunksOf text) :=
  split_textChunks _ _ le_rfl

theorem charBytes_chunksOf (text : String) : ((chunksOf text).map charBytes).flatten = strBytes text := by
  rw [← charBytes_flatten, (split_chunksOf text).flatten]
  rfl

/-! ## The descriptors -/

/-- What the code writes for one chunk. -/
def extendedDescriptor (lang : Bytes) (totalChunks i : ℕ) (chunk : List Char) : Bytes :=
  [0x4E, UInt8.ofNat (6 + (1 + (charBytes chunk).length)),
      (UInt8.ofNat i <<< 4) ||| (UInt8.ofNat (totalChunks - 1) &&& 0x0F)] ++ lang ++
    [0x00, UInt8.ofNat (1 + (charBytes chunk).length), dvbUtf8Prefix] ++ charBytes chunk

/-- Descriptor `i` of `count`, for a chunk. -/
structure IsExtended (lang : Bytes) (count i : ℕ) (chunk : List Char) (d : Bytes) : Prop where
  tag : byte d 0 = 0x4E
  length : (byte d 1).toNat + 2 = d.length
  descriptorNumber : (byte d 2 >>> 4).toNat = i
  lastDescriptorNumber : (byte d 2 &&& 0x0F).toNat + 1 = count
  language : (d.drop 3).take 3 = lang
  items : byte d 6 = 0
  textLength : (byte d 7).toNat + 8 = d.length
  text : d.drop 8 = dvbUtf8Prefix :: charBytes chunk
  chunk_le : (charBytes chunk).length ≤ 246

theorem isExtended_descriptor {lang : Bytes} (hlang : lang.length = 3) {count i : ℕ} (hi : i < count)
    (hcount : count ≤ 16) {chunk : List Char} (hchunk : (charBytes chunk).length ≤ 246) :
    IsExtended lang count i chunk (extendedDescriptor lang count i chunk) := by
  obtain ⟨x, y, z, rfl⟩ := List.length_eq_three.1 hlang
  have hnumber : ∀ j : Fin 16, ∀ last : Fin 16,
      (((UInt8.ofNat j <<< 4) ||| (UInt8.ofNat last &&& 0x0F)) >>> 4).toNat = j ∧
        (((UInt8.ofNat j <<< 4) ||| (UInt8.ofNat last &&& 0x0F)) &&& 0x0F).toNat = last := by decide
  have hbyte := hnumber ⟨i, by omega⟩ ⟨count - 1, by omega⟩
  have hlen : (extendedDescriptor [x, y, z] count i chunk).length = 9 + (charBytes chunk).length := by
    simp only [extendedDescriptor, List.length_append, List.length_cons, List.length_nil]
  refine ⟨rfl, ?_, hbyte.1, ?_, rfl, rfl, ?_, rfl, hchunk⟩
  · change (UInt8.ofNat (6 + (1 + (charBytes chunk).length))).toNat + 2 = _
    rw [hlen, UInt8.toNat_ofNat_of_lt' (by rw [UInt8.size]; omega)]
    omega
  · refine Eq.trans (congrArg (· + 1) hbyte.2) ?_
    show count - 1 + 1 = count
    omega
  · change (UInt8.ofNat (1 + (charBytes chunk).length)).toNat + 8 = _
    rw [hlen, UInt8.toNat_ofNat_of_lt' (by rw [UInt8.size]; omega)]
    omega

theorem buildExtendedEventDescriptors_eq (lang : Bytes) (text : String) :
    buildExtendedEventDescriptors lang text = ((chunksOf text).take (min (chunksOf text).length 16)).zipIdx.map
      fun p => extendedDescriptor lang (min (chunksOf text).length 16) p.2 p.1 := by
  unfold buildExtendedEventDescriptors
  split_ifs with hnil
  · have hempty : chunksOf text = [] := by rw [chunksOf, hnil]; rfl
    rw [hempty]
    rfl
  · rfl

theorem length_buildExtended (lang : Bytes) (text : String) :
    (buildExtendedEventDescriptors lang text).length = min (chunksOf text).length 16 := by
  rw [buildExtendedEventDescriptors_eq, List.length_map, List.length_zipIdx, List.length_take]
  omega

/-- The text of an extended event descriptor without items, without the byte for the character table. -/
def extendedText (d : Bytes) : Bytes := ((d.drop 8).take (byte d 7).toNat).drop 1

theorem IsExtended.extendedText_eq {lang d : Bytes} {count i : ℕ} {chunk : List Char}
    (h : IsExtended lang count i chunk d) : extendedText d = charBytes chunk := by
  have hlen := congrArg List.length h.text
  have htext := h.textLength
  rw [List.length_drop] at hlen
  rw [extendedText, List.take_of_length_le (by rw [List.length_drop]; omega), h.text]
  rfl

theorem getElem?_buildExtended {lang d : Bytes} (hlang : lang.length = 3) {text : String} {i : ℕ}
    (hd : (buildExtendedEventDescriptors lang text)[i]? = some d) : ∃ chunk, (chunksOf text)[i]? = some chunk ∧
      IsExtended lang (buildExtendedEventDescriptors lang text).length i chunk d := by
  rw [length_buildExtended]
  rw [buildExtendedEventDescriptors_eq, List.getElem?_map, Option.map_eq_some_iff] at hd
  obtain ⟨⟨chunk, j⟩, hget, rfl⟩ := hd
  rw [List.getElem?_zipIdx, Option.map_eq_some_iff] at hget
  obtain ⟨c, hget, heq⟩ := hget
  obtain ⟨rfl, rfl⟩ : c = chunk ∧ 0 + i = j := Prod.mk.inj heq
  have hi : i < min (chunksOf text).length 16 := by
    have := (List.getElem?_eq_some_iff.1 hget).1
    rw [List.length_take] at this
    omega
  rw [List.getElem?_take, if_pos hi] at hget
  have hle := (split_chunksOf text).weight_le c (List.mem_of_getElem? hget)
  rw [Nat.zero_add]
  exact ⟨c, hget, isExtended_descriptor hlang hi (by omega) (by rwa [length_charBytes])⟩

theorem mem_buildExtended {lang d : Bytes} (hlang : lang.length = 3) {text : String}
    (hd : d ∈ buildExtendedEventDescriptors lang text) :
    ∃ i chunk, IsExtended lang (buildExtendedEventDescriptors lang text).length i chunk d := by
  obtain ⟨i, hi⟩ := List.getElem?_of_mem hd
  obtain ⟨chunk, -, h⟩ := getElem?_buildExtended hlang hi
  exact ⟨i, chunk, h⟩

theorem extendedTexts_eq {lang : Bytes} (hlang : lang.length = 3) (text : String) :
    (buildExtendedEventDescriptors lang text).map extendedText = ((chunksOf text).take 16).map charBytes := by
  apply List.ext_getElem?
  intro i
  rw [List.getElem?_map, List.getElem?_map, List.getElem?_take]
  cases hd : (buildExtendedEventDescriptors lang text)[i]? with
  | none =>
    have hlen := List.getElem?_eq_none_iff.1 hd
    rw [length_buildExtended] at hlen
    split_ifs with hi
    · rw [List.getElem?_eq_none_iff.2 (by omega)]
      rfl
    · rfl
  | some d =>
    have hlen := (List.getElem?_eq_some_iff.1 hd).1
    rw [length_buildExtended] at hlen
    obtain ⟨chunk, hget, h⟩ := getElem?_buildExtended hlang hd
    rw [if_pos (by omega), hget, Option.map_some, Option.map_some, h.extendedText_eq]

/-- **The extended event descriptors of a text**: those of the first sixteen chunks of its greedy split. -/
theorem extendedEvents_exact (lang : Bytes) (hlang : lang.length = 3) (text : String) :
    ∃ chunks, Split Char.utf8Size 246 text.toList chunks ∧
      (∀ others, Split Char.utf8Size 246 text.toList others → others = chunks) ∧
      (buildExtendedEventDescriptors lang text).length = min chunks.length 16 ∧
      (∀ (i : ℕ) (d : Bytes), (buildExtendedEventDescriptors lang text)[i]? = some d →
        ∃ chunk, chunks[i]? = some chunk ∧
          IsExtended lang (buildExtendedEventDescriptors lang text).length i chunk d) ∧
      ((buildExtendedEventDescriptors lang text).map extendedText).flatten <+: strBytes text ∧
      (chunks.length ≤ 16 →
        ((buildExtendedEventDescriptors lang text).map extendedText).flatten = strBytes text) := by
  have hsplit := split_chunksOf text
  refine ⟨chunksOf text, hsplit, fun others h => hsplit.unique h, length_buildExtended lang text,
    fun i d hd => getElem?_buildExtended hlang hd, ?_, ?_⟩
  · have hpre := (List.take_prefix 16 (chunksOf text)).map charBytes
    rw [extendedTexts_eq hlang, ← charBytes_chunksOf text]
    exact hpre.flatten
  · intro hle
    rw [extendedTexts_eq hlang, List.take_of_length_le hle, charBytes_chunksOf]

theorem extendedEvents_exact_sample : ∃ chunks, Split Char.utf8Size 246 "Сегодня".toList chunks ∧
    (buildExtendedEventDescriptors [0x72, 0x75, 0x73] "Сегодня").length = min chunks.length 16 := by
  obtain ⟨chunks, hsplit, -, hlen, -⟩ := extendedEvents_exact [0x72, 0x75, 0x73] rfl "Сегодня"
  exact ⟨chunks, hsplit, hlen⟩

end MyMuxer.Psi.Eit
