import MyMuxer.Pes.Audio
import MyMuxer.Pes.Faults
import MyMuxer.Pes.SpsParse

/-!
# What is recognised of a stream (`pes/es_parsers.rs`)

* `EsParser2`: the parser of MPEG-2 video; `EsParser.parse`: the parser of a stream type.
* `Mark`: what a parser looks for; **`EsParser.parse_isSome`**: it finds something out where this begins.
* **`EsParser.parse_inRange`**, `EsParser.returns_iff`: when a parser reads within its data, and when it returns.
-/

namespace MyMuxer

open Search Errors

namespace EsParser2

/-- `data[i] == 0x00 && data[i + 1] == 0x00 && data[i + 2] == 0x01 && data[i + 3] == 0xB3`. -/
def codeAt (data : Bytes) (i : ℕ) : Rs Bool := do
  if (← idx data i) = 0x00 then
    if (← idx data (i + 1)) = 0x00 then
      if (← idx data (i + 2)) = 0x01 then return (← idx data (i + 3)) == 0xB3 else return false
    else return false
  else return false

/-- The loop of `find_data`, over the given number of positions from `i` on. -/
def findDataLoop (data : Bytes) : ℕ → ℕ → Rs (Option Bytes)
  | 0, _ => return none
  | n + 1, i => do
    if (← codeAt data i) then
      let found ← slice data i data.length
      if found.length ≥ 8 then return some found else findDataLoop data n (i + 1)
    else findDataLoop data n (i + 1)

def findData (data : Bytes) : Rs (Option Bytes) := findDataLoop data (data.length - 8) 0

def es2 (data : Bytes) : Es2 where
  horizontalSize := (readU32Be data 4).map fun (tmp : UInt32) => (tmp >>> 20).toUInt16.toNat
  verticalSize := (readU32Be data 4).map fun (tmp : UInt32) => (tmp >>> 8 &&& 0x0FFF).toUInt16.toNat
  aspectRatio := (readU32Be data 4).map fun (tmp : UInt32) => (tmp >>> 4 &&& 0x0F).toUInt8.toNat
  frameRate := (readU32Be data 4).map fun (tmp : UInt32) => (tmp &&& 0x0F).toUInt8.toNat
  bitrate := (readU32Be data 8).map fun (tmp : UInt32) => (tmp >>> 14).toNat

def parse (data : Bytes) : Ck (Option Es) := do
  match ← findData data with
  | none => return none
  | some data => if (readU32Be data 0).any (· ≠ 0x000001B3) then return none else return some (.es2 (es2 data))

/-- A sequence header code and five bytes more. -/
def Sequence (l : Bytes) : Prop := 9 ≤ l.length ∧ [0x00, 0x00, 0x01, 0xB3] <+: l

variable {data : Bytes} {i : ℕ}

theorem codeAt_eq (h : i + 3 < data.length) :
    codeAt data i = .ok (decide ([0x00, 0x00, 0x01, 0xB3] <+: data.drop i)) := by
  have hfirst := idx_of_lt (show i < data.length by omega)
  have hsecond := idx_of_lt (show i + 1 < data.length by omega)
  have hthird := idx_of_lt (show i + 2 < data.length by omega)
  rw [codeAt, hfirst, hsecond, hthird, idx_of_lt h, drop_eq_byte_cons (by omega),
    drop_eq_byte_cons (by omega : i + 1 < _), drop_eq_byte_cons (by omega : i + 2 < _), drop_eq_byte_cons h]
  simp only [ok_bind, List.cons_prefix_cons, List.nil_prefix, and_true, pure_eq_ok]
  split_ifs with h0 h1 h2
  · simp only [h0, h1, h2, true_and, eq_comm, beq_eq_decide]
  · simp only [Ne.symm h2, false_and, and_false, decide_false]
  · simp only [Ne.symm h1, false_and, and_false, decide_false]
  · simp only [Ne.symm h0, false_and, decide_false]

/-- The first sequence header is found. -/
theorem findDataLoop_eq (n : ℕ) (hn : n = data.length - 8 - i) :
    (findDataLoop data n i = .ok none ∧ Begins Sequence (data.drop i) = ∅) ∨
      ∃ p, findDataLoop data n i = .ok (some (data.drop p)) ∧ Sequence (data.drop p) := by
  induction n generalizing i with
  | zero =>
    refine .inl ⟨rfl, Set.eq_empty_of_forall_notMem fun p (hp : Sequence _) => ?_⟩
    have := hp.1
    rw [List.length_drop, List.length_drop] at this
    omega
  | succ n ih =>
    have hlength : 9 ≤ (data.drop i).length := by
      rw [List.length_drop]
      omega
    have hslice : slice data i data.length = .ok (data.drop i) := by
      rw [slice_of_le (by omega) le_rfl, List.take_of_length_le (by rw [List.length_drop])]
    rw [findDataLoop, codeAt_eq (by omega), ok_bind]
    by_cases hcode : [0x00, 0x00, 0x01, 0xB3] <+: data.drop i
    · rw [if_pos (decide_eq_true hcode), hslice, ok_bind, if_pos (by omega)]
      exact .inr ⟨i, rfl, hlength, hcode⟩
    · rw [if_neg (by simpa using hcode)]
      refine (@ih (i + 1) (by omega)).imp_left fun ⟨he, hnone⟩ => ⟨he, ?_⟩
      rw [← List.drop_drop] at hnone
      have hfirst (more : Bytes) : ¬ Sequence ((data.drop i) ++ more) := fun h =>
        hcode (List.prefix_of_prefix_length_le h.2 (List.prefix_append _ _) (by simp only [List.length_cons, List.length_nil]; omega))
      have hskip : Skips Sequence (data.drop i) 1 := by
        refine ⟨by omega, fun q hq more => ?_⟩
        rw [Nat.lt_one_iff.1 hq]
        exact hfirst more
      exact hskip.not_begins_of_drop hnone

/-- The header is what `parse` then compares. -/
theorem readU32Be_of_sequence {l : Bytes} (h : Sequence l) : readU32Be l 0 = some 0x000001B3 := by
  rw [readU32Be_eq (by have := h.1; omega)]
  obtain ⟨more, rfl⟩ := h.2
  exact congrArg some (by decide : be32 0x00 0x00 0x01 0xB3 = 0x000001B3)

/-- **A sequence header is all that is needed.** -/
theorem parse_isSome (data : Bytes) :
    ∃ found, parse data = .ok found ∧ (found.isSome ↔ (Begins Sequence data).Nonempty) := by
  rw [parse, findData]
  obtain ⟨he, hnone⟩ | ⟨p, he, hp⟩ := @findDataLoop_eq data 0 (data.length - 8) rfl
  · rw [List.drop_zero] at hnone
    rw [he]
    exact ⟨none, rfl, by rw [hnone]; simp⟩
  · rw [he]
    refine ⟨some (.es2 (es2 (data.drop p))), ?_, iff_of_true rfl ⟨p, hp⟩⟩
    change (if _ then _ else _) = _
    rw [readU32Be_of_sequence hp]
    rfl

end EsParser2

def EsParserUnknown.parse (_data : Bytes) : Ck (Option Es) := return some .unknown

/-- The parser of a stream type. -/
def EsParser.parse (build : Build) (streamType : UInt8) (data : Bytes) : Ck (Option Es) :=
  match streamType with
  | 2 => EsParser2.parse data
  | 3 => EsParser3.parse data
  | 4 => EsParser4.parse data
  | 15 => EsParser15.parse data
  | 27 => EsParser27.parse build data
  | _ => EsParserUnknown.parse data

/-- What the parser of a stream type looks for. -/
def Mark (streamType : UInt8) (l : Bytes) : Prop :=
  match streamType with
  | 2 => EsParser2.Sequence l
  | 3 => Header l
  | 4 => Header l
  | 15 => Header l
  | 27 => SpsAt l
  | _ => True

variable {build : Build} {streamType : UInt8} {data l : Bytes} {found : Option Es}

theorem Header.append (h : Header l) (more : Bytes) : Header (l ++ more) := by
  have hlength := h.1
  refine ⟨by rw [List.length_append]; omega, ?_, ?_⟩
  · rw [byte_append_left (by omega)]
    exact h.2.1
  · rw [byte_append_left (by omega)]
    exact h.2.2

theorem SpsAt.append (h : SpsAt l) (more : Bytes) : SpsAt (l ++ more) := by
  obtain ⟨hcode, hnal⟩ := h
  refine ⟨hcode.trans (List.prefix_append _ _), ?_⟩
  cases hbyte : l[3]? with
  | none =>
    rw [hbyte] at hnal
    cases hnal
  | some b =>
    rw [List.getElem?_append_left (List.getElem?_eq_some_iff.1 hbyte).1]
    exact hnal

theorem EsParser2.Sequence.append (h : EsParser2.Sequence l) (more : Bytes) : EsParser2.Sequence (l ++ more) :=
  ⟨h.1.trans (by rw [List.length_append]; omega), h.2.trans (List.prefix_append _ _)⟩

/-- More bytes take nothing away. -/
theorem Mark.append (h : Mark streamType l) (more : Bytes) : Mark streamType (l ++ more) := by
  unfold Mark at h ⊢
  split at h
  · exact EsParser2.Sequence.append h more
  · exact Header.append h more
  · exact Header.append h more
  · exact Header.append h more
  · exact SpsAt.append h more
  · trivial

theorem findMpegAudioHeader_isSome (data : Bytes) :
    ∃ header, findMpegAudioHeader data = .ok header ∧ (header.isSome ↔ (Begins Header data).Nonempty) := by
  obtain ⟨d, hskip, ⟨he, hd⟩ | ⟨he, hnone⟩⟩ := findMpegAudioHeader_skips data
  · exact ⟨_, he, iff_of_true rfl ⟨d, hd⟩⟩
  · exact ⟨none, he, by rw [hskip.not_begins_of_drop hnone]; simp⟩

theorem spsUnit_isSome (l : Bytes) : (spsUnit l).isSome ↔ (Begins SpsAt l).Nonempty := by
  induction l with
  | nil => exact iff_of_false (by simp [spsUnit]) fun ⟨p, hp⟩ => by simp [Begins, SpsAt] at hp
  | cons b l ih =>
    rw [spsUnit]
    split_ifs with h
    · exact iff_of_true rfl ⟨0, h⟩
    · rw [ih]
      constructor
      · rintro ⟨p, hp⟩
        exact ⟨p + 1, hp⟩
      · rintro ⟨p, hp⟩
        cases p with
        | zero => exact absurd hp h
        | succ p => exact ⟨p, hp⟩

theorem EsParser27.parse_isSome (he : EsParser27.parse build data = .ok found) :
    found.isSome ↔ (Begins SpsAt data).Nonempty := by
  have hlen : 2 ≤ data.length := by
    by_contra hshort
    have hshort := Nat.lt_of_not_le hshort
    cases build with
    | debug =>
      rw [EsParser27.parse, EsParser27.findSps_short_debug hshort] at he
      cases he
    | release =>
      rw [EsParser27.parse, EsParser27.findSps_short_release hshort] at he
      cases he
  rw [EsParser27.parse, EsParser27.findSps_eq hlen, ck_bind] at he
  rw [← spsUnit_isSome]
  cases hsps : spsUnit data with
  | none =>
    rw [hsps] at he
    cases he
    rfl
  | some ebsp =>
    rw [hsps] at he
    obtain ⟨rbsp, -, he⟩ := ck_eq_ok.1 he
    split_ifs at he
    · cases he
      rfl
    · obtain ⟨⟨sps, br⟩, -, he⟩ := ck_eq_ok.1 he
      obtain ⟨es, -, he⟩ := ck_eq_ok.1 he
      cases he
      rfl

namespace EsParser

/-- A parser that makes something of the first header, if there is one. -/
theorem audio_isSome {x : Ck (Option Es)} (hnone : findMpegAudioHeader data = .ok none → x = .ok none)
    (hsome : ∀ header, findMpegAudioHeader data = .ok (some header) → ∃ es, x = .ok (some es)) :
    ∃ found, (∀ _ : Build, x = .ok found) ∧ (found.isSome ↔ (Begins Header data).Nonempty) := by
  obtain ⟨found, hfound, hheader⟩ := findMpegAudioHeader_isSome data
  cases found with
  | none => exact ⟨none, fun _ => hnone hfound, hheader⟩
  | some header =>
    obtain ⟨es, hes⟩ := hsome header hfound
    exact ⟨some es, fun _ => hes, hheader⟩

/-- The other parsers return always, and with the same in both builds. -/
theorem parse_of_ne (h : streamType ≠ 27) : ∃ found, (∀ build, parse build streamType data = .ok found) ∧
    (found.isSome ↔ (Begins (Mark streamType) data).Nonempty) := by
  unfold parse Mark
  split
  · obtain ⟨found, he, hfound⟩ := EsParser2.parse_isSome data
    exact ⟨found, fun _ => he, hfound⟩
  · refine audio_isSome (fun he => ?_) fun header he => ?_
    · rw [EsParser3.parse, he]
      rfl
    · rw [EsParser3.parse, he]
      exact ⟨_, rfl⟩
  · refine audio_isSome (fun he => ?_) fun header he => ?_
    · rw [EsParser4.parse, he]
      rfl
    · rw [EsParser4.parse, he]
      exact ⟨_, rfl⟩
  · refine audio_isSome (fun he => ?_) fun header he => ?_
    · rw [EsParser15.parse, he]
      rfl
    · rw [EsParser15.parse, he]
      exact ⟨_, rfl⟩
  · exact absurd rfl h
  · exact ⟨_, fun _ => rfl, iff_of_true rfl ⟨0, trivial⟩⟩

/-- **Something is found out** where what the parser looks for begins. -/
theorem parse_isSome (he : parse build streamType data = .ok found) :
    found.isSome ↔ (Begins (Mark streamType) data).Nonempty := by
  by_cases h27 : streamType = 27
  · subst h27
    exact EsParser27.parse_isSome he
  · obtain ⟨found', he', hfound⟩ := @parse_of_ne _ data h27
    rwa [Except.ok.inj (he.symm.trans (he' build))]

/-- **A parser reads within its data**, that of H.264 if these are two bytes at least. -/
theorem parse_inRange (h : streamType = 27 → 2 ≤ data.length) : Raises InRange (parse build streamType data) := by
  by_cases h27 : streamType = 27
  · subst h27
    exact EsParser27.parse_inRange (h rfl)
  · obtain ⟨found, he, -⟩ := @parse_of_ne _ data h27
    rw [he]
    exact raises_ok found

/-- Otherwise a release build reads behind them. -/
theorem parse_short (h : data.length < 2) : parse .release 27 data = .error (.panic .indexOutOfRange) := by
  change EsParser27.parse .release data = _
  rw [EsParser27.parse, EsParser27.findSps_short_release h]
  rfl

/-- **A parser returns**, and with the same in both builds, that of H.264 where its data allow. -/
theorem returns_iff : (∃ found, ∀ build, parse build streamType data = .ok found) ↔
    (streamType = 27 → EsParser27.Parsable data) := by
  by_cases h27 : streamType = 27
  · subst h27
    rw [forall_prop_of_true rfl]
    exact ⟨fun ⟨_, h⟩ => EsParser27.parsable_of_debug (h .debug), EsParser27.parse_of_parsable⟩
  · obtain ⟨found, he, -⟩ := @parse_of_ne _ data h27
    exact iff_of_true ⟨found, he⟩ fun h => absurd h h27

/-- A parser that looks through its data and finds nothing. -/
theorem parse_unmarked (h : streamType = 27 → 2 ≤ data.length) (hmark : ¬ (Begins (Mark streamType) data).Nonempty) :
    parse build streamType data = .ok none := by
  by_cases h27 : streamType = 27
  · subst h27
    have hsps : spsUnit data = none := Option.not_isSome_iff_eq_none.1 (mt (spsUnit_isSome data).1 hmark)
    change EsParser27.parse build data = _
    rw [EsParser27.parse, EsParser27.findSps_eq (h rfl), ck_bind, hsps]
    rfl
  · obtain ⟨found, he, hfound⟩ := @parse_of_ne _ data h27
    rw [he build, Option.not_isSome_iff_eq_none.1 (mt hfound.1 hmark)]

/-- What a debug build returns, a release build returns too. -/
theorem parse_of_debug (he : parse .debug streamType data = .ok found) : parse build streamType data = .ok found := by
  have hall : ∃ found, ∀ build, parse build streamType data = .ok found :=
    returns_iff.2 fun h27 => by
      subst h27
      exact EsParser27.parsable_of_debug he
  obtain ⟨found', hall⟩ := hall
  rw [hall build, ← hall .debug, he]

end EsParser

end MyMuxer
