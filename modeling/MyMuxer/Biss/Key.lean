import MyMuxer.Biss

/-!
# BISS-1 keys (`biss.rs`)

* `hexDigit`, `hexBytes`: the bytes that a text spells in hex digits.
* `parseBiss1KeyChecked`: the parser with the operations that may panic.
* `parseHexBytes_encode`: the parser of hex bytes, on the UTF-8 bytes of a text, reads what the text spells.
* **`biss1_key_exact`**: which texts are keys, what control word they give, and that both forms agree.
-/

namespace MyMuxer

/-! ## Hex digits -/

/-- The value of an ASCII hex digit, of either case. -/
def hexDigit (c : Char) : Option ℕ :=
  if 48 ≤ c.toNat ∧ c.toNat ≤ 57 then some (c.toNat - 48)
  else if 97 ≤ c.toNat ∧ c.toNat ≤ 102 then some (c.toNat - 87)
  else if 65 ≤ c.toNat ∧ c.toNat ≤ 70 then some (c.toNat - 55)
  else none

/-- The bytes that a text spells, two digits each. -/
def hexBytes : List Char → Option Bytes
  | [] => some []
  | [_] => none
  | hi :: lo :: text => do
    let hi ← hexDigit hi
    let lo ← hexDigit lo
    return UInt8.ofNat (16 * hi + lo) :: (← hexBytes text)

/-- The sum of three bytes modulo 256. -/
def checksum (a b c : UInt8) : UInt8 := UInt8.ofNat ((a.toNat + b.toNat + c.toNat) % 256)

theorem checksum_eq (a b c : UInt8) : checksum a b c = a + b + c := by
  refine UInt8.toNat_inj.1 ?_
  rw [checksum, UInt8.toNat_add, UInt8.toNat_add, UInt8.toNat_ofNat']
  omega

/-! ## The parser with its panics -/

def hexValChecked (b : UInt8) : Rs (Option UInt8) := do
  if 0x30 ≤ b ∧ b ≤ 0x39 then return some (UInt8.ofNat (← usub b.toNat 0x30))
  else if 0x61 ≤ b ∧ b ≤ 0x66 then return some (UInt8.ofNat (← usub b.toNat 0x61) + 10)
  else if 0x41 ≤ b ∧ b ≤ 0x46 then return some (UInt8.ofNat (← usub b.toNat 0x41) + 10)
  else return none

/-- The loop of `parse_hex_bytes`, from byte `i` on. -/
def parseHexLoop (bytes : Bytes) : ℕ → ℕ → Bytes → Rs (Option Bytes)
  | 0, _, out => return some out
  | fuel + 1, i, out => do
    if i < bytes.length then
      match ← hexValChecked (← idx bytes i) with
      | none => return none
      | some hi =>
        match ← hexValChecked (← idx bytes (i + 1)) with
        | none => return none
        | some lo => parseHexLoop bytes fuel (i + 2) (out ++ [hi <<< 4 ||| lo])
    else return some out

def parseHexBytesChecked (s : Bytes) : Rs (Option Bytes) :=
  if s.length % 2 ≠ 0 then return none else parseHexLoop s (s.length + 1) 0 []

def parseBiss1KeyChecked (keyHex : String) : Rs (Option Bytes) := do
  let s := strBytes (stripHexPrefix (trim keyHex))
  if s.length ≠ 12 ∧ s.length ≠ 16 then return none
  else
    match ← parseHexBytesChecked s with
    | none => return none
    | some bytes =>
      if bytes.length = 8 then return some bytes
      else if bytes.length ≠ 6 then return none
      else
        let b0 ← idx bytes 0
        let b1 ← idx bytes 1
        let b2 ← idx bytes 2
        let b3 ← idx bytes 3
        let b4 ← idx bytes 4
        let b5 ← idx bytes 5
        return some [b0, b1, b2, b0 + b1 + b2, b3, b4, b5, b3 + b4 + b5]

theorem hexValChecked_eq (b : UInt8) : hexValChecked b = .ok (hexVal b) := by
  have hnat {x : UInt8} (h : x ≤ b) : usub b.toNat x.toNat = .ok (b - x).toNat := by
    rw [usub_of_le (UInt8.le_iff_toNat_le.1 h), UInt8.toNat_sub_of_le _ _ h]
  rw [hexValChecked, hexVal]
  split_ifs with h1 h2 h3
  · have := hnat h1.1
    rw [show (0x30 : UInt8).toNat = 0x30 from rfl] at this
    rw [this, ok_bind, UInt8.ofNat_toNat]
    rfl
  · have := hnat h2.1
    rw [show (0x61 : UInt8).toNat = 0x61 from rfl] at this
    rw [this, ok_bind, UInt8.ofNat_toNat]
    rfl
  · have := hnat h3.1
    rw [show (0x41 : UInt8).toNat = 0x41 from rfl] at this
    rw [this, ok_bind, UInt8.ofNat_toNat]
    rfl
  · rfl

theorem parseHexLoop_eq (bytes : Bytes) (heven : bytes.length % 2 = 0) (fuel i : ℕ) (out : Bytes) (hi : i % 2 = 0)
    (hfuel : bytes.length < fuel + i) :
    parseHexLoop bytes fuel i out = .ok ((parseHexBytes (bytes.drop i)).map (out ++ ·)) := by
  induction fuel generalizing i out with
  | zero =>
    rw [List.drop_of_length_le (by omega), parseHexLoop, parseHexBytes, Option.map_some, List.append_nil]
    rfl
  | succ fuel ih =>
    rw [parseHexLoop]
    by_cases hlt : i < bytes.length
    · have hlt' : i + 1 < bytes.length := by omega
      have hdrop : bytes.drop i = byte bytes i :: byte bytes (i + 1) :: bytes.drop (i + 2) := by
        rw [drop_eq_byte_cons hlt, drop_eq_byte_cons hlt']
      rw [if_pos hlt, idx_of_lt hlt, ok_bind, hexValChecked_eq, ok_bind, hdrop, parseHexBytes]
      cases hexVal (byte bytes i) with
      | none => rfl
      | some hi' =>
        dsimp only
        rw [idx_of_lt hlt', ok_bind, hexValChecked_eq, ok_bind]
        cases hexVal (byte bytes (i + 1)) with
        | none => rfl
        | some lo =>
          dsimp only
          rw [ih (i + 2) _ (by omega) (by omega)]
          cases parseHexBytes (bytes.drop (i + 2)) with
          | none => rfl
          | some rest => exact congrArg (fun l => Except.ok (some l)) (List.append_assoc _ _ _)
    · rw [if_neg hlt, List.drop_of_length_le (by omega), parseHexBytes, Option.map_some, List.append_nil]
      rfl

theorem length_parseHexBytes {s bytes : Bytes} (h : parseHexBytes s = some bytes) : s.length = 2 * bytes.length := by
  induction s using parseHexBytes.induct generalizing bytes with
  | case1 => cases h; rfl
  | case2 => cases h
  | case3 hi lo rest ih =>
    simp only [parseHexBytes, Option.bind_eq_bind, Option.bind_eq_some_iff, Option.pure_def] at h
    obtain ⟨_, -, _, -, bytes', hrest, he⟩ := h
    cases he
    have := ih hrest
    simp only [List.length_cons]
    omega

theorem parseHexBytesChecked_eq {s : Bytes} (h : s.length % 2 = 0) :
    parseHexBytesChecked s = .ok (parseHexBytes s) := by
  rw [parseHexBytesChecked, if_neg (not_not.2 h), parseHexLoop_eq s h _ _ _ rfl (Nat.lt_succ_self _), List.drop_zero]
  exact congrArg Except.ok (congrFun Option.map_id _)

/-- **No text makes the parser panic.** -/
theorem parseBiss1KeyChecked_eq (keyHex : String) :
    parseBiss1KeyChecked keyHex = .ok (parseBiss1Key keyHex) := by
  rw [parseBiss1KeyChecked, parseBiss1Key]
  generalize strBytes (stripHexPrefix (trim keyHex)) = s
  dsimp only
  split_ifs with h
  · rfl
  · rw [parseHexBytesChecked_eq (by omega), ok_bind]
    cases hbytes : parseHexBytes s with
    | none => rfl
    | some bytes =>
      have hlen := length_parseHexBytes hbytes
      have hcases : bytes.length = 8 ∨ bytes.length = 6 := by omega
      rcases hcases with h8 | h6
      · match bytes, h8 with
        | [_, _, _, _, _, _, _, _], _ => rfl
      · match bytes, h6 with
        | [_, _, _, _, _, _], _ => rfl

/-! ## The parser on text -/

theorem hexVal_ascii : ∀ n < 128, hexVal (UInt8.ofNat n) = (hexDigit (Char.ofNat n)).map UInt8.ofNat := by decide

theorem hexVal_high : ∀ b : UInt8, 128 ≤ b.toNat → hexVal b = none := by decide

theorem hexDigit_high {c : Char} (h : 128 ≤ c.toNat) : hexDigit c = none := by
  rw [hexDigit, if_neg (by omega), if_neg (by omega), if_neg (by omega)]

theorem hexDigit_lt {c : Char} {d : ℕ} (h : hexDigit c = some d) : d < 16 := by
  rw [hexDigit] at h
  split_ifs at h
  all_goals cases h; omega

/-- The first byte of a character. -/
theorem utf8EncodeChar_cons (c : Char) : ∃ b rest, String.utf8EncodeChar c = b :: rest ∧
    hexVal b = (hexDigit c).map UInt8.ofNat ∧ (c.toNat < 128 → rest = []) := by
  by_cases hc : c.toNat < 128
  · have hencode : String.utf8EncodeChar c = [UInt8.ofNat c.toNat] := by
      unfold String.utf8EncodeChar
      exact if_pos (by have : c.val.toNat = c.toNat := rfl; omega)
    refine ⟨_, _, hencode, ?_, fun _ => rfl⟩
    rw [hexVal_ascii c.toNat hc, Char.ofNat_toNat]
  · have hhigh : (hexDigit c).map UInt8.ofNat = none := by rw [hexDigit_high (by omega), Option.map_none]
    have hvalid : c.val.toNat < 0x110000 := by
      rcases c.valid with h | h
      · omega
      · exact h.2
    have hnone (n : ℕ) (h : 128 ≤ n) (h' : n < 256) : hexVal (UInt8.ofNat n) = none :=
      hexVal_high _ (by rw [UInt8.toNat_ofNat_of_lt' h']; exact h)
    have hval : c.val.toNat = c.toNat := rfl
    rw [hhigh]
    unfold String.utf8EncodeChar
    dsimp only
    split_ifs with h1 h2 h3
    · omega
    · exact ⟨_, _, rfl, hnone _ (by omega) (by omega), fun h => absurd h hc⟩
    · exact ⟨_, _, rfl, hnone _ (by omega) (by omega), fun h => absurd h hc⟩
    · exact ⟨_, _, rfl, hnone _ (by omega) (by omega), fun h => absurd h hc⟩

/-- **The parser reads what the text spells.** -/
theorem parseHexBytes_encode (text : List Char) :
    parseHexBytes (text.flatMap String.utf8EncodeChar) = hexBytes text := by
  induction text using hexBytes.induct with
  | case1 => rfl
  | case2 c =>
    obtain ⟨b, rest, hencode, hval, hrest⟩ := utf8EncodeChar_cons c
    rw [List.flatMap_cons, List.flatMap_nil, List.append_nil, hencode, hexBytes]
    cases rest with
    | nil => rfl
    | cons b' rest =>
      have hhigh : hexVal b = none := by
        rw [hval, hexDigit_high (Nat.not_lt.1 fun h => List.cons_ne_nil _ _ (hrest h)), Option.map_none]
      rw [parseHexBytes, hhigh]
      rfl
  | case3 hi lo text ih =>
    obtain ⟨b, rest, hencode, hval, hrest⟩ := utf8EncodeChar_cons hi
    obtain ⟨b', rest', hencode', hval', hrest'⟩ := utf8EncodeChar_cons lo
    rw [List.flatMap_cons, List.flatMap_cons, hencode, hencode', hexBytes]
    cases hhi : hexDigit hi with
    | none =>
      rw [hhi, Option.map_none] at hval
      cases rest with
      | nil => rw [List.singleton_append, List.cons_append, parseHexBytes, hval]; rfl
      | cons b'' rest => rw [List.cons_append, List.cons_append, parseHexBytes, hval]; rfl
    | some d =>
      have hlow : hi.toNat < 128 := Nat.lt_of_not_le fun h => by rw [hexDigit_high h] at hhi; cases hhi
      rw [hrest hlow, List.singleton_append, List.cons_append, parseHexBytes, hval, hval', hhi]
      cases hlo : hexDigit lo with
      | none => rfl
      | some d' =>
        have hlow' : lo.toNat < 128 := Nat.lt_of_not_le fun h => by rw [hexDigit_high h] at hlo; cases hlo
        rw [hrest' hlow', List.nil_append, ih]
        have hd := hexDigit_lt hhi
        have hd' := hexDigit_lt hlo
        have hbyte : UInt8.ofNat d <<< 4 ||| UInt8.ofNat d' = UInt8.ofNat (16 * d + d') := by
          revert hd hd'
          have : ∀ d < 16, ∀ d' < 16, UInt8.ofNat d <<< 4 ||| UInt8.ofNat d' = UInt8.ofNat (16 * d + d') := by decide
          exact fun hd hd' => this d hd d' hd'
        simp only [Option.map_some, Option.bind_eq_bind, Option.bind_some, hbyte]

/-! ## Texts of digits -/

variable {text : List Char} {bytes : Bytes}

def IsHex (text : List Char) : Prop := ∀ c ∈ text, (hexDigit c).isSome

theorem hexBytes_isSome (text : List Char) : (hexBytes text).isSome ↔ text.length % 2 = 0 ∧ IsHex text := by
  induction text using hexBytes.induct with
  | case1 => exact ⟨fun _ => ⟨rfl, fun _ h => absurd h List.not_mem_nil⟩, fun _ => rfl⟩
  | case2 c => simp [hexBytes]
  | case3 hi lo text ih =>
    have hlen : (hi :: lo :: text).length % 2 = text.length % 2 := by simp only [List.length_cons]; omega
    rw [hlen, IsHex, List.forall_mem_cons, List.forall_mem_cons, hexBytes]
    cases hexDigit hi with
    | none => simp
    | some d =>
      cases hexDigit lo with
      | none => simp
      | some d' =>
        refine Iff.trans ?_ (ih.trans ?_)
        · cases hexBytes text with
          | none => rfl
          | some bytes => rfl
        · exact and_congr_right fun _ => ⟨fun h => ⟨rfl, rfl, h⟩, fun h => h.2.2⟩

theorem length_hexBytes (h : hexBytes text = some bytes) : text.length = 2 * bytes.length := by
  induction text using hexBytes.induct generalizing bytes with
  | case1 => cases h; rfl
  | case2 => cases h
  | case3 hi lo rest ih =>
    simp only [hexBytes, Option.bind_eq_bind, Option.bind_eq_some_iff, Option.pure_def] at h
    obtain ⟨_, -, _, -, bytes', hrest, he⟩ := h
    cases he
    have := ih hrest
    simp only [List.length_cons]
    omega

theorem IsHex.length_encode (h : IsHex text) : (text.flatMap String.utf8EncodeChar).length = text.length := by
  induction text with
  | nil => rfl
  | cons c text ih =>
    obtain ⟨hc, h⟩ := List.forall_mem_cons.1 h
    obtain ⟨b, rest, hencode, -, hrest⟩ := utf8EncodeChar_cons c
    have hlow : c.toNat < 128 := Nat.lt_of_not_le fun hle => by rw [hexDigit_high hle] at hc; cases hc
    rw [List.flatMap_cons, List.length_append, ih h, hencode, hrest hlow, List.length_singleton, List.length_cons,
      Nat.add_comm]

/-- Nothing is cut off a text of hex digits. -/
theorem IsHex.strip (h : IsHex text) : stripHexPrefix (trim (String.ofList text)) = String.ofList text := by
  have hdrop {l : List Char} (hl : IsHex l) : l.dropWhile isWhiteSpace = l := by
    cases l with
    | nil => rfl
    | cons c l =>
      refine List.dropWhile_cons_of_neg fun hspace => ?_
      have hc := hl c List.mem_cons_self
      rw [hexDigit] at hc
      simp only [isWhiteSpace, Bool.or_eq_true, Bool.and_eq_true, decide_eq_true_iff] at hspace
      split_ifs at hc <;> first | omega | exact absurd hc (by decide)
  have htrim : trim (String.ofList text) = String.ofList text := by
    rw [trim, String.toList_ofList, hdrop h, hdrop fun c hc => h c (List.mem_reverse.1 hc), List.reverse_reverse]
  rw [htrim, stripHexPrefix, if_neg]
  intro hfront
  rw [String.toList_ofList] at hfront
  have hx : 'x' ∈ text := List.mem_of_mem_take (hfront ▸ List.mem_cons_of_mem _ List.mem_cons_self)
  exact absurd (h _ hx) (by decide)

/-- The bytes in lower-case digits. -/
def hexText (bytes : Bytes) : List Char :=
  bytes.flatMap fun b => [Nat.digitChar (b.toNat / 16), Nat.digitChar (b.toNat % 16)]

theorem hexBytes_hexText (bytes : Bytes) : hexBytes (hexText bytes) = some bytes := by
  have hdigit : ∀ d < 16, hexDigit (Nat.digitChar d) = some d := by decide
  induction bytes with
  | nil => rfl
  | cons b bytes ih =>
    have hb := b.toNat_lt
    have hvalue : 16 * (b.toNat / 16) + b.toNat % 16 = b.toNat := by omega
    rw [hexText] at ih ⊢
    rw [List.flatMap_cons, List.cons_append, List.cons_append, List.nil_append, hexBytes,
      hdigit _ (by omega), hdigit _ (by omega)]
    simp only [Option.bind_eq_bind, Option.bind_some, ih, hvalue, UInt8.ofNat_toNat, Option.pure_def]

/-! ## Keys -/

/-- What is left of a key without the white space around it and a `0x` in front. -/
def keyText (keyHex : String) : List Char := (stripHexPrefix (trim keyHex)).toList

/-- The control word of a key of six or eight bytes. -/
def controlWord : Bytes → Option Bytes
  | [b0, b1, b2, b3, b4, b5] => some [b0, b1, b2, checksum b0 b1 b2, b3, b4, b5, checksum b3 b4 b5]
  | bytes => if bytes.length = 8 then some bytes else none

theorem controlWord_whole (h : bytes.length = 8) : controlWord bytes = some bytes := by
  match bytes, h with
  | [_, _, _, _, _, _, _, _], _ => rfl

theorem controlWord_isSome (h : bytes.length = 6 ∨ bytes.length = 8) : (controlWord bytes).isSome := by
  rcases h with h | h
  · match bytes, h with
    | [_, _, _, _, _, _], _ => rfl
  · rw [controlWord_whole h]
    rfl

theorem parseBiss1Key_eq (keyHex : String) : parseBiss1Key keyHex =
    if (keyText keyHex).length = 12 ∨ (keyText keyHex).length = 16 then (hexBytes (keyText keyHex)).bind controlWord
    else none := by
  have hs : strBytes (stripHexPrefix (trim keyHex)) = (keyText keyHex).flatMap String.utf8EncodeChar := rfl
  rw [parseBiss1Key, hs]
  dsimp only
  rw [parseHexBytes_encode]
  cases hbytes : hexBytes (keyText keyHex) with
  | none => split_ifs <;> rfl
  | some bytes =>
    have hhex := ((hexBytes_isSome _).1 (Option.isSome_of_mem hbytes)).2
    have hlen := length_hexBytes hbytes
    rw [hhex.length_encode, Option.bind_some]
    by_cases h : (keyText keyHex).length = 12 ∨ (keyText keyHex).length = 16
    · rw [if_neg (by omega), if_pos h]
      have hcases : bytes.length = 8 ∨ bytes.length = 6 := by omega
      rcases hcases with h8 | h6
      · match bytes, h8 with
        | [_, _, _, _, _, _, _, _], _ => rfl
      · match bytes, h6 with
        | [b0, b1, b2, b3, b4, b5], _ =>
          rw [controlWord, checksum_eq, checksum_eq]
          rfl
    · rw [if_pos (by omega), if_neg h]
      rfl

theorem length_controlWord {cw : Bytes} (h : controlWord bytes = some cw) : cw.length = 8 := by
  unfold controlWord at h
  split at h
  · cases h; rfl
  · split_ifs at h with hlen
    cases h
    exact hlen

/-- **BISS-1 keys.** No text makes the parser panic; it takes 12 or 16 hex digits, completes six bytes by two
checksums, and the control word, written out, is a key with the same control word. -/
theorem biss1_key_exact (keyHex : String) :
    parseBiss1KeyChecked keyHex = .ok (parseBiss1Key keyHex) ∧
    ((parseBiss1Key keyHex).isSome ↔
      ((keyText keyHex).length = 12 ∨ (keyText keyHex).length = 16) ∧ IsHex (keyText keyHex)) ∧
    (∀ b0 b1 b2 b3 b4 b5, hexBytes (keyText keyHex) = some [b0, b1, b2, b3, b4, b5] →
      parseBiss1Key keyHex = some [b0, b1, b2, checksum b0 b1 b2, b3, b4, b5, checksum b3 b4 b5]) ∧
    (∀ bytes, (keyText keyHex).length = 16 → hexBytes (keyText keyHex) = some bytes →
      parseBiss1Key keyHex = some bytes) ∧
    ∀ cw text, (keyText keyHex).length = 12 → parseBiss1Key keyHex = some cw → hexBytes text = some cw →
      text.length = 16 ∧ parseBiss1Key (String.ofList text) = some cw := by
  have hwhole (bytes : Bytes) (text : List Char) (hlen : text.length = 16) (h : hexBytes text = some bytes) :
      (hexBytes text).bind controlWord = some bytes := by
    have hlen' := length_hexBytes h
    rw [h, Option.bind_some, controlWord_whole (by omega)]
  rw [parseBiss1KeyChecked_eq, parseBiss1Key_eq]
  refine ⟨rfl, ?_, fun b0 b1 b2 b3 b4 b5 h => ?_, fun bytes hlen h => ?_, fun cw text hlen h htext => ?_⟩
  · have heven : ((keyText keyHex).length = 12 ∨ (keyText keyHex).length = 16) → (keyText keyHex).length % 2 = 0 := by
      omega
    split_ifs with hlen
    · have hhex := hexBytes_isSome (keyText keyHex)
      rw [and_iff_right (heven hlen)] at hhex
      rw [and_iff_right hlen, ← hhex]
      cases hbytes : hexBytes (keyText keyHex) with
      | none => rfl
      | some bytes =>
        have hlen' := length_hexBytes hbytes
        exact iff_of_true (controlWord_isSome (by omega)) rfl
    · exact iff_of_false Bool.false_ne_true fun h => hlen h.1
  · rw [if_pos (.inl (length_hexBytes h)), h]
    rfl
  · rw [if_pos (.inr hlen), hwhole bytes _ hlen h]
  · rw [if_pos (.inl hlen)] at h
    obtain ⟨bytes, -, hcw⟩ := Option.bind_eq_some_iff.1 h
    have hlen' : text.length = 16 := by rw [length_hexBytes htext, length_controlWord hcw]
    have hhex := ((hexBytes_isSome text).1 (Option.isSome_of_mem htext)).2
    have hkey : keyText (String.ofList text) = text := by rw [keyText, hhex.strip, String.toList_ofList]
    refine ⟨hlen', ?_⟩
    rw [parseBiss1Key_eq, hkey, if_pos (.inr hlen'), hwhole cw text hlen' htext]

end MyMuxer
