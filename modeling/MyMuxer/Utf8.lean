import MyMuxer.Text

/-!
# Decoding UTF-8

* `utf8Front_encode`: a character that is encoded at the front is read.
* **`fromUtf8Lossy_strBytes`**: a string comes back from its bytes.
* `lossyLoop_append`, `length_lossyLoop`: what is read of a string that goes on in some other way.
-/

namespace MyMuxer

/-- A byte that may follow any first byte but four. -/
theorem follows_tail {lo hi : ℕ} {b : UInt8} (hlo : lo ≤ b.toNat) (hhi : b.toNat ≤ hi) :
    follows lo hi (some b) = true := by
  rw [follows, Bool.and_eq_true]
  exact ⟨decide_eq_true hlo, decide_eq_true hhi⟩

variable {v : ℕ} {b0 b1 b2 b3 : UInt8} (rest : Bytes)

theorem utf8Front_one (hv : v < 0x80) (h0 : b0.toNat = v) : utf8Front (b0 :: rest) = (Char.ofNat v, 1) := by
  have hb : (byte (b0 :: rest) 0).toNat = v := h0
  rw [utf8Front, hb]
  exact if_pos hv

theorem utf8Front_two (hlo : 0x80 ≤ v) (hhi : v < 0x800) (h0 : b0.toNat = v / 64 + 192)
    (h1 : b1.toNat = v % 64 + 128) : utf8Front (b0 :: b1 :: rest) = (Char.ofNat v, 2) := by
  have hb : (byte (b0 :: b1 :: rest) 0).toNat = v / 64 + 192 := h0
  have hcont : cont (b0 :: b1 :: rest) 1 = v % 64 := by
    change b1.toNat % 64 = _
    omega
  have hrange : secondRange (v / 64 + 192) = (0x80, 0xBF) := by
    rw [secondRange, if_neg (by omega), if_neg (by omega), if_neg (by omega), if_neg (by omega)]
  have hnext : (b0 :: b1 :: rest)[1]? = some b1 := rfl
  have hvalue : (v / 64 + 192) % 32 * 64 + v % 64 = v := by omega
  rw [utf8Front, hb, hnext, hrange, hcont]
  dsimp only
  rw [if_neg (by omega), if_neg (by omega), follows_tail (by omega) (by omega), if_neg (not_not.2 rfl),
    if_pos (by omega), hvalue]

theorem utf8Front_three (hlo : 0x800 ≤ v) (hhi : v < 0x10000) (hv : v < 0xD800 ∨ 0xDFFF < v)
    (h0 : b0.toNat = v / 4096 + 224) (h1 : b1.toNat = v / 64 % 64 + 128) (h2 : b2.toNat = v % 64 + 128) :
    utf8Front (b0 :: b1 :: b2 :: rest) = (Char.ofNat v, 3) := by
  have hb : (byte (b0 :: b1 :: b2 :: rest) 0).toNat = v / 4096 + 224 := h0
  have hcont1 : cont (b0 :: b1 :: b2 :: rest) 1 = v / 64 % 64 := by
    change b1.toNat % 64 = _
    omega
  have hcont2 : cont (b0 :: b1 :: b2 :: rest) 2 = v % 64 := by
    change b2.toNat % 64 = _
    omega
  have hsecond : follows (secondRange (v / 4096 + 224)).1 (secondRange (v / 4096 + 224)).2 (some b1) = true := by
    rw [secondRange]
    split_ifs
    · exact follows_tail (by omega) (by omega)
    · exact follows_tail (by omega) (by omega)
    · omega
    · omega
    · exact follows_tail (by omega) (by omega)
  have hnext : (b0 :: b1 :: b2 :: rest)[1]? = some b1 := rfl
  have hthird : (b0 :: b1 :: b2 :: rest)[2]? = some b2 := rfl
  have hvalue : (v / 4096 + 224) % 16 * 4096 + v / 64 % 64 * 64 + v % 64 = v := by omega
  rw [utf8Front, hb, hnext, hthird, hcont1, hcont2, if_neg (by omega), if_neg (by omega), hsecond,
    if_neg (not_not.2 rfl), if_neg (by omega), follows_tail (by omega) (by omega), if_neg (not_not.2 rfl),
    if_pos (by omega), hvalue]

theorem utf8Front_four (hlo : 0x10000 ≤ v) (hhi : v < 0x110000) (h0 : b0.toNat = v / 262144 + 240)
    (h1 : b1.toNat = v / 4096 % 64 + 128) (h2 : b2.toNat = v / 64 % 64 + 128) (h3 : b3.toNat = v % 64 + 128) :
    utf8Front (b0 :: b1 :: b2 :: b3 :: rest) = (Char.ofNat v, 4) := by
  have hb : (byte (b0 :: b1 :: b2 :: b3 :: rest) 0).toNat = v / 262144 + 240 := h0
  have hcont1 : cont (b0 :: b1 :: b2 :: b3 :: rest) 1 = v / 4096 % 64 := by
    change b1.toNat % 64 = _
    omega
  have hcont2 : cont (b0 :: b1 :: b2 :: b3 :: rest) 2 = v / 64 % 64 := by
    change b2.toNat % 64 = _
    omega
  have hcont3 : cont (b0 :: b1 :: b2 :: b3 :: rest) 3 = v % 64 := by
    change b3.toNat % 64 = _
    omega
  have hsecond : follows (secondRange (v / 262144 + 240)).1 (secondRange (v / 262144 + 240)).2 (some b1) = true := by
    rw [secondRange]
    split_ifs
    · omega
    · omega
    · exact follows_tail (by omega) (by omega)
    · exact follows_tail (by omega) (by omega)
    · exact follows_tail (by omega) (by omega)
  have hnext : (b0 :: b1 :: b2 :: b3 :: rest)[1]? = some b1 := rfl
  have hthird : (b0 :: b1 :: b2 :: b3 :: rest)[2]? = some b2 := rfl
  have hfourth : (b0 :: b1 :: b2 :: b3 :: rest)[3]? = some b3 := rfl
  have hvalue : (v / 262144 + 240) % 8 * 262144 + v / 4096 % 64 * 4096 + v / 64 % 64 * 64 + v % 64 = v := by omega
  rw [utf8Front, hb, hnext, hthird, hfourth, hcont1, hcont2, hcont3, if_neg (by omega), if_neg (by omega), hsecond,
    if_neg (not_not.2 rfl), if_neg (by omega), follows_tail (by omega) (by omega), if_neg (not_not.2 rfl),
    if_neg (by omega), follows_tail (by omega) (by omega), if_neg (not_not.2 rfl), hvalue]

/-- **A character at the front is read.** -/
theorem utf8Front_encode (c : Char) : utf8Front (String.utf8EncodeChar c ++ rest) = (c, c.utf8Size) := by
  have hlt : c.val.toNat < 0x110000 ∧ (c.val.toNat < 0xD800 ∨ 0xDFFF < c.val.toNat) := by
    rcases c.valid with h | h
    · exact ⟨by omega, .inl h⟩
    · exact ⟨h.2, .inr h.1⟩
  have hof : Char.ofNat c.val.toNat = c := Char.ofNat_toNat c
  have hbyte : ∀ n, n < 256 → (UInt8.ofNat n).toNat = n := fun n hn => UInt8.toNat_ofNat_of_lt' hn
  rw [← String.length_utf8EncodeChar]
  unfold String.utf8EncodeChar
  dsimp only
  generalize c.val.toNat = v at hlt hof
  rw [← hof]
  split_ifs with h1 h2 h3
  · exact utf8Front_one rest (by omega) (hbyte _ (by omega))
  · apply utf8Front_two rest
    · omega
    · omega
    · rw [hbyte _ (by omega)]
      omega
    · rw [hbyte _ (by omega)]
  · apply utf8Front_three rest
    · omega
    · omega
    · exact hlt.2
    · rw [hbyte _ (by omega)]
      omega
    · rw [hbyte _ (by omega)]
    · rw [hbyte _ (by omega)]
  · apply utf8Front_four rest
    · omega
    · omega
    · rw [hbyte _ (by omega)]
      omega
    · rw [hbyte _ (by omega)]
    · rw [hbyte _ (by omega)]
    · rw [hbyte _ (by omega)]

/-! ## The loop -/

theorem utf8LossyLoop_nil (fuel : ℕ) : utf8LossyLoop fuel [] = [] := by
  cases fuel with
  | zero => rfl
  | succ fuel => exact if_pos rfl

/-- The characters at the front of the bytes are read, whatever follows them. -/
theorem lossyLoop_append (cs : List Char) (fuel : ℕ) :
    utf8LossyLoop (cs.length + fuel) (cs.flatMap String.utf8EncodeChar ++ rest) = cs ++ utf8LossyLoop fuel rest := by
  induction cs with
  | nil => rw [List.length_nil, Nat.zero_add, List.flatMap_nil, List.nil_append, List.nil_append]
  | cons c cs ih =>
    have hne : String.utf8EncodeChar c ++ (cs.flatMap String.utf8EncodeChar ++ rest) ≠ [] := by
      intro h
      exact String.utf8EncodeChar_ne_nil (List.append_eq_nil_iff.1 h).1
    rw [List.length_cons, Nat.add_right_comm, List.flatMap_cons, List.append_assoc, utf8LossyLoop, if_neg hne,
      utf8Front_encode]
    dsimp only
    rw [← String.length_utf8EncodeChar, List.drop_left, ih, List.cons_append]

theorem utf8Front_pos (l : Bytes) : 0 < (utf8Front l).2 := by
  unfold utf8Front
  dsimp only
  split_ifs <;> exact Nat.succ_pos _

/-- No more characters are read than there are bytes. -/
theorem length_lossyLoop (fuel : ℕ) : ∀ l, (utf8LossyLoop fuel l).length ≤ l.length := by
  induction fuel with
  | zero => exact fun l => Nat.zero_le _
  | succ fuel ih =>
    intro l
    rw [utf8LossyLoop]
    split_ifs with hnil
    · exact Nat.zero_le _
    · have hrest := ih (l.drop (utf8Front l).2)
      have hpos := utf8Front_pos l
      have hlen := List.length_pos_of_ne_nil hnil
      rw [List.length_drop] at hrest
      rw [List.length_cons]
      omega

theorem length_le_encoded (cs : List Char) : cs.length ≤ (cs.flatMap String.utf8EncodeChar).length := by
  induction cs with
  | nil => exact le_rfl
  | cons c cs ih =>
    have := c.utf8Size_pos
    rw [List.flatMap_cons, List.length_append, String.length_utf8EncodeChar, List.length_cons]
    omega

/-- **A string comes back from its bytes.** -/
theorem fromUtf8Lossy_strBytes (s : String) : fromUtf8Lossy (strBytes s) = s := by
  have hlen := length_le_encoded s.toList
  obtain ⟨fuel, hfuel⟩ := Nat.exists_eq_add_of_le hlen
  have hloop := lossyLoop_append [] s.toList fuel
  rw [List.append_nil, utf8LossyLoop_nil, List.append_nil, ← hfuel] at hloop
  rw [fromUtf8Lossy, strBytes, hloop, String.ofList_toList]

end MyMuxer
