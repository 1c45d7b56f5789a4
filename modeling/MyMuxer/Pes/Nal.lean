import Mathlib.Data.List.DropRight
import MyMuxer.Build

/-!
# NAL units in a byte stream (`EsParser27::find_sps`, `ebsp_to_rbsp`)

* `findSps`, `ebspToRbsp`: as in the source.
* `spsUnit`: the first sequence parameter set of a byte string; **`findSps_eq`**: it is what `findSps` finds.
* `unescape`: what `ebspToRbsp` computes as long as no run of zeros reaches `2 ^ 31` bytes.
* `Nal`, `Framed`, `byteStream`: the byte-stream format.
* **`sps_of_byteStream`**: the first sequence parameter set of a byte stream is found, with its RBSP.
-/

namespace MyMuxer

namespace EsParser27

/-- `data[i] == 0 && data[i + 1] == 0 && data[i + 2] == 1`. -/
def codeAt (data : Bytes) (i : ℕ) : Rs Bool := do
  if (← idx data i) = 0 then
    if (← idx data (i + 1)) = 0 then return (← idx data (i + 2)) == 1 else return false
  else return false

/-- A start code of three bytes or of four, where the inner loop of `find_sps` looks for the end of a NAL unit. -/
def startAt (data : Bytes) (j : ℕ) : Rs Bool := do
  if (← idx data j) = 0 then
    if (← idx data (j + 1)) = 0 then
      if (← idx data (j + 2)) = 1 then return true
      else if j + 3 < data.length then
        if (← idx data (j + 2)) = 0 then return (← idx data (j + 3)) == 1 else return false
      else return false
    else return false
  else return false

/-- The inner loop, over the given number of positions from `j` on. -/
def nextStart (data : Bytes) : ℕ → ℕ → Rs ℕ
  | 0, _ => return data.length
  | n + 1, j => do
    if (← startAt data j) then return j else nextStart data n (j + 1)

/-- `while data_end > data_start && data[data_end - 1] == 0`. -/
def trimEnd (data : Bytes) (dataStart : ℕ) : ℕ → Rs ℕ
  | 0 => return 0
  | dataEnd + 1 => do
    if dataStart < dataEnd + 1 then
      if (← idx data dataEnd) = 0 then trimEnd data dataStart dataEnd else return dataEnd + 1
    else return dataEnd + 1

/-- What is found behind a start code: a sequence parameter set, or where to go on. -/
def nalAt (data : Bytes) (dataStart nextStart : ℕ) : Rs (Option Bytes) := do
  if dataStart < data.length then
    let headerByte ← idx data dataStart
    let dataEnd ← trimEnd data dataStart nextStart
    if headerByte &&& 0x1F = 7 then return some (← slice data (dataStart + 1) dataEnd) else return none
  else return none

def findSpsLoop (build : Build) (data : Bytes) : ℕ → ℕ → Ck (Option Bytes)
  | 0, _ => throw .endless
  | fuel + 1, i => do
    if i < (← usizeSub build data.length 2) then
      if (← codeAt data i) then
        let next ← nextStart data ((← usizeSub build data.length 2) - (i + 3)) (i + 3)
        match ← nalAt data (i + 3) next with
        | some sps => return some sps
        | none => findSpsLoop build data fuel next
      else findSpsLoop build data fuel (i + 1)
    else return none

def findSps (build : Build) (data : Bytes) : Ck (Option Bytes) := findSpsLoop build data (data.length + 1) 0

def ebspLoop (build : Build) : ℤ → Bytes → Ck Bytes
  | _, [] => return []
  | zeroCount, b :: data => do
    if zeroCount = 2 ∧ b = 0x03 then ebspLoop build 0 data
    else
      let zeroCount ← if b = 0 then i32 build (zeroCount + 1) else pure 0
      return b :: (← ebspLoop build zeroCount data)

def ebspToRbsp (build : Build) (data : Bytes) : Ck Bytes := ebspLoop build 0 data

end EsParser27

/-! ## The first sequence parameter set -/

/-- A start code, of three bytes or of four. -/
def Start (l : Bytes) : Prop := [0, 0, 1] <+: l ∨ [0, 0, 0, 1] <+: l

/-- A sequence parameter set with its start code. -/
def SpsAt (l : Bytes) : Prop := [0, 0, 1] <+: l ∧ l[3]?.map (· &&& 0x1F) = some 7

instance (l : Bytes) : Decidable (Start l) := by unfold Start; infer_instance

instance (l : Bytes) : Decidable (SpsAt l) := by unfold SpsAt; infer_instance

def untilStart : Bytes → Bytes
  | [] => []
  | b :: l => if Start (b :: l) then [] else b :: untilStart l

def trimZeros (l : Bytes) : Bytes := l.rdropWhile (· = 0)

/-- The bytes of the first sequence parameter set behind its header, without the zeros behind it. -/
def spsUnit : Bytes → Option Bytes
  | [] => none
  | b :: l => if SpsAt (b :: l) then some (trimZeros (untilStart (l.drop 3))) else spsUnit l

variable {l m : Bytes} {d i : ℕ}

theorem SpsAt.start (h : SpsAt l) : Start l := .inl h.1

theorem spsUnit_skip (h : ∀ q < d, ¬ SpsAt (l.drop q)) : spsUnit l = spsUnit (l.drop d) := by
  induction d generalizing l with
  | zero => rfl
  | succ d ih =>
    cases l with
    | nil => rfl
    | cons b l =>
      have hhead : ¬ SpsAt (b :: l) := h 0 (Nat.succ_pos d)
      rw [spsUnit, if_neg hhead, List.drop_succ_cons]
      exact ih fun q hq => h (q + 1) (Nat.succ_lt_succ hq)

theorem untilStart_append (h : ∀ q < l.length, ¬ Start ((l ++ m).drop q)) : untilStart (l ++ m) = l ++ untilStart m := by
  induction l with
  | nil => rfl
  | cons b l ih =>
    have hhead : ¬ Start (b :: (l ++ m)) := h 0 (Nat.succ_pos _)
    rw [List.cons_append, untilStart, if_neg hhead, ih fun q hq => h (q + 1) (Nat.succ_lt_succ hq), List.cons_append]

theorem not_start_of_untilStart {q : ℕ} (h : q < (untilStart l).length) : ¬ Start (l.drop q) := by
  induction l generalizing q with
  | nil => cases h
  | cons b l ih =>
    rw [untilStart] at h
    split_ifs at h with hs
    · cases h
    · cases q with
      | zero => exact hs
      | succ q => exact ih (Nat.lt_of_succ_lt_succ h)

theorem not_start_of_lt (h : m.length < 3) : ¬ Start m := by
  rintro (hp | hp) <;> simpa using hp.length_le.trans_lt h

theorem spsUnit_short (h : l.length < 3) : spsUnit l = none := by
  have := spsUnit_skip (l := l) (d := l.length) fun q _ => mt SpsAt.start (not_start_of_lt (by
    rw [List.length_drop]
    omega))
  rwa [List.drop_length, spsUnit] at this

theorem untilStart_short (h : m.length < 3) : untilStart m = m := by
  have := untilStart_append (l := m) (m := []) fun q _ => not_start_of_lt (by
    rw [List.append_nil, List.length_drop]
    omega)
  rwa [List.append_nil, untilStart, List.append_nil] at this

theorem trimZeros_zero (l : Bytes) : trimZeros (l ++ [0]) = trimZeros l := List.rdropWhile_concat_pos _ _ _ rfl

theorem trimZeros_of_ne {b : UInt8} (h : b ≠ 0) (l : Bytes) : trimZeros (l ++ [b]) = l ++ [b] :=
  List.rdropWhile_concat_neg _ _ _ (by simpa using h)

theorem trimZeros_cons {b : UInt8} (h : b ≠ 0) (l : Bytes) : trimZeros (b :: l) = b :: trimZeros l := by
  induction l using List.reverseRecOn with
  | nil => exact trimZeros_of_ne h []
  | append_singleton l c ih =>
    rw [← List.cons_append]
    by_cases hc : c = 0
    · rw [hc, trimZeros_zero, trimZeros_zero, ih]
    · rw [trimZeros_of_ne hc, trimZeros_of_ne hc, List.cons_append]

theorem Start.head {b : UInt8} (h : Start (b :: l)) : b = 0 := by
  rcases h with h | h
  · exact (List.cons_prefix_cons.1 h).1.symm
  · exact (List.cons_prefix_cons.1 h).1.symm

theorem Start.second {a b : UInt8} (h : Start (a :: b :: l)) : b = 0 := by
  rcases h with h | h
  · exact (List.cons_prefix_cons.1 (List.cons_prefix_cons.1 h).2).1.symm
  · exact (List.cons_prefix_cons.1 (List.cons_prefix_cons.1 h).2).1.symm

/-! ## What `find_sps` finds -/

namespace EsParser27

variable {data : Bytes} {build : Build}

theorem drop_eq_three (h : i + 2 < data.length) :
    data.drop i = byte data i :: byte data (i + 1) :: byte data (i + 2) :: data.drop (i + 3) := by
  rw [drop_eq_byte_cons (by omega), drop_eq_byte_cons (by omega : i + 1 < _), drop_eq_byte_cons h]

theorem codeAt_eq (h : i + 2 < data.length) : codeAt data i = .ok (decide ([0, 0, 1] <+: data.drop i)) := by
  rw [drop_eq_three h, codeAt, idx_of_lt (by omega), idx_of_lt (by omega : i + 1 < _), idx_of_lt h]
  simp only [ok_bind, List.cons_prefix_cons, List.nil_prefix, and_true, pure_eq_ok]
  split_ifs with h0 h1
  · simp only [h0, h1, true_and, eq_comm, beq_eq_decide]
  · simp only [h0, Ne.symm h1, false_and, and_false, decide_false]
  · simp only [Ne.symm h0, false_and, decide_false]

theorem startAt_eq (h : i + 2 < data.length) : startAt data i = .ok (decide (Start (data.drop i))) := by
  have hone : (0 : UInt8) ≠ 1 := by decide
  unfold Start
  rw [drop_eq_three h, startAt, idx_of_lt (by omega), idx_of_lt (by omega : i + 1 < _), idx_of_lt h]
  simp only [ok_bind, List.cons_prefix_cons, List.nil_prefix, and_true, pure_eq_ok]
  split_ifs with h0 h1 h2 hlen h3
  · simp only [h0, h1, h2, and_self, true_or, decide_true]
  · rw [idx_of_lt hlen, drop_eq_byte_cons hlen]
    simp only [ok_bind, h0, h1, h3, List.cons_prefix_cons, List.nil_prefix, and_true, true_and, hone, false_or,
      eq_comm (a := (1 : UInt8)), beq_eq_decide]
  · simp only [Ne.symm h2, Ne.symm h3, false_and, and_false, or_self, decide_false]
  · rw [List.drop_of_length_le (by omega)]
    simp only [Ne.symm h2, List.prefix_nil, List.cons_ne_nil, and_false, or_self, decide_false]
  · simp only [Ne.symm h1, false_and, and_false, or_self, decide_false]
  · simp only [Ne.symm h0, false_and, or_self, decide_false]

/-- The inner loop ends at the next start code, or behind the data. -/
theorem nextStart_eq (n : ℕ) (hi : i ≤ data.length) (hn : n = data.length - 2 - i) :
    ∃ next, nextStart data n i = .ok next ∧ i ≤ next ∧ next ≤ data.length ∧
      (data.drop i).take (next - i) = untilStart (data.drop i) := by
  induction n generalizing i with
  | zero =>
    refine ⟨data.length, rfl, hi, le_rfl, ?_⟩
    rw [untilStart_short (by rw [List.length_drop]; omega), List.take_of_length_le (by rw [List.length_drop])]
  | succ n ih =>
    rw [nextStart, startAt_eq (by omega), ok_bind, drop_eq_byte_cons (by omega), untilStart]
    by_cases hs : Start (byte data i :: data.drop (i + 1))
    · refine ⟨i, ?_, le_rfl, hi, ?_⟩
      · rw [if_pos (decide_eq_true hs)]
        rfl
      · rw [if_pos hs, Nat.sub_self, List.take_zero]
    · obtain ⟨next, he, hle, hlen, htake⟩ := ih (by omega : i + 1 ≤ _) (by omega)
      refine ⟨next, ?_, by omega, hlen, ?_⟩
      · rw [if_neg (by simpa using hs), he]
      · rw [if_neg hs, ← htake, show next - i = next - (i + 1) + 1 by omega, List.take_succ_cons]

/-- The zeros at the end of a slice are taken off. -/
theorem trimEnd_eq {dataStart dataEnd : ℕ} (hle : dataStart ≤ dataEnd) (hlen : dataEnd ≤ data.length) :
    ∃ e, trimEnd data dataStart dataEnd = .ok e ∧ dataStart ≤ e ∧ e ≤ dataEnd ∧
      (data.drop dataStart).take (e - dataStart) = trimZeros ((data.drop dataStart).take (dataEnd - dataStart)) := by
  induction dataEnd with
  | zero =>
    obtain rfl := Nat.le_zero.1 hle
    exact ⟨0, rfl, le_rfl, le_rfl, rfl⟩
  | succ e ih =>
    rw [trimEnd]
    by_cases hlt : dataStart < e + 1
    · rw [if_pos hlt, idx_of_lt (by omega), ok_bind]
      have htake : (data.drop dataStart).take (e + 1 - dataStart) =
          (data.drop dataStart).take (e - dataStart) ++ [byte data e] := by
        rw [show e + 1 - dataStart = e - dataStart + 1 by omega, List.take_add_one, List.getElem?_drop,
          show dataStart + (e - dataStart) = e by omega, List.getElem?_eq_getElem (by omega), byte,
          List.getD_eq_getElem?_getD, List.getElem?_eq_getElem (by omega)]
        rfl
      rw [htake]
      by_cases hb : byte data e = 0
      · obtain ⟨e', he, hle', hlt', htake'⟩ := ih (by omega) (by omega)
        refine ⟨e', ?_, hle', by omega, ?_⟩
        · rw [if_pos hb, he]
        · rw [htake', hb, trimZeros_zero]
      · refine ⟨e + 1, ?_, by omega, le_rfl, ?_⟩
        · rw [if_neg hb]
          rfl
        · rw [trimZeros_of_ne hb, htake]
    · obtain rfl : dataStart = e + 1 := by omega
      refine ⟨e + 1, ?_, le_rfl, le_rfl, ?_⟩
      · rw [if_neg hlt]
        rfl
      · rw [Nat.sub_self, List.take_zero]
        rfl

/-- Behind a start code at `i`. -/
theorem nalAt_eq (hcode : [0, 0, 1] <+: data.drop i) {next : ℕ} (hle : i + 3 ≤ next) (hlen : next ≤ data.length)
    (htake : (data.drop (i + 3)).take (next - (i + 3)) = untilStart (data.drop (i + 3))) :
    nalAt data (i + 3) next =
      .ok (if SpsAt (data.drop i) then some (trimZeros (untilStart (data.drop (i + 4)))) else none) := by
  have hhead : (data.drop i)[3]? = data[i + 3]? := List.getElem?_drop
  rw [nalAt]
  by_cases hlt : i + 3 < data.length
  · have hdrop := drop_eq_byte_cons hlt
    have hnum : (7 : UInt8) ≠ 0 &&& 0x1F := by decide
    have hsps : SpsAt (data.drop i) ↔ byte data (i + 3) &&& 0x1F = 7 := by
      rw [SpsAt, and_iff_right hcode, hhead, List.getElem?_eq_getElem hlt, Option.map_some, Option.some.injEq, byte,
        List.getD_eq_getElem?_getD, List.getElem?_eq_getElem hlt, Option.getD_some]
    obtain ⟨e, he, hle', hlt', htrim⟩ := trimEnd_eq hle hlen
    rw [if_pos hlt, idx_of_lt hlt, ok_bind, he, ok_bind]
    by_cases hseven : byte data (i + 3) &&& 0x1F = 7
    · rw [if_pos hseven, if_pos (hsps.2 hseven)]
      have hne : byte data (i + 3) ≠ 0 := fun h => hnum (h ▸ hseven).symm
      rw [htake, hdrop, untilStart, if_neg (mt Start.head hne), trimZeros_cons hne] at htrim
      obtain ⟨n, hn⟩ : ∃ n, e = i + 4 + n := Nat.exists_eq_add_of_le (by
        by_contra hshort
        rw [show e - (i + 3) = 0 by omega] at htrim
        cases htrim)
      rw [show e - (i + 3) = n + 1 by omega, List.take_succ_cons] at htrim
      rw [slice_of_le (by omega) (by omega), show e - (i + 3 + 1) = n by omega, (List.cons.inj htrim).2]
      rfl
    · rw [if_neg hseven, if_neg (mt hsps.1 hseven)]
      rfl
  · have hsps : ¬ SpsAt (data.drop i) := by
      rintro ⟨-, h⟩
      rw [hhead, List.getElem?_eq_none (by omega)] at h
      cases h
    rw [if_neg hlt, if_neg hsps]
    rfl

theorem spsUnit_eq (h : i < data.length) : spsUnit (data.drop i) = if SpsAt (data.drop i) then
    some (trimZeros (untilStart (data.drop (i + 4)))) else spsUnit (data.drop (i + 1)) := by
  rw [drop_eq_byte_cons h, spsUnit, List.drop_drop]

/-- No start code is skipped. -/
theorem spsUnit_next (hcode : [0, 0, 1] <+: data.drop i) {next : ℕ} (hle : i + 3 ≤ next) (hlen : next ≤ data.length)
    (htake : (data.drop (i + 3)).take (next - (i + 3)) = untilStart (data.drop (i + 3))) :
    spsUnit (data.drop (i + 1)) = spsUnit (data.drop next) := by
  obtain ⟨rest, hrest⟩ := hcode
  have hdrop (k : ℕ) : data.drop (i + k) = ([0, 0, 1] ++ rest).drop k := by rw [← List.drop_drop, hrest]
  have hlength : (untilStart (data.drop (i + 3))).length = next - (i + 3) := by
    rw [← htake, List.length_take_of_le]
    rw [List.length_drop]
    omega
  rw [spsUnit_skip (d := next - (i + 1)), List.drop_drop, show i + 1 + (next - (i + 1)) = next by omega]
  intro q hq hsps
  have hs := hsps.start
  rw [List.drop_drop] at hs
  match q with
  | 0 =>
    rw [hdrop 1] at hs
    exact absurd hs.second (by decide)
  | 1 =>
    rw [hdrop 2] at hs
    exact absurd hs.head (by decide)
  | q + 2 =>
    rw [show i + 1 + (q + 2) = i + 3 + q by omega, ← List.drop_drop] at hs
    exact not_start_of_untilStart (by omega) hs

/-- **The loop finds the first sequence parameter set.** -/
theorem findSpsLoop_eq (hdata : 2 ≤ data.length) (fuel : ℕ) (hi : i ≤ data.length) (hfuel : data.length < fuel + i) :
    findSpsLoop build data fuel i = .ok (spsUnit (data.drop i)) := by
  induction fuel generalizing i with
  | zero => omega
  | succ fuel ih =>
    rw [findSpsLoop, usizeSub_of_le hdata, ck_bind]
    by_cases hlt : i < data.length - 2
    · rw [if_pos hlt, codeAt_eq (by omega), spsUnit_eq (by omega)]
      change (if decide ([0, 0, 1] <+: data.drop i) = true then _ else _) = _
      by_cases hcode : [0, 0, 1] <+: data.drop i
      · rw [if_pos (decide_eq_true hcode), ck_bind]
        obtain ⟨next, he, hle, hlen, htake⟩ := nextStart_eq _ (by omega : i + 3 ≤ data.length) rfl
        rw [he, ck_lift, ck_bind, nalAt_eq hcode hle hlen htake, ck_lift, ck_bind]
        split_ifs with hsps
        · rfl
        · exact (ih hlen (by omega)).trans (congrArg _ (spsUnit_next hcode hle hlen htake).symm)
      · have hsps : ¬ SpsAt (data.drop i) := fun h => hcode h.1
        rw [if_neg (by simpa using hcode), if_neg hsps]
        exact ih (by omega) (by omega)
    · rw [if_neg hlt, spsUnit_short (by rw [List.length_drop]; omega)]
      rfl

/-- **`find_sps` finds the first sequence parameter set.** -/
theorem findSps_eq (hdata : 2 ≤ data.length) : findSps build data = .ok (spsUnit data) :=
  findSpsLoop_eq hdata _ (Nat.zero_le _) (Nat.lt_succ_self _)

/-- Of less than two bytes, `data.len() - 2` is not to be had. -/
theorem findSps_short_debug (hdata : data.length < 2) : findSps .debug data = .error .overflow := by
  rw [findSps, findSpsLoop, usizeSub, if_neg (by omega)]
  rfl

/-- A release build reads behind the data then. -/
theorem findSps_short_release (hdata : data.length < 2) :
    findSps .release data = .error (.panic .indexOutOfRange) := by
  match data, hdata with
  | [], _ => rfl
  | [b], _ =>
    by_cases hb : b = 0
    · subst hb
      rfl
    · have hcode : codeAt [b] 0 = .ok false := if_neg hb
      have hsub : usizeSub .release [b].length 2 = .ok (2 ^ 64 - 1) := rfl
      rw [findSps, findSpsLoop, hsub, ck_bind, if_pos (by norm_num), hcode]
      rfl

end EsParser27

/-! ## Emulation prevention -/

/-- The RBSP in the bytes of a NAL unit, behind so many zeros. -/
def unescape : ℕ → Bytes → Bytes
  | _, [] => []
  | zeros, b :: l => if zeros = 2 ∧ b = 3 then unescape 0 l else b :: unescape (if b = 0 then zeros + 1 else 0) l

/-- A run of zeros that an `i32` does not count. -/
def LongRun (l : Bytes) : Prop := List.replicate (2 ^ 31) 0 <:+: l

theorem zeros_cons (z : ℕ) (l : Bytes) : List.replicate (z + 1) 0 ++ l = List.replicate z 0 ++ 0 :: l := by
  rw [List.replicate_succ', List.append_assoc, List.singleton_append]

/-- A run lies before another byte or behind it. -/
theorem run_split {n : ℕ} {a b : UInt8} (hne : b ≠ a) (h : List.replicate n a <:+: l ++ b :: m) :
    List.replicate n a <:+: l ∨ List.replicate n a <:+: m := by
  obtain ⟨s, t, h⟩ := h
  have hmem (u v : Bytes) : List.replicate n a ≠ u ++ b :: v := by
    intro he
    have hb : b ∈ List.replicate n a := he ▸ List.mem_append_right u List.mem_cons_self
    exact hne (List.eq_of_mem_replicate hb)
  obtain ⟨l', rfl, -⟩ | ⟨c, hc, hm⟩ := List.append_eq_append_iff.1 h
  · exact .inl ⟨s, l', rfl⟩
  · cases c with
    | nil =>
      rw [List.append_nil] at hc
      exact .inl ⟨s, [], by rw [List.append_nil, hc]⟩
    | cons b' c =>
      obtain ⟨rfl, rfl⟩ := List.cons.inj hm
      obtain ⟨u, -, hu⟩ | ⟨u, -, hu⟩ := List.append_eq_append_iff.1 hc
      · exact absurd hu (hmem u c)
      · cases u with
        | nil => exact absurd hu.symm (hmem [] c)
        | cons b' u =>
          obtain ⟨-, rfl⟩ := List.cons.inj hu
          exact .inr ⟨u, t, rfl⟩

namespace EsParser27

variable {build : Build} {z : ℕ}

/-- A byte more: the loop goes on counting, or starts afresh. -/
theorem ebspLoop_cons (b : UInt8) (l : Bytes) : ebspLoop build z (b :: l) =
    if z = 2 ∧ b = 3 then ebspLoop build 0 l
    else if b = 0 then i32 build (z + 1 : ℕ) >>= fun z => ebspLoop build z l >>= fun out => .ok (b :: out)
    else ebspLoop build 0 l >>= fun out => .ok (b :: out) := by
  have hcount : ((z : ℤ) = 2 ∧ b = 3) ↔ z = 2 ∧ b = 3 := and_congr_left fun _ => by omega
  rw [ebspLoop]
  simp only [hcount]
  split_ifs
  · rfl
  · rfl
  · rfl

theorem ebspLoop_eq (hz : z < 2 ^ 31) (hrun : ¬ LongRun (List.replicate z 0 ++ l)) :
    ebspLoop build z l = .ok (unescape z l) := by
  induction l generalizing z with
  | nil => rfl
  | cons b l ih =>
    have hrest : ¬ LongRun l := fun h =>
      hrun (h.trans ((List.suffix_cons b l).trans (List.suffix_append _ _)).isInfix)
    rw [ebspLoop_cons, unescape]
    split_ifs with hesc hb
    · exact ih (z := 0) (by norm_num) hrest
    · rw [hb, ← zeros_cons] at hrun
      have hz' : z + 1 < 2 ^ 31 := by
        by_contra hmax
        rw [show z + 1 = 2 ^ 31 by omega] at hrun
        exact hrun (List.prefix_append _ _).isInfix
      rw [i32_of_fits (by omega), ck_bind, ih hz' hrun]
      rfl
    · rw [show ebspLoop build 0 l = .ok (unescape 0 l) from ih (z := 0) (by norm_num) hrest]
      rfl

/-- **`ebsp_to_rbsp` computes the RBSP**, if it can count the zeros. -/
theorem ebspToRbsp_eq (hrun : ¬ LongRun l) : ebspToRbsp build l = .ok (unescape 0 l) :=
  ebspLoop_eq (by norm_num) hrun

theorem ebspLoop_debug (hz : z < 2 ^ 31) (hrun : LongRun (List.replicate z 0 ++ l)) :
    ebspLoop .debug z l = .error .overflow := by
  have hshort (m : Bytes) (hm : m.length < 2 ^ 31) : ¬ LongRun m := fun h => by
    have := h.length_le
    rw [List.length_replicate] at this
    omega
  induction l generalizing z with
  | nil => exact absurd hrun (hshort _ (by rwa [List.append_nil, List.length_replicate]))
  | cons b l ih =>
    have hrest (hb : b ≠ 0) : LongRun l :=
      (run_split hb hrun).resolve_left (hshort _ (by rwa [List.length_replicate]))
    rw [ebspLoop_cons]
    split_ifs with hesc hb
    · exact ih (z := 0) (by norm_num) (hrest (by rw [hesc.2]; decide))
    · rw [hb, ← zeros_cons] at hrun
      by_cases hz' : z + 1 < 2 ^ 31
      · rw [i32_of_fits (by omega), ck_bind, ih hz' hrun]
        rfl
      · rw [i32, if_neg (by omega)]
        rfl
    · rw [show ebspLoop .debug 0 l = .error .overflow from ih (z := 0) (by norm_num) (hrest hb)]
      rfl

theorem ebspToRbsp_debug (hrun : LongRun l) : ebspToRbsp .debug l = .error .overflow :=
  ebspLoop_debug (by norm_num) hrun

end EsParser27

/-! ## Byte streams -/

/-- The bytes of a NAL unit for those of its RBSP, behind so many zeros. -/
def escape : ℕ → Bytes → Bytes
  | _, [] => []
  | zeros, b :: l =>
    if zeros = 2 ∧ b ≤ 3 then 3 :: b :: escape (if b = 0 then 1 else 0) l
    else b :: escape (if b = 0 then zeros + 1 else 0) l

structure Nal where
  header : UInt8
  rbsp : Bytes
  ends : ∃ b ∈ rbsp.getLast?, b ≠ 0

namespace Nal

def unitType (nal : Nal) : UInt8 := nal.header &&& 0x1F

def bytes (nal : Nal) : Bytes := nal.header :: escape (if nal.header = 0 then 1 else 0) nal.rbsp

end Nal

/-- A NAL unit, zeros and a start code of four bytes or of three before it. -/
structure Framed where
  zeros : ℕ
  long : Bool
  nal : Nal

def Framed.bytes (u : Framed) : Bytes :=
  List.replicate u.zeros 0 ++ (if u.long then [0, 0, 0, 1] else [0, 0, 1]) ++ u.nal.bytes

def byteStream (units : List Framed) : Bytes := units.flatMap Framed.bytes

/-- No start code and no three zeros. -/
def Clean (l : Bytes) : Prop := ∀ b ≤ 2, ¬ [0, 0, b] <:+: l

theorem clean_cons {b : UInt8} : Clean (b :: l) ↔ (∀ c ≤ 2, ¬ [0, 0, c] <+: b :: l) ∧ Clean l := by
  simp only [Clean, List.infix_cons_iff, not_or, forall_and]

theorem clean_of_length {l : Bytes} (h : l.length < 3) : Clean l := fun b _ hb => by
  have := hb.length_le
  simp only [List.length_cons, List.length_nil] at this
  omega

theorem Clean.not_longRun (h : Clean l) : ¬ LongRun l := fun hrun => by
  have hzeros : [0, 0, 0] <+: List.replicate (2 ^ 31) (0 : UInt8) := ⟨List.replicate (2 ^ 31 - 3) 0, by
    rw [show [0, 0, 0] = List.replicate 3 (0 : UInt8) from rfl, List.replicate_append_replicate]
    rfl⟩
  exact h 0 (by decide) (hzeros.isInfix.trans hrun)

/-- A byte that is not zero, in front. -/
theorem Clean.cons_of_ne {b : UInt8} (h : Clean l) (hb : b ≠ 0) : Clean (b :: l) :=
  clean_cons.2 ⟨fun _ _ hp => hb (List.cons_prefix_cons.1 hp).1.symm, h⟩

/-- Zeros in front of a byte that is too large for them. -/
theorem Clean.zeros {b : UInt8} {z : ℕ} (h : Clean l) (hb : b ≠ 0) (hz : z ≤ 2) (hlarge : z = 2 → 2 < b) :
    Clean (List.replicate z 0 ++ b :: l) := by
  match z with
  | 0 => exact h.cons_of_ne hb
  | 1 =>
    refine clean_cons.2 ⟨fun c _ hp => ?_, h.cons_of_ne hb⟩
    exact hb (List.cons_prefix_cons.1 (List.cons_prefix_cons.1 hp).2).1.symm
  | 2 =>
    refine clean_cons.2 ⟨fun c hc hp => ?_, clean_cons.2 ⟨fun c _ hp => ?_, h.cons_of_ne hb⟩⟩
    · have := (List.cons_prefix_cons.1 (List.cons_prefix_cons.1 (List.cons_prefix_cons.1 hp).2).2).1
      exact absurd (this ▸ hc) (UInt8.not_le.2 (hlarge rfl))
    · exact hb (List.cons_prefix_cons.1 (List.cons_prefix_cons.1 hp).2).1.symm

/-- **No start code in an escaped RBSP, and no three zeros.** -/
theorem clean_escape {z : ℕ} (hz : z ≤ 2) : Clean (List.replicate z 0 ++ escape z l) := by
  induction l generalizing z with
  | nil =>
    refine clean_of_length ?_
    rw [escape, List.append_nil, List.length_replicate]
    omega
  | cons b l ih =>
    have hzero : Clean (0 :: escape 1 l) := ih (z := 1) (by norm_num)
    have hnone : Clean (escape 0 l) := ih (z := 0) (Nat.zero_le 2)
    rw [escape]
    split_ifs with hesc hb hb
    · exact Clean.zeros (hb ▸ hzero) (by decide) hz fun _ => by decide
    · exact Clean.zeros (hnone.cons_of_ne hb) (by decide) hz fun _ => by decide
    · rw [hb, ← zeros_cons]
      refine ih ?_
      by_contra hmax
      exact hesc ⟨by omega, hb ▸ by decide⟩
    · refine hnone.zeros hb hz fun h => ?_
      exact UInt8.lt_trans (by decide : (2 : UInt8) < 3) (UInt8.not_le.1 fun hle => hesc ⟨h, hle⟩)

theorem not_longRun_escape (l : Bytes) : ¬ LongRun (escape 0 l) :=
  (clean_escape (z := 0) (Nat.zero_le 2)).not_longRun

theorem unescape_escape {z : ℕ} (hz : z ≤ 2) : unescape z (escape z l) = l := by
  induction l generalizing z with
  | nil => rfl
  | cons b l ih =>
    rw [escape]
    split_ifs with hesc hb hb
    · rw [unescape, if_pos ⟨hesc.1, rfl⟩, unescape, if_neg (by omega), if_pos hb, ih (by norm_num)]
    · rw [unescape, if_pos ⟨hesc.1, rfl⟩, unescape, if_neg (by omega), if_neg hb, ih (Nat.zero_le 2)]
    · have hkeep : ¬ (z = 2 ∧ b = 3) := fun h => hesc ⟨h.1, h.2 ▸ UInt8.le_refl b⟩
      rw [unescape, if_neg hkeep, if_pos hb, ih]
      by_contra hmax
      exact hesc ⟨by omega, hb ▸ by decide⟩
    · have hkeep : ¬ (z = 2 ∧ b = 3) := fun h => hesc ⟨h.1, h.2 ▸ UInt8.le_refl b⟩
      rw [unescape, if_neg hkeep, if_neg hb, ih (Nat.zero_le 2)]

theorem escape_cons (z : ℕ) (b : UInt8) (l : Bytes) : ∃ m z', escape z (b :: l) = m ++ b :: escape z' l := by
  rw [escape]
  split_ifs
  · exact ⟨[3], 1, rfl⟩
  · exact ⟨[3], 0, rfl⟩
  · exact ⟨[], z + 1, rfl⟩
  · exact ⟨[], 0, rfl⟩

/-- The last byte of an RBSP stays the last. -/
theorem escape_concat (z : ℕ) (l : Bytes) (b : UInt8) : ∃ m, escape z (l ++ [b]) = m ++ [b] := by
  induction l generalizing z with
  | nil =>
    obtain ⟨m, z', hm⟩ := escape_cons z b []
    exact ⟨m, hm⟩
  | cons c l ih =>
    obtain ⟨m, z', hm⟩ := escape_cons z c (l ++ [b])
    obtain ⟨m', hm'⟩ := ih z'
    exact ⟨m ++ c :: m', by rw [List.cons_append, hm, hm', List.append_assoc]; rfl⟩

/-- No start code begins in a NAL unit, whatever follows it. -/
theorem Clean.not_start {b : UInt8} (h : Clean (l ++ [b])) (hb : b ≠ 0) {q : ℕ} (hq : q < (l ++ [b]).length) :
    ¬ Start ((l ++ [b] ++ m).drop q) := by
  intro hs
  have hle : q ≤ l.length := by
    rw [List.length_append, List.length_singleton] at hq
    omega
  have hlast {c : UInt8} {r : Bytes} (he : (l ++ [b]).drop q = r ++ [c]) : b = c := by
    rw [List.drop_append_of_le_length hle] at he
    exact (List.append_singleton_inj.1 he).2
  have hthree {c d e : UInt8} {r : Bytes} (he : (l ++ [b]).drop q = c :: d :: e :: r) (hc : c = 0) (hd : d = 0) :
      2 < e := by
    refine UInt8.not_le.1 fun hsmall => h e hsmall ?_
    refine List.IsInfix.trans ⟨[], r, ?_⟩ (List.drop_suffix q _).isInfix
    rw [he, hc, hd]
    rfl
  have hzero {e : UInt8} {r : Bytes} (hp : Start (0 :: 0 :: e :: r)) : e ≤ 2 := by
    rcases hp with hp | hp
    · exact (List.cons_prefix_cons.1 (List.cons_prefix_cons.1 (List.cons_prefix_cons.1 hp).2).2).1 ▸ by decide
    · exact (List.cons_prefix_cons.1 (List.cons_prefix_cons.1 (List.cons_prefix_cons.1 hp).2).2).1 ▸ by decide
  rw [List.drop_append_of_le_length hq.le] at hs
  match hdrop : (l ++ [b]).drop q with
  | [] =>
    have := List.drop_eq_nil_iff.1 hdrop
    omega
  | [c] =>
    rw [hdrop] at hs
    exact hb ((hlast (r := []) hdrop).trans hs.head)
  | [c, d] =>
    rw [hdrop] at hs
    exact hb ((hlast (r := [c]) hdrop).trans hs.second)
  | c :: d :: e :: r =>
    rw [hdrop] at hs
    obtain rfl := hs.head
    obtain rfl := hs.second
    exact absurd (hzero hs) (UInt8.not_le.2 (hthree hdrop rfl rfl))

namespace Nal

variable (nal : Nal)

theorem exists_concat (z : ℕ) : ∃ m b, b ≠ 0 ∧ escape z nal.rbsp = m ++ [b] := by
  obtain ⟨b, hlast, hb⟩ := nal.ends
  obtain ⟨l, hl⟩ := List.getLast?_eq_some_iff.1 hlast
  obtain ⟨m, hm⟩ := escape_concat z l b
  exact ⟨m, b, hb, hl ▸ hm⟩

/-- **No NAL unit contains a start code or three zeros.** -/
theorem clean : Clean nal.bytes := by
  rw [bytes]
  by_cases hheader : nal.header = 0
  · rw [if_pos hheader, hheader]
    exact clean_escape (z := 1) (by norm_num)
  · rw [if_neg hheader]
    exact (clean_escape (z := 0) (Nat.zero_le 2)).cons_of_ne hheader

theorem spsUnit_append (l : Bytes) : spsUnit (nal.bytes ++ l) = spsUnit l := by
  obtain ⟨m, b, hb, hm⟩ := nal.exists_concat (if nal.header = 0 then 1 else 0)
  have hbytes : nal.bytes = nal.header :: m ++ [b] := by rw [bytes, hm, List.cons_append]
  have hclean := nal.clean
  rw [hbytes] at hclean ⊢
  rw [spsUnit_skip fun q hq => mt SpsAt.start (hclean.not_start hb hq), List.drop_left]

end Nal

theorem Framed.bytes_eq (u : Framed) :
    ∃ k, u.bytes = List.replicate k 0 ++ 0 :: 0 :: 1 :: u.nal.bytes := by
  rw [Framed.bytes]
  cases u.long with
  | false => exact ⟨u.zeros, by rw [List.append_assoc]; rfl⟩
  | true =>
    refine ⟨u.zeros + 1, ?_⟩
    rw [zeros_cons, List.append_assoc]
    rfl

theorem spsUnit_zeros (k : ℕ) (l : Bytes) : spsUnit (List.replicate k 0 ++ 0 :: 0 :: l) = spsUnit (0 :: 0 :: l) := by
  induction k with
  | zero => rfl
  | succ k ih =>
    have hcons : List.replicate (k + 1) 0 ++ 0 :: 0 :: l = 0 :: 0 :: 0 :: (List.replicate k 0 ++ l) := by
      rw [← zeros_cons, ← zeros_cons]
      rfl
    have hcons' : List.replicate k 0 ++ 0 :: 0 :: l = 0 :: 0 :: (List.replicate k 0 ++ l) := by
      rw [← zeros_cons, ← zeros_cons]
      rfl
    have hsps : ¬ SpsAt (0 :: 0 :: 0 :: (List.replicate k 0 ++ l)) := fun h => by
      have := (List.cons_prefix_cons.1 (List.cons_prefix_cons.1 (List.cons_prefix_cons.1 h.1).2).2).1
      exact absurd this (by decide)
    rw [hcons, spsUnit, if_neg hsps, ← hcons', ih]

theorem untilStart_zeros (k : ℕ) (l : Bytes) :
    ∃ n, untilStart (List.replicate k 0 ++ 0 :: 0 :: 1 :: l) = List.replicate n 0 := by
  induction k with
  | zero => exact ⟨0, if_pos (.inl ⟨l, rfl⟩)⟩
  | succ k ih =>
    obtain ⟨n, hn⟩ := ih
    rw [List.replicate_succ, List.cons_append, untilStart]
    split_ifs
    · exact ⟨0, rfl⟩
    · exact ⟨n + 1, by rw [hn]; rfl⟩

theorem untilStart_byteStream (us : List Framed) : ∃ n, untilStart (byteStream us) = List.replicate n 0 := by
  cases us with
  | nil => exact ⟨0, rfl⟩
  | cons u us =>
    obtain ⟨k, hk⟩ := u.bytes_eq
    rw [byteStream, List.flatMap_cons, hk, List.append_assoc]
    exact untilStart_zeros k _

theorem trimZeros_append {b : UInt8} (hb : b ≠ 0) (l : Bytes) (n : ℕ) :
    trimZeros (l ++ [b] ++ List.replicate n 0) = l ++ [b] := by
  induction n with
  | zero => rw [List.replicate_zero, List.append_nil, trimZeros_of_ne hb]
  | succ n ih => rw [List.replicate_succ', ← List.append_assoc, trimZeros_zero, ih]

/-- **The first sequence parameter set of a byte stream.** -/
theorem spsUnit_byteStream (us : List Framed) : spsUnit (byteStream us) =
    (us.find? (·.nal.unitType = 7)).map fun u => escape 0 u.nal.rbsp := by
  induction us with
  | nil => rfl
  | cons u us ih =>
    obtain ⟨k, hk⟩ := u.bytes_eq
    obtain ⟨n, hn⟩ := untilStart_byteStream us
    have hstart : (0 :: 0 :: 1 :: (u.nal.bytes ++ byteStream us))[3]? = some u.nal.header := rfl
    have hsps : SpsAt (0 :: 0 :: 1 :: (u.nal.bytes ++ byteStream us)) ↔ u.nal.unitType = 7 := by
      rw [SpsAt, hstart, Option.map_some, Option.some.injEq]
      exact and_iff_right ⟨_, rfl⟩
    rw [byteStream, List.flatMap_cons, hk, List.append_assoc]
    change spsUnit (List.replicate k 0 ++ 0 :: 0 :: 1 :: (u.nal.bytes ++ byteStream us)) = _
    rw [spsUnit_zeros, spsUnit, List.find?_cons]
    by_cases htype : u.nal.unitType = 7
    · have hheader : u.nal.header ≠ 0 := fun h => by
        rw [Nal.unitType, h] at htype
        exact absurd htype (by decide)
      obtain ⟨m, b, hb, hm⟩ := u.nal.exists_concat 0
      have hclean : Clean (m ++ [b]) := hm ▸ clean_escape (z := 0) (Nat.zero_le 2)
      have hbytes : u.nal.bytes = u.nal.header :: (m ++ [b]) := by rw [Nal.bytes, if_neg hheader, hm]
      rw [if_pos (hsps.2 htype), decide_eq_true htype, hbytes]
      change some (trimZeros (untilStart (m ++ [b] ++ byteStream us))) = some (escape 0 u.nal.rbsp)
      rw [untilStart_append fun q => hclean.not_start hb, hn, trimZeros_append hb, hm]
    · rw [if_neg (mt hsps.1 htype), decide_eq_false htype, ← ih, ← u.nal.spsUnit_append (byteStream us)]
      have hsecond : ¬ SpsAt (0 :: 1 :: (u.nal.bytes ++ byteStream us)) := fun h => absurd h.start.second (by decide)
      have hthird : ¬ SpsAt (1 :: (u.nal.bytes ++ byteStream us)) := fun h => absurd h.start.head (by decide)
      rw [spsUnit, if_neg hsecond, spsUnit, if_neg hthird]

theorem two_le_byteStream (u : Framed) (us : List Framed) : 2 ≤ (byteStream (u :: us)).length := by
  obtain ⟨k, hk⟩ := u.bytes_eq
  rw [byteStream, List.flatMap_cons, hk]
  simp only [List.length_append, List.length_cons]
  omega

/-- **`find_sps` finds the first sequence parameter set of a byte stream, and `ebsp_to_rbsp` its RBSP.** -/
theorem sps_of_byteStream (build : Build) (u : Framed) (us : List Framed) :
    ∃ found, EsParser27.findSps build (byteStream (u :: us)) = .ok found ∧
      Option.Rel (fun ebsp v => EsParser27.ebspToRbsp build ebsp = .ok v.nal.rbsp) found
        ((u :: us).find? (·.nal.unitType = 7)) := by
  refine ⟨_, EsParser27.findSps_eq (two_le_byteStream u us), ?_⟩
  rw [spsUnit_byteStream]
  cases (u :: us).find? (·.nal.unitType = 7) with
  | none => exact .none
  | some v =>
    refine .some ?_
    rw [EsParser27.ebspToRbsp_eq (not_longRun_escape _), unescape_escape (Nat.zero_le 2)]

end MyMuxer
