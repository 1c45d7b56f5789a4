import MyMuxer.Psi.Section

/-!
# What a reassembler holds

* `SectionReassembler.Linked`: how the buffer and the expected length belong together between two pushes.
* `Known`: what is left of it while a push is adding bytes; `takeComplete_linked`, `push_linked`: it is restored, and
  a section has the length that it declares.
* **`pushAll_linked`**: the same after any pushes.
-/

namespace MyMuxer.Psi

open MyMuxer

namespace SectionReassembler

variable {r : SectionReassembler} {packet section_ : Bytes} {offset n : ℕ}

/-- The buffer is empty, or too short for a length, or shorter than the length that it declares. -/
inductive Linked (r : SectionReassembler) : Prop
  | empty (buffer : r.buffer = []) (expected : r.expectedLen = none)
  | short (buffer : r.buffer.length < 3) (expected : r.expectedLen = none)
  | waiting (expected : r.expectedLen = some (sectionLen r.buffer + 3)) (le : sectionLen r.buffer + 3 ≤ 4098)
      (header : 3 ≤ r.buffer.length) (buffer : r.buffer.length < sectionLen r.buffer + 3)

/-- A length that is expected is the one that the buffer declares. -/
def Known (r : SectionReassembler) : Prop :=
  ∀ n, r.expectedLen = some n → n = sectionLen r.buffer + 3 ∧ 3 ≤ r.buffer.length

/-- A section of the length that it declares. -/
def Declared (section_ : Bytes) : Prop := 3 ≤ section_.length ∧ section_.length = sectionLen section_ + 3

theorem sectionLen_append (h : 3 ≤ section_.length) (more : Bytes) : sectionLen (section_ ++ more) = sectionLen section_ := by
  rw [sectionLen, sectionLen, byte_append_left (by omega), byte_append_left (by omega)]

theorem sectionLen_take (h : 3 ≤ n) : sectionLen (section_.take n) = sectionLen section_ := by
  have hbyte (i : ℕ) (hi : i < n) : byte (section_.take n) i = byte section_ i := by
    rw [byte, byte, List.getD_eq_getElem?_getD, List.getD_eq_getElem?_getD, List.getElem?_take_of_lt hi]
  rw [sectionLen, sectionLen, hbyte 1 (by omega), hbyte 2 (by omega)]

theorem Linked.known (h : r.Linked) : r.Known := by
  intro n hn
  cases h with
  | empty _ he | short _ he =>
    rw [he] at hn
    cases hn
  | waiting he _ hheader _ =>
    rw [he] at hn
    exact ⟨(Option.some.inj hn).symm, hheader⟩

theorem Linked.length_le (h : r.Linked) : r.buffer.length ≤ 4097 := by
  cases h with
  | empty hb _ =>
    rw [hb]
    exact Nat.zero_le _
  | short hb _ => omega
  | waiting _ hle _ hb => omega

theorem clear_linked (r : SectionReassembler) : r.clear.Linked := .empty rfl rfl

/-- Bytes behind the buffer do not change what it declares. -/
theorem Known.append (h : r.Known) (more : Bytes) : Known { r with buffer := r.buffer ++ more } := by
  intro n hn
  obtain ⟨rfl, hle⟩ := h n hn
  refine ⟨?_, hle.trans ?_⟩
  · rw [sectionLen_append hle]
  · rw [List.length_append]
    exact Nat.le_add_right _ _

/-- The length is looked up where the buffer holds it; it is never too long. -/
theorem expect_eq (h : r.Known) : r.expect = some { r with
    expectedLen := if 3 ≤ r.buffer.length then some (sectionLen r.buffer + 3) else none } := by
  have hlt := sectionLen_lt r.buffer
  rw [expect]
  cases hexpected : r.expectedLen with
  | none =>
    by_cases hlong : 3 ≤ r.buffer.length
    · rw [if_pos ⟨rfl, hlong⟩, if_neg (by omega), if_pos hlong]
    · rw [if_neg fun hc => hlong hc.2, if_neg hlong, ← hexpected]
  | some n =>
    obtain ⟨rfl, hlong⟩ := h n hexpected
    rw [if_neg fun hc => (nomatch hc.1), if_pos hlong, ← hexpected]

theorem takeComplete_linked (h : r.Known) :
    r.takeComplete.2.Linked ∧ ∀ section_, r.takeComplete.1 = some section_ → Declared section_ := by
  have hlt := sectionLen_lt r.buffer
  rw [takeComplete, expect_eq h]
  by_cases hlong : 3 ≤ r.buffer.length
  · simp only [if_pos hlong]
    split_ifs with hshort
    · exact ⟨.waiting rfl (by dsimp only; omega) hlong hshort, fun _ he => (nomatch he)⟩
    · refine ⟨clear_linked _, fun _ he => ?_⟩
      cases he
      have hlen : (r.buffer.take (sectionLen r.buffer + 3)).length = sectionLen r.buffer + 3 := by
        rw [List.length_take]
        omega
      rw [Declared, hlen, sectionLen_take (Nat.le_add_left 3 _)]
      exact ⟨Nat.le_add_left 3 _, rfl⟩
  · simp only [if_neg hlong]
    exact ⟨.short (Nat.lt_of_not_le hlong) rfl, fun _ he => (nomatch he)⟩

theorem collect_linked (h : r.Linked) : (r.collect packet offset).2.Linked ∧
    ∀ section_, (r.collect packet offset).1 = some section_ → Declared section_ := by
  rw [collect]
  split_ifs
  · exact ⟨h, fun _ he => (nomatch he)⟩
  · exact takeComplete_linked (h.known.append _)

theorem pushStart_linked (h : r.Linked) : (r.pushStart packet offset).2.Linked ∧
    ∀ section_, (r.pushStart packet offset).1 = some section_ → Declared section_ := by
  rw [pushStart]
  dsimp only
  split_ifs with hend hpointer hold
  · exact ⟨clear_linked r, fun _ he => (nomatch he)⟩
  · exact ⟨clear_linked r, fun _ he => (nomatch he)⟩
  · -- the bytes in front of the pointer finish the old section, or all of it is dropped
    obtain ⟨-, hsection⟩ := takeComplete_linked (h.known.append ((packet.drop (offset + 1)).take (byte packet offset).toNat))
    split
    case h_1 section' r' he =>
      rw [he] at hsection
      exact ⟨clear_linked r', hsection⟩
    case h_2 r' _ => exact collect_linked (clear_linked r')
  · exact collect_linked (clear_linked r)

/-- **A push restores the link.** -/
theorem push_linked (h : r.Linked) (packet : Bytes) :
    (r.push packet).2.Linked ∧ ∀ section_, (r.push packet).1 = some section_ → Declared section_ := by
  have hnone : ∀ section_, (none : Option Bytes) = some section_ → Declared section_ := fun _ he => (nomatch he)
  rw [push]
  split
  case isTrue => exact ⟨clear_linked r, hnone⟩
  case isFalse =>
    split
    case isTrue => exact ⟨h, hnone⟩
    case isFalse =>
      cases payloadOffset packet with
      | none => exact ⟨h, hnone⟩
      | some offset =>
        dsimp only
        split
        case isTrue => exact pushStart_linked h
        case isFalse =>
          split
          case isTrue => exact ⟨h, hnone⟩
          case isFalse => exact collect_linked h

/-- Packets one after another: what each push returns, and the reassembler. -/
def pushAll (r : SectionReassembler) : List Bytes → List (Option Bytes) × SectionReassembler
  | [] => ([], r)
  | packet :: packets =>
    ((r.push packet).1 :: ((r.push packet).2.pushAll packets).1, ((r.push packet).2.pushAll packets).2)

/-- **Whatever is pushed, the buffer and the expected length belong together after it**, the buffer stays short, and
what is returned has the length that it declares. -/
theorem pushAll_linked (pid : UInt16) (packets : List Bytes) :
    ((new pid).pushAll packets).2.Linked ∧ ((new pid).pushAll packets).2.buffer.length ≤ 4097 ∧
      ∀ section_, some section_ ∈ ((new pid).pushAll packets).1 → Declared section_ := by
  have hrun : ∀ (packets : List Bytes) (r : SectionReassembler), r.Linked →
      (r.pushAll packets).2.Linked ∧ ∀ section_, some section_ ∈ (r.pushAll packets).1 → Declared section_ := by
    intro packets
    induction packets with
    | nil => exact fun r h => ⟨h, fun _ he => (nomatch he)⟩
    | cons packet packets ih =>
      intro r h
      obtain ⟨hr, hsection⟩ := push_linked h packet
      obtain ⟨hall, hsections⟩ := ih _ hr
      refine ⟨hall, fun section_ hmem => ?_⟩
      rcases List.mem_cons.1 hmem with he | hmem
      · exact hsection section_ he.symm
      · exact hsections section_ hmem
  obtain ⟨hlinked, hsections⟩ := hrun packets (new pid) (.empty rfl rfl)
  exact ⟨hlinked, hlinked.length_le, hsections⟩

end SectionReassembler

end MyMuxer.Psi
