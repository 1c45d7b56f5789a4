import MyMuxer.Lib.Errors
import MyMuxer.Pes.Sps

/-!
# How the parser of H.264 streams fails

* `InRange`: not a panic of an index or a slice.
* `readSps_inRange`, `report_inRange`: reading a sequence parameter set fails in no other way.
* **`EsParser27.parse_inRange`**: so does `parse`, if there are two bytes.
-/

namespace MyMuxer

open Errors

/-- Not a panic of an index or a slice. -/
def InRange (e : Fault) : Prop := e ≠ .panic .indexOutOfRange ∧ e ≠ .panic .sliceOutOfRange

variable {build : Build} {w n : ℕ} {x : ℤ}

theorem raises_overflows {α : Type} (a : α) : Raises InRange (overflows a build) := by
  cases build with
  | debug => exact raises_error ⟨nofun, nofun⟩
  | release => exact raises_ok a

theorem raises_unsigned : Raises InRange (unsigned build w x) := (raises_ok _).ite (raises_overflows _)

theorem raises_i32 : Raises InRange (i32 build x) := (raises_ok _).ite (raises_overflows _)

theorem raises_shiftBy : Raises InRange (shiftBy build w n) := (raises_ok _).ite (raises_overflows _)

/-! ## The bit reader -/

theorem readBits_inRange : RunRaises InRange (readBits build n) := fun _ =>
  .bind raises_unsigned fun _ => .bind raises_shiftBy fun _ => .bind raises_shiftBy fun _ =>
    .bind raises_unsigned fun _ => .bind raises_shiftBy fun _ => raises_ok _

theorem readBit_inRange : RunRaises InRange (readBit build) := .bind readBits_inRange fun _ => .pure _

theorem leadingZeros_inRange (fuel : ℕ) (zeros : ℤ) : RunRaises InRange (leadingZeros build fuel zeros) := by
  induction fuel generalizing zeros with
  | zero => exact fun s => raises_error ⟨nofun, nofun⟩
  | succ fuel ih => exact .bind readBit_inRange fun b => .ite (.bind (.lift raises_i32) fun _ => ih _) (.pure _)

theorem ueValue_inRange (zeros : ℤ) : RunRaises InRange (ueValue build zeros) :=
  .ite (.pure _) <| .bind readBits_inRange fun _ => .bind (.lift raises_shiftBy) fun _ =>
    .bind (.lift raises_unsigned) fun _ => .lift raises_unsigned

theorem readUe_inRange : RunRaises InRange (readUe build) :=
  .bind (fun s => leadingZeros_inRange _ 0 s) ueValue_inRange

theorem ofCodeNum_inRange : Raises InRange (ofCodeNum build x) :=
  .ite raises_i32 (.bind raises_i32 fun _ => raises_ok _)

theorem readSe_inRange : RunRaises InRange (readSe build) := .bind readUe_inRange fun _ => .lift ofCodeNum_inRange

theorem readFlag_inRange : RunRaises InRange (readFlag build) := .bind readBit_inRange fun _ => .pure _

/-! ## A sequence parameter set -/

namespace EsParser27

variable {α : Type} {m : Read α} {sps : Sps}

theorem readIf_inRange (h : RunRaises InRange m) (present : Bool) : RunRaises InRange (readIf present m) :=
  .ite (h.bind fun _ => .pure _) (.pure _)

theorem readOptional_inRange (h : RunRaises InRange m) : RunRaises InRange (readOptional build m) :=
  .bind readFlag_inRange (readIf_inRange h)

theorem readFlagIf_inRange (present : Bool) : RunRaises InRange (readFlagIf build present) :=
  .ite readFlag_inRange (.pure _)

theorem times_inRange (h : RunRaises InRange m) (n : ℕ) : RunRaises InRange (Grammar.times m n) := by
  induction n with
  | zero => exact .pure _
  | succ n ih => exact h.bind fun _ => ih.bind fun _ => .pure _

theorem scaleAfter_inRange (lastScale deltaScale : ℤ) : Raises InRange (scaleAfter build lastScale deltaScale) :=
  .bind raises_i32 fun _ => .bind raises_i32 fun _ => raises_ok _

theorem readScalingList_inRange (n : ℕ) (lastScale nextScale : ℤ) :
    RunRaises InRange (readScalingList build n lastScale nextScale) := by
  induction n generalizing lastScale nextScale with
  | zero => exact .pure _
  | succ n ih =>
    exact .ite (.bind readSe_inRange fun _ => .bind (.lift (scaleAfter_inRange _ _)) fun _ =>
      (ih _ _).bind fun _ => .pure _) (ih _ _)

theorem readScalingLists_inRange (n i : ℕ) : RunRaises InRange (readScalingLists build n i) := by
  induction n generalizing i with
  | zero => exact .pure _
  | succ n ih =>
    exact (readOptional_inRange (readScalingList_inRange _ _ _)).bind fun _ => (ih _).bind fun _ => .pure _

theorem readHigh_inRange : RunRaises InRange (readHigh build) :=
  .bind readUe_inRange fun _ => (readFlagIf_inRange _).bind fun _ => .bind readUe_inRange fun _ =>
    .bind readUe_inRange fun _ => .bind readFlag_inRange fun _ =>
      (readOptional_inRange (readScalingLists_inRange _ _)).bind fun _ => .pure _

theorem readCycle_inRange : RunRaises InRange (readCycle build) :=
  .bind readFlag_inRange fun _ => .bind readSe_inRange fun _ => .bind readSe_inRange fun _ =>
    .bind readUe_inRange fun _ => (times_inRange readSe_inRange _).bind fun _ => .pure _

theorem readPicOrder_inRange : RunRaises InRange (readPicOrder build) :=
  .bind readUe_inRange fun _ => .ite (.bind readUe_inRange fun _ => .pure _) (.ite readCycle_inRange (.pure _))

theorem readFrame_inRange : RunRaises InRange (readFrame build) :=
  .bind readUe_inRange fun _ => .bind readFlag_inRange fun _ => .bind readUe_inRange fun _ =>
    .bind readUe_inRange fun _ => .bind readFlag_inRange fun _ => (readFlagIf_inRange _).bind fun _ =>
      .bind readFlag_inRange fun _ => .pure _

theorem readCropping_inRange : RunRaises InRange (readCropping build) :=
  .bind readUe_inRange fun _ => .bind readUe_inRange fun _ => .bind readUe_inRange fun _ =>
    .bind readUe_inRange fun _ => .pure _

theorem readAspectRatio_inRange : RunRaises InRange (readAspectRatio build) :=
  .bind readBits_inRange fun _ =>
    .ite (.bind readBits_inRange fun _ => .bind readBits_inRange fun _ => .pure _) (.pure _)

theorem readColour_inRange : RunRaises InRange (readColour build) :=
  .bind readBits_inRange fun _ => .bind readBits_inRange fun _ => .bind readBits_inRange fun _ => .pure _

theorem readSignal_inRange : RunRaises InRange (readSignal build) :=
  .bind readBits_inRange fun _ => .bind readFlag_inRange fun _ =>
    (readOptional_inRange readColour_inRange).bind fun _ => .pure _

theorem readChromaLoc_inRange : RunRaises InRange (readChromaLoc build) :=
  .bind readUe_inRange fun _ => .bind readUe_inRange fun _ => .pure _

theorem readTiming_inRange : RunRaises InRange (readTiming build) :=
  .bind readBits_inRange fun _ => .bind readBits_inRange fun _ => .bind readFlag_inRange fun _ => .pure _

theorem readVui_inRange : RunRaises InRange (readVui build) :=
  (readOptional_inRange readAspectRatio_inRange).bind fun _ =>
    (readOptional_inRange readFlag_inRange).bind fun _ => (readOptional_inRange readSignal_inRange).bind fun _ =>
      (readOptional_inRange readChromaLoc_inRange).bind fun _ =>
        (readOptional_inRange readTiming_inRange).bind fun _ => .pure _

theorem readSps_inRange : RunRaises InRange (readSps build) :=
  .bind readBits_inRange fun _ => .bind readBits_inRange fun _ => .bind readBits_inRange fun _ =>
    .bind readUe_inRange fun _ => (readIf_inRange readHigh_inRange _).bind fun _ => .bind readUe_inRange fun _ =>
      .bind readPicOrder_inRange fun _ => .bind readFrame_inRange fun _ =>
        (readOptional_inRange readCropping_inRange).bind fun _ =>
          (readOptional_inRange readVui_inRange).bind fun _ => .pure _

theorem report_inRange : Raises InRange (report build sps) :=
  have width_inRange : Raises InRange (width build sps) :=
    .bind raises_unsigned fun _ => .bind raises_unsigned fun _ => .bind raises_unsigned fun _ => raises_unsigned
  have height_inRange : Raises InRange (height build sps) :=
    .bind raises_unsigned fun _ => .bind raises_unsigned fun _ => .bind raises_unsigned fun _ =>
      .bind raises_unsigned fun _ => raises_unsigned
  .bind width_inRange fun _ => .bind height_inRange fun _ => raises_ok _

theorem ebspLoop_inRange (zeroCount : ℤ) (data : Bytes) : Raises InRange (ebspLoop build zeroCount data) := by
  induction data generalizing zeroCount with
  | nil => exact raises_ok _
  | cons b data ih =>
    rw [ebspLoop]
    have hgo (zeroCount : ℤ) : Raises InRange (ebspLoop build zeroCount data >>= fun rest => .ok (b :: rest)) :=
      (ih zeroCount).bind fun _ => raises_ok _
    exact (ih 0).ite (Raises.ite (.bind raises_i32 hgo) (hgo 0))

/-- **`parse` reads within its data**, if these are two bytes at least. -/
theorem parse_inRange {data : Bytes} (h : 2 ≤ data.length) : Raises InRange (parse build data) := by
  rw [parse, findSps_eq h, ck_bind]
  cases spsUnit data with
  | none => exact raises_ok _
  | some ebsp =>
    refine (ebspLoop_inRange 0 ebsp).bind fun rbsp => Raises.ite (raises_ok _) ?_
    exact (readSps_inRange _).bind fun _ => .bind report_inRange fun _ => raises_ok _

end EsParser27

end MyMuxer
