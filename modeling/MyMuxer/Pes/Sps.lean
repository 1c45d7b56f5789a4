import MyMuxer.Pes.Es
import MyMuxer.Pes.Golomb
import MyMuxer.Pes.Nal

/-!
# Sequence parameter sets (`EsParser27::parse`)

* `Sps` and its parts: the syntax elements of clause 7.3.2.1.1, up to the timing information of the VUI, behind which
  nothing is read; `encode`: their bits; `Fits`: which ones have a code.
* `readSps` and its parts: what the source reads, in its order; `sizes`, `report`, `parse27`: what it makes of it.
-/

namespace MyMuxer

open Bits

/-! ## The syntax -/

/-- A flag, and behind it what it stands for if it is set. -/
def optional {α : Type} (enc : α → List Bool) : Option α → List Bool
  | none => [false]
  | some x => true :: enc x

/-- A flag that is there only sometimes. -/
def flagIf (present flag : Bool) : List Bool := if present then [flag] else []

/-- The deltas of a scaling list of so many entries, behind the last scale. A scale of zero ends them. -/
def ScalingDeltas : ℕ → ℤ → List ℤ → Prop
  | 0, _, deltas => deltas = []
  | _ + 1, _, [] => False
  | n + 1, lastScale, deltaScale :: deltas =>
    if (lastScale + deltaScale + 256) % 256 = 0 then deltas = []
    else ScalingDeltas n ((lastScale + deltaScale + 256) % 256) deltas

/-- What the profiles with more chroma formats than one have in addition. -/
structure High where
  chromaFormatIdc : ℕ
  separateColourPlane : Bool
  bitDepthLumaMinus8 : ℕ
  bitDepthChromaMinus8 : ℕ
  qpprimeYZeroTransformBypass : Bool
  scalingLists : Option (List (Option (List ℤ)))

namespace High

def listCount (chromaFormatIdc : ℕ) : ℕ := if chromaFormatIdc ≠ 3 then 8 else 12

def listSize (i : ℕ) : ℕ := if i < 6 then 16 else 64

def listsSigned (lists : List (Option (List ℤ))) : List ℤ := lists.flatMap fun list => list.elim [] fun l => l

/-- Its signed numbers. -/
def signed (high : High) : List ℤ := high.scalingLists.elim [] listsSigned

structure ListsFit (n i : ℕ) (lists : List (Option (List ℤ))) : Prop where
  length_eq : lists.length = n
  deltas : ∀ p ∈ lists.zipIdx i, ∀ list ∈ p.1, ScalingDeltas (listSize p.2) 8 list

structure Fits (build : Build) (high : High) : Prop where
  chroma : high.chromaFormatIdc + 1 < 2 ^ 32
  separate : high.chromaFormatIdc ≠ 3 → high.separateColourPlane = false
  luma : high.bitDepthLumaMinus8 + 1 < 2 ^ 32
  chromaDepth : high.bitDepthChromaMinus8 + 1 < 2 ^ 32
  lists : ∀ lists ∈ high.scalingLists, ListsFit (listCount high.chromaFormatIdc) 0 lists
  signed : ∀ x ∈ high.signed, SeFits build x

def encode (high : High) : List Bool :=
  golomb high.chromaFormatIdc ++ (flagIf (high.chromaFormatIdc == 3) high.separateColourPlane ++
    (golomb high.bitDepthLumaMinus8 ++ (golomb high.bitDepthChromaMinus8 ++ ([high.qpprimeYZeroTransformBypass] ++
      optional (fun lists => lists.flatMap (optional (fun list => list.flatMap seCode))) high.scalingLists))))

end High

inductive PicOrder where
  | lsb (log2MaxPicOrderCntLsbMinus4 : ℕ)
  | cycle (deltaPicOrderAlwaysZero : Bool) (offsetForNonRefPic offsetForTopToBottomField : ℤ)
      (offsetForRefFrame : List ℤ)
  | other (picOrderCntType : ℕ)

namespace PicOrder

def picOrderCntType : PicOrder → ℕ
  | lsb _ => 0
  | cycle .. => 1
  | other t => t

def signed : PicOrder → List ℤ
  | cycle _ nonRef topToBottom refFrame => nonRef :: topToBottom :: refFrame
  | _ => []

/-- The values that are not signed fit. -/
def UnsignedFit : PicOrder → Prop
  | lsb log2Max => log2Max + 1 < 2 ^ 32
  | cycle _ _ _ refFrame => refFrame.length + 1 < 2 ^ 32
  | other t => 2 ≤ t ∧ t + 1 < 2 ^ 32

structure Fits (build : Build) (order : PicOrder) : Prop where
  unsigned : order.UnsignedFit
  signed : ∀ x ∈ order.signed, SeFits build x

/-- Its bits behind its type. -/
def body : PicOrder → List Bool
  | lsb log2Max => golomb log2Max
  | cycle always nonRef topToBottom refFrame =>
    [always] ++ (seCode nonRef ++ (seCode topToBottom ++ (golomb refFrame.length ++ refFrame.flatMap seCode)))
  | other _ => []

end PicOrder

structure Frame where
  maxNumRefFrames : ℕ
  gapsInFrameNumValueAllowed : Bool
  picWidthInMbsMinus1 : ℕ
  picHeightInMapUnitsMinus1 : ℕ
  frameMbsOnly : Bool
  mbAdaptiveFrameField : Bool
  direct8x8Inference : Bool

namespace Frame

structure Fits (frame : Frame) : Prop where
  refFrames : frame.maxNumRefFrames + 1 < 2 ^ 32
  width : frame.picWidthInMbsMinus1 + 1 < 2 ^ 32
  height : frame.picHeightInMapUnitsMinus1 + 1 < 2 ^ 32
  adaptive : frame.frameMbsOnly = true → frame.mbAdaptiveFrameField = false

def encode (frame : Frame) : List Bool :=
  golomb frame.maxNumRefFrames ++ ([frame.gapsInFrameNumValueAllowed] ++ (golomb frame.picWidthInMbsMinus1 ++
    (golomb frame.picHeightInMapUnitsMinus1 ++ ([frame.frameMbsOnly] ++
      (flagIf (!frame.frameMbsOnly) frame.mbAdaptiveFrameField ++ [frame.direct8x8Inference])))))

end Frame

structure Cropping where
  left : ℕ
  right : ℕ
  top : ℕ
  bottom : ℕ

namespace Cropping

structure Fits (crop : Cropping) : Prop where
  left : crop.left + 1 < 2 ^ 32
  right : crop.right + 1 < 2 ^ 32
  top : crop.top + 1 < 2 ^ 32
  bottom : crop.bottom + 1 < 2 ^ 32

def encode (crop : Cropping) : List Bool :=
  golomb crop.left ++ (golomb crop.right ++ (golomb crop.top ++ golomb crop.bottom))

end Cropping

inductive AspectRatio where
  | idc (aspectRatioIdc : ℕ)
  | extended (sarWidth sarHeight : ℕ)

namespace AspectRatio

def aspectRatioIdc : AspectRatio → ℕ
  | idc n => n
  | extended .. => 255

def Fits : AspectRatio → Prop
  | idc n => n < 2 ^ 8 ∧ n ≠ 255
  | extended width height => width < 2 ^ 16 ∧ height < 2 ^ 16

/-- Its bits behind `aspect_ratio_idc`. -/
def body : AspectRatio → List Bool
  | idc _ => []
  | extended width height => word 16 width ++ word 16 height

end AspectRatio

structure Colour where
  colourPrimaries : ℕ
  transferCharacteristics : ℕ
  matrixCoefficients : ℕ

structure Colour.Fits (colour : Colour) : Prop where
  primaries : colour.colourPrimaries < 2 ^ 8
  transfer : colour.transferCharacteristics < 2 ^ 8
  matrix : colour.matrixCoefficients < 2 ^ 8

def Colour.encode (colour : Colour) : List Bool :=
  word 8 colour.colourPrimaries ++ (word 8 colour.transferCharacteristics ++ word 8 colour.matrixCoefficients)

structure Signal where
  videoFormat : ℕ
  videoFullRange : Bool
  colourDescription : Option Colour

structure Signal.Fits (signal : Signal) : Prop where
  format : signal.videoFormat < 2 ^ 3
  colour : ∀ colour ∈ signal.colourDescription, colour.Fits

def Signal.encode (signal : Signal) : List Bool :=
  word 3 signal.videoFormat ++ ([signal.videoFullRange] ++ optional Colour.encode signal.colourDescription)

structure ChromaLoc where
  chromaSampleLocTypeTopField : ℕ
  chromaSampleLocTypeBottomField : ℕ

structure ChromaLoc.Fits (loc : ChromaLoc) : Prop where
  top : loc.chromaSampleLocTypeTopField + 1 < 2 ^ 32
  bottom : loc.chromaSampleLocTypeBottomField + 1 < 2 ^ 32

def ChromaLoc.encode (loc : ChromaLoc) : List Bool :=
  golomb loc.chromaSampleLocTypeTopField ++ golomb loc.chromaSampleLocTypeBottomField

structure Timing where
  numUnitsInTick : ℕ
  timeScale : ℕ
  fixedFrameRate : Bool

structure Timing.Fits (timing : Timing) : Prop where
  units : timing.numUnitsInTick < 2 ^ 32
  scale : timing.timeScale < 2 ^ 32

def Timing.encode (timing : Timing) : List Bool :=
  word 32 timing.numUnitsInTick ++ (word 32 timing.timeScale ++ [timing.fixedFrameRate])

structure Vui where
  aspectRatio : Option AspectRatio
  overscanAppropriate : Option Bool
  videoSignal : Option Signal
  chromaLoc : Option ChromaLoc
  timing : Option Timing

namespace Vui

structure Fits (vui : Vui) : Prop where
  aspect : ∀ ratio ∈ vui.aspectRatio, ratio.Fits
  signal : ∀ signal ∈ vui.videoSignal, signal.Fits
  loc : ∀ loc ∈ vui.chromaLoc, loc.Fits
  timing : ∀ timing ∈ vui.timing, timing.Fits

def encode (vui : Vui) : List Bool :=
  optional (fun ratio => word 8 ratio.aspectRatioIdc ++ ratio.body) vui.aspectRatio ++
    (optional (fun b => [b]) vui.overscanAppropriate ++ (optional Signal.encode vui.videoSignal ++
      (optional ChromaLoc.encode vui.chromaLoc ++ optional Timing.encode vui.timing)))

end Vui

structure Sps where
  profileIdc : ℕ
  constraintFlags : ℕ
  levelIdc : ℕ
  seqParameterSetId : ℕ
  high : Option High
  log2MaxFrameNumMinus4 : ℕ
  picOrder : PicOrder
  frame : Frame
  cropping : Option Cropping
  vui : Option Vui

namespace Sps

def highProfiles : List ℕ := [100, 110, 122, 244, 44]

/-- `2 - frame_mbs_only_flag`. -/
def fieldFactor (sps : Sps) : ℕ := 2 - sps.frame.frameMbsOnly.toNat

def signed (sps : Sps) : List ℤ := sps.high.elim [] High.signed ++ sps.picOrder.signed

structure Fits (build : Build) (sps : Sps) : Prop where
  profile : sps.profileIdc < 2 ^ 8
  constraints : sps.constraintFlags < 2 ^ 8
  level : sps.levelIdc < 2 ^ 8
  id : sps.seqParameterSetId + 1 < 2 ^ 32
  isHigh : sps.high.isSome = decide (sps.profileIdc ∈ highProfiles)
  high : ∀ high ∈ sps.high, high.Fits build
  frameNum : sps.log2MaxFrameNumMinus4 + 1 < 2 ^ 32
  picOrder : sps.picOrder.Fits build
  frame : sps.frame.Fits
  cropping : ∀ crop ∈ sps.cropping, crop.Fits
  vui : ∀ vui ∈ sps.vui, vui.Fits

/-- **The bits of a sequence parameter set.** -/
def encode (sps : Sps) : List Bool :=
  word 8 sps.profileIdc ++ (word 8 sps.constraintFlags ++ (word 8 sps.levelIdc ++ (golomb sps.seqParameterSetId ++
    (sps.high.elim [] High.encode ++ (golomb sps.log2MaxFrameNumMinus4 ++
      ((golomb sps.picOrder.picOrderCntType ++ sps.picOrder.body) ++ (sps.frame.encode ++
        (optional Cropping.encode sps.cropping ++ optional Vui.encode sps.vui))))))))

end Sps

/-! ## What the source reads -/

namespace EsParser27

variable (build : Build)

def readIf {α : Type} (present : Bool) (m : Read α) : Read (Option α) :=
  if present then do return some (← m) else return none

def readOptional {α : Type} (m : Read α) : Read (Option α) := do readIf (← readFlag build) m

def readFlagIf (present : Bool) : Read Bool := if present then readFlag build else pure false

/-- `(last_scale + delta_scale + 256) % 256`. -/
def scaleAfter (lastScale deltaScale : ℤ) : Ck ℤ := do
  return (← i32 build ((← i32 build (lastScale + deltaScale)) + 256)).tmod 256

/-- The inner loop over a scaling list, so many times. -/
def readScalingList : ℕ → ℤ → ℤ → Read (List ℤ)
  | 0, _, _ => return []
  | n + 1, lastScale, nextScale => do
    if nextScale ≠ 0 then
      let deltaScale ← readSe build
      let nextScale ← scaleAfter build lastScale deltaScale
      let lastScale := if nextScale = 0 then lastScale else nextScale
      return deltaScale :: (← readScalingList n lastScale nextScale)
    else readScalingList n lastScale nextScale

/-- The loop over the scaling lists, from the `i`-th on. -/
def readScalingLists : ℕ → ℕ → Read (List (Option (List ℤ)))
  | 0, _ => return []
  | n + 1, i => do
    let list ← readOptional build (readScalingList build (High.listSize i) 8 8)
    let lists ← readScalingLists n (i + 1)
    return list :: lists

def readHigh : Read High := do
  let chromaFormatIdc ← readUe build
  let separateColourPlane ← readFlagIf build (chromaFormatIdc == 3)
  let bitDepthLumaMinus8 ← readUe build
  let bitDepthChromaMinus8 ← readUe build
  let qpprimeYZeroTransformBypass ← readFlag build
  let scalingLists ← readOptional build (readScalingLists build (High.listCount chromaFormatIdc) 0)
  return { chromaFormatIdc, separateColourPlane, bitDepthLumaMinus8, bitDepthChromaMinus8,
           qpprimeYZeroTransformBypass, scalingLists }

/-- `pic_order_cnt_type == 1`. -/
def readCycle : Read PicOrder := do
  let deltaPicOrderAlwaysZero ← readFlag build
  let offsetForNonRefPic ← readSe build
  let offsetForTopToBottomField ← readSe build
  let numRefFramesInPicOrderCntCycle ← readUe build
  let offsetForRefFrame ← Grammar.times (readSe build) numRefFramesInPicOrderCntCycle
  return .cycle deltaPicOrderAlwaysZero offsetForNonRefPic offsetForTopToBottomField offsetForRefFrame

def readPicOrderBody (picOrderCntType : ℕ) : Read PicOrder :=
  if picOrderCntType = 0 then do return .lsb (← readUe build)
  else if picOrderCntType = 1 then readCycle build
  else return .other picOrderCntType

def readPicOrder : Read PicOrder := do readPicOrderBody build (← readUe build)

def readFrame : Read Frame := do
  let maxNumRefFrames ← readUe build
  let gapsInFrameNumValueAllowed ← readFlag build
  let picWidthInMbsMinus1 ← readUe build
  let picHeightInMapUnitsMinus1 ← readUe build
  let frameMbsOnly ← readFlag build
  let mbAdaptiveFrameField ← readFlagIf build !frameMbsOnly
  let direct8x8Inference ← readFlag build
  return { maxNumRefFrames, gapsInFrameNumValueAllowed, picWidthInMbsMinus1, picHeightInMapUnitsMinus1, frameMbsOnly,
           mbAdaptiveFrameField, direct8x8Inference }

def readCropping : Read Cropping := do
  let left ← readUe build
  let right ← readUe build
  let top ← readUe build
  let bottom ← readUe build
  return { left, right, top, bottom }

def readSar (aspectRatioIdc : ℕ) : Read AspectRatio :=
  if aspectRatioIdc = 255 then do
    let sarWidth ← readBits build 16
    let sarHeight ← readBits build 16
    return .extended sarWidth sarHeight
  else return .idc aspectRatioIdc

def readAspectRatio : Read AspectRatio := do readSar build (← readBits build 8)

def readColour : Read Colour := do
  let colourPrimaries ← readBits build 8
  let transferCharacteristics ← readBits build 8
  let matrixCoefficients ← readBits build 8
  return { colourPrimaries, transferCharacteristics, matrixCoefficients }

def readSignal : Read Signal := do
  let videoFormat ← readBits build 3
  let videoFullRange ← readFlag build
  let colourDescription ← readOptional build (readColour build)
  return { videoFormat, videoFullRange, colourDescription }

def readChromaLoc : Read ChromaLoc := do
  let chromaSampleLocTypeTopField ← readUe build
  let chromaSampleLocTypeBottomField ← readUe build
  return { chromaSampleLocTypeTopField, chromaSampleLocTypeBottomField }

def readTiming : Read Timing := do
  let numUnitsInTick ← readBits build 32
  let timeScale ← readBits build 32
  let fixedFrameRate ← readFlag build
  return { numUnitsInTick, timeScale, fixedFrameRate }

def readVui : Read Vui := do
  let aspectRatio ← readOptional build (readAspectRatio build)
  let overscanAppropriate ← readOptional build (readFlag build)
  let videoSignal ← readOptional build (readSignal build)
  let chromaLoc ← readOptional build (readChromaLoc build)
  let timing ← readOptional build (readTiming build)
  return { aspectRatio, overscanAppropriate, videoSignal, chromaLoc, timing }

def readSps : Read Sps := do
  let profileIdc ← readBits build 8
  let constraintFlags ← readBits build 8
  let levelIdc ← readBits build 8
  let seqParameterSetId ← readUe build
  let high ← readIf (profileIdc ∈ Sps.highProfiles) (readHigh build)
  let log2MaxFrameNumMinus4 ← readUe build
  let picOrder ← readPicOrder build
  let frame ← readFrame build
  let cropping ← readOptional build (readCropping build)
  let vui ← readOptional build (readVui build)
  return { profileIdc, constraintFlags, levelIdc, seqParameterSetId, high, log2MaxFrameNumMinus4, picOrder, frame,
           cropping, vui }

/-! ## What it makes of it -/

/-- `(sub_width_c, sub_height_c)` and `chroma_array_type`. -/
def chroma (sps : Sps) : (ℕ × ℕ) × ℕ :=
  match sps.high with
  | none => ((2, 2), 1)
  | some high =>
    let sub := match high.chromaFormatIdc with
      | 0 => (0, 0)
      | 1 => (2, 2)
      | 2 => (2, 1)
      | 3 => (1, 1)
      | _ => (0, 0)
    if high.chromaFormatIdc = 3 then if high.separateColourPlane then ((0, 0), 1) else (sub, 0) else (sub, 1)

/-- `(crop_unit_x, crop_unit_y)`. -/
def cropUnits (sps : Sps) : ℕ × ℕ :=
  let ((subWidthC, subHeightC), chromaArrayType) := chroma sps
  if chromaArrayType = 0 then (1, sps.fieldFactor) else (subWidthC, subHeightC * sps.fieldFactor)

def cropRight (sps : Sps) : ℕ := sps.cropping.elim 0 Cropping.right

def cropBottom (sps : Sps) : ℕ := sps.cropping.elim 0 Cropping.bottom

/-- `a * b` on `u32`. -/
def mul32 (a b : ℕ) : Ck ℕ := unsigned build 32 (a * b : ℕ)

def width (sps : Sps) : Ck ℕ := do
  let mbs ← unsigned build 32 (sps.frame.picWidthInMbsMinus1 + 1 : ℕ)
  let full ← mul32 build mbs 16
  let crop ← mul32 build (cropUnits sps).1 (cropRight sps)
  unsigned build 32 (full - crop)

def height (sps : Sps) : Ck ℕ := do
  let units ← unsigned build 32 (sps.frame.picHeightInMapUnitsMinus1 + 1 : ℕ)
  let mbs ← mul32 build sps.fieldFactor units
  let full ← mul32 build mbs 16
  let crop ← mul32 build (cropUnits sps).2 (cropBottom sps)
  unsigned build 32 (full - crop)

/-- `(time_scale as f64 / (2.0 * num_units_in_tick as f64)).round()`. The quotient of two such numbers is a half or
further from any half than a double is off, so that the nearest integer is that of the exact quotient. -/
def frameRate (timing : Timing) : Option ℕ :=
  if timing.numUnitsInTick ≠ 0 ∧ timing.timeScale ≠ 0 then
    some ((timing.timeScale + timing.numUnitsInTick) / (2 * timing.numUnitsInTick))
  else none

def es27 (sps : Sps) (width height : ℕ) : Es27 where
  profileIdc := some sps.profileIdc
  levelIdc := some sps.levelIdc
  seqParameterSetId := some sps.seqParameterSetId
  horizontalSize := if width > 0 then some width else none
  verticalSize := if height > 0 then some height else none
  frameRate := sps.vui.bind fun vui => vui.timing.bind frameRate

def report (sps : Sps) : Ck Es27 := do
  let width ← width build sps
  let height ← height build sps
  return es27 sps width height

def parse (data : Bytes) : Ck (Option Es) := do
  match ← findSps build data with
  | none => return none
  | some ebsp =>
    let rbsp ← ebspToRbsp build ebsp
    if rbsp.length < 3 then return some (.es27 {})
    else
      let (sps, _) ← readSps build (BitReader.new rbsp)
      return some (.es27 (← report build sps))

end EsParser27

end MyMuxer
