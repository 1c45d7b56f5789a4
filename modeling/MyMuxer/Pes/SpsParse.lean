import MyMuxer.Pes.SpsReads

/-!
# What is found out about an H.264 stream

* `Sps.croppedWidth`, `Sps.croppedHeight`: the size of the picture, from the offsets on all four sides.
* `Carries`: a byte stream whose first sequence parameter set is a given one.
* `parse_of_encode`, `encode_of_parse`: what `parse` makes of the bits of a set, and that a debug build has none but
  such bits.
* **`sps_reported`**: when a set is reported right.
* **`parse_returns`**: the byte strings for which `parse` returns.
-/

namespace MyMuxer

open Bits Grammar BitReader

/-! ## The size of the picture -/

namespace Sps

variable (sps : Sps)

def chromaFormatIdc : ℕ := sps.high.elim 1 High.chromaFormatIdc

def chromaArrayType : ℕ := if sps.high.elim false High.separateColourPlane then 0 else sps.chromaFormatIdc

/-- `CropUnitX`, with `SubWidthC` of Table 6-1. -/
def cropUnitX : ℕ :=
  match sps.chromaArrayType with
  | 1 => 2
  | 2 => 2
  | _ => 1

/-- `CropUnitY`, with `SubHeightC` of Table 6-1. -/
def cropUnitY : ℕ :=
  match sps.chromaArrayType with
  | 1 => 2 * sps.fieldFactor
  | _ => sps.fieldFactor

def crop : Cropping := sps.cropping.getD ⟨0, 0, 0, 0⟩

def pictureWidth : ℕ := 16 * (sps.frame.picWidthInMbsMinus1 + 1)

def pictureHeight : ℕ := 16 * (sps.fieldFactor * (sps.frame.picHeightInMapUnitsMinus1 + 1))

def croppedWidth : ℕ := sps.pictureWidth - sps.cropUnitX * (sps.crop.left + sps.crop.right)

def croppedHeight : ℕ := sps.pictureHeight - sps.cropUnitY * (sps.crop.top + sps.crop.bottom)

def knownProfiles : List ℕ := [66, 77, 88, 100, 110, 122, 244, 44]

/-- A set of a known profile, whose values fit 32 bits and whose dimensions are positive. -/
structure Conforms : Prop where
  profile : sps.profileIdc ∈ knownProfiles
  chroma : sps.chromaFormatIdc ≤ 3
  fits : sps.Fits .release
  width_lt : sps.pictureWidth < 2 ^ 32
  height_lt : sps.pictureHeight < 2 ^ 32
  width_pos : 0 < sps.croppedWidth
  height_pos : 0 < sps.croppedHeight

end Sps

/-- The first sequence parameter set of a byte stream is this one. -/
def Carries (data : Bytes) (sps : Sps) : Prop :=
  ∃ (u : Framed) (us : List Framed) (v : Framed), data = byteStream (u :: us) ∧
    (u :: us).find? (·.nal.unitType = 7) = some v ∧ sps.encode <+: ofBytes v.nal.rbsp

namespace EsParser27

variable {build : Build} {data ebsp : Bytes} {sps : Sps}

/-- The set is reported with the values that it has. -/
def Reports (build : Build) (data : Bytes) (sps : Sps) : Prop :=
  ∃ es, parse build data = .ok (some (.es27 es)) ∧ es.profileIdc = some sps.profileIdc ∧
    es.levelIdc = some sps.levelIdc ∧ es.seqParameterSetId = some sps.seqParameterSetId ∧
    es.horizontalSize = some sps.croppedWidth ∧ es.verticalSize = some sps.croppedHeight

/-! ## Signed numbers -/

theorem seFits_debug {x : ℤ} : SeFits .debug x ↔ SeFits .release x ∧ x ≠ 2 ^ 30 :=
  ⟨fun h => ⟨⟨h.1, fun hb => (nomatch hb)⟩, h.2 rfl⟩, fun h => ⟨h.1.1, fun _ => h.2⟩⟩

theorem forall_seFits {l : List ℤ} :
    (∀ x ∈ l, SeFits .debug x) ↔ (∀ x ∈ l, SeFits .release x) ∧ 2 ^ 30 ∉ l := by
  refine ⟨fun h => ⟨fun x hx => (seFits_debug.1 (h x hx)).1, fun hmem => (seFits_debug.1 (h _ hmem)).2 rfl⟩,
    fun h x hx => seFits_debug.2 ⟨h.1 x hx, fun he => h.2 (he ▸ hx)⟩⟩

theorem seFits_of_fits (h : sps.Fits build) : ∀ x ∈ sps.signed, SeFits build x := by
  rw [Sps.signed, List.forall_mem_append, forall_mem_elim]
  exact ⟨fun high hhigh => (h.high high hhigh).signed, h.picOrder.signed⟩

/-- The builds differ in the signed numbers only. -/
theorem fits_of_seFits {build' : Build} (h : sps.Fits build) (hsigned : ∀ x ∈ sps.signed, SeFits build' x) :
    sps.Fits build' := by
  rw [Sps.signed, List.forall_mem_append, forall_mem_elim] at hsigned
  refine ⟨h.profile, h.constraints, h.level, h.id, h.isHigh, fun high hhigh => ?_, h.frameNum,
    ⟨h.picOrder.unsigned, hsigned.2⟩, h.frame, h.cropping, h.vui⟩
  have hh := h.high high hhigh
  exact ⟨hh.chroma, hh.separate, hh.luma, hh.chromaDepth, hh.lists, hsigned.1 high hhigh⟩

/-- A debug build takes all but one of the numbers that a release build takes. -/
theorem fits_debug : sps.Fits .debug ↔ sps.Fits .release ∧ 2 ^ 30 ∉ sps.signed := by
  constructor
  · intro h
    obtain ⟨hrelease, hnone⟩ := forall_seFits.1 (seFits_of_fits h)
    exact ⟨fits_of_seFits h hrelease, hnone⟩
  · rintro ⟨h, hnone⟩
    exact fits_of_seFits h (forall_seFits.2 ⟨seFits_of_fits h, hnone⟩)

theorem high_signed_kept (high : High) : high.kept.signed = high.signed.map wrapped := by
  obtain ⟨chroma, separate, luma, chromaDepth, bypass, _ | lists⟩ := high
  · rfl
  · change (lists.map _).flatMap _ = (lists.flatMap _).map _
    rw [List.flatMap_map, List.map_flatMap]
    refine List.flatMap_congr fun list _ => ?_
    cases list with
    | none => rfl
    | some l => rfl

theorem signed_kept : sps.kept.signed = sps.signed.map wrapped := by
  have horder : sps.picOrder.kept.signed = sps.picOrder.signed.map wrapped := by
    cases sps.picOrder with
    | lsb log2Max => rfl
    | cycle always nonRef topToBottom refFrame => rfl
    | other t => rfl
  have hhigh : (sps.high.map High.kept).elim [] High.signed = (sps.high.elim [] High.signed).map wrapped := by
    cases sps.high with
    | none => rfl
    | some high => exact high_signed_kept high
  rw [Sps.signed, Sps.kept, hhigh, horder, ← List.map_append]
  rfl

theorem report_kept : report build sps.kept = report build sps := by
  obtain ⟨profile, constraints, level, id, _ | high, frameNum, order, frame, crop, vui⟩ := sps
  · rfl
  · rfl

/-! ## Parsing -/

theorem length_encode (sps : Sps) : 24 ≤ sps.encode.length := by
  simp only [Sps.encode, List.length_append, length_word]
  omega

theorem three_le_of_encode {rbsp : Bytes} (hbits : sps.encode <+: ofBytes rbsp) : ¬ rbsp.length < 3 := by
  have hle := hbits.length_le
  rw [length_ofBytes] at hle
  have := length_encode sps
  omega

/-- What is made of the first sequence parameter set. -/
theorem parse_of_spsUnit (hdata : 2 ≤ data.length) (hsps : spsUnit data = some ebsp) (hrun : ¬ LongRun ebsp) :
    parse build data = if (unescape 0 ebsp).length < 3 then .ok (some (.es27 {}))
      else readSps build (new (unescape 0 ebsp)) >>= fun r => report build r.1 >>= fun es => .ok (some (.es27 es)) := by
  rw [parse, findSps_eq hdata, ck_bind, hsps]
  dsimp only
  rw [ebspToRbsp_eq hrun, ck_bind]
  rfl

/-- **The bits of a set are parsed**, whatever follows them. -/
theorem parse_of_encode (hdata : 2 ≤ data.length) (hsps : spsUnit data = some ebsp) (hrun : ¬ LongRun ebsp)
    (hfits : sps.Fits build) (hbits : sps.encode <+: ofBytes (unescape 0 ebsp)) :
    parse build data = report build sps >>= fun es => .ok (some (.es27 es)) := by
  have hlong := three_le_of_encode hbits
  obtain ⟨rest, hrest⟩ := hbits
  obtain ⟨br, he, -⟩ := sps_reads.run sps (sound_new (unescape 0 ebsp)) hfits ((bits_new _).trans hrest.symm)
  rw [parse_of_spsUnit hdata hsps hrun, if_neg hlong, he, ck_bind, report_kept]

/-- **A debug build has nothing but the bits of a set parsed.** -/
theorem encode_of_readSps {br br' : BitReader} {kept : Sps} (hs : br.Sound) (he : readSps .debug br = .ok (kept, br')) :
    ∃ sps : Sps, sps.Fits .debug ∧ kept = sps.kept ∧ sps.encode <+: br.bits := by
  obtain ⟨-, w, ⟨sps, hfits, rfl, rfl⟩, hrest⟩ := sps_reads.sound rfl hs he
  exact ⟨sps, hfits, rfl, _, hrest.symm⟩

/-- The number that is too much for a debug build is not read by one. -/
theorem fits_debug_of_readSps {br br' : BitReader} {kept : Sps} (hs : br.Sound) (hfits : sps.Fits .release)
    (hbits : sps.encode <+: br.bits) (he : readSps .debug br = .ok (kept, br')) : sps.Fits .debug := by
  obtain ⟨sps', hfits', -, hbits'⟩ := encode_of_readSps hs he
  obtain ⟨hrelease', hnone⟩ := fits_debug.1 hfits'
  obtain ⟨rest, hrest⟩ := hbits
  obtain ⟨rest', hrest'⟩ := hbits'
  -- a release build reads one set only
  obtain ⟨br₁, he₁, -⟩ := sps_reads.run sps hs hfits hrest.symm
  obtain ⟨br₂, he₂, -⟩ := sps_reads.run sps' hs hrelease' hrest'.symm
  have hkept : sps.kept = sps'.kept := congrArg Prod.fst (Except.ok.inj (he₁.symm.trans he₂))
  refine fits_debug.2 ⟨hfits, fun hmem => hnone ?_⟩
  have hmin : -2 ^ 30 ∈ sps'.kept.signed := by
    rw [← hkept, signed_kept]
    exact List.mem_map.2 ⟨_, hmem, by decide⟩
  rw [signed_kept] at hmin
  obtain ⟨x, hx, hwrapped⟩ := List.mem_map.1 hmin
  rwa [← (wrapped_eq_min (seFits_of_fits hrelease' x hx).1).1 hwrapped]

theorem fits_debug_of_parse (hdata : 2 ≤ data.length) (hsps : spsUnit data = some ebsp) (hrun : ¬ LongRun ebsp)
    (hfits : sps.Fits .release) (hbits : sps.encode <+: ofBytes (unescape 0 ebsp)) {found : Option Es}
    (he : parse .debug data = .ok found) : sps.Fits .debug := by
  rw [parse_of_spsUnit hdata hsps hrun, if_neg (three_le_of_encode hbits)] at he
  obtain ⟨⟨kept, br⟩, he, -⟩ := ck_eq_ok.1 he
  refine fits_debug_of_readSps (sound_new _) hfits ?_ he
  rwa [bits_new]

/-! ## Sizes -/

/-- The sizes are within 32 bits, before and after cropping. -/
structure SizesFit (sps : Sps) : Prop where
  width_lt : sps.pictureWidth < 2 ^ 32
  right_le : (cropUnits sps).1 * cropRight sps ≤ sps.pictureWidth
  height_lt : sps.pictureHeight < 2 ^ 32
  bottom_le : (cropUnits sps).2 * cropBottom sps ≤ sps.pictureHeight

theorem fieldFactor_pos (sps : Sps) : 0 < sps.fieldFactor := by
  have := Bool.toNat_le sps.frame.frameMbsOnly
  rw [Sps.fieldFactor]
  omega

/-- What is cropped of a size, if it fits. -/
theorem crop_eq {full unit offset : ℕ} (hlt : full < 2 ^ 32) (hle : unit * offset ≤ full) :
    (mul32 build unit offset >>= fun crop => unsigned build 32 (full - crop)) = .ok (full - unit * offset) := by
  rw [mul32, unsigned_of_lt (hle.trans_lt hlt), ck_bind, unsigned_sub hle hlt]

theorem crop_debug {full unit offset n : ℕ}
    (he : (mul32 .debug unit offset >>= fun crop => unsigned .debug 32 (full - crop)) = .ok n) : unit * offset ≤ full := by
  obtain ⟨crop, hcrop, he⟩ := ck_eq_ok.1 he
  rw [mul32, unsigned_debug] at hcrop
  rw [unsigned_debug] at he
  have hcrop' : unit * offset = crop := by exact_mod_cast hcrop.1
  omega

theorem width_eq (h : SizesFit sps) :
    width build sps = .ok (sps.pictureWidth - (cropUnits sps).1 * cropRight sps) := by
  have hlt := h.width_lt
  have hmul : (sps.frame.picWidthInMbsMinus1 + 1) * 16 = sps.pictureWidth := Nat.mul_comm _ _
  have hmbs : sps.frame.picWidthInMbsMinus1 + 1 < 2 ^ 32 := by omega
  rw [width, unsigned_of_lt hmbs, ck_bind, mul32, hmul, unsigned_of_lt hlt, ck_bind]
  exact crop_eq hlt h.right_le

theorem height_eq (h : SizesFit sps) :
    height build sps = .ok (sps.pictureHeight - (cropUnits sps).2 * cropBottom sps) := by
  have hlt := h.height_lt
  have hmul : sps.fieldFactor * (sps.frame.picHeightInMapUnitsMinus1 + 1) * 16 = sps.pictureHeight := Nat.mul_comm _ _
  have hmbs : sps.fieldFactor * (sps.frame.picHeightInMapUnitsMinus1 + 1) < 2 ^ 32 := by omega
  have hunits : sps.frame.picHeightInMapUnitsMinus1 + 1 < 2 ^ 32 :=
    (Nat.le_mul_of_pos_left _ (fieldFactor_pos sps)).trans_lt hmbs
  rw [height, unsigned_of_lt hunits, ck_bind, mul32, unsigned_of_lt hmbs, ck_bind, mul32, hmul, unsigned_of_lt hlt,
    ck_bind]
  exact crop_eq hlt h.bottom_le

theorem width_debug {n : ℕ} (he : width .debug sps = .ok n) :
    sps.pictureWidth < 2 ^ 32 ∧ (cropUnits sps).1 * cropRight sps ≤ sps.pictureWidth := by
  obtain ⟨mbs, hmbs, he⟩ := ck_eq_ok.1 he
  obtain ⟨full, hfull, he⟩ := ck_eq_ok.1 he
  rw [unsigned_debug] at hmbs
  rw [mul32, unsigned_debug] at hfull
  have hmul : (sps.frame.picWidthInMbsMinus1 + 1) * 16 = sps.pictureWidth := Nat.mul_comm _ _
  obtain rfl : sps.frame.picWidthInMbsMinus1 + 1 = mbs := by exact_mod_cast hmbs.1
  obtain rfl : sps.pictureWidth = full := hmul ▸ by exact_mod_cast hfull.1
  exact ⟨hfull.2, crop_debug he⟩

theorem height_debug {n : ℕ} (he : height .debug sps = .ok n) :
    sps.pictureHeight < 2 ^ 32 ∧ (cropUnits sps).2 * cropBottom sps ≤ sps.pictureHeight := by
  obtain ⟨units, hunits, he⟩ := ck_eq_ok.1 he
  obtain ⟨mbs, hmbs, he⟩ := ck_eq_ok.1 he
  obtain ⟨full, hfull, he⟩ := ck_eq_ok.1 he
  rw [unsigned_debug] at hunits
  rw [mul32, unsigned_debug] at hmbs hfull
  have hmul : sps.fieldFactor * (sps.frame.picHeightInMapUnitsMinus1 + 1) * 16 = sps.pictureHeight := Nat.mul_comm _ _
  obtain rfl : sps.frame.picHeightInMapUnitsMinus1 + 1 = units := by exact_mod_cast hunits.1
  obtain rfl : sps.fieldFactor * (sps.frame.picHeightInMapUnitsMinus1 + 1) = mbs := by exact_mod_cast hmbs.1
  obtain rfl : sps.pictureHeight = full := hmul ▸ by exact_mod_cast hfull.1
  exact ⟨hfull.2, crop_debug he⟩

/-- A debug build has no other sizes. -/
theorem sizesFit_of_report {es : Es27} (he : report .debug sps = .ok es) : SizesFit sps := by
  obtain ⟨w, hw, he⟩ := ck_eq_ok.1 he
  obtain ⟨h, hh, -⟩ := ck_eq_ok.1 he
  obtain ⟨hwidth, hright⟩ := width_debug hw
  obtain ⟨hheight, hbottom⟩ := height_debug hh
  exact ⟨hwidth, hright, hheight, hbottom⟩

theorem report_eq (h : SizesFit sps) : ∃ es, (∀ build, report build sps = .ok es) ∧ es.profileIdc = some sps.profileIdc ∧
    es.levelIdc = some sps.levelIdc ∧ es.seqParameterSetId = some sps.seqParameterSetId ∧
    (∀ n, 0 < n → (es.horizontalSize = some n ↔ sps.pictureWidth - (cropUnits sps).1 * cropRight sps = n)) ∧
    ∀ n, 0 < n → (es.verticalSize = some n ↔ sps.pictureHeight - (cropUnits sps).2 * cropBottom sps = n) := by
  have hif (a n : ℕ) (hn : 0 < n) : (if a > 0 then some a else none) = some n ↔ a = n := by
    split_ifs with ha
    · exact Option.some.injEq a n ▸ Iff.rfl
    · exact iff_of_false (fun h => (nomatch h)) (by omega)
  refine ⟨es27 sps _ _, fun build => ?_, rfl, rfl, rfl, fun n hn => hif _ n hn, fun n hn => hif _ n hn⟩
  rw [report, width_eq h, ck_bind, height_eq h, ck_bind]
  rfl

/-! ## A set in a byte stream -/

theorem spsUnit_of_carries (h : Carries data sps) : 2 ≤ data.length ∧
    ∃ ebsp, spsUnit data = some ebsp ∧ ¬ LongRun ebsp ∧ sps.encode <+: ofBytes (unescape 0 ebsp) := by
  obtain ⟨u, us, v, rfl, hfind, hbits⟩ := h
  refine ⟨two_le_byteStream u us, escape 0 v.nal.rbsp, ?_, not_longRun_escape _, ?_⟩
  · rw [spsUnit_byteStream, hfind]
    rfl
  · rwa [unescape_escape (Nat.zero_le 2)]

/-- The crop units of the source: none where they do not depend on the chroma format. -/
theorem cropUnits_eq (h : sps.Conforms) :
    cropUnits sps = if sps.chromaArrayType = 0 then (0, 0) else (sps.cropUnitX, sps.cropUnitY) := by
  have hchroma := h.chroma
  have hhigh := h.fits.high
  obtain ⟨profile, constraints, level, id, _ | high, frameNum, order, frame, crop, vui⟩ := sps
  · rfl
  · have hseparate := (hhigh high rfl).separate
    obtain ⟨chroma, separate, luma, chromaDepth, bypass, lists⟩ := high
    change chroma ≤ 3 at hchroma
    change chroma ≠ 3 → separate = false at hseparate
    by_cases hthree : chroma = 3
    · subst hthree
      cases separate with
      | true => exact Prod.ext rfl (Nat.zero_mul _)
      | false => rfl
    · obtain rfl := hseparate hthree
      obtain rfl | rfl | rfl : chroma = 0 ∨ chroma = 1 ∨ chroma = 2 := by omega
      · exact Prod.ext rfl (Nat.zero_mul _)
      · rfl
      · exact Prod.ext rfl (Nat.one_mul _)

theorem cropUnitX_pos (sps : Sps) : 0 < sps.cropUnitX := by
  unfold Sps.cropUnitX
  split <;> norm_num

theorem cropUnitY_pos (sps : Sps) : 0 < sps.cropUnitY := by
  have := fieldFactor_pos sps
  unfold Sps.cropUnitY
  split <;> omega

section Cropped

variable {full unit unit' first second : ℕ}

/-- One dimension: what the source takes off is all there is to take off. -/
theorem cropped_iff (hunit : 0 < unit) (hpos : 0 < full - unit * (first + second)) (hunit' : unit' = 0 ∨ unit' = unit) :
    full - unit' * second = full - unit * (first + second) ↔ first = 0 ∧ (unit' = 0 → second = 0) := by
  have hzero (n : ℕ) : unit * n = 0 ↔ n = 0 := by rw [Nat.mul_eq_zero, or_iff_right hunit.ne']
  have hfirst := hzero first
  have hsecond := hzero second
  rw [Nat.mul_add] at hpos ⊢
  obtain rfl | rfl := hunit'
  · rw [Nat.zero_mul]
    omega
  · omega

theorem cropped_le (hpos : 0 < full - unit * (first + second)) (hunit' : unit' = 0 ∨ unit' = unit) :
    unit' * second ≤ full := by
  rw [Nat.mul_add] at hpos
  obtain rfl | rfl := hunit'
  · rw [Nat.zero_mul]
    exact Nat.zero_le _
  · omega

end Cropped

theorem cropUnits_fst (h : sps.Conforms) :
    ((cropUnits sps).1 = 0 ↔ sps.chromaArrayType = 0) ∧ ((cropUnits sps).1 = 0 ∨ (cropUnits sps).1 = sps.cropUnitX) := by
  have hpos := cropUnitX_pos sps
  rw [cropUnits_eq h]
  split_ifs with hc
  · exact ⟨iff_of_true rfl hc, .inl rfl⟩
  · exact ⟨iff_of_false hpos.ne' hc, .inr rfl⟩

theorem cropUnits_snd (h : sps.Conforms) :
    ((cropUnits sps).2 = 0 ↔ sps.chromaArrayType = 0) ∧ ((cropUnits sps).2 = 0 ∨ (cropUnits sps).2 = sps.cropUnitY) := by
  have hpos := cropUnitY_pos sps
  rw [cropUnits_eq h]
  split_ifs with hc
  · exact ⟨iff_of_true rfl hc, .inl rfl⟩
  · exact ⟨iff_of_false hpos.ne' hc, .inr rfl⟩

theorem cropRight_eq (sps : Sps) : cropRight sps = sps.crop.right := by
  rw [cropRight, Sps.crop]
  cases sps.cropping with
  | none => rfl
  | some crop => rfl

theorem cropBottom_eq (sps : Sps) : cropBottom sps = sps.crop.bottom := by
  rw [cropBottom, Sps.crop]
  cases sps.cropping with
  | none => rfl
  | some crop => rfl

theorem sizesFit_of_conforms (h : sps.Conforms) : SizesFit sps where
  width_lt := h.width_lt
  right_le := by
    rw [cropRight_eq]
    exact cropped_le h.width_pos (cropUnits_fst h).2
  height_lt := h.height_lt
  bottom_le := by
    rw [cropBottom_eq]
    exact cropped_le h.height_pos (cropUnits_snd h).2

/-- The sizes that the source reports are those of the set. -/
theorem sizes_iff (h : sps.Conforms) :
    sps.pictureWidth - (cropUnits sps).1 * cropRight sps = sps.croppedWidth ∧
      sps.pictureHeight - (cropUnits sps).2 * cropBottom sps = sps.croppedHeight ↔
    sps.crop.left = 0 ∧ sps.crop.top = 0 ∧ (sps.chromaArrayType = 0 → sps.crop.right = 0 ∧ sps.crop.bottom = 0) := by
  obtain ⟨hzeroX, hX⟩ := cropUnits_fst h
  obtain ⟨hzeroY, hY⟩ := cropUnits_snd h
  rw [cropRight_eq, cropBottom_eq, Sps.croppedWidth, Sps.croppedHeight,
    cropped_iff (cropUnitX_pos sps) h.width_pos hX, cropped_iff (cropUnitY_pos sps) h.height_pos hY, hzeroX, hzeroY]
  tauto

/-- **A set is reported right** if and only if nothing is cropped on the left and at the top, and nothing at all where
the crop units do not depend on the chroma format; and in a debug build no signed number of it is `2 ^ 30`. -/
theorem sps_reported (build : Build) {data : Bytes} {sps : Sps} (h : sps.Conforms) (hdata : Carries data sps) :
    Reports build data sps ↔ sps.crop.left = 0 ∧ sps.crop.top = 0 ∧
      (sps.chromaArrayType = 0 → sps.crop.right = 0 ∧ sps.crop.bottom = 0) ∧
      (build = .debug → 2 ^ 30 ∉ sps.signed) := by
  obtain ⟨hlen, ebsp, hsps, hrun, hbits⟩ := spsUnit_of_carries hdata
  by_cases hmax : build = .debug → 2 ^ 30 ∉ sps.signed
  · have hfits : sps.Fits build := by
      cases build with
      | debug => exact fits_debug.2 ⟨h.fits, hmax rfl⟩
      | release => exact h.fits
    obtain ⟨es, hreport, hprofile, hlevel, hid, hwidth, hheight⟩ := report_eq (sizesFit_of_conforms h)
    have hparse : parse build data = .ok (some (.es27 es)) := by
      rw [parse_of_encode hlen hsps hrun hfits hbits, hreport build]
      rfl
    have hreports : Reports build data sps ↔
        es.horizontalSize = some sps.croppedWidth ∧ es.verticalSize = some sps.croppedHeight := by
      constructor
      · rintro ⟨es', he, -, -, -, hw, hh⟩
        rw [hparse] at he
        cases he
        exact ⟨hw, hh⟩
      · exact fun hsizes => ⟨es, hparse, hprofile, hlevel, hid, hsizes⟩
    rw [hreports, hwidth _ h.width_pos, hheight _ h.height_pos, sizes_iff h]
    exact ⟨fun ⟨hleft, htop, hnone⟩ => ⟨hleft, htop, hnone, hmax⟩, fun ⟨hleft, htop, hnone, _⟩ => ⟨hleft, htop, hnone⟩⟩
  · refine iff_of_false ?_ fun hc => hmax hc.2.2.2
    rintro ⟨es, he, -⟩
    obtain ⟨rfl, hmem⟩ := Classical.not_imp.1 hmax
    exact hmem (fits_debug.1 (fits_debug_of_parse hlen hsps hrun h.fits hbits he)).2

/-- Two macroblocks in each direction, and two columns cropped on the left. -/
def leftCropped : Sps where
  profileIdc := 66
  constraintFlags := 0
  levelIdc := 30
  seqParameterSetId := 0
  high := none
  log2MaxFrameNumMinus4 := 0
  picOrder := .other 2
  frame := ⟨0, false, 1, 1, true, false, true⟩
  cropping := some ⟨1, 0, 0, 0⟩
  vui := none

def leftCroppedUnit : Framed := ⟨0, false, ⟨0x67, [0x42, 0x00, 0x1E, 0xDC, 0x97, 0x5D], 0x5D, rfl, by decide⟩⟩

theorem conforms_leftCropped : leftCropped.Conforms where
  profile := by decide
  chroma := by decide
  fits := ⟨by decide, by decide, by decide, by decide, rfl, fun _ h => (nomatch h), by decide,
    ⟨⟨by decide, by decide⟩, fun _ h => (nomatch h)⟩, ⟨by decide, by decide, by decide, fun _ => rfl⟩,
    fun crop h => by cases h; exact ⟨by decide, by decide, by decide, by decide⟩, fun _ h => (nomatch h)⟩
  width_lt := by decide
  height_lt := by decide
  width_pos := by decide
  height_pos := by decide

theorem carries_leftCropped : Carries (byteStream [leftCroppedUnit]) leftCropped :=
  ⟨leftCroppedUnit, [], leftCroppedUnit, rfl, rfl, by decide⟩

theorem sps_reported_leftCropped : Reports .release (byteStream [leftCroppedUnit]) leftCropped ↔
    leftCropped.crop.left = 0 ∧ leftCropped.crop.top = 0 ∧
      (leftCropped.chromaArrayType = 0 → leftCropped.crop.right = 0 ∧ leftCropped.crop.bottom = 0) ∧
      (Build.release = .debug → 2 ^ 30 ∉ leftCropped.signed) :=
  sps_reported .release conforms_leftCropped carries_leftCropped

/-- A width of 32 is reported for a picture of 30 columns. -/
theorem sps_misreported : ¬ ∀ (build : Build) (data : Bytes) (sps : Sps),
    sps.Conforms → Carries data sps → Reports build data sps := by
  intro h
  obtain ⟨es, he, -, -, -, hwidth, -⟩ := h .release _ _ conforms_leftCropped carries_leftCropped
  have hparse : parse .release (byteStream [leftCroppedUnit]) =
      .ok (some (.es27 ⟨some 66, some 30, some 0, some 32, some 32, none⟩)) := by
    decide +kernel
  rw [hparse] at he
  cases he
  exact absurd hwidth (by decide)

/-! ## When parsing returns -/

/-- A sequence parameter set, if there is one, is counted through, and is too short to be read or begins with the bits
of a set whose sizes fit. -/
def Parsable (data : Bytes) : Prop :=
  2 ≤ data.length ∧ ∀ ebsp ∈ spsUnit data, ¬ LongRun ebsp ∧
    (3 ≤ (unescape 0 ebsp).length →
      ∃ sps : Sps, sps.Fits .debug ∧ SizesFit sps ∧ sps.encode <+: ofBytes (unescape 0 ebsp))

/-- A debug build returns for these byte strings only. -/
theorem parsable_of_debug {found : Option Es} (he : parse .debug data = .ok found) : Parsable data := by
  have hlen : 2 ≤ data.length := by
    by_contra hshort
    rw [parse, findSps_short_debug (Nat.lt_of_not_le hshort)] at he
    cases he
  refine ⟨hlen, fun ebsp hsps => ?_⟩
  have hrun : ¬ LongRun ebsp := by
    intro hrun
    rw [parse, findSps_eq hlen, ck_bind, Option.mem_def.1 hsps] at he
    dsimp only at he
    rw [ebspToRbsp_debug hrun] at he
    cases he
  refine ⟨hrun, fun hlong => ?_⟩
  rw [parse_of_spsUnit hlen hsps hrun, if_neg (Nat.not_lt.2 hlong)] at he
  obtain ⟨⟨kept, br⟩, hread, he⟩ := ck_eq_ok.1 he
  obtain ⟨es, hreport, -⟩ := ck_eq_ok.1 he
  obtain ⟨sps, hfits, rfl, hbits⟩ := encode_of_readSps (sound_new _) hread
  rw [report_kept] at hreport
  exact ⟨sps, hfits, sizesFit_of_report hreport, bits_new (unescape 0 ebsp) ▸ hbits⟩

/-- Either build returns for these, with the same. -/
theorem parse_of_parsable (h : Parsable data) : ∃ found, ∀ build, parse build data = .ok found := by
  obtain ⟨hlen, hsps⟩ := h
  cases hfind : spsUnit data with
  | none => exact ⟨none, fun build => by rw [parse, findSps_eq hlen, ck_bind, hfind]; rfl⟩
  | some ebsp =>
    obtain ⟨hrun, hset⟩ := hsps ebsp hfind
    by_cases hshort : (unescape 0 ebsp).length < 3
    · exact ⟨_, fun build => by rw [parse_of_spsUnit hlen hfind hrun, if_pos hshort]⟩
    · obtain ⟨sps, hfits, hsizes, hbits⟩ := hset (Nat.not_lt.1 hshort)
      obtain ⟨es, hreport, -⟩ := report_eq hsizes
      refine ⟨some (.es27 es), fun build => ?_⟩
      have hfits' : sps.Fits build := by
        cases build with
        | debug => exact hfits
        | release => exact (fits_debug.1 hfits).1
      rw [parse_of_encode hlen hfind hrun hfits' hbits, hreport build]
      rfl

/-- **`parse` returns**, and with the same in both builds, for these byte strings only. -/
theorem parse_returns (data : Bytes) : (∃ found, ∀ build, parse build data = .ok found) ↔ Parsable data := by
  constructor
  · rintro ⟨found, hfound⟩
    exact parsable_of_debug (hfound .debug)
  · exact parse_of_parsable

/-- A set that ends behind its level. -/
theorem parse_truncated : ¬ ∀ data : Bytes, ∃ found, ∀ build, parse build data = .ok found := by
  have hdebug : parse .debug [0x00, 0x00, 0x01, 0x67, 0x42, 0x00, 0x1E] = .error .overflow := by decide +kernel
  intro h
  obtain ⟨found, hfound⟩ := h [0x00, 0x00, 0x01, 0x67, 0x42, 0x00, 0x1E]
  rw [hfound .debug] at hdebug
  cases hdebug

-- a release build does not come to an end with it
example : parse .release [0x00, 0x00, 0x01, 0x67, 0x42, 0x00, 0x1E] = .error .endless := by decide +kernel

end EsParser27

end MyMuxer
