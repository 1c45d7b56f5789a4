import MyMuxer.Pes.Sps

/-!
# The encodings that `EsParser27::parse` reads

* One lemma for each part of a sequence parameter set: its reader reads the encodings of the parts that fit, and in a
  debug build nothing else.
* `kept`: the part as read, which for signed numbers may be `2 ^ 31` off.
* **`sps_reads`**: the whole set.
-/

namespace MyMuxer

open Bits Grammar BitReader

/-! ## What is kept -/

def PicOrder.kept : PicOrder → PicOrder
  | .cycle always nonRef topToBottom refFrame =>
    .cycle always (wrapped nonRef) (wrapped topToBottom) (refFrame.map wrapped)
  | order => order

def High.kept (high : High) : High :=
  { high with scalingLists := high.scalingLists.map (List.map (Option.map (List.map wrapped))) }

def Sps.kept (sps : Sps) : Sps := { sps with high := sps.high.map High.kept, picOrder := sps.picOrder.kept }

namespace EsParser27

variable {build : Build}

/-! ## Parts behind a flag -/

section Optional

variable {α X : Type} {m : Read α} {fits : X → Prop} {enc : X → List Bool} {kept : X → α}

theorem if_reads (h : Reads view (build = .debug) m (Coded fits enc kept)) (present : Bool) :
    Reads view (build = .debug) (readIf present m) (Coded (fun o : Option X => o.isSome = present ∧ ∀ x ∈ o, fits x)
      (fun o => o.elim [] enc) (Option.map kept)) := by
  cases present with
  | true =>
    refine (h.map some).congr fun a w => ⟨?_, ?_⟩
    · rintro ⟨_ | x, ⟨hb, hx⟩, rfl, rfl⟩
      · cases hb
      · exact ⟨x, hx x rfl, rfl, rfl⟩
    · rintro ⟨x, hx, rfl, rfl⟩
      exact ⟨some x, ⟨rfl, fun y hy => Option.some.inj hy ▸ hx⟩, rfl, rfl⟩
  | false =>
    refine (Reads.pure none).congr fun a w => ⟨?_, ?_⟩
    · rintro ⟨_ | x, ⟨hb, -⟩, rfl, rfl⟩
      · exact ⟨rfl, rfl⟩
      · cases hb
    · rintro ⟨rfl, rfl⟩
      exact ⟨none, ⟨rfl, fun _ h => (nomatch h)⟩, rfl, rfl⟩

theorem optional_reads (h : Reads view (build = .debug) m (Coded fits enc kept)) :
    Reads view (build = .debug) (readOptional build m)
      (Coded (fun o : Option X => ∀ x ∈ o, fits x) (optional enc) (Option.map kept)) := by
  refine (flag_reads.seq fun b _ => if_reads h b).recode (fun o => (o.isSome, o)) (fun p => p.2) ?_ ?_ ?_ fun _ => rfl
  · rintro ⟨b, o⟩ ⟨-, hb, -⟩
    exact Prod.ext hb rfl
  · exact fun o => ⟨fun h => ⟨trivial, rfl, h⟩, fun h => h.2.2⟩
  · rintro (_ | x)
    · rfl
    · rfl

end Optional

/-! ## The VUI -/

theorem timing_reads : Reads view (build = .debug) (readTiming build)
    (Coded Timing.Fits Timing.encode fun timing => timing) := by
  refine ((word_reads (n := 32) (by norm_num) le_rfl).seq fun units _ =>
    (word_reads (n := 32) (by norm_num) le_rfl).seq fun scale _ =>
      flag_reads.map fun fixed => Timing.mk units scale fixed).recode
    (fun t => (t.numUnitsInTick, t.timeScale, t.fixedFrameRate)) (fun p => ⟨p.1, p.2.1, p.2.2⟩) (fun _ _ => rfl) ?_
    (fun _ => rfl) fun _ => rfl
  exact fun t => ⟨fun h => ⟨h.units, h.scale, trivial⟩, fun h => ⟨h.1, h.2.1⟩⟩

theorem chromaLoc_reads : Reads view (build = .debug) (readChromaLoc build)
    (Coded ChromaLoc.Fits ChromaLoc.encode fun loc => loc) := by
  refine (ue_reads.seq fun top _ => ue_reads.map (ChromaLoc.mk top)).recode
    (fun l => (l.chromaSampleLocTypeTopField, l.chromaSampleLocTypeBottomField)) (fun p => ⟨p.1, p.2⟩) (fun _ _ => rfl) ?_
    (fun _ => rfl) fun _ => rfl
  exact fun l => ⟨fun h => ⟨h.top, h.bottom⟩, fun h => ⟨h.1, h.2⟩⟩

theorem byte_reads : Reads view (build = .debug) (readBits build 8)
    (Coded (fun v => v < 2 ^ 8) (fun v => word 8 v) fun v => v) :=
  word_reads (by norm_num) (by norm_num)

theorem colour_reads : Reads view (build = .debug) (readColour build)
    (Coded Colour.Fits Colour.encode fun colour => colour) := by
  refine (byte_reads.seq fun primaries _ => byte_reads.seq fun transfer _ =>
    byte_reads.map (Colour.mk primaries transfer)).recode
    (fun c => (c.colourPrimaries, c.transferCharacteristics, c.matrixCoefficients)) (fun p => ⟨p.1, p.2.1, p.2.2⟩)
    (fun _ _ => rfl) ?_ (fun _ => rfl) fun _ => rfl
  exact fun c => ⟨fun h => ⟨h.primaries, h.transfer, h.matrix⟩, fun h => ⟨h.1, h.2.1, h.2.2⟩⟩

theorem signal_reads : Reads view (build = .debug) (readSignal build)
    (Coded Signal.Fits Signal.encode fun signal => signal) := by
  refine ((word_reads (n := 3) (by norm_num) (by norm_num)).seq fun format _ => flag_reads.seq fun range _ =>
    (optional_reads colour_reads).map (Signal.mk format range)).recode
    (fun g => (g.videoFormat, g.videoFullRange, g.colourDescription)) (fun p => ⟨p.1, p.2.1, p.2.2⟩)
    (fun _ _ => rfl) ?_ (fun _ => rfl) fun g => ?_
  · exact fun g => ⟨fun h => ⟨h.format, trivial, h.colour⟩, fun h => ⟨h.1, h.2.2⟩⟩
  · rw [Option.map_id']

theorem sar_reads (n : ℕ) (hn : n < 2 ^ 8) : Reads view (build = .debug) (readSar build n)
    (Coded (fun ratio => ratio.aspectRatioIdc = n ∧ ratio.Fits) AspectRatio.body fun ratio => ratio) := by
  rw [readSar]
  have hsize := @word_reads build 16 (by norm_num) (by norm_num)
  split_ifs with h
  · refine (hsize.seq fun width _ => hsize.map (AspectRatio.extended width)).congr fun ratio w => ⟨?_, ?_⟩
    · rintro ⟨n' | ⟨width, height⟩, ⟨he, hfits⟩, rfl, rfl⟩
      · exact absurd (he.trans h) hfits.2
      · exact ⟨(width, height), hfits, rfl, rfl⟩
    · rintro ⟨⟨width, height⟩, hfits, rfl, rfl⟩
      exact ⟨.extended width height, ⟨h.symm, hfits⟩, rfl, rfl⟩
  · refine (Reads.pure (AspectRatio.idc n)).congr fun ratio w => ⟨?_, ?_⟩
    · rintro ⟨n' | ⟨width, height⟩, ⟨rfl, hfits⟩, rfl, rfl⟩
      · exact ⟨rfl, rfl⟩
      · exact absurd rfl h
    · rintro ⟨rfl, rfl⟩
      exact ⟨.idc n, ⟨rfl, hn, h⟩, rfl, rfl⟩

theorem aspectRatio_reads : Reads view (build = .debug) (readAspectRatio build)
    (Coded AspectRatio.Fits (fun ratio => word 8 ratio.aspectRatioIdc ++ ratio.body) fun ratio => ratio) := by
  refine (byte_reads.seq sar_reads).recode (fun ratio => (ratio.aspectRatioIdc, ratio)) (fun p => p.2) ?_ ?_
    (fun _ => rfl) fun _ => rfl
  · rintro ⟨n, ratio⟩ ⟨-, hn, -⟩
    exact Prod.ext hn rfl
  · rintro (n | ⟨width, height⟩)
    · exact ⟨fun h => ⟨h.1, rfl, h⟩, fun h => h.2.2⟩
    · exact ⟨fun h => ⟨by norm_num [AspectRatio.aspectRatioIdc], rfl, h⟩, fun h => h.2.2⟩

theorem vui_reads : Reads view (build = .debug) (readVui build) (Coded Vui.Fits Vui.encode fun vui => vui) := by
  refine ((optional_reads aspectRatio_reads).seq fun aspect _ => (optional_reads flag_reads).seq fun overscan _ =>
    (optional_reads signal_reads).seq fun signal _ => (optional_reads chromaLoc_reads).seq fun loc _ =>
      (optional_reads timing_reads).map fun timing => (⟨aspect.map fun r => r, overscan.map fun b => b,
        signal.map fun g => g, loc.map fun l => l, timing⟩ : Vui)).recode
    (fun v => (v.aspectRatio, v.overscanAppropriate, v.videoSignal, v.chromaLoc, v.timing))
    (fun p => ⟨p.1, p.2.1, p.2.2.1, p.2.2.2.1, p.2.2.2.2⟩) (fun _ _ => rfl) ?_ (fun _ => rfl) fun v => ?_
  · exact fun v => ⟨fun h => ⟨h.aspect, fun _ _ => trivial, h.signal, h.loc, h.timing⟩,
      fun h => ⟨h.1, h.2.2.1, h.2.2.2.1, h.2.2.2.2⟩⟩
  · simp only [Option.map_id']

/-! ## The picture -/

theorem cropping_reads : Reads view (build = .debug) (readCropping build)
    (Coded Cropping.Fits Cropping.encode fun crop => crop) := by
  refine (ue_reads.seq fun left _ => ue_reads.seq fun right _ => ue_reads.seq fun top _ =>
    ue_reads.map (Cropping.mk left right top)).recode
    (fun c => (c.left, c.right, c.top, c.bottom)) (fun p => ⟨p.1, p.2.1, p.2.2.1, p.2.2.2⟩) (fun _ _ => rfl) ?_
    (fun _ => rfl) fun _ => rfl
  exact fun c => ⟨fun h => ⟨h.left, h.right, h.top, h.bottom⟩, fun h => ⟨h.1, h.2.1, h.2.2.1, h.2.2.2⟩⟩

theorem flagIf_reads (present : Bool) : Reads view (build = .debug) (readFlagIf build present)
    (Coded (fun b => present = false → b = false) (flagIf present) fun b => b) := by
  cases present with
  | true =>
    refine flag_reads.congr fun b w => exists_congr fun b' => and_congr_left fun _ => ?_
    exact iff_of_true (fun h => nomatch h) trivial
  | false =>
    refine (Reads.pure false).congr fun b w => ⟨?_, ?_⟩
    · rintro ⟨b, hb, rfl, rfl⟩
      exact ⟨hb rfl, rfl⟩
    · rintro ⟨rfl, rfl⟩
      exact ⟨false, fun _ => rfl, rfl, rfl⟩

theorem frame_reads : Reads view (build = .debug) (readFrame build)
    (Coded Frame.Fits Frame.encode fun frame => frame) := by
  refine (ue_reads.seq fun refFrames _ => flag_reads.seq fun gaps _ => ue_reads.seq fun width _ =>
    ue_reads.seq fun height _ => flag_reads.seq fun mbsOnly _ => (flagIf_reads !mbsOnly).seq fun adaptive _ =>
      flag_reads.map (Frame.mk refFrames gaps width height mbsOnly adaptive)).recode
    (fun f => (f.maxNumRefFrames, f.gapsInFrameNumValueAllowed, f.picWidthInMbsMinus1, f.picHeightInMapUnitsMinus1,
      f.frameMbsOnly, f.mbAdaptiveFrameField, f.direct8x8Inference))
    (fun p => ⟨p.1, p.2.1, p.2.2.1, p.2.2.2.1, p.2.2.2.2.1, p.2.2.2.2.2.1, p.2.2.2.2.2.2⟩) (fun _ _ => rfl) ?_
    (fun _ => rfl) fun _ => rfl
  exact fun f => ⟨fun h => ⟨h.refFrames, trivial, h.width, h.height, trivial, fun hb => h.adaptive (by simpa using hb),
    trivial⟩, fun h => ⟨h.1, h.2.2.1, h.2.2.2.1, fun hb => h.2.2.2.2.2.1 (by simpa using hb)⟩⟩

/-! ## Signed numbers -/

theorem cycle_reads : Reads view (build = .debug) (readCycle build)
    (Coded (fun order => order.picOrderCntType = 1 ∧ order.Fits build) PicOrder.body PicOrder.kept) := by
  refine (flag_reads.seq fun always _ => se_reads.seq fun nonRef _ => se_reads.seq fun topToBottom _ =>
    ue_reads.seq fun n _ => (se_reads.times n).map
      (PicOrder.cycle always (wrapped nonRef) (wrapped topToBottom))).congr fun order w => ⟨?_, ?_⟩
  · rintro ⟨_ | ⟨always, nonRef, topToBottom, offsets⟩ | t, ⟨ht, hfits⟩, rfl, rfl⟩
    · cases ht
    · have hsigned := hfits.signed
      rw [PicOrder.signed, List.forall_mem_cons, List.forall_mem_cons] at hsigned
      exact ⟨(always, nonRef, topToBottom, offsets.length, offsets),
        ⟨trivial, hsigned.1, hsigned.2.1, hfits.unsigned, rfl, hsigned.2.2⟩, rfl, rfl⟩
    · exact absurd hfits.unsigned.1 (by rw [show t = 1 from ht]; norm_num)
  · rintro ⟨⟨always, nonRef, topToBottom, n, offsets⟩, ⟨-, h1, h2, hn, hlength, h3⟩, rfl, rfl⟩
    obtain rfl : n = offsets.length := hlength.symm
    exact ⟨.cycle always nonRef topToBottom offsets,
      ⟨rfl, hn, List.forall_mem_cons.2 ⟨h1, List.forall_mem_cons.2 ⟨h2, h3⟩⟩⟩, rfl, rfl⟩

theorem picOrderBody_reads (t : ℕ) (ht : t + 1 < 2 ^ 32) : Reads view (build = .debug) (readPicOrderBody build t)
    (Coded (fun order => order.picOrderCntType = t ∧ order.Fits build) PicOrder.body PicOrder.kept) := by
  rw [readPicOrderBody]
  split_ifs with hzero hone
  · subst hzero
    refine (ue_reads.map PicOrder.lsb).congr fun order w => ⟨?_, ?_⟩
    · rintro ⟨log2Max | ⟨always, nonRef, topToBottom, offsets⟩ | t, ⟨ht, hfits⟩, rfl, rfl⟩
      · exact ⟨log2Max, hfits.unsigned, rfl, rfl⟩
      · cases ht
      · exact absurd hfits.unsigned.1 (by rw [show t = 0 from ht]; norm_num)
    · rintro ⟨log2Max, hfits, rfl, rfl⟩
      exact ⟨.lsb log2Max, ⟨rfl, hfits, fun _ h => (nomatch h)⟩, rfl, rfl⟩
  · subst hone
    exact cycle_reads
  · refine (Reads.pure (PicOrder.other t)).congr fun order w => ⟨?_, ?_⟩
    · rintro ⟨log2Max | ⟨always, nonRef, topToBottom, offsets⟩ | t', ⟨he, hfits⟩, rfl, rfl⟩
      · exact absurd he.symm hzero
      · exact absurd he.symm hone
      · exact ⟨congrArg PicOrder.other he, rfl⟩
    · rintro ⟨rfl, rfl⟩
      exact ⟨.other t, ⟨rfl, ⟨by omega, ht⟩, fun _ h => (nomatch h)⟩, rfl, rfl⟩

theorem picOrder_reads : Reads view (build = .debug) (readPicOrder build)
    (Coded (PicOrder.Fits build) (fun order => golomb order.picOrderCntType ++ order.body) PicOrder.kept) := by
  refine (ue_reads.seq picOrderBody_reads).recode (fun order => (order.picOrderCntType, order)) (fun p => p.2) ?_ ?_
    (fun _ => rfl) fun _ => rfl
  · rintro ⟨t, order⟩ ⟨-, ht, -⟩
    exact Prod.ext ht rfl
  · rintro (log2Max | ⟨always, nonRef, topToBottom, offsets⟩ | t)
    · exact ⟨fun h => ⟨by norm_num [PicOrder.picOrderCntType], rfl, h⟩, fun h => h.2.2⟩
    · exact ⟨fun h => ⟨by norm_num [PicOrder.picOrderCntType], rfl, h⟩, fun h => h.2.2⟩
    · exact ⟨fun h => ⟨h.unsigned.2, rfl, h⟩, fun h => h.2.2⟩

/-! ## Scaling lists -/

/-- Once the scale is zero, nothing more is read. -/
theorem readScalingList_zero (n : ℕ) (lastScale : ℤ) : readScalingList build n lastScale 0 = pure [] := by
  induction n with
  | zero => rfl
  | succ n ih => rw [readScalingList, if_neg (not_not.2 rfl), ih]

theorem scaleAfter_eq {scale delta : ℤ} (hscale : -256 < scale ∧ scale < 256)
    (hdelta : -2 ^ 30 ≤ delta ∧ delta ≤ 2 ^ 30) :
    scaleAfter build scale delta = .ok ((scale + delta + 256).tmod 256) := by
  rw [scaleAfter, i32_of_fits (by omega), ck_bind, i32_of_fits (by omega)]
  rfl

/-- The remainder of the source has the sign of the sum, but is the same scale. -/
theorem tmod_spec (x : ℤ) : (-256 < x.tmod 256 ∧ x.tmod 256 < 256) ∧ x.tmod 256 % 256 = x % 256 := by
  refine ⟨⟨Int.lt_tmod_of_pos x (by norm_num), Int.tmod_lt_of_pos x (by norm_num)⟩, ?_⟩
  rw [Int.tmod_eq_emod]
  split_ifs <;> omega

theorem scalingList_reads (n : ℕ) {scale lastScale : ℤ} (hscale : -256 < scale ∧ scale < 256) (hne : scale ≠ 0)
    (hmod : scale % 256 = lastScale % 256) :
    Reads view (build = .debug) (readScalingList build n scale scale)
      (Coded (fun list => (∀ x ∈ list, SeFits build x) ∧ ScalingDeltas n lastScale list)
        (fun list => list.flatMap seCode) (List.map wrapped)) := by
  induction n generalizing scale lastScale with
  | zero =>
    refine (Reads.pure []).congr fun l w => ⟨?_, ?_⟩
    · rintro ⟨l, ⟨-, rfl⟩, rfl, rfl⟩
      exact ⟨rfl, rfl⟩
    · rintro ⟨rfl, rfl⟩
      exact ⟨[], ⟨fun _ h => (nomatch h), rfl⟩, rfl, rfl⟩
  | succ n ih =>
    have hstep (x : ℤ) (hx : SeFits build x) : Reads view (build = .debug)
        (do
          let nextScale ← liftM (scaleAfter build scale (wrapped x))
          let list ← readScalingList build n (if nextScale = 0 then scale else nextScale) nextScale
          return wrapped x :: list)
        (Coded (fun list => (∀ y ∈ list, SeFits build y) ∧ ScalingDeltas (n + 1) lastScale (x :: list))
          (fun list => list.flatMap seCode) fun list => wrapped x :: list.map wrapped) := by
      have hcode := hx.1
      have hwrapped := wrapped_emod (show signCode x < 2 ^ 32 by omega)
      obtain ⟨hbounds, hnext⟩ := tmod_spec (scale + wrapped x + 256)
      rw [scaleAfter_eq hscale (wrapped_bounds (by omega)), read_lift_ok]
      generalize (scale + wrapped x + 256).tmod 256 = next at hbounds hnext ⊢
      by_cases hzero : next = 0
      · subst hzero
        rw [readScalingList_zero]
        refine (Reads.pure [wrapped x]).congr fun l w => ⟨?_, ?_⟩
        · rintro ⟨l, ⟨-, hl⟩, rfl, rfl⟩
          rw [ScalingDeltas, if_pos (by omega)] at hl
          subst hl
          exact ⟨rfl, rfl⟩
        · rintro ⟨rfl, rfl⟩
          refine ⟨[], ⟨fun _ h => (nomatch h), ?_⟩, rfl, rfl⟩
          rw [ScalingDeltas, if_pos (by omega)]
      · rw [if_neg hzero]
        have hrest := @ih next ((lastScale + x + 256) % 256) hbounds hzero (by omega)
        refine (hrest.map (wrapped x :: ·)).congr fun l w => exists_congr fun l => and_congr_left fun _ =>
          and_congr_right fun _ => ?_
        rw [ScalingDeltas, if_neg (by omega)]
    rw [readScalingList, if_pos hne]
    refine (se_reads.seq hstep).congr fun l w => ⟨?_, ?_⟩
    · rintro ⟨_ | ⟨x, l⟩, ⟨hfits, hdeltas⟩, rfl, rfl⟩
      · exact hdeltas.elim
      · exact ⟨(x, l), ⟨hfits x List.mem_cons_self, fun y hy => hfits y (List.mem_cons_of_mem x hy), hdeltas⟩, rfl, rfl⟩
    · rintro ⟨⟨x, l⟩, ⟨hx, hfits, hdeltas⟩, rfl, rfl⟩
      exact ⟨x :: l, ⟨List.forall_mem_cons.2 ⟨hx, hfits⟩, hdeltas⟩, rfl, rfl⟩

theorem forall_mem_elim {α β : Type} {o : Option α} {f : α → List β} {p : β → Prop} :
    (∀ x ∈ o.elim [] f, p x) ↔ ∀ a ∈ o, ∀ x ∈ f a, p x := by
  cases o with
  | none => exact iff_of_true (fun _ h => (nomatch h)) fun _ h => (nomatch h)
  | some a => exact ⟨fun h b hb => Option.some.inj hb ▸ h, fun h => h a rfl⟩

theorem listSize_reads (i : ℕ) : Reads view (build = .debug) (readScalingList build (High.listSize i) 8 8)
    (Coded (fun list => (∀ x ∈ list, SeFits build x) ∧ ScalingDeltas (High.listSize i) 8 list)
      (fun list => list.flatMap seCode) (List.map wrapped)) :=
  scalingList_reads _ (by norm_num) (by norm_num) rfl

theorem scalingLists_reads (n i : ℕ) : Reads view (build = .debug) (readScalingLists build n i)
    (Coded (fun lists => High.ListsFit n i lists ∧ ∀ x ∈ High.listsSigned lists, SeFits build x)
      (fun lists => lists.flatMap (optional (fun list => list.flatMap seCode)))
      (List.map (Option.map (List.map wrapped)))) := by
  induction n generalizing i with
  | zero =>
    refine (Reads.pure []).congr fun l w => ⟨?_, ?_⟩
    · rintro ⟨l, ⟨⟨hl, -⟩, -⟩, rfl, rfl⟩
      rw [List.eq_nil_of_length_eq_zero hl]
      exact ⟨rfl, rfl⟩
    · rintro ⟨rfl, rfl⟩
      exact ⟨[], ⟨⟨rfl, fun _ h => (nomatch h)⟩, fun _ h => (nomatch h)⟩, rfl, rfl⟩
  | succ n ih =>
    refine ((optional_reads (listSize_reads i)).seq fun list _ =>
      (ih (i + 1)).map (list.map (List.map wrapped) :: ·)).congr fun l w => ⟨?_, ?_⟩
    · rintro ⟨_ | ⟨list, lists⟩, ⟨⟨hlength, hdeltas⟩, hsigned⟩, rfl, rfl⟩
      · cases hlength
      · rw [List.zipIdx_cons, List.forall_mem_cons] at hdeltas
        rw [High.listsSigned, List.flatMap_cons, List.forall_mem_append, forall_mem_elim] at hsigned
        exact ⟨(list, lists), ⟨fun l hl => ⟨hsigned.1 l hl, hdeltas.1 l hl⟩,
          ⟨Nat.succ.inj hlength, hdeltas.2⟩, hsigned.2⟩, rfl, rfl⟩
    · rintro ⟨⟨list, lists⟩, ⟨hlist, ⟨hlength, hdeltas⟩, hsigned⟩, rfl, rfl⟩
      refine ⟨list :: lists, ⟨⟨congrArg Nat.succ hlength, ?_⟩, ?_⟩, rfl, rfl⟩
      · rw [List.zipIdx_cons, List.forall_mem_cons]
        exact ⟨fun l hl => (hlist l hl).2, hdeltas⟩
      · rw [High.listsSigned, List.flatMap_cons, List.forall_mem_append, forall_mem_elim]
        exact ⟨fun l hl => (hlist l hl).1, hsigned⟩

/-! ## The whole set -/

theorem high_reads : Reads view (build = .debug) (readHigh build)
    (Coded (High.Fits build) High.encode High.kept) := by
  refine (ue_reads.seq fun chroma _ => (flagIf_reads (chroma == 3)).seq fun separate _ => ue_reads.seq fun luma _ =>
    ue_reads.seq fun chromaDepth _ => flag_reads.seq fun bypass _ =>
      (optional_reads (scalingLists_reads (High.listCount chroma) 0)).map
        (High.mk chroma separate luma chromaDepth bypass)).recode
    (fun h => (h.chromaFormatIdc, h.separateColourPlane, h.bitDepthLumaMinus8, h.bitDepthChromaMinus8,
      h.qpprimeYZeroTransformBypass, h.scalingLists))
    (fun p => ⟨p.1, p.2.1, p.2.2.1, p.2.2.2.1, p.2.2.2.2.1, p.2.2.2.2.2⟩) (fun _ _ => rfl) ?_ (fun _ => rfl)
    fun _ => rfl
  exact fun high => ⟨fun h => ⟨h.chroma, fun hc => h.separate (by simpa using hc), h.luma, h.chromaDepth, trivial,
      fun lists hl => ⟨h.lists lists hl, forall_mem_elim.1 h.signed lists hl⟩⟩,
    fun h => ⟨h.1, fun hc => h.2.1 (by simpa using hc), h.2.2.1, h.2.2.2.1, fun lists hl => (h.2.2.2.2.2 lists hl).1,
      forall_mem_elim.2 fun lists hl => (h.2.2.2.2.2 lists hl).2⟩⟩

/-- **A sequence parameter set is read from its bits**, and in a debug build from no others. -/
theorem sps_reads : Reads view (build = .debug) (readSps build) (Coded (Sps.Fits build) Sps.encode Sps.kept) := by
  refine (byte_reads.seq fun profile _ => byte_reads.seq fun constraints _ => byte_reads.seq fun level _ =>
    ue_reads.seq fun id _ => (if_reads high_reads (profile ∈ Sps.highProfiles)).seq fun high _ =>
      ue_reads.seq fun frameNum _ => picOrder_reads.seq fun order _ => frame_reads.seq fun frame _ =>
        (optional_reads cropping_reads).seq fun crop _ => (optional_reads vui_reads).map
          (Sps.mk profile constraints level id (high.map High.kept) frameNum order.kept frame
            (crop.map fun c => c))).recode
    (fun s => (s.profileIdc, s.constraintFlags, s.levelIdc, s.seqParameterSetId, s.high, s.log2MaxFrameNumMinus4,
      s.picOrder, s.frame, s.cropping, s.vui))
    (fun p => ⟨p.1, p.2.1, p.2.2.1, p.2.2.2.1, p.2.2.2.2.1, p.2.2.2.2.2.1, p.2.2.2.2.2.2.1, p.2.2.2.2.2.2.2.1,
      p.2.2.2.2.2.2.2.2.1, p.2.2.2.2.2.2.2.2.2⟩) (fun _ _ => rfl) ?_ (fun s => ?_) fun s => ?_
  · exact fun s => ⟨fun h => ⟨h.profile, h.constraints, h.level, h.id, ⟨h.isHigh, h.high⟩, h.frameNum, h.picOrder,
      h.frame, h.cropping, h.vui⟩,
      fun ⟨h1, h2, h3, h4, ⟨h5, h6⟩, h7, h8, h9, h10, h11⟩ => ⟨h1, h2, h3, h4, h5, h6, h7, h8, h9, h10, h11⟩⟩
  · rw [Sps.encode]
  · simp only [Option.map_id']
    rfl

end EsParser27

end MyMuxer
