import MyMuxer.Mux.Ready

/-!
# Readiness, decided once

* `Undecided`, `tryStart`: when the end of `process` does something, and what.
* `Aside`: what neither a packet nor the end of `process` touches; `becomeReady_aside`.
* **`becomeReady_settled`**: deciding once more changes nothing; `Settled.clear`: nor does giving up the queues.
-/

namespace MyMuxer

namespace PacketHandler

variable {env : Env} {program : Program} {pid : UInt16} {h h' : PacketHandler} {p : Packet}

/-! ## The end of `process` -/

/-- The end of `process` has something to decide. -/
structure Undecided (h : PacketHandler) : Prop where
  clean : h.isDirty = false
  isReady : h.isReady = false
  pat : h.tables.patReady = true
  pmt : h.tables.pmtReady = true

/-- What is decided once there is an SDT. -/
def tryStart (env : Env) (h : PacketHandler) : PacketHandler :=
  match h.outBuffV.front, h.outBuffV.back with
  | some first, some last =>
    if dtsAfter first.dts last.dts then h.buffersClear
    else (h.probeBitrate env).2.startOutput env (h.probeBitrate env).1
  | _, _ => h

theorem becomeReady_undecided (u : Undecided h) : h.becomeReady env = do
    let g ← h.fillSdt env
    return g.tryStart env := by
  rw [becomeReady, u.clean, u.isReady, u.pat, u.pmt, if_neg (by decide), if_neg (by decide), if_neg (by decide)]
  cases h.fillSdt env with
  | error x => rfl
  | ok g =>
    rw [ok_bind, ok_bind, tryStart]
    cases g.outBuffV.front with
    | none => rfl
    | some first =>
      cases g.outBuffV.back with
      | none => rfl
      | some last =>
        dsimp only
        split_ifs
        · rfl
        · rfl

theorem becomeReady_decided (hu : ¬ Undecided h) : h.becomeReady env = .ok h := by
  rw [becomeReady]
  split_ifs with h1 h2 h3
  · rfl
  · rfl
  · rfl
  · simp only [not_or, Bool.not_eq_true, Bool.not_eq_false] at h1 h2 h3
    exact absurd ⟨h1, h2, h3.1, h3.2⟩ hu

theorem fillSdt_self (hs : h.tables.sdtReady = true) : h.fillSdt env = .ok h := by
  rw [fillSdt, hs, if_neg (by decide)]
  rfl

/-! ## What is left alone -/

/-- The fields that neither the match on the PID nor the end of `process` touches. -/
structure Aside (h h' : PacketHandler) : Prop where
  output : h'.output = h.output
  biss : h'.biss = h.biss
  dirtyCa : h'.dirtyCa = h.dirtyCa
  isSync : h'.isSync = h.isSync
  inBuff : h'.inBuff = h.inBuff

theorem Aside.refl (h : PacketHandler) : Aside h h := ⟨rfl, rfl, rfl, rfl, rfl⟩

theorem Aside.trans {h₁ h₂ h₃ : PacketHandler} (s : Aside h₁ h₂) (t : Aside h₂ h₃) : Aside h₁ h₃ where
  output := t.output.trans s.output
  biss := t.biss.trans s.biss
  dirtyCa := t.dirtyCa.trans s.dirtyCa
  isSync := t.isSync.trans s.isSync
  inBuff := t.inBuff.trans s.inBuff

theorem startOutput_aside (env : Env) (h : PacketHandler) (bitrate : ℕ) :
    Aside h (h.startOutput env bitrate) := by
  rw [startOutput]
  split_ifs
  · obtain ⟨v, a, hg⟩ := bufferAdjustLoop_eq (h.outBuffV.len + h.outBuffA.len) h
    rw [bufferAdjust, hg]
    dsimp only
    split
    · exact ⟨rfl, rfl, rfl, rfl, rfl⟩
    · exact ⟨rfl, rfl, rfl, rfl, rfl⟩
  · exact .refl h

/-- The probe sets the bitrate of the clock, if anything. -/
theorem probeBitrate_eq (env : Env) (h : PacketHandler) :
    ∃ pcrRestamper, (h.probeBitrate env).2 = { h with pcrRestamper } := by
  rw [probeBitrate]
  dsimp only
  split_ifs
  · exact ⟨_, rfl⟩
  · exact ⟨h.pcrRestamper, rfl⟩

theorem tryStart_aside (h : PacketHandler) : Aside h (h.tryStart env) := by
  rw [tryStart]
  split
  · split_ifs
    · exact ⟨rfl, rfl, rfl, rfl, rfl⟩
    · obtain ⟨r, e⟩ := probeBitrate_eq env h
      have s := startOutput_aside env (h.probeBitrate env).2 (h.probeBitrate env).1
      rw [e] at s ⊢
      exact ⟨s.output, s.biss, s.dirtyCa, s.isSync, s.inBuff⟩
  · exact .refl h

theorem fillSdt_aside (e : h.fillSdt env = .ok h') : Aside h h' := by
  rw [fillSdt] at e
  split_ifs at e
  · obtain ⟨program, -, e⟩ := bind_eq_ok.1 e
    obtain ⟨t, -, e⟩ := bind_eq_ok.1 e
    cases e
    exact ⟨rfl, rfl, rfl, rfl, rfl⟩
  · cases e
    exact .refl h

theorem becomeReady_aside (e : h.becomeReady env = .ok h') : Aside h h' := by
  by_cases u : Undecided h
  · rw [becomeReady_undecided u] at e
    obtain ⟨g, hg, e⟩ := bind_eq_ok.1 e
    cases e
    exact (fillSdt_aside hg).trans (tryStart_aside g)
  · rw [becomeReady_decided u] at e
    cases e
    exact .refl h

/-! ## Once more -/

/-- Nothing is left to decide. -/
structure Settled (env : Env) (h : PacketHandler) : Prop where
  again : h.becomeReady env = .ok h
  sdt : h.isDirty = false → h.tables.patReady = true → h.tables.pmtReady = true → h.tables.sdtReady = true

/-- The bitrate is probed once. -/
theorem probeBitrate_again (env : Env) (h : PacketHandler) :
    (h.probeBitrate env).2.probeBitrate env = h.probeBitrate env := by
  by_cases h0 : h.getBitrate.getD 0 = 0 ∧ h.outBuffV.durationMs ≥ 5000
  · generalize hb : env.probeBitrate ((h.outBuffV.size + h.outBuffA.size) * 8 / h.outBuffV.durationMs) = b
    have e : h.probeBitrate env = (b, { h with pcrRestamper := h.pcrRestamper.map fun r =>
        if r.targetBitrateBps = 0 then { r with targetBitrateBps := b } else r }) := by
      rw [probeBitrate, ← hb]
      exact if_pos h0
    have h5 := h0.2
    rw [e, probeBitrate]
    dsimp only
    rw [hb]
    cases hr : h.pcrRestamper with
    | none => exact if_pos ⟨rfl, h5⟩
    | some r =>
      have hr0 : r.targetBitrateBps = 0 := by simpa [getBitrate, hr] using h0.1
      simp only [getBitrate, Option.map_some, Option.getD_some, hr0, if_true]
      split_ifs with hb0 hb1
      · rfl
      · exact absurd hb0.1 hb1
      · rfl
  · have e : h.probeBitrate env = (h.getBitrate.getD 0, h) := by
      rw [probeBitrate]
      exact if_neg h0
    rw [e]
    exact e

theorem tryStart_tables (env : Env) (h : PacketHandler) : (h.tryStart env).tables = h.tables := by
  rw [tryStart]
  split
  · split_ifs
    · rfl
    · obtain ⟨r, e⟩ := probeBitrate_eq env h
      rw [startOutput_tables, e]
  · rfl

theorem tryStart_of_front (hf : h.outBuffV.front = none) : h.tryStart env = h := by
  rw [tryStart, hf]

/-- Where output does not start, the next decision is the same. -/
theorem tryStart_again (hr : (h.tryStart env).isReady = false) :
    (h.tryStart env).tryStart env = h.tryStart env := by
  cases hf : h.outBuffV.front with
  | none => rw [tryStart_of_front hf, tryStart_of_front hf]
  | some first =>
    cases hb : h.outBuffV.back with
    | none =>
      have e : h.tryStart env = h := by rw [tryStart, hf, hb]
      rw [e, e]
    | some last =>
      by_cases hd : dtsAfter first.dts last.dts = true
      · have e : h.tryStart env = h.buffersClear := by
          rw [tryStart, hf, hb]
          exact if_pos hd
        rw [e]
        exact tryStart_of_front rfl
      · have e : h.tryStart env = (h.probeBitrate env).2.startOutput env (h.probeBitrate env).1 := by
          rw [tryStart, hf, hb]
          exact if_neg hd
        obtain ⟨r, hg⟩ := probeBitrate_eq env h
        rw [e] at hr ⊢
        rw [startOutput] at hr ⊢
        split_ifs with hs
        · rw [if_pos hs] at hr
          dsimp only at hr ⊢
          split at hr
          · cases hr
          · rename_i hnone
            exact tryStart_of_front hnone
        · -- the queues, hence the probe and the decision, are as they were
          have e' : (h.probeBitrate env).2.tryStart env =
              (h.probeBitrate env).2.startOutput env (h.probeBitrate env).1 := by
            rw [tryStart, probeBitrate_again, hg]
            dsimp only
            rw [hf, hb]
            exact if_neg hd
          rw [e', startOutput, if_neg hs]

/-- **To decide once more changes nothing.** -/
theorem becomeReady_settled (a : Armed h) (e : h.becomeReady env = .ok h') : Settled env h' := by
  by_cases u : Undecided h
  · rw [becomeReady_undecided u] at e
    obtain ⟨g, hg, e⟩ := bind_eq_ok.1 e
    cases e
    obtain ⟨-, -, -, -, hsdt⟩ := fillSdt_steps hg
    have hsdt' : (g.tryStart env).tables.sdtReady = true := by rw [tryStart_tables, hsdt]
    refine ⟨?_, fun _ _ _ => hsdt'⟩
    by_cases u' : Undecided (g.tryStart env)
    · rw [becomeReady_undecided u', fillSdt_self hsdt', ok_bind, tryStart_again u'.isReady]
      rfl
    · exact becomeReady_decided u'
  · have e' : h.becomeReady env = .ok h := becomeReady_decided u
    rw [e'] at e
    cases e
    refine ⟨e', fun hclean hpat hpmt => ?_⟩
    cases hr : h.isReady with
    | true => exact (a hr).1 .sdt
    | false => exact absurd ⟨hclean, hr, hpat, hpmt⟩ u

theorem Settled.clear (s : Settled env h) : Settled env h.buffersClear := by
  refine ⟨?_, s.sdt⟩
  by_cases u : Undecided h.buffersClear
  · rw [becomeReady_undecided u, fillSdt_self (h := h.buffersClear) (s.sdt u.clean u.pat u.pmt),
      ok_bind, tryStart_of_front rfl]
    rfl
  · exact becomeReady_decided u

end PacketHandler

end MyMuxer
