import MyMuxer.Lib.View
import MyMuxer.Mux.Announced
import MyMuxer.Mux.Settled

/-!
# Packets of other programs

* `Own`: the PIDs that `process` tests for; `processPid_aside`: what its arms leave alone.
* `nextCa`: what every packet does to `dirty_ca`; **`watch`**: the packets of other programs do no more.
* `processTs_inBuff`: no packet depends on what is left of the input.
-/

namespace MyMuxer

open View

/-- PAT, PMT, SDT, audio and video. -/
def Own (program : Program) (pid : UInt16) : Prop :=
  pid = 0x0000 ∨ pid = program.pmtPid ∨ pid = 0x0011 ∨ Named program pid

instance (program : Program) (pid : UInt16) : Decidable (Own program pid) :=
  inferInstanceAs (Decidable (_ ∨ _ ∨ _ ∨ _))

/-- The value of `dirty_ca` after a packet: that of before, where the packet goes to the descrambler, else
whether the packet is scrambled, whatever its PID. -/
def nextCa (program : Program) (biss : Bool) (ca : Bool) (p : Packet) : Bool :=
  if biss = true ∧ Named program (pktPid p.bytes) then ca else decide (pktScramblingControl p.bytes ≠ 0)

namespace PacketHandler

variable {env : Env} {program : Program} {pid : UInt16} {h h' : PacketHandler} {p : Packet}

/-! ## What a packet leaves alone -/

theorem push_aside (h : PacketHandler) (program : Program) (pkt : TsPacket) : Aside h (h.push program pkt) := by
  rw [push]
  split_ifs <;> exact ⟨rfl, rfl, rfl, rfl, rfl⟩

theorem processMedia_aside (e : h.processMedia program pid p = .ok h') : Aside h h' := by
  obtain ⟨lastPtsDts, lastCc, ccErrors, rfl | ⟨pkt, -, -, rfl⟩⟩ := processMedia_cases e
  · exact ⟨rfl, rfl, rfl, rfl, rfl⟩
  · have s := push_aside { h with lastPtsDts, lastCc, ccErrors } program pkt
    exact ⟨s.output, s.biss, s.dirtyCa, s.isSync, s.inBuff⟩

theorem processPid_aside (e : h.processPid env program pid p = .ok h') : Aside h h' := by
  obtain rfl | ⟨t, rfl, -⟩ | ⟨-, e⟩ := processPid_cases e
  · exact .refl _
  · exact ⟨rfl, rfl, rfl, rfl, rfl⟩
  · exact processMedia_aside e

/-- The match on the PID leaves all other packets alone. -/
theorem processPid_foreign (hf : ¬ Own program pid) : h.processPid env program pid p = .ok h := by
  simp only [Own, not_or] at hf
  obtain ⟨hpat, hpmt, hsdt, hn⟩ := hf
  rw [processPid, if_neg hpat, if_neg (not_and.2 fun h => absurd h hpmt), if_neg hsdt, if_neg (mt Or.symm hn)]
  split_ifs <;> rfl

/-! ## The scrambling check -/

/-- A packet that is not descrambled sets `dirty_ca` before its PID is tested. -/
theorem processTs_checked (hprog : h.getProgram = .ok program)
    (hc : ¬ (h.biss.isSome = true ∧ Named program (pktPid p.bytes))) :
    h.processTs env p = if pktScramblingControl p.bytes ≠ 0 then .ok { h with dirtyCa := true }
      else processPid env { h with dirtyCa := false } program (pktPid p.bytes) p := by
  rw [processTs, hprog, ok_bind]
  split
  · rename_i hbiss hn
    rw [hbiss] at hc
    exact absurd ⟨rfl, of_decide_eq_true hn⟩ hc
  · rfl

theorem nextCa_checked {ca : Bool} (hc : ¬ (h.biss.isSome = true ∧ Named program (pktPid p.bytes))) :
    nextCa program h.biss.isSome ca p = decide (pktScramblingControl p.bytes ≠ 0) := if_neg hc

theorem processTs_aside (hprog : h.getProgram = .ok program) (e : h.processTs env p = .ok h') :
    Aside { h with dirtyCa := nextCa program h.biss.isSome h.dirtyCa p } h' := by
  by_cases hc : h.biss.isSome = true ∧ Named program (pktPid p.bytes)
  · obtain ⟨b, hb⟩ := Option.isSome_iff_exists.1 hc.1
    have hca : nextCa program h.biss.isSome h.dirtyCa p = h.dirtyCa := if_pos hc
    rw [hca]
    rw [processTs, hprog, ok_bind] at e
    split at e
    · exact processPid_aside e
    · rename_i hne
      exact absurd (decide_eq_true hc.2) (hne b hb)
  · rw [nextCa_checked hc]
    rw [processTs_checked hprog hc] at e
    split_ifs at e with hs
    · cases e
      rw [decide_eq_true hs]
      exact .refl _
    · rw [decide_eq_false hs]
      exact processPid_aside e

/-- A handler in sync that has taken all of its input. -/
structure InSync (program : Program) (biss : Bool) (h : PacketHandler) : Prop where
  program_eq : h.getProgram = .ok program
  biss_eq : h.biss.isSome = biss
  isSync : h.isSync = true
  inBuff : h.inBuff = []
  armed : Armed h

theorem InSync.aside {biss : Bool} (i : InSync program biss h) (s : Aside h h') (a : Armed h') :
    InSync program biss h' where
  program_eq := by
    rw [getProgram, s.output]
    exact i.program_eq
  biss_eq := (congrArg Option.isSome s.biss).trans i.biss_eq
  isSync := s.isSync.trans i.isSync
  inBuff := s.inBuff.trans i.inBuff
  armed := a

/-- The steps of `process`, with the flag that every packet may touch. -/
def watch (env : Env) (program : Program) (biss : Bool) : Machine PacketHandler Packet Bool Panic where
  step := processTs env
  flag h := h.dirtyCa
  setFlag dirtyCa h := { h with dirtyCa }
  next := nextCa program biss
  Seen p := Own program (pktPid p.bytes)
  decSeen := fun _ => inferInstance
  Inv := InSync program biss
  flag_setFlag _ _ := rfl
  setFlag_flag _ := rfl
  setFlag_setFlag _ _ _ := rfl
  setFlag_inv i _ := ⟨i.program_eq, i.biss_eq, i.isSync, i.inBuff, i.armed⟩
  step_unseen := by
    intro h p i hf
    have hc : ¬ (h.biss.isSome = true ∧ Named program (pktPid p.bytes)) :=
      fun hc => hf (.inr (.inr (.inr hc.2)))
    rw [processTs_checked i.program_eq hc, ← i.biss_eq, nextCa_checked hc, processPid_foreign hf]
    split_ifs with hs
    · rw [decide_eq_true hs]
    · rw [decide_eq_false hs]
  step_seen := by
    intro h p i _
    rw [← i.biss_eq]
    by_cases hc : h.biss.isSome = true ∧ Named program (pktPid p.bytes)
    · rw [show nextCa program h.biss.isSome h.dirtyCa p = h.dirtyCa from if_pos hc]
    · rw [processTs_checked i.program_eq hc,
        processTs_checked (h := { h with dirtyCa := nextCa program h.biss.isSome h.dirtyCa p }) i.program_eq hc]
  step_inv := by
    intro h p h' i e
    have s := processTs_aside i.program_eq e
    have i' : InSync program biss { h with dirtyCa := nextCa program h.biss.isSome h.dirtyCa p } :=
      ⟨i.program_eq, i.biss_eq, i.isSync, i.inBuff, i.armed⟩
    exact ⟨i'.aside s ((processTs_taken i.armed e).armed i.armed), i.biss_eq ▸ s.dirtyCa⟩

/-! ## The input buffer -/

theorem checkCc_inBuff (h : PacketHandler) (inBuff packet : Bytes) (pid : UInt16) :
    { h with inBuff }.checkCc packet pid = { h.checkCc packet pid with inBuff } := by
  simp only [checkCc, updateCc]
  split_ifs
  · split
    · split_ifs <;> rfl
    · rfl
  · rfl

theorem push_inBuff (h : PacketHandler) (inBuff : Bytes) (program : Program) (pkt : TsPacket) :
    { h with inBuff }.push program pkt = { h.push program pkt with inBuff } := by
  rw [push, push]
  split_ifs <;> rfl

theorem processMedia_inBuff (h : PacketHandler) (inBuff : Bytes) :
    { h with inBuff }.processMedia program pid p =
      (h.processMedia program pid p).map fun h' => { h' with inBuff } := by
  have hcc : (if pktGetDiscontinuity p.bytes then { h with inBuff } else
      { h with inBuff }.checkCc p.bytes pid) =
      { (if pktGetDiscontinuity p.bytes then h else h.checkCc p.bytes pid) with inBuff } := by
    rw [checkCc_inBuff]
    split_ifs <;> rfl
  obtain ⟨stamp, hstamp⟩ := pktPtsDts_ok p pid
  rw [processMedia, processMedia]
  dsimp only
  rw [hcc, hstamp, ok_bind, ok_bind]
  generalize (if pktGetDiscontinuity p.bytes then h else h.checkCc p.bytes pid) = g
  cases stamp with
  | none =>
    dsimp only
    cases g.lastPtsDts pid with
    | none => rfl
    | some last => exact congrArg Except.ok (push_inBuff ..)
  | some stamp =>
    obtain ⟨pts, dts⟩ := stamp
    dsimp only
    rw [Function.update_self]
    exact congrArg Except.ok
      (push_inBuff { g with lastPtsDts := Function.update g.lastPtsDts pid (some (pts, dts)) } ..)

theorem processPid_inBuff (env : Env) (h : PacketHandler) (inBuff : Bytes) :
    { h with inBuff }.processPid env program pid p =
      (h.processPid env program pid p).map fun h' => { h' with inBuff } := by
  have hdirty : isDirty { h with inBuff } = h.isDirty := rfl
  rw [processPid, processPid, processMedia_inBuff, hdirty]
  dsimp only
  split_ifs
  · rfl
  · cases h.tables.processPat env program p <;> rfl
  · rfl
  · cases h.tables.processPmt env h.output program p <;> rfl
  · rfl
  · cases h.tables.processSdt env program p <;> rfl
  · rfl
  · rfl
  · rfl

/-- No packet depends on what is left of the input. -/
theorem processTs_inBuff (env : Env) (h : PacketHandler) (inBuff : Bytes) (p : Packet) :
    { h with inBuff }.processTs env p = (h.processTs env p).map fun h' => { h' with inBuff } := by
  rw [processTs, processTs]
  change (h.getProgram >>= _) = _
  cases h.getProgram with
  | error x => rfl
  | ok program =>
    rw [ok_bind, ok_bind]
    dsimp only
    split
    · exact processPid_inBuff ..
    · split_ifs
      · rfl
      · exact processPid_inBuff env { h with dirtyCa := false } inBuff

end PacketHandler

end MyMuxer
