import MyMuxer.Mux.Frames

/-!
# Continuity counters (`mux.rs`)

* `ccBreaks`: how many packets of a PID, none of them with `discontinuity_indicator`, do not continue the
  counter of the payload packet before them.
* `mediaRun_tallied`: in every run of the audio and video arm the muxer counts the breaks among the packets
  without the indicator, as if the others were not there.
* **`countsErrors_iff`**: for which sequences of packets this is the number of breaks.
-/

namespace MyMuxer

/-! ## Breaks -/

/-- The counter of a packet is one more, modulo 16, than that of the packet before it. -/
def Follows (p q : Packet) : Prop := (pktCc q.bytes).toNat = ((pktCc p.bytes).toNat + 1) % 16

instance (p q : Packet) : Decidable (Follows p q) := inferInstanceAs (Decidable (_ = _))

theorem follows_iff {p q : Packet} : Follows p q ↔ pktCc q.bytes = (pktCc p.bytes + 1) &&& 0x0F := by
  have hmask : (((pktCc p.bytes + 1) &&& 0x0F).toNat : ℕ) = ((pktCc p.bytes).toNat + 1) % 16 := by
    rw [UInt8.toNat_and, UInt8.toNat_add]
    change ((pktCc p.bytes).toNat + 1) % 256 &&& (2 ^ 4 - 1) = _
    rw [Nat.and_two_pow_sub_one_eq_mod]
    omega
  rw [Follows, ← hmask, UInt8.toNat_inj]

def signalled (p : Packet) : Bool := pktGetDiscontinuity p.bytes

/-- A packet without the indicator that does not follow the packet before it. -/
def ccBreak (p q : Packet) : Bool := !signalled q && !decide (Follows p q)

/-- How many of the packets do not follow the one before them, and have no indicator. -/
def ccBreaks (packets : List Packet) : ℕ :=
  (packets.zip packets.tail).countP fun x => ccBreak x.1 x.2

/-- Is a packet a break, where `last` was before it? -/
def breaksAfter (last : Option Packet) (q : Packet) : ℕ := last.elim 0 fun p => (ccBreak p q).toNat

theorem ccBreaks_append (packets : List Packet) (q : Packet) :
    ccBreaks (packets ++ [q]) = ccBreaks packets + breaksAfter packets.getLast? q := by
  induction packets with
  | nil => rfl
  | cons p packets ih =>
    have hcons (r : Packet) (rest : List Packet) :
        ccBreaks (p :: r :: rest) = (ccBreak p r).toNat + ccBreaks (r :: rest) := by
      change List.countP _ ((p, r) :: (r :: rest).zip rest) = _
      rw [List.countP_cons, Nat.add_comm, Bool.toNat]
      cases ccBreak p r
      · rfl
      · rfl
    cases packets with
    | nil => exact (hcons q []).trans (Nat.add_comm _ _)
    | cons r rest =>
      rw [List.cons_append] at ih ⊢
      rw [List.cons_append, hcons, hcons, ih, Nat.add_assoc, List.getLast?_cons_cons]

/-! ## The packets of a PID -/

/-- A packet, if it is of a PID and has payload. -/
def payloadOf (pid : UInt16) (x : UInt16 × Packet) : Option Packet :=
  if x.1 = pid ∧ pktHasPayload x.2.bytes = true then some x.2 else none

/-- The payload packets of a PID. -/
def payloads (pid : UInt16) (packets : List (UInt16 × Packet)) : List Packet :=
  packets.filterMap (payloadOf pid)

/-- Those whose counters are checked. -/
def unsignalled (packets : List Packet) : List Packet := packets.filter fun p => !signalled p

theorem unsignalled_append (packets : List Packet) (q : Packet) :
    unsignalled (packets ++ [q]) = if signalled q then unsignalled packets else unsignalled packets ++ [q] := by
  rw [unsignalled, List.filter_append, List.filter_singleton]
  cases signalled q with
  | true => exact List.append_nil _
  | false => rfl

/-- A packet without the indicator is a break unless it follows the packet before it. -/
theorem breaksAfter_eq (last : Option Packet) {q : Packet} (hq : signalled q = false) :
    breaksAfter last q = if ∀ p ∈ last, Follows p q then 0 else 1 := by
  cases last with
  | none => rfl
  | some p =>
    simp only [Option.mem_some_iff, forall_eq']
    rw [breaksAfter, Option.elim, ccBreak, hq]
    by_cases hfollows : Follows p q
    · rw [if_pos hfollows, decide_eq_true hfollows]
      rfl
    · rw [if_neg hfollows, decide_eq_false hfollows]
      rfl

/-- A packet with the indicator is not a break. -/
theorem breaksAfter_signalled (last : Option Packet) {q : Packet} (hq : signalled q = true) :
    breaksAfter last q = 0 := by
  cases last with
  | none => rfl
  | some p =>
    rw [breaksAfter, Option.elim, ccBreak, hq]
    rfl

/-- Each packet without the indicator follows the last payload packet before it exactly if it follows the last
one without the indicator. -/
def FlagsHarmless (packets : List Packet) : Prop :=
  ∀ before q, before ++ [q] <+: packets → signalled q = false →
    ((∀ p ∈ before.getLast?, Follows p q) ↔ ∀ p ∈ (unsignalled before).getLast?, Follows p q)

/-- For how many breaks the packets with the indicator do not matter, wherever one stops to count. -/
theorem breaks_agree_iff (packets : List Packet) :
    (∀ seen, seen <+: packets → ccBreaks (unsignalled seen) = ccBreaks seen) ↔ FlagsHarmless packets := by
  constructor
  · intro hagree before q hpre hq
    have hbefore := hagree before ((List.prefix_append before [q]).trans hpre)
    have hnext := hagree (before ++ [q]) hpre
    rw [unsignalled_append, hq, if_neg (by decide), ccBreaks_append, ccBreaks_append, hbefore,
      Nat.add_left_cancel_iff, breaksAfter_eq _ hq, breaksAfter_eq _ hq] at hnext
    split_ifs at hnext with hlast hlast' hlast'
    · exact iff_of_true hlast' hlast
    · exact iff_of_false hlast' hlast
  · intro hharmless seen
    induction seen using List.reverseRecOn with
    | nil => exact fun _ => rfl
    | append_singleton seen q ih =>
      intro hpre
      have hseen := ih ((List.prefix_append seen [q]).trans hpre)
      rw [unsignalled_append, ccBreaks_append]
      cases hq : signalled q with
      | true => rw [if_pos rfl, hseen, breaksAfter_signalled _ hq, Nat.add_zero]
      | false =>
        rw [if_neg (by decide), ccBreaks_append, hseen, breaksAfter_eq _ hq, breaksAfter_eq _ hq]
        rw [if_congr (hharmless seen q hpre hq) rfl rfl]

namespace PacketHandler

variable {h h' g : PacketHandler} {program : Program} {pid qid : UInt16} {p : Packet}

/-! ## One packet -/

/-- The continuity errors that are counted for a PID. -/
def ccErrorsOf (h : PacketHandler) (pid : UInt16) : ℕ := (h.ccErrors pid).getD 0

theorem updateCc_ccErrorsOf : (h.updateCc pid).ccErrorsOf pid = h.ccErrorsOf pid + 1 := by
  rw [ccErrorsOf, ccErrorsOf, updateCc]
  dsimp only
  rw [Function.update_self]
  cases h.ccErrors pid
  · rfl
  · rfl

theorem push_counters (h : PacketHandler) (program : Program) (pkt : TsPacket) :
    (h.push program pkt).lastCc = h.lastCc ∧ (h.push program pkt).ccErrors = h.ccErrors := by
  rw [push]
  split_ifs
  · exact ⟨rfl, rfl⟩
  · exact ⟨rfl, rfl⟩
  · exact ⟨rfl, rfl⟩

/-- What `check_cc` does with the counter of a payload packet before it keeps it. -/
def ccCompared (h : PacketHandler) (cc : UInt8) (pid : UInt16) : PacketHandler :=
  match h.lastCc pid with
  | some lastCc => if cc ≠ (lastCc + 1) &&& 0x0F then h.updateCc pid else h
  | none => h

theorem checkCc_payload (h : PacketHandler) {packet : Bytes} (hpayload : pktHasPayload packet = true) :
    h.checkCc packet pid = { h.ccCompared (pktCc packet) pid with
      lastCc := Function.update (h.ccCompared (pktCc packet) pid).lastCc pid (some (pktCc packet)) } := by
  rw [checkCc, if_pos hpayload]
  rfl

theorem ccCompared_lastCc (h : PacketHandler) (cc : UInt8) : (h.ccCompared cc pid).lastCc = h.lastCc := by
  rw [ccCompared]
  split
  · split_ifs
    · rfl
    · rfl
  · rfl

theorem ccCompared_other (h : PacketHandler) (cc : UInt8) (hne : qid ≠ pid) :
    (h.ccCompared cc pid).ccErrorsOf qid = h.ccErrorsOf qid := by
  rw [ccCompared]
  split
  · split_ifs
    · rw [ccErrorsOf, updateCc]
      dsimp only
      rw [Function.update_of_ne hne]
      rfl
    · rfl
  · rfl

theorem ccCompared_self (h : PacketHandler) (cc : UInt8) : (h.ccCompared cc pid).ccErrorsOf pid =
    h.ccErrorsOf pid + (h.lastCc pid).elim 0 fun last => if cc = (last + 1) &&& 0x0F then 0 else 1 := by
  rw [ccCompared]
  cases h.lastCc pid with
  | none => rfl
  | some last =>
    dsimp only [Option.elim]
    by_cases hnext : cc = (last + 1) &&& 0x0F
    · rw [if_pos hnext, if_neg (not_not.2 hnext)]
      rfl
    · rw [if_neg hnext, if_pos hnext]
      exact updateCc_ccErrorsOf

/-- The check that the arm makes before it looks at the time stamps. -/
def ccChecked (h : PacketHandler) (p : Packet) (pid : UInt16) : PacketHandler :=
  if signalled p then h else h.checkCc p.bytes pid

theorem processMedia_counters (e : h.processMedia program pid p = .ok h') :
    h'.lastCc = (h.ccChecked p pid).lastCc ∧ h'.ccErrors = (h.ccChecked p pid).ccErrors := by
  obtain ⟨g, lastPtsDts, hg, ⟨-, hs⟩ | ⟨pkt, -, -, hs⟩⟩ := processMedia_eq h program pid p
  · cases e.symm.trans hs
    rw [hg]
    exact ⟨rfl, rfl⟩
  · cases e.symm.trans hs
    obtain ⟨hlast, herrors⟩ := push_counters { g with lastPtsDts } program pkt
    rw [hlast, herrors, hg]
    exact ⟨rfl, rfl⟩

/-- Is the counter of a packet compared with the one before it of a PID? -/
def IsChecked (qid : UInt16) (x : UInt16 × Packet) : Prop :=
  x.1 = qid ∧ pktHasPayload x.2.bytes = true ∧ signalled x.2 = false

instance (qid : UInt16) (x : UInt16 × Packet) : Decidable (IsChecked qid x) := inferInstanceAs (Decidable (_ ∧ _))

/-- Other packets leave the counters of the PID alone. -/
theorem ccChecked_of_not (h : PacketHandler) (hnot : ¬ IsChecked qid (pid, p)) :
    (h.ccChecked p pid).lastCc qid = h.lastCc qid ∧ (h.ccChecked p pid).ccErrorsOf qid = h.ccErrorsOf qid := by
  rw [ccChecked]
  by_cases hflag : signalled p = true
  · rw [if_pos hflag]
    exact ⟨rfl, rfl⟩
  rw [if_neg hflag]
  by_cases hpayload : pktHasPayload p.bytes = true
  · have hne : qid ≠ pid := fun heq => hnot ⟨heq.symm, hpayload, Bool.eq_false_of_not_eq_true hflag⟩
    rw [checkCc_payload h hpayload]
    dsimp only
    rw [Function.update_of_ne hne, ccCompared_lastCc]
    exact ⟨rfl, ccCompared_other h (pktCc p.bytes) hne⟩
  · rw [checkCc, if_neg hpayload]
    exact ⟨rfl, rfl⟩

theorem ccChecked_of_checked (h : PacketHandler) (hchecked : IsChecked qid (pid, p)) :
    (h.ccChecked p pid).lastCc qid = some (pktCc p.bytes) ∧
      (h.ccChecked p pid).ccErrorsOf qid = h.ccErrorsOf qid +
        (h.lastCc qid).elim 0 fun last => if pktCc p.bytes = (last + 1) &&& 0x0F then 0 else 1 := by
  obtain ⟨rfl, hpayload, hflag⟩ := hchecked
  dsimp only at hpayload hflag ⊢
  rw [ccChecked, hflag, if_neg (by decide), checkCc_payload h hpayload]
  dsimp only
  rw [Function.update_self]
  exact ⟨rfl, ccCompared_self h (pktCc p.bytes)⟩

/-! ## Runs -/

/-- The arm of `process` for audio and video takes packets, each with its PID, one after the other. -/
def mediaRun (program : Program) (h : PacketHandler) (packets : List (UInt16 × Packet)) : Rs PacketHandler :=
  packets.foldlM (fun h x => h.processMedia program x.1 x.2) h

/-- The muxer knows the counter of the last packet it checked, and has counted the breaks among these. -/
structure Tallied (h₀ h : PacketHandler) (qid : UInt16) (checked : List Packet) : Prop where
  last : h.lastCc qid = checked.getLast?.map fun p => pktCc p.bytes
  errors : h.ccErrorsOf qid = h₀.ccErrorsOf qid + ccBreaks checked

theorem unsignalled_payloads_append (packets : List (UInt16 × Packet)) (x : UInt16 × Packet) :
    unsignalled (payloads qid (packets ++ [x])) =
      if IsChecked qid x then unsignalled (payloads qid packets) ++ [x.2] else unsignalled (payloads qid packets) := by
  rw [payloads, List.filterMap_append]
  by_cases hpayload : x.1 = qid ∧ pktHasPayload x.2.bytes = true
  · have hsome : payloadOf qid x = some x.2 := if_pos hpayload
    rw [List.filterMap_cons_some hsome, List.filterMap_nil, unsignalled_append]
    cases hflag : signalled x.2 with
    | true =>
      rw [if_pos rfl, if_neg fun hchecked => absurd (hflag.symm.trans hchecked.2.2) (by decide)]
      rfl
    | false =>
      rw [if_neg (by decide), if_pos ⟨hpayload.1, hpayload.2, hflag⟩]
      rfl
  · have hnone : payloadOf qid x = none := if_neg hpayload
    rw [List.filterMap_cons_none hnone, List.filterMap_nil, List.append_nil,
      if_neg fun hchecked => hpayload ⟨hchecked.1, hchecked.2.1⟩]
    rfl

theorem Tallied.step {h₀ : PacketHandler} {checked : List Packet} (t : Tallied h₀ h qid checked)
    (e : h.processMedia program pid p = .ok h') :
    Tallied h₀ h' qid (if IsChecked qid (pid, p) then checked ++ [p] else checked) := by
  obtain ⟨hlast, herrors⟩ := processMedia_counters e
  have hcount : h'.ccErrorsOf qid = (h.ccChecked p pid).ccErrorsOf qid := by
    rw [ccErrorsOf, herrors]
    rfl
  by_cases hchecked : IsChecked qid (pid, p)
  · obtain ⟨hcc, hbreak⟩ := ccChecked_of_checked h hchecked
    rw [if_pos hchecked]
    refine ⟨?_, ?_⟩
    · rw [hlast, hcc, List.getLast?_concat]
      rfl
    · rw [hcount, hbreak, t.errors, t.last, ccBreaks_append, Nat.add_assoc, breaksAfter_eq _ hchecked.2.2]
      cases checked.getLast? with
      | none => rfl
      | some last =>
        simp only [Option.map_some, Option.elim, Option.mem_some_iff, forall_eq', follows_iff]
  · obtain ⟨hcc, hcount'⟩ := ccChecked_of_not h hchecked
    rw [if_neg hchecked]
    exact ⟨by rw [hlast, hcc, t.last], by rw [hcount, hcount', t.errors]⟩

/-- **What the muxer counts.** -/
theorem mediaRun_tallied (program : Program) (hfirst : h.lastCc qid = none) (packets : List (UInt16 × Packet)) :
    ∃ h', h.mediaRun program packets = .ok h' ∧ Tallied h h' qid (unsignalled (payloads qid packets)) := by
  induction packets using List.reverseRecOn with
  | nil => exact ⟨h, rfl, hfirst, rfl⟩
  | append_singleton packets x ih =>
    obtain ⟨g, hrun, htallied⟩ := ih
    obtain ⟨h', hstep⟩ : ∃ h', g.processMedia program x.1 x.2 = .ok h' := by
      obtain ⟨g', lastPtsDts, -, ⟨-, hs⟩ | ⟨pkt, -, -, hs⟩⟩ := processMedia_eq g program x.1 x.2
      · exact ⟨_, hs⟩
      · exact ⟨_, hs⟩
    refine ⟨h', ?_, ?_⟩
    · rw [mediaRun, List.foldlM_append]
      change h.mediaRun program packets >>= _ = _
      rw [hrun, ok_bind, List.foldlM_cons, hstep, ok_bind]
      rfl
    · rw [unsignalled_payloads_append]
      exact htallied.step hstep

/-- Wherever the sequence is stopped, the muxer has counted as many errors for the PID as there were breaks
among its payload packets. -/
def CountsErrors (program : Program) (h : PacketHandler) (pid : UInt16) (packets : List (UInt16 × Packet)) : Prop :=
  ∀ seen, seen <+: packets → ∃ h', h.mediaRun program seen = .ok h' ∧
    h'.ccErrorsOf pid = h.ccErrorsOf pid + ccBreaks (payloads pid seen)

/-- The breaks are counted where those among the packets without the indicator are all there are. -/
theorem CountsErrors.agree {packets seen : List (UInt16 × Packet)} (hcounts : CountsErrors program h pid packets)
    (hfirst : h.lastCc pid = none) (hpre : seen <+: packets) :
    ccBreaks (unsignalled (payloads pid seen)) = ccBreaks (payloads pid seen) := by
  obtain ⟨h', hrun, hcount⟩ := hcounts seen hpre
  obtain ⟨g, hrun', htallied⟩ := mediaRun_tallied program hfirst seen
  cases hrun.symm.trans hrun'
  exact Nat.add_left_cancel (htallied.errors.symm.trans hcount)

/-- **The breaks are counted exactly where packets with the indicator do not matter for the others.** -/
theorem countsErrors_iff (program : Program) (hfirst : h.lastCc pid = none) (packets : List (UInt16 × Packet)) :
    CountsErrors program h pid packets ↔ FlagsHarmless (payloads pid packets) := by
  rw [← breaks_agree_iff]
  constructor
  · intro hcounts seen hpre
    obtain ⟨taken, htaken, rfl⟩ := List.prefix_filterMap_iff.1 hpre
    exact hcounts.agree hfirst htaken
  · intro hagree seen hpre
    obtain ⟨h', hrun, htallied⟩ := mediaRun_tallied program hfirst seen
    refine ⟨h', hrun, ?_⟩
    rw [htallied.errors, hagree (payloads pid seen) (hpre.filterMap _)]

/-- A packet with a counter and payload, with the indicator or without. -/
def mediaPacket (discontinuity : Bool) (cc : UInt8) : UInt16 × Packet :=
  (0x100, Packet.ofBytes ([0x47, 0x01, 0x00] ++ if discontinuity then [0x30 + cc, 0x01, 0x80] else [0x10 + cc]))

/-- A packet with the indicator that repeats a counter, and a packet that is lost behind it. -/
theorem countsErrors_iff_sample : ∃ h₀, new Env.sample sampleOutput = some h₀ ∧
    CountsErrors sampleProgram h₀ 0x100 [mediaPacket false 0, mediaPacket true 0, mediaPacket false 2] := by
  refine ⟨_, rfl, (countsErrors_iff sampleProgram rfl _).2 ?_⟩
  rw [← breaks_agree_iff]
  intro seen hpre
  rw [← List.mem_inits] at hpre
  revert seen
  decide +kernel

/-- A packet with the indicator and a new counter, which the next packet continues: an error is counted. -/
theorem indicator_counted : ∃ h₀, new Env.sample sampleOutput = some h₀ ∧
    ¬ CountsErrors sampleProgram h₀ 0x100 [mediaPacket false 0, mediaPacket true 5, mediaPacket false 6] := by
  refine ⟨_, rfl, fun hcounts => ?_⟩
  exact absurd (hcounts.agree rfl List.prefix_rfl) (by decide +kernel)

end PacketHandler

end MyMuxer
