import MyMuxer.Lib.Log
import MyMuxer.Mux.Frames

/-!
# The period of the PAT

* `patTimer`: the PAT timer as the calls of `flush_psi_packets` left it.
* `PatLaw`: the invariant. What such a call makes of the timer.
* **`pat_period`**: when the PAT is in time; `pat_not_in_time`: a clock set back stops it.
-/

namespace MyMuxer

namespace PacketHandler

def setsPatTimer (timer : Option ℕ) : Event → Option ℕ
  | .flushPsi _ _ _ after => after
  | _ => timer

/-- The time of the last PAT insertion. -/
def patTimer (history : List Event) : Option ℕ := history.foldl setsPatTimer none

theorem patTimer_append (history : List Event) (ev : Event) :
    patTimer (history ++ [ev]) = setsPatTimer (patTimer history) ev := by
  simp [patTimer]

/-- `flush_psi_packets` inserts a PAT at the clock value `pcr` when there was none, or when its period is
over. -/
def PatLaw (before : List Event) (ev : Event) : Prop :=
  ∀ pcr timer after, ev = .flushPsi true (some pcr) timer after → timer = patTimer before ∧
    after = if insertDue (some pcr) timer periodPatMs then some pcr else timer

structure PatTimed (h : PacketHandler) : Prop where
  timer : h.timers.insertPat = patTimer h.history
  law : Log.Each PatLaw h.history

/-! ## Steps -/

theorem PatTimed.keep {h h' : PacketHandler} (o : h.PatTimed) (ht : h'.timers = h.timers)
    (hh : h'.history = h.history) : h'.PatTimed :=
  ⟨by rw [ht, hh]; exact o.timer, by rw [hh]; exact o.law⟩

/-- An event that is no call of `flush_psi_packets`. -/
theorem PatTimed.note {h h' : PacketHandler} {ev : Event} (o : h.PatTimed) (ht : h'.timers = h.timers)
    (hh : h'.history = h.history ++ [ev]) (hev : ∀ b p t a, ev ≠ .flushPsi b p t a) : h'.PatTimed := by
  have hset : setsPatTimer (patTimer h.history) ev = patTimer h.history := by
    cases ev with
    | flushPsi => exact absurd rfl (hev _ _ _ _)
    | _ => rfl
  exact ⟨by rw [ht, hh, patTimer_append, hset]; exact o.timer,
    by rw [hh]; exact o.law.snoc fun _ _ _ he => absurd he (hev _ _ _ _)⟩

/-- What a call of `flush_psi_packets` makes of the PAT timer. -/
theorem flushPsi_timer {h h' : PacketHandler} {k : Option Table} (e : h.flushPsiPackets = (k, h')) :
    h'.timers.insertPat = (if h.due .pat then h.getPcr else h.timers.insertPat) ∧
      h'.history = h.history ++
        [.flushPsi h.tables.patReady h.getPcr h.timers.insertPat h'.timers.insertPat] := by
  cases k with
  | none =>
    obtain ⟨hdue, rfl⟩ := flushPsi_none e
    rw [hdue .pat]
    exact ⟨rfl, rfl⟩
  | some k =>
    obtain ⟨hdue, hother, rfl⟩ := flushPsi_some e
    refine ⟨?_, rfl⟩
    cases k with
    | pat => rw [hdue]; rfl
    | pmt => rw [hother (by decide)]; rfl
    | sdt => rw [hother (by decide)]; rfl

theorem flushPsi_patTimed {h h' : PacketHandler} {k : Option Table} (e : h.flushPsiPackets = (k, h'))
    (o : h.PatTimed) : h'.PatTimed := by
  obtain ⟨ht, hh⟩ := flushPsi_timer e
  refine ⟨by rw [hh, patTimer_append]; rfl, ?_⟩
  rw [hh]
  refine o.law.snoc fun pcr timer after he => ?_
  injection he with hready hpcr htimer hafter
  refine ⟨htimer ▸ o.timer, ?_⟩
  rw [← hafter, ht, due, Tables.ready, hready, Bool.true_and, ← htimer, hpcr]
  rfl

theorem PatTimed.popped {h h' : PacketHandler} {pkt : TsPacket} (o : h.PatTimed) (hp : h.Popped pkt h') :
    h'.PatTimed := by
  obtain ⟨v, a, rfl⟩ := popped_eq hp
  exact o.keep rfl rfl

theorem mux_patTimed {h h' : PacketHandler} (s : MuxStep h h') (o : h.PatTimed) : h'.PatTimed := by
  cases s with
  | input | tables | bitrate => exact o.keep rfl rfl
  | push =>
    rw [PacketHandler.push]
    split_ifs
    · exact o.note rfl rfl fun _ _ _ _ h => by cases h
    · exact o.note rfl rfl fun _ _ _ _ h => by cases h
    · exact o
  | clear | ready | null => exact o.note rfl rfl fun _ _ _ _ h => by cases h
  | drop _ hp => exact o.popped hp
  | flushPsi _ e => exact flushPsi_patTimed e o
  | table _ e => exact (flushPsi_patTimed e o).note rfl rfl fun _ _ _ _ h => by cases h
  | queued _ hp he =>
    obtain ⟨_, r, -, -, rfl, -⟩ := processPacket_eq he
    have hcount : (h.countSent 1).PatTimed := o.keep rfl rfl
    exact (hcount.popped hp).note rfl rfl fun _ _ _ _ h => by cases h

theorem vbr_patTimed {h h' : PacketHandler} (s : VbrStep h h') (o : h.PatTimed) : h'.PatTimed := by
  cases s with
  | table _ e => exact (flushPsi_patTimed e o).note rfl rfl fun _ _ _ _ h => by cases h
  | queued _ hp => exact (o.popped hp).note rfl rfl fun _ _ _ _ h => by cases h
  | clock | frame => exact o.keep rfl rfl

/-! ## Runs -/

/-- The PAT timer and the clock after a call of `flush_psi_packets`: the PAT is in time. -/
def InTime (pcr : ℕ) (timer : Option ℕ) : Prop :=
  ∃ t, timer = some t ∧ pcrSub pcr t ≤ periodPatMs * 27000

/-- **When the PAT is in time.** In every run and after every call of `flush_psi_packets` with the PAT
cached and the clock known, the last insertion is no longer ago than the period, if and only if there was
none before or the clock is not behind it: not half a cycle and a period ahead, or more. -/
theorem pat_period {env : Env} {output : Output} {ops : List Op} {outs : List (Option Bytes)}
    {h : PacketHandler} (hrun : runNew env output ops = .ok (outs, h)) {pre post : List Event} {pcr : ℕ}
    {timer after : Option ℕ} (hh : h.history = pre ++ .flushPsi true (some pcr) timer after :: post) :
    timer = patTimer pre ∧
      (InTime pcr after ↔ ∀ t, timer = some t → pcrSub pcr t < pcrHalf + periodPatMs * 27000) := by
  obtain ⟨h₀, f, hrun⟩ := runNew_eq_ok hrun
  have start : h₀.PatTimed := ⟨by rw [f.insertPat, f.history]; rfl, by rw [f.history]; exact .nil⟩
  have o := steps_invariant (run_steps hrun).1 start fun s o => s.elim (mux_patTimed · o) (vbr_patTimed · o)
  obtain ⟨htimer, hafter⟩ := o.law pre _ post hh pcr timer after rfl
  refine ⟨htimer, ?_⟩
  cases timer with
  | none =>
    have : after = some pcr := hafter
    simp [InTime, this, pcrSub_self]
  | some t =>
    have hlimit : periodPatMs * 27000 < pcrHalf := by decide
    have hiff := pcrAfter_add pcr t hlimit
    rw [insertDue] at hafter
    cases hlate : pcrAfter pcr (pcrAdd t (periodPatMs * 27000)) with
    | true =>
      rw [hlate, if_pos rfl] at hafter
      have := hiff.1 hlate
      simp [InTime, hafter, pcrSub_self, this.2]
    | false =>
      rw [hlate, if_neg (by decide)] at hafter
      have hnot : ¬ (periodPatMs * 27000 < pcrSub pcr t ∧ pcrSub pcr t < pcrHalf + periodPatMs * 27000) :=
        fun h => absurd (hlate.symm.trans (hiff.2 h)) (by decide)
      simp only [InTime, hafter, Option.some.injEq, exists_eq_left', forall_eq']
      omega

/-- The second video packet is ten seconds back. -/
def backOps : List Op :=
  [.write (sampleChunk [sampleVideo true 0 9000000]), .write (sampleVideo true 1 8100000).bytes] ++
  List.replicate 6 .flushPacketForCbr

/-- A call of `flush_psi_packets`: the clock, and the timer before and after. -/
def psiCall : Event → Option (ℕ × Option ℕ × Option ℕ)
  | .flushPsi true (some pcr) timer after => some (pcr, timer, after)
  | _ => none

theorem psiCall_eq {ev : Event} {pcr : ℕ} {timer after : Option ℕ} (h : psiCall ev = some (pcr, timer, after)) :
    ev = .flushPsi true (some pcr) timer after := by
  unfold psiCall at h
  split at h
  · cases h; rfl
  · cases h

/-- The fifth call comes 40 ms after the PAT. -/
theorem pat_period_sample : ∃ outs h pre pcr after post,
    runNew Env.sample sampleOutput backOps = .ok (outs, h) ∧
    h.history = pre ++ .flushPsi true (some pcr) (some 2691900000) after :: post ∧ InTime pcr after := by
  obtain ⟨⟨outs, h⟩, hrun, hcheck⟩ := ok_of_map (x := runNew Env.sample sampleOutput backOps)
    (f := fun x => x.2.history[11]?.bind psiCall)
    (b := some (2692980000, some 2691900000, some 2691900000)) (by decide +kernel)
  obtain ⟨ev, hev, hcall⟩ := Option.bind_eq_some_iff.1 hcheck
  obtain rfl := psiCall_eq hcall
  have hh := Log.cut_at hev
  refine ⟨outs, h, _, _, _, _, hrun, hh, (pat_period hrun hh).2.2 fun t ht => ?_⟩
  cases ht
  decide

/-- The clock goes back with the input, and the next call finds the last PAT far ahead of it. -/
theorem pat_not_in_time : ∃ outs h pre pcr timer after post,
    runNew Env.sample sampleOutput backOps = .ok (outs, h) ∧
    h.history = pre ++ .flushPsi true (some pcr) timer after :: post ∧ ¬ InTime pcr after := by
  obtain ⟨⟨outs, h⟩, hrun, hcheck⟩ := ok_of_map (x := runNew Env.sample sampleOutput backOps)
    (f := fun x => x.2.history[13]?.bind psiCall)
    (b := some (2421900000, some 2691900000, some 2691900000)) (by decide +kernel)
  obtain ⟨ev, hev, hcall⟩ := Option.bind_eq_some_iff.1 hcheck
  obtain rfl := psiCall_eq hcall
  refine ⟨outs, h, _, _, _, _, _, hrun, Log.cut_at hev, ?_⟩
  rintro ⟨t, ht, hle⟩
  cases ht
  exact absurd hle (by decide)

end PacketHandler

end MyMuxer
