import MyMuxer.Mux.Foreign

/-!
# Streams with packets of other programs

* `takeChunk`: a call of `write` on whole packets, for a handler in sync; `write_synced`, `write_lock`.
* `Settled`: another packet of another program decides nothing about readiness.
* `LockTogether`, `NoDrop`: the search for sync ends in the same chunk, and nothing is dropped before.
* **`foreign_ignored`**: packets of other programs do not disturb the output then; `foreign_noticed`: each
  condition is needed.
-/

namespace MyMuxer

open View Psi

namespace PacketHandler

variable {env : Env} {program : Program} {h h' : PacketHandler} {ps : List Packet}

/-! ## Whole packets -/

/-- Every packet begins with a sync byte. -/
def Aligned (ps : List Packet) : Prop := ∀ p ∈ ps, byte p.bytes 0 = tsSyncByte

theorem length_packets (ps : List Packet) : (ps.flatMap Packet.bytes).length = ps.length * tsPacketSize := by
  induction ps with
  | nil => rfl
  | cons p ps ih => rw [List.flatMap_cons, List.length_append, ih, p.length_bytes, List.length_cons,
      Nat.add_one_mul, Nat.add_comm]

theorem byte_packets {p : Packet} (rest : Bytes) {i : ℕ} (h : i < tsPacketSize) :
    byte (p.bytes ++ rest) i = byte p.bytes i :=
  byte_append_left (p.length_bytes.symm ▸ h) rest

/-- The loop of `process` takes packet after packet. -/
theorem processLoop_packets (ha : Aligned ps) (hb : h.inBuff = ps.flatMap Packet.bytes) :
    processLoop env ps.length h =
      (ps.foldlM (processTs env) { h with inBuff := [] }).map fun h' => (true, h') := by
  induction ps generalizing h with
  | nil =>
    rw [List.flatMap_nil] at hb
    rw [← hb]
    rfl
  | cons p ps ih =>
    obtain ⟨hp, ha⟩ := List.forall_mem_cons.1 ha
    rw [List.flatMap_cons] at hb
    have htake : h.inBuff.take tsPacketSize = p.bytes := by
      rw [hb]
      exact List.take_left' p.length_bytes
    have hdrop : h.inBuff.drop tsPacketSize = ps.flatMap Packet.bytes := by
      rw [hb]
      exact List.drop_left' p.length_bytes
    have hof : Packet.ofBytes p.bytes = p := Packet.ext (Packet.ofBytes_bytes_of_length p.length_bytes)
    have hrest := processTs_inBuff env h (ps.flatMap Packet.bytes) p
    have hnone := processTs_inBuff env h [] p
    rw [List.length_cons, processLoop, if_pos (by rw [hb, byte_packets _ (by decide), hp]), htake, hdrop, hof]
    dsimp only
    rw [hrest, List.foldlM_cons, hnone]
    cases h.processTs env p with
    | error x => rfl
    | ok h₁ => exact ih (h := { h₁ with inBuff := ps.flatMap Packet.bytes }) ha rfl

/-! ## The search for sync -/

theorem syncTriple_packets (ha : Aligned ps) (hl : 3 ≤ ps.length) :
    syncTriple (ps.flatMap Packet.bytes) = true := by
  match ps, hl with
  | p :: q :: r :: ps, _ =>
    have hp : byte p.bytes 0 = tsSyncByte := ha p (by simp)
    have hq : byte q.bytes 0 = tsSyncByte := ha q (by simp)
    have hr : byte r.bytes 0 = tsSyncByte := ha r (by simp)
    have h1 := byte_append_right p.bytes (q.bytes ++ (r.bytes ++ ps.flatMap Packet.bytes)) 0
    have h2 := byte_append_right (p.bytes ++ q.bytes) (r.bytes ++ ps.flatMap Packet.bytes) 0
    rw [p.length_bytes, byte_packets (p := q) _ (by decide)] at h1
    rw [List.length_append, p.length_bytes, q.length_bytes, byte_packets (p := r) _ (by decide),
      List.append_assoc] at h2
    simp only [List.flatMap_cons]
    rw [syncTriple, decide_eq_true_eq]
    exact ⟨(byte_packets _ (by decide)).trans hp, h1.trans hq, h2.trans hr⟩

/-- The search stays at the first packet. -/
theorem syncBuffer_packets (ha : Aligned ps) :
    syncBuffer (ps.flatMap Packet.bytes) = (decide (3 ≤ ps.length), ps.flatMap Packet.bytes) := by
  have hiff : tsPacketSize * 3 ≤ ps.length * tsPacketSize ↔ 3 ≤ ps.length := by
    rw [Nat.mul_comm]
    exact Nat.mul_le_mul_right_iff (by decide)
  rw [syncBuffer, syncLoop, length_packets]
  by_cases hl : 3 ≤ ps.length
  · rw [if_pos (hiff.2 hl), if_pos (syncTriple_packets ha hl), decide_eq_true hl]
  · rw [if_neg (mt hiff.1 hl), decide_eq_false hl]

/-! ## Calls -/

/-- The queues are given up where they have grown too long. -/
def clearOverflow (h : PacketHandler) : PacketHandler := if h.isBufferOverflow 2 then h.buffersClear else h

/-- A call of `write` on whole packets, for a handler in sync. -/
def takeChunk (env : Env) (h : PacketHandler) (ps : List Packet) : Rs PacketHandler :=
  if ps = [] then return h.clearOverflow
  else do
    let h ← ps.foldlM (processTs env) h.clearOverflow
    h.becomeReady env

theorem clearOverflow_inBuff (h : PacketHandler) (inBuff : Bytes) :
    clearOverflow { h with inBuff } = { h.clearOverflow with inBuff } := by
  rw [clearOverflow, clearOverflow, show isBufferOverflow { h with inBuff } 2 = h.isBufferOverflow 2 from rfl]
  split_ifs <;> rfl

theorem process_packets (env : Env) (ha : Aligned ps)
    (hs : (if h.isSync then (true, h.inBuff) else syncBuffer h.inBuff) = (true, ps.flatMap Packet.bytes)) :
    h.process env = takeChunk env { h with isSync := true, inBuff := [] } ps := by
  have hlen : (ps.flatMap Packet.bytes).length / tsPacketSize = ps.length := by
    rw [length_packets, Nat.mul_div_cancel _ (by decide)]
  have hfull := clearOverflow_inBuff { h with isSync := true } (ps.flatMap Packet.bytes)
  have hnone := clearOverflow_inBuff { h with isSync := true } []
  generalize clearOverflow { h with isSync := true } = g at hfull hnone
  rw [takeChunk, hnone, process, hs]
  dsimp only
  rw [if_neg (by decide), ← clearOverflow, hfull]
  dsimp only
  rw [hlen]
  by_cases hps : ps = []
  · subst hps
    rfl
  · rw [if_neg (mt List.length_eq_zero_iff.1 hps), if_neg hps,
      processLoop_packets (h := { g with inBuff := ps.flatMap Packet.bytes }) ha rfl]
    dsimp only
    cases ps.foldlM (processTs env) { g with inBuff := [] } with
    | error x => rfl
    | ok h' => rfl

/-- A call that finds no rest of a packet loses nothing, however long the chunk is. -/
theorem write_synced (ha : Aligned ps) (hs : h.isSync = true) (hb : h.inBuff = []) :
    h.write env (ps.flatMap Packet.bytes) = takeChunk env h ps := by
  have heta : { h with isSync := true, inBuff := [] } = h := by
    rw [← hs, ← hb]
  rw [write, hb, List.length_nil, Nat.zero_add, length_packets]
  split_ifs with hmax
  · have hl : 3 ≤ ps.length := by
      rw [maxBufferSize, tsPacketSize] at hmax
      omega
    have h := process_packets env (h := { h with inBuff := [] ++ ps.flatMap Packet.bytes, isSync := false }) ha
      (by
        dsimp only
        rw [if_neg (by decide), List.nil_append, syncBuffer_packets ha, decide_eq_true hl])
    exact h.trans (congrArg (takeChunk env · ps) heta)
  · have h := process_packets env (h := { h with inBuff := h.inBuff ++ ps.flatMap Packet.bytes }) ha
      (by rw [if_pos hs, hb, List.nil_append])
    exact h.trans (congrArg (takeChunk env · ps) heta)

/-- The third packet sets the search going. -/
theorem write_lock {ws : List Packet} (ha : Aligned (ws ++ ps)) (hl : 3 ≤ (ws ++ ps).length)
    (hs : h.isSync = false)
    (hb : h.inBuff = ws.flatMap Packet.bytes)
    (hmax : ws = [] ∨ (ws ++ ps).length * tsPacketSize < maxBufferSize) :
    h.write env (ps.flatMap Packet.bytes) =
      takeChunk env { h with isSync := true, inBuff := [] } (ws ++ ps) := by
  have hbytes : h.inBuff ++ ps.flatMap Packet.bytes = (ws ++ ps).flatMap Packet.bytes := by
    rw [hb, List.flatMap_append]
  have hsync (g : PacketHandler) (hs : g.isSync = false) (hg : g.inBuff = (ws ++ ps).flatMap Packet.bytes) :
      g.process env = takeChunk env { g with isSync := true, inBuff := [] } (ws ++ ps) := by
    refine process_packets env ha ?_
    rw [hs, if_neg (by decide), hg, syncBuffer_packets ha, decide_eq_true hl]
  rw [write]
  split_ifs with hover
  · -- what is dropped here is empty
    have hws : ws = [] := by
      refine hmax.resolve_right fun hlt => ?_
      rw [hb, length_packets, length_packets, ← Nat.add_mul, ← List.length_append] at hover
      omega
    subst hws
    exact hsync { h with inBuff := [] ++ ps.flatMap Packet.bytes, isSync := false } rfl rfl
  · exact hsync { h with inBuff := h.inBuff ++ ps.flatMap Packet.bytes } hs hbytes

/-- Two packets or fewer wait for the third. -/
theorem write_wait {ws : List Packet} (ha : Aligned (ws ++ ps)) (hl : (ws ++ ps).length < 3)
    (hs : h.isSync = false)
    (hb : h.inBuff = ws.flatMap Packet.bytes) :
    h.write env (ps.flatMap Packet.bytes) = .ok { h with inBuff := (ws ++ ps).flatMap Packet.bytes } := by
  have hbytes : h.inBuff ++ ps.flatMap Packet.bytes = (ws ++ ps).flatMap Packet.bytes := by
    rw [hb, List.flatMap_append]
  have hmax : ¬ (h.inBuff.length + (ps.flatMap Packet.bytes).length ≥ maxBufferSize) := by
    rw [← List.length_append, hbytes, length_packets, maxBufferSize, tsPacketSize]
    omega
  have hsync : (if h.isSync then (true, h.inBuff ++ ps.flatMap Packet.bytes)
      else syncBuffer (h.inBuff ++ ps.flatMap Packet.bytes)) = (false, (ws ++ ps).flatMap Packet.bytes) := by
    rw [hs, if_neg (by decide), hbytes, syncBuffer_packets ha, decide_eq_false (by omega)]
  rw [write, if_neg hmax, process]
  dsimp only
  rw [hsync]
  dsimp only
  rw [if_pos rfl, ← hs]
  rfl

/-! ## One chunk of two streams -/

variable {biss : Bool} {as bs : List (List Packet)}

theorem clearOverflow_aside (h : PacketHandler) : Aside h h.clearOverflow := by
  rw [clearOverflow]
  split_ifs <;> exact ⟨rfl, rfl, rfl, rfl, rfl⟩

theorem clearOverflow_settled (s : Settled env h) : Settled env h.clearOverflow := by
  rw [clearOverflow]
  split_ifs
  · exact s.clear
  · exact s

theorem clearOverflow_inSync (i : InSync program biss h) : InSync program biss h.clearOverflow := by
  refine i.aside (clearOverflow_aside h) ?_
  rw [clearOverflow]
  split_ifs
  · exact .of_not_ready rfl
  · exact i.armed

/-- **Chunks with one view do the same.** -/
theorem takeChunk_eq (i : InSync program biss h) (s : Settled env h) {a b : List Packet}
    (hview : (watch env program biss).view h.dirtyCa a = (watch env program biss).view h.dirtyCa b)
    (hafter : (watch env program biss).after h.dirtyCa a = (watch env program biss).after h.dirtyCa b) :
    takeChunk env h a = takeChunk env h b := by
  have hca : (watch env program biss).flag h.clearOverflow = h.dirtyCa := (clearOverflow_aside h).dirtyCa
  rw [← hca] at hview hafter
  have hfold : a.foldlM (processTs env) h.clearOverflow = b.foldlM (processTs env) h.clearOverflow :=
    Machine.foldlM_eq_of_view (clearOverflow_inSync i) hview hafter
  have hagain := (clearOverflow_settled s).again
  rw [takeChunk, takeChunk]
  split_ifs with ha hb hb
  · rfl
  · -- the packets of the second chunk are all of other programs
    rw [ha] at hfold
    rw [← hfold]
    exact hagain.symm
  · rw [hb] at hfold
    rw [hfold]
    exact hagain
  · rw [hfold]

theorem takeChunk_inSync (i : InSync program biss h) (s : Settled env h) (e : takeChunk env h ps = .ok h') :
    InSync program biss h' ∧ Settled env h' ∧ h'.dirtyCa = (watch env program biss).after h.dirtyCa ps := by
  have hca := (clearOverflow_aside h).dirtyCa
  rw [takeChunk] at e
  split_ifs at e with hps
  · cases e
    exact ⟨clearOverflow_inSync i, clearOverflow_settled s, by rw [hps, hca]; rfl⟩
  · obtain ⟨g, hg, e⟩ := bind_eq_ok.1 e
    obtain ⟨ig, hflag⟩ : InSync program biss g ∧
        g.dirtyCa = (watch env program biss).after h.clearOverflow.dirtyCa ps :=
      Machine.foldlM_inv (m := watch env program biss) (clearOverflow_inSync i) hg
    have hside := becomeReady_aside e
    refine ⟨ig.aside hside (becomeReady_armed ig.armed e), becomeReady_settled ig.armed e, ?_⟩
    rw [hside.dirtyCa, hflag, hca]

/-! ## Chunk after chunk -/

/-- Each chunk is given to `write`. -/
def feed (env : Env) : PacketHandler → List (List Packet) → Rs PacketHandler
  | h, [] => return h
  | h, ps :: chunks => do
    let h ← h.write env (ps.flatMap Packet.bytes)
    feed env h chunks

/-- Once in sync, streams that are alike do the same. -/
theorem feed_synced {ca : Bool} (hv : (watch env program biss).Alike ca as bs) (ha : ∀ ps ∈ as, Aligned ps)
    (hb : ∀ ps ∈ bs, Aligned ps) : ∀ {h : PacketHandler}, h.dirtyCa = ca →
      InSync program biss h → Settled env h →
      feed env h as = feed env h bs := by
  induction hv with
  | nil => exact fun _ _ _ => rfl
  | cons hview hafter _ ih =>
    obtain ⟨ha₁, ha⟩ := List.forall_mem_cons.1 ha
    obtain ⟨hb₁, hb⟩ := List.forall_mem_cons.1 hb
    intro h hca i s
    subst hca
    rw [feed, feed, write_synced ha₁ i.isSync i.inBuff, write_synced hb₁ i.isSync i.inBuff,
      ← takeChunk_eq i s hview hafter]
    cases e : takeChunk env h _ with
    | error x => rfl
    | ok h₁ =>
      obtain ⟨i₁, s₁, hca⟩ := takeChunk_inSync i s e
      exact ih ha hb hca i₁ s₁

/-! ## The third packet -/

/-- The third packet comes in the same chunk of both streams. -/
def LockTogether (as bs : List (List Packet)) : Prop :=
  ∀ n, 3 ≤ (as.take n).flatten.length ↔ 3 ≤ (bs.take n).flatten.length

/-- No packet that waits for the third is dropped for the length of the input. -/
def NoDrop (chunks : List (List Packet)) : Prop :=
  ∀ n, 0 < (chunks.take n).flatten.length → (chunks.take n).flatten.length < 3 →
    (chunks.take (n + 1)).flatten.length * tsPacketSize < maxBufferSize

theorem flatten_take_merge (ws ps : List Packet) (chunks : List (List Packet)) (n : ℕ) :
    (((ws ++ ps) :: chunks).take (n + 1)).flatten = ((ws :: ps :: chunks).take (n + 2)).flatten := by
  simp

theorem LockTogether.merge {wa wb a b : List Packet} (hl : LockTogether (wa :: a :: as) (wb :: b :: bs)) :
    LockTogether ((wa ++ a) :: as) ((wb ++ b) :: bs) := by
  intro n
  cases n with
  | zero => exact Iff.rfl
  | succ n =>
    rw [flatten_take_merge, flatten_take_merge]
    exact hl (n + 2)

theorem NoDrop.merge {ws : List Packet} {chunks : List (List Packet)} (hd : NoDrop (ws :: ps :: chunks)) :
    NoDrop ((ws ++ ps) :: chunks) := by
  intro n
  cases n with
  | zero => exact fun h => absurd h (Nat.lt_irrefl 0)
  | succ n =>
    rw [flatten_take_merge, flatten_take_merge]
    exact hd (n + 2)

theorem NoDrop.room {ws : List Packet} {chunks : List (List Packet)} (hd : NoDrop (ws :: ps :: chunks))
    (hl : ws.length < 3) : ws = [] ∨ (ws ++ ps).length * tsPacketSize < maxBufferSize := by
  have h := hd 1
  simp only [List.take_succ_cons, List.take_zero, List.flatten_cons, List.flatten_nil, List.append_nil] at h
  rcases List.eq_nil_or_concat ws with rfl | ⟨_, _, rfl⟩
  · exact .inl rfl
  · exact .inr (h (by simp) hl)

variable {output : Output} {h₀ : PacketHandler}

theorem Fresh.inSync (f : Fresh output h₀) (hprog : output.programs = [program]) :
    InSync program h₀.biss.isSome { h₀ with isSync := true, inBuff := [] } where
  program_eq := by
    rw [getProgram, show PacketHandler.output { h₀ with isSync := true, inBuff := [] } = output
      from f.output_eq, hprog]
    rfl
  biss_eq := rfl
  isSync := rfl
  inBuff := rfl
  armed := .of_not_ready f.isReady

theorem Fresh.settled (f : Fresh output h₀) : Settled env { h₀ with isSync := true, inBuff := [] } := by
  have hpat : h₀.tables.patReady = false := congrArg Tables.patReady f.tables
  refine ⟨becomeReady_decided fun u => absurd (hpat.symm.trans u.pat) (by decide), fun _ h => ?_⟩
  exact absurd (hpat.symm.trans h) (by decide)

/-- **Before that**, streams that are alike do the same from the third packet on, or both still wait for it. -/
theorem feed_waiting (f : Fresh output h₀) (hprog : output.programs = [program]) {ca : Bool}
    (hv : (watch env program h₀.biss.isSome).Alike ca as bs) : ∀ {wa wb : List Packet},
      (watch env program h₀.biss.isSome).after false wa = ca →
      (watch env program h₀.biss.isSome).view false wa = (watch env program h₀.biss.isSome).view false wb →
      (watch env program h₀.biss.isSome).after false wa = (watch env program h₀.biss.isSome).after false wb →
      (∀ ps ∈ wa :: as, Aligned ps) → (∀ ps ∈ wb :: bs, Aligned ps) → wa.length < 3 → wb.length < 3 →
      LockTogether (wa :: as) (wb :: bs) → NoDrop (wa :: as) → NoDrop (wb :: bs) →
      feed env { h₀ with inBuff := wb.flatMap Packet.bytes } bs =
        feed env { h₀ with inBuff := wa.flatMap Packet.bytes } as ∨
      ∃ inBuffA inBuffB,
        feed env { h₀ with inBuff := wa.flatMap Packet.bytes } as = .ok { h₀ with inBuff := inBuffA } ∧
        feed env { h₀ with inBuff := wb.flatMap Packet.bytes } bs = .ok { h₀ with inBuff := inBuffB } := by
  induction hv with
  | nil => exact fun _ _ _ _ _ _ _ _ _ _ => .inr ⟨_, _, rfl, rfl⟩
  | @cons ca a b as bs hview hafter hrest ih =>
    intro wa wb hca hvw haw ha hb hla hlb hlock hda hdb
    subst hca
    obtain ⟨hwa, ha₁, ha⟩ := by simpa only [List.forall_mem_cons] using ha
    obtain ⟨hwb, hb₁, hb⟩ := by simpa only [List.forall_mem_cons] using hb
    have haligned : Aligned (wa ++ a) := List.forall_mem_append.2 ⟨hwa, ha₁⟩
    have hbligned : Aligned (wb ++ b) := List.forall_mem_append.2 ⟨hwb, hb₁⟩
    obtain ⟨hview', hafter'⟩ := Machine.view_append_congr hvw haw hview hafter
    have hiff : 3 ≤ (wa ++ a).length ↔ 3 ≤ (wb ++ b).length := by simpa using hlock 2
    rw [feed, feed]
    by_cases hl : 3 ≤ (wa ++ a).length
    · -- both set the search going, with alike packets
      refine .inl ?_
      have i := f.inSync hprog
      have s : Settled env { h₀ with isSync := true, inBuff := [] } := f.settled
      have hca : PacketHandler.dirtyCa { h₀ with isSync := true, inBuff := [] } = false := f.dirtyCa
      have heq := takeChunk_eq i s (a := wa ++ a) (b := wb ++ b) (hca ▸ hview') (hca ▸ hafter')
      rw [write_lock (h := { h₀ with inBuff := wa.flatMap Packet.bytes }) haligned hl
        f.isSync rfl (hda.room hla),
        write_lock (h := { h₀ with inBuff := wb.flatMap Packet.bytes }) hbligned
        (hiff.1 hl) f.isSync rfl (hdb.room hlb),
        ← heq]
      cases e : takeChunk env { h₀ with isSync := true, inBuff := [] } (wa ++ a) with
      | error x => rfl
      | ok h₁ =>
        obtain ⟨i₁, s₁, hca₁⟩ := takeChunk_inSync i s e
        rw [hca, Machine.after_append] at hca₁
        exact (feed_synced hrest ha hb hca₁ i₁ s₁).symm
    · -- both go on waiting
      rw [write_wait (h := { h₀ with inBuff := wa.flatMap Packet.bytes }) haligned (by omega) f.isSync rfl,
        write_wait (h := { h₀ with inBuff := wb.flatMap Packet.bytes }) hbligned (by omega) f.isSync rfl]
      exact ih (Machine.after_append ..) hview' hafter' (List.forall_mem_cons.2 ⟨haligned, ha⟩)
        (List.forall_mem_cons.2 ⟨hbligned, hb⟩) (by omega) (by omega) hlock.merge hda.merge hdb.merge

/-- Before output is ready there is nothing to flush. -/
theorem flush_none (env : Env) (hr : h.isReady = false) : (h.flushPacketForCbr env).map Prod.fst = .ok none ∧
    h.flushPacketForVbr.1 = none ∧ h.flushFrame.1 = none := by
  refine ⟨?_, ?_, ?_⟩
  · rw [flushPacketForCbr, if_pos (by simp [hr])]
    rfl
  · rw [flushPacketForVbr, if_pos (by simp [hr])]
  · rw [flushFrame, if_pos (by simp [hr])]

/-- **Packets of other programs do not disturb the output**, as long as they change `dirty_ca` at no packet that
is descrambled and at no end of a chunk, and neither bring the third packet forward nor drop what
waits for it. -/
theorem foreign_ignored (hnew : new env output = some h₀) (hprog : output.programs = [program])
    (ha : ∀ ps ∈ as, Aligned ps) (hb : ∀ ps ∈ bs, Aligned ps)
    (halike : (watch env program h₀.biss.isSome).Alike false as bs) (hlock : LockTogether as bs)
    (hda : NoDrop as)
    (hdb : NoDrop bs) (hrun : feed env h₀ as = .ok h) : ∃ h', feed env h₀ bs = .ok h' ∧
      h'.isReady = h.isReady ∧ h'.isDirty = h.isDirty ∧ h'.outBuffV = h.outBuffV ∧ h'.outBuffA = h.outBuffA ∧
      (h'.flushPacketForCbr env).map Prod.fst = (h.flushPacketForCbr env).map Prod.fst ∧
      h'.flushPacketForVbr.1 = h.flushPacketForVbr.1 ∧ h'.flushFrame.1 = h.flushFrame.1 := by
  have f := new_fresh hnew
  have hempty : { h₀ with inBuff := [] } = h₀ := by rw [← f.inBuff]
  have hlock' : LockTogether ([] :: as) ([] :: bs) := by
    intro n
    cases n with
    | zero => exact Iff.rfl
    | succ n => exact hlock n
  have hdrop {chunks : List (List Packet)} (hd : NoDrop chunks) : NoDrop ([] :: chunks) := by
    intro n
    cases n with
    | zero => exact fun h => absurd h (Nat.lt_irrefl 0)
    | succ n => exact hd n
  have haligned {chunks : List (List Packet)} (h : ∀ ps ∈ chunks, Aligned ps) :
      ∀ ps ∈ [] :: chunks, Aligned ps :=
    List.forall_mem_cons.2 ⟨fun p hp => absurd hp List.not_mem_nil, h⟩
  have hfeed := feed_waiting f hprog halike rfl rfl rfl
    (haligned ha) (haligned hb) (by decide) (by decide) hlock'
    (hdrop hda) (hdrop hdb)
  rw [List.flatMap_nil, hempty, hrun] at hfeed
  rcases hfeed with e | ⟨inBuffA, inBuffB, eA, eB⟩
  · exact ⟨h, e, rfl, rfl, rfl, rfl, rfl, rfl, rfl⟩
  · cases eA
    have hnoneA := flush_none env (h := { h₀ with inBuff := inBuffA }) f.isReady
    have hnoneB := flush_none env (h := { h₀ with inBuff := inBuffB }) f.isReady
    exact ⟨_, eB, rfl, rfl, rfl, rfl, hnoneB.1.trans hnoneA.1.symm, hnoneB.2.1.trans hnoneA.2.1.symm,
      hnoneB.2.2.trans hnoneA.2.2.symm⟩

/-- Packets of another program in clear are not seen. -/
theorem view_foreign (env : Env) (biss : Bool) {p : Packet} (hf : ¬ Own program (pktPid p.bytes))
    (hclear : pktScramblingControl p.bytes = 0) (n : ℕ) :
    (watch env program biss).view false (List.replicate n p) = [] ∧
      (watch env program biss).after false (List.replicate n p) = false := by
  have hnext : (watch env program biss).next false p = false := by
    change nextCa program biss false p = false
    rw [nextCa, hclear]
    split_ifs <;> rfl
  induction n with
  | zero => exact ⟨rfl, rfl⟩
  | succ n ih =>
    rw [List.replicate_succ, Machine.view, Machine.after, List.foldl_cons, hnext]
    exact ⟨(if_neg hf).trans ih.1, ih.2⟩

theorem write_overflow {chunk : Bytes} (hmax : h.inBuff.length + chunk.length ≥ maxBufferSize) :
    h.write env chunk = { h with inBuff := [], isSync := false }.write env chunk := by
  rw [write, write, if_pos hmax]
  split_ifs <;> rfl

/-- A packet that waits for the third is lost where packets of another program make the input too long. -/
theorem feed_dropped (f : Fresh output h₀) (hprog : output.programs = [program]) {w a b p : Packet}
    (hw : Aligned [w]) (ha : Aligned [a, b])
    (hca : (watch env program h₀.biss.isSome).after false [a, b] = false)
    (hp : byte p.bytes 0 = tsSyncByte) (hf : ¬ Own program (pktPid p.bytes))
    (hclear : pktScramblingControl p.bytes = 0) {n : ℕ} (hn : maxBufferSize ≤ (n + 3) * tsPacketSize) :
    feed env h₀ [[w], [a, b] ++ List.replicate n p] =
      takeChunk env { h₀ with isSync := true, inBuff := [] } [a, b] := by
  have hwait : h₀.write env ([w].flatMap Packet.bytes) =
      .ok { h₀ with inBuff := ([] ++ [w]).flatMap Packet.bytes } :=
    write_wait hw (by simp) f.isSync f.inBuff
  have haligned : Aligned ([a, b] ++ List.replicate n p) := by
    refine List.forall_mem_append.2 ⟨ha, fun q hq => ?_⟩
    rw [List.eq_of_mem_replicate hq]
    exact hp
  have hl : 3 ≤ ([] ++ ([a, b] ++ List.replicate n p)).length := by
    rw [maxBufferSize, tsPacketSize] at hn
    simp only [List.nil_append, List.length_append, List.length_replicate, List.length_cons, List.length_nil]
    omega
  have hlock : { h₀ with inBuff := [], isSync := false }.write env
      (([a, b] ++ List.replicate n p).flatMap Packet.bytes) =
      takeChunk env { h₀ with isSync := true, inBuff := [] } ([] ++ ([a, b] ++ List.replicate n p)) :=
    write_lock haligned hl rfl rfl (.inl rfl)
  -- the packets of the other program are not seen
  obtain ⟨hview, hafter⟩ := view_foreign env h₀.biss.isSome hf hclear n
  have hdirty : PacketHandler.dirtyCa { h₀ with isSync := true, inBuff := [] } = false := f.dirtyCa
  have hsettled : Settled env { h₀ with isSync := true, inBuff := [] } := f.settled
  have heq := takeChunk_eq (f.inSync hprog) hsettled (a := [a, b] ++ List.replicate n p) (b := [a, b])
    (by rw [hdirty, Machine.view_append, hca, hview, List.append_nil])
    (by rw [hdirty, Machine.after_append, hca, hafter])
  rw [feed, hwait, ok_bind, feed, write_overflow, hlock, List.nil_append, heq]
  · cases takeChunk env { h₀ with isSync := true, inBuff := [] } [a, b] with
    | error x => rfl
    | ok h' => rfl
  · dsimp only
    rw [length_packets, length_packets, ← Nat.add_mul]
    simp only [List.nil_append, List.length_append, List.length_replicate, List.length_cons, List.length_nil]
    convert hn using 2
    omega

def foreignPacket (scrambled : Bool) : Packet :=
  (packed false 0x200 0 []).set 3 (if scrambled then 0x90 else 0x10)

/-- A packet of another program makes three of two, and the search for sync does not wait; a scrambled one makes
the output dirty; and very many of them in one chunk make `write` drop the packet that waits. -/
theorem foreign_noticed : ¬ Own sampleProgram (pktPid (foreignPacket false).bytes) ∧
    ¬ Own sampleProgram (pktPid (foreignPacket true).bytes) ∧
    ∃ h₀ h₁ h₂ h₃ h₄ h₅ h₆, new Env.sample sampleOutput = some h₀ ∧
      feed Env.sample h₀ [[sampleVideo true 0 9000000, sampleVideo false 1 9003600]] = .ok h₁ ∧
      feed Env.sample h₀ [[sampleVideo true 0 9000000, foreignPacket false, sampleVideo false 1 9003600]] =
        .ok h₂ ∧
      h₁.outBuffV.len = 0 ∧ h₂.outBuffV.len = 2 ∧
      feed Env.sample h₀ [[samplePat, samplePmt, sampleVideo true 0 9000000]] = .ok h₃ ∧
      feed Env.sample h₀ [[samplePat, samplePmt, sampleVideo true 0 9000000, foreignPacket true]] = .ok h₄ ∧
      h₃.isReady = true ∧ h₄.isReady = false ∧ h₃.isDirty = false ∧ h₄.isDirty = true ∧
      feed Env.sample h₀ [[sampleVideo true 0 9000000],
        [sampleVideo false 1 9003600, sampleVideo false 2 9007200]] = .ok h₅ ∧
      feed Env.sample h₀ [[sampleVideo true 0 9000000],
        [sampleVideo false 1 9003600, sampleVideo false 2 9007200] ++
          List.replicate 55775 (foreignPacket false)] = .ok h₆ ∧
      h₅.outBuffV.len = 3 ∧ h₆.outBuffV.len = 2 := by
  have hforeign : ¬ Own sampleProgram (pktPid (foreignPacket false).bytes) := by decide +kernel
  refine ⟨hforeign, by decide +kernel, (new Env.sample sampleOutput).get rfl, ?_⟩
  obtain ⟨h₁, e₁, hv₁⟩ := ok_of_map (x := feed Env.sample ((new Env.sample sampleOutput).get rfl)
      [[sampleVideo true 0 9000000, sampleVideo false 1 9003600]])
    (f := fun h => h.outBuffV.len) (b := 0) (by decide +kernel)
  obtain ⟨h₂, e₂, hv₂⟩ := ok_of_map (x := feed Env.sample ((new Env.sample sampleOutput).get rfl)
      [[sampleVideo true 0 9000000, foreignPacket false, sampleVideo false 1 9003600]])
    (f := fun h => h.outBuffV.len) (b := 2) (by decide +kernel)
  obtain ⟨h₃, e₃, h3⟩ := ok_of_map (x := feed Env.sample ((new Env.sample sampleOutput).get rfl)
      [[samplePat, samplePmt, sampleVideo true 0 9000000]])
    (f := fun h => (h.isReady, h.isDirty)) (b := (true, false)) (by decide +kernel)
  obtain ⟨h₄, e₄, h4⟩ := ok_of_map (x := feed Env.sample ((new Env.sample sampleOutput).get rfl)
      [[samplePat, samplePmt, sampleVideo true 0 9000000, foreignPacket true]])
    (f := fun h => (h.isReady, h.isDirty)) (b := (false, true)) (by decide +kernel)
  obtain ⟨h₅, e₅, hv₅⟩ := ok_of_map (x := feed Env.sample ((new Env.sample sampleOutput).get rfl)
      [[sampleVideo true 0 9000000], [sampleVideo false 1 9003600, sampleVideo false 2 9007200]])
    (f := fun h => h.outBuffV.len) (b := 3) (by decide +kernel)
  -- what is left of the last input is the chunk without its packets of the other program
  obtain ⟨h₆, e₆, hv₆⟩ := ok_of_map (x := takeChunk Env.sample
      { (new Env.sample sampleOutput).get rfl with isSync := true, inBuff := [] }
      [sampleVideo false 1 9003600, sampleVideo false 2 9007200])
    (f := fun h => h.outBuffV.len) (b := 2) (by decide +kernel)
  have hdropped : feed Env.sample ((new Env.sample sampleOutput).get rfl) [[sampleVideo true 0 9000000],
      [sampleVideo false 1 9003600, sampleVideo false 2 9007200] ++
        List.replicate 55775 (foreignPacket false)] = .ok h₆ :=
    (feed_dropped (new_fresh (Option.some_get _).symm) rfl (by unfold Aligned; decide +kernel)
      (by unfold Aligned; decide +kernel) (by decide +kernel) (by decide +kernel) hforeign (by decide +kernel)
      (by decide)).trans e₆
  obtain ⟨hr₃, hd₃⟩ := Prod.mk.inj h3
  obtain ⟨hr₄, hd₄⟩ := Prod.mk.inj h4
  exact ⟨h₁, h₂, h₃, h₄, h₅, h₆, (Option.some_get _).symm, e₁, e₂, hv₁, hv₂, e₃, e₄, hr₃, hr₄, hd₃, hd₄,
    e₅, hdropped, hv₅, hv₆⟩

/-- A clear packet of another program among the tables changes nothing. -/
theorem foreign_ignored_sample : ∃ h₀ h h', new Env.sample sampleOutput = some h₀ ∧
    feed Env.sample h₀ [[samplePat, samplePmt, sampleVideo true 0 9000000]] = .ok h ∧
    feed Env.sample h₀ [[samplePat, foreignPacket false, samplePmt, sampleVideo true 0 9000000]] = .ok h' ∧
    h'.isReady = true ∧ h'.outBuffV = h.outBuffV := by
  obtain ⟨h, e, hr⟩ := ok_of_map (x := feed Env.sample ((new Env.sample sampleOutput).get rfl)
      [[samplePat, samplePmt, sampleVideo true 0 9000000]])
    (f := fun h => h.isReady) (b := true) (by decide +kernel)
  have hlock : LockTogether [[samplePat, samplePmt, sampleVideo true 0 9000000]]
      [[samplePat, foreignPacket false, samplePmt, sampleVideo true 0 9000000]] := by
    intro n
    cases n with
    | zero => exact Iff.rfl
    | succ n => simp
  have hdrop {ps : List Packet} (hl : 3 ≤ ps.length) : NoDrop [ps] := by
    intro n
    cases n with
    | zero => exact fun h => absurd h (Nat.lt_irrefl 0)
    | succ n =>
      intro _ h
      simp at h
      omega
  have halike : (watch Env.sample sampleProgram false).Alike false
      [[samplePat, samplePmt, sampleVideo true 0 9000000]]
      [[samplePat, foreignPacket false, samplePmt, sampleVideo true 0 9000000]] :=
    .cons (by decide +kernel) (by decide +kernel) (.nil _)
  obtain ⟨h', e', hr', -, hv, -⟩ := foreign_ignored (Option.some_get _).symm
    rfl (by unfold Aligned; decide +kernel)
    (by unfold Aligned; decide +kernel) halike hlock (hdrop (by decide)) (hdrop (by decide)) e
  exact ⟨_, h, h', (Option.some_get _).symm, e, e', hr'.trans hr, hv⟩

end PacketHandler

end MyMuxer
