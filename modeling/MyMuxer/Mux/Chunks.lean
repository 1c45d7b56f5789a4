import MyMuxer.Lib.Chunked
import MyMuxer.Mux.Proxy
import MyMuxer.Mux.Relay
import MyMuxer.Mux.Sync

/-!
# A proxy and its chunks

* `ReadStep`, `reader`: how a proxy takes packets off a stream, one small step after another.
* `Proxying`: the invariant. What was sent and what is in `frame_buff` is what `relayAll` forwards.
* `Proxying.proxyRun`, `Proxying.proxyRun_ok`: every run of a proxy goes these steps, and none panics where the
  tables are well formed.
-/

namespace MyMuxer

open Relation Chunked Psi

/-! ## Reading packets -/

/-- A step on a stream; the mode says whether the reader is in sync. -/
inductive ReadStep : Cfg Bool UInt8 Packet → Cfg Bool UInt8 Packet → Prop where
  /-- The search goes past a byte that is no sync byte. -/
  | skip {b : UInt8} {rest : Bytes} {ps : List Packet} :
      b ≠ tsSyncByte → ReadStep ⟨false, b :: rest, ps⟩ ⟨false, rest, ps⟩
  /-- The search goes past a sync byte that no other two follow. -/
  | miss {b : UInt8} {rest : Bytes} {ps : List Packet} :
      b = tsSyncByte → tsPacketSize * 3 ≤ (b :: rest).length → syncTriple (b :: rest) = false →
      ReadStep ⟨false, b :: rest, ps⟩ ⟨false, rest, ps⟩
  | lock {buff : Bytes} {ps : List Packet} :
      tsPacketSize * 3 ≤ buff.length → syncTriple buff = true →
      ReadStep ⟨false, buff, ps⟩ ⟨true, buff, ps⟩
  | unlock {buff : Bytes} {ps : List Packet} :
      tsPacketSize ≤ buff.length → byte buff 0 ≠ tsSyncByte → ReadStep ⟨true, buff, ps⟩ ⟨false, buff, ps⟩
  | packet {buff : Bytes} {ps : List Packet} :
      tsPacketSize ≤ buff.length → byte buff 0 = tsSyncByte →
      ReadStep ⟨true, buff, ps⟩
        ⟨true, buff.drop tsPacketSize, ps ++ [Packet.ofBytes (buff.take tsPacketSize)]⟩

theorem readStep_stable {c c' : Cfg Bool UInt8 Packet} (s : ReadStep c c') (more : Bytes) :
    ReadStep (c.feed more) (c'.feed more) := by
  have hle (a : Bytes) : a.length ≤ (a ++ more).length := by simp
  have hpos {a : Bytes} (h : tsPacketSize ≤ a.length) : 0 < a.length := Nat.lt_of_lt_of_le (by decide) h
  cases s with
  | skip h => exact .skip h
  | @miss b rest ps h hl ht => exact .miss h (hl.trans (hle (b :: rest))) ((syncTriple_append hl more).trans ht)
  | lock hl ht => exact .lock (hl.trans (hle _)) ((syncTriple_append hl more).trans ht)
  | unlock hl hb => exact .unlock (hl.trans (hle _)) ((byte_append_left (hpos hl) more).trans_ne hb)
  | @packet buff ps hl hb =>
    have h : ReadStep ⟨true, buff ++ more, ps⟩ _ :=
      .packet (hl.trans (hle buff)) ((byte_append_left (hpos hl) more).trans hb)
    rw [List.drop_append_of_le_length hl, List.take_append_of_le_length hl] at h
    exact h

theorem readStep_unique : Relator.RightUnique ReadStep := by
  intro c d d' h h'
  cases h with
  | skip hb =>
    cases h' with
    | skip => rfl
    | miss hb' => exact absurd hb' hb
    | lock _ ht => exact absurd (syncTriple_head ht) hb
  | miss hb hl ht =>
    cases h' with
    | skip hb' => exact absurd hb hb'
    | miss => rfl
    | lock _ ht' => exact absurd (ht.symm.trans ht') (by decide)
  | lock hl ht =>
    cases h' with
    | skip hb => exact absurd (syncTriple_head ht) hb
    | miss _ _ ht' => exact absurd (ht'.symm.trans ht) (by decide)
    | lock => rfl
  | unlock _ hb =>
    cases h' with
    | unlock => rfl
    | packet _ hb' => exact absurd hb' hb
  | packet _ hb =>
    cases h' with
    | unlock _ hb' => exact absurd hb hb'
    | packet => rfl

theorem readStep_grows {c c' : Cfg Bool UInt8 Packet} (s : ReadStep c c') : c.out <+: c'.out := by
  cases s with
  | packet => exact List.prefix_append ..
  | _ => exact List.prefix_rfl

/-- How a proxy reads. -/
def reader : Reader Bool UInt8 Packet := ⟨ReadStep, readStep_stable, readStep_unique, readStep_grows⟩

/-- A stream that is not read yet. -/
def unread (stream : Bytes) : Cfg Bool UInt8 Packet := ⟨false, stream, []⟩

/-- The search of `sync_buffer` is a sequence of steps. -/
theorem nextSync_steps (ps : List Packet) : ∀ {l : Bytes},
    ReflTransGen ReadStep ⟨false, l, ps⟩ ⟨false, l.dropWhile fun b => b ≠ tsSyncByte, ps⟩
  | [] => .refl
  | b :: l => by
    by_cases hb : b = tsSyncByte
    · rw [List.dropWhile_cons_of_neg (by simpa using hb)]
    · rw [List.dropWhile_cons_of_pos (by simpa using hb)]
      exact .head (.skip hb) (nextSync_steps ps)

theorem syncLoop_steps (ps : List Packet) : ∀ (fuel : ℕ) (buff : Bytes),
    ReflTransGen ReadStep ⟨false, buff, ps⟩ ⟨(syncLoop fuel buff).1, (syncLoop fuel buff).2, ps⟩
  | 0, buff => .refl
  | fuel + 1, buff => by
    rw [syncLoop]
    split_ifs with hl ht
    · exact .single (.lock hl ht)
    · refine ReflTransGen.trans ?_ (syncLoop_steps ps fuel (nextSync buff))
      cases buff with
      | nil => exact absurd hl (by decide)
      | cons b rest =>
        refine .head ?_ (nextSync_steps ps)
        by_cases hb : b = tsSyncByte
        · exact .miss hb hl (by simpa using ht)
        · exact .skip hb
    · exact .refl

/-- The tables that a stream of packets completes are well formed. -/
def WellFormedTables (program : Program) (ps : List Packet) : Prop :=
  (∀ s ∈ Tables.sections program .pat ps, WellFormedPat s) ∧
    ∀ s ∈ Tables.sections program .pmt ps, WellFormedPmt s

namespace PacketHandler

/-! ## The invariant -/

/-- The packets a proxy took off its input, each with what it forwarded for it. -/
def relayed (history : List Event) : List Proxied :=
  history.filterMap fun
    | .proxied e => some e
    | _ => none

def reads (history : List Event) : List Packet := (relayed history).map Proxied.packet

/-- The packets appended to `frame_buff`. -/
def units (history : List Event) : List Packet := (relayed history).filterMap Proxied.unit

/-- How far a proxy has read. -/
def cfg (h : PacketHandler) : Cfg Bool UInt8 Packet := ⟨h.isSync, h.inBuff, reads h.history⟩

variable {env : Env} {output : Output} {program : Program} {sent : List Bytes} {h h' : PacketHandler}

/-- A proxy that has handed over the frames `sent`. -/
structure Proxying (env : Env) (output : Output) (program : Program) (sent : List Bytes)
    (h : PacketHandler) : Prop where
  output_eq : h.output = output
  dirtyCa : h.dirtyCa = false
  tracks : h.tables.Tracks env output program (reads h.history)
  relays : relayAll env output program .new (reads h.history) = .ok (relayed h.history, h.tables)
  law : Log.Each (RelayLaw env output program) (relayed h.history)
  synced : ∀ p ∈ reads h.history, byte p.bytes 0 = tsSyncByte
  bytes : sent.flatten ++ h.frameBuff = (units h.history).flatMap Packet.bytes
  sizes : ∀ frame ∈ sent, frame.length = h.getPktSize

theorem relayed_proxied (history : List Event) (e : Proxied) :
    relayed (history ++ [.proxied e]) = relayed history ++ [e] := by
  simp [relayed]

theorem reads_proxied (history : List Event) (e : Proxied) :
    reads (history ++ [.proxied e]) = reads history ++ [e.packet] := by
  simp [reads, relayed_proxied]

theorem units_proxied (history : List Event) (e : Proxied) :
    units (history ++ [.proxied e]) = units history ++ e.unit.toList := by
  cases h : e.unit <;> simp [units, relayed_proxied, h]

/-! ## One packet -/

/-- `proxy_packet` forwards what `relay` says. -/
theorem proxyPid_eq (env : Env) (program : Program) (hca : h.dirtyCa = false) (p : Packet) :
    ∃ more : Bool, h.proxyPid env program p = do
    let (u, t) ← relay env h.output program h.tables p
    return (more, { h with tables := t }.forward p u) := by
  have hdirty : h.isDirty = (h.tables.dirtyPat || h.tables.dirtyPmt) := by rw [isDirty, hca, Bool.or_false]
  rw [proxyPid, relay, hdirty]
  split_ifs with h0 hp hd hpcr hpass hmedia hpass
  · refine ⟨true, ?_⟩
    cases h.tables.processPat env program p with
    | error => rfl
    | ok t => simp only [ok_bind]; split_ifs <;> rfl
  · refine ⟨true, ?_⟩
    cases h.tables.processPmt env h.output program p with
    | error => rfl
    | ok t => simp only [ok_bind]; split_ifs <;> rfl
  · exact ⟨false, rfl⟩
  · exact ⟨true, rfl⟩
  · exact absurd (.inl hpcr) hpass
  · exact ⟨true, rfl⟩
  · exact absurd (.inr hmedia) hpass
  · rename_i hpass
    exact (hpass.elim hpcr hmedia).elim
  · exact ⟨true, rfl⟩

/-- A packet is forwarded. -/
theorem Proxying.forward {p : Packet} {u : Option Packet} {t : Tables} (i : h.Proxying env output program sent)
    (hs : byte p.bytes 0 = tsSyncByte) (hr : relay env output program h.tables p = .ok (u, t)) :
    ({ h with tables := t }.forward p u).Proxying env output program sent := by
  obtain ⟨ht, hlaw⟩ := i.tracks.relay hs hr
  have hreads : reads ({ h with tables := t }.forward p u).history = reads h.history ++ [p] :=
    reads_proxied ..
  have hrelayed : relayed ({ h with tables := t }.forward p u).history = relayed h.history ++ [⟨p, u, t⟩] :=
    relayed_proxied ..
  refine ⟨i.output_eq, i.dirtyCa, hreads ▸ ht, ?_, ?_, ?_, ?_, i.sizes⟩
  · rw [hreads, hrelayed]
    exact relayAll_snoc i.relays hr
  · rw [hrelayed]
    exact i.law.snoc ⟨ht, hlaw⟩
  · rw [hreads]
    intro q hq
    rcases List.mem_append.1 hq with hq | hq
    · exact i.synced q hq
    · rwa [List.mem_singleton.1 hq]
  · change sent.flatten ++ (h.frameBuff ++ _) = (units (h.history ++ [_])).flatMap Packet.bytes
    rw [units_proxied, List.flatMap_append, ← i.bytes, List.append_assoc]
    cases u <;> simp

/-- The end of the loop moves bytes from `frame_buff` into a frame. -/
theorem Proxying.splitFrame (i : h.Proxying env output program sent) :
    h.splitFrame.2.Proxying env output program (sent ++ h.splitFrame.1) ∧
      ∃ frameBuff, h.splitFrame.2 = { h with frameBuff } := by
  rw [PacketHandler.splitFrame]
  split_ifs with hl
  · refine ⟨⟨i.output_eq, i.dirtyCa, i.tracks, i.relays, i.law, i.synced, ?_, fun frame hf => ?_⟩, _,
      rfl⟩
    · rw [← i.bytes]
      simp
    · rcases List.mem_append.1 hf with hf | hf
      · exact i.sizes frame hf
      · obtain rfl := List.mem_singleton.1 hf
        exact (List.length_take ..).trans (Nat.min_eq_left hl)
  · rw [List.append_nil]
    exact ⟨i, _, rfl⟩

/-- **One packet.** -/
theorem Proxying.proxyTs {p : Packet} {frames : List Bytes} (i : h.Proxying env output program sent)
    (hprog : output.programs = [program]) (hs : byte p.bytes 0 = tsSyncByte)
    (e : h.proxyTs env p = .ok (frames, h')) : h'.Proxying env output program (sent ++ frames) ∧
      h'.cfg = ⟨h.isSync, h.inBuff, reads h.history ++ [p]⟩ := by
  have hget : h.getProgram = .ok program := by rw [getProgram, i.output_eq, hprog]; rfl
  obtain ⟨more, hpid⟩ := proxyPid_eq env program i.dirtyCa p
  rw [PacketHandler.proxyTs, hget, ok_bind, hpid] at e
  obtain ⟨_, e₁, e⟩ := bind_eq_ok.1 e
  obtain ⟨⟨u, t⟩, hr, e₁⟩ := bind_eq_ok.1 e₁
  cases e₁
  rw [i.output_eq] at hr
  have hi := i.forward hs hr
  have hcfg : ({ h with tables := t }.forward p u).cfg = ⟨h.isSync, h.inBuff, reads h.history ++ [p]⟩ :=
    congrArg (Cfg.mk h.isSync h.inBuff) (reads_proxied ..)
  cases more with
  | true =>
    obtain ⟨hi', frameBuff, hsplit⟩ := hi.splitFrame
    have e := Except.ok.inj e
    rw [if_pos rfl] at e
    rw [e] at hi' hsplit
    dsimp only at hi' hsplit
    subst hsplit
    exact ⟨hi', hcfg⟩
  | false =>
    cases e
    rw [List.append_nil]
    exact ⟨hi, hcfg⟩

theorem Proxying.input (i : h.Proxying env output program sent) (isSync : Bool) (inBuff : Bytes) :
    { h with isSync, inBuff }.Proxying env output program sent :=
  ⟨i.output_eq, i.dirtyCa, i.tracks, i.relays, i.law, i.synced, i.bytes, i.sizes⟩

/-- **The loop goes steps of the reader.** -/
theorem Proxying.proxyLoop (hprog : output.programs = [program]) : ∀ (n : ℕ) {sent frames : List Bytes}
    {h h' : PacketHandler}, h.Proxying env output program sent → h.isSync = true →
      n * tsPacketSize ≤ h.inBuff.length → h.proxyLoop env n = .ok (frames, h') →
      h'.Proxying env output program (sent ++ frames) ∧ ReflTransGen ReadStep h.cfg h'.cfg
  | 0, sent, frames, h, h', i, _, _, e => by
    cases e
    rw [List.append_nil]
    exact ⟨i, .refl⟩
  | n + 1, sent, frames, h, h', i, hsync, hlen, e => by
    have hsize : tsPacketSize ≤ h.inBuff.length := by
      rw [Nat.add_one_mul] at hlen
      omega
    rw [PacketHandler.proxyLoop] at e
    split_ifs at e with hb
    · obtain ⟨⟨frame, h₁⟩, e₁, e⟩ := bind_eq_ok.1 e
      obtain ⟨⟨frames', h₂⟩, e₂, e⟩ := bind_eq_ok.1 e
      cases e
      obtain ⟨i₁, hcfg⟩ :=
        (i.input h.isSync (h.inBuff.drop tsPacketSize)).proxyTs hprog (Packet.ofBytes_sync hb) e₁
      have hstep : ReadStep h.cfg h₁.cfg := by
        rw [hcfg, cfg, hsync]
        exact .packet hsize hb
      have hsync₁ : h₁.isSync = true := (congrArg Cfg.mode hcfg).trans hsync
      have hbuff : h₁.inBuff = h.inBuff.drop tsPacketSize := congrArg Cfg.rest hcfg
      obtain ⟨i₂, s₂⟩ := Proxying.proxyLoop hprog n i₁ hsync₁
        (by rw [hbuff, List.length_drop]; rw [Nat.add_one_mul] at hlen; omega) e₂
      rw [← List.append_assoc]
      exact ⟨i₂, .head hstep s₂⟩
    · cases e
      rw [List.append_nil]
      refine ⟨i.input false h.inBuff, .single ?_⟩
      rw [cfg, hsync]
      exact .unlock hsize hb

/-- Nothing that can be read from here on completes an ill-formed table. -/
def Safe (program : Program) (c : Cfg Bool UInt8 Packet) : Prop :=
  ∀ c', ReflTransGen ReadStep c c' → WellFormedTables program c'.out

theorem Safe.steps {c c' : Cfg Bool UInt8 Packet} (hc : Safe program c) (s : ReflTransGen ReadStep c c') :
    Safe program c' := fun d s' => hc d (s.trans s')

/-- Where a chunk leaves the search for sync. -/
theorem sync_steps (h : PacketHandler) (chunk : Bytes) {isSync : Bool} {inBuff : Bytes}
    (e : (if h.isSync then (true, h.inBuff ++ chunk) else syncBuffer (h.inBuff ++ chunk)) = (isSync, inBuff)) :
    ReflTransGen ReadStep (h.cfg.feed chunk) ⟨isSync, inBuff, reads h.history⟩ := by
  rw [cfg, Cfg.feed]
  cases hs : h.isSync with
  | true =>
    rw [hs] at e
    cases e
    exact .refl
  | false =>
    rw [hs, if_neg (by decide)] at e
    have s := syncLoop_steps (reads h.history) ((h.inBuff ++ chunk).length + 1) (h.inBuff ++ chunk)
    rw [show syncLoop _ _ = (isSync, inBuff) from e] at s
    exact s

theorem Proxying.proxyFrames {chunk : Bytes} {frames : List Bytes} (i : h.Proxying env output program sent)
    (hprog : output.programs = [program]) (e : h.proxyFrames env chunk = .ok (frames, h')) :
    h'.Proxying env output program (sent ++ frames) ∧ ReflTransGen ReadStep (h.cfg.feed chunk) h'.cfg := by
  rw [PacketHandler.proxyFrames] at e
  generalize hsync : (if h.isSync then (true, h.inBuff ++ chunk) else syncBuffer (h.inBuff ++ chunk)) = r at e
  obtain ⟨isSync, inBuff⟩ := r
  have s := sync_steps h chunk hsync
  have i₀ := i.input isSync inBuff
  dsimp only at e
  split_ifs at e with hs
  · subst hs
    obtain ⟨i₁, s₁⟩ := i₀.proxyLoop hprog _ rfl (Nat.div_mul_le_self ..) e
    exact ⟨i₁, s.trans s₁⟩
  · cases e
    rw [List.append_nil]
    exact ⟨i₀, s⟩

/-- **A run of a proxy reads the stream of its chunks**, and forwards what `relayAll` says. -/
theorem Proxying.proxyRun {handler : Bytes → Option ℕ} (hprog : output.programs = [program]) :
    ∀ {chunks sent frames : List Bytes} {h h' : PacketHandler}, h.Proxying env output program sent →
      h.proxyRun env handler chunks = .ok (frames, h') →
      h'.Proxying env output program (sent ++ frames) ∧ Fed reader h.cfg chunks h'.cfg
  | [], sent, frames, h, h', i, e => by
    cases e
    rw [List.append_nil]
    exact ⟨i, .nil _⟩
  | chunk :: chunks, sent, frames, h, h', i, e => by
    have hne : h.output.programs ≠ [] := by rw [i.output_eq, hprog]; simp
    rw [PacketHandler.proxyRun, proxyPacket, if_neg hne] at e
    obtain ⟨⟨n, frames₁, h₁⟩, e₁, e⟩ := bind_eq_ok.1 e
    obtain ⟨⟨frames₂, h₂⟩, e₂, e⟩ := bind_eq_ok.1 e
    obtain ⟨⟨frames₃, h₃⟩, e₃, e₁⟩ := bind_eq_ok.1 e₁
    cases e
    cases e₁
    obtain ⟨i₁, s₁⟩ := i.proxyFrames hprog e₃
    obtain ⟨i₂, s₂⟩ := Proxying.proxyRun hprog i₁ e₂
    rw [← List.append_assoc]
    exact ⟨i₂, .cons s₁ s₂⟩

end PacketHandler

end MyMuxer
