import MyMuxer.Psi.Packing
import MyMuxer.Psi.Pmt
import MyMuxer.Psi.Sdt
import Mathlib.Data.List.AList

/-!
# The probe (`probe.rs`)

`Probe::process` over a buffer: it takes the PAT, then the SDT and the PMTs, and describes the streams.

* `ProbeProgram`, `Probe`: the programs found, and the state of the probe.
* `step`, `process`: one packet, and the packets of the buffer.
* `takes`, `taken`: the sections that the probe takes, the PAT and then those for PMTs.
* **`pmt_owner_iff`**: every program has its own PMT exactly if the last section taken on each PMT PID is that
  of the first program with this PID; `pmt_owner_otherwise`.
-/

namespace MyMuxer.Probing

open Psi

/-- `source` is not part of the program: the section that `pmt` was parsed from. -/
structure ProbeProgram where
  pat : PatInfo
  pmt : Option PmtInfo
  sdt : Option SdtInfo
  source : Option Bytes

def ProbeProgram.new (pat : PatInfo) : ProbeProgram where
  pat
  pmt := none
  sdt := none
  source := none

def ProbeProgram.setPmt (program : ProbeProgram) (pmt : PmtInfo) (section_ : Bytes) : ProbeProgram :=
  { program with pmt := some pmt, source := some section_ }

def ProbeProgram.setSdt (program : ProbeProgram) (sdt : SdtInfo) : ProbeProgram := { program with sdt := some sdt }

abbrev PidToStream : Type := AList fun _ : UInt16 => UInt8

/-- The reassembler of elementary streams: what it returns for a packet is the description of the stream that
it has parsed, or none in it. -/
structure PesReassemblerMap where
  State : Type
  new : State
  push : State → Bytes → PidToStream → Rs (Option (Option String) × State)

structure Probe where
  inBuff : Bytes
  isSync : Bool
  isPat : Bool
  isSdt : Bool
  isPmt : Bool
  isPes : Bool
  pidToStream : PidToStream
  psiReasm : SectionReassemblerMap
  probeInfo : Option (List ProbeProgram)

def Probe.new : Probe where
  inBuff := []
  isSync := false
  isPat := false
  isSdt := false
  isPmt := false
  isPes := false
  pidToStream := ∅
  psiReasm := .new
  probeInfo := none

def streamAllowed (streamType : UInt8) : Bool := streamType ∈ ([2, 3, 4, 15, 27] : List UInt8)

/-- `iter_mut().find(..)`, and a change of what is found. -/
def updateFirst {α : Type} (p : α → Bool) (f : α → α) (l : List α) : List α := l.modify (l.findIdx p) f

/-- The first stream with the PID, in the programs that have a PMT. -/
def describe (id : UInt16) (description : String) : List ProbeProgram → Option (List ProbeProgram)
  | [] => none
  | program :: programs =>
    match program.pmt with
    | none => (describe id description programs).map (program :: ·)
    | some pmt =>
      if pmt.streams.any fun stream => stream.pid = id then
        let streams := updateFirst (fun stream => stream.pid = id)
          (fun stream => { stream with description }) pmt.streams
        some ({ program with pmt := some { pmt with streams } } :: programs)
      else (describe id description programs).map (program :: ·)

namespace Probe

/-- `self.probe_info.as_mut().unwrap()`. -/
def programs (probe : Probe) : Rs (List ProbeProgram) := unwrap probe.probeInfo

def processPat (probe : Probe) (pktData : Bytes) : Rs Probe := do
  let (section_, psiReasm) := probe.psiReasm.push pktData
  let probe := { probe with psiReasm }
  match section_ with
  | none => return probe
  | some section_ => do
    let pats ← analyzePat section_
    return { probe with probeInfo := some (pats.map .new), isPat := true }

def processSdt (env : Env) (probe : Probe) (pktData : Bytes) : Rs Probe := do
  let (section_, psiReasm) := probe.psiReasm.push pktData
  let probe := { probe with psiReasm }
  match section_ with
  | none => return probe
  | some section_ => do
    let sdts ← analyzeSdt env section_
    if sdts = [] then return { probe with isSdt := true }
    else do
      let programs ← probe.programs
      let programs := sdts.foldl
        (fun programs sdt => updateFirst (fun program => program.pat.progNum = sdt.serviceId) (·.setSdt sdt) programs)
        programs
      return { probe with probeInfo := some programs, isSdt := true }

def processPmt (probe : Probe) (id : UInt16) (pktData : Bytes) : Rs Probe := do
  let (section_, psiReasm) := probe.psiReasm.push pktData
  let probe := { probe with psiReasm }
  match section_ with
  | none => return probe
  | some section_ => do
    let pmt ← analyzePmt section_
    let pidToStream := pmt.streams.foldl
      (fun pids stream => if streamAllowed stream.streamType then pids.insert stream.pid stream.streamType else pids)
      probe.pidToStream
    let programs ← probe.programs
    let programs := updateFirst (fun program => program.pat.pmtPid = id) (·.setPmt pmt section_) programs
    return { probe with pidToStream, probeInfo := some programs }

def processPes (pes : PesReassemblerMap) (probe : Probe) (reasm : pes.State) (id : UInt16) (pktData : Bytes) :
    Rs (Probe × pes.State) := do
  let (parsed, reasm) ← pes.push reasm pktData probe.pidToStream
  let described := match parsed with
    | some (some description) => probe.probeInfo.bind (describe id description)
    | _ => none
  let probe := match described with
    | some programs => { probe with probeInfo := some programs, pidToStream := probe.pidToStream.erase id }
    | none => probe
  return ({ probe with isPes := probe.isPes || probe.pidToStream.keys.isEmpty }, reasm)

/-- The first program without a PMT, whose PMT is awaited. -/
def awaited (probe : Probe) : Option ProbeProgram :=
  (probe.probeInfo.getD []).find? fun program => program.pmt.isNone

/-- One packet. -/
def step (env : Env) (pes : PesReassemblerMap) (probe : Probe) (reasm : pes.State) (pktData : Bytes) :
    Rs (Probe × pes.State) := do
  let id := pktPid pktData
  if id = 0x1FFF then return (probe, reasm)
  else if id = 0x0000 ∧ probe.isPat = false then return (← probe.processPat pktData, reasm)
  else if id = 0x0011 ∧ probe.isPat ∧ probe.isSdt = false then return (← probe.processSdt env pktData, reasm)
  else if probe.isPat ∧ probe.isPmt = false then do
    let _ ← probe.programs
    match probe.awaited with
    | some program =>
      if id = program.pat.pmtPid then return (← probe.processPmt id pktData, reasm) else return (probe, reasm)
    | none =>
      -- no PMT is awaited any more, so the packet is taken for a stream
      let probe := { probe with isPmt := true }
      if probe.isPes then return (probe, reasm) else probe.processPes pes reasm id pktData
  else if probe.isPmt ∧ probe.isPes = false then probe.processPes pes reasm id pktData
  else return (probe, reasm)

/-- The loop over the packets from `pointer` on. -/
def processLoop (env : Env) (pes : PesReassemblerMap) :
    ℕ → Probe → pes.State → ℕ → Rs (Option (List ProbeProgram) × Probe)
  | 0, probe, _, _ => return (probe.probeInfo, probe)
  | fuel + 1, probe, reasm, pointer => do
    if byte probe.inBuff pointer = tsSyncByte then do
      let (probe, reasm) ← probe.step env pes reasm ((probe.inBuff.drop pointer).take tsPacketSize)
      processLoop env pes fuel probe reasm (pointer + tsPacketSize)
    else return (none, { probe with isSync := false, inBuff := probe.inBuff.drop pointer })

def process (env : Env) (pes : PesReassemblerMap) (probe : Probe) : Rs (Option (List ProbeProgram) × Probe) :=
  if probe.isSync then processLoop env pes (probe.inBuff.length / tsPacketSize) probe pes.new 0
  else return (none, probe)

/-- A new probe with a buffer that is in sync. -/
def received (buffer : Bytes) : Probe := { Probe.new with inBuff := buffer, isSync := true }

end Probe

/-! ## The sections taken for PMTs -/

/-- `program_number`. -/
def programNumber (section_ : Bytes) : UInt16 := be16 0xFFFF (byte section_ 3) (byte section_ 4)

/-- The PMT of the program, if there is one, was parsed from a section with the program's number. -/
def ProbeProgram.Owns (program : ProbeProgram) : Prop :=
  program.pmt.isSome → ∃ s ∈ program.source, programNumber s = program.pat.progNum

instance (program : ProbeProgram) : Decidable program.Owns := inferInstanceAs (Decidable (_ → _))

/-- The section that a packet completes: the PAT, or one on the PID on which a PMT is awaited. -/
def takes (probe : Probe) (pktData : Bytes) : Option (UInt16 × Bytes) :=
  let id := pktPid pktData
  if id = 0x0000 ∧ probe.isPat = false then (probe.psiReasm.push pktData).1.map (id, ·)
  else if id = 0x1FFF ∨ (id = 0x0011 ∧ probe.isSdt = false) then none
  else if probe.isPat ∧ probe.isPmt = false ∧ probe.awaited.any (fun program => id = program.pat.pmtPid) then
    (probe.psiReasm.push pktData).1.map (id, ·)
  else none

/-- The sections taken from `pointer` on, with their PIDs: first the PAT. -/
def takenFrom (env : Env) (pes : PesReassemblerMap) : ℕ → Probe → pes.State → ℕ → List (UInt16 × Bytes)
  | 0, _, _, _ => []
  | fuel + 1, probe, reasm, pointer =>
    let pktData := (probe.inBuff.drop pointer).take tsPacketSize
    if byte probe.inBuff pointer = tsSyncByte then
      match probe.step env pes reasm pktData with
      | .ok (probe', reasm') =>
        (takes probe pktData).toList ++ takenFrom env pes fuel probe' reasm' (pointer + tsPacketSize)
      | .error _ => []
    else []

def taken (env : Env) (pes : PesReassemblerMap) (buffer : Bytes) : List (UInt16 × Bytes) :=
  takenFrom env pes (buffer.length / tsPacketSize) (.received buffer) pes.new 0

/-- The programs of the PAT. -/
def listed : List (UInt16 × Bytes) → List PatInfo
  | [] => []
  | pat :: _ =>
    match analyzePat pat.2 with
    | .ok pats => pats
    | .error _ => []

/-- The first program with a PID. -/
def firstOf (id : UInt16) (pats : List PatInfo) : Option PatInfo := pats.find? fun pat => pat.pmtPid = id

/-- The section taken last on a PID. -/
def lastOf (id : UInt16) (taken : List (UInt16 × Bytes)) : Option Bytes :=
  (taken.filter fun e => e.1 = id).getLast?.map Prod.snd

/-! ## Where the PMTs come from -/

variable {env : Env} {pes : PesReassemblerMap} {probe probe' : Probe} {reasm reasm' : pes.State}
  {pktData : Bytes} {taken_ : List (UInt16 × Bytes)} {programs programs' : List ProbeProgram} {id : UInt16}

theorem lastOf_append_self (taken_ : List (UInt16 × Bytes)) (id : UInt16) (s : Bytes) :
    lastOf id (taken_ ++ [(id, s)]) = some s := by
  simp [lastOf, List.filter_append]

theorem lastOf_append_of_ne {id' : UInt16} (h : id' ≠ id) (s : Bytes) :
    lastOf id (taken_ ++ [(id', s)]) = lastOf id taken_ := by
  simp [lastOf, List.filter_append, h]

/-- What the origin of the PMTs depends on. -/
def ProbeProgram.origin (program : ProbeProgram) : PatInfo × Option Bytes × Bool :=
  (program.pat, program.source, program.pmt.isSome)

/-- The first program with a PID has the section taken last on it, and the others have none. -/
structure Sourced (taken_ : List (UInt16 × Bytes)) (origins : List (PatInfo × Option Bytes × Bool)) : Prop where
  source : ∀ {k o}, origins[k]? = some o → o.2.1 =
    if (origins.map Prod.fst).findIdx (fun pat => pat.pmtPid = o.1.pmtPid) = k then lastOf o.1.pmtPid taken_ else none
  pmt : ∀ o ∈ origins, o.2.2 = o.2.1.isSome

theorem sourced_new (pats : List PatInfo) : Sourced [] ((pats.map ProbeProgram.new).map ProbeProgram.origin) where
  source {k o} ho := by
    have hmem := List.mem_of_getElem? ho
    simp only [List.map_map, List.mem_map, Function.comp_apply] at hmem
    obtain ⟨pat, -, rfl⟩ := hmem
    split_ifs <;> rfl
  pmt o ho := by
    simp only [List.map_map, List.mem_map, Function.comp_apply] at ho
    obtain ⟨pat, -, rfl⟩ := ho
    rfl

theorem getElem?_updateFirst {α : Type} (p : α → Bool) (f : α → α) (l : List α) (k : ℕ) :
    (updateFirst p f l)[k]? = if l.findIdx p = k then l[k]?.map f else l[k]? := by
  unfold updateFirst
  rw [List.getElem?_modify]
  cases l[k]? with
  | none => split_ifs <;> rfl
  | some a => split_ifs <;> rfl

/-- A change that does not show. -/
theorem map_updateFirst {α β : Type} {g : α → β} {p : α → Bool} {f : α → α} (hf : ∀ a, g (f a) = g a) (l : List α) :
    (updateFirst p f l).map g = l.map g := by
  refine List.ext_getElem? fun k => ?_
  rw [List.getElem?_map, List.getElem?_map, getElem?_updateFirst]
  split_ifs
  · cases l[k]? with
    | none => rfl
    | some a => exact congrArg some (hf a)
  · rfl

theorem of_findIdx {α : Type} {p : α → Bool} {l : List α} {k : ℕ} {a : α} (hk : l.findIdx p = k)
    (ha : l[k]? = some a) : p a = true := by
  obtain ⟨hlt, rfl⟩ := List.getElem?_eq_some_iff.1 ha
  subst hk
  exact List.findIdx_getElem

theorem origin_describe {description : String} :
    ∀ {programs programs' : List ProbeProgram}, describe id description programs = some programs' →
      programs'.map ProbeProgram.origin = programs.map ProbeProgram.origin
  | [], _, h => by cases h
  | program :: programs, programs', h => by
    unfold describe at h
    split at h
    · obtain ⟨rest, hrest, rfl⟩ := Option.map_eq_some_iff.1 h
      exact congrArg (program.origin :: ·) (origin_describe hrest)
    · rename_i pmt hpmt
      dsimp only at h
      split_ifs at h
      · cases h
        simp [ProbeProgram.origin, hpmt]
      · obtain ⟨rest, hrest, rfl⟩ := Option.map_eq_some_iff.1 h
        exact congrArg (program.origin :: ·) (origin_describe hrest)

/-- A PMT goes to the first program with its PID, whatever its number. -/
theorem Sourced.setPmt (h : Sourced taken_ (programs.map ProbeProgram.origin)) (id : UInt16) (pmt : PmtInfo)
    (s : Bytes) : Sourced (taken_ ++ [(id, s)])
      ((updateFirst (fun program => program.pat.pmtPid = id) (·.setPmt pmt s) programs).map ProbeProgram.origin) := by
  have hpats : ((updateFirst (fun program => program.pat.pmtPid = id) (·.setPmt pmt s) programs).map
      ProbeProgram.origin).map Prod.fst = (programs.map ProbeProgram.origin).map Prod.fst := by
    rw [List.map_map, List.map_map]
    refine map_updateFirst (fun program => ?_) programs
    rfl
  have hfirst : ((programs.map ProbeProgram.origin).map Prod.fst).findIdx (fun pat => pat.pmtPid = id) =
      programs.findIdx fun program => program.pat.pmtPid = id := by
    rw [List.map_map, List.findIdx_map]
    rfl
  constructor
  · intro k o ho
    rw [hpats]
    rw [List.getElem?_map, getElem?_updateFirst] at ho
    obtain ⟨program', hprogram', rfl⟩ := Option.map_eq_some_iff.1 ho
    split_ifs at hprogram' with hk
    · obtain ⟨program, hprogram, rfl⟩ := Option.map_eq_some_iff.1 hprogram'
      have hpid : program.pat.pmtPid = id := by simpa using of_findIdx hk hprogram
      change some s = if _ = k then lastOf program.pat.pmtPid _ else none
      simp only [ProbeProgram.origin, ProbeProgram.setPmt, hpid]
      rw [hfirst, if_pos hk, lastOf_append_self]
    · have hold := h.source (k := k) (o := program'.origin) (by rw [List.getElem?_map, hprogram']; rfl)
      rw [hold]
      by_cases hpid : program'.pat.pmtPid = id
      · simp only [ProbeProgram.origin, hpid]
        rw [hfirst, if_neg hk, if_neg hk]
      · exact if_congr Iff.rfl (lastOf_append_of_ne (Ne.symm hpid) s).symm rfl
  · intro o ho
    obtain ⟨program', hprogram', rfl⟩ := List.mem_map.1 ho
    obtain ⟨k, hk⟩ := List.mem_iff_getElem?.1 hprogram'
    rw [getElem?_updateFirst] at hk
    split_ifs at hk
    · obtain ⟨program, -, rfl⟩ := Option.map_eq_some_iff.1 hk
      rfl
    · exact h.pmt _ (List.mem_map_of_mem (List.mem_of_getElem? hk))

/-- What the steps keep. -/
structure Kept (taken_ : List (UInt16 × Bytes)) (probe : Probe) : Prop where
  sourced : Sourced taken_.tail ((probe.probeInfo.getD []).map ProbeProgram.origin)
  pats : ((probe.probeInfo.getD []).map ProbeProgram.origin).map Prod.fst = listed taken_
  first : probe.isPat = false → taken_ = []
  later : probe.isPat = true → taken_ ≠ []

theorem Kept.congr (h : Kept taken_ probe)
    (hinfo : (probe'.probeInfo.getD []).map ProbeProgram.origin = (probe.probeInfo.getD []).map ProbeProgram.origin)
    (hpat : probe'.isPat = probe.isPat) : Kept taken_ probe' :=
  ⟨hinfo ▸ h.sourced, hinfo ▸ h.pats, fun hp => h.first (hpat ▸ hp), fun hp => h.later (hpat ▸ hp)⟩

theorem Kept.append_none (h : Kept taken_ probe) :
    Kept (taken_ ++ (none : Option (UInt16 × Bytes)).toList) probe := by
  rw [Option.toList_none, List.append_nil]
  exact h

theorem listed_append (h : taken_ ≠ []) (l : List (UInt16 × Bytes)) : listed (taken_ ++ l) = listed taken_ := by
  cases taken_ with
  | nil => exact absurd rfl h
  | cons pat rest => rfl

theorem Kept.processPat (h : Kept taken_ probe) (hpat : probe.isPat = false)
    (hp : probe.processPat pktData = .ok probe') :
    Kept (taken_ ++ ((probe.psiReasm.push pktData).1.map (id, ·)).toList) probe' := by
  obtain rfl := h.first hpat
  unfold Probe.processPat at hp
  dsimp only at hp
  split at hp
  · rename_i hnone
    cases hp
    rw [hnone]
    exact h.congr rfl rfl
  · rename_i s hs
    obtain ⟨pats, hpats, hp⟩ := bind_eq_ok.1 hp
    cases hp
    rw [hs]
    refine ⟨sourced_new pats, ?_, fun hp => absurd hp.symm Bool.false_ne_true, fun _ => List.cons_ne_nil _ _⟩
    simp only [Option.map_some, Option.toList_some, List.nil_append, listed, hpats, Option.getD_some, List.map_map]
    exact List.map_id pats

theorem Kept.processSdt (h : Kept taken_ probe) (hp : probe.processSdt env pktData = .ok probe') :
    Kept taken_ probe' := by
  have hfold : ∀ (sdts : List SdtInfo) (programs : List ProbeProgram), (sdts.foldl
      (fun programs sdt => updateFirst (fun program => program.pat.progNum = sdt.serviceId) (·.setSdt sdt) programs)
      programs).map ProbeProgram.origin = programs.map ProbeProgram.origin := by
    intro sdts
    induction sdts with
    | nil => exact fun _ => rfl
    | cons sdt sdts ih =>
      refine fun programs => (ih _).trans (map_updateFirst (fun program => ?_) programs)
      rfl
  unfold Probe.processSdt at hp
  dsimp only at hp
  split at hp
  · cases hp
    exact h.congr rfl rfl
  · obtain ⟨sdts, -, hp⟩ := bind_eq_ok.1 hp
    split_ifs at hp
    · cases hp
      exact h.congr rfl rfl
    · obtain ⟨programs, hprograms, hp⟩ := bind_eq_ok.1 hp
      cases hp
      have hinfo : probe.probeInfo = some programs := unwrap_eq_ok.1 hprograms
      refine h.congr ?_ rfl
      rw [hinfo]
      exact hfold sdts programs

theorem Kept.processPmt (h : Kept taken_ probe) (hpat : probe.isPat = true)
    (hp : probe.processPmt id pktData = .ok probe') :
    Kept (taken_ ++ ((probe.psiReasm.push pktData).1.map (id, ·)).toList) probe' := by
  unfold Probe.processPmt at hp
  dsimp only at hp
  split at hp
  · rename_i hnone
    cases hp
    rw [hnone]
    have hrest : Kept taken_ { probe with psiReasm := (probe.psiReasm.push pktData).2 } := h.congr rfl rfl
    exact hrest.append_none
  · rename_i s hs
    obtain ⟨pmt, -, hp⟩ := bind_eq_ok.1 hp
    obtain ⟨programs, hprograms, hp⟩ := bind_eq_ok.1 hp
    cases hp
    have hinfo : probe.probeInfo = some programs := unwrap_eq_ok.1 hprograms
    have hsourced := h.sourced
    have hpats := h.pats
    rw [hinfo] at hsourced hpats
    have htaken := h.later hpat
    rw [hs]
    refine ⟨?_, ?_, fun hp => absurd (hpat.symm.trans hp) (by decide),
      fun _ => List.append_ne_nil_of_left_ne_nil htaken _⟩
    · rw [List.tail_append_of_ne_nil htaken]
      exact hsourced.setPmt id pmt s
    · rw [listed_append htaken, ← hpats, List.map_map, List.map_map]
      refine map_updateFirst (fun program => ?_) programs
      rfl

theorem Kept.processPes (h : Kept taken_ probe) (hp : probe.processPes pes reasm id pktData = .ok (probe', reasm')) :
    Kept taken_ probe' := by
  unfold Probe.processPes at hp
  obtain ⟨⟨parsed, reasm₁⟩, -, hp⟩ := bind_eq_ok.1 hp
  dsimp only at hp
  cases hp
  split
  · rename_i programs hdescribed
    refine h.congr ?_ rfl
    split at hdescribed
    · obtain ⟨old, hold, hdescribe⟩ := Option.bind_eq_some_iff.1 hdescribed
      rw [hold]
      exact origin_describe hdescribe
    · cases hdescribed
  · exact h.congr rfl rfl

/-- **A packet adds the section that it completes.** -/
theorem Kept.step (h : Kept taken_ probe) (hs : probe.step env pes reasm pktData = .ok (probe', reasm')) :
    Kept (taken_ ++ (takes probe pktData).toList) probe' := by
  unfold Probe.step at hs
  unfold takes
  dsimp only at hs ⊢
  by_cases hnull : pktPid pktData = 0x1FFF
  · rw [if_pos hnull] at hs
    cases hs
    rw [if_neg fun h => absurd (hnull.symm.trans h.1) (by decide), if_pos (.inl hnull)]
    exact h.append_none
  rw [if_neg hnull] at hs
  by_cases hpat : pktPid pktData = 0x0000 ∧ probe.isPat = false
  · rw [if_pos hpat] at hs
    obtain ⟨probe₁, hp, hs⟩ := bind_eq_ok.1 hs
    cases hs
    rw [if_pos hpat]
    exact h.processPat hpat.2 hp
  rw [if_neg hpat] at hs
  rw [if_neg hpat]
  by_cases hsdt : pktPid pktData = 0x0011 ∧ probe.isPat ∧ probe.isSdt = false
  · rw [if_pos hsdt] at hs
    obtain ⟨probe₁, hp, hs⟩ := bind_eq_ok.1 hs
    cases hs
    rw [if_pos (.inr ⟨hsdt.1, hsdt.2.2⟩)]
    exact (h.processSdt hp).append_none
  rw [if_neg hsdt] at hs
  by_cases hpmt : probe.isPat ∧ probe.isPmt = false
  · rw [if_pos hpmt] at hs
    have hnot : ¬ (pktPid pktData = 0x1FFF ∨ pktPid pktData = 0x0011 ∧ probe.isSdt = false) :=
      fun h => h.elim hnull fun h => hsdt ⟨h.1, hpmt.1, h.2⟩
    rw [if_neg hnot]
    obtain ⟨_, -, hs⟩ := bind_eq_ok.1 hs
    cases hawaited : probe.awaited with
    | some program =>
      rw [hawaited] at hs
      by_cases hid : pktPid pktData = program.pat.pmtPid
      · obtain ⟨probe₁, hp, hs⟩ := bind_eq_ok.1 ((if_pos hid).symm.trans hs)
        cases hs
        rw [if_pos ⟨hpmt.1, hpmt.2, by simp [hid]⟩]
        exact h.processPmt hpmt.1 hp
      · cases (if_neg hid).symm.trans hs
        rw [if_neg (by simp [hid])]
        exact h.append_none
    | none =>
      rw [hawaited] at hs
      rw [if_neg (by simp)]
      have h' : Kept taken_ { probe with isPmt := true } := h.congr rfl rfl
      dsimp only at hs
      split_ifs at hs
      · cases hs
        exact h'.append_none
      · exact (h'.processPes hs).append_none
  · rw [if_neg hpmt] at hs
    rw [if_neg (c := probe.isPat = true ∧ _) fun h => hpmt ⟨h.1, h.2.1⟩, ite_self]
    split_ifs at hs
    · exact (h.processPes hs).append_none
    · cases hs
      exact h.append_none

/-- What the loop keeps. -/
theorem Kept.processLoop : ∀ {fuel : ℕ} {probe : Probe} {reasm : pes.State} {pointer : ℕ}
    {taken_ : List (UInt16 × Bytes)} {found : List ProbeProgram} {probe' : Probe}, Kept taken_ probe →
      Probe.processLoop env pes fuel probe reasm pointer = .ok (some found, probe') →
      probe'.probeInfo = some found ∧ Kept (taken_ ++ takenFrom env pes fuel probe reasm pointer) probe'
  | 0, probe, reasm, pointer, taken_, found, probe', h, hp => by
    obtain ⟨hinfo, rfl⟩ := Prod.mk.inj (Except.ok.inj hp)
    rw [takenFrom, List.append_nil]
    exact ⟨hinfo, h⟩
  | fuel + 1, probe, reasm, pointer, taken_, found, probe', h, hp => by
    unfold Probe.processLoop at hp
    unfold takenFrom
    dsimp only
    split_ifs at hp ⊢
    · obtain ⟨⟨probe₁, reasm₁⟩, hstep, hp⟩ := bind_eq_ok.1 hp
      rw [hstep]
      dsimp only at hp ⊢
      rw [← List.append_assoc]
      exact (h.step hstep).processLoop hp
    · cases hp

theorem kept_received (buffer : Bytes) : Kept [] (.received buffer) :=
  ⟨sourced_new [], rfl, fun _ => rfl, fun hp => absurd hp Bool.false_ne_true⟩

/-- **Every program has the PMT of its own number exactly if the section taken last on every PMT PID has the
number of the first program with this PID.** -/
theorem pmt_owner_iff {buffer : Bytes} (hp : (Probe.received buffer).process env pes = .ok (some programs, probe')) :
    (∀ program ∈ programs, program.Owns) ↔
      ∀ id s, lastOf id (taken env pes buffer).tail = some s →
        ∀ pat, firstOf id (listed (taken env pes buffer)) = some pat → programNumber s = pat.progNum := by
  obtain ⟨hinfo, h⟩ : probe'.probeInfo = some programs ∧ Kept (taken env pes buffer) probe' := by
    have hloop := (kept_received buffer).processLoop hp
    rwa [List.nil_append] at hloop
  have hpats : listed (taken env pes buffer) = programs.map ProbeProgram.pat := by
    rw [← h.pats, hinfo, List.map_map]
    rfl
  have hsourced : Sourced (taken env pes buffer).tail (programs.map ProbeProgram.origin) := by
    have hsourced := h.sourced
    rwa [hinfo] at hsourced
  have hsource : ∀ {k program}, programs[k]? = some program → program.source =
      if (programs.map ProbeProgram.pat).findIdx (fun pat => pat.pmtPid = program.pat.pmtPid) = k
        then lastOf program.pat.pmtPid (taken env pes buffer).tail else none := by
    intro k program hk
    have hk' : (programs.map ProbeProgram.origin)[k]? = some program.origin := by rw [List.getElem?_map, hk]; rfl
    have hfst : (programs.map ProbeProgram.origin).map Prod.fst = programs.map ProbeProgram.pat := by
      rw [List.map_map]
      rfl
    exact hfst ▸ hsourced.source hk'
  have hpmt : ∀ program ∈ programs, program.pmt.isSome = program.source.isSome :=
    fun program hmem => hsourced.pmt _ (List.mem_map_of_mem hmem)
  rw [hpats]
  constructor
  · intro hown id s hlast pat hfirst
    rw [firstOf, List.find?_eq_getElem?_findIdx, List.getElem?_map] at hfirst
    obtain ⟨program, hk, rfl⟩ := Option.map_eq_some_iff.1 hfirst
    have hpid : program.pat.pmtPid = id := by
      have hfound := of_findIdx (l := programs.map ProbeProgram.pat) rfl ((List.getElem?_map ..).trans hfirst)
      simpa using hfound
    have hs : program.source = some s := by
      rw [hsource hk, hpid, if_pos rfl]
      exact hlast
    have hmem := List.mem_of_getElem? hk
    obtain ⟨s', hs', hnumber⟩ := hown program hmem (by rw [hpmt program hmem, hs]; rfl)
    obtain rfl := Option.some.inj (hs.symm.trans hs')
    exact hnumber
  · intro hlast program hmem hsome
    obtain ⟨k, hk⟩ := List.mem_iff_getElem?.1 hmem
    obtain ⟨s, hs⟩ := Option.isSome_iff_exists.1 ((hpmt program hmem).symm.trans hsome)
    have hfound := (hsource hk).symm.trans hs
    split_ifs at hfound with hfirst
    refine ⟨s, hs, hlast _ s hfound program.pat ?_⟩
    rw [firstOf, List.find?_eq_getElem?_findIdx, hfirst, List.getElem?_map, hk]
    rfl

/-- A stream of which nothing is parsed. -/
def PesReassemblerMap.silent : PesReassemblerMap where
  State := Unit
  new := ()
  push _ _ _ := .ok (none, ())

/-- A PAT with the programs 1 and 2, on the PIDs given. -/
def samplePat (pmtPid₁ pmtPid₂ : UInt16) : Packet := packed true 0x0000 0 (withCrc Env.sample
  ([0x00, 0xB0, 0x11, 0x00, 0x01, 0xC1, 0x00, 0x00] ++ [(1, pmtPid₁), (2, pmtPid₂)].flatMap patEntry))

def samplePmtSection (programId : UInt8) : Bytes := withCrc Env.sample
  [0x02, 0xB0, 0x0D, 0x00, programId, 0xC1, 0x00, 0x00, 0xE2, 0x00, 0xF0, 0x00]

def sampleBuffer (pmtPid₁ pmtPid₂ : UInt16) (pmts : List (UInt16 × UInt8)) : Bytes :=
  (samplePat pmtPid₁ pmtPid₂).bytes ++ pmts.flatMap fun pmt => (packed true pmt.1 0 (samplePmtSection pmt.2)).bytes

/-- Which of the programs have a PMT, and which have their own. -/
def owners : Rs (Option (List ProbeProgram) × Probe) → List (Bool × Bool)
  | .ok (some programs, _) => programs.map fun program => (program.pmt.isSome, program.Owns)
  | _ => []

theorem of_owners {r : Rs (Option (List ProbeProgram) × Probe)} (h : owners r ≠ []) :
    ∃ programs probe', r = .ok (some programs, probe') ∧
      owners r = programs.map fun program => (program.pmt.isSome, decide program.Owns) := by
  unfold owners at h ⊢
  split at h
  · exact ⟨_, _, rfl, rfl⟩
  · exact absurd rfl h

/-- Two programs on two PIDs. -/
theorem pmt_owner_sample : ∃ programs probe',
    (Probe.received (sampleBuffer 0x100 0x200 [(0x100, 1), (0x200, 2)])).process Env.sample .silent =
      .ok (some programs, probe') ∧
    (∀ program ∈ programs, program.pmt.isSome ∧ program.Owns) ∧
    ∀ id s, lastOf id (taken Env.sample .silent (sampleBuffer 0x100 0x200 [(0x100, 1), (0x200, 2)])).tail = some s →
      ∀ pat, firstOf id (listed (taken Env.sample .silent (sampleBuffer 0x100 0x200 [(0x100, 1), (0x200, 2)]))) =
        some pat → programNumber s = pat.progNum := by
  have howners : owners ((Probe.received (sampleBuffer 0x100 0x200 [(0x100, 1), (0x200, 2)])).process Env.sample
      .silent) = [(true, true), (true, true)] := by decide +kernel
  obtain ⟨programs, probe', hp, hmap⟩ := of_owners (by rw [howners]; decide)
  have hall : ∀ program ∈ programs, program.pmt.isSome ∧ program.Owns := by
    intro program hmem
    have hin := List.mem_map_of_mem (f := fun program => (program.pmt.isSome, decide program.Owns)) hmem
    rw [← hmap, howners] at hin
    simpa using hin
  exact ⟨programs, probe', hp, hall, (pmt_owner_iff hp).1 fun program hmem => (hall program hmem).2⟩

/-- Two programs on one PID, and the PMT of the second one comes first: the first program gets it. -/
theorem pmt_owner_otherwise : ∃ programs probe',
    (Probe.received (sampleBuffer 0x100 0x100 [(0x100, 2)])).process Env.sample .silent = .ok (some programs, probe') ∧
      ∃ program ∈ programs, program.pmt.isSome ∧ ¬ program.Owns := by
  have howners : owners ((Probe.received (sampleBuffer 0x100 0x100 [(0x100, 2)])).process Env.sample .silent) =
      [(true, false), (false, true)] := by decide +kernel
  obtain ⟨programs, probe', hp, hmap⟩ := of_owners (by rw [howners]; decide)
  refine ⟨programs, probe', hp, ?_⟩
  have hin : (true, false) ∈ programs.map fun program => (program.pmt.isSome, decide program.Owns) := by
    rw [← hmap, howners]
    exact List.mem_cons_self
  obtain ⟨program, hmem, heq⟩ := List.mem_map.1 hin
  exact ⟨program, hmem, (Prod.mk.inj heq).1, of_decide_eq_false (Prod.mk.inj heq).2⟩

end MyMuxer.Probing
