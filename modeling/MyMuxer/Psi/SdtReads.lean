import MyMuxer.Lib.Traced
import MyMuxer.Psi.Panics

/-!
# What `analyze_sdt` reads

* `Access`: what is noted; `analyzeSdtTraced`: `analyzeSdt` with a note of every byte it reads for a service, and of
  every descriptor loop it begins; `result_analyzeSdtTraced`.
* `Access.Inside`: a byte in the descriptor loop of its service, a loop in front of the CRC.
* `LoopFits`, `ServicesFit`: the loops end in front of the CRC, and no service descriptor is too short.
* **`sdt_reads`**: for which sections the analysis finishes and reads nothing else.
-/

namespace MyMuxer.Psi

open MyMuxer Traced

/-- A byte of the header of a service, a descriptor loop from `start` to `limit`, a byte read in it. -/
inductive Access where
  | header (position : ℕ)
  | loop (start limit : ℕ)
  | descriptor (start limit position : ℕ)
  deriving DecidableEq

abbrev Noted (α : Type) : Type := Traced Access Panic α

/-! ## The code, with notes -/

def readAt (s : Bytes) (note : ℕ → Access) (i : ℕ) : Noted UInt8 := { log := [note i], result := idx s i }

def sliceAt (s : Bytes) (note : ℕ → Access) (i j : ℕ) : Noted Bytes :=
  { log := (List.range' i (j - i)).map note, result := slice s i j }

def serviceDescriptorTraced (env : Env) (section_ : Bytes) (note : ℕ → Access) (sid : UInt16) (runningStatus : UInt8)
    (pos len : ℕ) : Noted SdtInfo := do
  let serviceType ← readAt section_ note pos
  let info : SdtInfo :=
    { serviceId := sid, serviceType, providerName := "", serviceName := "", runningStatus }
  let provLen := (← readAt section_ note (pos + 1)).toNat
  if pos + 2 + provLen ≤ pos + len then
    let providerName := parseDvbString env (← sliceAt section_ note (pos + 2) (pos + 2 + provLen))
    let info := { info with providerName }
    let servLenPos := pos + 2 + provLen
    if servLenPos + 1 ≤ pos + len then
      let servLen := (← readAt section_ note servLenPos).toNat
      if servLenPos + 1 + servLen ≤ pos + len then
        let serviceName := parseDvbString env (← sliceAt section_ note (servLenPos + 1) (servLenPos + 1 + servLen))
        return { info with serviceName }
      else return info
    else return info
  else return info

def descriptorLoopTraced (env : Env) (section_ : Bytes) (note : ℕ → Access) (sid : UInt16) (runningStatus : UInt8)
    (innerLimit : ℕ) : ℕ → ℕ → Noted (List SdtInfo × ℕ)
  | 0, pos => return ([], pos)
  | fuel + 1, pos => do
    if pos + 2 ≤ innerLimit then
      let tag ← readAt section_ note pos
      let len := (← readAt section_ note (pos + 1)).toNat
      let pos := pos + 2
      let found ← if tag = 0x48 ∧ pos + len ≤ innerLimit then do
          let info ← serviceDescriptorTraced env section_ note sid runningStatus pos len
          pure [info]
        else pure []
      let (services, pos) ← descriptorLoopTraced env section_ note sid runningStatus innerLimit fuel (pos + len)
      return (found ++ services, pos)
    else return ([], pos)

def serviceLoopTraced (env : Env) (section_ : Bytes) (sectionLimit : ℕ) : ℕ → ℕ → Noted (List SdtInfo)
  | 0, _ => return []
  | fuel + 1, pos => do
    if pos + 5 ≤ sectionLimit then
      let sid := be16 0xFFFF (← readAt section_ .header pos) (← readAt section_ .header (pos + 1))
      let runningStatus := ((← readAt section_ .header (pos + 2)) >>> 5) &&& 0x07
      let descriptorsLoopLen :=
        (be16 0x0F (← readAt section_ .header (pos + 3)) (← readAt section_ .header (pos + 4))).toNat
      let pos := pos + 5
      Traced.note (.loop pos (pos + descriptorsLoopLen))
      let (found, pos) ← descriptorLoopTraced env section_ (.descriptor pos (pos + descriptorsLoopLen)) sid
        runningStatus (pos + descriptorsLoopLen) section_.length pos
      let services ← serviceLoopTraced env section_ sectionLimit fuel pos
      return found ++ services
    else return []

def analyzeSdtTraced (env : Env) (section_ : Bytes) : Noted (List SdtInfo) :=
  if section_.length < 11 ∨ byte section_ 0 ≠ 0x42 then pure []
  else serviceLoopTraced env section_ (section_.length - 4) section_.length 11

/-! ## The notes change nothing -/

section Results

variable (env : Env) (s : Bytes) (note : ℕ → Access) (sid : UInt16) (status : UInt8)

theorem result_readAt (i : ℕ) : (readAt s note i).result = idx s i := rfl

theorem result_sliceAt (i j : ℕ) : (sliceAt s note i j).result = slice s i j := rfl

theorem result_serviceDescriptor (pos len : ℕ) :
    (serviceDescriptorTraced env s note sid status pos len).result = serviceDescriptor env s sid status pos len := by
  unfold serviceDescriptorTraced serviceDescriptor
  simp only [result_bind, result_ite, result_pure, result_readAt, result_sliceAt]
  rfl

theorem result_descriptorLoop (limit : ℕ) : ∀ fuel pos,
    (descriptorLoopTraced env s note sid status limit fuel pos).result =
      descriptorLoop env s sid status limit fuel pos := by
  intro fuel
  induction fuel with
  | zero => exact fun _ => rfl
  | succ fuel ih =>
    intro pos
    rw [descriptorLoopTraced, descriptorLoop]
    simp only [result_bind, result_ite, result_pure, result_readAt, result_serviceDescriptor, ih]
    rfl

theorem result_serviceLoop (limit : ℕ) : ∀ fuel pos,
    (serviceLoopTraced env s limit fuel pos).result = serviceLoop env s limit fuel pos := by
  intro fuel
  induction fuel with
  | zero => exact fun _ => rfl
  | succ fuel ih =>
    intro pos
    rw [serviceLoopTraced, serviceLoop]
    simp only [result_bind, result_ite, result_pure, result_readAt, result_note, result_descriptorLoop, ih]
    rfl

/-- **The notes change nothing.** -/
theorem result_analyzeSdtTraced : (analyzeSdtTraced env s).result = analyzeSdt env s := by
  rw [analyzeSdtTraced, analyzeSdt, result_ite, result_serviceLoop]
  rfl

end Results

/-! ## Which notes are good -/

/-- Bytes of a header in front of the CRC, loops in front of the CRC, bytes of a descriptor in its loop. -/
def Access.Inside (sectionLimit : ℕ) : Access → Prop
  | .header position => position < sectionLimit
  | .loop _ limit => limit ≤ sectionLimit
  | .descriptor start limit position => start ≤ position ∧ position < limit

/-- `LoopFits s limit pos stop`: from `pos` on no service descriptor has so short a body that its first two bytes
are not in the loop, and the loop is left at `stop`. -/
inductive LoopFits (s : Bytes) (limit : ℕ) : ℕ → ℕ → Prop where
  | stop {pos : ℕ} : limit < pos + 2 → LoopFits s limit pos pos
  | descriptor {pos stop : ℕ} : pos + 2 ≤ limit →
      (byte s pos = 0x48 → pos + 2 + (byte s (pos + 1)).toNat ≤ limit → pos + 4 ≤ limit) →
      LoopFits s limit (pos + 2 + (byte s (pos + 1)).toNat) stop → LoopFits s limit pos stop

/-- Every service that begins five bytes in front of the CRC has its loop in front of the CRC too. -/
inductive ServicesFit (s : Bytes) : ℕ → Prop where
  | stop {pos : ℕ} : s.length - 4 < pos + 5 → ServicesFit s pos
  | service {pos next : ℕ} : pos + 5 ≤ s.length - 4 → pos + 5 + descriptorsLoopLen s pos ≤ s.length - 4 →
      LoopFits s (pos + 5 + descriptorsLoopLen s pos) (pos + 5) next → ServicesFit s next → ServicesFit s pos

/-- The lengths in an SDT fit. -/
def SdtFits (s : Bytes) : Prop := s.length < 11 ∨ byte s 0 ≠ 0x42 ∨ ServicesFit s 11

section Logs

variable {P : Access → Prop} {s : Bytes} {note : ℕ → Access} {β : Type}

theorem logs_readAt_bind {i : ℕ} {f : UInt8 → Noted β} :
    Logs P (readAt s note i >>= f) ↔ P (note i) ∧ (i < s.length → Logs P (f (byte s i))) := by
  have hread : Logs P (readAt s note i) ↔ P (note i) := by simp [Logs, readAt]
  rw [logs_bind, hread, result_readAt]
  refine and_congr_right fun _ => ⟨fun h hi => h _ (idx_of_lt hi), ?_⟩
  intro h b hb
  obtain ⟨hi, rfl⟩ := idx_eq_ok.1 hb
  exact h hi

theorem logs_sliceAt_bind {i j : ℕ} (hij : i ≤ j) (hj : j ≤ s.length) {f : Bytes → Noted β} :
    Logs P (sliceAt s note i j >>= f) ↔
      (∀ k, i ≤ k → k < j → P (note k)) ∧ Logs P (f ((s.drop i).take (j - i))) := by
  have hslice : Logs P (sliceAt s note i j) ↔ ∀ k, i ≤ k → k < j → P (note k) := by
    simp only [Logs, sliceAt, List.forall_mem_map, List.mem_range'_1]
    refine forall_congr' fun k => ⟨fun h h1 h2 => h ⟨h1, by omega⟩, fun h hk => h hk.1 (by omega)⟩
  rw [logs_bind_ok (slice_of_le hij hj), hslice]

end Logs

section Loops

variable {env : Env} {s : Bytes} {sid : UInt16} {status : UInt8} {start limit : ℕ}

/-- A service descriptor reads two bytes, whatever its length says, and otherwise keeps to its body. -/
theorem logs_serviceDescriptor (hlimit : limit + 4 ≤ s.length) {pos len : ℕ} (hstart : start ≤ pos)
    (hfit : pos + len ≤ limit) : Logs (Access.Inside (s.length - 4))
      (serviceDescriptorTraced env s (.descriptor start limit) sid status pos len) ↔ pos + 2 ≤ limit := by
  rw [serviceDescriptorTraced, logs_readAt_bind, logs_readAt_bind]
  constructor
  · rintro ⟨⟨-, h0⟩, hrest⟩
    obtain ⟨⟨-, h1⟩, -⟩ := hrest (by omega)
    omega
  · intro h2
    refine ⟨⟨hstart, by omega⟩, fun _ => ⟨⟨by omega, by omega⟩, fun _ => ?_⟩⟩
    dsimp only
    split_ifs with hprov hpos
    · rw [logs_sliceAt_bind (by omega) (by omega), logs_readAt_bind]
      refine ⟨fun k h h' => ⟨by omega, by omega⟩, ⟨by omega, by omega⟩, fun _ => ?_⟩
      split_ifs with hserv
      · rw [logs_sliceAt_bind (by omega) (by omega)]
        exact ⟨fun k h h' => ⟨by omega, by omega⟩, logs_pure _ _⟩
      · exact logs_pure _ _
    · rw [logs_sliceAt_bind (by omega) (by omega)]
      exact ⟨fun k h h' => ⟨by omega, by omega⟩, logs_pure _ _⟩
    · exact logs_pure _ _

/-- The loop is left where it fits. -/
theorem LoopFits.result (env : Env) (sid : UInt16) (status : UInt8) (hlimit : limit + 4 ≤ s.length) {pos stop : ℕ}
    (h : LoopFits s limit pos stop) : ∀ fuel, s.length ≤ pos + fuel →
      ∃ services, descriptorLoop env s sid status limit fuel pos = .ok (services, stop) := by
  induction h with
  | @stop pos hlt =>
    intro fuel _
    cases fuel with
    | zero => exact ⟨_, rfl⟩
    | succ fuel =>
      rw [descriptorLoop, if_neg (by omega)]
      exact ⟨_, rfl⟩
  | @descriptor pos stop hle htwo _ ih =>
    intro fuel hfuel
    cases fuel with
    | zero => omega
    | succ fuel =>
      obtain ⟨services, hrest⟩ := ih fuel (by omega)
      exact descriptorLoop_next env sid status hle hlimit hrest

theorem LoopFits.le_stop {pos stop : ℕ} (h : LoopFits s limit pos stop) : pos ≤ stop := by
  induction h with
  | stop _ => exact le_rfl
  | descriptor _ _ _ ih => omega

/-- A loop in front of the CRC keeps to itself exactly where it fits. -/
theorem logs_descriptorLoop (env : Env) (sid : UInt16) (status : UInt8) (hlimit : limit + 4 ≤ s.length) :
    ∀ fuel pos, start ≤ pos → s.length ≤ pos + fuel → (Logs (Access.Inside (s.length - 4))
      (descriptorLoopTraced env s (.descriptor start limit) sid status limit fuel pos) ↔
        ∃ stop, LoopFits s limit pos stop) := by
  intro fuel
  induction fuel with
  | zero =>
    intro pos _ hfuel
    exact iff_of_true (logs_pure _ _) ⟨pos, .stop (by omega)⟩
  | succ fuel ih =>
    intro pos hstart hfuel
    have hrest := ih (pos + 2 + (byte s (pos + 1)).toNat) (by omega) (by omega)
    -- what follows a descriptor that is read
    have hnext (found : List SdtInfo) : Logs (Access.Inside (s.length - 4))
        (descriptorLoopTraced env s (.descriptor start limit) sid status limit fuel
          (pos + 2 + (byte s (pos + 1)).toNat) >>= fun r => pure (found ++ r.1, r.2)) ↔
            ∃ stop, LoopFits s limit (pos + 2 + (byte s (pos + 1)).toNat) stop := by
      rw [logs_bind, hrest]
      exact and_iff_left fun _ _ => logs_pure _ _
    rw [descriptorLoopTraced]
    split_ifs with hle
    · rw [logs_readAt_bind, logs_readAt_bind]
      constructor
      · rintro ⟨-, hbody⟩
        obtain ⟨-, hbody⟩ := hbody (by omega)
        have hbody := hbody (by omega)
        dsimp only at hbody
        split_ifs at hbody with hserv
        · obtain ⟨info, hinfo⟩ : Finishes (serviceDescriptor env s sid status (pos + 2) (byte s (pos + 1)).toNat) :=
            serviceDescriptor_ok (by omega)
          rw [← result_serviceDescriptor env s (.descriptor start limit)] at hinfo
          rw [logs_bind_ok hinfo, logs_pure_bind, logs_serviceDescriptor hlimit (by omega) hserv.2] at hbody
          obtain ⟨stop, hstop⟩ := (hnext [info]).1 hbody.2
          exact ⟨stop, .descriptor hle (fun _ _ => by omega) hstop⟩
        · rw [logs_pure_bind] at hbody
          obtain ⟨stop, hstop⟩ := (hnext []).1 hbody
          exact ⟨stop, .descriptor hle (fun htag hfit => absurd ⟨htag, hfit⟩ hserv) hstop⟩
      · rintro ⟨stop, hstop⟩
        cases hstop with
        | stop hlt => omega
        | descriptor _ htwo hstop =>
          refine ⟨⟨hstart, by omega⟩, fun _ => ⟨⟨by omega, by omega⟩, fun _ => ?_⟩⟩
          dsimp only
          split_ifs with hserv
          · have := htwo hserv.1 hserv.2
            rw [logs_bind, logs_serviceDescriptor hlimit (by omega) hserv.2]
            refine ⟨by omega, fun info _ => ?_⟩
            rw [logs_pure_bind]
            exact (hnext [info]).2 ⟨stop, hstop⟩
          · rw [logs_pure_bind]
            exact (hnext []).2 ⟨stop, hstop⟩
    · exact iff_of_true (logs_pure _ _) ⟨pos, .stop (by omega)⟩

end Loops

/-! ## The services -/

variable {env : Env} {s : Bytes}

/-- A service after its header, if what follows it is known. -/
theorem logs_service (env : Env) (sid : UInt16) (status : UInt8) (start limit : ℕ) (h4 : 4 ≤ s.length)
    (f : List SdtInfo × ℕ → Noted (List SdtInfo))
    (hf : ∀ services next, start ≤ next →
      (Logs (Access.Inside (s.length - 4)) (f (services, next)) ↔ ServicesFit s next)) :
    Logs (Access.Inside (s.length - 4)) (Traced.note (.loop start limit) >>= fun _ =>
      descriptorLoopTraced env s (.descriptor start limit) sid status limit s.length start >>= f) ↔
    limit ≤ s.length - 4 ∧ ∃ next, LoopFits s limit start next ∧ ServicesFit s next := by
  rw [logs_bind_ok (result_note _), logs_note]
  refine and_congr_right fun (hlimit : limit ≤ s.length - 4) => ?_
  have hloop := logs_descriptorLoop (s := s) env sid status (show limit + 4 ≤ s.length by omega) s.length start le_rfl
    (Nat.le_add_left _ _)
  have hend {next : ℕ} (hnext : LoopFits s limit start next) : ∃ services,
      (descriptorLoopTraced env s (.descriptor start limit) sid status limit s.length start).result =
        .ok (services, next) := by
    rw [result_descriptorLoop]
    exact hnext.result env sid status (by omega) s.length (Nat.le_add_left _ _)
  constructor
  · intro h
    obtain ⟨next, hnext⟩ := hloop.1 (logs_bind.1 h).1
    obtain ⟨services, hresult⟩ := hend hnext
    exact ⟨next, hnext, (hf services next hnext.le_stop).1 ((logs_bind_ok hresult).1 h).2⟩
  · rintro ⟨next, hnext, hrest⟩
    obtain ⟨services, hresult⟩ := hend hnext
    rw [logs_bind_ok hresult]
    exact ⟨hloop.2 ⟨next, hnext⟩, (hf services next hnext.le_stop).2 hrest⟩

theorem logs_serviceLoop (env : Env) (h4 : 4 ≤ s.length) : ∀ fuel pos, s.length ≤ pos + fuel →
    (Logs (Access.Inside (s.length - 4)) (serviceLoopTraced env s (s.length - 4) fuel pos) ↔ ServicesFit s pos) := by
  intro fuel
  induction fuel with
  | zero =>
    intro pos hfuel
    exact iff_of_true (logs_pure _ _) (.stop (by omega))
  | succ fuel ih =>
    intro pos hfuel
    rw [serviceLoopTraced]
    split_ifs with hpos
    · have hnext : ∀ (services : List SdtInfo) (next : ℕ), pos + 5 ≤ next → (Logs (Access.Inside (s.length - 4))
          (serviceLoopTraced env s (s.length - 4) fuel next >>= fun rest => pure (services ++ rest)) ↔
            ServicesFit s next) := by
        intro services next hle
        rw [logs_bind, ih next (by omega)]
        exact and_iff_left fun _ _ => logs_pure _ _
      have hservice := logs_service env (be16 0xFFFF (byte s pos) (byte s (pos + 1)))
        ((byte s (pos + 2) >>> 5) &&& 0x07) (pos + 5) (pos + 5 + descriptorsLoopLen s pos) h4
        (fun r => serviceLoopTraced env s (s.length - 4) fuel r.2 >>= fun rest => pure (r.1 ++ rest)) hnext
      have hheader : ∀ i < 5, Access.Inside (s.length - 4) (.header (pos + i)) := by
        intro i hi
        change pos + i < s.length - 4
        omega
      have hlt : ∀ i < 5, pos + i < s.length := by
        intro i hi
        omega
      simp only [logs_readAt_bind]
      constructor
      · rintro ⟨-, h⟩
        obtain ⟨-, h⟩ := h (hlt 0 (by norm_num))
        obtain ⟨-, h⟩ := h (hlt 1 (by norm_num))
        obtain ⟨-, h⟩ := h (hlt 2 (by norm_num))
        obtain ⟨-, h⟩ := h (hlt 3 (by norm_num))
        obtain ⟨hlimit, next, hloop, hrest⟩ := hservice.1 (h (hlt 4 (by norm_num)))
        exact .service hpos hlimit hloop hrest
      · intro h
        cases h with
        | stop hlt => omega
        | service _ hlimit hloop hrest =>
          refine ⟨hheader 0 (by norm_num), fun _ => ⟨hheader 1 (by norm_num), fun _ => ⟨hheader 2 (by norm_num),
            fun _ => ⟨hheader 3 (by norm_num), fun _ => ⟨hheader 4 (by norm_num), fun _ => ?_⟩⟩⟩⟩⟩
          exact hservice.2 ⟨hlimit, _, hloop, hrest⟩
    · exact iff_of_true (logs_pure _ _) (.stop (by omega))

/-- Where the services fit, the loop ends. -/
theorem ServicesFit.finishes (env : Env) (h4 : 4 ≤ s.length) {pos : ℕ} (h : ServicesFit s pos) :
    ∀ fuel, Finishes (serviceLoop env s (s.length - 4) fuel pos) := by
  induction h with
  | stop hlt =>
    intro fuel
    rw [serviceLoop_stop env hlt]
    exact finishes_ok _
  | @service pos next hpos hlimit hloop _ ih =>
    intro fuel
    cases fuel with
    | zero => exact finishes_ok _
    | succ fuel =>
      obtain ⟨services, hrest⟩ := ih fuel
      obtain ⟨found, hfound⟩ := hloop.result env (be16 0xFFFF (byte s pos) (byte s (pos + 1)))
        ((byte s (pos + 2) >>> 5) &&& 0x07) (by omega) s.length (by omega)
      exact ⟨_, serviceLoop_next hpos (by omega) hfound hrest⟩

/-- **The analysis finishes and keeps to the loops exactly where the lengths fit.** -/
theorem sdt_reads (env : Env) (s : Bytes) : (analyzeSdtTraced env s).result = analyzeSdt env s ∧
    ((Finishes (analyzeSdt env s) ∧ ∀ a ∈ (analyzeSdtTraced env s).log, a.Inside (s.length - 4)) ↔ SdtFits s) := by
  refine ⟨result_analyzeSdtTraced env s, ?_⟩
  change (_ ∧ Logs (Access.Inside (s.length - 4)) (analyzeSdtTraced env s)) ↔ _
  rw [analyzeSdt, analyzeSdtTraced, SdtFits, ← or_assoc]
  split_ifs with hother
  · exact iff_of_true ⟨finishes_ok _, logs_pure _ _⟩ (.inl hother)
  · have h4 : 4 ≤ s.length := by omega
    rw [logs_serviceLoop env h4 s.length 11 (Nat.le_add_left _ _), or_iff_right hother]
    exact and_iff_right_of_imp fun h => h.finishes env h4 s.length

/-- A service whose descriptor loop of 4095 bytes begins in front of the CRC. -/
def runawaySdt : Bytes :=
  [0x42, 0xF0, 0x11, 0x00, 0x01, 0xC1, 0x00, 0x00, 0x00, 0x01, 0xFF, 0x00, 0x07, 0x81, 0xFF, 0xFF, 0, 0, 0, 0]

theorem runaway_panics : analyzeSdt Env.sample runawaySdt = .error .indexOutOfRange ∧
    ¬ (Finishes (analyzeSdt Env.sample runawaySdt) ∧
      ∀ a ∈ (analyzeSdtTraced Env.sample runawaySdt).log, a.Inside (runawaySdt.length - 4)) := by
  have hpanic : analyzeSdt Env.sample runawaySdt = .error .indexOutOfRange := by rfl
  refine ⟨hpanic, ?_⟩
  rintro ⟨⟨services, hservices⟩, -⟩
  rw [hpanic] at hservices
  cases hservices

end MyMuxer.Psi
