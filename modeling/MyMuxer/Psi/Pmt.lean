import MyMuxer.Psi.Pat

/-!
# The program map table (`psi/pmt.rs`)

* `analyzePmt`, `patchPmtSection`, `isPmtChanged`.
* `WellFormedPmt`: the program descriptors and the stream entries tile the section up to the CRC.
-/

namespace MyMuxer.Psi

open MyMuxer

/-- The two keys `pasre_descriptors` fills in. -/
structure Descriptors where
  lang : Option String
  ca : Option String
  deriving DecidableEq

structure StreamInfo where
  streamType : UInt8
  pid : UInt16
  descriptors : Descriptors
  description : String
  deriving DecidableEq

structure PmtInfo where
  pcrPid : UInt16
  streams : List StreamInfo
  deriving DecidableEq

/-- The loop of `pasre_descriptors` on `data[i..]`. -/
def pasreDescriptorsLoop : ℕ → Bytes → Descriptors → Descriptors
  | fuel + 1, tag :: len :: rest, d =>
    if len.toNat > rest.length then d
    else
      let d := if tag = 0x0A ∧ 3 ≤ len.toNat then { d with lang := some (fromUtf8Lossy (rest.take 3)) }
        else if tag = 0x09 then { d with ca := some "maybe scrambling" }
        else d
      pasreDescriptorsLoop fuel (rest.drop len.toNat) d
  | _, _, d => d

def pasreDescriptors (data : Bytes) : Descriptors :=
  pasreDescriptorsLoop data.length data { lang := none, ca := none }

/-- The loop of `analyze_pmt`. -/
def analyzePmtLoop (section_ : Bytes) (sectionEnd : ℕ) : ℕ → ℕ → Rs (List StreamInfo)
  | 0, _ => return []
  | fuel + 1, pos => do
    if pos + 5 ≤ sectionEnd then
      let stype ← idx section_ pos
      let pid := be16 0x1F (← idx section_ (pos + 1)) (← idx section_ (pos + 2))
      let esInfoLen := (be16 0x0F (← idx section_ (pos + 3)) (← idx section_ (pos + 4))).toNat
      let descriptorsEnd := pos + 5 + esInfoLen
      let descriptors := pasreDescriptors (← slice section_ (pos + 5) descriptorsEnd)
      let rest ← analyzePmtLoop section_ sectionEnd fuel descriptorsEnd
      return { streamType := stype, pid, descriptors, description := "" } :: rest
    else return []

def analyzePmt (section_ : Bytes) : Rs PmtInfo := do
  let pcrPid := be16 0x1F (← idx section_ 8) (← idx section_ 9)
  let programInfoLen := (be16 0x0F (← idx section_ 10) (← idx section_ 11)).toNat
  let streams ← analyzePmtLoop section_ (section_.length - 4) section_.length (12 + programInfoLen)
  return { pcrPid, streams }

/-- The loop of `patch_descriptors` on `descriptors[pos..]`. -/
def stripCaDescriptors : ℕ → Bytes → Bytes
  | fuel + 1, tag :: len :: rest =>
    if len.toNat > rest.length then []
    else (if tag ≠ 0x09 then tag :: len :: rest.take len.toNat else []) ++
      stripCaDescriptors fuel (rest.drop len.toNat)
  | _, _ => []

def patchDescriptors (descriptors : Bytes) (stripCa : Bool) : Bytes :=
  if stripCa = false then descriptors else stripCaDescriptors descriptors.length descriptors

/-- A 13-bit PID, or a 12-bit length, in two bytes under the reserved bits `hi`. -/
def reserved16 (mask hi : UInt8) (v : UInt16) : Bytes :=
  [(v >>> 8).toUInt8 &&& mask ||| hi, (v &&& 0xFF).toUInt8]

/-- One stream entry of a patched section. -/
def esEntry (streamType : UInt8) (pid : UInt16) (descriptors : Bytes) : Bytes :=
  [streamType] ++ reserved16 0x1F 0xE0 pid ++
    reserved16 0x0F 0xF0 (UInt16.ofNat descriptors.length) ++ descriptors

/-- The loop of `patch_pmt_section`. -/
def patchPmtLoop (originalSection : Bytes) (esMappings : List (UInt16 × UInt16)) (stripCa : Bool)
    (sectionEnd : ℕ) : ℕ → ℕ → Rs Bytes
  | 0, _ => return []
  | fuel + 1, pos => do
    if pos + 5 ≤ sectionEnd then
      let streamType ← idx originalSection pos
      let oldEsPid := be16 0x1F (← idx originalSection (pos + 1)) (← idx originalSection (pos + 2))
      let esInfoLen :=
        (be16 0x0F (← idx originalSection (pos + 3)) (← idx originalSection (pos + 4))).toNat
      let entry ← match esMappings.find? fun m => m.1 = oldEsPid with
        | some m => do
          let descriptors ← slice originalSection (pos + 5) (pos + 5 + esInfoLen)
          pure (esEntry streamType m.2 (patchDescriptors descriptors stripCa))
        | none => pure []
      let rest ← patchPmtLoop originalSection esMappings stripCa sectionEnd fuel (pos + (5 + esInfoLen))
      return entry ++ rest
    else return []

def patchPmtSection (env : Env) (originalSection : Bytes) (newPcrPid : UInt16)
    (esMappings : List (UInt16 × UInt16)) (stripCa : Bool) : Rs Bytes := do
  let header ← slice originalSection 0 8
  let progInfoLen := (be16 0x0F (← idx originalSection 10) (← idx originalSection 11)).toNat
  let programDescriptors ← slice originalSection 12 (12 + progInfoLen)
  let programDescriptors := patchDescriptors programDescriptors stripCa
  let sectionEnd ← usub originalSection.length 4
  let streams ← patchPmtLoop originalSection esMappings stripCa sectionEnd originalSection.length
    (12 + progInfoLen)
  let newSection := header ++ reserved16 0x1F 0xE0 newPcrPid ++
    reserved16 0x0F 0xF0 (UInt16.ofNat programDescriptors.length) ++ programDescriptors ++ streams
  return withCrc env (setSectionLength newSection)

/-- The derived order of `StreamInfoDiff`. -/
def diffLe (a b : UInt8 × UInt16) : Bool := a.1 < b.1 || (a.1 = b.1 && a.2 ≤ b.2)

def isPmtChanged (a b : PmtInfo) : Bool :=
  if a.pcrPid ≠ b.pcrPid ∨ a.streams.length ≠ b.streams.length then true
  else
    let aStreams := a.streams.map fun s => (s.streamType, s.pid)
    let bStreams := b.streams.map fun s => (s.streamType, s.pid)
    if aStreams = bStreams then false
    else aStreams.insertionSort (fun x y => diffLe x y) ≠ bStreams.insertionSort fun x y => diffLe x y

theorem isPmtChanged_self (a : PmtInfo) : isPmtChanged a a = false := by simp [isPmtChanged]

/-! ## Well-formed sections -/

def programInfoLen (s : Bytes) : ℕ := (be16 0x0F (byte s 10) (byte s 11)).toNat

def esInfoLen (s : Bytes) (pos : ℕ) : ℕ := (be16 0x0F (byte s (pos + 3)) (byte s (pos + 4))).toNat

/-- Stream entries tile the section from a position up to `sectionEnd`. -/
inductive EsTiles (s : Bytes) (sectionEnd : ℕ) : ℕ → Prop where
  | nil : EsTiles s sectionEnd sectionEnd
  | entry {pos : ℕ} : pos + 5 + esInfoLen s pos ≤ sectionEnd →
      EsTiles s sectionEnd (pos + 5 + esInfoLen s pos) → EsTiles s sectionEnd pos

/-- A PMT section whose program descriptors and stream entries tile it up to the CRC. -/
structure WellFormedPmt (s : Bytes) : Prop where
  length_ge : 16 ≤ s.length
  descriptors_le : 12 + programInfoLen s ≤ s.length - 4
  tiles : EsTiles s (s.length - 4) (12 + programInfoLen s)

end MyMuxer.Psi
