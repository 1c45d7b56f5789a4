import MyMuxer.Psi.Pat

/-!
# The service description table (`psi/sdt.rs`)

* `analyzeSdt`, with `parseDvbString`.
* `patchSdtSection`, `prepareSdt`: the section of one service and its packet.
* `prepareSdt_eq`: the packet is a packed section of PID `0x0011`.
-/

namespace MyMuxer.Psi

open MyMuxer

structure SdtInfo where
  serviceId : UInt16
  serviceType : UInt8
  providerName : String
  serviceName : String
  runningStatus : UInt8
  deriving DecidableEq

def parseDvbString (env : Env) : Bytes → String
  | [] => ""
  | b :: rest =>
    if b = 0x01 then env.iso8859 rest
    else if b = 0x15 then fromUtf8Lossy rest
    else if b = 0x11 then if rest.length % 2 = 0 then env.utf16be rest else fromUtf8Lossy rest
    else if 0x20 ≤ b then fromUtf8Lossy (b :: rest)
    else fromUtf8Lossy rest

/-- The service descriptor whose body is the `len` bytes from `pos` on. -/
def serviceDescriptor (env : Env) (section_ : Bytes) (sid : UInt16) (runningStatus : UInt8)
    (pos len : ℕ) : Rs SdtInfo := do
  let serviceType ← idx section_ pos
  let info : SdtInfo :=
    { serviceId := sid, serviceType, providerName := "", serviceName := "", runningStatus }
  let provLen := (← idx section_ (pos + 1)).toNat
  if pos + 2 + provLen ≤ pos + len then
    let providerName := parseDvbString env (← slice section_ (pos + 2) (pos + 2 + provLen))
    let info := { info with providerName }
    let servLenPos := pos + 2 + provLen
    if servLenPos + 1 ≤ pos + len then
      let servLen := (← idx section_ servLenPos).toNat
      if servLenPos + 1 + servLen ≤ pos + len then
        let serviceName := parseDvbString env (← slice section_ (servLenPos + 1) (servLenPos + 1 + servLen))
        return { info with serviceName }
      else return info
    else return info
  else return info

/-- The inner loop of `analyze_sdt`: the services found, and where it stops. -/
def descriptorLoop (env : Env) (section_ : Bytes) (sid : UInt16) (runningStatus : UInt8)
    (innerLimit : ℕ) : ℕ → ℕ → Rs (List SdtInfo × ℕ)
  | 0, pos => return ([], pos)
  | fuel + 1, pos => do
    if pos + 2 ≤ innerLimit then
      let tag ← idx section_ pos
      let len := (← idx section_ (pos + 1)).toNat
      let pos := pos + 2
      let found ← if tag = 0x48 ∧ pos + len ≤ innerLimit then do
          let info ← serviceDescriptor env section_ sid runningStatus pos len
          pure [info]
        else pure []
      let (services, pos) ← descriptorLoop env section_ sid runningStatus innerLimit fuel (pos + len)
      return (found ++ services, pos)
    else return ([], pos)

/-- The outer loop of `analyze_sdt`. -/
def serviceLoop (env : Env) (section_ : Bytes) (sectionLimit : ℕ) : ℕ → ℕ → Rs (List SdtInfo)
  | 0, _ => return []
  | fuel + 1, pos => do
    if pos + 5 ≤ sectionLimit then
      let sid := be16 0xFFFF (← idx section_ pos) (← idx section_ (pos + 1))
      let runningStatus := ((← idx section_ (pos + 2)) >>> 5) &&& 0x07
      let descriptorsLoopLen :=
        (be16 0x0F (← idx section_ (pos + 3)) (← idx section_ (pos + 4))).toNat
      let pos := pos + 5
      let (found, pos) ← descriptorLoop env section_ sid runningStatus (pos + descriptorsLoopLen)
        section_.length pos
      let services ← serviceLoop env section_ sectionLimit fuel pos
      return found ++ services
    else return []

def analyzeSdt (env : Env) (section_ : Bytes) : Rs (List SdtInfo) :=
  if section_.length < 11 ∨ byte section_ 0 ≠ 0x42 then .ok []
  else serviceLoop env section_ (section_.length - 4) section_.length 11

def encodeDvbString (text : String) : Bytes := 0x15 :: strBytes text

def patchSdtSection (env : Env) (originalSection : Bytes) (newServiceId : UInt16) (serviceType : UInt8)
    (providerName serviceName : String) : Rs Bytes := do
  let header ← slice originalSection 0 11
  let provBytes := encodeDvbString providerName
  let servBytes := encodeDvbString serviceName
  let serviceDescriptor := [0x48, UInt8.ofNat (3 + provBytes.length + servBytes.length), serviceType,
    UInt8.ofNat provBytes.length] ++ provBytes ++ [UInt8.ofNat servBytes.length] ++ servBytes
  let descLen := UInt16.ofNat serviceDescriptor.length
  let newSection := header ++ [(newServiceId >>> 8).toUInt8, (newServiceId &&& 0xFF).toUInt8, 0x81,
    (descLen >>> 8).toUInt8 ||| 0xF0, descLen.toUInt8] ++ serviceDescriptor
  return withCrc env (setSectionLength newSection)

def prepareSdt (env : Env) (transportStreamId programId : UInt16) (serviceType : UInt8)
    (providerName serviceName : String) : Rs Packet := do
  let dummySection : Bytes := [0x42, 0xF0, 0x00, (transportStreamId >>> 8).toUInt8,
    (transportStreamId &&& 0xFF).toUInt8, 0xC1, 0x00, 0x00, 0x00, 0x01, 0xFF]
  let section_ ← patchSdtSection env dummySection programId serviceType providerName serviceName
  return pack section_ 0x0011 0

theorem prepareSdt_eq (env : Env) (tsid programId : UInt16) (serviceType : UInt8)
    (providerName serviceName : String) : ∃ section_,
      prepareSdt env tsid programId serviceType providerName serviceName = .ok (pack section_ 0x0011 0) :=
  ⟨_, rfl⟩

end MyMuxer.Psi
