import MyMuxer.Psi.EventTexts
import MyMuxer.Psi.Patched
import MyMuxer.Utf8

/-!
# The generated SDT, sent and read back

* `push_pack`: what a fresh reassembler returns for the one packet of a section.
* `fromUtf8Lossy_take_ne`: a name that is cut by 256 bytes is not read as the name.
* `serviceDescriptor_spec`, `analyzeSdt_one`, `analyzeSdt_none`: the analysis of a section with one service.
* `sdt_layout`: where the parts of the generated section are.
* **`sdt_trip`**: for which names the table comes back as it was.
-/

namespace MyMuxer.Psi

open MyMuxer Encode Eit Greedy

variable {env : Env}

/-! ## The one packet -/

/-- A fresh reassembler returns as much of a section as its header says, if that is in the first packet. -/
theorem push_pack {s : Bytes} {pid : UInt16} (hpid : pid ≤ 0x1FFF)
    (hlen : sectionLen s + 3 ≤ s.length) (cc : UInt8) : ((SectionReassembler.new pid).push (pack s pid cc).bytes).1 =
      if sectionLen s + 3 ≤ 183 then some (s.take (sectionLen s + 3)) else none := by
  have hc : (s.take 183).length ≤ 183 := List.length_take_le _ _
  have hpad : (padded true (s.take 183)).length = capacity true := padded_length hc
  have hcap : capacity true = 183 := rfl
  have hbyte : ∀ i < 3, byte (padded true (s.take 183)) i = byte s i := by
    intro i hi
    simp only [padded, byte, List.getD_eq_getElem?_getD]
    rw [List.getElem?_append_left (by simp; omega), List.getElem?_take_of_lt (by omega)]
  have hhead : sectionLen (padded true (s.take 183)) = sectionLen s := sectionLen_congr hbyte
  have hpush := push_first (r := .new pid) cc hpid hc
  rw [takeComplete_header rfl (by simp [hpad, hcap]), hhead] at hpush
  rw [pack_eq]
  split_ifs with hle
  · rw [takeComplete_full rfl (by simp only [hpad, hcap]; exact hle)] at hpush
    have htake : (padded true (s.take 183)).take (sectionLen s + 3) = s.take (sectionLen s + 3) := by
      rw [padded, List.take_append_of_le_length (by rw [List.length_take]; omega), List.take_take,
        Nat.min_eq_left hle]
    exact (congrArg Prod.fst hpush).trans (congrArg some htake)
  · rw [takeComplete_short rfl (by simp only [hpad, hcap]; omega)] at hpush
    exact congrArg Prod.fst hpush

/-! ## Names that are cut -/

/-- A name without its last 256 bytes has fewer characters, whatever is made of the one that is cut. -/
theorem fromUtf8Lossy_take_ne {name : String} {m : ℕ} (hm : m + 256 ≤ (strBytes name).length) :
    fromUtf8Lossy ((strBytes name).take m) ≠ name := by
  intro h
  have hsplit := splitBudget_append name.toList m
  have hfit := length_splitBudget name.toList m
  generalize hrest : (splitBudget m name.toList).2 = rest at hsplit
  generalize hfront : (splitBudget m name.toList).1 = front at hsplit hfit
  have hbytes : strBytes name = charBytes front ++ charBytes rest := by
    rw [← charBytes_append, hsplit, strBytes_eq]
  -- four bytes at most for each character that is lost
  have hfour : ∀ cs : List Char, (charBytes cs).length ≤ 4 * cs.length := by
    intro cs
    induction cs with
    | nil => exact Nat.zero_le _
    | cons c cs ih =>
      have := c.utf8Size_le_four
      rw [length_charBytes] at ih ⊢
      rw [weight_cons, List.length_cons]
      omega
  have hlost := hfour rest
  have htotal := congrArg List.length hbytes
  rw [List.length_append] at htotal
  -- three bytes at most are read of the character that is cut
  have hcut : m < (charBytes front).length + 4 := by
    cases rest with
    | nil =>
      rw [show (charBytes []).length = 0 from rfl] at htotal
      omega
    | cons c rest =>
      have hmax := splitBudget_maximal name.toList m hrest
      have := c.utf8Size_le_four
      rw [hfront, ← length_charBytes] at hmax
      omega
  obtain ⟨fuel, hfuel⟩ := Nat.exists_eq_add_of_le ((length_le_encoded front).trans hfit)
  have htake : (strBytes name).take m = charBytes front ++ (charBytes rest).take (m - (charBytes front).length) := by
    rw [hbytes, List.take_append, List.take_of_length_le hfit]
  have hread : (fromUtf8Lossy ((strBytes name).take m)).toList =
      front ++ utf8LossyLoop fuel ((charBytes rest).take (m - (charBytes front).length)) := by
    rw [fromUtf8Lossy, String.toList_ofList, List.length_take, Nat.min_eq_left (by omega), htake, hfuel]
    exact lossyLoop_append _ front fuel
  have htail := length_lossyLoop fuel ((charBytes rest).take (m - (charBytes front).length))
  have hcount := congrArg List.length hread
  rw [h, ← hsplit, List.length_append, List.length_append] at hcount
  rw [List.length_take] at htail
  omega

/-! ## The analysis of one service -/

/-- What an analysis says about the service descriptor whose body is the `len` bytes from `pos` on. -/
structure Says (env : Env) (s : Bytes) (sid : UInt16) (pos len : ℕ) (info : SdtInfo) : Prop where
  serviceId : info.serviceId = sid
  serviceType : info.serviceType = byte s pos
  providerName : info.providerName =
    if 2 + (byte s (pos + 1)).toNat ≤ len then parseDvbString env ((s.drop (pos + 2)).take (byte s (pos + 1)).toNat)
    else ""
  serviceName : ∀ servLenPos, servLenPos = pos + 2 + (byte s (pos + 1)).toNat → info.serviceName =
    if servLenPos + 1 + (byte s servLenPos).toNat ≤ pos + len then
      parseDvbString env ((s.drop (servLenPos + 1)).take (byte s servLenPos).toNat)
    else ""

variable {s : Bytes}

theorem serviceDescriptor_spec (env : Env) (sid : UInt16) (status : UInt8) {pos len : ℕ}
    (h : pos + len + 4 ≤ s.length) :
    ∃ info, serviceDescriptor env s sid status pos len = .ok info ∧ Says env s sid pos len info := by
  rw [serviceDescriptor, idx_of_lt (by omega), ok_bind, idx_of_lt (by omega), ok_bind]
  by_cases hprov : pos + 2 + (byte s (pos + 1)).toNat ≤ pos + len
  · rw [if_pos hprov, slice_of_le (by omega) (by omega), ok_bind, Nat.add_sub_cancel_left]
    by_cases hpos : pos + 2 + (byte s (pos + 1)).toNat + 1 ≤ pos + len
    · rw [if_pos hpos, idx_of_lt (by omega), ok_bind]
      by_cases hserv : pos + 2 + (byte s (pos + 1)).toNat + 1 + (byte s (pos + 2 + (byte s (pos + 1)).toNat)).toNat ≤
          pos + len
      · rw [if_pos hserv, slice_of_le (by omega) (by omega), ok_bind, Nat.add_sub_cancel_left]
        refine ⟨_, rfl, rfl, rfl, (if_pos (by omega)).symm, ?_⟩
        rintro _ rfl
        exact (if_pos hserv).symm
      · rw [if_neg hserv]
        refine ⟨_, rfl, rfl, rfl, (if_pos (by omega)).symm, ?_⟩
        rintro _ rfl
        exact (if_neg hserv).symm
    · rw [if_neg hpos]
      refine ⟨_, rfl, rfl, rfl, (if_pos (by omega)).symm, ?_⟩
      rintro _ rfl
      exact (if_neg (by omega)).symm
  · rw [if_neg hprov]
    refine ⟨_, rfl, rfl, rfl, (if_neg (by omega)).symm, ?_⟩
    rintro _ rfl
    exact (if_neg (by omega)).symm

/-- One service with one descriptor, up to the CRC. -/
theorem analyzeSdt_one (env : Env) {n : ℕ} (h0 : byte s 0 = 0x42) (hlen : s.length = 22 + n) (htag : byte s 16 = 0x48)
    (hn : (byte s 17).toNat = n) (hloop : descriptorsLoopLen s 11 = n + 2) :
    ∃ info, analyzeSdt env s = .ok [info] ∧ Says env s (be16 0xFFFF (byte s 11) (byte s 12)) 18 n info := by
  obtain ⟨info, hinfo, hsays⟩ := serviceDescriptor_spec env (be16 0xFFFF (byte s 11) (byte s 12))
    ((byte s 13 >>> 5) &&& 0x07) (show 18 + n + 4 ≤ s.length by omega)
  refine ⟨info, ?_, hsays⟩
  obtain ⟨fuel, hfuel⟩ : ∃ fuel, s.length = fuel + 2 := ⟨s.length - 2, by omega⟩
  have hend : 16 + 2 + (byte s (16 + 1)).toNat = 18 + n := by rw [hn]
  have hinner : descriptorLoop env s (be16 0xFFFF (byte s 11) (byte s 12)) ((byte s 13 >>> 5) &&& 0x07) (18 + n)
      s.length 16 = .ok ([info], 18 + n) := by
    rw [hfuel, descriptorLoop_step env _ _ (by omega) (by omega), hend, if_pos ⟨htag, le_rfl⟩, hn, hinfo, ok_bind,
      pure_eq_ok, ok_bind, descriptorLoop, if_neg (by omega)]
    rfl
  rw [show 18 + n = 11 + 5 + descriptorsLoopLen s 11 by omega] at hinner
  rw [analyzeSdt, if_neg (by rw [not_or, not_not]; exact ⟨by omega, h0⟩), hfuel]
  exact serviceLoop_next (by omega) (by omega) hinner (serviceLoop_stop env (by omega) _)

/-- A section that ends before its first descriptor. -/
theorem analyzeSdt_none (hlen : s.length < 22) (hloop : s.length < 20 ∨ descriptorsLoopLen s 11 < 2) :
    analyzeSdt env s = .ok [] := by
  rw [analyzeSdt]
  split_ifs with hhead
  · rfl
  obtain ⟨fuel, hfuel⟩ : ∃ fuel, s.length = fuel + 2 := ⟨s.length - 2, by omega⟩
  by_cases hpos : 11 + 5 ≤ s.length - 4
  · have hinner : descriptorLoop env s (be16 0xFFFF (byte s 11) (byte s (11 + 1)))
        ((byte s (11 + 2) >>> 5) &&& 0x07) (11 + 5 + descriptorsLoopLen s 11) s.length (11 + 5) =
          .ok ([], 11 + 5) := by
      rw [hfuel, descriptorLoop, if_neg (by omega)]
      rfl
    rw [hfuel] at hpos ⊢
    exact serviceLoop_next hpos (by omega) hinner (serviceLoop_stop env (by omega) _)
  · exact serviceLoop_stop env (by omega) _

/-! ## The generated section -/

def sdtHeader (transportStreamId : UInt16) : Bytes :=
  [0x42, 0xF0, 0x00, (transportStreamId >>> 8).toUInt8, (transportStreamId &&& 0xFF).toUInt8, 0xC1, 0x00, 0x00, 0x00,
    0x01, 0xFF]

def sdtDescriptor (serviceType : UInt8) (providerName serviceName : String) : Bytes :=
  [0x48, UInt8.ofNat (3 + (encodeDvbString providerName).length + (encodeDvbString serviceName).length), serviceType,
    UInt8.ofNat (encodeDvbString providerName).length] ++ encodeDvbString providerName ++
    [UInt8.ofNat (encodeDvbString serviceName).length] ++ encodeDvbString serviceName

/-- The section without its CRC, up to the provider's name, for names of `p` and `q` bytes. -/
def sdtFront (transportStreamId programId : UInt16) (serviceType : UInt8) (p q : ℕ) : Bytes :=
  sdtHeader transportStreamId ++ [(programId >>> 8).toUInt8, (programId &&& 0xFF).toUInt8, 0x81,
    (UInt16.ofNat (7 + p + q) >>> 8).toUInt8 ||| 0xF0, (UInt16.ofNat (7 + p + q)).toUInt8, 0x48,
    UInt8.ofNat (5 + p + q), serviceType, UInt8.ofNat (1 + p)]

/-- The names. -/
def sdtNames (providerName serviceName : String) : Bytes :=
  encodeDvbString providerName ++ (UInt8.ofNat (1 + (strBytes serviceName).length) :: encodeDvbString serviceName)

variable (env) (transportStreamId programId : UInt16) (serviceType : UInt8) (providerName serviceName : String)

def sdtSection : Bytes :=
  withCrc env (setSectionLength (sdtFront transportStreamId programId serviceType (strBytes providerName).length
    (strBytes serviceName).length ++ sdtNames providerName serviceName))

theorem length_encodeDvbString (text : String) : (encodeDvbString text).length = 1 + (strBytes text).length :=
  Nat.add_comm _ _

theorem length_sdtDescriptor : (sdtDescriptor serviceType providerName serviceName).length =
    7 + (strBytes providerName).length + (strBytes serviceName).length := by
  simp only [sdtDescriptor, List.length_append, List.length_cons, List.length_nil, length_encodeDvbString]
  omega

theorem length_sdtNames : (sdtNames providerName serviceName).length =
    3 + (strBytes providerName).length + (strBytes serviceName).length := by
  simp only [sdtNames, List.length_append, List.length_cons, length_encodeDvbString]
  omega

theorem prepareSdt_section : prepareSdt env transportStreamId programId serviceType providerName serviceName =
    .ok (pack (sdtSection env transportStreamId programId serviceType providerName serviceName) 0x0011 0) := by
  have hdesc : sdtHeader transportStreamId ++ [(programId >>> 8).toUInt8, (programId &&& 0xFF).toUInt8, 0x81,
        (UInt16.ofNat (sdtDescriptor serviceType providerName serviceName).length >>> 8).toUInt8 ||| 0xF0,
        (UInt16.ofNat (sdtDescriptor serviceType providerName serviceName).length).toUInt8] ++
          sdtDescriptor serviceType providerName serviceName =
      sdtFront transportStreamId programId serviceType (strBytes providerName).length (strBytes serviceName).length ++
        sdtNames providerName serviceName := by
    have hsum : 3 + (1 + (strBytes providerName).length) + (1 + (strBytes serviceName).length) =
        5 + (strBytes providerName).length + (strBytes serviceName).length := by omega
    rw [length_sdtDescriptor]
    simp only [sdtDescriptor, sdtFront, sdtNames, length_encodeDvbString, hsum, List.append_assoc, List.cons_append,
      List.nil_append]
  have hpatch : prepareSdt env transportStreamId programId serviceType providerName serviceName =
      .ok (pack (withCrc env (setSectionLength (sdtHeader transportStreamId ++ [(programId >>> 8).toUInt8,
        (programId &&& 0xFF).toUInt8, 0x81,
        (UInt16.ofNat (sdtDescriptor serviceType providerName serviceName).length >>> 8).toUInt8 ||| 0xF0,
        (UInt16.ofNat (sdtDescriptor serviceType providerName serviceName).length).toUInt8] ++
          sdtDescriptor serviceType providerName serviceName))) 0x0011 0) := rfl
  rw [hpatch, hdesc, sdtSection]

theorem length_sdtSection :
    (sdtSection env transportStreamId programId serviceType providerName serviceName).length =
      27 + (strBytes providerName).length + (strBytes serviceName).length := by
  rw [sdtSection, length_withCrc, List.length_append, length_sdtNames]
  change 20 + _ + 4 = _
  omega

theorem sectionLen_sdtSection :
    sectionLen (sdtSection env transportStreamId programId serviceType providerName serviceName) =
      (24 + (strBytes providerName).length + (strBytes serviceName).length) % 4096 := by
  have h3 : 3 ≤ (sdtFront transportStreamId programId serviceType (strBytes providerName).length
      (strBytes serviceName).length ++ sdtNames providerName serviceName).length := by
    rw [List.length_append, length_sdtNames]
    omega
  rw [sdtSection, sectionLen_withCrc_mod env h3, List.length_append, length_sdtNames]
  change (20 + _ + 1) % 4096 = _
  congr 1
  omega

/-- **Where the parts of the section are.** -/
theorem sdt_layout : ∃ front crc : Bytes, front.length = 20 ∧
    sdtSection env transportStreamId programId serviceType providerName serviceName =
      front ++ (sdtNames providerName serviceName ++ crc) ∧
    ∀ i < 20, i ≠ 1 → i ≠ 2 → byte front i = byte (sdtFront transportStreamId programId serviceType
      (strBytes providerName).length (strBytes serviceName).length) i := by
  obtain ⟨front, hlen, e, hbyte⟩ := setSectionLength_front (sdtFront transportStreamId programId serviceType
    (strBytes providerName).length (strBytes serviceName).length) (sdtNames providerName serviceName)
    (show 3 ≤ 20 by norm_num)
  refine ⟨front, crcBytes (env.crc (setSectionLength (sdtFront transportStreamId programId serviceType
    (strBytes providerName).length (strBytes serviceName).length ++ sdtNames providerName serviceName))), hlen,
    ?_, hbyte⟩
  rw [sdtSection, withCrc, e, List.append_assoc]

/-! ## What is read of the names -/

/-- The length of a name is written in one byte. -/
theorem parse_cut {name : String} {k : ℕ} (hk : k = (1 + (strBytes name).length) % 256) (rest : Bytes) :
    parseDvbString env ((encodeDvbString name ++ rest).take k) = name ↔ (strBytes name).length < 255 := by
  have hparse (l : Bytes) : parseDvbString env (0x15 :: l) = fromUtf8Lossy l := by
    rw [parseDvbString, if_neg (by decide), if_pos rfl]
  by_cases hshort : (strBytes name).length < 255
  · have htake : (encodeDvbString name ++ rest).take k = encodeDvbString name := by
      rw [hk, Nat.mod_eq_of_lt (by omega)]
      exact List.take_left' (length_encodeDvbString name)
    refine iff_of_true ?_ hshort
    rw [htake, encodeDvbString, hparse, fromUtf8Lossy_strBytes]
  · refine iff_of_false ?_ hshort
    cases k with
    | zero =>
      intro h
      have hempty : strBytes name = [] := by
        rw [← h]
        rfl
      rw [hempty] at hshort
      exact hshort (by decide)
    | succ j =>
      have htake : (encodeDvbString name ++ rest).take (j + 1) = 0x15 :: (strBytes name).take j := by
        rw [encodeDvbString, List.cons_append, List.take_succ_cons, List.take_append_of_le_length (by omega)]
      rw [htake, hparse]
      exact fromUtf8Lossy_take_ne (by omega)

theorem drop_take_take (s : Bytes) {i k n : ℕ} (h : i + k ≤ n) : ((s.take n).drop i).take k = (s.drop i).take k := by
  rw [List.drop_take, List.take_take, Nat.min_eq_left (by omega)]

theorem ne_empty {name : String} (h : 255 ≤ (strBytes name).length) : "" ≠ name := by
  rintro rfl
  exact absurd h (by decide)

/-- **Both names are read exactly when they fit.** -/
theorem says_names {n : ℕ} {info : SdtInfo}
    (hn : n = (24 + (strBytes providerName).length + (strBytes serviceName).length) % 4096 + 3) (h22 : 22 ≤ n)
    (h183 : n ≤ 183)
    (h : Says env ((sdtSection env transportStreamId programId serviceType providerName serviceName).take n)
      programId 18 (n - 22) info) :
    info.providerName = providerName ∧ info.serviceName = serviceName ↔
      (strBytes providerName).length + (strBytes serviceName).length ≤ 156 := by
  obtain ⟨front, crc, hfront, hsection, hbyte⟩ := sdt_layout env transportStreamId programId serviceType providerName
    serviceName
  generalize sdtSection env transportStreamId programId serviceType providerName serviceName = s at h hsection
  have hprovider := h.providerName
  have hservice := h.serviceName
  -- the length of the provider's name, and the name
  have h19 : (byte (s.take n) 19).toNat = (1 + (strBytes providerName).length) % 256 := by
    rw [byte_take (by omega), hsection, byte_append_left (by omega),
      hbyte 19 (by norm_num) (by norm_num) (by norm_num)]
    exact UInt8.toNat_ofNat'
  have hdrop20 : s.drop 20 = encodeDvbString providerName ++
      (UInt8.ofNat (1 + (strBytes serviceName).length) :: (encodeDvbString serviceName ++ crc)) := by
    rw [hsection, ← hfront, List.drop_left, sdtNames, List.append_assoc, List.cons_append]
  rw [show 18 + 1 = 19 from rfl, h19] at hprovider hservice
  by_cases hlong : 255 ≤ (strBytes providerName).length
  · refine iff_of_false ?_ (by omega)
    rintro ⟨hname, -⟩
    rw [hname] at hprovider
    split_ifs at hprovider with hfits
    · rw [drop_take_take _ (by omega), hdrop20] at hprovider
      have := (parse_cut env rfl _).1 hprovider.symm
      omega
    · exact ne_empty hlong hprovider.symm
  -- the length of the service's name, and the name
  have hlen : (1 + (strBytes providerName).length) % 256 = 1 + (strBytes providerName).length := by omega
  rw [hlen] at hprovider hservice
  have hservice := hservice (21 + (strBytes providerName).length) (by omega)
  have hdropq : s.drop (22 + (strBytes providerName).length) = encodeDvbString serviceName ++ crc := by
    rw [show 22 + (strBytes providerName).length = 20 + ((encodeDvbString providerName).length + 1) by
      rw [length_encodeDvbString]; omega, ← List.drop_drop, hdrop20, ← List.drop_drop, List.drop_left]
    rfl
  have hq : 22 + (strBytes providerName).length ≤ n → (byte (s.take n) (21 + (strBytes providerName).length)).toNat =
      (1 + (strBytes serviceName).length) % 256 := by
    intro hin
    have hat : byte s (21 + (strBytes providerName).length) = UInt8.ofNat (1 + (strBytes serviceName).length) := by
      have hsum : 21 + (strBytes providerName).length =
          front.length + ((encodeDvbString providerName).length + 0) := by
        rw [hfront, length_encodeDvbString]
        omega
      rw [hsum, hsection, byte_append_right, sdtNames, List.append_assoc, byte_append_right]
      rfl
    rw [byte_take (by omega), hat]
    exact UInt8.toNat_ofNat'
  rw [show 21 + (strBytes providerName).length + 1 = 22 + (strBytes providerName).length by omega] at hservice
  by_cases hfit : (strBytes providerName).length + (strBytes serviceName).length ≤ 156
  · refine iff_of_true ⟨?_, ?_⟩ hfit
    · rw [hprovider, if_pos (by omega), drop_take_take _ (by omega), hdrop20]
      exact (parse_cut env hlen.symm _).2 (by omega)
    · rw [hservice, hq (by omega), if_pos (by omega), drop_take_take _ (by omega), hdropq]
      exact (parse_cut env rfl _).2 (by omega)
  · refine iff_of_false ?_ hfit
    rintro ⟨-, hname⟩
    rw [hname] at hservice
    split_ifs at hservice with hfits
    · rw [hq (by omega)] at hservice hfits
      rw [drop_take_take _ (by omega), hdropq] at hservice
      have := (parse_cut env rfl _).1 hservice.symm
      omega
    · exact ne_empty (by omega) hservice.symm

/-! ## The way there and back -/

/-- The bytes in front of the names, in as much of the section as is returned. -/
structure Front (programId : UInt16) (serviceType : UInt8) (p q : ℕ) (s : Bytes) : Prop where
  tableId : byte s 0 = 0x42
  serviceId : be16 0xFFFF (byte s 11) (byte s 12) = programId
  loopLen : descriptorsLoopLen s 11 = (7 + p + q) % 4096
  tag : byte s 16 = 0x48
  len : (byte s 17).toNat = (5 + p + q) % 256
  serviceType : byte s 18 = serviceType

theorem front_sdtSection {n : ℕ} (hn : 20 ≤ n) : Front programId serviceType (strBytes providerName).length
    (strBytes serviceName).length
      ((sdtSection env transportStreamId programId serviceType providerName serviceName).take n) := by
  obtain ⟨front, crc, hfront, hsection, hbyte⟩ := sdt_layout env transportStreamId programId serviceType providerName
    serviceName
  generalize (strBytes providerName).length = p at hbyte ⊢
  generalize (strBytes serviceName).length = q at hbyte ⊢
  have hread : ∀ i < 20, i ≠ 1 → i ≠ 2 →
      byte ((sdtSection env transportStreamId programId serviceType providerName serviceName).take n) i =
        byte (sdtFront transportStreamId programId serviceType p q) i := by
    intro i hi h1 h2
    rw [byte_take (by omega), hsection, byte_append_left (by omega), hbyte i hi h1 h2]
  have hmask : ∀ b : UInt8, (b ||| 0xF0).toNat % 2 ^ 4 = b.toNat % 2 ^ 4 := by decide
  constructor
  · rw [hread 0 (by norm_num) (by norm_num) (by norm_num)]
    rfl
  · rw [hread 11 (by norm_num) (by norm_num) (by norm_num), hread 12 (by norm_num) (by norm_num) (by norm_num)]
    exact be16_word programId
  · rw [descriptorsLoopLen, be16_toNat (k := 4) (by norm_num) rfl,
      hread (11 + 3) (by norm_num) (by norm_num) (by norm_num),
      hread (11 + 4) (by norm_num) (by norm_num) (by norm_num)]
    change ((UInt16.ofNat (7 + p + q) >>> 8).toUInt8 ||| 0xF0).toNat % 2 ^ 4 * 256 +
      (UInt16.ofNat (7 + p + q)).toUInt8.toNat = _
    rw [hmask, toNat_highByte, UInt16.toNat_toUInt8, UInt16.toNat_ofNat']
    omega
  · rw [hread 16 (by norm_num) (by norm_num) (by norm_num)]
    rfl
  · rw [hread 17 (by norm_num) (by norm_num) (by norm_num)]
    exact UInt8.toNat_ofNat'
  · rw [hread 18 (by norm_num) (by norm_num) (by norm_num)]
    rfl

/-- The table comes back as it was. -/
def SdtTrip (env : Env) (transportStreamId programId : UInt16) (serviceType : UInt8)
    (providerName serviceName : String) : Prop :=
  ∃ (packet : Packet) (section_ : Bytes) (info : SdtInfo),
    prepareSdt env transportStreamId programId serviceType providerName serviceName = .ok packet ∧
    ((SectionReassembler.new 0x0011).push packet.bytes).1 = some section_ ∧ Sealed env section_ ∧
    analyzeSdt env section_ = .ok [info] ∧ info.serviceId = programId ∧ info.serviceType = serviceType ∧
    info.providerName = providerName ∧ info.serviceName = serviceName

theorem push_sdtSection : ((SectionReassembler.new 0x0011).push
    (pack (sdtSection env transportStreamId programId serviceType providerName serviceName) 0x0011 0).bytes).1 =
      if (24 + (strBytes providerName).length + (strBytes serviceName).length) % 4096 + 3 ≤ 183 then
        some ((sdtSection env transportStreamId programId serviceType providerName serviceName).take
          ((24 + (strBytes providerName).length + (strBytes serviceName).length) % 4096 + 3))
      else none := by
  have hlen := length_sdtSection env transportStreamId programId serviceType providerName serviceName
  have hsectionLen := sectionLen_sdtSection env transportStreamId programId serviceType providerName serviceName
  rw [← hsectionLen]
  exact push_pack (by decide) (by omega) 0

/-- What comes back is one service, if its header comes back. -/
theorem analyze_sdtSection {n : ℕ}
    (hn : n = (24 + (strBytes providerName).length + (strBytes serviceName).length) % 4096 + 3) (h22 : 22 ≤ n)
    (h183 : n ≤ 183) : ∃ info,
      analyzeSdt env ((sdtSection env transportStreamId programId serviceType providerName serviceName).take n) =
        .ok [info] ∧
      Says env ((sdtSection env transportStreamId programId serviceType providerName serviceName).take n) programId 18
        (n - 22) info := by
  have hlen := length_sdtSection env transportStreamId programId serviceType providerName serviceName
  have hfront := front_sdtSection env transportStreamId programId serviceType providerName serviceName
    (show 20 ≤ n by omega)
  have htake : ((sdtSection env transportStreamId programId serviceType providerName serviceName).take n).length =
      22 + (n - 22) := by
    rw [List.length_take]
    omega
  have hbody := hfront.len
  have hloop := hfront.loopLen
  obtain ⟨info, hone, hsays⟩ := analyzeSdt_one env hfront.tableId htake hfront.tag (by omega) (by omega)
  rw [hfront.serviceId] at hsays
  exact ⟨info, hone, hsays⟩

/-- Less than 22 bytes come back only of names of more than 4096, and have no descriptor. -/
theorem analyze_sdtSection_short {n : ℕ}
    (hn : n = (24 + (strBytes providerName).length + (strBytes serviceName).length) % 4096 + 3) (h22 : n < 22) :
    analyzeSdt env ((sdtSection env transportStreamId programId serviceType providerName serviceName).take n) =
      .ok [] := by
  have hle : ((sdtSection env transportStreamId programId serviceType providerName serviceName).take n).length ≤ n :=
    List.length_take_le _ _
  apply analyzeSdt_none
  · omega
  · rcases Nat.lt_or_ge n 20 with hlt | hge
    · left
      omega
    · right
      rw [(front_sdtSection env transportStreamId programId serviceType providerName serviceName hge).loopLen]
      omega

/-- Of a section that goes on after the packet nothing comes back. -/
theorem sdt_cut (h : 183 < (24 + (strBytes providerName).length + (strBytes serviceName).length) % 4096 + 3) :
    ¬ SdtTrip env transportStreamId programId serviceType providerName serviceName := by
  rintro ⟨packet, section_, info, hprepare, hreturned, -⟩
  rw [prepareSdt_section] at hprepare
  cases hprepare
  rw [push_sdtSection, if_neg (by omega)] at hreturned
  cases hreturned

/-- **The table comes back exactly when its names leave it in one packet.** -/
theorem sdt_trip : SdtTrip env transportStreamId programId serviceType providerName serviceName ↔
    (strBytes providerName).length + (strBytes serviceName).length ≤ 156 := by
  have hlen := length_sdtSection env transportStreamId programId serviceType providerName serviceName
  have hpush := push_sdtSection env transportStreamId programId serviceType providerName serviceName
  constructor
  · rintro ⟨packet, section_, info, hprepare, hreturned, -, hanalyze, -, -, hprovider, hservice⟩
    rw [prepareSdt_section] at hprepare
    cases hprepare
    rw [hpush] at hreturned
    split_ifs at hreturned with h183
    cases hreturned
    by_cases h22 : 22 ≤ (24 + (strBytes providerName).length + (strBytes serviceName).length) % 4096 + 3
    · obtain ⟨info', hone, hsays⟩ := analyze_sdtSection env transportStreamId programId serviceType providerName
        serviceName rfl h22 h183
      rw [hone] at hanalyze
      cases hanalyze
      exact (says_names env transportStreamId programId serviceType providerName serviceName rfl h22 h183 hsays).1
        ⟨hprovider, hservice⟩
    · rw [analyze_sdtSection_short env transportStreamId programId serviceType providerName serviceName rfl
        (by omega)] at hanalyze
      cases hanalyze
  · intro hfit
    have hn : (24 + (strBytes providerName).length + (strBytes serviceName).length) % 4096 + 3 =
        27 + (strBytes providerName).length + (strBytes serviceName).length := by omega
    obtain ⟨info, hone, hsays⟩ := analyze_sdtSection env transportStreamId programId serviceType providerName
      serviceName hn.symm (by omega) (by omega)
    have hnames := (says_names env transportStreamId programId serviceType providerName serviceName hn.symm (by omega)
      (by omega) hsays).2 hfit
    have hfront := front_sdtSection env transportStreamId programId serviceType providerName serviceName
      (show 20 ≤ 27 + (strBytes providerName).length + (strBytes serviceName).length by omega)
    have htype := hsays.serviceType
    rw [hfront.serviceType] at htype
    rw [hn, if_pos (by omega)] at hpush
    rw [← hlen, List.take_length] at hpush hone hsays
    refine ⟨_, _, info, prepareSdt_section _ _ _ _ _ _, hpush, ?_, hone, hsays.serviceId, htype, hnames.1, hnames.2⟩
    apply sealed_withCrc
    · exact Nat.le_trans (show 3 ≤ 20 by norm_num) (by rw [List.length_append]; exact Nat.le_add_right _ _)
    · rw [List.length_append, length_sdtNames]
      change 20 + _ + 1 < 4096
      omega

/-- A provider of 100 bytes and a service of 57: the section is one byte longer than the packet. -/
theorem sdt_lost : ¬ SdtTrip Env.sample 1 1 1 (letters 100) (letters 57) := by
  apply sdt_cut
  rw [length_letters, length_letters]
  norm_num

end MyMuxer.Psi
