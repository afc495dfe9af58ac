import SrsLte.BitString

/-!
# Reports of the channel quality

A report is one of four layouts, whose fields come and go with the configuration. Packing, unpacking
and the size of a report each know the layouts by themselves.
-/

namespace SrsLte

namespace Cqi

/-- `srslte_cqi_type_t`. -/
inductive CqiType
  | wideband
  | subband
  | subbandUe
  | subbandHl
  deriving DecidableEq

/-- `srslte_cqi_cfg_t`, as far as the layouts read it. -/
structure CqiCfg where
  dataEnable : Bool
  pmiPresent : Bool
  fourAntennaPorts : Bool
  rankIsNotOne : Bool
  subbandLabel2Bits : Bool
  l : ℕ
  n : ℕ
  type : CqiType
  deriving DecidableEq

/-- `srslte_cqi_hl_subband_t`. -/
structure HlSubband where
  widebandCqiCw0 : ℕ
  subbandDiffCqiCw0 : ℕ
  widebandCqiCw1 : ℕ
  subbandDiffCqiCw1 : ℕ
  pmi : ℕ
  deriving DecidableEq

/-- `srslte_cqi_ue_subband_t`. -/
structure UeSubband where
  widebandCqi : ℕ
  subbandDiffCqi : ℕ
  positionSubband : ℕ
  deriving DecidableEq

/-- `srslte_cqi_format2_wideband_t`. -/
structure Format2Wideband where
  widebandCqi : ℕ
  spatialDiffCqi : ℕ
  pmi : ℕ
  deriving DecidableEq

/-- `srslte_cqi_format2_subband_t`. -/
structure Format2Subband where
  subbandCqi : ℕ
  subbandLabel : ℕ
  deriving DecidableEq

/-- The union in `srslte_cqi_value_t`, with the member that was written last. -/
inductive CqiValue
  | wideband (msg : Format2Wideband)
  | subband (msg : Format2Subband)
  | subbandUe (msg : UeSubband)
  | subbandHl (msg : HlSubband)
  deriving DecidableEq

def CqiValue.type : CqiValue → CqiType
  | .wideband _ => .wideband
  | .subband _ => .subband
  | .subbandUe _ => .subbandUe
  | .subbandHl _ => .subbandHl

/-- `SRSLTE_CQI_MAX_BITS`. -/
def maxBits : ℕ := 64

/-- `srslte_bit_unpack` behind the bits written so far. There is no result for a shift of 32 bits or
more, nor past the end of the buffer. -/
def bitUnpack (value nofBits : ℕ) (buff : List Bool) : Option (List Bool) :=
  if nofBits ≤ 32 ∧ buff.length + nofBits ≤ maxBits then
    some (buff ++ BitString.ofNat nofBits value)
  else none

/-- `srslte_bit_pack`, with the bits behind. -/
def bitPack (nofBits : ℕ) (buff : List Bool) : Option (ℕ × List Bool) :=
  if nofBits ≤ 32 ∧ nofBits ≤ buff.length then
    some (BitString.toNat (buff.take nofBits), buff.drop nofBits)
  else none

variable (cfg : CqiCfg)

/-- `2 * cfg->N`. -/
def diffBits : ℕ := 2 * cfg.n % 2 ^ 32

/-- `cqi_hl_subband_pack`. -/
def hlSubbandPack (msg : HlSubband) : Option (List Bool × ℕ) := do
  let buff ← bitUnpack msg.widebandCqiCw0 4 []
  let buff ← bitUnpack msg.subbandDiffCqiCw0 (diffBits cfg) buff
  let bitCount := (4 + diffBits cfg) % 2 ^ 32
  let (buff, bitCount) ←
    if cfg.rankIsNotOne then do
      let buff ← bitUnpack msg.widebandCqiCw1 4 buff
      let buff ← bitUnpack msg.subbandDiffCqiCw1 (diffBits cfg) buff
      pure (buff, (bitCount + (4 + diffBits cfg)) % 2 ^ 32)
    else pure (buff, bitCount)
  if cfg.pmiPresent then
    let pmiBits := if cfg.fourAntennaPorts then 4 else if cfg.rankIsNotOne then 1 else 2
    let buff ← bitUnpack msg.pmi pmiBits buff
    pure (buff, (bitCount + pmiBits) % 2 ^ 32)
  else pure (buff, bitCount)

/-- `cqi_ue_subband_pack`. -/
def ueSubbandPack (msg : UeSubband) : Option (List Bool × ℕ) := do
  let buff ← bitUnpack msg.widebandCqi 4 []
  let buff ← bitUnpack msg.subbandDiffCqi 2 buff
  let buff ← bitUnpack msg.subbandDiffCqi cfg.l buff
  pure (buff, (4 + 2 + cfg.l) % 2 ^ 32)

/-- `cqi_format2_wideband_pack`. -/
def format2WidebandPack (msg : Format2Wideband) : Option (List Bool × ℕ) := do
  let buff ← bitUnpack msg.widebandCqi 4 []
  let buff ←
    if cfg.pmiPresent then
      if cfg.fourAntennaPorts then do
        let buff ← if cfg.rankIsNotOne then bitUnpack msg.spatialDiffCqi 3 buff else pure buff
        bitUnpack msg.pmi 4 buff
      else if cfg.rankIsNotOne then do
        let buff ← bitUnpack msg.spatialDiffCqi 3 buff
        bitUnpack msg.pmi 1 buff
      else bitUnpack msg.pmi 2 buff
    else pure buff
  pure (buff, buff.length)

/-- `4 + (cfg->subband_label_2_bits) ? 2 : 1`: the sum is the condition. -/
def format2SubbandReturn : ℕ := if 4 + cfg.subbandLabel2Bits.toNat ≠ 0 then 2 else 1

/-- `cqi_format2_subband_pack`. -/
def format2SubbandPack (msg : Format2Subband) : Option (List Bool × ℕ) := do
  let buff ← bitUnpack msg.subbandCqi 4 []
  let buff ← bitUnpack msg.subbandLabel (if cfg.subbandLabel2Bits then 2 else 1) buff
  pure (buff, format2SubbandReturn cfg)

/-- `srslte_cqi_value_pack`: the bits written and the value returned. There is no result where
another member of the union would be read than the one written. -/
def cqiValuePack (value : CqiValue) : Option (List Bool × ℕ) :=
  match cfg.type, value with
  | .wideband, .wideband msg => format2WidebandPack cfg msg
  | .subband, .subband msg => format2SubbandPack cfg msg
  | .subbandUe, .subbandUe msg => ueSubbandPack cfg msg
  | .subbandHl, .subbandHl msg => hlSubbandPack cfg msg
  | _, _ => none

/-- `cqi_hl_subband_unpack`, into the fields of `msg`. -/
def hlSubbandUnpack (buff : List Bool) (msg : HlSubband) : Option (HlSubband × ℕ) := do
  let (wideband, buff) ← bitPack 4 buff
  let (diff, buff) ← bitPack (diffBits cfg) buff
  let msg := { msg with widebandCqiCw0 := wideband % 2 ^ 8, subbandDiffCqiCw0 := diff }
  let bitCount := (4 + diffBits cfg) % 2 ^ 32
  let (msg, buff, bitCount) ←
    if cfg.rankIsNotOne then do
      let (wideband, buff) ← bitPack 4 buff
      let (diff, buff) ← bitPack (diffBits cfg) buff
      pure ({ msg with widebandCqiCw1 := wideband % 2 ^ 8, subbandDiffCqiCw1 := diff }, buff,
        (bitCount + (4 + diffBits cfg)) % 2 ^ 32)
    else pure (msg, buff, bitCount)
  if cfg.pmiPresent then
    let pmiBits := if cfg.fourAntennaPorts then 4 else if cfg.rankIsNotOne then 1 else 2
    let (pmi, _) ← bitPack pmiBits buff
    pure ({ msg with pmi := pmi % 2 ^ 8 }, (bitCount + pmiBits) % 2 ^ 32)
  else pure (msg, bitCount)

/-- `cqi_ue_subband_unpack`. -/
def ueSubbandUnpack (buff : List Bool) (msg : UeSubband) : Option (UeSubband × ℕ) := do
  let (wideband, buff) ← bitPack 4 buff
  let msg := { msg with widebandCqi := wideband % 2 ^ 8 }
  let (diff, buff) ← bitPack 2 buff
  let msg := { msg with subbandDiffCqi := diff % 2 ^ 8 }
  let (diff, _) ← bitPack cfg.l buff
  let msg := { msg with subbandDiffCqi := diff % 2 ^ 8 }
  pure (msg, (4 + 2 + cfg.l) % 2 ^ 32)

/-- `cqi_format2_wideband_unpack`. -/
def format2WidebandUnpack (buff : List Bool) (msg : Format2Wideband) :
    Option (Format2Wideband × ℕ) := do
  let (wideband, buff) ← bitPack 4 buff
  let msg := { msg with widebandCqi := wideband % 2 ^ 8 }
  let msg ←
    if cfg.pmiPresent then
      if cfg.fourAntennaPorts then do
        let (msg, buff) ←
          if cfg.rankIsNotOne then do
            let (diff, buff) ← bitPack 3 buff
            pure ({ msg with spatialDiffCqi := diff % 2 ^ 8 }, buff)
          else pure (msg, buff)
        let (pmi, _) ← bitPack 4 buff
        pure { msg with pmi := pmi % 2 ^ 8 }
      else if cfg.rankIsNotOne then do
        let (diff, buff) ← bitPack 3 buff
        let (pmi, _) ← bitPack 1 buff
        pure { msg with spatialDiffCqi := diff % 2 ^ 8, pmi := pmi % 2 ^ 8 }
      else do
        let (pmi, _) ← bitPack 2 buff
        pure { msg with pmi := pmi % 2 ^ 8 }
    else pure msg
  pure (msg, 4)

/-- `cqi_format2_subband_unpack`. -/
def format2SubbandUnpack (buff : List Bool) (msg : Format2Subband) :
    Option (Format2Subband × ℕ) := do
  let (cqi, buff) ← bitPack 4 buff
  let msg := { msg with subbandCqi := cqi % 2 ^ 8 }
  let (label, _) ← bitPack (if cfg.subbandLabel2Bits then 2 else 1) buff
  pure ({ msg with subbandLabel := label % 2 ^ 8 }, format2SubbandReturn cfg)

/-- `srslte_cqi_value_unpack`, into the member of `value` of the type. -/
def cqiValueUnpack (buff : List Bool) (value : CqiValue) : Option (CqiValue × ℕ) :=
  match cfg.type, value with
  | .wideband, .wideband msg =>
    (format2WidebandUnpack cfg buff msg).map fun r => (.wideband r.1, r.2)
  | .subband, .subband msg => (format2SubbandUnpack cfg buff msg).map fun r => (.subband r.1, r.2)
  | .subbandUe, .subbandUe msg => (ueSubbandUnpack cfg buff msg).map fun r => (.subbandUe r.1, r.2)
  | .subbandHl, .subbandHl msg => (hlSubbandUnpack cfg buff msg).map fun r => (.subbandHl r.1, r.2)
  | _, _ => none

/-- `srslte_cqi_size`. -/
def cqiSize : ℕ :=
  if !cfg.dataEnable then 0
  else
    match cfg.type with
    | .wideband =>
      4 + if cfg.pmiPresent then
        if cfg.fourAntennaPorts then (if cfg.rankIsNotOne then 3 else 0) + 4
        else if cfg.rankIsNotOne then 3 + 1 else 0 + 2
      else 0
    | .subband => format2SubbandReturn cfg
    | .subbandUe => (4 + 2 + cfg.l) % 2 ^ 32
    | .subbandHl =>
      (4 + diffBits cfg + (if cfg.rankIsNotOne && cfg.pmiPresent then 4 + diffBits cfg else 0) +
        if cfg.pmiPresent then
          if cfg.fourAntennaPorts then 4 else if cfg.rankIsNotOne then 1 else 2
        else 0) % 2 ^ 32

def pmiBits : ℕ :=
  if !cfg.pmiPresent then 0
  else if cfg.fourAntennaPorts then 4 else if cfg.rankIsNotOne then 1 else 2

def secondBits (width : ℕ) : ℕ := if cfg.rankIsNotOne then width else 0

def spatialBits : ℕ := if cfg.pmiPresent && cfg.rankIsNotOne then 3 else 0

/-- The fields of a report with their widths; a field that is left out has the width zero. -/
def fields : CqiValue → List (ℕ × ℕ)
  | .wideband msg => [(msg.widebandCqi, 4), (msg.spatialDiffCqi, spatialBits cfg),
      (msg.pmi, pmiBits cfg)]
  | .subband msg => [(msg.subbandCqi, 4), (msg.subbandLabel,
      if cfg.subbandLabel2Bits then 2 else 1)]
  | .subbandUe msg => [(msg.widebandCqi, 4), (msg.subbandDiffCqi, 2), (msg.positionSubband, cfg.l)]
  | .subbandHl msg => [(msg.widebandCqiCw0, 4), (msg.subbandDiffCqiCw0, diffBits cfg),
      (msg.widebandCqiCw1, secondBits cfg 4),
      (msg.subbandDiffCqiCw1, secondBits cfg (diffBits cfg)), (msg.pmi, pmiBits cfg)]

structure Fits (value : CqiValue) : Prop where
  type : value.type = cfg.type
  widths : ∀ f ∈ fields cfg value, f.1 < 2 ^ f.2

/-- Memory of the same type, in which the fields that are left out are zero. -/
structure Target (value : CqiValue) : Prop where
  type : value.type = cfg.type
  absent : ∀ f ∈ fields cfg value, f.2 = 0 → f.1 = 0

/-- The report comes back from its bits, into any memory and with any bits behind, and all the
numbers of bits agree. -/
def Codes (value : CqiValue) : Prop :=
  ∃ bits ret, cqiValuePack cfg value = some (bits, ret) ∧ bits.length = ret ∧ cqiSize cfg = ret ∧
    ∀ rest target, Target cfg target →
      cqiValueUnpack cfg (bits ++ rest) target = some (value, ret)

def Condition (value : CqiValue) : Prop :=
  cfg.dataEnable = true ∧
    match value with
    | .wideband _ => cfg.pmiPresent = false
    | .subband _ => False
    | .subbandUe msg => cfg.l = 0 ∧ msg.subbandDiffCqi = 0
    | .subbandHl _ => (cfg.rankIsNotOne = true → cfg.pmiPresent = true) ∧ diffBits cfg ≤ 32 ∧
        4 + diffBits cfg + secondBits cfg (4 + diffBits cfg) + pmiBits cfg ≤ maxBits

theorem bitPack_ofNat {value nofBits : ℕ} (hbits : nofBits ≤ 32) (hfits : value < 2 ^ nofBits)
    (rest : List Bool) :
    bitPack nofBits (BitString.ofNat nofBits value ++ rest) = some (value, rest) := by
  have hlen : nofBits ≤ (BitString.ofNat nofBits value ++ rest).length := by
    rw [List.length_append, BitString.length_ofNat]
    exact Nat.le_add_right _ _
  rw [bitPack, if_pos ⟨hbits, hlen⟩, BitString.toNat_take_ofNat, BitString.drop_ofNat_append,
    Nat.mod_eq_of_lt hfits]

theorem bitPack_octet {value nofBits : ℕ} (hbits : nofBits ≤ 8) (hfits : value < 2 ^ nofBits)
    (rest : List Bool) :
    bitPack nofBits (BitString.ofNat nofBits value ++ rest) = some (value, rest) ∧
      value % 2 ^ 8 = value := by
  refine ⟨bitPack_ofNat (hbits.trans (by decide)) hfits rest, Nat.mod_eq_of_lt ?_⟩
  exact Nat.lt_of_lt_of_le hfits (Nat.pow_le_pow_right (by decide) hbits)

theorem bitPack_zero (buff : List Bool) : bitPack 0 buff = some (0, buff) := by
  simp [bitPack, BitString.toNat]

theorem optional_field {v old read width : ℕ} (hfits : v < 2 ^ width)
    (habsent : width = 0 → old = 0) (hread : read = v) : (if width = 0 then old else read) = v := by
  split_ifs with hwidth
  · rw [hwidth, pow_zero, Nat.lt_one_iff] at hfits
    rw [habsent hwidth, hfits]
  · exact hread

theorem pmiBits_le : pmiBits cfg ≤ 8 := by
  unfold pmiBits
  split_ifs <;> decide

theorem ofNat_width_zero (v : ℕ) : BitString.ofNat 0 v = [] := rfl

theorem bitUnpack_bind {β : Type} (value nofBits : ℕ) (buff : List Bool)
    (f : List Bool → Option β) :
    (bitUnpack value nofBits buff).bind f =
      if nofBits ≤ 32 ∧ buff.length + nofBits ≤ maxBits then
        f (buff ++ BitString.ofNat nofBits value)
      else none := by
  unfold bitUnpack
  split_ifs <;> rfl

theorem bitUnpack_bind_zero {β : Type} (value nofBits value' : ℕ) (buff : List Bool)
    (f : List Bool → Option β) :
    ((bitUnpack value nofBits buff).bind fun buff => (bitUnpack value' 0 buff).bind f) =
      (bitUnpack value nofBits buff).bind f := by
  simp only [bitUnpack_bind, List.length_append, BitString.length_ofNat, ofNat_width_zero,
    List.append_nil]
  refine ite_congr rfl (fun hroom => ?_) fun _ => rfl
  exact if_pos ⟨Nat.zero_le 32, hroom.2⟩

variable {cfg}

def widebandBits (cfg : CqiCfg) (msg : Format2Wideband) : List Bool :=
  BitString.ofNat 4 msg.widebandCqi ++ (BitString.ofNat (spatialBits cfg) msg.spatialDiffCqi ++
    BitString.ofNat (pmiBits cfg) msg.pmi)

theorem format2WidebandPack_eq (cfg : CqiCfg) (msg : Format2Wideband) :
    format2WidebandPack cfg msg = some (widebandBits cfg msg, (widebandBits cfg msg).length) := by
  unfold format2WidebandPack widebandBits spatialBits pmiBits
  rcases cfg with ⟨_, pmiPresent, fourAntennaPorts, rankIsNotOne, _, _, _, _⟩
  cases pmiPresent <;> cases fourAntennaPorts <;> cases rankIsNotOne <;>
    simp [bitUnpack, maxBits, ofNat_width_zero]

theorem format2WidebandUnpack_fields (cfg : CqiCfg) (buff : List Bool) (msg : Format2Wideband) :
    format2WidebandUnpack cfg buff msg =
      (bitPack 4 buff).bind fun w =>
        (bitPack (spatialBits cfg) w.2).bind fun s =>
          (bitPack (pmiBits cfg) s.2).bind fun p =>
            some (⟨w.1 % 2 ^ 8, if spatialBits cfg = 0 then msg.spatialDiffCqi else s.1 % 2 ^ 8,
              if pmiBits cfg = 0 then msg.pmi else p.1 % 2 ^ 8⟩, 4) := by
  unfold format2WidebandUnpack spatialBits pmiBits
  rcases cfg with ⟨_, pmiPresent, fourAntennaPorts, rankIsNotOne, _, _, _, _⟩
  cases pmiPresent <;> cases fourAntennaPorts <;> cases rankIsNotOne <;>
    simp [bitPack_zero]

theorem format2WidebandUnpack_eq {msg target : Format2Wideband}
    (hfits : Fits cfg (.wideband msg)) (htarget : Target cfg (.wideband target))
    (rest : List Bool) :
    format2WidebandUnpack cfg (widebandBits cfg msg ++ rest) target = some (msg, 4) := by
  obtain ⟨-, hwidths⟩ := hfits
  obtain ⟨-, habsent⟩ := htarget
  simp only [fields, List.forall_mem_cons, List.not_mem_nil, false_implies, implies_true,
    and_true] at hwidths habsent
  obtain ⟨hwideband, hspatial, hpmi⟩ := hwidths
  obtain ⟨-, hnospatial, hnopmi⟩ := habsent
  have hspatialBits : spatialBits cfg ≤ 8 := by
    unfold spatialBits
    split_ifs <;> decide
  have hw (rest : List Bool) := bitPack_octet (by decide) hwideband rest
  have hs (rest : List Bool) := bitPack_octet hspatialBits hspatial rest
  obtain ⟨hp, hp8⟩ := bitPack_octet (pmiBits_le cfg) hpmi rest
  have hs' := optional_field hspatial hnospatial (hs []).2
  have hp' := optional_field hpmi hnopmi hp8
  rw [format2WidebandUnpack_fields, widebandBits, List.append_assoc, List.append_assoc, (hw _).1,
    Option.bind_some, (hs _).1, Option.bind_some, hp, Option.bind_some, (hw []).2, hs', hp']

def zeroed : CqiType → CqiValue
  | .wideband => .wideband ⟨0, 0, 0⟩
  | .subband => .subband ⟨0, 0⟩
  | .subbandUe => .subbandUe ⟨0, 0, 0⟩
  | .subbandHl => .subbandHl ⟨0, 0, 0, 0, 0⟩

theorem target_zeroed (cfg : CqiCfg) : Target cfg (zeroed cfg.type) := by
  constructor
  · cases cfg.type <;> rfl
  · cases cfg.type <;> simp [zeroed, fields]

theorem length_widebandBits (cfg : CqiCfg) (msg : Format2Wideband) :
    (widebandBits cfg msg).length = 4 + (spatialBits cfg + pmiBits cfg) := by
  simp [widebandBits]

theorem cqiSize_wideband (htype : cfg.type = .wideband) :
    cqiSize cfg = if cfg.dataEnable then 4 + (spatialBits cfg + pmiBits cfg) else 0 := by
  unfold cqiSize spatialBits pmiBits
  rw [htype]
  rcases cfg with ⟨dataEnable, pmiPresent, fourAntennaPorts, rankIsNotOne, _, _, _, _⟩
  cases dataEnable <;> cases pmiPresent <;> cases fourAntennaPorts <;> cases rankIsNotOne <;> rfl

theorem wideband_iff {msg : Format2Wideband} (hfits : Fits cfg (.wideband msg)) :
    Codes cfg (.wideband msg) ↔ Condition cfg (.wideband msg) := by
  have htype : cfg.type = .wideband := hfits.type.symm
  have hpack : cqiValuePack cfg (.wideband msg) =
      some (widebandBits cfg msg, 4 + (spatialBits cfg + pmiBits cfg)) := by
    rw [← length_widebandBits, ← format2WidebandPack_eq]
    simp only [cqiValuePack, htype]
  have hunpack {target : CqiValue} (htarget : Target cfg target) (rest : List Bool) :
      cqiValueUnpack cfg (widebandBits cfg msg ++ rest) target = some (.wideband msg, 4) := by
    have htype' := htarget.type
    rw [htype] at htype'
    cases target with
    | wideband old =>
      simp only [cqiValueUnpack, htype, format2WidebandUnpack_eq hfits htarget, Option.map_some]
    | _ => cases htype'
  unfold Codes Condition
  constructor
  · rintro ⟨bits, ret, hbits, -, hsize, hback⟩
    rw [hpack, Option.some.injEq, Prod.mk.injEq] at hbits
    obtain ⟨rfl, rfl⟩ := hbits
    have hret := (hunpack (target_zeroed cfg) []).symm.trans (hback [] _ (target_zeroed cfg))
    rw [Option.some.injEq, Prod.mk.injEq] at hret
    have hnone : pmiBits cfg = 0 := by omega
    rw [cqiSize_wideband htype] at hsize
    refine ⟨?_, ?_⟩
    · by_contra hdata
      rw [if_neg hdata] at hsize
      omega
    · by_contra hpresent
      unfold pmiBits at hnone
      rw [Bool.not_eq_false] at hpresent
      rw [hpresent, Bool.not_true, if_neg Bool.false_ne_true] at hnone
      split_ifs at hnone
  · rintro ⟨hdata, hpresent⟩
    have hnone : spatialBits cfg = 0 ∧ pmiBits cfg = 0 := by
      simp [spatialBits, pmiBits, hpresent]
    rw [hnone.1, hnone.2] at hpack
    refine ⟨_, _, hpack, ?_, ?_, fun rest target htarget => hunpack htarget rest⟩
    · rw [length_widebandBits, hnone.1, hnone.2]
    · rw [cqiSize_wideband htype, if_pos hdata, hnone.1, hnone.2]

theorem subband_iff {msg : Format2Subband} (hfits : Fits cfg (.subband msg)) :
    Codes cfg (.subband msg) ↔ Condition cfg (.subband msg) := by
  have htype : cfg.type = .subband := hfits.type.symm
  unfold Codes Condition
  refine iff_of_false ?_ (fun h => h.2)
  rintro ⟨bits, ret, hbits, hlen, -, -⟩
  simp only [cqiValuePack, htype] at hbits
  unfold format2SubbandPack format2SubbandReturn bitUnpack maxBits at hbits
  cases hlabel : cfg.subbandLabel2Bits <;> simp [hlabel] at hbits <;>
    obtain ⟨rfl, rfl⟩ := hbits <;> simp at hlen

/-- The bits of a UE selected subband report: the difference stands where the position should. -/
def ueBits (cfg : CqiCfg) (msg : UeSubband) : List Bool :=
  BitString.ofNat 4 msg.widebandCqi ++ (BitString.ofNat 2 msg.subbandDiffCqi ++
    BitString.ofNat cfg.l msg.subbandDiffCqi)

theorem ueSubbandPack_eq (cfg : CqiCfg) (msg : UeSubband) :
    ueSubbandPack cfg msg = if cfg.l ≤ 32 then some (ueBits cfg msg, 6 + cfg.l) else none := by
  unfold ueSubbandPack ueBits
  simp only [Option.bind_eq_bind, bitUnpack_bind, List.length_append, BitString.length_ofNat,
    List.length_nil, maxBits, List.nil_append, List.append_assoc]
  split_ifs with h1 h2 h3 h4
  · have hcount : (4 + 2 + cfg.l) % 2 ^ 32 = 6 + cfg.l := Nat.mod_eq_of_lt (by omega)
    rw [hcount]
    rfl
  all_goals first | rfl | omega

theorem ueSubbandUnpack_eq {msg : UeSubband} (hwideband : msg.widebandCqi < 2 ^ 4)
    (hdiff : msg.subbandDiffCqi < 2 ^ 2) (hl : cfg.l ≤ 32) (rest : List Bool)
    (target : UeSubband) :
    ueSubbandUnpack cfg (ueBits cfg msg ++ rest) target =
      some (⟨msg.widebandCqi, msg.subbandDiffCqi % 2 ^ cfg.l, target.positionSubband⟩,
        6 + cfg.l) := by
  obtain ⟨hw, hw8⟩ := bitPack_octet (by decide) hwideband
    (BitString.ofNat 2 msg.subbandDiffCqi ++ (BitString.ofNat cfg.l msg.subbandDiffCqi ++ rest))
  obtain ⟨hd, -⟩ := bitPack_octet (by decide) hdiff
    (BitString.ofNat cfg.l msg.subbandDiffCqi ++ rest)
  have hlen : cfg.l ≤ (BitString.ofNat cfg.l msg.subbandDiffCqi ++ rest).length := by
    rw [List.length_append, BitString.length_ofNat]
    exact Nat.le_add_right _ _
  have hlast : bitPack cfg.l (BitString.ofNat cfg.l msg.subbandDiffCqi ++ rest) =
      some (msg.subbandDiffCqi % 2 ^ cfg.l, rest) := by
    rw [bitPack, if_pos ⟨hl, hlen⟩, BitString.toNat_take_ofNat, BitString.drop_ofNat_append]
  have hmod : msg.subbandDiffCqi % 2 ^ cfg.l % 2 ^ 8 = msg.subbandDiffCqi % 2 ^ cfg.l :=
    Nat.mod_eq_of_lt (Nat.lt_of_le_of_lt (Nat.mod_le _ _) (by omega))
  have hcount : (4 + 2 + cfg.l) % 2 ^ 32 = 6 + cfg.l := Nat.mod_eq_of_lt (by omega)
  unfold ueSubbandUnpack ueBits
  simp only [List.append_assoc, hw, hw8, hd, hlast, hmod, hcount, Option.bind_eq_bind,
    Option.bind_some]
  rfl

theorem subbandUe_iff {msg : UeSubband} (hfits : Fits cfg (.subbandUe msg)) :
    Codes cfg (.subbandUe msg) ↔ Condition cfg (.subbandUe msg) := by
  have htype : cfg.type = .subbandUe := hfits.type.symm
  have hwidths := hfits.widths
  simp only [fields, List.forall_mem_cons, List.not_mem_nil, false_implies, implies_true,
    and_true] at hwidths
  obtain ⟨hwideband, hdiff, hposition⟩ := hwidths
  unfold Codes Condition
  simp only [cqiValuePack, htype, ueSubbandPack_eq]
  constructor
  · rintro ⟨bits, ret, hbits, -, hsize, hback⟩
    split_ifs at hbits with hl
    obtain ⟨rfl, rfl⟩ := Prod.mk.inj (Option.some.inj hbits)
    have hback' (position : ℕ) (hzero : cfg.l = 0 → position = 0) :
        msg.subbandDiffCqi % 2 ^ cfg.l = msg.subbandDiffCqi ∧ position = msg.positionSubband := by
      have htarget : Target cfg (.subbandUe ⟨0, 0, position⟩) := by
        refine ⟨htype.symm, ?_⟩
        simpa [fields] using hzero
      have hread := hback [] (.subbandUe ⟨0, 0, position⟩) htarget
      simp only [cqiValueUnpack, htype, ueSubbandUnpack_eq hwideband hdiff hl, Option.map_some,
        Option.some.injEq, Prod.mk.injEq, CqiValue.subbandUe.injEq] at hread
      have hmsg := hread.1
      exact ⟨congrArg UeSubband.subbandDiffCqi hmsg, congrArg UeSubband.positionSubband hmsg⟩
    have hzero : cfg.l = 0 := by
      by_contra hpos
      -- two positions in memory would both have to be the one of the report
      have h0 := (hback' 0 fun _ => rfl).2
      have h1 := (hback' 1 fun h => absurd h hpos).2
      omega
    refine ⟨?_, hzero, ?_⟩
    · by_contra hdata
      rw [cqiSize, if_pos (by simpa using hdata)] at hsize
      omega
    · have hread := (hback' 0 fun _ => rfl).1
      rw [hzero, pow_zero, Nat.mod_one] at hread
      exact hread.symm
  · rintro ⟨hdata, hzero, hnodiff⟩
    rw [hzero, pow_zero, Nat.lt_one_iff] at hposition
    refine ⟨ueBits cfg msg, 6 + cfg.l, if_pos (by omega), ?_, ?_, ?_⟩
    · simp only [ueBits, List.length_append, BitString.length_ofNat]
      omega
    · simp only [cqiSize, hdata, htype, hzero]
      rfl
    · intro rest target htarget
      have htype' := htarget.type
      rw [htype] at htype'
      cases target with
      | wideband old => cases htype'
      | subband old => cases htype'
      | subbandHl old => cases htype'
      | subbandUe old =>
        have hold : old.positionSubband = 0 := by
          have habsent := htarget.absent
          simp only [fields, List.forall_mem_cons, List.not_mem_nil, false_implies, implies_true,
            and_true] at habsent
          exact habsent.2.2 hzero
        have hmsg : (⟨msg.widebandCqi, msg.subbandDiffCqi % 2 ^ cfg.l, old.positionSubband⟩ :
            UeSubband) = msg := by
          rw [hzero, pow_zero, Nat.mod_one, ← hnodiff, hold, ← hposition]
        simp only [cqiValueUnpack, htype,
          ueSubbandUnpack_eq hwideband hdiff (show cfg.l ≤ 32 by omega), Option.map_some, hmsg]

def hlBits (cfg : CqiCfg) (msg : HlSubband) : List Bool :=
  BitString.ofNat 4 msg.widebandCqiCw0 ++ (BitString.ofNat (diffBits cfg) msg.subbandDiffCqiCw0 ++
    (BitString.ofNat (secondBits cfg 4) msg.widebandCqiCw1 ++
      (BitString.ofNat (secondBits cfg (diffBits cfg)) msg.subbandDiffCqiCw1 ++
        BitString.ofNat (pmiBits cfg) msg.pmi)))

def hlCount (cfg : CqiCfg) : ℕ :=
  4 + diffBits cfg + secondBits cfg (4 + diffBits cfg) + pmiBits cfg

theorem hlSubbandPack_fields (cfg : CqiCfg) (msg : HlSubband) :
    hlSubbandPack cfg msg =
      (bitUnpack msg.widebandCqiCw0 4 []).bind fun b =>
        (bitUnpack msg.subbandDiffCqiCw0 (diffBits cfg) b).bind fun b =>
          (bitUnpack msg.widebandCqiCw1 (secondBits cfg 4) b).bind fun b =>
            (bitUnpack msg.subbandDiffCqiCw1 (secondBits cfg (diffBits cfg)) b).bind fun b =>
              (bitUnpack msg.pmi (pmiBits cfg) b).bind fun b =>
                some (b, hlCount cfg % 2 ^ 32) := by
  unfold hlSubbandPack hlCount secondBits pmiBits
  cases hpresent : cfg.pmiPresent <;> cases hports : cfg.fourAntennaPorts <;>
    cases hrank : cfg.rankIsNotOne <;> simp [bitUnpack_bind_zero]

theorem hlSubbandPack_eq (cfg : CqiCfg) (msg : HlSubband) :
    hlSubbandPack cfg msg =
      if diffBits cfg ≤ 32 ∧ hlCount cfg ≤ maxBits then some (hlBits cfg msg, hlCount cfg)
      else none := by
  have hsecond : secondBits cfg (4 + diffBits cfg) = secondBits cfg 4 +
      secondBits cfg (diffBits cfg) ∧ secondBits cfg 4 ≤ 4 ∧
      secondBits cfg (diffBits cfg) ≤ diffBits cfg := by
    unfold secondBits
    split_ifs <;> simp
  have hpmi := pmiBits_le cfg
  rw [hlSubbandPack_fields]
  simp only [bitUnpack_bind, List.length_append, BitString.length_ofNat, List.length_nil]
  unfold hlCount hlBits at *
  rw [hsecond.1] at *
  unfold maxBits
  split_ifs with h1 h2 h3 h4 h5 hall hall
  · have hcount : 4 + diffBits cfg + (secondBits cfg 4 + secondBits cfg (diffBits cfg)) +
        pmiBits cfg < 2 ^ 32 := by omega
    simp only [List.nil_append, List.append_assoc, Nat.mod_eq_of_lt hcount]
  all_goals first | rfl | omega

theorem length_hlBits (cfg : CqiCfg) (msg : HlSubband) :
    (hlBits cfg msg).length = hlCount cfg := by
  unfold hlBits hlCount secondBits
  simp only [List.length_append, BitString.length_ofNat]
  split_ifs <;> omega

theorem hlSubbandUnpack_fields (cfg : CqiCfg) (buff : List Bool) (msg : HlSubband) :
    hlSubbandUnpack cfg buff msg =
      (bitPack 4 buff).bind fun w0 =>
        (bitPack (diffBits cfg) w0.2).bind fun d0 =>
          (bitPack (secondBits cfg 4) d0.2).bind fun w1 =>
            (bitPack (secondBits cfg (diffBits cfg)) w1.2).bind fun d1 =>
              (bitPack (pmiBits cfg) d1.2).bind fun p =>
                some (⟨w0.1 % 2 ^ 8, d0.1,
                  if cfg.rankIsNotOne then w1.1 % 2 ^ 8 else msg.widebandCqiCw1,
                  if cfg.rankIsNotOne then d1.1 else msg.subbandDiffCqiCw1,
                  if pmiBits cfg = 0 then msg.pmi else p.1 % 2 ^ 8⟩, hlCount cfg % 2 ^ 32) := by
  unfold hlSubbandUnpack hlCount secondBits pmiBits
  cases hpresent : cfg.pmiPresent <;> cases hports : cfg.fourAntennaPorts <;>
    cases hrank : cfg.rankIsNotOne <;> simp [bitPack_zero]

theorem second_field {v old read width : ℕ} (hfits : v < 2 ^ secondBits cfg width)
    (habsent : secondBits cfg width = 0 → old = 0) (hread : read = v) :
    (if cfg.rankIsNotOne then read else old) = v := by
  unfold secondBits at *
  split_ifs at * with hrank
  · exact hread
  · rw [pow_zero, Nat.lt_one_iff] at hfits
    rw [habsent rfl, hfits]

theorem hlSubbandUnpack_eq {msg target : HlSubband} (hfits : Fits cfg (.subbandHl msg))
    (htarget : Target cfg (.subbandHl target)) (hdiff : diffBits cfg ≤ 32) (rest : List Bool) :
    hlSubbandUnpack cfg (hlBits cfg msg ++ rest) target = some (msg, hlCount cfg % 2 ^ 32) := by
  obtain ⟨-, hwidths⟩ := hfits
  obtain ⟨-, habsent⟩ := htarget
  simp only [fields, List.forall_mem_cons, List.not_mem_nil, false_implies, implies_true,
    and_true] at hwidths habsent
  obtain ⟨hw0, hd0, hw1, hd1, hpmi⟩ := hwidths
  obtain ⟨-, -, hnow1, hnod1, hnopmi⟩ := habsent
  have hsecond : secondBits cfg 4 ≤ 8 ∧ secondBits cfg (diffBits cfg) ≤ 32 := by
    unfold secondBits
    split_ifs <;> omega
  have hrw0 (rest : List Bool) := (bitPack_octet (by decide) hw0 rest).1
  have hw08 := (bitPack_octet (by decide) hw0 []).2
  have hrd0 := bitPack_ofNat hdiff hd0
  have hrw1 (rest : List Bool) := (bitPack_octet hsecond.1 hw1 rest).1
  have hw18 := (bitPack_octet hsecond.1 hw1 []).2
  have hrd1 := bitPack_ofNat hsecond.2 hd1
  obtain ⟨hrp, hp8⟩ := bitPack_octet (pmiBits_le cfg) hpmi rest
  have hp := optional_field hpmi hnopmi hp8
  have hcw1 := second_field hw1 hnow1 hw18
  have hdiff1 := second_field hd1 hnod1 rfl
  rw [hlSubbandUnpack_fields, hlBits]
  simp only [List.append_assoc, hrw0, hrd0, hrw1, hrd1, hrp, Option.bind_some, hw08, hp, hcw1,
    hdiff1]

theorem cqiSize_subbandHl (htype : cfg.type = .subbandHl) :
    cqiSize cfg =
      if cfg.dataEnable then
        (4 + diffBits cfg + (if cfg.rankIsNotOne && cfg.pmiPresent then 4 + diffBits cfg else 0) +
          pmiBits cfg) % 2 ^ 32
      else 0 := by
  unfold cqiSize pmiBits
  rw [htype]
  cases hdata : cfg.dataEnable <;> cases hpresent : cfg.pmiPresent <;> simp

theorem subbandHl_iff {msg : HlSubband} (hfits : Fits cfg (.subbandHl msg)) :
    Codes cfg (.subbandHl msg) ↔ Condition cfg (.subbandHl msg) := by
  have htype : cfg.type = .subbandHl := hfits.type.symm
  have hmod {n : ℕ} (h : n ≤ maxBits) : n % 2 ^ 32 = n :=
    Nat.mod_eq_of_lt (Nat.lt_of_le_of_lt h (by decide))
  unfold Codes Condition
  simp only [cqiValuePack, htype, hlSubbandPack_eq]
  constructor
  · rintro ⟨bits, ret, hbits, -, hsize, -⟩
    split_ifs at hbits with hroom
    obtain ⟨rfl, rfl⟩ := Prod.mk.inj (Option.some.inj hbits)
    rw [cqiSize_subbandHl htype] at hsize
    refine ⟨?_, ?_, hroom.1, hroom.2⟩
    · by_contra hdata
      rw [if_neg hdata] at hsize
      unfold hlCount at hsize
      omega
    · intro hrank
      by_contra hpresent
      have hcount := hroom.2
      unfold hlCount secondBits maxBits at *
      rw [Bool.not_eq_true] at hpresent
      simp only [hrank, hpresent, Bool.and_false, if_true, Bool.false_eq_true, if_false] at *
      split_ifs at hsize
      · omega
      · omega
  · rintro ⟨hdata, hrank, hdiff, hcount⟩
    refine ⟨hlBits cfg msg, hlCount cfg, if_pos ⟨hdiff, hcount⟩, length_hlBits cfg msg, ?_, ?_⟩
    · have hsecond : (if cfg.rankIsNotOne && cfg.pmiPresent then 4 + diffBits cfg else 0) =
          secondBits cfg (4 + diffBits cfg) := by
        unfold secondBits
        cases h : cfg.rankIsNotOne with
        | false => rfl
        | true => simp [hrank h]
      rw [cqiSize_subbandHl htype, if_pos hdata, hsecond]
      exact hmod hcount
    · intro rest target htarget
      have htype' := htarget.type
      rw [htype] at htype'
      cases target with
      | subbandHl old =>
        simp only [cqiValueUnpack, htype, hlSubbandUnpack_eq hfits htarget hdiff, Option.map_some]
        rw [hmod (show hlCount cfg ≤ maxBits from hcount)]
      | _ => cases htype'

/-- Reports come back, with the right sizes, exactly under the condition. -/
theorem cqi_codes_iff {cfg : CqiCfg} {value : CqiValue} (hfits : Fits cfg value) :
    Codes cfg value ↔ Condition cfg value := by
  cases value with
  | wideband msg => exact wideband_iff hfits
  | subband msg => exact subband_iff hfits
  | subbandUe msg => exact subbandUe_iff hfits
  | subbandHl msg => exact subbandHl_iff hfits

/-- Two codewords over nine subbands, with a PMI for four ports. -/
theorem cqi_codes_two_codewords :
    Codes ⟨true, true, true, true, false, 0, 9, .subbandHl⟩ (.subbandHl ⟨7, 5, 9, 3, 2⟩) := by
  have hfits : Fits ⟨true, true, true, true, false, 0, 9, .subbandHl⟩
      (.subbandHl ⟨7, 5, 9, 3, 2⟩) := ⟨rfl, by decide⟩
  exact (cqi_codes_iff hfits).mpr ⟨rfl, by decide⟩

/-- A report of one subband with a label of two bits takes six bits. Two are reported by the writer,
by the reader and as the size. -/
theorem subband_label_counted_alone :
    let cfg : CqiCfg := ⟨true, false, false, false, true, 0, 0, .subband⟩
    Fits cfg (.subband ⟨5, 3⟩) ∧ ¬ Codes cfg (.subband ⟨5, 3⟩) ∧
      cqiValuePack cfg (.subband ⟨5, 3⟩) = some ([false, true, false, true, true, true], 2) ∧
      cqiValueUnpack cfg [false, true, false, true, true, true] (.subband ⟨0, 0⟩) =
        some (.subband ⟨5, 3⟩, 2) ∧
      cqiSize cfg = 2 := by
  have hfits : Fits ⟨true, false, false, false, true, 0, 0, .subband⟩ (.subband ⟨5, 3⟩) :=
    ⟨rfl, by decide⟩
  refine ⟨hfits, ?_, by decide, by decide, by decide⟩
  intro hcodes
  exact ((subband_iff hfits).mp hcodes).2

end Cqi

end SrsLte
