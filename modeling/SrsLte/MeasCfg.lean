import Mathlib.Data.Int.Notation
import Mathlib.Data.List.Basic

/-!
# Measurement configurations

The ASN.1 structures of a measurement configuration as far as the two sides read or write them.
Objects and reports are of their EUTRA kind, the only one that `var_meas_cfg_t` enters. An optional
value is an `Option`; an optional list keeps its flag, which not all code consults.
-/

namespace SrsLte

structure OptList (α : Type) where
  present : Bool := false
  items : List α := []
  deriving DecidableEq

namespace OptList

variable {α : Type}

def push (l : OptList α) (a : α) : OptList α := ⟨true, l.items ++ [a]⟩

/-- The list after pushing every entry of `as`. -/
def append (l : OptList α) (as : List α) : OptList α := ⟨l.present || !as.isEmpty, l.items ++ as⟩

@[simp]
theorem append_nil (l : OptList α) : l.append [] = l := by
  simp [append]

theorem append_cons (l : OptList α) (a : α) (as : List α) :
    l.append (a :: as) = (l.push a).append as := by
  simp [append, push]

end OptList

/-- `convert_enum_idx`. -/
def convertEnumIdx {α : Type} [OfNat α 0] (options : List α) (value : ℕ) : α :=
  options.getD value 0

inductive QOffsetRange
  | dbMinus24 | dbMinus22 | dbMinus20 | dbMinus18 | dbMinus16 | dbMinus14 | dbMinus12 | dbMinus10
  | dbMinus8 | dbMinus6 | dbMinus5 | dbMinus4 | dbMinus3 | dbMinus2 | dbMinus1 | db0 | db1 | db2
  | db3 | db4 | db5 | db6 | db8 | db10 | db12 | db14 | db16 | db18 | db20 | db22 | db24
  deriving DecidableEq

def QOffsetRange.toNumber (q : QOffsetRange) : ℤ :=
  convertEnumIdx [-24, -22, -20, -18, -16, -14, -12, -10, -8, -6, -5, -4, -3, -2, -1, 0,
    1, 2, 3, 4, 5, 6, 8, 10, 12, 14, 16, 18, 20, 22, 24] q.ctorIdx

inductive AllowedMeasBw
  | mbw6 | mbw15 | mbw25 | mbw50 | mbw75 | mbw100
  deriving DecidableEq

structure CellsToAddMod where
  cellIdx : ℕ
  pci : ℕ
  cellIndividualOffset : QOffsetRange
  deriving DecidableEq

/-- A cell identity and, for a range, the number of identities from it on. -/
structure PciRange where
  start : ℕ
  range : Option ℕ
  deriving DecidableEq

structure BlackCellsToAddMod where
  cellIdx : ℕ
  pciRange : PciRange
  deriving DecidableEq

structure MeasObjEutra where
  ext : Bool := false
  offsetFreq : Option QOffsetRange
  carrierFreq : ℕ
  allowedMeasBw : AllowedMeasBw
  presenceAntPort1 : Bool
  neighCellCfg : BitVec 2
  cellsToRemList : OptList ℕ := {}
  cellsToAddModList : OptList CellsToAddMod := {}
  blackCellsToRemList : OptList ℕ := {}
  blackCellsToAddModList : OptList BlackCellsToAddMod := {}

/-- The fields that `meascfg_add_meas_obj` copies. -/
def MeasObjEutra.withoutCells (o : MeasObjEutra) : MeasObjEutra where
  carrierFreq := o.carrierFreq
  offsetFreq := o.offsetFreq
  allowedMeasBw := o.allowedMeasBw
  presenceAntPort1 := o.presenceAntPort1
  neighCellCfg := o.neighCellCfg

structure MeasObjToAddMod where
  measObjId : ℕ
  measObj : MeasObjEutra

/-- `operator==` of measurement objects. It does not look at blacklisted cells. -/
instance : BEq MeasObjToAddMod where
  beq lhs rhs :=
    lhs.measObjId = rhs.measObjId &&
    !(lhs.measObj.ext || rhs.measObj.ext) &&
    lhs.measObj.offsetFreq = rhs.measObj.offsetFreq &&
    (lhs.measObj.carrierFreq = rhs.measObj.carrierFreq &&
      lhs.measObj.neighCellCfg = rhs.measObj.neighCellCfg &&
      lhs.measObj.presenceAntPort1 = rhs.measObj.presenceAntPort1 &&
      lhs.measObj.allowedMeasBw = rhs.measObj.allowedMeasBw) &&
    lhs.measObj.cellsToAddModList.items = rhs.measObj.cellsToAddModList.items

inductive TimeToTrigger
  | ms0 | ms40 | ms64 | ms80 | ms100 | ms128 | ms160 | ms256 | ms320 | ms480 | ms512 | ms640
  | ms1024 | ms1280 | ms2560 | ms5120
  deriving DecidableEq

inductive ThresEutra
  | thresRsrp (range : ℕ)
  | thresRsrq (range : ℕ)
  deriving DecidableEq

inductive EventId
  | eventA1 (a1Thres : ThresEutra)
  | eventA2 (a2Thres : ThresEutra)
  | eventA3 (a3Offset : ℤ) (reportOnLeave : Bool)
  | eventA4 (a4Thres : ThresEutra)
  | eventA5 (a5Thres1 a5Thres2 : ThresEutra)
  | eventA6R10 (a6OffsetR10 : ℤ) (a6ReportOnLeaveR10 : Bool)
  | eventC1R12 (c1ThresR12 : ℕ) (c1ReportOnLeaveR12 : Bool)
  | eventC2R12 (c2RefCsiRsR12 : ℕ) (c2OffsetR12 : ℤ) (c2ReportOnLeaveR12 : Bool)
  | eventV1R14 (v1ThresR14 : ℕ)
  | eventV2R14 (v2ThresR14 : ℕ)
  | eventH1R15 (h1ThresOffsetR15 h1HysteresisMinus15 : ℕ)
  | eventH2R15 (h2ThresOffsetR15 h2HysteresisMinus15 : ℕ)
  deriving DecidableEq

structure EutraEvent where
  eventId : EventId
  hysteresis : ℕ
  timeToTrigger : TimeToTrigger
  deriving DecidableEq

inductive Purpose
  | reportStrongestCells | reportCgi
  deriving DecidableEq

inductive TriggerType
  | event (event : EutraEvent)
  | periodical (purpose : Purpose)
  deriving DecidableEq

/-- The trigger part of `operator==`: events other than A3 are never equal. -/
def TriggerType.same : TriggerType → TriggerType → Bool
  | event lhs, event rhs =>
    lhs.hysteresis = rhs.hysteresis && lhs.timeToTrigger = rhs.timeToTrigger &&
    match lhs.eventId, rhs.eventId with
    | .eventA3 lhsOffset lhsLeave, .eventA3 rhsOffset rhsLeave =>
      lhsLeave = rhsLeave && lhsOffset = rhsOffset
    | _, _ => false
  | periodical lhs, periodical rhs => lhs = rhs
  | _, _ => false

inductive TriggerQuant
  | rsrp | rsrq
  deriving DecidableEq

inductive ReportQuant
  | sameAsTriggerQuant | both
  deriving DecidableEq

inductive ReportInterv
  | ms120 | ms240 | ms480 | ms640 | ms1024 | ms2048 | ms5120 | ms10240
  | min1 | min6 | min12 | min30 | min60 | spare3 | spare2 | spare1
  deriving DecidableEq

def ReportInterv.toNumber (i : ReportInterv) : ℕ :=
  convertEnumIdx [120, 240, 480, 640, 1024, 2048, 5120, 10240, 1, 6, 12, 30, 60] i.ctorIdx

inductive ReportAmount
  | r1 | r2 | r4 | r8 | r16 | r32 | r64 | infinity
  deriving DecidableEq

def ReportAmount.toNumber (a : ReportAmount) : ℤ :=
  convertEnumIdx [1, 2, 4, 8, 16, 32, 64, -1] a.ctorIdx

theorem ReportAmount.toNumber_ne_zero (a : ReportAmount) : a.toNumber ≠ 0 := by
  cases a <;> decide

structure ReportCfgEutra where
  ext : Bool := false
  triggerType : TriggerType
  triggerQuant : TriggerQuant
  reportQuant : ReportQuant
  maxReportCells : ℕ
  reportInterv : ReportInterv
  reportAmount : ReportAmount

structure ReportCfgToAddMod where
  reportCfgId : ℕ
  reportCfg : ReportCfgEutra

instance : BEq ReportCfgEutra where
  beq lhs rhs :=
    !(lhs.ext || rhs.ext) && lhs.triggerType.same rhs.triggerType &&
    (lhs.triggerQuant = rhs.triggerQuant && lhs.reportQuant = rhs.reportQuant &&
      lhs.maxReportCells = rhs.maxReportCells && lhs.reportInterv = rhs.reportInterv &&
      lhs.reportAmount = rhs.reportAmount)

instance : BEq ReportCfgToAddMod where
  beq lhs rhs := lhs.reportCfgId = rhs.reportCfgId && lhs.reportCfg == rhs.reportCfg

structure MeasIdToAddMod where
  measId : ℕ
  measObjId : ℕ
  reportCfgId : ℕ
  deriving DecidableEq

inductive FiltCoef
  | fc0 | fc1 | fc2 | fc3 | fc4 | fc5 | fc6 | fc7 | fc8 | fc9 | fc11 | fc13 | fc15 | fc17 | fc19
  | spare1 | nulltype
  deriving DecidableEq

def FiltCoef.toNumber (c : FiltCoef) : ℕ :=
  convertEnumIdx [0, 1, 2, 3, 4, 5, 6, 7, 8, 9, 11, 13, 15, 17, 19] c.ctorIdx

structure QuantCfgEutra where
  filtCoefRsrpPresent : Bool := false
  filtCoefRsrqPresent : Bool := false
  filtCoefRsrp : FiltCoef := .nulltype
  filtCoefRsrq : FiltCoef := .nulltype
  deriving DecidableEq

structure QuantCfg where
  ext : Bool := false
  quantCfgEutraPresent : Bool := false
  quantCfgUtraPresent : Bool := false
  quantCfgGeranPresent : Bool := false
  quantCfgCdma2000Present : Bool := false
  quantCfgEutra : QuantCfgEutra := {}

instance : BEq QuantCfg where
  beq lhs rhs :=
    !(lhs.ext || lhs.quantCfgGeranPresent || lhs.quantCfgUtraPresent ||
      lhs.quantCfgCdma2000Present || rhs.ext || rhs.quantCfgGeranPresent ||
      rhs.quantCfgUtraPresent || rhs.quantCfgCdma2000Present) &&
    (lhs.quantCfgEutraPresent = rhs.quantCfgEutraPresent &&
      lhs.quantCfgEutra.filtCoefRsrpPresent = rhs.quantCfgEutra.filtCoefRsrpPresent &&
      lhs.quantCfgEutra.filtCoefRsrp = rhs.quantCfgEutra.filtCoefRsrp &&
      lhs.quantCfgEutra.filtCoefRsrqPresent = rhs.quantCfgEutra.filtCoefRsrqPresent &&
      lhs.quantCfgEutra.filtCoefRsrq = rhs.quantCfgEutra.filtCoefRsrq)

structure MeasCfg where
  measObjToRemList : OptList ℕ := {}
  measObjToAddModList : OptList MeasObjToAddMod := {}
  reportCfgToRemList : OptList ℕ := {}
  reportCfgToAddModList : OptList ReportCfgToAddMod := {}
  measIdToRemList : OptList ℕ := {}
  measIdToAddModList : OptList MeasIdToAddMod := {}
  quantCfg : Option QuantCfg := none
  measGapCfgPresent : Bool := false
  sMeasure : Option ℕ := none
  preRegistInfoHrpdPresent : Bool := false
  speedStateParsPresent : Bool := false

theorem MeasObjToAddMod.eq_of_beq {lhs rhs : MeasObjToAddMod} (h : (lhs == rhs) = true) :
    lhs.measObj.offsetFreq = rhs.measObj.offsetFreq ∧
    lhs.measObj.carrierFreq = rhs.measObj.carrierFreq ∧
    lhs.measObj.neighCellCfg = rhs.measObj.neighCellCfg ∧
    lhs.measObj.presenceAntPort1 = rhs.measObj.presenceAntPort1 ∧
    lhs.measObj.allowedMeasBw = rhs.measObj.allowedMeasBw ∧
    lhs.measObj.cellsToAddModList.items = rhs.measObj.cellsToAddModList.items := by
  simp only [BEq.beq, Bool.and_eq_true, decide_eq_true_eq] at h
  obtain ⟨⟨⟨-, hoffset⟩, ⟨⟨hcarrier, hneigh⟩, hport⟩, hbw⟩, hcells⟩ := h
  exact ⟨hoffset, hcarrier, hneigh, hport, hbw, hcells⟩

theorem TriggerType.eq_of_same {lhs rhs : TriggerType} (h : lhs.same rhs = true) : lhs = rhs := by
  cases lhs with
  | event l =>
    cases rhs with
    | event r =>
      obtain ⟨lid, lhyst, lttt⟩ := l
      obtain ⟨rid, rhyst, rttt⟩ := r
      unfold same at h
      cases lid <;> cases rid <;> simp_all
    | periodical r => exact absurd h Bool.false_ne_true
  | periodical l =>
    cases rhs with
    | event r => exact absurd h Bool.false_ne_true
    | periodical r => exact congrArg periodical (of_decide_eq_true h)

theorem ReportCfgToAddMod.eq_of_beq {lhs rhs : ReportCfgToAddMod} (h : (lhs == rhs) = true) :
    lhs = rhs := by
  obtain ⟨lid, lext, ltrigger, lquant, lreport, lcells, linterv, lamount⟩ := lhs
  obtain ⟨rid, rext, rtrigger, rquant, rreport, rcells, rinterv, ramount⟩ := rhs
  simp only [BEq.beq, Bool.and_eq_true, Bool.not_eq_true', Bool.or_eq_false_iff,
    decide_eq_true_eq] at h
  obtain ⟨rfl, ⟨⟨rfl, rfl⟩, htrigger⟩, ⟨⟨⟨rfl, rfl⟩, rfl⟩, rfl⟩, rfl⟩ := h
  rw [TriggerType.eq_of_same htrigger]

theorem QuantCfg.eq_of_beq {lhs rhs : QuantCfg} (h : (lhs == rhs) = true) : lhs = rhs := by
  obtain ⟨lext, leutra, lutra, lgeran, lcdma, lrsrpPresent, lrsrqPresent, lrsrp, lrsrq⟩ := lhs
  obtain ⟨rext, reutra, rutra, rgeran, rcdma, rrsrpPresent, rrsrqPresent, rrsrp, rrsrq⟩ := rhs
  simp only [BEq.beq, Bool.and_eq_true, Bool.not_eq_true', Bool.or_eq_false_iff,
    decide_eq_true_eq] at h
  obtain ⟨⟨⟨⟨⟨⟨⟨⟨rfl, rfl⟩, rfl⟩, rfl⟩, rfl⟩, rfl⟩, rfl⟩, rfl⟩, ⟨⟨⟨rfl, rfl⟩, rfl⟩, rfl⟩, rfl⟩ := h
  rfl

end SrsLte
