import Mathlib.Data.Nat.Basic
import SrsLte.OrderedMap
import SrsLte.MeasCfg

/-!
# The measurement configuration of the UE

`rrc_meas` with what `parse_meas_config` reads and writes. Measured values, the cells found so far
and the filter factors computed from the coefficients are left out.
-/

namespace SrsLte

structure UeMeasCell where
  pci : ℕ
  qOffset : ℤ
  deriving DecidableEq

structure UeMeasObj where
  earfcn : ℕ := 0
  qOffset : ℤ := 0
  measCells : OrderedMap ℕ UeMeasCell := .empty

inductive Quantity
  | rsrp | rsrq | both
  deriving DecidableEq

inductive ReportTrigger
  | event | periodic
  deriving DecidableEq

/-- The defaults are the record that `operator[]` enters for a new key. -/
structure UeReportCfg where
  interval : ℕ := 0
  maxCell : ℕ := 0
  amount : ℤ := 0
  triggerQuantity : Quantity := .rsrp
  reportQuantity : Quantity := .rsrp
  event : Option EutraEvent := none
  triggerType : ReportTrigger := .event

structure PeriodicTimer where
  interval : ℕ := 0
  running : Bool := false
  deriving DecidableEq

def PeriodicTimer.stop (t : PeriodicTimer) : PeriodicTimer := { t with running := false }

def PeriodicTimer.set (t : PeriodicTimer) (interval : ℕ) : PeriodicTimer :=
  { t with interval := interval }

structure Meas where
  nofReportsSent : ℕ := 0
  reportId : ℕ := 0
  objectId : ℕ := 0
  triggered : Bool := false
  periodicTimer : PeriodicTimer := {}
  deriving DecidableEq

def Meas.ids (m : Meas) : ℕ × ℕ := (m.objectId, m.reportId)

structure RrcMeas where
  objects : OrderedMap ℕ UeMeasObj
  reportsCfg : OrderedMap ℕ UeReportCfg
  active : OrderedMap ℕ Meas
  filterKRsrp : ℕ
  filterKRsrq : ℕ
  sMeasureEnabled : Bool := false
  sMeasureValue : ℤ := 0

inductive PhyMeasCall
  | measReset
  | measStart (earfcn : ℕ) (pci : Option ℕ)
  deriving DecidableEq

namespace RrcMeas

/-- `rrc_meas::reset`. -/
def reset : RrcMeas where
  objects := .empty
  reportsCfg := .empty
  active := .empty
  filterKRsrp := FiltCoef.fc4.toNumber
  filterKRsrq := FiltCoef.fc4.toNumber

def stopReports (m : Meas) : Meas :=
  { m with periodicTimer := m.periodicTimer.stop, triggered := false }

def stopReportsObject (r : RrcMeas) (objectId : ℕ) : RrcMeas :=
  { r with
    active := r.active.mapValues fun _ m => if m.objectId = objectId then stopReports m else m }

def removeMeasObject (r : RrcMeas) (objectId : ℕ) : RrcMeas :=
  { r with active := r.active.filter fun _ m => m.objectId ≠ objectId }

def removeMeasReport (r : RrcMeas) (reportId : ℕ) : RrcMeas :=
  { r with active := r.active.filter fun _ m => m.reportId ≠ reportId }

def removeMeasId (r : RrcMeas) (measId : ℕ) : RrcMeas :=
  { r with active := r.active.erase measId }

def removeObject (r : RrcMeas) (id : ℕ) : RrcMeas :=
  { r with objects := r.objects.erase id }.removeMeasObject id

/-- The loop over the blacklisted cells to remove erases measured cells, each time the entry at the
position `i` of the object. Past its end the list holds no defined value. -/
def eraseBlackCells (blackCells : OptList ℕ) (i : ℕ) (cells : OrderedMap ℕ UeMeasCell) :
    OrderedMap ℕ UeMeasCell :=
  if blackCells.present then
    blackCells.items.foldl
      (fun cells _ =>
        match blackCells.items[i]? with
        | some cellIdx => cells.erase cellIdx
        | none => cells)
      cells
  else cells

def modifyObject (i : ℕ) (srcObj : MeasObjEutra) (dstObj : UeMeasObj) : UeMeasObj where
  earfcn := srcObj.carrierFreq
  qOffset :=
    match srcObj.offsetFreq with
    | some offset => offset.toNumber
    | none => 0
  measCells :=
    srcObj.cellsToAddModList.items.foldl
      (fun cells c =>
        cells.alter c.cellIdx fun _ => ⟨c.pci, c.cellIndividualOffset.toNumber⟩)
      (eraseBlackCells srcObj.blackCellsToRemList i dstObj.measCells)

def addModObject (r : RrcMeas) (i : ℕ) (m : MeasObjToAddMod) : RrcMeas :=
  { r with
    objects := r.objects.alter m.measObjId fun o => modifyObject i m.measObj (o.getD {}) }
    |>.stopReportsObject m.measObjId

/-- The loop from the position `i` on. -/
def addModObjects (r : RrcMeas) (i : ℕ) : List MeasObjToAddMod → RrcMeas
  | [] => r
  | m :: l => addModObjects (r.addModObject i m) (i + 1) l

def removeReport (r : RrcMeas) (id : ℕ) : RrcMeas :=
  { r with reportsCfg := r.reportsCfg.erase id }.removeMeasReport id

def quantityOf : TriggerQuant → Quantity
  | .rsrp => .rsrp
  | .rsrq => .rsrq

def modifyReport (srcRep : ReportCfgEutra) (dstRep : UeReportCfg) : UeReportCfg where
  triggerType :=
    match srcRep.triggerType with
    | .event _ => .event
    | .periodical _ => .periodic
  event :=
    match srcRep.triggerType with
    | .event event => some event
    | .periodical _ => dstRep.event
  amount := srcRep.reportAmount.toNumber
  interval := srcRep.reportInterv.toNumber
  maxCell := srcRep.maxReportCells
  triggerQuantity := quantityOf srcRep.triggerQuant
  reportQuantity :=
    match srcRep.reportQuant with
    | .sameAsTriggerQuant => quantityOf srcRep.triggerQuant
    | .both => .both

def addModReport (r : RrcMeas) (m : ReportCfgToAddMod) : RrcMeas :=
  { r with
    reportsCfg := r.reportsCfg.alter m.reportCfgId fun o => modifyReport m.reportCfg (o.getD {})
    active := r.active.mapValues fun _ a =>
      if a.reportId = m.reportCfgId then stopReports { a with nofReportsSent := 0 } else a }

def filterK (present : Bool) (coef : FiltCoef) : ℕ :=
  if present then coef.toNumber else FiltCoef.fc4.toNumber

def applyQuantCfg (r : RrcMeas) : Option QuantCfg → RrcMeas
  | some q =>
    if q.quantCfgEutraPresent then
      { r with
        filterKRsrp := filterK q.quantCfgEutra.filtCoefRsrpPresent q.quantCfgEutra.filtCoefRsrp
        filterKRsrq := filterK q.quantCfgEutra.filtCoefRsrqPresent q.quantCfgEutra.filtCoefRsrq }
    else r
  | none => r

/-- The lookup of the report's interval enters a report for an identity that has none. -/
def addModMeasId (r : RrcMeas) (m : MeasIdToAddMod) : RrcMeas :=
  let reportsCfg := r.reportsCfg.alter m.reportCfgId fun o => o.getD {}
  let interval := ((r.reportsCfg.find? m.reportCfgId).getD {}).interval
  { r with
    reportsCfg := reportsCfg
    active := r.active.alter m.measId fun o =>
      { o.getD {} with
        objectId := m.measObjId
        reportId := m.reportCfgId
        periodicTimer := ((o.getD {}).periodicTimer.stop).set interval } }

def applySMeasure (r : RrcMeas) : Option ℕ → RrcMeas
  | some sMeasure =>
    if sMeasure ≠ 0 then { r with sMeasureEnabled := true, sMeasureValue := -140 + sMeasure }
    else { r with sMeasureEnabled := false }
  | none => r

def updatePhy (r : RrcMeas) : List PhyMeasCall :=
  .measReset :: r.objects.entries.flatMap fun obj =>
    .measStart obj.2.earfcn none ::
      obj.2.measCells.entries.map fun cell => .measStart obj.2.earfcn (some cell.2.pci)

def addModIfPresent {α : Type} (l : OptList α) : List α := if l.present then l.items else []

def parseMeasConfig (r : RrcMeas) (cfg : MeasCfg) : RrcMeas × List PhyMeasCall :=
  let r := cfg.measObjToRemList.items.foldl removeObject r
  let r := r.addModObjects 0 (addModIfPresent cfg.measObjToAddModList)
  let r := cfg.reportCfgToRemList.items.foldl removeReport r
  let r := (addModIfPresent cfg.reportCfgToAddModList).foldl addModReport r
  let r := r.applyQuantCfg cfg.quantCfg
  let r := cfg.measIdToRemList.items.foldl removeMeasId r
  let r := (addModIfPresent cfg.measIdToAddModList).foldl addModMeasId r
  let r := r.applySMeasure cfg.sMeasure
  (r, r.updatePhy)

open KeyedList

variable {r : RrcMeas} {k : ℕ}

def filterKs (r : RrcMeas) : ℕ × ℕ := (r.filterKRsrp, r.filterKRsrq)

def activeIds (r : RrcMeas) (k : ℕ) : Option (ℕ × ℕ) := (r.active.find? k).map Meas.ids

theorem activeIds_removeObject (r : RrcMeas) (id k : ℕ) :
    (r.removeObject id).activeIds k = (r.activeIds k).filter fun p => p.1 ≠ id := by
  change ((r.active.filter _).find? k).map Meas.ids = _
  rw [OrderedMap.find?_filter, activeIds]
  cases r.active.find? k with
  | none => rfl
  | some m => by_cases h : m.objectId = id <;> simp [Meas.ids, Option.filter, h]

theorem activeIds_removeReport (r : RrcMeas) (id k : ℕ) :
    (r.removeReport id).activeIds k = (r.activeIds k).filter fun p => p.2 ≠ id := by
  change ((r.active.filter _).find? k).map Meas.ids = _
  rw [OrderedMap.find?_filter, activeIds]
  cases r.active.find? k with
  | none => rfl
  | some m => by_cases h : m.reportId = id <;> simp [Meas.ids, Option.filter, h]

theorem activeIds_mapValues {r' : RrcMeas} {f : ℕ → Meas → Meas}
    (hr' : r'.active = r.active.mapValues f) (hf : ∀ k m, (f k m).ids = m.ids) (k : ℕ) :
    r'.activeIds k = r.activeIds k := by
  rw [activeIds, activeIds, hr', OrderedMap.find?_mapValues, Option.map_map]
  exact Option.map_congr fun m _ => hf k m

theorem activeIds_addModObject (r : RrcMeas) (i : ℕ) (m : MeasObjToAddMod) (k : ℕ) :
    (r.addModObject i m).activeIds k = r.activeIds k := by
  refine activeIds_mapValues
    (f := fun _ a => if a.objectId = m.measObjId then stopReports a else a) rfl (fun k a => ?_) k
  split_ifs <;> rfl

theorem activeIds_addModReport (r : RrcMeas) (m : ReportCfgToAddMod) (k : ℕ) :
    (r.addModReport m).activeIds k = r.activeIds k := by
  refine activeIds_mapValues
    (f := fun _ a =>
      if a.reportId = m.reportCfgId then stopReports { a with nofReportsSent := 0 } else a)
    rfl (fun k a => ?_) k
  split_ifs <;> rfl

theorem activeIds_removeMeasId (r : RrcMeas) (id k : ℕ) :
    (r.removeMeasId id).activeIds k = if k = id then none else r.activeIds k := by
  change ((r.active.erase id).find? k).map Meas.ids = _
  rw [OrderedMap.find?_erase, activeIds]
  split_ifs <;> rfl

theorem activeIds_addModMeasId (r : RrcMeas) (m : MeasIdToAddMod) (k : ℕ) :
    (r.addModMeasId m).activeIds k =
      if k = m.measId then some (m.measObjId, m.reportCfgId) else r.activeIds k := by
  change ((r.active.alter m.measId _).find? k).map Meas.ids = _
  rw [OrderedMap.find?_alter, activeIds]
  split_ifs <;> rfl

theorem foldl_unchanged {σ α β : Type} (f : σ → β) (step : σ → α → σ)
    (h : ∀ s a, f (step s a) = f s) (l : List α) (s : σ) : f (l.foldl step s) = f s := by
  induction l generalizing s with
  | nil => rfl
  | cons a l ih => rw [List.foldl_cons, ih, h]

theorem find?_removeObjects (ids : List ℕ) (r : RrcMeas) (k : ℕ) :
    (ids.foldl removeObject r).objects.find? k =
      if k ∈ ids then none else r.objects.find? k := by
  have hfold : (ids.foldl removeObject r).objects =
      ids.foldl (fun m j => m.erase j) r.objects := by
    induction ids generalizing r with
    | nil => rfl
    | cons j js ih => exact ih (r.removeObject j)
  rw [hfold, find?_foldl_erase]

theorem find?_removeReports (ids : List ℕ) (r : RrcMeas) (k : ℕ) :
    (ids.foldl removeReport r).reportsCfg.find? k =
      if k ∈ ids then none else r.reportsCfg.find? k := by
  have hfold : (ids.foldl removeReport r).reportsCfg =
      ids.foldl (fun m j => m.erase j) r.reportsCfg := by
    induction ids generalizing r with
    | nil => rfl
    | cons j js ih => exact ih (r.removeReport j)
  rw [hfold, find?_foldl_erase]

theorem activeIds_cascade (name : ℕ × ℕ → ℕ) {step : RrcMeas → ℕ → RrcMeas}
    (hstep : ∀ r id k, (step r id).activeIds k = (r.activeIds k).filter fun p => name p ≠ id)
    (ids : List ℕ) (r : RrcMeas) (k : ℕ) :
    (ids.foldl step r).activeIds k = (r.activeIds k).filter fun p => name p ∉ ids := by
  induction ids generalizing r with
  | nil => cases h : r.activeIds k <;> simp [h, Option.filter]
  | cons j js ih =>
    rw [List.foldl_cons, ih, hstep, Option.filter_filter]
    congr 1
    funext p
    simp [not_or]

theorem modifyObject_index {o : MeasObjEutra} (h : o.blackCellsToRemList.present = false) (i : ℕ)
    (dst : UeMeasObj) : modifyObject i o dst = modifyObject 0 o dst := by
  simp [modifyObject, eraseBlackCells, h]

theorem find?_addModObjects {l : List MeasObjToAddMod} (hl : Sorted MeasObjToAddMod.measObjId l)
    (hblack : ∀ m ∈ l, m.measObj.blackCellsToRemList.present = false) (r : RrcMeas) (k : ℕ) :
    (r.addModObjects 0 l).objects.find? k =
      (find? MeasObjToAddMod.measObjId k l).elim (r.objects.find? k) fun m =>
        some (modifyObject 0 m.measObj ((r.objects.find? k).getD {})) := by
  have hfold (i : ℕ) : (r.addModObjects i l).objects =
      l.foldl (fun objects m => objects.alter m.measObjId fun o =>
        modifyObject 0 m.measObj (o.getD {})) r.objects := by
    clear hl
    induction l generalizing r i with
    | nil => rfl
    | cons m l ih =>
      obtain ⟨hm, hblack⟩ := List.forall_mem_cons.mp hblack
      rw [addModObjects, ih hblack, List.foldl_cons]
      simp only [addModObject, stopReportsObject, modifyObject_index hm i]
  rw [hfold 0]
  exact find?_foldl_alter (fun m o => modifyObject 0 m.measObj (o.getD {})) hl r.objects

theorem addModObjects_unchanged {β : Type} (f : RrcMeas → β)
    (h : ∀ r i m, f (addModObject r i m) = f r) (l : List MeasObjToAddMod) (i : ℕ) (r : RrcMeas) :
    f (r.addModObjects i l) = f r := by
  induction l generalizing i r with
  | nil => rfl
  | cons m l ih => rw [addModObjects, ih, h]

theorem find?_addModReports {l : List ReportCfgToAddMod}
    (hl : Sorted ReportCfgToAddMod.reportCfgId l) (r : RrcMeas) (k : ℕ) :
    (l.foldl addModReport r).reportsCfg.find? k =
      (find? ReportCfgToAddMod.reportCfgId k l).elim (r.reportsCfg.find? k) fun m =>
        some (modifyReport m.reportCfg ((r.reportsCfg.find? k).getD {})) := by
  have hfold : (l.foldl addModReport r).reportsCfg =
      l.foldl (fun reports m => reports.alter m.reportCfgId fun o =>
        modifyReport m.reportCfg (o.getD {})) r.reportsCfg := by
    clear hl
    induction l generalizing r with
    | nil => rfl
    | cons m l ih => exact ih (r.addModReport m)
  rw [hfold]
  exact find?_foldl_alter (fun m o => modifyReport m.reportCfg (o.getD {})) hl r.reportsCfg

theorem activeIds_removeMeasIds (ids : List ℕ) (r : RrcMeas) (k : ℕ) :
    (ids.foldl removeMeasId r).activeIds k = if k ∈ ids then none else r.activeIds k := by
  induction ids generalizing r with
  | nil => simp
  | cons j js ih =>
    rw [List.foldl_cons, ih, activeIds_removeMeasId]
    by_cases hj : k = j <;> by_cases hjs : k ∈ js <;> simp [hj, hjs]

theorem activeIds_addModMeasIds {l : List MeasIdToAddMod} (hl : Sorted MeasIdToAddMod.measId l)
    (r : RrcMeas) (k : ℕ) :
    (l.foldl addModMeasId r).activeIds k =
      (find? MeasIdToAddMod.measId k l).elim (r.activeIds k) fun m =>
        some (m.measObjId, m.reportCfgId) := by
  induction l generalizing r with
  | nil => rfl
  | cons m l ih =>
    obtain ⟨hm, hl⟩ := List.pairwise_cons.mp hl
    rw [List.foldl_cons, ih hl, activeIds_addModMeasId]
    by_cases hk : m.measId = k
    · rw [find?_of_lt (hk ▸ hm), find?_cons_of_eq hk, if_pos hk.symm]
      rfl
    · rw [find?_cons_of_ne hk, if_neg (Ne.symm hk)]

theorem find?_reports_addModMeasIds (l : List MeasIdToAddMod) (r : RrcMeas) (k : ℕ) :
    (l.foldl addModMeasId r).reportsCfg.find? k =
      if ∃ m ∈ l, m.reportCfgId = k then some ((r.reportsCfg.find? k).getD {})
      else r.reportsCfg.find? k := by
  induction l generalizing r with
  | nil => simp
  | cons m l ih =>
    have hstep : (r.addModMeasId m).reportsCfg.find? k =
        if k = m.reportCfgId then some ((r.reportsCfg.find? m.reportCfgId).getD {})
        else r.reportsCfg.find? k := OrderedMap.find?_alter ..
    rw [List.foldl_cons, ih, hstep]
    by_cases hk : k = m.reportCfgId
    · have hm : ∃ a ∈ m :: l, a.reportCfgId = k := ⟨m, List.mem_cons_self, hk.symm⟩
      rw [if_pos hk, if_pos hm, hk]
      simp
    · rw [if_neg hk]
      have hiff : (∃ a ∈ m :: l, a.reportCfgId = k) ↔ ∃ a ∈ l, a.reportCfgId = k := by
        simp [Ne.symm hk]
      simp only [hiff]

theorem applySMeasure_unchanged (r : RrcMeas) (sMeasure : Option ℕ) :
    (r.applySMeasure sMeasure).objects = r.objects ∧
    (r.applySMeasure sMeasure).reportsCfg = r.reportsCfg ∧
    (r.applySMeasure sMeasure).active = r.active ∧
    (r.applySMeasure sMeasure).filterKs = r.filterKs := by
  unfold applySMeasure filterKs
  cases sMeasure with
  | none => exact ⟨rfl, rfl, rfl, rfl⟩
  | some s =>
    by_cases h : s ≠ 0
    · simp only [if_pos h, and_self]
    · simp only [if_neg h, and_self]

theorem applyQuantCfg_unchanged (r : RrcMeas) (quantCfg : Option QuantCfg) :
    (r.applyQuantCfg quantCfg).objects = r.objects ∧
    (r.applyQuantCfg quantCfg).reportsCfg = r.reportsCfg ∧
    (r.applyQuantCfg quantCfg).active = r.active := by
  unfold applyQuantCfg
  cases quantCfg with
  | none => exact ⟨rfl, rfl, rfl⟩
  | some q =>
    by_cases h : q.quantCfgEutraPresent = true
    · simp only [if_pos h, and_self]
    · simp only [if_neg h, and_self]

variable (cfg : MeasCfg)

def keptObject (r : RrcMeas) (cfg : MeasCfg) (k : ℕ) : Option UeMeasObj :=
  if k ∈ cfg.measObjToRemList.items then none else r.objects.find? k

theorem find?_objects_parseMeasConfig
    (hl : Sorted MeasObjToAddMod.measObjId (addModIfPresent cfg.measObjToAddModList))
    (hblack : ∀ m ∈ addModIfPresent cfg.measObjToAddModList,
      m.measObj.blackCellsToRemList.present = false) (r : RrcMeas) (k : ℕ) :
    (r.parseMeasConfig cfg).1.objects.find? k =
      (find? MeasObjToAddMod.measObjId k (addModIfPresent cfg.measObjToAddModList)).elim
        (r.keptObject cfg k) fun m =>
        some (modifyObject 0 m.measObj ((r.keptObject cfg k).getD {})) := by
  simp only [parseMeasConfig]
  rw [(applySMeasure_unchanged _ _).1,
    foldl_unchanged RrcMeas.objects addModMeasId fun _ _ => rfl,
    foldl_unchanged RrcMeas.objects removeMeasId fun _ _ => rfl,
    (applyQuantCfg_unchanged _ _).1,
    foldl_unchanged RrcMeas.objects addModReport fun _ _ => rfl,
    foldl_unchanged RrcMeas.objects removeReport fun _ _ => rfl,
    find?_addModObjects hl hblack, find?_removeObjects]
  rfl

def keptReport (r : RrcMeas) (cfg : MeasCfg) (k : ℕ) : Option UeReportCfg :=
  if k ∈ cfg.reportCfgToRemList.items then none else r.reportsCfg.find? k

def configuredReport (r : RrcMeas) (cfg : MeasCfg) (k : ℕ) : Option UeReportCfg :=
  (find? ReportCfgToAddMod.reportCfgId k (addModIfPresent cfg.reportCfgToAddModList)).elim
    (r.keptReport cfg k) fun m => some (modifyReport m.reportCfg ((r.keptReport cfg k).getD {}))

theorem find?_reports_parseMeasConfig
    (hl : Sorted ReportCfgToAddMod.reportCfgId (addModIfPresent cfg.reportCfgToAddModList))
    (r : RrcMeas) (k : ℕ) :
    (r.parseMeasConfig cfg).1.reportsCfg.find? k =
      if ∃ m ∈ addModIfPresent cfg.measIdToAddModList, m.reportCfgId = k then
        some ((r.configuredReport cfg k).getD {})
      else r.configuredReport cfg k := by
  simp only [parseMeasConfig]
  rw [(applySMeasure_unchanged _ _).2.1, find?_reports_addModMeasIds,
    foldl_unchanged RrcMeas.reportsCfg removeMeasId fun _ _ => rfl,
    (applyQuantCfg_unchanged _ _).2.1, find?_addModReports hl, find?_removeReports,
    addModObjects_unchanged RrcMeas.reportsCfg fun _ _ _ => rfl,
    foldl_unchanged RrcMeas.reportsCfg removeObject fun _ _ => rfl]
  rfl

theorem activeIds_parseMeasConfig
    (hl : Sorted MeasIdToAddMod.measId (addModIfPresent cfg.measIdToAddModList)) (r : RrcMeas)
    (k : ℕ) :
    (r.parseMeasConfig cfg).1.activeIds k =
      (find? MeasIdToAddMod.measId k (addModIfPresent cfg.measIdToAddModList)).elim
        (if k ∈ cfg.measIdToRemList.items then none
          else ((r.activeIds k).filter fun p => p.1 ∉ cfg.measObjToRemList.items).filter fun p =>
            p.2 ∉ cfg.reportCfgToRemList.items) fun m =>
        some (m.measObjId, m.reportCfgId) := by
  have hactive {r r' : RrcMeas} (h : r.active = r'.active) : r.activeIds k = r'.activeIds k := by
    rw [activeIds, activeIds, h]
  simp only [parseMeasConfig]
  rw [hactive (applySMeasure_unchanged _ _).2.2.1, activeIds_addModMeasIds hl,
    activeIds_removeMeasIds, hactive (applyQuantCfg_unchanged _ _).2.2,
    foldl_unchanged (fun r => activeIds r k) addModReport fun r m =>
      activeIds_addModReport r m k,
    activeIds_cascade Prod.snd activeIds_removeReport,
    addModObjects_unchanged (fun r => activeIds r k) fun r i m =>
      activeIds_addModObject r i m k,
    activeIds_cascade Prod.fst activeIds_removeObject]

theorem filterKs_parseMeasConfig (r : RrcMeas) :
    (r.parseMeasConfig cfg).1.filterKs = (r.applyQuantCfg cfg.quantCfg).filterKs := by
  have hquant (r r' : RrcMeas) (h : r.filterKs = r'.filterKs) :
      (r.applyQuantCfg cfg.quantCfg).filterKs = (r'.applyQuantCfg cfg.quantCfg).filterKs := by
    unfold applyQuantCfg
    cases cfg.quantCfg with
    | none => exact h
    | some q =>
      by_cases hq : q.quantCfgEutraPresent = true
      · simp only [if_pos hq, filterKs]
      · simp only [if_neg hq]
        exact h
  simp only [parseMeasConfig]
  rw [(applySMeasure_unchanged _ _).2.2.2,
    foldl_unchanged filterKs addModMeasId fun _ _ => rfl,
    foldl_unchanged filterKs removeMeasId fun _ _ => rfl]
  apply hquant
  rw [foldl_unchanged filterKs addModReport fun _ _ => rfl,
    foldl_unchanged filterKs removeReport fun _ _ => rfl,
    addModObjects_unchanged filterKs fun _ _ _ => rfl,
    foldl_unchanged filterKs removeObject fun _ _ => rfl]

end RrcMeas

end SrsLte
