import SrsLte.RrcMeas
import SrsLte.VarMeasCfg

/-!
# When the UE reaches the target configuration

A configuration is a map from identities to objects, reports and measurement identities. Its view
is what of it the UE has a place for, with the blacklisted cells, for which it has none.
-/

namespace SrsLte

open CellsToAddMod (cellIdx)
open MeasObjToAddMod (measObjId)
open ReportCfgToAddMod (reportCfgId)
open MeasIdToAddMod (measId)
open VarMeasCfg (items_emitted addCells_eq computeDiffCells_eq objectChanges changedObject?
  computeDiffMeasCfg_fst objectRemovals reportRemovals measIdChanges changedQuantCfg)

open KeyedList

structure ObjectConfig where
  carrierFreq : ℕ
  offsetFreq : Option QOffsetRange
  allowedMeasBw : AllowedMeasBw
  presenceAntPort1 : Bool
  neighCellCfg : BitVec 2
  cells : ℕ → Option CellsToAddMod
  blackCells : ℕ → Option BlackCellsToAddMod

structure MeasConfig where
  objects : ℕ → Option ObjectConfig
  reports : ℕ → Option ReportCfgEutra
  measIds : ℕ → Option (ℕ × ℕ)
  quantCfg : Option QuantCfg

def MeasObjEutra.config (o : MeasObjEutra) : ObjectConfig where
  carrierFreq := o.carrierFreq
  offsetFreq := o.offsetFreq
  allowedMeasBw := o.allowedMeasBw
  presenceAntPort1 := o.presenceAntPort1
  neighCellCfg := o.neighCellCfg
  cells k := find? cellIdx k o.cellsToAddModList.items
  blackCells k := find? BlackCellsToAddMod.cellIdx k o.blackCellsToAddModList.items

def MeasIdToAddMod.ids (m : MeasIdToAddMod) : ℕ × ℕ := (m.measObjId, m.reportCfgId)

def VarMeasCfg.config (c : VarMeasCfg) : MeasConfig where
  objects k := (find? measObjId k c.measObjList.items).map (·.measObj.config)
  reports k := (find? reportCfgId k c.reportCfgList.items).map (·.reportCfg)
  measIds k := (find? measId k c.measIdList.items).map MeasIdToAddMod.ids
  quantCfg := c.quantCfg

@[ext]
structure ObjectView where
  carrierFreq : ℕ
  offsetFreq : ℤ
  cells : ℕ → Option UeMeasCell
  blackCells : ℕ → Option BlackCellsToAddMod

inductive TriggerView
  | onEvent (event : Option EutraEvent)
  | periodic

structure ReportView where
  trigger : TriggerView
  triggerQuantity : Quantity
  reportQuantity : Quantity
  maxCell : ℕ
  interval : ℕ
  amount : ℤ

structure MeasView where
  objects : ℕ → Option ObjectView
  reports : ℕ → Option ReportView
  measIds : ℕ → Option (ℕ × ℕ)
  filterKs : ℕ × ℕ

def CellsToAddMod.view (c : CellsToAddMod) : UeMeasCell :=
  ⟨c.pci, c.cellIndividualOffset.toNumber⟩

def ObjectConfig.view (o : ObjectConfig) : ObjectView where
  carrierFreq := o.carrierFreq
  offsetFreq := (o.offsetFreq.map QOffsetRange.toNumber).getD 0
  cells k := (o.cells k).map CellsToAddMod.view
  blackCells := o.blackCells

def TriggerType.view : TriggerType → TriggerView
  | .event e => .onEvent (some e)
  | .periodical _ => .periodic

def ReportCfgEutra.view (r : ReportCfgEutra) : ReportView where
  trigger := r.triggerType.view
  triggerQuantity :=
    match r.triggerQuant with
    | .rsrp => .rsrp
    | .rsrq => .rsrq
  reportQuantity :=
    match r.reportQuant, r.triggerQuant with
    | .sameAsTriggerQuant, .rsrp => .rsrp
    | .sameAsTriggerQuant, .rsrq => .rsrq
    | .both, _ => .both
  maxCell := r.maxReportCells
  interval := r.reportInterv.toNumber
  amount := r.reportAmount.toNumber

/-- The filter coefficients; `fc4` is the default of both. -/
def QuantCfg.filterKs (q : QuantCfg) : ℕ × ℕ :=
  if q.quantCfgEutraPresent then
    (if q.quantCfgEutra.filtCoefRsrpPresent then q.quantCfgEutra.filtCoefRsrp.toNumber else 4,
      if q.quantCfgEutra.filtCoefRsrqPresent then q.quantCfgEutra.filtCoefRsrq.toNumber else 4)
  else (4, 4)

def MeasConfig.view (c : MeasConfig) : MeasView where
  objects k := (c.objects k).map ObjectConfig.view
  reports k := (c.reports k).map ReportCfgEutra.view
  measIds := c.measIds
  filterKs := (c.quantCfg.map QuantCfg.filterKs).getD (4, 4)

def UeMeasObj.view (o : UeMeasObj) : ObjectView where
  carrierFreq := o.earfcn
  offsetFreq := o.qOffset
  cells := o.measCells.find?
  blackCells _ := none

def UeReportCfg.view (r : UeReportCfg) : ReportView where
  trigger :=
    match r.triggerType with
    | .event => .onEvent r.event
    | .periodic => .periodic
  triggerQuantity := r.triggerQuantity
  reportQuantity := r.reportQuantity
  maxCell := r.maxCell
  interval := r.interval
  amount := r.amount

def RrcMeas.view (r : RrcMeas) : MeasView where
  objects k := (r.objects.find? k).map UeMeasObj.view
  reports k := (r.reportsCfg.find? k).map UeReportCfg.view
  measIds := r.activeIds
  filterKs := r.filterKs

def RrcMeas.CorrespondsTo (r : RrcMeas) (c : VarMeasCfg) : Prop := r.view = c.config.view

/-- The message takes the UE from the source to the target, and no difference is reported only
between equal configurations. -/
def VarMeasCfg.DiffAgrees (src target : VarMeasCfg) (r : RrcMeas) : Prop :=
  (r.parseMeasConfig (src.computeDiffMeasCfg target).1).1.CorrespondsTo target ∧
  ((src.computeDiffMeasCfg target).2 = false → src.config = target.config)

variable {src target : VarMeasCfg} {r : RrcMeas} {k : ℕ}

theorem addModIfPresent_emitted {α : Type} (present : Bool) (as : List α) :
    RrcMeas.addModIfPresent (VarMeasCfg.emitted present as) = if present then as else [] := by
  unfold RrcMeas.addModIfPresent
  rw [items_emitted]
  cases present with
  | false => rfl
  | true =>
    cases as with
    | nil => rfl
    | cons a as => rfl

theorem cells_view (o : MeasObjEutra) (k : ℕ) : o.config.view.cells k =
    (find? cellIdx k o.cellsToAddModList.items).map CellsToAddMod.view := rfl

theorem view_modifyObject {o : MeasObjEutra} (cells : List CellsToAddMod)
    (hitems : o.cellsToAddModList.items = cells) (hcells : Sorted cellIdx cells)
    (hblack : o.blackCellsToRemList.present = false) (dst : UeMeasObj) :
    (RrcMeas.modifyObject 0 o dst).view =
      { carrierFreq := o.carrierFreq
        offsetFreq := (o.offsetFreq.map QOffsetRange.toNumber).getD 0
        cells := fun k => (find? cellIdx k cells).elim
          (dst.measCells.find? k) fun c => some c.view
        blackCells := fun _ => none } := by
  subst hitems
  have herase : RrcMeas.eraseBlackCells o.blackCellsToRemList 0 dst.measCells = dst.measCells := by
    rw [RrcMeas.eraseBlackCells, hblack, if_neg Bool.false_ne_true]
  unfold RrcMeas.modifyObject UeMeasObj.view
  rw [herase]
  congr 1
  · cases o.offsetFreq <;> rfl
  · funext k
    exact find?_foldl_alter (fun c _ => c.view) hcells dst.measCells

theorem view_added {t : MeasObjEutra}
    (ht : Sorted cellIdx t.cellsToAddModList.items) :
    (RrcMeas.modifyObject 0 (VarMeasCfg.addCells t t.withoutCells) {}).view =
      { t.config.view with blackCells := fun _ => none } := by
  rw [addCells_eq, view_modifyObject t.cellsToAddModList.items (by rfl) ht (by rfl)]
  refine ObjectView.ext rfl rfl (funext fun k => ?_) rfl
  change (find? cellIdx k t.cellsToAddModList.items).elim none _ =
    t.config.view.cells k
  rw [cells_view]
  cases find? cellIdx k t.cellsToAddModList.items <;> rfl

/-- A changed object keeps the source's cells that the target lacks: the UE does not read the list
of cells to remove. -/
theorem view_changed {s t : MeasObjEutra} {dst : UeMeasObj}
    (hs : Sorted cellIdx s.cellsToAddModList.items)
    (ht : Sorted cellIdx t.cellsToAddModList.items)
    (hdst : dst.view = s.config.view) :
    (RrcMeas.modifyObject 0 (VarMeasCfg.computeDiffCells t s t.withoutCells) dst).view =
      { t.config.view with
        cells := fun k => (t.config.view.cells k).or (s.config.view.cells k)
        blackCells := fun _ => none } := by
  rw [computeDiffCells_eq, view_modifyObject _ rfl (sorted_changes hs ht) rfl]
  refine ObjectView.ext rfl rfl (funext fun k => ?_) rfl
  have hcells : dst.measCells.find? k = s.config.view.cells k :=
    congrFun (congrArg ObjectView.cells hdst) k
  change (find? cellIdx k (changes cellIdx (fun s t => s == t)
      s.cellsToAddModList.items t.cellsToAddModList.items)).elim (dst.measCells.find? k) _ =
    (t.config.view.cells k).or (s.config.view.cells k)
  rw [hcells, cells_view, cells_view, find?_changes hs ht]
  cases find? cellIdx k s.cellsToAddModList.items with
  | none => cases find? cellIdx k t.cellsToAddModList.items <;> rfl
  | some c =>
    cases find? cellIdx k t.cellsToAddModList.items with
    | none => rfl
    | some d =>
      by_cases hcd : (c == d) = true
      · simp [DiffOutcome.at?, DiffOutcome.changed?, eq_of_beq hcd]
      · simp [DiffOutcome.at?, DiffOutcome.changed?, hcd]

theorem view_eq_iff_of_beq {s t : MeasObjToAddMod} (hst : (s == t) = true)
    (hblack : s.measObj.config.blackCells = fun _ => none) :
    s.measObj.config.view = t.measObj.config.view ↔
      ∀ k, t.measObj.config.blackCells k = none := by
  obtain ⟨hoffset, hcarrier, -, -, -, hcells⟩ := MeasObjToAddMod.eq_of_beq hst
  have hcellsView : s.measObj.config.view.cells = t.measObj.config.view.cells := by
    funext k
    change (find? cellIdx k s.measObj.cellsToAddModList.items).map _ = _
    rw [hcells]
    rfl
  have hoffsetView : s.measObj.config.view.offsetFreq = t.measObj.config.view.offsetFreq := by
    change (s.measObj.offsetFreq.map QOffsetRange.toNumber).getD 0 = _
    rw [hoffset]
    rfl
  constructor
  · intro h k
    have hk := congrFun (congrArg ObjectView.blackCells h) k
    exact hk.symm.trans (congrFun hblack k)
  · intro h
    have hblack' : s.measObj.config.view.blackCells = t.measObj.config.view.blackCells :=
      hblack.trans (funext fun k => (h k).symm)
    exact ObjectView.ext hcarrier hoffsetView hcellsView hblack'

theorem added_eq_iff (t : MeasObjEutra) :
    ({ t.config.view with blackCells := fun _ => none } : ObjectView) = t.config.view ↔
      ∀ k, t.config.blackCells k = none := by
  constructor
  · intro h k
    exact (congrFun (congrArg ObjectView.blackCells h) k).symm
  · intro h
    exact ObjectView.ext rfl rfl rfl (funext fun k => (h k).symm)

theorem changed_eq_iff (s t : MeasObjEutra) :
    ({ t.config.view with
        cells := fun k => (t.config.view.cells k).or (s.config.view.cells k)
        blackCells := fun _ => none } : ObjectView) = t.config.view ↔
      (∀ k, t.config.blackCells k = none) ∧
      ∀ k, t.config.cells k = none → s.config.cells k = none := by
  constructor
  · intro h
    refine ⟨fun k => (congrFun (congrArg ObjectView.blackCells h) k).symm, fun k hk => ?_⟩
    have hcell := congrFun (congrArg ObjectView.cells h) k
    change ((t.config.cells k).map _).or ((s.config.cells k).map _) =
      (t.config.cells k).map CellsToAddMod.view at hcell
    rw [hk, Option.map_none, Option.none_or] at hcell
    exact Option.map_eq_none_iff.mp hcell
  · rintro ⟨hblack, hcells⟩
    refine ObjectView.ext rfl rfl (funext fun k => ?_) (funext fun k => (hblack k).symm)
    change ((t.config.cells k).map _).or ((s.config.cells k).map _) =
      (t.config.cells k).map CellsToAddMod.view
    cases ht : t.config.cells k with
    | none => rw [hcells k ht, Option.map_none, Option.or_none]
    | some c => rfl

theorem view_object_eq_iff (hsrc : src.Sorted) (htarget : target.Sorted)
    (hr : r.CorrespondsTo src) (hpresent : target.measObjList.present = true) (k : ℕ) :
    (r.parseMeasConfig (src.computeDiffMeasCfg target).1).1.view.objects k =
        target.config.view.objects k ↔
      ∀ t, find? measObjId k target.measObjList.items = some t →
        (∀ j, t.measObj.config.blackCells j = none) ∧
        ∀ s, find? measObjId k src.measObjList.items = some s →
          (s == t) = false →
          ∀ j, t.measObj.config.cells j = none → s.measObj.config.cells j = none := by
  have hobject : (r.objects.find? k).map UeMeasObj.view =
      (find? measObjId k src.measObjList.items).map (·.measObj.config.view) := by
    have h := congrFun (congrArg MeasView.objects hr) k
    exact h.trans (Option.map_map ..)
  have hsorted := sorted_diffOutcomes hsrc.objects htarget.objects
  have hblack : ∀ m ∈ objectChanges src target,
      m.measObj.blackCellsToRemList.present = false := by
    intro m hm
    obtain ⟨o, -, ho⟩ := List.mem_filterMap.mp hm
    cases o with
    | sameId s t =>
      simp only [changedObject?] at ho
      split_ifs at ho
      rw [← Option.some.inj ho, computeDiffCells_eq]
      rfl
    | idRemoved s => exact absurd ho (Option.some_ne_none m).symm
    | idAdded t =>
      rw [← Option.some.inj ho, addCells_eq]
      rfl
  have hlist : RrcMeas.addModIfPresent (src.computeDiffMeasCfg target).1.measObjToAddModList =
      objectChanges src target := by
    rw [computeDiffMeasCfg_fst hsrc htarget]
    exact (addModIfPresent_emitted _ _).trans (if_pos hpresent)
  have hkept : r.keptObject (src.computeDiffMeasCfg target).1 k =
      if k ∈ objectRemovals src target then none else r.objects.find? k := by
    rw [RrcMeas.keptObject, computeDiffMeasCfg_fst hsrc htarget,
      items_emitted, if_pos hpresent]
  have hfind := RrcMeas.find?_objects_parseMeasConfig (src.computeDiffMeasCfg target).1
    (hlist ▸ sorted_filterMap VarMeasCfg.key_of_changedObject? hsorted) (hlist ▸ hblack) r k
  rw [hlist, hkept, objectChanges,
    find?_filterMap VarMeasCfg.key_of_changedObject? hsorted,
    find?_diffOutcomes hsrc.objects htarget.objects] at hfind
  have hrem : k ∈ objectRemovals src target ↔ _ :=
    mem_removals_iff hsrc.objects htarget.objects
  change ((r.parseMeasConfig _).1.objects.find? k).map UeMeasObj.view =
    ((find? measObjId k target.measObjList.items).map _).map _ ↔ _
  rw [hfind]
  simp only [hrem]
  cases hs : find? measObjId k src.measObjList.items with
  | none =>
    rw [hs, Option.map_none, Option.map_eq_none_iff] at hobject
    cases ht : find? measObjId k target.measObjList.items with
    | none => simp [DiffOutcome.at?, hobject]
    | some t =>
      have hcells := htarget.cells t (mem_of_find? ht)
      have hview := view_added hcells
      simp only [DiffOutcome.at?, Option.bind_some, changedObject?, hobject,
        Option.isSome_none, Bool.false_eq_true, false_and, if_false, Option.elim_some,
        Option.getD_none, Option.map_some, hview, Option.some.injEq, added_eq_iff]
      constructor
      · rintro h t' rfl
        exact ⟨h, fun s hs => absurd hs (Option.some_ne_none s).symm⟩
      · intro h
        exact (h t rfl).1
  | some s =>
    obtain ⟨o, ho, hoview⟩ := Option.map_eq_some_iff.mp (hobject.trans (by rw [hs]; rfl))
    have hblackSrc : s.measObj.config.blackCells = fun _ => none :=
      (congrArg ObjectView.blackCells hoview).symm
    cases ht : find? measObjId k target.measObjList.items with
    | none =>
      simp [DiffOutcome.at?, changedObject?]
    | some t =>
      by_cases hst : (s == t) = true
      · simp only [DiffOutcome.at?, Option.bind_some, changedObject?, hst, if_true,
          Option.elim_none, ho, reduceCtorEq, and_false, if_false, Option.map_some, hoview,
          Option.some.injEq, view_eq_iff_of_beq hst hblackSrc]
        constructor
        · rintro h t' rfl
          refine ⟨h, ?_⟩
          rintro s' rfl hne
          exact absurd hst (by rw [hne]; exact Bool.false_ne_true)
        · intro h
          exact (h t rfl).1
      · have hview := view_changed (hsrc.cells s (mem_of_find? hs))
          (htarget.cells t (mem_of_find? ht)) hoview
        simp only [DiffOutcome.at?, Option.bind_some, changedObject?, hst,
          Bool.false_eq_true, if_false, Option.elim_some, ho, reduceCtorEq, and_false,
          Option.getD_some, Option.map_some, hview, Option.some.injEq, changed_eq_iff]
        constructor
        · rintro ⟨hblackTarget, hcells⟩ t' rfl
          refine ⟨hblackTarget, ?_⟩
          rintro s' rfl -
          exact hcells
        · intro h
          obtain ⟨hblackTarget, hcells⟩ := h t rfl
          exact ⟨hblackTarget, hcells s rfl (eq_false_of_ne_true hst)⟩

theorem view_modifyReport (rep : ReportCfgEutra) (dst : UeReportCfg) :
    (RrcMeas.modifyReport rep dst).view = rep.view := by
  unfold RrcMeas.modifyReport UeReportCfg.view ReportCfgEutra.view TriggerType.view
  cases rep.triggerType <;> cases rep.triggerQuant <;> cases rep.reportQuant <;> rfl

theorem view_configuredReport (hsrc : src.Sorted) (htarget : target.Sorted)
    (hr : r.CorrespondsTo src) (k : ℕ) :
    (r.configuredReport (src.computeDiffMeasCfg target).1 k).map UeReportCfg.view =
      if target.reportCfgList.present then target.config.view.reports k
      else src.config.view.reports k := by
  have hreport : (r.reportsCfg.find? k).map UeReportCfg.view = src.config.view.reports k :=
    congrFun (congrArg MeasView.reports hr) k
  unfold RrcMeas.configuredReport RrcMeas.keptReport
  rw [computeDiffMeasCfg_fst hsrc htarget, addModIfPresent_emitted,
    items_emitted]
  cases target.reportCfgList.present with
  | false => simpa using hreport
  | true =>
    simp only [if_true]
    have hpatched := elim_changes (fun s t => s == t) hsrc.reports htarget.reports
      (fun m => m.reportCfg.view) (src.config.view.reports k) k
    have hsame (s t : ReportCfgToAddMod) (h : (s == t) = true) :
        s.reportCfg.view = t.reportCfg.view := by
      rw [ReportCfgToAddMod.eq_of_beq h]
    have htarget' := patched_eq hsame
      (find? reportCfgId k src.reportCfgList.items)
      (find? reportCfgId k target.reportCfgList.items)
    have hsrcView : src.config.view.reports k =
        (find? reportCfgId k src.reportCfgList.items).map
          fun m => m.reportCfg.view := Option.map_map ..
    have htargetView : target.config.view.reports k =
        (find? reportCfgId k target.reportCfgList.items).map
          fun m => m.reportCfg.view := Option.map_map ..
    rw [htargetView, ← htarget', ← hsrcView, ← hpatched, ← hreport]
    unfold VarMeasCfg.reportChanges reportRemovals
    cases find? reportCfgId k (changes reportCfgId
        (fun s t => s == t) src.reportCfgList.items target.reportCfgList.items) with
    | none =>
      simp only [Option.elim_none]
      split_ifs <;> rfl
    | some m => simp only [Option.elim_some, Option.map_some, view_modifyReport]

theorem amount_view_ne_zero (rep : ReportCfgEutra) : rep.view.amount ≠ 0 :=
  rep.reportAmount.toNumber_ne_zero

theorem view_reports_eq_iff (hsrc : src.Sorted) (htarget : target.Sorted)
    (hr : r.CorrespondsTo src) :
    (r.parseMeasConfig (src.computeDiffMeasCfg target).1).1.view.reports =
        target.config.view.reports ↔
      (target.reportCfgList.present = false →
        src.config.view.reports = target.config.view.reports) ∧
      ∀ i ∈ (if target.measIdList.present then measIdChanges src target else []),
        ∃ m ∈ target.reportCfgList.items, m.reportCfgId = i.reportCfgId := by
  have hids : RrcMeas.addModIfPresent (src.computeDiffMeasCfg target).1.measIdToAddModList =
      if target.measIdList.present then measIdChanges src target else [] := by
    rw [computeDiffMeasCfg_fst hsrc htarget]
    exact addModIfPresent_emitted _ _
  have hlist : Sorted reportCfgId
      (RrcMeas.addModIfPresent (src.computeDiffMeasCfg target).1.reportCfgToAddModList) := by
    rw [computeDiffMeasCfg_fst hsrc htarget, addModIfPresent_emitted]
    split_ifs
    · exact sorted_changes hsrc.reports htarget.reports
    · exact List.Pairwise.nil
  have hfind (k : ℕ) := RrcMeas.find?_reports_parseMeasConfig (src.computeDiffMeasCfg target).1
    hlist r k
  have hconfigured := view_configuredReport hsrc htarget hr
  have htargetView (k : ℕ) : (∃ m ∈ target.reportCfgList.items, m.reportCfgId = k) ↔
      (target.config.view.reports k).isSome = true := by
    change _ ↔ (((find? reportCfgId k target.reportCfgList.items).map _).map
      _).isSome = true
    rw [Option.isSome_map, Option.isSome_map, Option.isSome_iff_exists]
    simp only [find?_eq_some_iff htarget.reports]
  rw [hids] at hfind
  generalize (if target.measIdList.present then measIdChanges src target else []) = ids
    at hfind ⊢
  constructor
  · intro h
    -- a report that was entered has no counterpart, so every named report was configured
    have hnamed : ∀ i ∈ ids, ∃ rep, r.configuredReport (src.computeDiffMeasCfg target).1
        i.reportCfgId = some rep := by
      intro i hi
      by_contra hnone
      have hk := congrFun h i.reportCfgId
      change ((r.parseMeasConfig _).1.reportsCfg.find? i.reportCfgId).map _ =
        ((find? _ _ _).map _).map ReportCfgEutra.view at hk
      rw [hfind, if_pos ⟨i, hi, rfl⟩,
        Option.eq_none_iff_forall_ne_some.mpr fun rep hrep => hnone ⟨rep, hrep⟩] at hk
      obtain ⟨rep, -, hrep⟩ := Option.map_eq_some_iff.mp hk.symm
      exact amount_view_ne_zero rep (congrArg ReportView.amount hrep)
    have hkept (k : ℕ) : (r.configuredReport (src.computeDiffMeasCfg target).1 k).map
        UeReportCfg.view = target.config.view.reports k := by
      refine Eq.trans ?_ (congrFun h k)
      change _ = ((r.parseMeasConfig _).1.reportsCfg.find? k).map UeReportCfg.view
      rw [hfind]
      split_ifs with hi
      · obtain ⟨i, hi, rfl⟩ := hi
        obtain ⟨rep, hrep⟩ := hnamed i hi
        rw [hrep]
        rfl
      · rfl
    refine ⟨fun hpresent => funext fun k => ?_, fun i hi => ?_⟩
    · rw [← hkept k, hconfigured, hpresent, if_neg Bool.false_ne_true]
    · obtain ⟨rep, hrep⟩ := hnamed i hi
      rw [htargetView, ← hkept, hrep]
      rfl
  · rintro ⟨habsent, hnamed⟩
    have hkept (k : ℕ) : (r.configuredReport (src.computeDiffMeasCfg target).1 k).map
        UeReportCfg.view = target.config.view.reports k := by
      rw [hconfigured]
      split_ifs with hpresent
      · rfl
      · rw [habsent (eq_false_of_ne_true hpresent)]
    funext k
    refine Eq.trans ?_ (hkept k)
    change ((r.parseMeasConfig _).1.reportsCfg.find? k).map UeReportCfg.view = _
    rw [hfind]
    split_ifs with hi
    · obtain ⟨i, hi, rfl⟩ := hi
      have hsome := (htargetView _).mp (hnamed i hi)
      rw [← hkept, Option.isSome_map] at hsome
      obtain ⟨rep, hrep⟩ := Option.isSome_iff_exists.mp hsome
      rw [hrep]
      rfl
    · rfl

def VarMeasCfg.Drops (src target : VarMeasCfg) (p : ℕ × ℕ) : Prop :=
  (target.measObjList.present = true ∧ (∃ s ∈ src.measObjList.items, s.measObjId = p.1) ∧
    ∀ t ∈ target.measObjList.items, t.measObjId ≠ p.1) ∨
  (target.reportCfgList.present = true ∧
    (∃ s ∈ src.reportCfgList.items, s.reportCfgId = p.2) ∧
    ∀ t ∈ target.reportCfgList.items, t.reportCfgId ≠ p.2)

section

variable (hsrc : src.Sorted) (htarget : target.Sorted)
include hsrc htarget

theorem not_drops_iff (p : ℕ × ℕ) :
    ¬src.Drops target p ↔
      p.1 ∉ (src.computeDiffMeasCfg target).1.measObjToRemList.items ∧
      p.2 ∉ (src.computeDiffMeasCfg target).1.reportCfgToRemList.items := by
  have hobjects : p.1 ∈ objectRemovals src target ↔ _ :=
    mem_removals_iff hsrc.objects htarget.objects
  have hreports : p.2 ∈ reportRemovals src target ↔ _ :=
    mem_removals_iff hsrc.reports htarget.reports
  rw [computeDiffMeasCfg_fst hsrc htarget, items_emitted,
    items_emitted, VarMeasCfg.Drops, not_or]
  refine and_congr (not_congr ?_) (not_congr ?_)
  · cases target.measObjList.present with
    | false => simp
    | true =>
      rw [if_pos rfl, hobjects, find?_eq_none_iff, Option.isSome_iff_exists]
      simp only [find?_eq_some_iff hsrc.objects, true_and]
  · cases target.reportCfgList.present with
    | false => simp
    | true =>
      rw [if_pos rfl, hreports, find?_eq_none_iff, Option.isSome_iff_exists]
      simp only [find?_eq_some_iff hsrc.reports, true_and]

theorem view_measIds_eq_iff (hr : r.CorrespondsTo src) :
    (r.parseMeasConfig (src.computeDiffMeasCfg target).1).1.view.measIds =
        target.config.view.measIds ↔
      (target.measIdList.present = true → ∀ i ∈ target.measIdList.items,
        i ∈ src.measIdList.items → ¬src.Drops target i.ids) ∧
      (target.measIdList.present = false → ∀ k p,
        target.config.measIds k = some p ↔
          src.config.measIds k = some p ∧ ¬src.Drops target p) := by
  have hold (k : ℕ) : r.activeIds k = src.config.measIds k :=
    congrFun (congrArg MeasView.measIds hr) k
  have hlist : RrcMeas.addModIfPresent (src.computeDiffMeasCfg target).1.measIdToAddModList =
      if target.measIdList.present then measIdChanges src target else [] := by
    rw [computeDiffMeasCfg_fst hsrc htarget]
    exact addModIfPresent_emitted _ _
  have hrem : (src.computeDiffMeasCfg target).1.measIdToRemList.items =
      if target.measIdList.present then VarMeasCfg.measIdRemovals src target else [] := by
    rw [computeDiffMeasCfg_fst hsrc htarget]
    exact items_emitted _ _
  have hsorted : Sorted measId
      (if target.measIdList.present then measIdChanges src target else []) := by
    split_ifs
    · exact sorted_changes hsrc.measIds htarget.measIds
    · exact List.Pairwise.nil
  have hfind (k : ℕ) := RrcMeas.activeIds_parseMeasConfig (src.computeDiffMeasCfg target).1
    (hlist ▸ hsorted) r k
  simp only [hlist, hrem, hold] at hfind
  -- what is left of an identity after the removals of objects and reports
  have hkept (k : ℕ) (p : ℕ × ℕ) :
      ((src.config.measIds k).filter fun p =>
          p.1 ∉ (src.computeDiffMeasCfg target).1.measObjToRemList.items).filter (fun p =>
        p.2 ∉ (src.computeDiffMeasCfg target).1.reportCfgToRemList.items) = some p ↔
      src.config.measIds k = some p ∧ ¬src.Drops target p := by
    rw [Option.filter_eq_some_iff, Option.filter_eq_some_iff, decide_eq_true_iff,
      decide_eq_true_iff, and_assoc, not_drops_iff hsrc htarget]
  obtain ⟨old, hfiltered⟩ : ∃ old : ℕ → Option (ℕ × ℕ), ∀ k,
      ((src.config.measIds k).filter fun p =>
          p.1 ∉ (src.computeDiffMeasCfg target).1.measObjToRemList.items).filter (fun p =>
        p.2 ∉ (src.computeDiffMeasCfg target).1.reportCfgToRemList.items) = old k :=
    ⟨_, fun _ => rfl⟩
  simp only [hfiltered] at hfind hkept
  cases hpresent : target.measIdList.present with
  | false =>
    have hview : (r.parseMeasConfig (src.computeDiffMeasCfg target).1).1.view.measIds = old := by
      funext k
      exact (hfind k).trans (by simp [hpresent])
    rw [hview]
    constructor
    · rintro h
      refine ⟨fun h => absurd h Bool.false_ne_true, fun _ k p => ?_⟩
      rw [← hkept k p, h]
      rfl
    · rintro ⟨-, h⟩
      funext k
      refine Option.ext fun p => ?_
      rw [hkept k p]
      exact (h rfl k p).symm
  | true =>
    have hview (k : ℕ) :
        (r.parseMeasConfig (src.computeDiffMeasCfg target).1).1.view.measIds k =
          patched (fun s t => s == t) MeasIdToAddMod.ids (old k)
            (find? measId k src.measIdList.items)
            (find? measId k target.measIdList.items) := by
      rw [← elim_changes _ hsrc.measIds htarget.measIds]
      refine (hfind k).trans ?_
      rw [hpresent]
      rfl
    constructor
    · intro h
      refine ⟨fun _ i hi his => ?_, fun h => absurd h.symm Bool.false_ne_true⟩
      have hk := (hview i.measId).symm.trans (congrFun h i.measId)
      change _ = (find? measId i.measId target.measIdList.items).map _ at hk
      rw [find?_of_mem hsrc.measIds his, find?_of_mem htarget.measIds hi] at hk
      simp only [patched, beq_self_eq_true, if_true, Option.map_some] at hk
      exact ((hkept _ _).mp hk).2
    · rintro ⟨h, -⟩
      funext k
      rw [hview]
      change _ = (find? measId k target.measIdList.items).map _
      have hsrcIds : src.config.measIds k =
          (find? measId k src.measIdList.items).map MeasIdToAddMod.ids := rfl
      cases hs : find? measId k src.measIdList.items with
      | none =>
        cases ht : find? measId k target.measIdList.items with
        | none =>
          rw [← hfiltered, hsrcIds, hs]
          rfl
        | some t => rfl
      | some s =>
        cases ht : find? measId k target.measIdList.items with
        | none => rfl
        | some t =>
          by_cases hst : (s == t) = true
          · have hst' := eq_of_beq hst
            subst hst'
            have hdrops := h rfl s (mem_of_find? ht) (mem_of_find? hs)
            simp only [patched, hst, if_true, Option.map_some]
            exact (hkept k s.ids).mpr ⟨by rw [hsrcIds, hs]; rfl, hdrops⟩
          · simp only [patched, hst, Bool.false_eq_true, if_false, Option.map_some]

theorem view_filterKs_eq_iff (hr : r.CorrespondsTo src) :
    (r.parseMeasConfig (src.computeDiffMeasCfg target).1).1.view.filterKs =
        target.config.view.filterKs ↔
      (∃ q, target.quantCfg = some q ∧ q.quantCfgEutraPresent = true) ∨
      src.config.view.filterKs = target.config.view.filterKs := by
  have hold : r.filterKs = src.config.view.filterKs := congrArg MeasView.filterKs hr
  have hfinal : (r.parseMeasConfig (src.computeDiffMeasCfg target).1).1.view.filterKs =
      (r.applyQuantCfg (changedQuantCfg src target)).filterKs := by
    refine (RrcMeas.filterKs_parseMeasConfig _ r).trans ?_
    rw [computeDiffMeasCfg_fst hsrc htarget]
  have happly (q : QuantCfg) : (r.applyQuantCfg (some q)).filterKs =
      if q.quantCfgEutraPresent then q.filterKs else r.filterKs := by
    unfold RrcMeas.applyQuantCfg QuantCfg.filterKs
    cases hq : q.quantCfgEutraPresent with
    | false => simp [hq]
    | true =>
      simp only [hq, if_true]
      rfl
  have htargetView : target.config.view.filterKs =
      (target.quantCfg.map QuantCfg.filterKs).getD (4, 4) := rfl
  have hsrcView : src.config.view.filterKs =
      (src.quantCfg.map QuantCfg.filterKs).getD (4, 4) := rfl
  rw [hfinal]
  cases hq : target.quantCfg with
  | none => simp [changedQuantCfg, hq, RrcMeas.applyQuantCfg, hold]
  | some q =>
    -- a configuration that is sent is applied when it has an EUTRA part
    have hsent : (r.applyQuantCfg (some q)).filterKs = target.config.view.filterKs ↔
        (∃ q', some q = some q' ∧ q'.quantCfgEutraPresent = true) ∨
        src.config.view.filterKs = target.config.view.filterKs := by
      rw [happly, htargetView, hq, hold]
      cases heutra : q.quantCfgEutraPresent with
      | false => simp [heutra]
      | true => simp [heutra]
    cases hp : src.quantCfg with
    | none => simpa only [changedQuantCfg, hq, hp] using hsent
    | some p =>
      by_cases hqp : (q == p) = true
      · have hsame : src.config.view.filterKs = target.config.view.filterKs := by
          rw [hsrcView, htargetView, hq, hp, QuantCfg.eq_of_beq hqp]
        simp only [changedQuantCfg, hq, hp, hqp, if_true, RrcMeas.applyQuantCfg, hold,
          hsame, or_true]
      · simpa only [changedQuantCfg, hq, hp, hqp, Bool.false_eq_true, if_false]
          using hsent

end

theorem blackCells_eq_none_iff (o : MeasObjEutra) :
    (∀ k, o.config.blackCells k = none) ↔ o.blackCellsToAddModList.items = [] :=
  (eq_nil_iff BlackCellsToAddMod.cellIdx).symm

theorem blackCells_of_correspondsTo (hsrc : src.Sorted) (hr : r.CorrespondsTo src)
    {s : MeasObjToAddMod} (hs : s ∈ src.measObjList.items) :
    s.measObj.blackCellsToAddModList.items = [] := by
  rw [← blackCells_eq_none_iff]
  have h := congrFun (congrArg MeasView.objects hr) s.measObjId
  change (r.objects.find? s.measObjId).map _ =
    ((find? measObjId s.measObjId src.measObjList.items).map _).map _ at h
  rw [find?_of_mem hsrc.objects hs] at h
  obtain ⟨o, -, ho⟩ := Option.map_eq_some_iff.mp h
  intro k
  exact (congrFun (congrArg ObjectView.blackCells ho) k).symm

theorem view_objects_eq_iff (hsrc : src.Sorted) (htarget : target.Sorted)
    (hr : r.CorrespondsTo src) :
    (r.parseMeasConfig (src.computeDiffMeasCfg target).1).1.view.objects =
        target.config.view.objects ↔
      (∀ t ∈ target.measObjList.items, t.measObj.blackCellsToAddModList.items = []) ∧
      (target.measObjList.present = true →
        ∀ s ∈ src.measObjList.items, ∀ t ∈ target.measObjList.items,
          s.measObjId = t.measObjId → (s == t) = false →
          ∀ c ∈ s.measObj.cellsToAddModList.items,
            ∃ d ∈ t.measObj.cellsToAddModList.items, d.cellIdx = c.cellIdx) ∧
      (target.measObjList.present = false →
        src.config.view.objects = target.config.view.objects) := by
  cases hpresent : target.measObjList.present with
  | false =>
    have hview : (r.parseMeasConfig (src.computeDiffMeasCfg target).1).1.view.objects =
        src.config.view.objects := by
      refine Eq.trans ?_ (congrArg MeasView.objects hr)
      funext k
      have hlist : RrcMeas.addModIfPresent
          (src.computeDiffMeasCfg target).1.measObjToAddModList = [] := by
        rw [computeDiffMeasCfg_fst hsrc htarget, addModIfPresent_emitted, hpresent]
        rfl
      have hrem : (src.computeDiffMeasCfg target).1.measObjToRemList.items = [] := by
        rw [computeDiffMeasCfg_fst hsrc htarget, items_emitted, hpresent]
        rfl
      have hfind := RrcMeas.find?_objects_parseMeasConfig (src.computeDiffMeasCfg target).1
        (by rw [hlist]; exact List.Pairwise.nil) (by simp [hlist]) r k
      rw [hlist, RrcMeas.keptObject, hrem] at hfind
      exact congrArg (Option.map UeMeasObj.view) (hfind.trans (by simp))
    rw [hview]
    refine ⟨fun h => ⟨fun t ht => ?_, fun h => absurd h Bool.false_ne_true, fun _ => h⟩,
      fun h => h.2.2 rfl⟩
    have hcorr : (r.objects.find? t.measObjId).map UeMeasObj.view =
        target.config.view.objects t.measObjId :=
      congrFun ((congrArg MeasView.objects hr).trans h) t.measObjId
    change _ = ((find? measObjId t.measObjId target.measObjList.items).map
      _).map _ at hcorr
    rw [find?_of_mem htarget.objects ht] at hcorr
    obtain ⟨o, -, ho⟩ := Option.map_eq_some_iff.mp hcorr
    rw [← blackCells_eq_none_iff]
    intro k
    exact (congrFun (congrArg ObjectView.blackCells ho) k).symm
  | true =>
    have hcells (s t : MeasObjEutra) : (∀ k, t.config.cells k = none → s.config.cells k = none) ↔
        ∀ c ∈ s.cellsToAddModList.items, ∃ d ∈ t.cellsToAddModList.items,
          d.cellIdx = c.cellIdx := by
      change (∀ k, find? _ k _ = none → find? _ k _ = none) ↔ _
      simp only [find?_eq_none_iff]
      constructor
      · intro h c hc
        by_contra hnone
        exact h c.cellIdx (fun d hd hdc => hnone ⟨d, hd, hdc⟩) c hc rfl
      · intro h k hk c hc hck
        obtain ⟨d, hd, hdc⟩ := h c hc
        exact hk d hd (hdc.trans hck)
    constructor
    · intro h
      refine ⟨fun t ht => ?_, fun _ s hs t ht hid hne => ?_, fun h => absurd h.symm
        Bool.false_ne_true⟩
      · have hk := (view_object_eq_iff hsrc htarget hr hpresent t.measObjId).mp (congrFun h _) t
          (find?_of_mem htarget.objects ht)
        exact (blackCells_eq_none_iff _).mp hk.1
      · have hk := (view_object_eq_iff hsrc htarget hr hpresent t.measObjId).mp (congrFun h _) t
          (find?_of_mem htarget.objects ht)
        exact (hcells _ _).mp (hk.2 s ((find?_eq_some_iff hsrc.objects).mpr ⟨hs, hid⟩) hne)
    · rintro ⟨hblack, hkept, -⟩
      funext k
      rw [view_object_eq_iff hsrc htarget hr hpresent]
      intro t ht
      refine ⟨(blackCells_eq_none_iff _).mpr (hblack t (mem_of_find? ht)), fun s hs hne => ?_⟩
      exact (hcells _ _).mpr (hkept rfl s (mem_of_find? hs) t (mem_of_find? ht)
        ((key_of_find? hs).trans (key_of_find? ht).symm) hne)

/-- What a list that the target does not have, or has no configuration for, leaves unsaid. -/
structure VarMeasCfg.SameUnsent (src target : VarMeasCfg) : Prop where
  objects : target.measObjList.present = false → src.config.objects = target.config.objects
  reports : target.reportCfgList.present = false → src.config.reports = target.config.reports
  measIds : target.measIdList.present = false → src.config.measIds = target.config.measIds
  quantCfg : target.quantCfg = none → src.quantCfg = none

theorem find?_eq_of_sameEntries {α : Type} {getId : α → ℕ} {same : α → α → Bool}
    {l l' : List α} (hsame : ∀ s t, same s t = true → s = t)
    (h : SameEntries getId same l l') (k : ℕ) : find? getId k l = find? getId k l' := by
  have hk := h k
  generalize find? getId k l = s at hk ⊢
  generalize find? getId k l' = t at hk ⊢
  cases hk with
  | none => rfl
  | some hst => rw [hsame _ _ hst]

theorem config_object_eq {s t : MeasObjToAddMod} (hst : (s == t) = true)
    (hs : s.measObj.blackCellsToAddModList.items = [])
    (ht : t.measObj.blackCellsToAddModList.items = []) :
    s.measObj.config = t.measObj.config := by
  obtain ⟨hoffset, hcarrier, hneigh, hport, hbw, hcells⟩ := MeasObjToAddMod.eq_of_beq hst
  unfold MeasObjEutra.config
  rw [hoffset, hcarrier, hneigh, hport, hbw, hcells, hs, ht]

theorem config_eq_iff_sameUnsent
    (hblackSrc : ∀ s ∈ src.measObjList.items, s.measObj.blackCellsToAddModList.items = [])
    (hblackTarget : ∀ t ∈ target.measObjList.items, t.measObj.blackCellsToAddModList.items = [])
    (hsilent : src.Silent target) : src.config = target.config ↔ src.SameUnsent target := by
  have hobjects (h : target.measObjList.present = true) :
      src.config.objects = target.config.objects := by
    funext k
    have hk := hsilent.objects h k
    change (find? _ k _).map _ = (find? _ k _).map _
    cases hs : find? measObjId k src.measObjList.items with
    | none =>
      cases ht : find? measObjId k target.measObjList.items with
      | none => rfl
      | some t =>
        rw [hs, ht] at hk
        cases hk
    | some s =>
      cases ht : find? measObjId k target.measObjList.items with
      | none =>
        rw [hs, ht] at hk
        cases hk
      | some t =>
        rw [hs, ht] at hk
        cases hk with
        | some hst =>
          exact congrArg some (config_object_eq hst (hblackSrc s (mem_of_find? hs))
            (hblackTarget t (mem_of_find? ht)))
  have hreports (h : target.reportCfgList.present = true) :
      src.config.reports = target.config.reports := by
    funext k
    exact congrArg (Option.map _) (find?_eq_of_sameEntries
      (fun _ _ => ReportCfgToAddMod.eq_of_beq) (hsilent.reports h) k)
  have hmeasIds (h : target.measIdList.present = true) :
      src.config.measIds = target.config.measIds := by
    funext k
    exact congrArg (Option.map _)
      (find?_eq_of_sameEntries (fun _ _ => eq_of_beq) (hsilent.measIds h) k)
  constructor
  · intro h
    refine ⟨fun _ => congrArg MeasConfig.objects h, fun _ => congrArg MeasConfig.reports h,
      fun _ => congrArg MeasConfig.measIds h, fun hnone => ?_⟩
    exact (congrArg MeasConfig.quantCfg h).trans hnone
  · intro h
    have hquant : src.quantCfg = target.quantCfg := by
      cases hq : target.quantCfg with
      | none => exact h.quantCfg hq
      | some q =>
        obtain ⟨p, hp, hqp⟩ := hsilent.quantCfg q hq
        rw [hp, QuantCfg.eq_of_beq hqp]
    have hobjects' : src.config.objects = target.config.objects := by
      cases hp : target.measObjList.present with
      | false => exact h.objects hp
      | true => exact hobjects hp
    have hreports' : src.config.reports = target.config.reports := by
      cases hp : target.reportCfgList.present with
      | false => exact h.reports hp
      | true => exact hreports hp
    have hmeasIds' : src.config.measIds = target.config.measIds := by
      cases hp : target.measIdList.present with
      | false => exact h.measIds hp
      | true => exact hmeasIds hp
    cases hs : src.config
    cases ht : target.config
    rw [hs, ht] at hobjects' hreports' hmeasIds'
    rw [MeasConfig.mk.injEq]
    refine ⟨hobjects', hreports', hmeasIds', ?_⟩
    exact (congrArg MeasConfig.quantCfg hs).symm.trans
      (hquant.trans (congrArg MeasConfig.quantCfg ht))

/-- The configurations between which the difference carries the UE. -/
structure VarMeasCfg.DiffCarries (src target : VarMeasCfg) : Prop where
  blackCells : ∀ t ∈ target.measObjList.items, t.measObj.blackCellsToAddModList.items = []
  cells : target.measObjList.present = true →
    ∀ s ∈ src.measObjList.items, ∀ t ∈ target.measObjList.items,
      s.measObjId = t.measObjId → (s == t) = false →
      ∀ c ∈ s.measObj.cellsToAddModList.items,
        ∃ d ∈ t.measObj.cellsToAddModList.items, d.cellIdx = c.cellIdx
  objects : target.measObjList.present = false →
    src.config.view.objects = target.config.view.objects
  reports : target.reportCfgList.present = false →
    src.config.view.reports = target.config.view.reports
  namedReports : target.measIdList.present = true →
    ∀ i ∈ target.measIdList.items, i ∉ src.measIdList.items →
      ∃ m ∈ target.reportCfgList.items, m.reportCfgId = i.reportCfgId
  keptIds : target.measIdList.present = true →
    ∀ i ∈ target.measIdList.items, i ∈ src.measIdList.items → ¬src.Drops target i.ids
  measIds : target.measIdList.present = false → ∀ k p,
    target.config.measIds k = some p ↔ src.config.measIds k = some p ∧ ¬src.Drops target p
  quantCfg : (∃ q, target.quantCfg = some q ∧ q.quantCfgEutraPresent = true) ∨
    src.config.view.filterKs = target.config.view.filterKs
  unsent : src.Silent target → src.SameUnsent target

theorem correspondsTo_iff : r.CorrespondsTo target ↔
    r.view.objects = target.config.view.objects ∧ r.view.reports = target.config.view.reports ∧
    r.view.measIds = target.config.view.measIds ∧
    r.view.filterKs = target.config.view.filterKs := by
  unfold RrcMeas.CorrespondsTo
  constructor
  · intro h
    rw [h]
    exact ⟨rfl, rfl, rfl, rfl⟩
  · rintro ⟨hobjects, hreports, hmeasIds, hquant⟩
    cases hr : r.view
    cases ht : target.config.view
    rw [hr, ht] at hobjects hreports hmeasIds hquant
    rw [MeasView.mk.injEq]
    exact ⟨hobjects, hreports, hmeasIds, hquant⟩

theorem diffAgrees_iff_diffCarries (hsrc : src.Sorted) (htarget : target.Sorted)
    (hr : r.CorrespondsTo src) : src.DiffAgrees target r ↔ src.DiffCarries target := by
  have hnamed : (∀ i ∈ (if target.measIdList.present then measIdChanges src target
        else []), ∃ m ∈ target.reportCfgList.items, m.reportCfgId = i.reportCfgId) ↔
      (target.measIdList.present = true →
        ∀ i ∈ target.measIdList.items, i ∉ src.measIdList.items →
          ∃ m ∈ target.reportCfgList.items, m.reportCfgId = i.reportCfgId) := by
    have hchanged (i : MeasIdToAddMod) : i ∈ measIdChanges src target ↔
        i ∈ target.measIdList.items ∧ i ∉ src.measIdList.items := by
      refine (mem_changes_iff hsrc.measIds htarget.measIds).trans (and_congr_right fun _ => ?_)
      constructor
      · intro h hi
        exact absurd (beq_self_eq_true i) (by rw [h i hi rfl]; exact Bool.false_ne_true)
      · intro h s hs _
        exact beq_false_of_ne fun hsi => h (hsi ▸ hs)
    cases target.measIdList.present with
    | false => simp
    | true => simp only [if_true, hchanged, and_imp, true_implies]
  unfold VarMeasCfg.DiffAgrees
  rw [correspondsTo_iff, view_objects_eq_iff hsrc htarget hr, view_reports_eq_iff hsrc htarget hr,
    view_measIds_eq_iff hsrc htarget hr, view_filterKs_eq_iff hsrc htarget hr, hnamed,
    VarMeasCfg.computeDiffMeasCfg_snd hsrc htarget]
  have hblackSrc : ∀ s ∈ src.measObjList.items, s.measObj.blackCellsToAddModList.items = [] :=
    fun s hs => blackCells_of_correspondsTo hsrc hr hs
  constructor
  · rintro ⟨⟨⟨hblack, hcells, hobjects⟩, ⟨hreports, hids⟩, ⟨hkept, hmeasIds⟩, hquant⟩, hsame⟩
    exact ⟨hblack, hcells, hobjects, hreports, hids, hkept, hmeasIds, hquant, fun hsilent =>
      (config_eq_iff_sameUnsent hblackSrc hblack hsilent).mp (hsame hsilent)⟩
  · intro h
    exact ⟨⟨⟨h.blackCells, h.cells, h.objects⟩, ⟨h.reports, h.namedReports⟩,
      ⟨h.keptIds, h.measIds⟩, h.quantCfg⟩, fun hsilent =>
      (config_eq_iff_sameUnsent hblackSrc h.blackCells hsilent).mpr
        (h.unsent hsilent)⟩

def VarMeasCfg.oneObject (cells : List CellsToAddMod) : VarMeasCfg where
  measObjList := ⟨true, [⟨1,
    { offsetFreq := some .db0
      carrierFreq := 3400
      allowedMeasBw := .mbw6
      presenceAntPort1 := false
      neighCellCfg := 1
      cellsToAddModList := ⟨true, cells⟩ }⟩]⟩
  reportCfgList := ⟨true, [⟨1,
    { triggerType := .event ⟨.eventA3 6 false, 2, .ms480⟩
      triggerQuant := .rsrp
      reportQuant := .both
      maxReportCells := 1
      reportInterv := .ms120
      reportAmount := .r1 }⟩]⟩
  measIdList := ⟨true, [⟨1, 1, 1⟩]⟩
  quantCfg := some { quantCfgEutraPresent := true }

theorem sorted_oneObject {cells : List CellsToAddMod}
    (hcells : Sorted cellIdx cells) : (VarMeasCfg.oneObject cells).Sorted where
  objects := List.pairwise_singleton _ _
  cells := by
    intro o ho
    rw [List.mem_singleton.mp ho]
    exact hcells
  reports := List.pairwise_singleton _ _
  measIds := List.pairwise_singleton _ _

theorem sorted_empty : VarMeasCfg.Sorted {} where
  objects := List.Pairwise.nil
  cells _ ho := absurd ho List.not_mem_nil
  reports := List.Pairwise.nil
  measIds := List.Pairwise.nil

/-- A UE without a configuration takes up the first one. -/
theorem diffAgrees_iff_diffCarries_first :
    VarMeasCfg.DiffAgrees {} (VarMeasCfg.oneObject [⟨1, 2, .db0⟩]) RrcMeas.reset := by
  have hreset : RrcMeas.reset.CorrespondsTo {} := rfl
  refine (diffAgrees_iff_diffCarries sorted_empty
    (sorted_oneObject (List.pairwise_singleton _ _)) hreset).mpr ?_
  constructor
  · intro t ht
    rw [List.mem_singleton.mp ht]
  · intro _ s hs
    exact absurd hs List.not_mem_nil
  · intro h
    exact absurd h.symm Bool.false_ne_true
  · intro h
    exact absurd h.symm Bool.false_ne_true
  · intro _ i hi _
    rw [List.mem_singleton.mp hi]
    exact ⟨_, List.mem_cons_self, rfl⟩
  · intro _ i _ hi
    exact absurd hi List.not_mem_nil
  · intro h
    exact absurd h.symm Bool.false_ne_true
  · exact Or.inl ⟨_, rfl, rfl⟩
  · intro h
    have hobjects := h.objects rfl 1
    cases hobjects

def RrcMeas.twoCells : RrcMeas where
  objects := OrderedMap.empty.insert 1
    { earfcn := 3400
      qOffset := 0
      measCells := (OrderedMap.empty.insert 1 ⟨2, 0⟩).insert 2 ⟨3, 0⟩ }
  reportsCfg := OrderedMap.empty.insert 1
    { interval := 120
      maxCell := 1
      amount := 1
      triggerQuantity := .rsrp
      reportQuantity := .both
      event := some ⟨.eventA3 6 false, 2, .ms480⟩
      triggerType := .event }
  active := OrderedMap.empty.insert 1 { objectId := 1, reportId := 1 }
  filterKRsrp := 4
  filterKRsrq := 4

theorem twoCells_correspondsTo :
    RrcMeas.twoCells.CorrespondsTo (VarMeasCfg.oneObject [⟨1, 2, .db0⟩, ⟨2, 3, .db0⟩]) := by
  rw [correspondsTo_iff]
  refine ⟨funext fun k => ?_, funext fun k => ?_, funext fun k => ?_, rfl⟩
  · change ((OrderedMap.empty.insert 1 _).find? k).map UeMeasObj.view =
      ((find? measObjId k [_]).map _).map ObjectConfig.view
    rw [OrderedMap.find?_insert, find?_cons]
    by_cases hk : k = 1
    · subst hk
      refine congrArg some (ObjectView.ext rfl rfl (funext fun j => ?_) rfl)
      change ((OrderedMap.empty.insert 1 _).insert 2 _).find? j =
        (find? cellIdx j [_, _]).map CellsToAddMod.view
      rw [OrderedMap.find?_insert, OrderedMap.find?_insert, find?_cons, find?_cons]
      by_cases h1 : j = 1
      · subst h1
        rfl
      · by_cases h2 : j = 2
        · subst h2
          rfl
        · rw [if_neg h2, if_neg h1, if_neg (Ne.symm h1), if_neg (Ne.symm h2)]
          rfl
    · rw [if_neg hk, if_neg (by exact Ne.symm hk)]
      rfl
  · change ((OrderedMap.empty.insert 1 _).find? k).map UeReportCfg.view =
      ((find? reportCfgId k [_]).map _).map ReportCfgEutra.view
    rw [OrderedMap.find?_insert, find?_cons]
    by_cases hk : k = 1
    · subst hk
      rfl
    · rw [if_neg hk, if_neg (by exact Ne.symm hk)]
      rfl
  · change ((OrderedMap.empty.insert 1 _).find? k).map Meas.ids =
      (find? measId k [_]).map MeasIdToAddMod.ids
    rw [OrderedMap.find?_insert, find?_cons]
    by_cases hk : k = 1
    · subst hk
      rfl
    · rw [if_neg hk, if_neg (by exact Ne.symm hk)]
      rfl

/-- The removal of one of two cells never reaches the UE. -/
theorem removed_cell_stays : ¬∀ (src target : VarMeasCfg) (r : RrcMeas), src.Sorted →
    target.Sorted → r.CorrespondsTo src → src.DiffAgrees target r := by
  intro h
  have hsrc : (VarMeasCfg.oneObject [⟨1, 2, .db0⟩, ⟨2, 3, .db0⟩]).Sorted :=
    sorted_oneObject (by unfold Sorted; decide)
  have htarget : (VarMeasCfg.oneObject [⟨1, 2, .db0⟩]).Sorted :=
    sorted_oneObject (List.pairwise_singleton _ _)
  have hagrees := (h _ _ _ hsrc htarget twoCells_correspondsTo).1
  have hobjects := (view_objects_eq_iff hsrc htarget twoCells_correspondsTo).mp
    (correspondsTo_iff.mp hagrees).1
  obtain ⟨d, hd, hid⟩ := hobjects.2.1 rfl _ List.mem_cons_self _ List.mem_cons_self rfl rfl
    ⟨2, 3, .db0⟩ (List.mem_cons_of_mem _ List.mem_cons_self)
  rw [List.mem_singleton.mp hd] at hid
  exact absurd hid (by decide)

end SrsLte
