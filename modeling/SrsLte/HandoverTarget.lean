import SrsLte.NeighbourCfg

/-!
# The target of a handover

`rrc_mobility::handle_ue_meas_report`: the measurement identity leads to an object, in which the
reported PCI is looked up. The ECI is taken from the list of the configured neighbours.
-/

namespace SrsLte

open EventRun (along_of_forall)
open MeasObjToAddMod (measObjId carrierFreq cells)
open ReportCfgToAddMod (reportCfgId)
open MeasIdToAddMod (measId)
open MeasCellCfg (newCell)

/-- The constructor of `mobility_cfg`, when a measurement configuration is present. -/
def mobilityCfg (measCells : List MeasCellCfg) (measReports : List ReportCfgEutra)
    (quantCfg : QuantCfgEutra) : VarMeasCfg :=
  let varMeas : VarMeasCfg := measCells.foldl (fun v meascell => (v.addCellCfg meascell).1) {}
  let varMeas : VarMeasCfg :=
    measReports.foldl (fun v reportcfg => (v.addReportCfg reportcfg).1) varMeas
  let varMeas : VarMeasCfg :=
    match varMeas.reportCfgList.items with
    | [] => varMeas
    | rep :: _ => varMeas.measObjList.items.foldl
        (fun v measobj => (v.addMeasidCfg measobj.measObjId rep.reportCfgId).1) varMeas
  varMeas.addQuantCfg quantCfg

structure MeasResultEutra where
  pci : ℕ
  rsrpResult : Option ℕ := none
  rsrqResult : Option ℕ := none
  deriving DecidableEq

inductive MeasResultNeighCells
  | measResultListEutra (l : List MeasResultEutra)
  | other

/-- `meas_results_s`, without the serving cell. -/
structure MeasResults where
  measId : ℕ
  measResultNeighCells : Option MeasResultNeighCells

/-- What the procedure is launched with. -/
structure HandoverStart where
  measid : MeasIdToAddMod
  measobj : MeasObjToAddMod
  repcfg : Option ReportCfgToAddMod
  cell : CellsToAddMod
  measRes : MeasResultEutra
  targetEci : ℕ

/-- The entry that `binary_find` returns. -/
def findId {α : Type} (getId : α → ℕ) (l : List α) (id : ℕ) : Option α :=
  (binaryFind getId l id).bind (l[·]?)

/-- "Iterate from strongest to weakest cell. NOTE: From now we just look at the strongest". -/
def MeasResults.strongest (r : MeasResults) : Option MeasResultEutra :=
  match r.measResultNeighCells with
  | some (.measResultListEutra l) => l.head?
  | _ => none

/-- The handover that is started, if any; `busy` while another one is on-going. An identity that is
configured has an object, and a cell of an object is one of the neighbours. -/
def handleUeMeasReport (measCells : List MeasCellCfg) (ueVarMeas : VarMeasCfg) (busy : Bool)
    (measRes : MeasResults) : Option HandoverStart := do
  let measid ← findId measId ueVarMeas.measIdList.items measRes.measId
  let strongest ← measRes.strongest
  let obj ← findId measObjId ueVarMeas.measObjList.items measid.measObjId
  let cell ← obj.cells.find? fun c => c.pci = strongest.pci
  let target ← measCells.find? fun c => c.pci = strongest.pci
  if busy then none
  else
    some
      { measid := measid
        measobj := obj
        repcfg := findId reportCfgId ueVarMeas.reportCfgList.items measid.reportCfgId
        cell := cell
        measRes := strongest
        targetEci := target.eci }

namespace NeighbourCfg

variable {n : NeighbourCfg} {events : List MeasCfgEvent} {measCells : List MeasCellCfg}
  {busy : Bool} {r : MeasResults} {h : HandoverStart}

theorem foldl_addCell (measCells : List MeasCellCfg) (n : NeighbourCfg) :
    (measCells.map .addCell).foldl step n =
      ⟨measCells.foldl (fun v c => (v.addCellCfg c).1) n.cfg, n.added ++ measCells⟩ := by
  induction measCells generalizing n with
  | nil => simp
  | cons c measCells ih => rw [List.map_cons, List.foldl_cons, ih]; simp [step]

theorem foldl_cfg {α : Type} (event : α → MeasCfgEvent) (f : VarMeasCfg → α → VarMeasCfg)
    (hf : ∀ n a, step n (event a) = { n with cfg := f n.cfg a }) (l : List α) (n : NeighbourCfg) :
    (l.map event).foldl step n = { n with cfg := l.foldl f n.cfg } := by
  induction l generalizing n with
  | nil => rfl
  | cons a l ih => rw [List.map_cons, List.foldl_cons, ih, hf]; rfl

/-- The constructor is a run that adds the configured cells. -/
theorem mobilityCfg_eq_run (measCells : List MeasCellCfg) (measReports : List ReportCfgEutra)
    (quantCfg : QuantCfgEutra) :
    ∃ events : List MeasCfgEvent, events.foldl step ⟨{}, []⟩ =
      ⟨mobilityCfg measCells measReports quantCfg, measCells⟩ := by
  have hreports := foldl_cfg .addReport (fun v r => (v.addReportCfg r).1) (fun _ _ => rfl)
    measReports
  have hcells := foldl_addCell measCells ⟨{}, []⟩
  have hquant : ∀ n : NeighbourCfg, [MeasCfgEvent.addQuant quantCfg].foldl step n =
      { n with cfg := n.cfg.addQuantCfg quantCfg } := fun _ => rfl
  unfold mobilityCfg
  dsimp only
  split
  · exact ⟨measCells.map .addCell ++ measReports.map .addReport ++ [.addQuant quantCfg], by
      rw [List.foldl_append, List.foldl_append, hcells, hreports, hquant]; rfl⟩
  · next rep _ _ =>
    have hmeasids := foldl_cfg (fun o : MeasObjToAddMod => .addMeasid o.measObjId rep.reportCfgId)
      (fun v o => (v.addMeasidCfg o.measObjId rep.reportCfgId).1) (fun _ _ => rfl)
    exact ⟨measCells.map .addCell ++ measReports.map .addReport ++
      (_ : List MeasObjToAddMod).map _ ++ [.addQuant quantCfg], by
        rw [List.foldl_append, List.foldl_append, List.foldl_append, hcells, hreports, hmeasids,
          hquant]
        rfl⟩

/-- A handover goes to the neighbour that the report is about. -/
structure Targets (measCells : List MeasCellCfg) (v : VarMeasCfg) (r : MeasResults)
    (h : HandoverStart) : Prop where
  measid : h.measid ∈ v.measIdList.items ∧ h.measid.measId = r.measId
  measobj : h.measobj ∈ v.measObjList.items ∧ h.measobj.measObjId = h.measid.measObjId
  strongest : r.strongest = some h.measRes
  target : ∃ c ∈ measCells, c.earfcn = h.measobj.carrierFreq ∧ c.pci = h.measRes.pci ∧
    c.eci = h.targetEci

/-- The first neighbour with the reported PCI has the ECI of the one on the frequency of the
object, if the report leads to a cell of the object. -/
def Resolves (measCells : List MeasCellCfg) (v : VarMeasCfg) (r : MeasResults) : Prop :=
  ∀ measid obj strongest, findId measId v.measIdList.items r.measId = some measid →
    findId measObjId v.measObjList.items measid.measObjId = some obj →
      r.strongest = some strongest → (∃ e ∈ obj.cells, e.pci = strongest.pci) →
        ∀ c ∈ measCells, c.earfcn = obj.carrierFreq → c.pci = strongest.pci →
          ∀ first, (measCells.find? fun c => c.pci = strongest.pci) = some first →
            first.eci = c.eci

/-- Every cell of an object is a neighbour on the frequency of the object. -/
def Originates (n : NeighbourCfg) : Prop :=
  ∀ o ∈ n.cfg.measObjList.items, ∀ e ∈ o.cells,
    ∃ c ∈ n.added, c.earfcn = o.carrierFreq ∧ c.pci = e.pci

theorem Originates.addCell (hn : n.Originates) (c : MeasCellCfg) :
    (n.step (.addCell c)).Originates := by
  have hold : ∀ o ∈ n.cfg.measObjList.items, ∀ e ∈ o.cells,
      ∃ c' ∈ n.added ++ [c], c'.earfcn = o.carrierFreq ∧ c'.pci = e.pci := by
    intro o ho e he
    obtain ⟨c', hc', hrest⟩ := hn o ho e he
    exact ⟨c', List.mem_append_left _ hc', hrest⟩
  have hc : c ∈ n.added ++ [c] := List.mem_append_right _ List.mem_cons_self
  intro o ho e he
  simp only [step, VarMeasCfg.addCellCfg] at ho ⊢
  split at ho
  · next o₁ hfind =>
    have hfreq : o₁.carrierFreq = c.earfcn := by simpa using List.find?_some hfind
    rcases List.mem_or_eq_of_mem_set ho with ho | rfl
    · exact hold o ho e he
    · rcases mem_addCell he with rfl | he
      · exact ⟨c, hc, hfreq.symm, rfl⟩
      · exact hold o₁ (List.mem_of_find?_eq_some hfind) e he
  · rcases mem_pushSorted.mp ho with rfl | ho
    · rw [List.mem_singleton.mp he]
      exact ⟨c, hc, rfl, rfl⟩
    · exact hold o ho e he

theorem Originates.step (hn : n.Originates) (e : MeasCfgEvent) : (n.step e).Originates := by
  cases e with
  | addCell c => exact hn.addCell c
  | addReport r => exact hn
  | addMeasid objId repId =>
    rw [NeighbourCfg.step, VarMeasCfg.addMeasidCfg]
    split_ifs <;> exact hn
  | addQuant q => exact hn

theorem originates_foldl (events : List MeasCfgEvent) :
    (events.foldl step ⟨{}, []⟩).Originates :=
  (along_of_forall fun _ _ => trivial : EventRun.Along step (fun _ _ => True) _ events).invariant
    (fun _ e hn _ => hn.step e) (List.forall_mem_nil _)

theorem mem_of_findId {α : Type} {getId : α → ℕ} {l : List α} {id : ℕ} {a : α}
    (h : findId getId l id = some a) : a ∈ l ∧ getId a = id := by
  obtain ⟨i, hi, ha⟩ := Option.bind_eq_some_iff.mp h
  obtain ⟨b, hb, hid⟩ := binaryFind_eq_some hi
  rw [Option.some.inj (ha.symm.trans hb)]
  exact ⟨List.mem_of_getElem? hb, hid⟩

/-- The handover that is started goes to the reported neighbour exactly when the first neighbour
with its PCI has its ECI. -/
theorem targets_iff (events : List MeasCfgEvent) (measCells : List MeasCellCfg)
    (hbuilt : ∀ c ∈ (events.foldl step ⟨{}, []⟩).added, c ∈ measCells)
    (hunique : (measCells.map fun c => (c.earfcn, c.pci)).Nodup) (r : MeasResults) :
    (∀ busy h, handleUeMeasReport measCells (events.foldl step ⟨{}, []⟩).cfg busy r = some h →
        Targets measCells (events.foldl step ⟨{}, []⟩).cfg r h) ↔
      Resolves measCells (events.foldl step ⟨{}, []⟩).cfg r := by
  have horigin := originates_foldl events
  generalize events.foldl step ⟨{}, []⟩ = n at *
  constructor
  · rintro htargets measid obj strongest hmeasid hobj hstrongest ⟨e, he, hpci⟩ c hc hfreq hcpci
      first hfirst
    have hcell : (obj.cells.find? fun c => c.pci = strongest.pci).isSome :=
      List.find?_isSome.mpr ⟨e, he, decide_eq_true hpci⟩
    obtain ⟨cell, hcell⟩ := Option.isSome_iff_exists.mp hcell
    have htarget := htargets false ⟨measid, obj, _, cell, strongest, first.eci⟩ (by
      simp only [handleUeMeasReport, hmeasid, hstrongest, hobj, hcell, hfirst, Option.bind_eq_bind,
        Option.bind_some]
      rfl)
    obtain ⟨c', hc', hfreq', hpci', heci⟩ := htarget.target
    have heq := List.inj_on_of_nodup_map hunique hc' hc
      (Prod.ext (hfreq'.trans hfreq.symm) (hpci'.trans hcpci.symm))
    rw [← heq]
    exact heci.symm
  · intro hresolves busy h hstart
    simp only [handleUeMeasReport, Option.bind_eq_bind, Option.bind_eq_some_iff] at hstart
    obtain ⟨measid, hmeasid, strongest, hstrongest, obj, hobj, cell, hcell, first, hfirst,
      hstart⟩ := hstart
    split_ifs at hstart
    rw [← Option.some.inj hstart]
    have hmem := List.mem_of_find?_eq_some hcell
    have hpci : cell.pci = strongest.pci := by simpa using List.find?_some hcell
    obtain ⟨c, hc, hfreq, hcpci⟩ := horigin obj (mem_of_findId hobj).1 cell hmem
    refine ⟨mem_of_findId hmeasid, mem_of_findId hobj, hstrongest,
      c, hbuilt c hc, hfreq, hcpci.trans hpci, ?_⟩
    exact (hresolves measid obj strongest hmeasid hobj hstrongest ⟨cell, hmem, hpci⟩ c (hbuilt c hc)
      hfreq (hcpci.trans hpci) first hfirst).symm

/-- Two neighbours with the same PCI on two frequencies. -/
def samePci : List MeasCellCfg := [⟨3400, 7, 0x19B01, 0⟩, ⟨2850, 7, 0x19C02, 0⟩]

def samePciEvents : List MeasCfgEvent :=
  samePci.map .addCell ++
    [.addReport ⟨false, .periodical .reportStrongestCells, .rsrp, .both, 1, .ms120, .r1⟩,
      .addMeasid 1 1, .addMeasid 2 1]

/-- The report on the first frequency. -/
theorem targets_first :
    Resolves samePci (samePciEvents.foldl step ⟨{}, []⟩).cfg
        ⟨1, some (.measResultListEutra [⟨7, none, none⟩])⟩ ∧
      ∀ busy h, handleUeMeasReport samePci (samePciEvents.foldl step ⟨{}, []⟩).cfg busy
          ⟨1, some (.measResultListEutra [⟨7, none, none⟩])⟩ = some h →
        Targets samePci (samePciEvents.foldl step ⟨{}, []⟩).cfg
          ⟨1, some (.measResultListEutra [⟨7, none, none⟩])⟩ h := by
  have hfits : Resolves samePci (samePciEvents.foldl step ⟨{}, []⟩).cfg
      ⟨1, some (.measResultListEutra [⟨7, none, none⟩])⟩ := by
    intro measid obj strongest hmeasid hobj hstrongest _ c hc hfreq _ first hfirst
    have hobj' : obj.carrierFreq = 3400 := by
      have hall : ∀ m ∈ findId measId (samePciEvents.foldl step ⟨{}, []⟩).cfg.measIdList.items 1,
          ∀ o ∈ findId measObjId (samePciEvents.foldl step ⟨{}, []⟩).cfg.measObjList.items
            m.measObjId, o.carrierFreq = 3400 := by decide
      exact hall measid hmeasid obj hobj
    have hc' : ∀ c ∈ samePci, c.earfcn = 3400 → c.eci = 0x19B01 := by decide
    have hfirst' : ∀ f ∈ samePci.find? fun c => c.pci = 7, f.eci = 0x19B01 := by decide
    cases hstrongest
    rw [hfirst' first hfirst, hc' c hc (hfreq.trans hobj')]
  exact ⟨hfits, (targets_iff samePciEvents samePci (by decide) (by decide) _).mpr hfits⟩

/-- The report on the second frequency leads to the neighbour on the first. -/
theorem wrong_target :
    ¬ ∀ (events : List MeasCfgEvent) (measCells : List MeasCellCfg),
      (∀ c ∈ (events.foldl step ⟨{}, []⟩).added, c ∈ measCells) →
        (measCells.map fun c => (c.earfcn, c.pci)).Nodup →
          ∀ r busy h,
            handleUeMeasReport measCells (events.foldl step ⟨{}, []⟩).cfg busy r = some h →
              Targets measCells (events.foldl step ⟨{}, []⟩).cfg r h := by
  intro hall
  have hstart : (handleUeMeasReport samePci (samePciEvents.foldl step ⟨{}, []⟩).cfg false
      ⟨2, some (.measResultListEutra [⟨7, none, none⟩])⟩).map
        (fun h => (h.measobj.carrierFreq, h.targetEci)) = some (2850, 0x19B01) := by decide
  obtain ⟨h, hh, hpair⟩ := Option.map_eq_some_iff.mp hstart
  obtain ⟨c, hc, hfreq, -, heci⟩ :=
    (hall samePciEvents samePci (by decide) (by decide) _ false h hh).target
  have hne : ∀ c ∈ samePci, (c.earfcn, c.eci) ≠ (2850, 0x19B01) := by decide
  exact hne c hc ((Prod.ext hfreq heci).trans hpair)

end NeighbourCfg

end SrsLte
