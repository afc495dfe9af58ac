import Mathlib.Algebra.Order.Ring.Rat
import Mathlib.Data.List.Sort
import Mathlib.Data.Rat.Lemmas
import SrsLte.EventRun
import SrsLte.VarMeasCfg

/-!
# Neighbour cells in the measurement configuration

`var_meas_cfg_t` of the eNB: the cells of the configuration file, the reports and the measurement
identities are entered into sorted lists. An identity is the first gap in its list; a cell has the
low octet of its ECI.
-/

namespace SrsLte

open KeyedList
open EventRun (Along forall_prefix_iff along_congr)

/-- `std::lower_bound` by the identity. -/
def lowerBound {α : Type} (getId : α → ℕ) (l : List α) (id : ℕ) : ℕ :=
  l.findIdx fun a => !(getId a < id)

/-- `push_back` and `std::sort` by the identity. -/
def pushSorted {α : Type} (getId : α → ℕ) (l : List α) (a : α) : List α :=
  (l ++ [a]).insertionSort fun a b => getId a ≤ getId b

/-- The loop of `find_id_gap`: the identity before the gap. -/
def gapLoop (prev : ℕ) : List ℕ → ℕ
  | [] => prev
  | id :: ids => if id > prev + 1 then prev else gapLoop id ids

/-- `find_id_gap`, "starts at 1". Only a list that has 1 is searched. -/
def findIdGap : List ℕ → ℕ
  | [] => 1
  | id :: ids => ((if id = 1 then gapLoop 1 ids else id) + 1) % 2 ^ 8

/-- Identities in the order of the list, from 1 to 32. -/
def Ids (ids : List ℕ) : Prop := ids.Pairwise (· < ·) ∧ ∀ id ∈ ids, 1 ≤ id ∧ id ≤ 32

/-- The search finds an identity that is free. -/
def HasGap : List ℕ → Prop
  | [] => True
  | id :: ids => if id = 1 then ids.length + 1 < 32 else id < 32 ∧ id + 1 ∉ ids

section Ids

variable {α : Type} {getId : α → ℕ} {l : List α} {a : α} {id : ℕ}

theorem length_add_le {prev : ℕ} {ids : List ℕ} (hsorted : (prev :: ids).Pairwise (· < ·))
    (hle : ∀ i ∈ prev :: ids, i ≤ 32) : prev + ids.length ≤ 32 := by
  induction ids generalizing prev with
  | nil => exact hle prev List.mem_cons_self
  | cons i ids ih =>
    obtain ⟨hprev, hids⟩ := List.pairwise_cons.mp hsorted
    have hi := ih hids (List.forall_mem_cons.mp hle).2
    have hlt := hprev i List.mem_cons_self
    rw [List.length_cons]
    omega

theorem gapLoop_spec {prev : ℕ} {ids : List ℕ} (hsorted : (prev :: ids).Pairwise (· < ·))
    (hle : ∀ i ∈ prev :: ids, i ≤ 32) :
    prev ≤ gapLoop prev ids ∧ gapLoop prev ids ≤ 32 ∧ gapLoop prev ids + 1 ∉ prev :: ids ∧
      (gapLoop prev ids < 32 ↔ prev + ids.length < 32) := by
  induction ids generalizing prev with
  | nil => exact ⟨le_rfl, hle prev List.mem_cons_self, by simp [gapLoop], Iff.rfl⟩
  | cons i ids ih =>
    obtain ⟨hprev, hids⟩ := List.pairwise_cons.mp hsorted
    have hlt := hprev i List.mem_cons_self
    obtain ⟨hprevLe, hle'⟩ := List.forall_mem_cons.mp hle
    rw [gapLoop, List.length_cons]
    split_ifs with hgap
    · have hlength := length_add_le hids hle'
      refine ⟨le_rfl, hprevLe, ?_, by omega⟩
      rw [List.mem_cons, List.mem_cons]
      rintro (heq | heq | hmem)
      · omega
      · omega
      · have := (List.pairwise_cons.mp hids).1 _ hmem
        omega
    · obtain ⟨hge, h32, hfree, hiff⟩ := ih hids hle'
      refine ⟨by omega, h32, ?_, by omega⟩
      rw [List.mem_cons]
      rintro (heq | hmem)
      · omega
      · exact hfree hmem

theorem findIdGap_free_iff {ids : List ℕ} (hids : Ids ids) :
    findIdGap ids ∉ ids ∧ 1 ≤ findIdGap ids ∧ findIdGap ids ≤ 32 ↔ HasGap ids := by
  cases ids with
  | nil => simp [findIdGap, HasGap]
  | cons i ids =>
    obtain ⟨hpos, hi⟩ := hids.2 i List.mem_cons_self
    rw [findIdGap, HasGap]
    split_ifs with hone
    · subst hone
      obtain ⟨-, h32, hfree, hiff⟩ := gapLoop_spec hids.1 fun j hj => (hids.2 j hj).2
      rw [Nat.mod_eq_of_lt (by omega)]
      refine ⟨fun h => by omega, fun h => ⟨hfree, by omega, by omega⟩⟩
    · rw [Nat.mod_eq_of_lt (by omega), List.mem_cons]
      constructor
      · rintro ⟨hfree, -, hle⟩
        exact ⟨by omega, fun hmem => hfree (Or.inr hmem)⟩
      · rintro ⟨hlt, hfree⟩
        refine ⟨?_, by omega, by omega⟩
        rintro (heq | hmem)
        · omega
        · exact hfree hmem

theorem pushSorted_perm (getId : α → ℕ) (l : List α) (a : α) :
    (pushSorted getId l a).Perm (a :: l) :=
  (List.perm_insertionSort _ _).trans (List.perm_append_singleton _ _)

theorem mem_pushSorted {b : α} : b ∈ pushSorted getId l a ↔ b = a ∨ b ∈ l :=
  (pushSorted_perm getId l a).mem_iff.trans List.mem_cons

theorem pushSorted_pairwise (getId : α → ℕ) (l : List α) (a : α) :
    (pushSorted getId l a).Pairwise fun a b => getId a ≤ getId b :=
  haveI : Std.Total fun a b : α => getId a ≤ getId b := ⟨fun _ _ => le_total _ _⟩
  haveI : IsTrans α fun a b => getId a ≤ getId b := ⟨fun _ _ _ => le_trans⟩
  List.pairwise_insertionSort _ _

theorem ids_pushSorted_iff (hl : Ids (l.map getId)) :
    Ids ((pushSorted getId l a).map getId) ↔
      getId a ∉ l.map getId ∧ 1 ≤ getId a ∧ getId a ≤ 32 := by
  have hperm := (pushSorted_perm getId l a).map getId
  have hnodup : ((pushSorted getId l a).map getId).Nodup ↔
      getId a ∉ l.map getId ∧ (l.map getId).Nodup := by
    rw [hperm.nodup_iff, List.map_cons, List.nodup_cons]
  constructor
  · rintro ⟨hsorted, hrange⟩
    exact ⟨(hnodup.mp (hsorted.imp ne_of_lt)).1,
      hrange _ (hperm.mem_iff.mpr List.mem_cons_self)⟩
  · rintro ⟨hfree, hrange⟩
    have hle := List.pairwise_map.mpr (pushSorted_pairwise getId l a)
    have hne := hnodup.mpr ⟨hfree, hl.1.imp ne_of_lt⟩
    refine ⟨(hle.and hne).imp fun h => lt_of_le_of_ne h.1 h.2, fun i hi => ?_⟩
    rcases List.mem_cons.mp (hperm.mem_iff.mp hi) with rfl | hi
    · exact hrange
    · exact hl.2 i hi

theorem ids_push_gap_iff (hl : Ids (l.map getId)) (ha : getId a = findIdGap (l.map getId)) :
    Ids ((pushSorted getId l a).map getId) ↔ HasGap (l.map getId) := by
  rw [ids_pushSorted_iff hl, ha]
  exact findIdGap_free_iff hl

theorem binaryFind_eq_some {i : ℕ} (h : binaryFind getId l id = some i) :
    ∃ a, l[i]? = some a ∧ getId a = id := by
  unfold binaryFind at h
  dsimp only at h
  split at h
  · next a ha =>
    split_ifs at h with hid
    rw [← Option.some.inj h]
    exact ⟨a, ha, hid⟩
  · exact absurd h (Option.some_ne_none _).symm

theorem ne_of_binaryFind (hl : Sorted getId l) (h : binaryFind getId l id = none) :
    ∀ a ∈ l, getId a ≠ id := by
  intro a ha heq
  obtain ⟨l₁, l₂, rfl⟩ := List.append_of_mem ha
  have hbefore := (List.pairwise_append.mp hl).2.2
  have hidx : ((l₁ ++ a :: l₂).findIdx fun a => !(getId a < id)) = l₁.length := by
    rw [List.findIdx_append, List.findIdx_eq_length_of_false, if_neg (lt_irrefl _),
      List.findIdx_cons]
    · simp [heq]
    · intro b hb
      simpa [← heq] using hbefore b hb a List.mem_cons_self
  simp [binaryFind, hidx, heq] at h

end Ids

/-- `meas_cell_cfg_t`. -/
structure MeasCellCfg where
  earfcn : ℕ
  pci : ℕ
  eci : ℕ
  qOffset : ℚ
  deriving DecidableEq

/-- `eci_to_cellid`. -/
def eciToCellid (eci : ℕ) : ℕ := eci &&& 0xFF

/-- `number_to_enum`: the last option is left when none has the number. -/
def QOffsetRange.numberToEnum (val : ℚ) : QOffsetRange :=
  (((List.range 31).map QOffsetRange.ofNat).find? fun e => (e.toNumber : ℚ) = val).getD .db24

namespace MeasCellCfg

/-- The cell that `add_cell_cfg` enters. The offset loses its fraction. -/
def newCell (c : MeasCellCfg) : CellsToAddMod where
  cellIdx := eciToCellid c.eci
  pci := c.pci
  cellIndividualOffset := .numberToEnum (c.qOffset.num.tdiv c.qOffset.den : ℤ)

/-- The object of a frequency that has none. -/
def newObj (c : MeasCellCfg) (measObjId : ℕ) : MeasObjToAddMod where
  measObjId := measObjId
  measObj :=
    { carrierFreq := c.earfcn
      allowedMeasBw := .mbw6
      neighCellCfg := 1
      presenceAntPort1 := false
      offsetFreq := some (.numberToEnum c.qOffset)
      cellsToAddModList := ⟨true, [c.newCell]⟩ }

end MeasCellCfg

namespace MeasObjToAddMod

def carrierFreq (o : MeasObjToAddMod) : ℕ := o.measObj.carrierFreq

def cells (o : MeasObjToAddMod) : List CellsToAddMod := o.measObj.cellsToAddModList.items

def withCells (o : MeasObjToAddMod) (cells : List CellsToAddMod) : MeasObjToAddMod :=
  { o with
    measObj :=
      { o.measObj with
        cellsToAddModList := { o.measObj.cellsToAddModList with items := cells } } }

end MeasObjToAddMod

open MeasObjToAddMod (measObjId carrierFreq cells withCells)
open CellsToAddMod (cellIdx)
open ReportCfgToAddMod (reportCfgId)
open MeasIdToAddMod (measId)

/-- `add_cell_cfg` in an object of the frequency: the cells, whether one of them is new or updated,
and the position of the cell. -/
def addCell (cells : List CellsToAddMod) (newCell : CellsToAddMod) :
    List CellsToAddMod × Bool × ℕ :=
  match binaryFind cellIdx cells newCell.cellIdx with
  | some it =>
    if cells[it]?.any fun cell =>
        cell.pci != newCell.pci || cell.cellIndividualOffset != newCell.cellIndividualOffset then
      (cells.set it newCell, true, it)
    else (cells, false, it)
  | none =>
    let cells := pushSorted cellIdx cells newCell
    (cells, true, lowerBound cellIdx cells newCell.cellIdx)

namespace VarMeasCfg

/-- With the flag and the positions of the object and of the cell that are returned. -/
def addCellCfg (v : VarMeasCfg) (cellcfg : MeasCellCfg) : VarMeasCfg × Bool × ℕ × ℕ :=
  let l := v.measObjList.items
  match l.find? fun o => o.carrierFreq = cellcfg.earfcn with
  | some o =>
    let i := l.findIdx fun o => o.carrierFreq = cellcfg.earfcn
    let (cells, inserted, j) := addCell o.cells cellcfg.newCell
    ({ v with measObjList := ⟨v.measObjList.present || inserted, l.set i (o.withCells cells)⟩ },
      inserted, i, j)
  | none =>
    let newObj := cellcfg.newObj (findIdGap (l.map measObjId))
    let l := pushSorted measObjId l newObj
    let i := lowerBound measObjId l newObj.measObjId
    ({ v with measObjList := ⟨true, l⟩ }, true, i, (l[i]?.elim [] cells).length - 1)

/-- With the position of the report that is returned. -/
def addReportCfg (v : VarMeasCfg) (reportcfg : ReportCfgEutra) : VarMeasCfg × ℕ :=
  let newRep := ⟨findIdGap (v.reportCfgList.items.map reportCfgId), reportcfg⟩
  let l := pushSorted reportCfgId v.reportCfgList.items newRep
  ({ v with reportCfgList := ⟨true, l⟩ }, lowerBound reportCfgId l newRep.reportCfgId)

/-- With the position of the identity that is returned, unless the object or the report "is not
found". -/
def addMeasidCfg (v : VarMeasCfg) (measobjid measrepid : ℕ) : VarMeasCfg × Option ℕ :=
  if (binaryFind measObjId v.measObjList.items measobjid).isNone then (v, none)
  else if (binaryFind reportCfgId v.reportCfgList.items measrepid).isNone then (v, none)
  else
    let newMeasid := ⟨findIdGap (v.measIdList.items.map measId), measobjid, measrepid⟩
    let l := pushSorted measId v.measIdList.items newMeasid
    ({ v with measIdList := ⟨true, l⟩ }, some (lowerBound measId l newMeasid.measId))

def addQuantCfg (v : VarMeasCfg) (quantcfg : QuantCfgEutra) : VarMeasCfg :=
  { v with
    quantCfg := some
      { v.quantCfg.getD {} with quantCfgEutraPresent := true, quantCfgEutra := quantcfg } }

end VarMeasCfg

inductive MeasCfgEvent
  | addCell (cellcfg : MeasCellCfg)
  | addReport (reportcfg : ReportCfgEutra)
  | addMeasid (measobjid measrepid : ℕ)
  | addQuant (quantcfg : QuantCfgEutra)

/-- A configuration and the cells that have been added to it. -/
structure NeighbourCfg where
  cfg : VarMeasCfg
  added : List MeasCellCfg := []

namespace NeighbourCfg

def step (n : NeighbourCfg) : MeasCfgEvent → NeighbourCfg
  | .addCell c => ⟨(n.cfg.addCellCfg c).1, n.added ++ [c]⟩
  | .addReport r => { n with cfg := (n.cfg.addReportCfg r).1 }
  | .addMeasid objId repId => { n with cfg := (n.cfg.addMeasidCfg objId repId).1 }
  | .addQuant q => { n with cfg := n.cfg.addQuantCfg q }

/-- The cell has an entry of its own in an object of its frequency. -/
def Entered (l : List MeasObjToAddMod) (c : MeasCellCfg) : Prop :=
  ∃ o ∈ l, o.carrierFreq = c.earfcn ∧
    ∃ e ∈ o.cells, e.cellIdx = eciToCellid c.eci ∧ e.pci = c.pci ∧
      (e.cellIndividualOffset.toNumber : ℚ) = c.qOffset

structure Sound (n : NeighbourCfg) : Prop where
  frequencies : (n.cfg.measObjList.items.map carrierFreq).Nodup
  entered : ∀ c ∈ n.added, Entered n.cfg.measObjList.items c
  objects : Ids (n.cfg.measObjList.items.map measObjId)
  cells : ∀ o ∈ n.cfg.measObjList.items, Ids (o.cells.map cellIdx)
  reports : Ids (n.cfg.reportCfgList.items.map reportCfgId)
  measIds : Ids (n.cfg.measIdList.items.map measId)

structure FitsCell (n : NeighbourCfg) (c : MeasCellCfg) : Prop where
  offset : ∃ e : QOffsetRange, (e.toNumber : ℚ) = c.qOffset
  cellid : 1 ≤ eciToCellid c.eci ∧ eciToCellid c.eci ≤ 32
  alone : ∀ c' ∈ n.added, c'.earfcn = c.earfcn → eciToCellid c'.eci = eciToCellid c.eci →
    c'.pci = c.pci ∧ c'.qOffset = c.qOffset
  object : c.earfcn ∉ n.cfg.measObjList.items.map carrierFreq →
    HasGap (n.cfg.measObjList.items.map measObjId)

def Fits (n : NeighbourCfg) : MeasCfgEvent → Prop
  | .addCell c => n.FitsCell c
  | .addReport _ => HasGap (n.cfg.reportCfgList.items.map reportCfgId)
  | .addMeasid objId repId =>
    objId ∈ n.cfg.measObjList.items.map measObjId →
      repId ∈ n.cfg.reportCfgList.items.map reportCfgId →
        HasGap (n.cfg.measIdList.items.map measId)
  | .addQuant _ => True

end NeighbourCfg

open MeasCellCfg (newCell newObj)

theorem QOffsetRange.toNumber_numberToEnum (e : QOffsetRange) :
    (numberToEnum e.toNumber).toNumber = e.toNumber := by
  have hsome : (((List.range 31).map QOffsetRange.ofNat).find? fun e' =>
      (e'.toNumber : ℚ) = e.toNumber).isSome := by
    rw [List.find?_isSome]
    refine ⟨e, ?_, decide_eq_true rfl⟩
    cases e <;> decide
  obtain ⟨e', he'⟩ := Option.isSome_iff_exists.mp hsome
  have heq : (e'.toNumber : ℚ) = e.toNumber := by simpa using List.find?_some he'
  rw [numberToEnum, he', Option.getD_some]
  exact_mod_cast heq

theorem MeasCellCfg.newCell_offset_iff (c : MeasCellCfg) :
    (c.newCell.cellIndividualOffset.toNumber : ℚ) = c.qOffset ↔
      ∃ e : QOffsetRange, (e.toNumber : ℚ) = c.qOffset := by
  refine ⟨fun h => ⟨_, h⟩, ?_⟩
  rintro ⟨e, he⟩
  rw [newCell, ← he]
  simp only [Rat.num_intCast, Rat.den_intCast, Nat.cast_one, Int.tdiv_one]
  rw [QOffsetRange.toNumber_numberToEnum]

section AddCell

variable {cells : List CellsToAddMod} {new : CellsToAddMod}

theorem mem_addCell {e : CellsToAddMod} (he : e ∈ (addCell cells new).1) : e = new ∨ e ∈ cells := by
  unfold addCell at he
  split at he
  · split_ifs at he
    · exact (List.mem_or_eq_of_mem_set he).symm
    · exact Or.inr he
  · exact mem_pushSorted.mp he

/-- What replaces a cell or leaves it has the index of the cell. -/
theorem addCell_of_found {it : ℕ} (h : binaryFind cellIdx cells new.cellIdx = some it) :
    ∃ l₁ old l₂, cells = l₁ ++ old :: l₂ ∧ old.cellIdx = new.cellIdx ∧
      (addCell cells new).1 = l₁ ++ new :: l₂ := by
  obtain ⟨old, hold, hidx⟩ := binaryFind_eq_some h
  obtain ⟨hlt, hget⟩ := List.getElem?_eq_some_iff.mp hold
  have hsplit : cells = cells.take it ++ old :: cells.drop (it + 1) := by
    rw [← hget, List.getElem_cons_drop, List.take_append_drop]
  have hset : cells.set it new = cells.take it ++ new :: cells.drop (it + 1) :=
    List.set_eq_take_append_cons_drop.trans (if_pos hlt)
  refine ⟨_, old, _, hsplit, hidx, ?_⟩
  simp only [addCell, h, hold, Option.any_some]
  split_ifs with hnew
  · exact hset
  · have heq : old = new := by
      obtain ⟨i, p, q⟩ := old
      obtain ⟨i', p', q'⟩ := new
      simp only [Bool.or_eq_true, bne_iff_ne, not_or, not_not] at hnew hidx
      rw [hidx, hnew.1, hnew.2]
    rw [← heq]
    exact hsplit

theorem addCell_spec (hcells : Ids (cells.map cellIdx)) :
    (Ids ((addCell cells new).1.map cellIdx) ↔ 1 ≤ new.cellIdx ∧ new.cellIdx ≤ 32) ∧
      ∀ e, e ∈ (addCell cells new).1 ↔ e = new ∨ e ∈ cells ∧ e.cellIdx ≠ new.cellIdx := by
  have hsorted : Sorted cellIdx cells := List.pairwise_map.mp hcells.1
  cases hfind : binaryFind cellIdx cells new.cellIdx with
  | some it =>
    obtain ⟨l₁, old, l₂, rfl, hidx, hnew⟩ := addCell_of_found hfind
    have hmap : (addCell (l₁ ++ old :: l₂) new).1.map cellIdx = (l₁ ++ old :: l₂).map cellIdx := by
      rw [hnew, List.map_append, List.map_append, List.map_cons, List.map_cons, hidx]
    have hmem : old ∈ l₁ ++ old :: l₂ := List.mem_append_right _ List.mem_cons_self
    constructor
    · rw [hmap]
      exact iff_of_true hcells (hidx ▸ hcells.2 _ (List.mem_map_of_mem hmem))
    · intro e
      obtain ⟨-, hright, hleft⟩ := List.pairwise_append.mp hsorted
      have hlt₁ : ∀ e ∈ l₁, e.cellIdx < old.cellIdx := fun e he => hleft e he _ List.mem_cons_self
      have hlt₂ := (List.pairwise_cons.mp hright).1
      rw [hnew, ← hidx]
      simp only [List.mem_append, List.mem_cons]
      constructor
      · rintro (he | rfl | he)
        · exact Or.inr ⟨Or.inl he, (hlt₁ e he).ne⟩
        · exact Or.inl rfl
        · exact Or.inr ⟨Or.inr (Or.inr he), (hlt₂ e he).ne'⟩
      · rintro (rfl | ⟨he | rfl | he, hne⟩)
        · exact Or.inr (Or.inl rfl)
        · exact Or.inl he
        · exact absurd rfl hne
        · exact Or.inr (Or.inr he)
  | none =>
    have hne := ne_of_binaryFind hsorted hfind
    have hadd : (addCell cells new).1 = pushSorted cellIdx cells new := by
      rw [addCell, hfind]
    rw [hadd]
    constructor
    · rw [ids_pushSorted_iff hcells]
      refine and_iff_right fun hmem => ?_
      obtain ⟨e, he, heq⟩ := List.mem_map.mp hmem
      exact hne e he heq
    · intro e
      rw [mem_pushSorted]
      exact or_congr_right ⟨fun he => ⟨he, hne e he⟩, And.left⟩

end AddCell

namespace NeighbourCfg

variable {n : NeighbourCfg} {l l' : List MeasObjToAddMod} {c : MeasCellCfg} {o' : MeasObjToAddMod}

/-- `o'` is the object of the frequency after a cell has been added. -/
structure Adds (l : List MeasObjToAddMod) (c : MeasCellCfg) (l' : List MeasObjToAddMod)
    (o' : MeasObjToAddMod) : Prop where
  carrierFreq : o'.carrierFreq = c.earfcn
  mem : ∀ o, o ∈ l' ↔ o = o' ∨ o ∈ l ∧ o.carrierFreq ≠ c.earfcn
  frequencies : (l'.map MeasObjToAddMod.carrierFreq).Nodup
  objects : Ids (l'.map measObjId) ↔
    (c.earfcn ∉ l.map MeasObjToAddMod.carrierFreq → HasGap (l.map measObjId))
  memCells : ∀ e, e ∈ o'.cells ↔ e = c.newCell ∨
    (∃ o ∈ l, o.carrierFreq = c.earfcn ∧ e ∈ o.cells) ∧ e.cellIdx ≠ eciToCellid c.eci
  cells : Ids (o'.cells.map cellIdx) ↔ 1 ≤ eciToCellid c.eci ∧ eciToCellid c.eci ≤ 32

theorem Sound.adds (hn : n.Sound) (c : MeasCellCfg) :
    ∃ o', Adds n.cfg.measObjList.items c (n.cfg.addCellCfg c).1.measObjList.items o' := by
  have hfreqs := hn.frequencies
  have hids := hn.objects
  cases hfind : n.cfg.measObjList.items.find? fun o => o.carrierFreq = c.earfcn with
  | some o =>
    have hfreq : o.carrierFreq = c.earfcn := by simpa using List.find?_some hfind
    have hmem := List.mem_of_find?_eq_some hfind
    obtain ⟨-, l₁, l₂, hl, hbefore⟩ := List.find?_eq_some_iff_append.mp hfind
    have hidx : (n.cfg.measObjList.items.findIdx fun o => o.carrierFreq = c.earfcn) =
        l₁.length := by
      rw [hl, List.findIdx_append, List.findIdx_eq_length_of_false, if_neg (lt_irrefl _),
        List.findIdx_cons]
      · simp [hfreq]
      · simpa using hbefore
    obtain ⟨hcells, hmemCells⟩ := addCell_spec  (hn.cells o hmem)
    have hitems : (n.cfg.addCellCfg c).1.measObjList.items =
        l₁ ++ o.withCells (addCell o.cells c.newCell).1 :: l₂ := by
      simp only [VarMeasCfg.addCellCfg, hfind]
      rw [hidx, hl]
      simp
    rw [hitems]
    rw [hl] at hfreqs hids ⊢
    have hne : ∀ o₂ ∈ l₁ ++ l₂, o₂.carrierFreq ≠ c.earfcn := by
      intro o₂ ho₂ heq
      have hnodup := (List.perm_middle.map carrierFreq).nodup_iff.mp hfreqs
      exact (List.nodup_cons.mp hnodup).1 (List.mem_map.mpr ⟨o₂, ho₂, heq.trans hfreq.symm⟩)
    refine ⟨o.withCells (addCell o.cells c.newCell).1, hfreq, fun o₂ => ?_, ?_, ?_, fun e => ?_,
      hcells⟩
    · rw [List.perm_middle.mem_iff, List.mem_cons, List.perm_middle.mem_iff, List.mem_cons]
      refine or_congr_right ⟨fun h => ⟨Or.inr h, hne o₂ h⟩, ?_⟩
      rintro ⟨rfl | h, hneq⟩
      · exact absurd hfreq hneq
      · exact h
    · have hmap : (l₁ ++ o.withCells (addCell o.cells c.newCell).1 :: l₂).map carrierFreq =
          (l₁ ++ o :: l₂).map carrierFreq := by
        rw [List.map_append, List.map_append, List.map_cons, List.map_cons]
        rfl
      rw [hmap]
      exact hfreqs
    · have hmap : (l₁ ++ o.withCells (addCell o.cells c.newCell).1 :: l₂).map measObjId =
          (l₁ ++ o :: l₂).map measObjId := by
        rw [List.map_append, List.map_append, List.map_cons, List.map_cons]
        rfl
      rw [hmap]
      exact iff_of_true hids fun hfree => absurd (List.mem_map.mpr ⟨o, hl ▸ hmem, hfreq⟩) hfree
    · refine (hmemCells e).trans (or_congr_right (and_congr_left' ⟨fun he => ?_, ?_⟩))
      · exact ⟨o, hl ▸ hmem, hfreq, he⟩
      · rintro ⟨o₂, ho₂, hfreq₂, he⟩
        rw [List.perm_middle.mem_iff, List.mem_cons] at ho₂
        rcases ho₂ with rfl | ho₂
        · exact he
        · exact absurd hfreq₂ (hne o₂ ho₂)
  | none =>
    have hne : ∀ o ∈ n.cfg.measObjList.items, o.carrierFreq ≠ c.earfcn := by
      simpa using List.find?_eq_none.mp hfind
    have hfree : c.earfcn ∉ n.cfg.measObjList.items.map carrierFreq := fun h => by
      obtain ⟨o, ho, hfreq⟩ := List.mem_map.mp h
      exact hne o ho hfreq
    have hitems : (n.cfg.addCellCfg c).1.measObjList.items =
        pushSorted measObjId n.cfg.measObjList.items
          (c.newObj (findIdGap (n.cfg.measObjList.items.map measObjId))) := by
      simp only [VarMeasCfg.addCellCfg, hfind]
    rw [hitems]
    refine ⟨c.newObj (findIdGap (n.cfg.measObjList.items.map measObjId)), rfl, fun o => ?_, ?_, ?_,
      fun e => ?_, ?_⟩
    · rw [mem_pushSorted]
      exact or_congr_right ⟨fun ho => ⟨ho, hne o ho⟩, And.left⟩
    · rw [((pushSorted_perm _ _ _).map carrierFreq).nodup_iff, List.map_cons, List.nodup_cons]
      exact ⟨hfree, hfreqs⟩
    · exact (ids_push_gap_iff hids rfl).trans ⟨fun h _ => h, fun h => h hfree⟩
    · refine List.mem_singleton.trans (or_iff_left ?_).symm
      rintro ⟨⟨o, ho, hfreq, -⟩, -⟩
      exact hne o ho hfreq
    · change Ids [eciToCellid c.eci] ↔ _
      simp [Ids]

/-- The entries of the frequency are those of the object, and the others stay. -/
theorem Adds.entered_iff (h : Adds l c l' o') (c' : MeasCellCfg) :
    Entered l' c' ↔
      if c'.earfcn = c.earfcn then
        ∃ e ∈ o'.cells, e.cellIdx = eciToCellid c'.eci ∧ e.pci = c'.pci ∧
          (e.cellIndividualOffset.toNumber : ℚ) = c'.qOffset
      else Entered l c' := by
  split_ifs with hfreq
  · constructor
    · rintro ⟨o, ho, ho', he⟩
      rcases (h.mem o).mp ho with rfl | ⟨-, hne⟩
      · exact he
      · exact absurd (ho'.trans hfreq) hne
    · exact fun he => ⟨o', (h.mem o').mpr (Or.inl rfl), h.carrierFreq.trans hfreq.symm, he⟩
  · refine exists_congr fun o => ?_
    rw [h.mem, ← and_assoc, ← and_assoc]
    refine and_congr_left' ⟨?_, ?_⟩
    · rintro ⟨rfl | ⟨ho, -⟩, ho'⟩
      · exact absurd (ho'.symm.trans h.carrierFreq) hfreq
      · exact ⟨ho, ho'⟩
    · rintro ⟨ho, ho'⟩
      exact ⟨Or.inr ⟨ho, fun heq => hfreq (ho'.symm.trans heq)⟩, ho'⟩

theorem addCellCfg_frame (v : VarMeasCfg) (c : MeasCellCfg) :
    v.reportCfgList = (v.addCellCfg c).1.reportCfgList ∧
      v.measIdList = (v.addCellCfg c).1.measIdList := by
  unfold VarMeasCfg.addCellCfg
  dsimp only
  split <;> exact ⟨rfl, rfl⟩

theorem Sound.addCell_iff (hn : n.Sound) (c : MeasCellCfg) :
    (n.step (.addCell c)).Sound ↔ n.FitsCell c := by
  obtain ⟨o', h⟩ := hn.adds c
  have hnew : c.newCell ∈ o'.cells := (h.memCells _).mpr (Or.inl rfl)
  have hidx : ∀ e ∈ o'.cells, e.cellIdx = eciToCellid c.eci → e = c.newCell := fun e he heq =>
    ((h.memCells e).mp he).resolve_right fun he => he.2 heq
  constructor
  · intro hs
    have hoffset : (c.newCell.cellIndividualOffset.toNumber : ℚ) = c.qOffset := by
      have hc := hs.entered c (List.mem_append_right _ List.mem_cons_self)
      rw [step, h.entered_iff, if_pos rfl] at hc
      obtain ⟨e, he, heidx, -, hoffset⟩ := hc
      rw [← hidx e he heidx]
      exact hoffset
    refine ⟨c.newCell_offset_iff.mp hoffset,
      h.cells.mp (hs.cells o' ((h.mem o').mpr (Or.inl rfl))), fun c' hc' hfreq hcell => ?_,
      h.objects.mp hs.objects⟩
    have hentered := hs.entered c' (List.mem_append_left _ hc')
    rw [step, h.entered_iff, if_pos hfreq] at hentered
    obtain ⟨e, he, heidx, hpci, hoffset'⟩ := hentered
    rw [hidx e he (heidx.trans hcell)] at hpci hoffset'
    exact ⟨hpci.symm, hoffset'.symm.trans hoffset⟩
  · intro hfits
    have hoffset := c.newCell_offset_iff.mpr hfits.offset
    obtain ⟨hreports, hmeasIds⟩ := addCellCfg_frame n.cfg c
    have hown : ∃ e ∈ o'.cells, e.cellIdx = eciToCellid c.eci ∧ e.pci = c.pci ∧
        (e.cellIndividualOffset.toNumber : ℚ) = c.qOffset := ⟨_, hnew, rfl, rfl, hoffset⟩
    refine ⟨h.frequencies, fun c' hc' => ?_, h.objects.mpr hfits.object, fun o ho => ?_,
      hreports ▸ hn.reports, hmeasIds ▸ hn.measIds⟩
    · rw [step, h.entered_iff]
      split_ifs with hfreq
      · rcases List.mem_append.mp hc' with hc' | hc'
        · by_cases hcell : eciToCellid c'.eci = eciToCellid c.eci
          · obtain ⟨hpci, hq⟩ := hfits.alone c' hc' hfreq hcell
            rw [hcell, hpci, hq]
            exact hown
          · obtain ⟨o, ho, hfreq', e, he, heidx, hrest⟩ := hn.entered c' hc'
            exact ⟨e, (h.memCells e).mpr (Or.inr ⟨⟨o, ho, hfreq'.trans hfreq, he⟩,
              heidx.trans_ne hcell⟩), heidx, hrest⟩
        · rw [List.mem_singleton.mp hc']
          exact hown
      · refine hn.entered c' ((List.mem_append.mp hc').resolve_right fun hc' => ?_)
        exact hfreq (congrArg MeasCellCfg.earfcn (List.mem_singleton.mp hc'))
    · rcases (h.mem o).mp ho with rfl | ⟨ho, -⟩
      · exact h.cells.mpr hfits.cellid
      · exact hn.cells o ho

theorem binaryFind_isNone_iff {α : Type} {getId : α → ℕ} {l : List α} {id : ℕ}
    (hl : Ids (l.map getId)) : (binaryFind getId l id).isNone ↔ id ∉ l.map getId := by
  rw [Option.isNone_iff_eq_none]
  constructor
  · intro h hmem
    obtain ⟨a, ha, heq⟩ := List.mem_map.mp hmem
    exact ne_of_binaryFind (List.pairwise_map.mp hl.1) h a ha heq
  · intro h
    cases hfind : binaryFind getId l id with
    | none => rfl
    | some i =>
      obtain ⟨a, ha, heq⟩ := binaryFind_eq_some hfind
      exact absurd (List.mem_map.mpr ⟨a, List.mem_of_getElem? ha, heq⟩) h

theorem Sound.step_iff (hn : n.Sound) (e : MeasCfgEvent) : (n.step e).Sound ↔ n.Fits e := by
  cases e with
  | addCell c => exact hn.addCell_iff c
  | addReport r =>
    have hreports := ids_push_gap_iff (a := ⟨findIdGap _, r⟩) hn.reports rfl
    exact ⟨fun h => hreports.mp h.reports, fun h =>
      ⟨hn.frequencies, hn.entered, hn.objects, hn.cells, hreports.mpr h, hn.measIds⟩⟩
  | addMeasid objId repId =>
    rw [step, VarMeasCfg.addMeasidCfg, Fits]
    split_ifs with hobj hrep
    · exact iff_of_true hn fun h => absurd h ((binaryFind_isNone_iff hn.objects).mp hobj)
    · exact iff_of_true hn fun _ h => absurd h ((binaryFind_isNone_iff hn.reports).mp hrep)
    · have hmeasIds := ids_push_gap_iff (a := ⟨findIdGap _, objId, repId⟩) hn.measIds rfl
      rw [binaryFind_isNone_iff hn.objects, not_not] at hobj
      rw [binaryFind_isNone_iff hn.reports, not_not] at hrep
      exact ⟨fun h _ _ => hmeasIds.mp h.measIds, fun h =>
        ⟨hn.frequencies, hn.entered, hn.objects, hn.cells, hn.reports,
          hmeasIds.mpr (h hobj hrep)⟩⟩
  | addQuant q =>
    exact iff_of_true
      ⟨hn.frequencies, hn.entered, hn.objects, hn.cells, hn.reports, hn.measIds⟩ trivial

/-- The configuration stays sound, and no cell is lost, exactly when it is sound at the start and
each entry fits. -/
theorem cells_kept_iff (cfg : VarMeasCfg) (events : List MeasCfgEvent) :
    (∀ pre, pre <+: events → (pre.foldl step ⟨cfg, []⟩).Sound) ↔
      Sound ⟨cfg, []⟩ ∧ Along step Fits ⟨cfg, []⟩ events := by
  rw [forall_prefix_iff]
  refine and_congr_right fun hs => ?_
  exact along_congr (fun _ _ _ h => h) (fun _ e hn => hn.step_iff e) hs

/-- Two cells of one frequency whose ECIs have the same low octet: the second replaces the
first. -/
theorem cell_replaced :
    ¬ ∀ (cfg : VarMeasCfg) (cells : List MeasCellCfg), Sound ⟨cfg, []⟩ →
      (cells.map fun c => (c.earfcn, c.pci)).Nodup →
        ((cells.map .addCell).foldl step ⟨cfg, []⟩).Sound := by
  intro h
  have hstart : Sound ⟨{}, []⟩ :=
    ⟨List.nodup_nil, by simp, by simp [Ids], by simp, by simp [Ids], by simp [Ids]⟩
  have hsound := h {} [⟨3400, 1, 0x19B01, 0⟩, ⟨3400, 2, 0x19C01, 0⟩] hstart (by decide)
  obtain ⟨o, ho, -, e, he, -, hpci, -⟩ := hsound.entered _ List.mem_cons_self
  have hcells : ∀ o ∈ (([⟨3400, 1, 0x19B01, 0⟩, ⟨3400, 2, 0x19C01, 0⟩].map
      MeasCfgEvent.addCell).foldl step ⟨{}, []⟩).cfg.measObjList.items,
        ∀ e ∈ o.cells, e.pci = 2 := by
    decide
  exact absurd ((hcells o ho e he).symm.trans hpci) (by decide)

end NeighbourCfg

end SrsLte
