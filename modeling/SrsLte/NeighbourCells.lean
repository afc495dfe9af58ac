import Mathlib.Algebra.Order.Ring.Rat
import Mathlib.Data.List.Sort
import Mathlib.Order.WithBot
import SrsLte.EventRun

/-!
# Neighbour cells of the UE

The RRC layer keeps the strongest cells it knows of besides the serving cell. A cell that is found
again, or measured with a value that is not normal, is entered a second time.
-/

namespace SrsLte

namespace UeRrc

/-- A `float`: `none` is NaN, and the numbers have two infinities. -/
abbrev Rsrp := Option (WithBot (WithTop ℚ))

namespace Rsrp

/-- `>`, which is false when one side is NaN. -/
def gt : Rsrp → Rsrp → Bool
  | some x, some y => y < x
  | _, _ => false

/-- `std::isnormal`. -/
def isNormal : Rsrp → Bool
  | some (some (some q)) => 1 / 2 ^ 126 ≤ |q|
  | _ => false

/-- `cell_t::greater`: "NaN means an RSRP value has not yet been obtained". -/
def greater (rsrp x : Rsrp) : Bool := rsrp.gt x || rsrp.isNone

end Rsrp

/-- `phy_cell_t`, with the fields that are checked. -/
structure PhyCell where
  earfcn : ℕ
  id : ℕ
  nofPorts : ℕ
  nofPrb : ℕ

structure Cell where
  phyCell : PhyCell
  rsrp : Rsrp

namespace Cell

def key (c : Cell) : ℕ × ℕ := (c.phyCell.earfcn, c.phyCell.id)

def equals (c : Cell) (earfcn pci : ℕ) : Bool := c.key == (earfcn, pci)

def isValid (c : Cell) : Bool :=
  c.phyCell.earfcn != 0 && c.phyCell.id < 504 && c.phyCell.nofPorts ≤ 4 &&
    (c.phyCell.nofPrb == 1 || (6 ≤ c.phyCell.nofPrb && c.phyCell.nofPrb ≤ 110))

def setRsrp (c : Cell) (rsrp : Rsrp) : Cell :=
  if rsrp.isNone then c else { c with rsrp := rsrp }

def greater (c x : Cell) : Prop := c.rsrp.greater x.rsrp

instance : DecidableRel greater := fun _ _ => inferInstanceAs (Decidable (_ = true))

end Cell

/-- `NOF_NEIGHBOUR_CELLS`. -/
def nofNeighbourCells : ℕ := 8

/-- `serving_cell` and `neighbour_cells`. -/
structure NeighbourDb where
  serving : Cell
  neighbours : List Cell

/-- `std::sort` with `greater` inserts one cell after the other, as there are fewer than 16. -/
def sortNeighbourCells (l : List Cell) : List Cell :=
  l.foldl (fun sorted c => sorted.orderedInsert Cell.greater c) []

/-- `add_neighbour_cell` for a cell that is made. -/
def addNewCell (l : List Cell) (newCell : Cell) : List Cell × Bool :=
  if l.length < nofNeighbourCells then (sortNeighbourCells (l ++ [newCell]), true)
  else
    match l.getLast? with
    | some last =>
      if newCell.greater last then (sortNeighbourCells (l.dropLast ++ [newCell]), true)
      else (sortNeighbourCells l, false)
    | none => (sortNeighbourCells l, false)

def hasNeighbourCell (l : List Cell) (earfcn pci : ℕ) : Bool := l.any (·.equals earfcn pci)

/-- `add_neighbour_cell`: "if cell exists, update RSRP, if provided, sort again and return". -/
def addNeighbourCell (l : List Cell) (phyCell : PhyCell) (rsrp : Rsrp) : List Cell × Bool :=
  if hasNeighbourCell l phyCell.earfcn phyCell.id && rsrp.isNormal then
    (sortNeighbourCells (l.modify (l.findIdx (·.equals phyCell.earfcn phyCell.id))
      (·.setRsrp rsrp)), true)
  else addNewCell l ⟨phyCell, rsrp⟩

/-- `remove_neighbour_cell`: the cell that is found, and the others. -/
def removeNeighbourCell (l : List Cell) (earfcn pci : ℕ) : Option Cell × List Cell :=
  (l.find? (·.equals earfcn pci), l.eraseP (·.equals earfcn pci))

namespace NeighbourDb

variable (d : NeighbourDb)

def copyServing (earfcn pci : ℕ) : PhyCell := { d.serving.phyCell with earfcn := earfcn, id := pci }

/-- `process_new_phy_meas`, and `new_phy_meas` in a connection. -/
def processNewPhyMeas (earfcn pci : ℕ) (rsrp : Rsrp) : NeighbourDb :=
  if d.serving.equals earfcn pci then { d with serving := d.serving.setRsrp rsrp }
  else if d.serving.isValid then
    { d with neighbours := (addNeighbourCell d.neighbours (d.copyServing earfcn pci) rsrp).1 }
  else d

def setServingCell (earfcn pci : ℕ) : NeighbourDb :=
  match removeNeighbourCell d.neighbours earfcn pci with
  | (some newServing, rest) =>
    -- "Move serving cell to neighbours list"
    if d.serving.isValid && !hasNeighbourCell rest d.serving.key.1 d.serving.key.2 then
      ⟨newServing, (addNewCell rest d.serving).1⟩
    else ⟨newServing, rest⟩
  | (none, _) => d

/-- `handle_cell_found`: "Create a cell with NaN RSRP". -/
def handleCellFound (phyCell : PhyCell) : NeighbourDb :=
  let (neighbours, added) := addNeighbourCell d.neighbours phyCell none
  if added then setServingCell { d with neighbours := neighbours } phyCell.earfcn phyCell.id
  else { d with neighbours := neighbours }

end NeighbourDb

inductive CellEvent
  | phyMeas (earfcn pci : ℕ) (rsrp : Rsrp)
  | addNeighbour (phyCell : PhyCell) (rsrp : Rsrp)
  | removeNeighbour (earfcn pci : ℕ)
  | cleanNeighbours (timedOut : Cell → Bool)
  | cellFound (phyCell : PhyCell)
  | setServing (earfcn pci : ℕ)
  /-- `delete_report` has no effect on the list. -/
  | deleteReport (earfcn pci : ℕ)

namespace NeighbourDb

def step (d : NeighbourDb) : CellEvent → NeighbourDb
  | .phyMeas earfcn pci rsrp => d.processNewPhyMeas earfcn pci rsrp
  | .addNeighbour phyCell rsrp =>
    { d with neighbours := (addNeighbourCell d.neighbours phyCell rsrp).1 }
  | .removeNeighbour earfcn pci =>
    { d with neighbours := (removeNeighbourCell d.neighbours earfcn pci).2 }
  | .cleanNeighbours timedOut => { d with neighbours := d.neighbours.filter (!timedOut ·) }
  | .cellFound phyCell => d.handleCellFound phyCell
  | .setServing earfcn pci => d.setServingCell earfcn pci
  | .deleteReport _ _ => d

structure Sound (d : NeighbourDb) : Prop where
  length_le : d.neighbours.length ≤ nofNeighbourCells
  distinct : (d.neighbours.map Cell.key).Nodup
  ordered : d.neighbours.Pairwise fun a b => ¬ b.rsrp.gt a.rsrp
  serving : d.serving.key ∉ d.neighbours.map Cell.key

/-- A cell stays in the list, unless it is the one at issue, or it is the weakest one and weaker
than the new one. -/
def Spares (l l' : List Cell) (c : Cell) : Prop :=
  ∀ x ∈ l, x.key ∈ l'.map Cell.key ∨ x.key = c.key ∨
    (∀ y ∈ l, ¬ x.rsrp.gt y.rsrp) ∧ c.greater x

def Good (d : NeighbourDb) (e : CellEvent) : Prop :=
  (d.step e).Sound ∧
    match e with
    | .phyMeas earfcn pci rsrp =>
      Spares d.neighbours (d.step e).neighbours ⟨d.copyServing earfcn pci, rsrp⟩
    | .addNeighbour phyCell rsrp => Spares d.neighbours (d.step e).neighbours ⟨phyCell, rsrp⟩
    | .cellFound phyCell => Spares d.neighbours (d.step e).neighbours ⟨phyCell, none⟩
    | .setServing earfcn pci => ∀ x ∈ d.neighbours,
      x.key ∈ (d.step e).neighbours.map Cell.key ∨ x.key = (earfcn, pci)
    | _ => True

def kept (l : List Cell) : List Cell := if l.length < nofNeighbourCells then l else l.dropLast

def Adds (l : List Cell) (c : Cell) : Prop :=
  l.length < nofNeighbourCells ∨ ∀ last ∈ l.getLast?, c.greater last

def FitsNew (l : List Cell) (c : Cell) : Prop :=
  hasNeighbourCell l c.key.1 c.key.2 ∧ c.rsrp.isNormal ∨
    (Adds l c → c.key ∉ (kept l).map Cell.key)

def Fits (d : NeighbourDb) : CellEvent → Prop
  | .phyMeas earfcn pci rsrp =>
    d.serving.key ≠ (earfcn, pci) → d.serving.isValid →
      FitsNew d.neighbours ⟨d.copyServing earfcn pci, rsrp⟩
  | .addNeighbour phyCell rsrp =>
    FitsNew d.neighbours ⟨phyCell, rsrp⟩ ∧
      (Adds d.neighbours ⟨phyCell, rsrp⟩ → d.serving.key ≠ (phyCell.earfcn, phyCell.id))
  | .cellFound phyCell =>
    (phyCell.earfcn, phyCell.id) ∉ (kept d.neighbours).map Cell.key ∧
      (d.serving.isValid → d.serving.key ≠ (phyCell.earfcn, phyCell.id))
  | _ => True

end NeighbourDb

namespace Rsrp

/-- Cells without a value are in front of the others, which come by decreasing value. -/
def Above : Rsrp → Rsrp → Prop
  | none, _ => True
  | some _, none => False
  | some x, some y => y ≤ x

theorem above_of_greater {x y : Rsrp} (h : x.greater y) : x.Above y := by
  cases x with
  | none => trivial
  | some x =>
    cases y with
    | none => simp [greater, gt] at h
    | some y => exact le_of_lt (by simpa [greater, gt] using h)

theorem above_of_not_greater {x y : Rsrp} (h : ¬ x.greater y) : y.Above x := by
  cases x with
  | none => simp [greater] at h
  | some x =>
    cases y with
    | none => trivial
    | some y => exact le_of_not_gt (by simpa [greater, gt] using h)

theorem Above.trans {x y z : Rsrp} (hxy : x.Above y) (hyz : y.Above z) : x.Above z := by
  cases x <;> cases y <;> cases z <;> simp only [Above] at *
  exact hyz.trans hxy

theorem Above.not_gt {x y : Rsrp} (h : x.Above y) : ¬ y.gt x := by
  cases x <;> cases y <;> simp_all [Above, gt]

end Rsrp

open NeighbourDb

section Sorting

variable {l : List Cell} {c : Cell}

def Sorted (l : List Cell) : Prop := l.Pairwise fun a b => a.rsrp.Above b.rsrp

theorem Sorted.orderedInsert (h : Sorted l) : Sorted (l.orderedInsert Cell.greater c) := by
  induction l with
  | nil => exact List.pairwise_singleton _ _
  | cons e l ih =>
    obtain ⟨he, hl⟩ := List.pairwise_cons.mp h
    rw [List.orderedInsert]
    split_ifs with hgreater
    · have habove := Rsrp.above_of_greater hgreater
      refine List.pairwise_cons.mpr ⟨List.forall_mem_cons.mpr ⟨habove, fun x hx => ?_⟩, h⟩
      exact habove.trans (he x hx)
    · refine List.pairwise_cons.mpr ⟨fun x hx => ?_, ih hl⟩
      rcases List.mem_cons.mp ((List.perm_orderedInsert Cell.greater c l).mem_iff.mp hx)
        with rfl | hx
      · exact Rsrp.above_of_not_greater hgreater
      · exact he x hx

theorem foldl_orderedInsert (cells : List Cell) (h : Sorted l) :
    Sorted (cells.foldl (fun sorted c => sorted.orderedInsert Cell.greater c) l) ∧
      (cells.foldl (fun sorted c => sorted.orderedInsert Cell.greater c) l).Perm (cells ++ l) := by
  induction cells generalizing l with
  | nil => exact ⟨h, List.Perm.refl _⟩
  | cons c cells ih =>
    obtain ⟨hsorted, hperm⟩ := ih (h.orderedInsert (c := c))
    refine ⟨hsorted, hperm.trans ?_⟩
    exact ((List.perm_orderedInsert Cell.greater c l).append_left cells).trans List.perm_middle

theorem sorted_sortNeighbourCells (l : List Cell) : Sorted (sortNeighbourCells l) :=
  (foldl_orderedInsert l List.Pairwise.nil).1

theorem sortNeighbourCells_perm (l : List Cell) : (sortNeighbourCells l).Perm l := by
  simpa [sortNeighbourCells] using (foldl_orderedInsert l List.Pairwise.nil).2

theorem sortNeighbourCells_keys (l : List Cell) :
    ((sortNeighbourCells l).map Cell.key).Perm (l.map Cell.key) :=
  (sortNeighbourCells_perm l).map _

end Sorting

section Adding

variable {l : List Cell} {c : Cell}

theorem hasNeighbourCell_iff {earfcn pci : ℕ} :
    hasNeighbourCell l earfcn pci ↔ (earfcn, pci) ∈ l.map Cell.key := by
  simp [hasNeighbourCell, Cell.equals]

theorem addNewCell_of_adds (h : Adds l c) :
    addNewCell l c = (sortNeighbourCells (kept l ++ [c]), true) := by
  unfold addNewCell kept
  split_ifs with hlt
  · rfl
  · have hne : l ≠ [] := by
      rintro rfl
      exact hlt (by decide)
    have hlast := List.getLast?_eq_some_getLast hne
    rw [hlast]
    dsimp only
    rw [if_pos (h.resolve_left hlt _ hlast)]

theorem addNewCell_of_not_adds (h : ¬ Adds l c) :
    addNewCell l c = (sortNeighbourCells l, false) := by
  unfold addNewCell Adds at *
  push Not at h
  obtain ⟨hge, last, hlast, hless⟩ := h
  rw [if_neg (Nat.not_lt.mpr hge), hlast]
  dsimp only
  rw [if_neg hless]

theorem length_kept (h : l.length ≤ nofNeighbourCells) : (kept l).length < nofNeighbourCells := by
  unfold kept
  split_ifs with hlt
  · exact hlt
  · rw [List.length_dropLast]
    unfold nofNeighbourCells at *
    omega

theorem kept_sublist (l : List Cell) : (kept l).Sublist l := by
  unfold kept
  split_ifs
  · exact List.Sublist.refl l
  · exact List.dropLast_sublist l

theorem spares_kept (hl : Sorted l) (h : Adds l c) : Spares l (kept l ++ [c]) c := by
  intro x hx
  unfold kept
  split_ifs with hlt
  · exact Or.inl (List.mem_map_of_mem (List.mem_append_left _ hx))
  · have hne := List.ne_nil_of_mem hx
    rw [← List.dropLast_concat_getLast hne] at hx
    rcases List.mem_append.mp hx with hx | hx
    · exact Or.inl (List.mem_map_of_mem (List.mem_append_left _ hx))
    · obtain rfl := List.mem_singleton.mp hx
      refine Or.inr (Or.inr ⟨fun y hy => ?_, ?_⟩)
      · rw [← List.dropLast_concat_getLast hne] at hl hy
        rcases List.mem_append.mp hy with hy | hy
        · exact ((List.pairwise_append.mp hl).2.2 y hy _ (List.mem_singleton_self _)).not_gt
        · rw [List.mem_singleton.mp hy]
          cases (l.getLast hne).rsrp <;> simp [Rsrp.gt]
      · exact h.resolve_left hlt _ (List.getLast?_eq_some_getLast hne)

theorem NeighbourDb.Spares.congr {l' l'' : List Cell} (h : Spares l l' c)
    (hkeys : (l''.map Cell.key).Perm (l'.map Cell.key)) : Spares l l'' c := fun x hx =>
  (h x hx).imp_left hkeys.mem_iff.mpr

theorem spares_of_keys {l' : List Cell} (hkeys : (l'.map Cell.key).Perm (l.map Cell.key)) :
    Spares l l' c := fun _ hx => Or.inl (hkeys.mem_iff.mpr (List.mem_map_of_mem hx))

structure Listed (l : List Cell) : Prop where
  length_le : l.length ≤ nofNeighbourCells
  distinct : (l.map Cell.key).Nodup
  sorted : Sorted l

theorem Listed.of_keys {l' : List Cell} (hl : Listed l) (hsorted : Sorted l')
    (hkeys : (l'.map Cell.key).Perm (l.map Cell.key)) : Listed l' where
  length_le := by simpa using hkeys.length_eq.trans_le (by simpa using hl.length_le)
  distinct := hkeys.nodup_iff.mpr hl.distinct
  sorted := hsorted

theorem listed_of_keys {p : Prop} [Decidable p] {keys : List (ℕ × ℕ)} {k : ℕ × ℕ}
    (hl : (l.map Cell.key).Perm (if p then keys ++ [k] else keys)) (hsorted : Sorted l)
    (hdistinct : keys.Nodup) (hk : k ∉ keys) (hlength : keys.length < nofNeighbourCells) :
    Listed l := by
  refine ⟨?_, ?_, hsorted⟩
  · have hle := hl.length_eq
    rw [List.length_map] at hle
    rw [hle]
    split_ifs
    · rw [List.length_append, List.length_singleton]
      exact hlength
    · exact hlength.le
  · rw [hl.nodup_iff]
    split_ifs
    · refine List.nodup_append.mpr ⟨hdistinct, List.nodup_singleton _, ?_⟩
      rintro k' hk' _ hs rfl
      exact hk (List.mem_singleton.mp hs ▸ hk')
    · exact hdistinct

theorem addNewCell_keys (h : Adds l c) :
    ((addNewCell l c).1.map Cell.key).Perm ((kept l).map Cell.key ++ [c.key]) := by
  rw [addNewCell_of_adds h]
  simpa using sortNeighbourCells_keys (kept l ++ [c])

theorem addNewCell_listed (hl : Listed l) (h : Adds l c → c.key ∉ (kept l).map Cell.key) :
    Listed (addNewCell l c).1 := by
  by_cases hadds : Adds l c
  · have hsorted : Sorted (addNewCell l c).1 := by
      rw [addNewCell_of_adds hadds]
      exact sorted_sortNeighbourCells _
    exact listed_of_keys (p := True) (by simpa using addNewCell_keys hadds) hsorted
      (((kept_sublist l).map _).nodup hl.distinct) (h hadds)
      (by simpa using length_kept hl.length_le)
  · rw [addNewCell_of_not_adds hadds]
    exact hl.of_keys (sorted_sortNeighbourCells l) (sortNeighbourCells_keys l)

theorem addNewCell_spares (hl : Sorted l) : Spares l (addNewCell l c).1 c := by
  by_cases hadds : Adds l c
  · refine (spares_kept hl hadds).congr ?_
    rw [List.map_append]
    exact addNewCell_keys hadds
  · rw [addNewCell_of_not_adds hadds]
    exact spares_of_keys (sortNeighbourCells_keys l)

variable {phyCell : PhyCell} {rsrp : Rsrp}

theorem updated_keys (i : ℕ) :
    (l.modify i (·.setRsrp rsrp)).map Cell.key = l.map Cell.key := by
  have hkey (c : Cell) : (c.setRsrp rsrp).key = c.key := by
    unfold Cell.setRsrp
    split_ifs <;> rfl
  refine List.ext_getElem? fun j => ?_
  rw [List.getElem?_map, List.getElem?_map, List.getElem?_modify]
  cases l[j]? <;> by_cases h : i = j <;> simp [h, hkey]

theorem addNeighbourCell_of_known
    (h : hasNeighbourCell l phyCell.earfcn phyCell.id ∧ rsrp.isNormal) :
    Sorted (addNeighbourCell l phyCell rsrp).1 ∧
      ((addNeighbourCell l phyCell rsrp).1.map Cell.key).Perm (l.map Cell.key) := by
  unfold addNeighbourCell
  rw [if_pos (by simpa using h)]
  refine ⟨sorted_sortNeighbourCells _, (sortNeighbourCells_keys _).trans ?_⟩
  rw [updated_keys]

theorem addNeighbourCell_of_not_known
    (h : ¬ (hasNeighbourCell l phyCell.earfcn phyCell.id ∧ rsrp.isNormal)) :
    addNeighbourCell l phyCell rsrp = addNewCell l ⟨phyCell, rsrp⟩ := by
  unfold addNeighbourCell
  rw [if_neg (by simpa using h)]

theorem sorted_addNeighbourCell : Sorted (addNeighbourCell l phyCell rsrp).1 := by
  by_cases hknown : hasNeighbourCell l phyCell.earfcn phyCell.id ∧ rsrp.isNormal
  · exact (addNeighbourCell_of_known hknown).1
  · rw [addNeighbourCell_of_not_known hknown]
    by_cases hadds : Adds l ⟨phyCell, rsrp⟩
    · rw [addNewCell_of_adds hadds]
      exact sorted_sortNeighbourCells _
    · rw [addNewCell_of_not_adds hadds]
      exact sorted_sortNeighbourCells _

theorem addNeighbourCell_listed (hl : Listed l) (h : FitsNew l ⟨phyCell, rsrp⟩) :
    Listed (addNeighbourCell l phyCell rsrp).1 := by
  by_cases hknown : hasNeighbourCell l phyCell.earfcn phyCell.id ∧ rsrp.isNormal
  · obtain ⟨hsorted, hkeys⟩ := addNeighbourCell_of_known hknown
    exact hl.of_keys hsorted hkeys
  · rw [addNeighbourCell_of_not_known hknown]
    exact addNewCell_listed hl (h.resolve_left hknown)

theorem addNeighbourCell_spares (hl : Sorted l) :
    Spares l (addNeighbourCell l phyCell rsrp).1 ⟨phyCell, rsrp⟩ := by
  by_cases hknown : hasNeighbourCell l phyCell.earfcn phyCell.id ∧ rsrp.isNormal
  · exact spares_of_keys (addNeighbourCell_of_known hknown).2
  · rw [addNeighbourCell_of_not_known hknown]
    exact addNewCell_spares hl

theorem fitsNew_of_nodup (h : ((addNeighbourCell l phyCell rsrp).1.map Cell.key).Nodup) :
    FitsNew l ⟨phyCell, rsrp⟩ := by
  by_cases hknown : hasNeighbourCell l phyCell.earfcn phyCell.id ∧ rsrp.isNormal
  · exact Or.inl hknown
  · rw [addNeighbourCell_of_not_known hknown] at h
    refine Or.inr fun hadds hmem => ?_
    rw [(addNewCell_keys hadds).nodup_iff, List.nodup_append] at h
    exact h.2.2 _ hmem _ (List.mem_singleton_self _) rfl

theorem mem_addNeighbourCell_iff {k : ℕ × ℕ} (hk : k ∉ l.map Cell.key) :
    k ∈ (addNeighbourCell l phyCell rsrp).1.map Cell.key ↔
      Adds l ⟨phyCell, rsrp⟩ ∧ k = (phyCell.earfcn, phyCell.id) := by
  by_cases hknown : hasNeighbourCell l phyCell.earfcn phyCell.id ∧ rsrp.isNormal
  · rw [(addNeighbourCell_of_known hknown).2.mem_iff]
    refine iff_of_false hk ?_
    rintro ⟨-, rfl⟩
    exact hk (hasNeighbourCell_iff.mp hknown.1)
  · rw [addNeighbourCell_of_not_known hknown]
    by_cases hadds : Adds l ⟨phyCell, rsrp⟩
    · have hkept : k ∉ (kept l).map Cell.key := fun h => hk (((kept_sublist l).map _).subset h)
      rw [(addNewCell_keys hadds).mem_iff, List.mem_append, or_iff_right hkept,
        List.mem_singleton, and_iff_right hadds]
      rfl
    · rw [addNewCell_of_not_adds hadds, (sortNeighbourCells_keys l).mem_iff]
      exact iff_of_false hk fun h => hadds h.1

end Adding

section Serving

variable {serving : Cell} {l : List Cell} {earfcn pci : ℕ}

/-- The neighbours behind a change of the serving cell: the new one leaves, the old one enters. -/
def swapped (serving : Cell) (keys : List (ℕ × ℕ)) (k : ℕ × ℕ) : List (ℕ × ℕ) :=
  if serving.isValid ∧ serving.key ∉ keys.erase k then keys.erase k ++ [serving.key]
  else keys.erase k

theorem setServingCell_spec (serving : Cell) (hlength : l.length ≤ nofNeighbourCells)
    (hl : Sorted l) (hmem : (earfcn, pci) ∈ l.map Cell.key) :
    (setServingCell ⟨serving, l⟩ earfcn pci).serving.key = (earfcn, pci) ∧
      Sorted (setServingCell ⟨serving, l⟩ earfcn pci).neighbours ∧
      ((setServingCell ⟨serving, l⟩ earfcn pci).neighbours.map Cell.key).Perm
        (swapped serving (l.map Cell.key) (earfcn, pci)) := by
  obtain ⟨c, hfind⟩ : ∃ c, l.find? (·.equals earfcn pci) = some c := by
    rw [← Option.isSome_iff_exists, List.find?_isSome]
    obtain ⟨c, hc, hkey⟩ := List.mem_map.mp hmem
    exact ⟨c, hc, by simpa [Cell.equals] using hkey⟩
  have hkey : c.key = (earfcn, pci) := by simpa [Cell.equals] using List.find?_some hfind
  have hrest : (l.eraseP (·.equals earfcn pci)).map Cell.key =
      (l.map Cell.key).erase (earfcn, pci) := by
    rw [List.erase_eq_eraseP', List.eraseP_map]
    rfl
  have hsorted : Sorted (l.eraseP (·.equals earfcn pci)) := hl.sublist List.eraseP_sublist
  have hlt : (l.eraseP (·.equals earfcn pci)).length < nofNeighbourCells := by
    have hpos := List.length_pos_of_mem hmem
    have herase := congrArg List.length hrest
    rw [List.length_map, List.length_erase_of_mem hmem] at herase
    rw [List.length_map] at hpos herase
    omega
  unfold setServingCell removeNeighbourCell swapped
  rw [hfind, ← hrest]
  dsimp only
  have hiff : (serving.isValid && !hasNeighbourCell (l.eraseP (·.equals earfcn pci))
        serving.key.1 serving.key.2) = true ↔
      serving.isValid ∧ serving.key ∉ (l.eraseP (·.equals earfcn pci)).map Cell.key := by
    rw [Bool.and_eq_true, Bool.not_eq_true', ← Bool.not_eq_true, hasNeighbourCell_iff]
  by_cases hcond : serving.isValid ∧
      serving.key ∉ (l.eraseP (·.equals earfcn pci)).map Cell.key
  · have hadds : Adds (l.eraseP (·.equals earfcn pci)) serving := Or.inl hlt
    rw [if_pos (hiff.mpr hcond), if_pos hcond]
    refine ⟨hkey, ?_, ?_⟩
    · dsimp only
      rw [addNewCell_of_adds hadds]
      exact sorted_sortNeighbourCells _
    · have hkept : kept (l.eraseP (·.equals earfcn pci)) = l.eraseP (·.equals earfcn pci) :=
        if_pos hlt
      simpa [hkept] using addNewCell_keys hadds
  · rw [if_neg (hiff.not.mpr hcond), if_neg hcond]
    exact ⟨hkey, hsorted, List.Perm.refl _⟩

end Serving

namespace NeighbourDb

variable {d : NeighbourDb} {e : CellEvent} {serving : Cell} {l : List Cell}

structure Inv (d : NeighbourDb) : Prop where
  listed : Listed d.neighbours
  serving : d.serving.key ∉ d.neighbours.map Cell.key

theorem Inv.sound (h : d.Inv) : d.Sound :=
  ⟨h.listed.length_le, h.listed.distinct, h.listed.sorted.imp Rsrp.Above.not_gt, h.serving⟩

theorem inv_add_iff (h : (NeighbourDb.mk serving l).Inv) {phyCell : PhyCell} {rsrp : Rsrp} :
    (NeighbourDb.mk serving (addNeighbourCell l phyCell rsrp).1).Inv ↔
      FitsNew l ⟨phyCell, rsrp⟩ ∧
        (Adds l ⟨phyCell, rsrp⟩ → serving.key ≠ (phyCell.earfcn, phyCell.id)) := by
  rw [← not_and, ← mem_addNeighbourCell_iff h.serving]
  constructor
  · exact fun hd => ⟨fitsNew_of_nodup hd.listed.distinct, hd.serving⟩
  · exact fun hd => ⟨addNeighbourCell_listed h.listed hd.1, hd.2⟩

theorem adds_nan (phyCell : PhyCell) : Adds l ⟨phyCell, none⟩ :=
  Or.inr fun _ _ => Bool.or_true _

theorem handleCellFound_spec (h : (NeighbourDb.mk serving l).Inv) (phyCell : PhyCell) :
    ((handleCellFound ⟨serving, l⟩ phyCell).serving.key = (phyCell.earfcn, phyCell.id)) ∧
      Sorted (handleCellFound ⟨serving, l⟩ phyCell).neighbours ∧
      ((handleCellFound ⟨serving, l⟩ phyCell).neighbours.map Cell.key).Perm
        (if serving.isValid then (kept l).map Cell.key ++ [serving.key]
          else (kept l).map Cell.key) := by
  have hadds := adds_nan (l := l) phyCell
  have hnew : addNeighbourCell l phyCell none = addNewCell l ⟨phyCell, none⟩ :=
    addNeighbourCell_of_not_known fun hknown => Bool.false_ne_true hknown.2
  have hadded : (addNewCell l ⟨phyCell, none⟩).2 = true := by rw [addNewCell_of_adds hadds]
  have hsorted : Sorted (addNewCell l ⟨phyCell, none⟩).1 := by
    rw [addNewCell_of_adds hadds]
    exact sorted_sortNeighbourCells _
  have hkeys := addNewCell_keys hadds
  have hlength : (addNewCell l ⟨phyCell, none⟩).1.length ≤ nofNeighbourCells := by
    simpa using hkeys.length_eq.trans_le
      (by simpa using Nat.succ_le_of_lt (length_kept h.listed.length_le))
  have hstep : handleCellFound ⟨serving, l⟩ phyCell =
      setServingCell ⟨serving, (addNewCell l ⟨phyCell, none⟩).1⟩ phyCell.earfcn phyCell.id := by
    unfold handleCellFound
    dsimp only
    rw [hnew, if_pos hadded]
  have hmem : (phyCell.earfcn, phyCell.id) ∈
      (addNewCell l ⟨phyCell, none⟩).1.map Cell.key :=
    hkeys.mem_iff.mpr List.mem_concat_self
  obtain ⟨hserving, hsorted', hswapped⟩ := setServingCell_spec serving hlength hsorted
    hmem
  rw [hstep]
  refine ⟨hserving, hsorted', hswapped.trans ?_⟩
  have hrest : (((addNewCell l ⟨phyCell, none⟩).1.map Cell.key).erase
      (phyCell.earfcn, phyCell.id)).Perm ((kept l).map Cell.key) := by
    refine ((hkeys.trans (List.perm_append_singleton _ _)).erase _).trans ?_
    rw [Cell.key, List.erase_cons_head]
  have hold : serving.key ∉ (kept l).map Cell.key := fun hk =>
    h.serving (((kept_sublist l).map _).subset hk)
  unfold swapped
  simp only [hrest.mem_iff, hold, not_false_eq_true, and_true]
  split_ifs
  · exact hrest.append_right _
  · exact hrest

theorem inv_cellFound_iff (h : (NeighbourDb.mk serving l).Inv) (phyCell : PhyCell) :
    (handleCellFound ⟨serving, l⟩ phyCell).Inv ↔ Fits ⟨serving, l⟩ (.cellFound phyCell) := by
  obtain ⟨hserving, hsorted, hkeys⟩ := handleCellFound_spec h phyCell
  have hdistinct : ((kept l).map Cell.key).Nodup := ((kept_sublist l).map _).nodup h.listed.distinct
  have hold : serving.key ∉ (kept l).map Cell.key := fun hk =>
    h.serving (((kept_sublist l).map _).subset hk)
  have hmem : (handleCellFound ⟨serving, l⟩ phyCell).serving.key ∉
        (handleCellFound ⟨serving, l⟩ phyCell).neighbours.map Cell.key ↔
      Fits ⟨serving, l⟩ (.cellFound phyCell) := by
    rw [hserving, hkeys.mem_iff]
    unfold Fits
    split_ifs with hvalid
    · simp [hvalid, eq_comm]
    · simp [hvalid]
  have hlength : ((kept l).map Cell.key).length < nofNeighbourCells := by
    simpa using length_kept h.listed.length_le
  exact ⟨fun hd => hmem.mp hd.serving, fun hfits =>
    ⟨listed_of_keys hkeys hsorted hdistinct hold hlength, hmem.mpr hfits⟩⟩

theorem setServingCell_of_unknown {earfcn pci : ℕ}
    (h : (earfcn, pci) ∉ d.neighbours.map Cell.key) : d.setServingCell earfcn pci = d := by
  unfold setServingCell removeNeighbourCell
  rw [List.find?_eq_none.mpr]
  intro c hc hequals
  exact h (List.mem_map.mpr ⟨c, hc, by simpa [Cell.equals] using hequals⟩)

theorem inv_setServing (h : d.Inv) (earfcn pci : ℕ) : (d.setServingCell earfcn pci).Inv := by
  by_cases hmem : (earfcn, pci) ∈ d.neighbours.map Cell.key
  · obtain ⟨hserving, hsorted, hkeys⟩ :=
      setServingCell_spec d.serving h.listed.length_le h.listed.sorted hmem
    have hold : d.serving.key ∉ (d.neighbours.map Cell.key).erase (earfcn, pci) := fun hk =>
      h.serving (List.mem_of_mem_erase hk)
    have hnew := h.listed.distinct.not_mem_erase (a := (earfcn, pci))
    have hne : (earfcn, pci) ≠ d.serving.key := fun heq => h.serving (heq ▸ hmem)
    have hlength : ((d.neighbours.map Cell.key).erase (earfcn, pci)).length <
        nofNeighbourCells := by
      have hpos := List.length_pos_of_mem hmem
      rw [List.length_erase_of_mem hmem, List.length_map] at *
      exact (Nat.sub_lt hpos Nat.one_pos).trans_le h.listed.length_le
    refine ⟨listed_of_keys hkeys hsorted (h.listed.distinct.erase _) hold hlength, ?_⟩
    rw [hserving, hkeys.mem_iff]
    unfold swapped
    split_ifs
    · simpa [hnew] using hne
    · exact hnew
  · rw [setServingCell_of_unknown hmem]
    exact h

theorem inv_sublist (h : d.Inv) {l' : List Cell} (hl : l'.Sublist d.neighbours) :
    (NeighbourDb.mk d.serving l').Inv :=
  ⟨⟨hl.length_le.trans h.listed.length_le, (hl.map _).nodup h.listed.distinct,
    h.listed.sorted.sublist hl⟩, fun hk => h.serving ((hl.map _).subset hk)⟩

theorem inv_step_iff (h : d.Inv) : (d.step e).Inv ↔ d.Fits e := by
  cases e with
  | phyMeas earfcn pci rsrp =>
    change (d.processNewPhyMeas earfcn pci rsrp).Inv ↔ (d.serving.key ≠ (earfcn, pci) →
      d.serving.isValid → FitsNew d.neighbours ⟨d.copyServing earfcn pci, rsrp⟩)
    unfold processNewPhyMeas
    by_cases hkey : d.serving.key = (earfcn, pci)
    · rw [if_pos (by simpa [Cell.equals] using hkey)]
      have hset : (d.serving.setRsrp rsrp).key = d.serving.key := by
        unfold Cell.setRsrp
        split_ifs <;> rfl
      exact iff_of_true ⟨h.listed, by rw [hset]; exact h.serving⟩ fun hne => absurd hkey hne
    · rw [if_neg (by simpa [Cell.equals] using hkey), forall_prop_of_true hkey]
      split_ifs with hvalid
      · rw [inv_add_iff h]
        simp [hvalid, copyServing, hkey]
      · simpa [hvalid] using h
  | addNeighbour phyCell rsrp => exact inv_add_iff h
  | removeNeighbour earfcn pci => exact iff_of_true (inv_sublist h List.eraseP_sublist) trivial
  | cleanNeighbours timedOut => exact iff_of_true (inv_sublist h List.filter_sublist) trivial
  | cellFound phyCell => exact inv_cellFound_iff h phyCell
  | setServing earfcn pci => exact iff_of_true (inv_setServing h earfcn pci) trivial
  | deleteReport earfcn pci => exact iff_of_true h trivial

theorem sorted_step (h : d.Inv) : Sorted (d.step e).neighbours := by
  cases e with
  | phyMeas earfcn pci rsrp =>
    change Sorted (d.processNewPhyMeas earfcn pci rsrp).neighbours
    unfold processNewPhyMeas
    split_ifs
    · exact h.listed.sorted
    · exact sorted_addNeighbourCell
    · exact h.listed.sorted
  | addNeighbour phyCell rsrp => exact sorted_addNeighbourCell
  | removeNeighbour earfcn pci => exact h.listed.sorted.sublist List.eraseP_sublist
  | cleanNeighbours timedOut => exact h.listed.sorted.sublist List.filter_sublist
  | cellFound phyCell => exact (handleCellFound_spec h phyCell).2.1
  | setServing earfcn pci => exact (inv_setServing h earfcn pci).listed.sorted
  | deleteReport earfcn pci => exact h.listed.sorted

theorem good_iff_fits (h : d.Inv) : d.Good e ↔ d.Fits e := by
  rw [← inv_step_iff h]
  refine ⟨fun hgood => ⟨⟨hgood.1.length_le, hgood.1.distinct, sorted_step h⟩, hgood.1.serving⟩,
    fun hinv => ⟨hinv.sound, ?_⟩⟩
  cases e with
  | phyMeas earfcn pci rsrp =>
    change Spares d.neighbours (d.processNewPhyMeas earfcn pci rsrp).neighbours _
    unfold processNewPhyMeas
    split_ifs
    · exact spares_of_keys (List.Perm.refl _)
    · exact addNeighbourCell_spares h.listed.sorted
    · exact spares_of_keys (List.Perm.refl _)
  | addNeighbour phyCell rsrp => exact addNeighbourCell_spares h.listed.sorted
  | removeNeighbour earfcn pci => trivial
  | cleanNeighbours timedOut => trivial
  | cellFound phyCell =>
    obtain ⟨-, -, hkeys⟩ := handleCellFound_spec h phyCell
    intro x hx
    rcases spares_kept h.listed.sorted (adds_nan phyCell) x hx with hmem | hspared
    · rw [List.map_append, List.mem_append] at hmem
      refine hmem.imp (fun hkept => hkeys.mem_iff.mpr ?_) fun hnew =>
        Or.inl (List.mem_singleton.mp hnew)
      split_ifs
      · exact List.mem_append_left _ hkept
      · exact hkept
    · exact Or.inr hspared
  | setServing earfcn pci =>
    intro x hx
    by_cases hmem : (earfcn, pci) ∈ d.neighbours.map Cell.key
    · obtain ⟨-, -, hkeys⟩ :=
        setServingCell_spec d.serving h.listed.length_le h.listed.sorted hmem
      by_cases hkey : x.key = (earfcn, pci)
      · exact Or.inr hkey
      · have herase : x.key ∈ (d.neighbours.map Cell.key).erase (earfcn, pci) :=
          (List.mem_erase_of_ne hkey).mpr (List.mem_map_of_mem hx)
        refine Or.inl (hkeys.mem_iff.mpr ?_)
        unfold swapped
        split_ifs
        · exact List.mem_append_left _ herase
        · exact herase
    · change x.key ∈ (d.setServingCell earfcn pci).neighbours.map Cell.key ∨ _
      rw [setServingCell_of_unknown hmem]
      exact Or.inl (List.mem_map_of_mem hx)
  | deleteReport earfcn pci => trivial

def init (serving : Cell) : NeighbourDb := ⟨serving, []⟩

open EventRun in
/-- The list stays sound exactly where no event enters a cell that is there or is the serving
cell. -/
theorem neighbours_sound_iff (serving : Cell) (events : List CellEvent) :
    Along step Good (init serving) events ↔ Along step Fits (init serving) events :=
  along_congr (I := Inv) (fun _ _ h hgood => (inv_step_iff h).mpr ((good_iff_fits h).mp hgood))
    (fun _ _ h => good_iff_fits h)
    ⟨⟨Nat.zero_le _, List.nodup_nil, List.Pairwise.nil⟩, List.not_mem_nil⟩

/-- A search that finds a known neighbour leaves the new serving cell among the neighbours. -/
theorem serving_cell_neighbour :
    ¬ EventRun.Along step Good (init ⟨⟨3400, 1, 1, 50⟩, none⟩)
      [.phyMeas 3400 2 (some (some (-90 : ℚ))), .cellFound ⟨3400, 2, 1, 50⟩] := by
  rintro ⟨-, ⟨hsound, -⟩, -⟩
  exact absurd hsound.serving (by decide)

end NeighbourDb

end UeRrc

end SrsLte
