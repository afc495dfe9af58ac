import SrsLte.DisjointAssignment
import SrsLte.PdcchGrid
import SrsLte.Word

/-!
# Resource grid of a TTI

`tti_grid_t` holds the PDCCH grid, the RBG mask of the downlink and the PRB mask of the uplink.
`alloc_dl_users` and `alloc_ul_users` also write to the masks directly: the first blocks the whole
downlink, the second sets the PRBs of the PRACH and adds those of the PUCCH.
-/

namespace SrsLte

def maxRbg : ℕ := 25

def maxPrb : ℕ := 100

abbrev RbgMask := BoundedBitset maxRbg

abbrev PrbMask := BoundedBitset maxPrb

/-- `ceil_div`. -/
def ceilDiv (x y : ℕ) : ℕ := if x > 0 then (x - 1) / y + 1 else 0

/-- `srslte_ra_type0_P`. -/
def raType0P (nofPrb : ℕ) : ℕ :=
  if nofPrb ≤ 10 then 1 else if nofPrb ≤ 26 then 2 else if nofPrb ≤ 63 then 3 else 4

inductive AllocOutcome
  | success
  | dciCollision
  | rbCollision
  | error
  deriving DecidableEq

structure RbgRange where
  rbgStart : ℕ
  rbgEnd : ℕ
  deriving DecidableEq

/-- `ul_alloc_t`, with 32-bit fields. -/
structure UlAlloc where
  rbStart : ℕ
  L : ℕ
  deriving DecidableEq

/-- `RB_end()`. -/
def UlAlloc.rbEnd (alloc : UlAlloc) : ℕ := (alloc.rbStart + alloc.L) % 2 ^ 32

structure TtiParams where
  pdcch : PdcchTti
  nofPrb : ℕ
  nofPrb_le : nofPrb ≤ maxPrb

namespace TtiParams

variable (t : TtiParams)

def nofRbgs : ℕ := ceilDiv t.nofPrb (raType0P t.nofPrb)

theorem nofRbgs_le : t.nofRbgs ≤ maxRbg := by
  have h := t.nofPrb_le
  unfold nofRbgs ceilDiv raType0P maxRbg
  unfold maxPrb at h
  split_ifs <;> omega

def siNRbg : ℕ := ceilDiv 4 (raType0P t.nofPrb)

def rarNRbg : ℕ := ceilDiv 3 (raType0P t.nofPrb)

def emptyRbgs : RbgMask := BoundedBitset.empty t.nofRbgs t.nofRbgs_le

def emptyPrbs : PrbMask := BoundedBitset.empty t.nofPrb t.nofPrb_le

end TtiParams

structure TtiGrid where
  pdcchAlloc : PdcchGrid
  availRbg : ℕ
  dlMask : RbgMask
  ulMask : PrbMask
  deriving DecidableEq

namespace TtiGrid

variable (t : TtiParams)

def newTti : TtiGrid where
  pdcchAlloc := PdcchGrid.init
  availRbg := t.nofRbgs
  dlMask := t.emptyRbgs
  ulMask := t.emptyPrbs

def allocDl (g : TtiGrid) (aggrLvl : Fin 4) (allocType : AllocType) (allocMask : RbgMask) :
    TtiGrid × AllocOutcome :=
  if (g.dlMask.and allocMask).any then (g, .rbCollision)
  else
    let (pdcchAlloc, ok) := g.pdcchAlloc.allocDci t.pdcch allocType aggrLvl
    if ¬ ok then ({ g with pdcchAlloc := pdcchAlloc }, .dciCollision)
    else
      ({ g with
          pdcchAlloc := pdcchAlloc
          dlMask := g.dlMask.or allocMask
          availRbg := Word.sub32 g.availRbg allocMask.count }, .success)

/-- The leftmost RBGs that `avail_rbg` says are free. -/
def ctrlRange (g : TtiGrid) (allocType : AllocType) : RbgRange :=
  let rbgStart := Word.sub32 t.nofRbgs g.availRbg
  { rbgStart := rbgStart
    rbgEnd := (rbgStart + match allocType with
      | .dlRar => t.rarNRbg
      | _ => t.siNRbg) % 2 ^ 32 }

def allocDlCtrl (g : TtiGrid) (aggrLvl : Fin 4) (allocType : AllocType) :
    (TtiGrid × AllocOutcome) × RbgRange :=
  let range := g.ctrlRange t allocType
  match allocType with
  | .dlData _ | .ulData _ => ((g, .error), range)
  | .dlRar | .dlBc | .dlPcch =>
    if range.rbgEnd > t.nofRbgs then ((g, .rbCollision), range)
    else
      let newMask := (BoundedBitset.empty g.dlMask.size g.dlMask.size_le).fill range.rbgStart
        range.rbgEnd
      (g.allocDl t aggrLvl allocType newMask, range)

/-- `aggrLevel` is the result of `get_aggr_level`, which compares floating-point code rates. -/
def allocDlData (g : TtiGrid) (user : SchedUe) (aggrLevel : Fin 4) (userMask : RbgMask) :
    TtiGrid × AllocOutcome :=
  g.allocDl t aggrLevel (.dlData user) userMask

theorem ulSize_le (g : TtiGrid) : g.ulMask.size ≤ maxPrb := g.ulMask.size_le

def allocUlData (g : TtiGrid) (user : SchedUe) (aggrIdx : Fin 4) (alloc : UlAlloc)
    (needsPdcch : Bool) : TtiGrid × AllocOutcome :=
  if alloc.rbEnd > g.ulMask.size then (g, .error)
  else
    let newmask := (BoundedBitset.empty g.ulMask.size g.ulMask.size_le).fill alloc.rbStart
      alloc.rbEnd
    if (g.ulMask.and newmask).any then (g, .rbCollision)
    else if needsPdcch then
      let (pdcchAlloc, ok) := g.pdcchAlloc.allocDci t.pdcch (.ulData user) aggrIdx
      if ¬ ok then ({ g with pdcchAlloc := pdcchAlloc }, .dciCollision)
      else ({ g with pdcchAlloc := pdcchAlloc, ulMask := g.ulMask.or newmask }, .success)
    else ({ g with ulMask := g.ulMask.or newmask }, .success)

/-- `alloc_dl_users` before a PRACH in a cell of 6 PRBs: `dl_mask.fill(0, size)`. -/
def blockDl (g : TtiGrid) : TtiGrid := { g with dlMask := g.dlMask.fill 0 g.dlMask.size }

/-- `alloc_ul_users`: `ul_mask = prach_mask`. -/
def reservePrach (g : TtiGrid) (prachMask : PrbMask) : TtiGrid := { g with ulMask := prachMask }

/-- `alloc_ul_users`: `ul_mask |= pucch_mask`. -/
def reservePucch (g : TtiGrid) (pucchMask : PrbMask) : TtiGrid :=
  { g with ulMask := g.ulMask.or pucchMask }

inductive Call
  | dlCtrl (aggrLvl : Fin 4) (allocType : AllocType)
  | dlData (user : SchedUe) (aggrLevel : Fin 4) (userMask : RbgMask)
  | ulData (user : SchedUe) (aggrIdx : Fin 4) (alloc : UlAlloc) (needsPdcch : Bool)
  | blockDl
  | reservePrach (prachMask : PrbMask)
  | reservePucch (pucchMask : PrbMask)

def call (g : TtiGrid) : Call → TtiGrid × AllocOutcome
  | .dlCtrl aggrLvl allocType => (g.allocDlCtrl t aggrLvl allocType).1
  | .dlData user aggrLevel userMask => g.allocDlData t user aggrLevel userMask
  | .ulData user aggrIdx alloc needsPdcch => g.allocUlData t user aggrIdx alloc needsPdcch
  | .blockDl => (g.blockDl, .success)
  | .reservePrach prachMask => (g.reservePrach prachMask, .success)
  | .reservePucch pucchMask => (g.reservePucch pucchMask, .success)

/-- A grid with the RBGs, PRBs and DCIs of the allocations that succeeded, in order, and with the
RBGs and PRBs that were set aside. -/
structure History where
  grid : TtiGrid
  dlAllocs : List (Finset ℕ)
  dlReserved : Finset ℕ
  ulAllocs : List (Finset ℕ)
  ulReserved : Finset ℕ
  dcis : List (AllocType × Fin 4)

namespace History

def record (h : History) : Call → History
  | .dlCtrl aggrLvl allocType =>
    let range := h.grid.ctrlRange t allocType
    { h with
      dlAllocs := h.dlAllocs ++ [Finset.Ico range.rbgStart range.rbgEnd]
      dcis := h.dcis ++ [(allocType, aggrLvl)] }
  | .dlData user aggrLevel userMask =>
    { h with
      dlAllocs := h.dlAllocs ++ [userMask.bits]
      dcis := h.dcis ++ [(.dlData user, aggrLevel)] }
  | .ulData user aggrIdx alloc needsPdcch =>
    { h with
      ulAllocs := h.ulAllocs ++ [Finset.Ico alloc.rbStart alloc.rbEnd]
      dcis := if needsPdcch then h.dcis ++ [(.ulData user, aggrIdx)] else h.dcis }
  | .blockDl => { h with dlReserved := h.dlReserved ∪ Finset.range h.grid.dlMask.size }
  | .reservePrach prachMask => { h with ulReserved := prachMask.bits }
  | .reservePucch pucchMask => { h with ulReserved := h.ulReserved ∪ pucchMask.bits }

def step (h : History) (c : Call) : History :=
  { (if (h.grid.call t c).2 = .success then h.record t c else h) with
    grid := (h.grid.call t c).1 }

end History

def newHistory : History where
  grid := newTti t
  dlAllocs := []
  dlReserved := ∅
  ulAllocs := []
  ulReserved := ∅
  dcis := []

def run (calls : List Call) : History := calls.foldl (History.step t) (newHistory t)

end TtiGrid
end SrsLte

/-!
A call on the grid either fails and changes nothing, or it takes resources that were free in all
the dimensions it needs. Over a run, the RBGs, the PRBs and the CCEs of the successful calls are
therefore pairwise disjoint. Each mask is the union of these allocations and of the part that
`alloc_dl_users` and `alloc_ul_users` have set aside in it.
-/

namespace SrsLte
namespace TtiGrid

open DisjointAssignment

variable (t : TtiParams)

section Calls

variable {t} {g : TtiGrid} {granted : List (AllocType × Fin 4)}

theorem allocDl_cases (hpdcch : PdcchGrid.Inv t.pdcch g.pdcchAlloc granted) {allocMask : RbgMask}
    (hsize : allocMask.size = g.dlMask.size) (aggrLvl : Fin 4) (allocType : AllocType) :
    (g.allocDl t aggrLvl allocType allocMask).2 ≠ .success ∧
        (g.allocDl t aggrLvl allocType allocMask).1 = g ∨
      Disjoint g.dlMask.bits allocMask.bits ∧
        ∃ pdcchAlloc, PdcchGrid.Inv t.pdcch pdcchAlloc (granted ++ [(allocType, aggrLvl)]) ∧
          g.allocDl t aggrLvl allocType allocMask =
            ({ g with
                pdcchAlloc := pdcchAlloc
                dlMask := g.dlMask.or allocMask
                availRbg := Word.sub32 g.availRbg allocMask.count }, .success) := by
  unfold allocDl
  cases hany : (g.dlMask.and allocMask).any with
  | true => exact Or.inl ⟨nofun, rfl⟩
  | false =>
    have hdisj := (BoundedBitset.any_and_eq_false hsize).mp hany
    cases hok : (g.pdcchAlloc.allocDci t.pdcch allocType aggrLvl).2 with
    | false =>
      have hkept := hpdcch.allocDci_failed t.pdcch (allocType, aggrLvl) hok
      refine Or.inl ⟨?_, ?_⟩
      · simp [hok]
      · simp [hok, hkept]
    | true =>
      have hinv := hpdcch.allocDci_granted t.pdcch (allocType, aggrLvl) hok
      refine Or.inr ⟨hdisj, _, hinv, ?_⟩
      simp [hok]

theorem allocDlCtrl_cases (hsize : g.dlMask.size = t.nofRbgs) (aggrLvl : Fin 4)
    (allocType : AllocType) :
    (g.allocDlCtrl t aggrLvl allocType).1.2 ≠ .success ∧
        (g.allocDlCtrl t aggrLvl allocType).1.1 = g ∨
      ∃ newMask : RbgMask, newMask.size = t.nofRbgs ∧
        newMask.bits = Finset.Ico (g.ctrlRange t allocType).rbgStart
          (g.ctrlRange t allocType).rbgEnd ∧
        (g.allocDlCtrl t aggrLvl allocType).1 = g.allocDl t aggrLvl allocType newMask := by
  unfold allocDlCtrl
  dsimp only
  by_cases hend : (g.ctrlRange t allocType).rbgEnd > t.nofRbgs
  · rw [if_pos hend]
    cases allocType <;> exact Or.inl ⟨nofun, rfl⟩
  · rw [if_neg hend]
    have hbits := BoundedBitset.bits_fill_empty g.dlMask.size_le
      (g.ctrlRange t allocType).rbgStart (hsize ▸ Nat.not_lt.mp hend)
    have hmask := (BoundedBitset.size_fill (BoundedBitset.empty g.dlMask.size g.dlMask.size_le)
      (g.ctrlRange t allocType).rbgStart (g.ctrlRange t allocType).rbgEnd).trans hsize
    cases allocType with
    | dlData user => exact Or.inl ⟨nofun, rfl⟩
    | ulData user => exact Or.inl ⟨nofun, rfl⟩
    | dlRar => exact Or.inr ⟨_, hmask, hbits, rfl⟩
    | dlBc => exact Or.inr ⟨_, hmask, hbits, rfl⟩
    | dlPcch => exact Or.inr ⟨_, hmask, hbits, rfl⟩

theorem allocUlData_cases (hpdcch : PdcchGrid.Inv t.pdcch g.pdcchAlloc granted) (user : SchedUe)
    (aggrIdx : Fin 4) (alloc : UlAlloc) (needsPdcch : Bool) :
    (g.allocUlData t user aggrIdx alloc needsPdcch).2 ≠ .success ∧
        (g.allocUlData t user aggrIdx alloc needsPdcch).1 = g ∨
      Disjoint g.ulMask.bits (Finset.Ico alloc.rbStart alloc.rbEnd) ∧
        ∃ pdcchAlloc ulMask,
          PdcchGrid.Inv t.pdcch pdcchAlloc
            (if needsPdcch then granted ++ [(.ulData user, aggrIdx)] else granted) ∧
          ulMask.size = g.ulMask.size ∧
          ulMask.bits = g.ulMask.bits ∪ Finset.Ico alloc.rbStart alloc.rbEnd ∧
          g.allocUlData t user aggrIdx alloc needsPdcch =
            ({ g with pdcchAlloc := pdcchAlloc, ulMask := ulMask }, .success) := by
  unfold allocUlData
  by_cases hend : alloc.rbEnd > g.ulMask.size
  · rw [if_pos hend]
    exact Or.inl ⟨nofun, rfl⟩
  rw [if_neg hend]
  have hbits := BoundedBitset.bits_fill_empty g.ulMask.size_le alloc.rbStart
    (Nat.not_lt.mp hend)
  have hsize : ((BoundedBitset.empty g.ulMask.size g.ulMask.size_le).fill alloc.rbStart
      alloc.rbEnd).size = g.ulMask.size := BoundedBitset.size_fill _ _ _
  generalize (BoundedBitset.empty g.ulMask.size g.ulMask.size_le).fill alloc.rbStart
    alloc.rbEnd = newmask at hbits hsize ⊢
  dsimp only
  rw [← hbits, ← BoundedBitset.bits_or hsize, ← BoundedBitset.any_and_eq_false hsize]
  cases hany : (g.ulMask.and newmask).any with
  | true => exact Or.inl ⟨nofun, rfl⟩
  | false =>
    rw [if_neg Bool.false_ne_true]
    have hmask : (g.ulMask.or newmask).size = g.ulMask.size := BoundedBitset.size_or _ _
    cases needsPdcch with
    | false => exact Or.inr ⟨rfl, _, _, hpdcch, hmask, rfl, rfl⟩
    | true =>
      cases hok : (g.pdcchAlloc.allocDci t.pdcch (.ulData user) aggrIdx).2 with
      | false =>
        have hkept := hpdcch.allocDci_failed t.pdcch (.ulData user, aggrIdx) hok
        exact Or.inl ⟨nofun, by simp [hkept]⟩
      | true =>
        have hinv := hpdcch.allocDci_granted t.pdcch (.ulData user, aggrIdx) hok
        exact Or.inr ⟨rfl, _, _, hinv, hmask, rfl, rfl⟩

end Calls

structure Inv (h : History) : Prop where
  pdcch : PdcchGrid.Inv t.pdcch h.grid.pdcchAlloc h.dcis
  dlSize : h.grid.dlMask.size = t.nofRbgs
  ulSize : h.grid.ulMask.size = t.nofPrb
  dl : Occupies h.dlAllocs h.dlReserved h.grid.dlMask.bits
  ul : Occupies h.ulAllocs h.ulReserved h.grid.ulMask.bits
  avail : h.grid.availRbg + (total id h.dlAllocs).card = t.nofRbgs

/-- What the callers see to: masks have the size of the grid's masks, and the PRBs of the PRACH
are set aside before any other PRB is taken. -/
def Admissible (h : History) : Call → Prop
  | .dlData _ _ userMask => userMask.size = t.nofRbgs
  | .reservePrach prachMask =>
    prachMask.size = t.nofPrb ∧ h.ulAllocs = [] ∧ h.ulReserved = ∅
  | .reservePucch pucchMask => pucchMask.size = t.nofPrb
  | _ => True

theorem inv_newHistory : Inv t (newHistory t) where
  pdcch := PdcchGrid.inv_init t.pdcch
  dlSize := rfl
  ulSize := rfl
  dl := occupies_bot
  ul := occupies_bot
  avail := rfl

variable {t} {h : History}

theorem Inv.avail_grant (hinv : Inv t h) {allocMask : RbgMask}
    (hsize : allocMask.size = t.nofRbgs) (hdisj : Disjoint h.grid.dlMask.bits allocMask.bits) :
    Word.sub32 h.grid.availRbg allocMask.count +
      (total id (h.dlAllocs ++ [allocMask.bits])).card = t.nofRbgs := by
  have hgrants : Disjoint (total id h.dlAllocs) allocMask.bits :=
    hdisj.mono_left (hinv.dl.total_eq ▸ le_sup_left)
  have hcard : (total id (h.dlAllocs ++ [allocMask.bits])).card =
      (total id h.dlAllocs).card + allocMask.count := by
    rw [total_concat]
    exact Finset.card_union_of_disjoint hgrants
  have hrange : total id (h.dlAllocs ++ [allocMask.bits]) ⊆ Finset.range t.nofRbgs := by
    rw [total_concat]
    refine Finset.union_subset (fun i hi => ?_) (fun i hi => ?_)
    · have hmem : i ∈ h.grid.dlMask.bits := hinv.dl.total_eq ▸ Finset.mem_union_left _ hi
      exact Finset.mem_range.mpr (hinv.dlSize ▸ h.grid.dlMask.lt_size i hmem)
    · exact Finset.mem_range.mpr (hsize ▸ allocMask.lt_size i hi)
  have hle := Finset.card_le_card hrange
  rw [Finset.card_range, hcard] at hle
  have havail := hinv.avail
  have hmax : t.nofRbgs ≤ 25 := t.nofRbgs_le
  rw [hcard, Word.sub32]
  omega

theorem Inv.allocDl (hinv : Inv t h) {allocMask : RbgMask} {pdcchAlloc : PdcchGrid}
    (hsize : allocMask.size = t.nofRbgs) (hdisj : Disjoint h.grid.dlMask.bits allocMask.bits)
    {call : AllocType × Fin 4} (hpdcch : PdcchGrid.Inv t.pdcch pdcchAlloc (h.dcis ++ [call])) :
    Inv t
      { h with
        grid :=
          { h.grid with
            pdcchAlloc := pdcchAlloc
            dlMask := h.grid.dlMask.or allocMask
            availRbg := Word.sub32 h.grid.availRbg allocMask.count }
        dlAllocs := h.dlAllocs ++ [allocMask.bits]
        dcis := h.dcis ++ [call] } where
  pdcch := hpdcch
  dlSize := (BoundedBitset.size_or _ _).trans hinv.dlSize
  ulSize := hinv.ulSize
  dl := by
    rw [BoundedBitset.bits_or (hsize.trans hinv.dlSize.symm)]
    exact hinv.dl.grant hdisj
  ul := hinv.ul
  avail := hinv.avail_grant hsize hdisj

theorem Inv.call_step (hinv : Inv t h) {c : Call} (hadm : Admissible t h c) :
    Inv t (h.step t c) ∧
      ((h.grid.call t c).2 ≠ .success → (h.grid.call t c).1 = h.grid) := by
  have hfail : (h.grid.call t c).2 ≠ .success → (h.grid.call t c).1 = h.grid →
      Inv t (h.step t c) ∧
        ((h.grid.call t c).2 ≠ .success → (h.grid.call t c).1 = h.grid) := by
    intro hne hkept
    refine ⟨?_, fun _ => hkept⟩
    rw [History.step, if_neg hne, hkept]
    exact hinv
  have hok : ∀ {g : TtiGrid}, h.grid.call t c = (g, .success) →
      Inv t { h.record t c with grid := g } →
      Inv t (h.step t c) ∧
        ((h.grid.call t c).2 ≠ .success → (h.grid.call t c).1 = h.grid) := by
    intro g hg hnew
    refine ⟨?_, fun hne => absurd (congrArg Prod.snd hg) hne⟩
    rw [History.step, hg, if_pos rfl]
    exact hnew
  cases c with
  | dlCtrl aggrLvl allocType =>
    rcases allocDlCtrl_cases hinv.dlSize aggrLvl allocType with
      ⟨hne, hkept⟩ | ⟨newMask, hsize, hbits, hctrl⟩
    · exact hfail hne hkept
    rcases allocDl_cases hinv.pdcch (hsize.trans hinv.dlSize.symm) aggrLvl allocType with
      ⟨hne, hkept⟩ | ⟨hdisj, pdcchAlloc, hpdcch, hg⟩
    · have hcall : h.grid.call t (.dlCtrl aggrLvl allocType) = _ := hctrl
      rw [← hcall] at hne hkept
      exact hfail hne hkept
    · have hnew := hinv.allocDl hsize hdisj hpdcch
      rw [hbits] at hnew
      exact hok (hctrl.trans hg) hnew
  | dlData user aggrLevel userMask =>
    rcases allocDl_cases hinv.pdcch (hadm.trans hinv.dlSize.symm) aggrLevel (.dlData user) with
      ⟨hne, hkept⟩ | ⟨hdisj, pdcchAlloc, hpdcch, hg⟩
    · exact hfail hne hkept
    · exact hok hg (hinv.allocDl hadm hdisj hpdcch)
  | ulData user aggrIdx alloc needsPdcch =>
    rcases allocUlData_cases hinv.pdcch user aggrIdx alloc needsPdcch with
      ⟨hne, hkept⟩ | ⟨hdisj, pdcchAlloc, ulMask, hpdcch, hsize, hbits, hg⟩
    · exact hfail hne hkept
    · refine hok hg ⟨hpdcch, hinv.dlSize, hsize.trans hinv.ulSize, hinv.dl, ?_, hinv.avail⟩
      rw [hbits]
      exact hinv.ul.grant hdisj
  | blockDl =>
    have hsize : (h.grid.dlMask.fill 0 h.grid.dlMask.size).size = h.grid.dlMask.size :=
      BoundedBitset.size_fill _ _ _
    refine hok rfl ⟨hinv.pdcch, hsize.trans hinv.dlSize, hinv.ulSize, ?_, hinv.ul, hinv.avail⟩
    rw [blockDl, BoundedBitset.bits_fill le_rfl, ← Finset.range_eq_Ico]
    exact hinv.dl.reserve _
  | reservePrach prachMask =>
    obtain ⟨hsize, hallocs, hreserved⟩ := hadm
    refine hok rfl ⟨hinv.pdcch, hinv.dlSize, hsize, hinv.dl, ?_, hinv.avail⟩
    have hul := (occupies_bot : Occupies ([] : List (Finset ℕ)) ⊥ ⊥).reserve prachMask.bits
    rw [bot_sup_eq] at hul
    exact hallocs ▸ hul
  | reservePucch pucchMask =>
    have hsize : (h.grid.ulMask.or pucchMask).size = h.grid.ulMask.size :=
      BoundedBitset.size_or _ _
    refine hok rfl ⟨hinv.pdcch, hinv.dlSize, hsize.trans hinv.ulSize, hinv.dl, ?_, hinv.avail⟩
    rw [reservePucch, BoundedBitset.bits_or (Eq.trans hadm hinv.ulSize.symm)]
    exact hinv.ul.reserve _

def AdmissibleRun (t : TtiParams) (h : History) : List Call → Prop
  | [] => True
  | c :: calls => Admissible t h c ∧ AdmissibleRun t (h.step t c) calls

theorem Inv.foldl_step (hinv : Inv t h) {calls : List Call} (hadm : AdmissibleRun t h calls) :
    Inv t (calls.foldl (History.step t) h) := by
  induction calls generalizing h with
  | nil => exact hinv
  | cons c calls ih => exact ih (hinv.call_step hadm.1).1 hadm.2

/-- The successful allocations of a TTI do not share an RBG, a PRB or a CCE; each mask is the
union of the allocations and of the part set aside; a call that fails changes nothing. -/
theorem run_exclusive {calls : List Call} (hadm : AdmissibleRun t (newHistory t) calls) :
    let h := run t calls
    (h.dlAllocs.Pairwise Disjoint ∧ total id h.dlAllocs ∪ h.dlReserved = h.grid.dlMask.bits) ∧
      (h.ulAllocs.Pairwise Disjoint ∧ total id h.ulAllocs ∪ h.ulReserved = h.grid.ulMask.bits) ∧
      (h.dcis ≠ [] → 0 < h.grid.pdcchAlloc.nofAllocCombinations) ∧
      (∀ totMask, ∀ idx < h.grid.pdcchAlloc.nofAllocCombinations, ∃ allocs mask,
        h.grid.pdcchAlloc.getAllocs totMask idx = some (allocs, mask) ∧
          PdcchGrid.Serves t.pdcch h.dcis allocs mask) ∧
      ∀ c, Admissible t h c → (h.grid.call t c).2 ≠ .success → (h.grid.call t c).1 = h.grid := by
  have hinv : Inv t (run t calls) := (inv_newHistory t).foldl_step hadm
  refine ⟨⟨hinv.dl.disjoint, hinv.dl.total_eq⟩, ⟨hinv.ul.disjoint, hinv.ul.total_eq⟩, ?_, ?_, ?_⟩
  · exact hinv.pdcch.combinations_pos
  · exact fun totMask idx hidx => hinv.pdcch.getAllocs _ totMask hidx
  · exact fun c hc => (hinv.call_step hc).2

def twentyFivePrbs : TtiParams where
  pdcch := PdcchGrid.eightCces
  nofPrb := 25
  nofPrb_le := by decide

/-- The PRBs from `startpos` up to `endpos`. -/
def prbRange (startpos endpos : ℕ) : PrbMask := twentyFivePrbs.emptyPrbs.fill startpos endpos

/-- A subframe with a PRACH: broadcast, a Msg3 behind the PRACH, the PUCCH, and a paging that
finds no CCE. -/
def prachCalls : List Call :=
  [.dlCtrl 0 .dlBc, .reservePrach (prbRange 4 10), .ulData PdcchGrid.srUser 0 ⟨10, 3⟩ false,
    .reservePucch (prbRange 0 1), .dlCtrl 0 .dlPcch]

theorem run_exclusive_prach :
    let h := run twentyFivePrbs prachCalls
    h.ulAllocs = [Finset.Ico 10 13] ∧
      total id h.ulAllocs ∪ h.ulReserved = h.grid.ulMask.bits := by
  have hadm : AdmissibleRun twentyFivePrbs (newHistory twentyFivePrbs) prachCalls :=
    ⟨trivial, ⟨by decide +kernel, by decide +kernel, by decide +kernel⟩, trivial,
      (by decide +kernel : (prbRange 0 1).size = 25), trivial, trivial⟩
  exact ⟨by decide +kernel, (run_exclusive hadm).2.1.2⟩

/-- The PRBs of the PUCCH are in the mask although no allocation took them. -/
theorem pucch_not_allocated :
    let h := run twentyFivePrbs [.reservePucch (prbRange 0 1)]
    total id h.ulAllocs ≠ h.grid.ulMask.bits := by
  decide +kernel

end TtiGrid
end SrsLte
