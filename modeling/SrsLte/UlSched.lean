import SrsLte.Harq
import SrsLte.ResourceIndication
import SrsLte.TtiGrid

/-!
# The uplink of a subframe in the scheduler

The scheduler metric asks for uplink resources with `alloc_ul_user`, the random access procedure
with `alloc_ul_msg3`. At the end of the subframe `generate_dcis` gives every allocation its place in
the PDCCH, if it needs one, and lets the HARQ process of the user transmit on it. The MCS that the
link adaptation finds for a new block and the table of the transport block sizes are parameters.
-/

namespace SrsLte

/-- `ul_alloc_t::type_t`. -/
inductive UlAllocType
  | newtx
  | noadaptRetx
  | adaptRetx
  | msg3
  deriving DecidableEq

/-- `needs_pdcch()`. -/
def UlAllocType.needsPdcch (type : UlAllocType) : Bool := type = .adaptRetx || type = .newtx

/-- `tti_sched_result_t::ul_alloc_t`. The user is given by its RNTI. -/
structure UlDataAlloc where
  dciIdx : ℕ
  type : UlAllocType
  rnti : ℕ
  alloc : UlAlloc
  mcs : ℕ

/-- An entry of `ul_sched_result.pusch` with its DCI format 0. -/
structure UlSchedData where
  needsPdcch : Bool
  location : DciLocation
  tbs : ℤ
  rnti : ℕ
  riv : ℕ
  rv : ℕ
  mcsIdx : ℤ
  ndi : Bool

/-- `sched::get_rvidx`. -/
def getRvidx (retxIdx : ℕ) : ℕ := [0, 2, 3, 1].getD (retxIdx % 4) 0

def UlHarqProc.isAdaptiveRetx (h : UlHarqProc) : Bool := h.isAdaptive && h.hasPendingRetx

/-- The configuration of a user, as far as the uplink of a carrier uses it. -/
structure UlUserCfg where
  ue : SchedUe
  maxharqTx : Fin (2 ^ 32)
  maxMsg3Retx : Fin (2 ^ 32)
  fixedMcsUl : ℤ

/-- A user of `sched_ue` with the uplink processes of a carrier. -/
structure UlUser extends UlUserCfg where
  ulHarq : Fin 8 → UlHarqProc

namespace UlUser

/-- `set_cfg`, which begins with new HARQ processes. -/
def setCfg (rnti : ℕ) (cfg : UlUserCfg) : UlUser where
  toUlUserCfg := { cfg with ue := { cfg.ue with rnti := rnti } }
  ulHarq := (SchedUeCarrier.init cfg.maxharqTx).ulHarq

def pid (tti : ℕ) : Fin 8 := Fin.ofNat 8 tti

def getUlHarq (user : UlUser) (tti : ℕ) : UlHarqProc := user.ulHarq (pid tti)

def setUlHarq (user : UlUser) (tti : ℕ) (h : UlHarqProc) : UlUser :=
  { user with ulHarq := Function.update user.ulHarq (pid tti) h }

def setUlCrc (user : UlUser) (tti : ℕ) (crcRes : Bool) : UlUser :=
  user.setUlHarq tti ((user.getUlHarq tti).setAck 0 crcRes)

/-- `finish_tti`, which clears the process here and once more in `reset_pending_pids`. -/
def finishTti (user : UlUser) (ttiTxUl : ℕ) : UlUser :=
  user.setUlHarq ttiTxUl (user.getUlHarq ttiTxUl).resetPendingData.resetPendingData

variable (tbsFromMcs : ℤ → ℕ → ℤ)

/-- The process in `generate_format0`, with the MCS and the size of the block. `tbsFromMcs` is the
size in bits of a block with an MCS and a number of PRBs, `dynamic` the MCS and the size of a new
block by link adaptation. -/
def transmitBlock (user : UlUser) (tti : ℕ) (alloc : UlAlloc) (needsPdcch : Bool) (mcs : ℤ)
    (dynamic : ℤ × ℤ) : UlHarqProc × ℤ × ℤ :=
  let h := user.getUlHarq tti
  if h.isEmptyTb 0 then
    let nofRetx := if needsPdcch then user.maxharqTx else user.maxMsg3Retx
    let (mcs, tbs) := if mcs ≥ 0 then (mcs, (tbsFromMcs mcs alloc.L).tdiv 8) else dynamic
    (h.newTx tti mcs tbs alloc nofRetx, mcs, tbs)
  else
    let (h', mcs, _) := h.newRetx 0 tti alloc
    (h', mcs, (tbsFromMcs mcs alloc.L).tdiv 8)

def generateFormat0 (user : UlUser) (tti nofPrb : ℕ) (alloc : UlAlloc) (needsPdcch : Bool)
    (dciPos : DciLocation) (explicitMcs : ℤ) (dynamic : ℤ × ℤ) : UlUser × UlSchedData :=
  let isNewtx := (user.getUlHarq tti).isEmptyTb 0
  let (h, mcs, tbs) := user.transmitBlock tbsFromMcs tti alloc needsPdcch
    (if explicitMcs ≥ 0 then explicitMcs else user.fixedMcsUl) dynamic
  let rv := getRvidx (h.tb 0).nRtx
  (user.setUlHarq tti h,
    { needsPdcch := needsPdcch
      location := dciPos
      tbs := tbs
      rnti := user.ue.rnti
      riv := raType2ToRiv alloc.L alloc.rbStart nofPrb
      rv := rv
      mcsIdx := if !isNewtx && h.isAdaptiveRetx then 28 + rv else mcs
      ndi := (h.tb 0).ndi })

end UlUser

structure UlSched where
  params : TtiParams
  ttiAlloc : TtiGrid
  ulDataAllocs : List UlDataAlloc
  pusch : List UlSchedData
  ueDb : ℕ → UlUser

namespace UlSched

def ttiTxUl (s : UlSched) : ℕ := ttiRxAck s.params.pdcch.ttiRx

def harq (s : UlSched) (rnti : ℕ) : UlHarqProc := (s.ueDb rnti).getUlHarq s.ttiTxUl

def newTti (s : UlSched) (params : TtiParams) : UlSched :=
  { s with params := params, ttiAlloc := TtiGrid.newTti params, ulDataAllocs := [], pusch := [] }

def isUlAlloc (s : UlSched) (rnti : ℕ) : Bool := s.ulDataAllocs.any fun a => a.rnti = rnti

/-- `aggrIdx` is the result of `get_aggr_level`, which compares floating-point code rates. -/
def allocUl (s : UlSched) (rnti : ℕ) (aggrIdx : Fin 4) (alloc : UlAlloc) (type : UlAllocType)
    (mcs : ℕ) : UlSched × AllocOutcome :=
  if s.isUlAlloc rnti then (s, .error)
  else
    let (ttiAlloc, ret) :=
      s.ttiAlloc.allocUlData s.params (s.ueDb rnti).ue aggrIdx alloc type.needsPdcch
    if ret ≠ .success then ({ s with ttiAlloc := ttiAlloc }, ret)
    else
      let ulAlloc : UlDataAlloc :=
        { type := type
          dciIdx := ttiAlloc.pdcchAlloc.nofDciAllocs - 1
          rnti := rnti
          alloc := alloc
          mcs := mcs }
      ({ s with ttiAlloc := ttiAlloc, ulDataAllocs := s.ulDataAllocs ++ [ulAlloc] }, .success)

/-- The type of a retransmission compares the previous start with the previous length. -/
def userAllocType (h : UlHarqProc) (alloc : UlAlloc) : UlAllocType :=
  if h.hasPendingRetx then
    let prevAlloc := h.allocation
    if prevAlloc.L = alloc.L ∧ prevAlloc.rbStart = prevAlloc.L then .noadaptRetx else .adaptRetx
  else .newtx

def allocUlUser (s : UlSched) (rnti : ℕ) (aggrIdx : Fin 4) (alloc : UlAlloc) :
    UlSched × AllocOutcome :=
  s.allocUl rnti aggrIdx alloc (userAllocType (s.harq rnti) alloc) 0

def allocUlMsg3 (s : UlSched) (rnti : ℕ) (alloc : UlAlloc) (mcs : ℕ) : UlSched × AllocOutcome :=
  s.allocUl rnti 0 alloc .msg3 mcs

def dciResult (s : UlSched) : List Alloc :=
  ((s.ttiAlloc.pdcchAlloc.getAllocs s.params.pdcch.emptyMask 0).map Prod.fst).getD []

variable (tbsFromMcs : ℤ → ℕ → ℤ)

/-- `generate_format0` for an allocation. -/
def transmit (s : UlSched) (dynamic : ℕ → ℤ × ℤ) (a : UlDataAlloc) : UlUser × UlSchedData :=
  let cceRange :=
    if a.type.needsPdcch then ((s.dciResult[a.dciIdx]?).map (·.dciPos)).getD ⟨0, 0⟩ else ⟨0, 0⟩
  let fixedMcs : ℤ := if a.type = .msg3 then a.mcs else -1
  (s.ueDb a.rnti).generateFormat0 tbsFromMcs s.ttiTxUl s.params.nofPrb a.alloc a.type.needsPdcch
    cceRange fixedMcs (dynamic a.rnti)

/-- One pass of the loop of `set_ul_sched_result`. A block without a size is not sent. -/
def setUlResult (dynamic : ℕ → ℤ × ℤ) (s : UlSched) (a : UlDataAlloc) : UlSched :=
  let (user, data) := s.transmit tbsFromMcs dynamic a
  { s with
    ueDb := Function.update s.ueDb a.rnti user
    pusch := if data.tbs ≤ 0 then s.pusch else s.pusch ++ [data] }

/-- `generate_dcis`, as far as the uplink goes. -/
def generateDcis (s : UlSched) (dynamic : ℕ → ℤ × ℤ) : UlSched :=
  s.ulDataAllocs.foldl (setUlResult tbsFromMcs dynamic) s

end UlSched

end SrsLte

/-!
The steps of a run are the calls that reach the scheduler of a carrier, in any order: those of the
subframes, with the allocations that a metric may ask for, and the indications and configurations
that come from outside.
-/

namespace SrsLte

inductive UlEvent
  | newTti (params : TtiParams)
  | allocDlCtrl (aggrLvl : Fin 4) (allocType : AllocType)
  | allocDlUser (user : SchedUe) (aggrLevel : Fin 4) (userMask : RbgMask)
  | blockDl
  | reservePrach (prachMask : PrbMask)
  | reservePucch (pucchMask : PrbMask)
  | allocUlUser (rnti : ℕ) (aggrIdx : Fin 4) (alloc : UlAlloc)
  | allocUlMsg3 (rnti : ℕ) (alloc : UlAlloc) (mcs : ℕ)
  | generateDcis (dynamic : ℕ → ℤ × ℤ)
  | finishTti
  | setUlCrc (tti rnti : ℕ) (crcRes : Bool)
  | setCfg (rnti : ℕ) (cfg : UlUserCfg)

/-- The scheduler with the PRBs of the last transmission of the block in each process. -/
structure UlHistory where
  sched : UlSched
  sent : ℕ → Fin 8 → Option UlAlloc

namespace UlHistory

variable (tbsFromMcs : ℤ → ℕ → ℤ)

def start (params : TtiParams) (cfgs : ℕ → UlUserCfg) : UlHistory where
  sched :=
    { params := params
      ttiAlloc := TtiGrid.newTti params
      ulDataAllocs := []
      pusch := []
      ueDb := fun rnti => UlUser.setCfg rnti (cfgs rnti) }
  sent := fun _ _ => none

/-- The allocation is transmitted in process `i` of its user. -/
def recordSent (i : Fin 8) (sent : ℕ → Fin 8 → Option UlAlloc) (a : UlDataAlloc) :
    ℕ → Fin 8 → Option UlAlloc :=
  Function.update sent a.rnti (Function.update (sent a.rnti) i (some a.alloc))

def lastSent (h : UlHistory) (rnti : ℕ) : Option UlAlloc :=
  h.sent rnti (UlUser.pid h.sched.ttiTxUl)

def withGrid (h : UlHistory) (ttiAlloc : TtiGrid) : UlHistory :=
  { h with sched := { h.sched with ttiAlloc := ttiAlloc } }

def withUsers (h : UlHistory) (ueDb : ℕ → UlUser) : UlHistory :=
  { h with sched := { h.sched with ueDb := ueDb } }

def step (h : UlHistory) : UlEvent → UlHistory
  | .newTti params => { h with sched := h.sched.newTti params }
  | .allocDlCtrl aggrLvl allocType =>
    h.withGrid (h.sched.ttiAlloc.allocDlCtrl h.sched.params aggrLvl allocType).1.1
  | .allocDlUser user aggrLevel userMask =>
    h.withGrid (h.sched.ttiAlloc.allocDlData h.sched.params user aggrLevel userMask).1
  | .blockDl => h.withGrid h.sched.ttiAlloc.blockDl
  | .reservePrach prachMask => h.withGrid (h.sched.ttiAlloc.reservePrach prachMask)
  | .reservePucch pucchMask => h.withGrid (h.sched.ttiAlloc.reservePucch pucchMask)
  | .allocUlUser rnti aggrIdx alloc =>
    { h with sched := (h.sched.allocUlUser rnti aggrIdx alloc).1 }
  | .allocUlMsg3 rnti alloc mcs => { h with sched := (h.sched.allocUlMsg3 rnti alloc mcs).1 }
  | .generateDcis dynamic =>
    { sched := h.sched.generateDcis tbsFromMcs dynamic
      sent := h.sched.ulDataAllocs.foldl (recordSent (UlUser.pid h.sched.ttiTxUl)) h.sent }
  | .finishTti => h.withUsers fun rnti => (h.sched.ueDb rnti).finishTti h.sched.ttiTxUl
  | .setUlCrc tti rnti crcRes =>
    h.withUsers (Function.update h.sched.ueDb rnti ((h.sched.ueDb rnti).setUlCrc tti crcRes))
  | .setCfg rnti cfg =>
    { h.withUsers (Function.update h.sched.ueDb rnti (UlUser.setCfg rnti cfg)) with
      sent := Function.update h.sent rnti fun _ => none }

/-- A retransmission that `alloc_ul_user` grants without a DCI uses the PRBs of the transmission
before it. -/
def GrantsConsistently (h : UlHistory) (rnti : ℕ) (aggrIdx : Fin 4) (alloc : UlAlloc) : Prop :=
  (h.sched.allocUlUser rnti aggrIdx alloc).2 = .success → (h.sched.harq rnti).hasPendingRetx →
    ∃ a, (h.sched.allocUlUser rnti aggrIdx alloc).1.ulDataAllocs = h.sched.ulDataAllocs ++ [a] ∧
      a.rnti = rnti ∧ a.alloc = alloc ∧
      (a.type.needsPdcch = false → h.lastSent rnti = some alloc)

/-- The process has recorded the PRBs of its last transmission when it retransmits without a DCI,
and a retransmission on other PRBs has its DCI in the PDCCH and in the result for the PHY. -/
def TransmitsConsistently (h : UlHistory) (dynamic : ℕ → ℤ × ℤ) (a : UlDataAlloc) : Prop :=
  let recorded := ((h.sched.generateDcis tbsFromMcs dynamic).harq a.rnti).allocation
  recorded = a.alloc ∧
    (a.type.needsPdcch = false → h.lastSent a.rnti = some recorded) ∧
    (h.lastSent a.rnti ≠ some recorded → ∃ d ∈ h.sched.dciResult[a.dciIdx]?, d.rnti = a.rnti ∧
      (0 < (h.sched.transmit tbsFromMcs dynamic a).2.tbs →
        ∃ data ∈ (h.sched.generateDcis tbsFromMcs dynamic).pusch, data.needsPdcch = true ∧
          data.location = d.dciPos ∧ data.rnti = a.rnti ∧
          data.riv = raType2ToRiv recorded.L recorded.rbStart h.sched.params.nofPrb))

/-- The allocations for a block that is already there are retransmissions; those for a Msg3 do not
come from `alloc_ul_user`. -/
def Consistent (h : UlHistory) : UlEvent → Prop
  | .allocUlUser rnti aggrIdx alloc => h.GrantsConsistently rnti aggrIdx alloc
  | .generateDcis dynamic =>
    ∀ a ∈ h.sched.ulDataAllocs, a.type ≠ .msg3 → (h.sched.harq a.rnti).isEmptyTb 0 = false →
      h.TransmitsConsistently tbsFromMcs dynamic a
  | _ => True

def HasRoom (g : TtiGrid) (alloc : UlAlloc) : Prop :=
  alloc.rbEnd ≤ g.ulMask.size ∧
    (g.ulMask.and ((BoundedBitset.empty g.ulMask.size g.ulSize_le).fill alloc.rbStart
      alloc.rbEnd)).any = false

/-- The user has nothing in this subframe yet and there is room for a retransmission that keeps the
length and moves the start away from a start that was equal to the length. -/
def Misjudged (h : UlHistory) (rnti : ℕ) (alloc : UlAlloc) : Prop :=
  let prevAlloc := (h.sched.harq rnti).allocation
  h.sched.isUlAlloc rnti = false ∧ HasRoom h.sched.ttiAlloc alloc ∧
    (h.sched.harq rnti).hasPendingRetx = true ∧
    prevAlloc.L = alloc.L ∧ prevAlloc.rbStart = prevAlloc.L ∧ alloc.rbStart ≠ prevAlloc.rbStart

def WellJudged (h : UlHistory) : UlEvent → Prop
  | .allocUlUser rnti _ alloc => ¬h.Misjudged rnti alloc
  | _ => True

end UlHistory

end SrsLte

/-!
A call for uplink resources either fails and changes nothing or appends one allocation, with the
DCI that belongs to it. The end of the subframe lets the process of each allocation transmit once.
-/

namespace SrsLte

theorem PdcchGrid.Inv.allocDci_grows {t : PdcchTti} {g : PdcchGrid}
    {granted : List (AllocType × Fin 4)} (h : PdcchGrid.Inv t g granted)
    (allocType : AllocType) (aggrIdx : Fin 4) :
    ∃ more, PdcchGrid.Inv t (g.allocDci t allocType aggrIdx).1 (granted ++ more) := by
  cases hok : (g.allocDci t allocType aggrIdx).2 with
  | false =>
    refine ⟨[], ?_⟩
    rw [List.append_nil, h.allocDci_failed t (allocType, aggrIdx) hok]
    exact h
  | true => exact ⟨_, h.allocDci_granted t (allocType, aggrIdx) hok⟩

namespace TtiGrid

variable {t : TtiParams} {g : TtiGrid} {granted : List (AllocType × Fin 4)}

theorem allocDl_grows (h : PdcchGrid.Inv t.pdcch g.pdcchAlloc granted) (aggrLvl : Fin 4)
    (allocType : AllocType) (allocMask : RbgMask) :
    ∃ more, PdcchGrid.Inv t.pdcch (g.allocDl t aggrLvl allocType allocMask).1.pdcchAlloc
      (granted ++ more) := by
  unfold allocDl
  split_ifs
  · exact ⟨[], (List.append_nil granted).symm ▸ h⟩
  · dsimp only
    split_ifs
    · exact h.allocDci_grows allocType aggrLvl
    · exact h.allocDci_grows allocType aggrLvl

theorem allocDlCtrl_grows (h : PdcchGrid.Inv t.pdcch g.pdcchAlloc granted) (aggrLvl : Fin 4)
    (allocType : AllocType) :
    ∃ more, PdcchGrid.Inv t.pdcch (g.allocDlCtrl t aggrLvl allocType).1.1.pdcchAlloc
      (granted ++ more) := by
  have hkept : ∃ more, PdcchGrid.Inv t.pdcch g.pdcchAlloc (granted ++ more) :=
    ⟨[], (List.append_nil granted).symm ▸ h⟩
  unfold allocDlCtrl
  cases allocType with
  | dlData user => exact hkept
  | ulData user => exact hkept
  | dlBc | dlPcch | dlRar =>
    dsimp only
    split_ifs
    · exact hkept
    · exact allocDl_grows h aggrLvl _ _

end TtiGrid

section

variable {g : TtiGrid} {alloc : UlAlloc}

theorem allocUlData_success_iff (t : TtiParams) (user : SchedUe) (aggrIdx : Fin 4) :
    (g.allocUlData t user aggrIdx alloc false).2 = .success ↔ UlHistory.HasRoom g alloc := by
  unfold TtiGrid.allocUlData UlHistory.HasRoom
  by_cases hend : alloc.rbEnd > g.ulMask.size
  · rw [if_pos hend]
    exact iff_of_false nofun fun hroom => absurd hroom.1 (Nat.not_le.mpr hend)
  · rw [if_neg hend]
    dsimp only
    cases hany : (g.ulMask.and ((BoundedBitset.empty g.ulMask.size g.ulMask.size_le).fill
        alloc.rbStart alloc.rbEnd)).any with
    | true => exact iff_of_false nofun fun hroom => nomatch hroom.2
    | false => exact iff_of_true rfl ⟨Nat.not_lt.mp hend, rfl⟩

end

namespace UlSched

variable {s : UlSched} {granted : List (AllocType × Fin 4)} {rnti : ℕ} {alloc : UlAlloc}

def grant (s : UlSched) (ttiAlloc : TtiGrid) (rnti : ℕ) (alloc : UlAlloc) (type : UlAllocType)
    (mcs : ℕ) : UlSched :=
  { s with
    ttiAlloc := ttiAlloc
    ulDataAllocs := s.ulDataAllocs ++
      [{ type := type, dciIdx := ttiAlloc.pdcchAlloc.nofDciAllocs - 1, rnti := rnti, alloc := alloc,
         mcs := mcs }] }

theorem allocUl_cases (h : PdcchGrid.Inv s.params.pdcch s.ttiAlloc.pdcchAlloc granted) (rnti : ℕ)
    (aggrIdx : Fin 4) (alloc : UlAlloc) (type : UlAllocType) (mcs : ℕ) :
    (s.allocUl rnti aggrIdx alloc type mcs).2 ≠ .success ∧
        (s.allocUl rnti aggrIdx alloc type mcs).1 = s ∨
      s.isUlAlloc rnti = false ∧
        (s.ttiAlloc.allocUlData s.params (s.ueDb rnti).ue aggrIdx alloc type.needsPdcch).2
          = .success ∧
        ∃ ttiAlloc : TtiGrid,
          PdcchGrid.Inv s.params.pdcch ttiAlloc.pdcchAlloc
            (if type.needsPdcch then granted ++ [(.ulData (s.ueDb rnti).ue, aggrIdx)]
              else granted) ∧
          s.allocUl rnti aggrIdx alloc type mcs
            = (s.grant ttiAlloc rnti alloc type mcs, .success) := by
  unfold allocUl
  cases hfirst : s.isUlAlloc rnti with
  | true =>
    rw [if_pos rfl]
    exact Or.inl ⟨nofun, rfl⟩
  | false =>
    rw [if_neg Bool.false_ne_true]
    dsimp only
    rcases TtiGrid.allocUlData_cases h (s.ueDb rnti).ue aggrIdx alloc type.needsPdcch with
      ⟨hfail, hkept⟩ | ⟨-, pdcchAlloc, ulMask, hinv, -, -, heq⟩
    · rw [if_pos hfail, hkept]
      exact Or.inl ⟨hfail, rfl⟩
    · rw [heq]
      exact Or.inr ⟨rfl, rfl, { s.ttiAlloc with pdcchAlloc := pdcchAlloc, ulMask := ulMask }, hinv,
        rfl⟩

theorem isUlAlloc_eq_false_iff :
    s.isUlAlloc rnti = false ↔ rnti ∉ s.ulDataAllocs.map (·.rnti) := by
  rw [isUlAlloc, List.any_eq_false, List.mem_map]
  constructor
  · rintro hnone ⟨a, ha, heq⟩
    exact hnone a ha (decide_eq_true heq)
  · intro hnone a ha heq
    exact hnone ⟨a, ha, of_decide_eq_true heq⟩

theorem needsPdcch_userAllocType_iff {h : UlHarqProc} (hpending : h.hasPendingRetx = true) :
    (userAllocType h alloc).needsPdcch = false
      ↔ h.allocation.L = alloc.L ∧ h.allocation.rbStart = h.allocation.L := by
  unfold userAllocType
  rw [if_pos hpending]
  dsimp only
  split_ifs with hsame
  · exact iff_of_true rfl hsame
  · exact iff_of_false nofun hsame

section

variable (tbsFromMcs : ℤ → ℕ → ℤ) (dynamic : ℕ → ℤ × ℤ)

theorem generateDcis_cons (s : UlSched) (a : UlDataAlloc) (l : List UlDataAlloc) :
    (a :: l).foldl (setUlResult tbsFromMcs dynamic) s
      = l.foldl (setUlResult tbsFromMcs dynamic) (setUlResult tbsFromMcs dynamic s a) := rfl

theorem transmit_data (s : UlSched) (a : UlDataAlloc) :
    (s.transmit tbsFromMcs dynamic a).2.needsPdcch = a.type.needsPdcch ∧
      (s.transmit tbsFromMcs dynamic a).2.location = (if a.type.needsPdcch then
        ((s.dciResult[a.dciIdx]?).map (·.dciPos)).getD ⟨0, 0⟩ else ⟨0, 0⟩) ∧
      (s.transmit tbsFromMcs dynamic a).2.rnti = (s.ueDb a.rnti).ue.rnti ∧
      (s.transmit tbsFromMcs dynamic a).2.riv
        = raType2ToRiv a.alloc.L a.alloc.rbStart s.params.nofPrb := by
  unfold transmit UlUser.generateFormat0
  dsimp only
  exact ⟨rfl, rfl, rfl, rfl⟩

theorem pusch_setUlResult (s : UlSched) (a : UlDataAlloc) :
    (setUlResult tbsFromMcs dynamic s a).pusch
      = if (s.transmit tbsFromMcs dynamic a).2.tbs ≤ 0 then s.pusch
        else s.pusch ++ [(s.transmit tbsFromMcs dynamic a).2] := rfl

theorem foldl_setUlResult_frame (l : List UlDataAlloc) (s : UlSched) :
    let s' := l.foldl (setUlResult tbsFromMcs dynamic) s
    s'.params = s.params ∧ s'.ttiAlloc = s.ttiAlloc ∧ s'.ulDataAllocs = s.ulDataAllocs := by
  induction l generalizing s with
  | nil => exact ⟨rfl, rfl, rfl⟩
  | cons a l ih => exact ih (setUlResult tbsFromMcs dynamic s a)

theorem foldl_setUlResult_pusch (l : List UlDataAlloc) (s : UlSched) {data : UlSchedData}
    (hdata : data ∈ s.pusch) : data ∈ (l.foldl (setUlResult tbsFromMcs dynamic) s).pusch := by
  induction l generalizing s with
  | nil => exact hdata
  | cons a l ih =>
    apply ih
    rw [pusch_setUlResult]
    split_ifs
    · exact hdata
    · exact List.mem_append_left _ hdata

theorem foldl_setUlResult_other (l : List UlDataAlloc) (s : UlSched)
    (hother : rnti ∉ l.map (·.rnti)) :
    (l.foldl (setUlResult tbsFromMcs dynamic) s).ueDb rnti = s.ueDb rnti := by
  induction l generalizing s with
  | nil => rfl
  | cons a l ih =>
    rw [List.map_cons, List.mem_cons, not_or] at hother
    rw [generateDcis_cons, ih _ hother.2]
    exact Function.update_of_ne hother.1 _ _

theorem foldl_setUlResult_mem {l : List UlDataAlloc} (s : UlSched)
    (hnodup : (l.map (·.rnti)).Nodup) {a : UlDataAlloc} (ha : a ∈ l) :
    let s' := l.foldl (setUlResult tbsFromMcs dynamic) s
    s'.ueDb a.rnti = (s.transmit tbsFromMcs dynamic a).1 ∧
      (0 < (s.transmit tbsFromMcs dynamic a).2.tbs →
        (s.transmit tbsFromMcs dynamic a).2 ∈ s'.pusch) := by
  induction l generalizing s with
  | nil => exact absurd ha List.not_mem_nil
  | cons b l ih =>
    rw [List.map_cons, List.nodup_cons] at hnodup
    dsimp only
    rw [generateDcis_cons]
    rcases List.mem_cons.mp ha with rfl | hrest
    · constructor
      · rw [foldl_setUlResult_other _ _ l _ hnodup.1]
        exact Function.update_self a.rnti _ s.ueDb
      · intro htbs
        apply foldl_setUlResult_pusch
        rw [pusch_setUlResult, if_neg (Int.not_le.mpr htbs)]
        exact List.mem_append_right _ List.mem_cons_self
    · have hne : a.rnti ≠ b.rnti := by
        intro heq
        exact hnodup.1 (List.mem_map.mpr ⟨a, hrest, heq⟩)
      have hsame : (setUlResult tbsFromMcs dynamic s b).transmit tbsFromMcs dynamic a
          = s.transmit tbsFromMcs dynamic a := by
        have huser : (setUlResult tbsFromMcs dynamic s b).ueDb a.rnti = s.ueDb a.rnti :=
          Function.update_of_ne hne _ _
        unfold transmit
        rw [huser]
        rfl
      have hih := ih (setUlResult tbsFromMcs dynamic s b) hnodup.2 hrest
      rw [hsame] at hih
      exact hih

end

end UlSched

end SrsLte
