import Mathlib.Data.Fin.Basic
import SrsLte.EventRun
import SrsLte.TtiGrid

/-!
# HARQ processes of the eNB

A process holds up to two transport blocks. The functions of `harq_proc` that work on one
transport block are given for the block first, then for the process.
-/

namespace SrsLte

inductive AckT
  | nullAck
  | nack
  | ack
  deriving DecidableEq

/-- What `harq_proc` keeps for one transport block. -/
structure HarqTb where
  ackState : AckT
  active : Bool
  ndi : Bool
  nRtx : ℕ
  txCnt : ℕ
  lastMcs : ℤ
  lastTbs : ℤ
  deriving DecidableEq

namespace HarqTb

def reset (tb : HarqTb) : HarqTb :=
  { tb with
    ackState := .nullAck, active := false, nRtx := 0, lastMcs := -1, lastTbs := -1, txCnt := 0 }

def setAck (tb : HarqTb) (maxRetx : Fin (2 ^ 32)) (ack : Bool) : HarqTb :=
  { tb with
    ackState := if ack then .ack else .nack
    active :=
      if ¬ ack ∧ (tb.nRtx + 1) % 2 ^ 32 ≥ (maxRetx : ℕ) then false
      else if ack then false
      else tb.active }

def newTx (tb : HarqTb) (mcs tbs : ℤ) : HarqTb :=
  { tb.reset with ndi := !tb.ndi, txCnt := 1, lastMcs := mcs, lastTbs := tbs, active := true }

def newRetx (tb : HarqTb) : HarqTb :=
  { tb with ackState := .nack, nRtx := (tb.nRtx + 1) % 2 ^ 32 }

theorem active_nack (tb : HarqTb) (maxRetx : Fin (2 ^ 32)) :
    (tb.setAck maxRetx false).active =
      if (tb.nRtx + 1) % 2 ^ 32 ≥ (maxRetx : ℕ) then false else tb.active := by
  simp [setAck]

end HarqTb

structure HarqProc where
  id : ℕ
  maxRetx : Fin (2 ^ 32)
  tti : ℕ
  tb : Fin 2 → HarqTb
  deriving DecidableEq

namespace HarqProc

/-- A process as it is constructed, with all fields zero, after `config`. -/
def config (id : ℕ) (maxRetx : Fin (2 ^ 32)) : HarqProc where
  id := id
  maxRetx := maxRetx
  tti := 0
  tb := fun _ =>
    { ackState := .nullAck, active := false, ndi := false, nRtx := 0, txCnt := 0, lastMcs := 0,
      lastTbs := 0 }

def reset (h : HarqProc) (tbIdx : Fin 2) : HarqProc :=
  { h with tti := 0, tb := Function.update h.tb tbIdx (h.tb tbIdx).reset }

def isEmptyTb (h : HarqProc) (tbIdx : Fin 2) : Bool := !(h.tb tbIdx).active

def isEmpty (h : HarqProc) : Bool := h.isEmptyTb 0 && h.isEmptyTb 1

def hasPendingRetxCommon (h : HarqProc) (tbIdx : Fin 2) : Bool :=
  !h.isEmptyTb tbIdx && (h.tb tbIdx).ackState = .nack

def setAckCommon (h : HarqProc) (tbIdx : Fin 2) (ack : Bool) : HarqProc :=
  { h with tb := Function.update h.tb tbIdx ((h.tb tbIdx).setAck h.maxRetx ack) }

def newTxCommon (h : HarqProc) (tbIdx : Fin 2) (tti : ℕ) (mcs tbs : ℤ) : HarqProc :=
  { h.reset tbIdx with
    tti := tti
    tb := Function.update h.tb tbIdx ((h.tb tbIdx).newTx mcs tbs) }

def newRetxCommon (h : HarqProc) (tbIdx : Fin 2) (tti : ℕ) : HarqProc × ℤ × ℤ :=
  ({ h with tti := tti, tb := Function.update h.tb tbIdx (h.tb tbIdx).newRetx },
    (h.tb tbIdx).lastMcs, (h.tb tbIdx).lastTbs)

def resetPendingDataCommon (h : HarqProc) : HarqProc :=
  if h.maxRetx = 0 ∧ ¬ h.isEmpty then { h with tb := fun i => { h.tb i with active := false } }
  else h

theorem isEmptyTb_iff {h : HarqProc} {tbIdx : Fin 2} :
    h.isEmptyTb tbIdx = true ↔ (h.tb tbIdx).active = false := by
  simp [isEmptyTb]

theorem isEmptyTb_eq_false_iff {h : HarqProc} {tbIdx : Fin 2} :
    h.isEmptyTb tbIdx = false ↔ (h.tb tbIdx).active = true := by
  simp [isEmptyTb]

theorem tb_reset_reset (h : HarqProc) (tbIdx : Fin 2) :
    ((h.reset 0).reset 1).tb tbIdx = (h.tb tbIdx).reset := by
  match tbIdx with
  | 0 => rfl
  | 1 => rfl

theorem active_of_isEmpty {h : HarqProc} (hempty : h.isEmpty = true) (tbIdx : Fin 2) :
    (h.tb tbIdx).active = false := by
  have hboth := Bool.and_eq_true_iff.mp hempty
  match tbIdx with
  | 0 => exact isEmptyTb_iff.mp hboth.1
  | 1 => exact isEmptyTb_iff.mp hboth.2

theorem tb_resetPendingDataCommon (h : HarqProc) (tbIdx : Fin 2) :
    h.resetPendingDataCommon.tb tbIdx =
      { h.tb tbIdx with active := if h.maxRetx = 0 then false else (h.tb tbIdx).active } := by
  unfold resetPendingDataCommon
  by_cases hzero : h.maxRetx = 0
  · rw [if_pos hzero]
    cases hempty : h.isEmpty with
    | false => rw [if_pos ⟨hzero, Bool.false_ne_true⟩]
    | true =>
      rw [if_neg (fun hc => hc.2 rfl), ← active_of_isEmpty hempty tbIdx]
  · rw [if_neg (fun hc => hzero hc.1), if_neg hzero]

theorem maxRetx_resetPendingDataCommon (h : HarqProc) :
    h.resetPendingDataCommon.maxRetx = h.maxRetx := by
  unfold resetPendingDataCommon
  split_ifs <;> rfl

end HarqProc

/-- `srslte_tti_interval`. -/
def ttiInterval (tti1 tti2 : ℕ) : ℕ :=
  if tti1 ≥ tti2 then tti1 - tti2 else 10240 - tti2 + tti1

/-- `SRSLTE_FDD_NOF_HARQ`, the delays of the transmission and of its feedback. -/
def fddNofHarq : ℕ := 8

structure DlHarqProc extends HarqProc where
  rbgmask : RbgMask
  nCce : ℕ
  deriving DecidableEq

namespace DlHarqProc

def newTx (h : DlHarqProc) (newMask : RbgMask) (tbIdx : Fin 2) (tti : ℕ) (mcs tbs : ℤ)
    (nCce : ℕ) : DlHarqProc :=
  { toHarqProc := h.newTxCommon tbIdx tti mcs tbs, nCce := nCce, rbgmask := newMask }

def newRetx (h : DlHarqProc) (newMask : RbgMask) (tbIdx : Fin 2) (tti nCce : ℕ) :
    DlHarqProc × ℤ × ℤ :=
  let (h', mcs, tbs) := h.newRetxCommon tbIdx tti
  ({ toHarqProc := h', nCce := nCce, rbgmask := newMask }, mcs, tbs)

def setAck (h : DlHarqProc) (tbIdx : Fin 2) (ack : Bool) : DlHarqProc :=
  { h with toHarqProc := h.setAckCommon tbIdx ack }

def hasPendingRetx (h : DlHarqProc) (tbIdx : Fin 2) (currentTti : ℕ) : Bool :=
  let ttiDiff := ttiInterval currentTti h.tti
  ttiDiff < 10240 / 2 && ttiDiff ≥ fddNofHarq && h.hasPendingRetxCommon tbIdx

def getTbs (h : DlHarqProc) (tbIdx : Fin 2) : ℤ := (h.tb tbIdx).lastTbs

def resetPendingData (h : DlHarqProc) : DlHarqProc :=
  { h with toHarqProc := h.resetPendingDataCommon }

/-- All transport blocks are reset, as in `reset_old_pending_pids`. -/
def resetAll (h : DlHarqProc) : DlHarqProc :=
  { h with toHarqProc := (h.reset 0).reset 1 }

/-- A transport block in `generate_format1` and `generate_format2a`. -/
def transmit (h : DlHarqProc) (userMask : RbgMask) (tbIdx : Fin 2) (tti : ℕ) (mcs tbs : ℤ)
    (nCce : ℕ) : DlHarqProc :=
  if h.isEmptyTb tbIdx then h.newTx userMask tbIdx tti mcs tbs nCce
  else (h.newRetx userMask tbIdx tti nCce).1

end DlHarqProc

structure UlHarqProc extends HarqProc where
  allocation : UlAlloc
  pendingData : ℤ
  isAdaptive : Bool
  pendingAck : AckT
  deriving DecidableEq

namespace UlHarqProc

def newTx (h : UlHarqProc) (tti : ℕ) (mcs tbs : ℤ) (alloc : UlAlloc) (maxRetx : Fin (2 ^ 32)) :
    UlHarqProc where
  toHarqProc := HarqProc.newTxCommon { h.toHarqProc with maxRetx := maxRetx } 0 tti mcs tbs
  allocation := alloc
  pendingData := tbs
  isAdaptive := false
  pendingAck := .nullAck

def newRetx (h : UlHarqProc) (tbIdx : Fin 2) (tti : ℕ) (alloc : UlAlloc) :
    UlHarqProc × ℤ × ℤ :=
  let (h', mcs, tbs) := h.newRetxCommon tbIdx tti
  ({ h with
      toHarqProc := h'
      isAdaptive := h.isAdaptive || alloc ≠ h.allocation
      allocation := alloc }, mcs, tbs)

def setAck (h : UlHarqProc) (tbIdx : Fin 2) (ack : Bool) : UlHarqProc :=
  { h with
    toHarqProc := h.setAckCommon tbIdx ack
    pendingAck := if ack then .ack else .nack }

def hasPendingRetx (h : UlHarqProc) : Bool := h.hasPendingRetxCommon 0

def resetPendingData (h : UlHarqProc) : UlHarqProc :=
  let h' := h.resetPendingDataCommon
  { h with
    toHarqProc := h'
    pendingAck := .nullAck
    pendingData := if h'.isEmptyTb 0 then 0 else h.pendingData }

/-- All transport blocks are reset, as in `sched_ue_carrier::reset`. -/
def resetAll (h : UlHarqProc) : UlHarqProc :=
  { h with toHarqProc := (h.reset 0).reset 1 }

/-- The transport block in `generate_format0`. -/
def transmit (h : UlHarqProc) (tti : ℕ) (mcs tbs : ℤ) (alloc : UlAlloc)
    (maxRetx : Fin (2 ^ 32)) : UlHarqProc :=
  if h.isEmptyTb 0 then h.newTx tti mcs tbs alloc maxRetx else (h.newRetx 0 tti alloc).1

end UlHarqProc
end SrsLte

/-!
`set_ack_info` gives an indication to the first downlink process whose stored TTI is four before
the TTI of the feedback. A process that was reset or never used stores TTI 0, and stored TTIs
count modulo 10240, so other processes can match as well.
-/

namespace SrsLte

open EventRun

/-- `TTI_TX`, for the four milliseconds of `TX_DELAY`. -/
def ttiTx (tti : ℕ) : ℕ := (tti + 4) % 10240

/-- `TTI_RX_ACK`. -/
def ttiRxAck (tti : ℕ) : ℕ := (tti + 8) % 10240

structure SchedUeCarrier where
  dlHarq : Fin 8 → DlHarqProc
  ulHarq : Fin 8 → UlHarqProc

namespace SchedUeCarrier

def init (maxharqTx : Fin (2 ^ 32)) : SchedUeCarrier where
  dlHarq := fun i =>
    { toHarqProc := HarqProc.config i maxharqTx
      rbgmask := BoundedBitset.empty 0 (Nat.zero_le _)
      nCce := 0 }
  ulHarq := fun i =>
    { toHarqProc := HarqProc.config i maxharqTx
      allocation := ⟨0, 0⟩
      pendingData := 0
      isAdaptive := false
      pendingAck := .nullAck }

def reset (c : SchedUeCarrier) : SchedUeCarrier where
  dlHarq := fun i => (c.dlHarq i).resetAll
  ulHarq := fun i => (c.ulHarq i).resetAll

/-- Whether `reset_old_pending_pids` resets the process. -/
def isOld (h : DlHarqProc) (ttiTxDl : ℕ) : Bool :=
  let h' := h.resetPendingData
  let ttiDiff := ttiInterval ttiTxDl h'.tti
  !h'.isEmpty && ttiDiff > 50 && ttiDiff < 10240 / 2

def resetOldPendingPids (c : SchedUeCarrier) (ttiRx : ℕ) : SchedUeCarrier where
  dlHarq := fun i =>
    if isOld (c.dlHarq i) (ttiTx ttiRx) then (c.dlHarq i).resetPendingData.resetAll
    else (c.dlHarq i).resetPendingData
  ulHarq :=
    let i := Fin.ofNat 8 (ttiRxAck ttiRx)
    Function.update c.ulHarq i (c.ulHarq i).resetPendingData

def getEmptyDlHarq (c : SchedUeCarrier) : Option (Fin 8) :=
  Fin.find? fun i => (c.dlHarq i).isEmptyTb 0 && (c.dlHarq i).isEmptyTb 1

/-- The process that `set_ack_info` finds. -/
def ackTarget (c : SchedUeCarrier) (ttiRx : ℕ) : Option (Fin 8) :=
  Fin.find? fun i => ttiTx (c.dlHarq i).tti = ttiRx

def setAckInfo (c : SchedUeCarrier) (ttiRx : ℕ) (tbIdx : Fin 2) (ack : Bool) :
    SchedUeCarrier × ℤ :=
  match c.ackTarget ttiRx with
  | some i =>
    let h := (c.dlHarq i).setAck tbIdx ack
    ({ c with dlHarq := Function.update c.dlHarq i h }, h.getTbs tbIdx)
  | none => (c, -1)

/-- A transmission of the process `pid`, as decided by `get_pending_dl_harq` or
`get_empty_dl_harq`. -/
def transmitDl (c : SchedUeCarrier) (pid : Fin 8) (userMask : RbgMask) (tbIdx : Fin 2) (tti : ℕ)
    (mcs tbs : ℤ) (nCce : ℕ) : SchedUeCarrier :=
  { c with
    dlHarq := Function.update c.dlHarq pid
      ((c.dlHarq pid).transmit userMask tbIdx tti mcs tbs nCce) }

inductive Event
  | transmit (pid : Fin 8) (userMask : RbgMask) (tbIdx : Fin 2) (ttiTxDl : ℕ) (mcs tbs : ℤ)
    (nCce : ℕ)
  | ack (ttiRx : ℕ) (tbIdx : Fin 2) (ack : Bool)
  | finishTti (ttiRx : ℕ)
  | reset

/-- A carrier with the TTI of the last transmission of each process since it was reset. -/
structure History where
  carrier : SchedUeCarrier
  sentAt : Fin 8 → Option ℕ

def newHistory (maxharqTx : Fin (2 ^ 32)) : History where
  carrier := init maxharqTx
  sentAt := fun _ => none

def step (h : History) : Event → History
  | .transmit pid userMask tbIdx ttiTxDl mcs tbs nCce =>
    { carrier := h.carrier.transmitDl pid userMask tbIdx (ttiTxDl % 10240) mcs tbs nCce
      sentAt := Function.update h.sentAt pid (some ttiTxDl) }
  | .ack ttiRx tbIdx ack =>
    { h with carrier := (h.carrier.setAckInfo (ttiRx % 10240) tbIdx ack).1 }
  | .finishTti ttiRx =>
    { carrier := h.carrier.resetOldPendingPids (ttiRx % 10240)
      sentAt := fun i =>
        if isOld (h.carrier.dlHarq i) (ttiTx (ttiRx % 10240)) then none else h.sentAt i }
  | .reset => { carrier := h.carrier.reset, sentAt := fun _ => none }

/-- The feedback for the last transmission of the process falls in `ttiRx`. -/
def Awaits (h : History) (i : Fin 8) (ttiRx : ℕ) : Prop :=
  ∃ ttiTxDl, h.sentAt i = some ttiTxDl ∧ ttiTxDl + 4 = ttiRx

def Routes (h : History) : Event → Prop
  | .ack ttiRx _ _ => ∀ i, h.carrier.ackTarget (ttiRx % 10240) = some i → Awaits h i ttiRx
  | _ => True

/-- Modulo 10240, the process looks as if its feedback fell in `ttiRx`: it was last used a multiple
of 10240 TTIs away, or it was not used since its reset and `ttiRx` is 4. -/
def Resembles (h : History) (i : Fin 8) (ttiRx : ℕ) : Prop :=
  match h.sentAt i with
  | some ttiTxDl => (ttiTxDl + 4) % 10240 = ttiRx % 10240
  | none => ttiRx % 10240 = 4

def Unambiguous (h : History) : Event → Prop
  | .ack ttiRx _ _ => ∀ i, Resembles h i ttiRx → ∃ j ≤ i, Awaits h j ttiRx
  | _ => True

/-- A process stores the TTI of its last transmission since its reset, and otherwise 0. -/
def Inv (h : History) : Prop :=
  ∀ i, (h.carrier.dlHarq i).tti = ((h.sentAt i).map (· % 10240)).getD 0

theorem inv_newHistory (maxharqTx : Fin (2 ^ 32)) : Inv (newHistory maxharqTx) := fun _ => rfl

theorem tti_transmit (h : DlHarqProc) (userMask : RbgMask) (tbIdx : Fin 2) (tti : ℕ)
    (mcs tbs : ℤ) (nCce : ℕ) : (h.transmit userMask tbIdx tti mcs tbs nCce).tti = tti := by
  unfold DlHarqProc.transmit
  split_ifs <;> rfl

theorem tti_resetPendingData (h : DlHarqProc) : h.resetPendingData.tti = h.tti := by
  unfold DlHarqProc.resetPendingData HarqProc.resetPendingDataCommon
  split_ifs <;> rfl

theorem tti_setAckInfo (c : SchedUeCarrier) (ttiRx : ℕ) (tbIdx : Fin 2) (ack : Bool) (i : Fin 8) :
    ((c.setAckInfo ttiRx tbIdx ack).1.dlHarq i).tti = (c.dlHarq i).tti := by
  unfold setAckInfo
  cases c.ackTarget ttiRx with
  | none => rfl
  | some j =>
    rcases eq_or_ne i j with rfl | hne
    · simp [DlHarqProc.setAck, HarqProc.setAckCommon]
    · simp [hne]

theorem Inv.step {h : History} (hinv : Inv h) (e : Event) : Inv (step h e) := by
  intro i
  cases e with
  | transmit pid userMask tbIdx ttiTxDl mcs tbs nCce =>
    rcases eq_or_ne i pid with rfl | hne
    · simp [SchedUeCarrier.step, transmitDl, tti_transmit]
    · simp [SchedUeCarrier.step, transmitDl, hne, hinv i]
  | ack ttiRx tbIdx ack => exact (tti_setAckInfo _ _ _ _ _).trans (hinv i)
  | finishTti ttiRx =>
    simp only [SchedUeCarrier.step, resetOldPendingPids]
    split_ifs
    · rfl
    · exact (tti_resetPendingData _).trans (hinv i)
  | reset => rfl

theorem Inv.matches_iff {h : History} (hinv : Inv h) (i : Fin 8) (ttiRx : ℕ) :
    ttiTx (h.carrier.dlHarq i).tti = ttiRx % 10240 ↔ Resembles h i ttiRx := by
  rw [hinv i, Resembles, ttiTx]
  cases h.sentAt i with
  | none => exact eq_comm
  | some ttiTxDl => simp

theorem Awaits.resembles {h : History} {i : Fin 8} {ttiRx : ℕ} (ha : Awaits h i ttiRx) :
    Resembles h i ttiRx := by
  obtain ⟨ttiTxDl, hsent, rfl⟩ := ha
  rw [Resembles, hsent]

theorem Inv.ackTarget_eq_some_iff {h : History} (hinv : Inv h) (i : Fin 8) (ttiRx : ℕ) :
    h.carrier.ackTarget (ttiRx % 10240) = some i ↔
      Resembles h i ttiRx ∧ ∀ j < i, ¬ Resembles h j ttiRx := by
  unfold ackTarget
  rw [Fin.find?_eq_some_iff]
  simp only [decide_eq_true_eq, decide_eq_false_iff_not, hinv.matches_iff]

theorem Inv.routes_iff {h : History} (hinv : Inv h) (e : Event) : Routes h e ↔ Unambiguous h e := by
  cases e with
  | transmit pid userMask tbIdx ttiTxDl mcs tbs nCce => exact Iff.rfl
  | finishTti ttiRx => exact Iff.rfl
  | reset => exact Iff.rfl
  | ack ttiRx tbIdx ack =>
    constructor
    · intro hroutes i hi
      cases htarget : h.carrier.ackTarget (ttiRx % 10240) with
      | none =>
        have hno := Fin.find?_eq_none_iff.mp htarget i
        exact absurd ((hinv.matches_iff i ttiRx).mpr hi) (of_decide_eq_false hno)
      | some k =>
        have hfirst := ((hinv.ackTarget_eq_some_iff k ttiRx).mp htarget).2
        exact ⟨k, not_lt.mp fun hlt => hfirst i hlt hi, hroutes k htarget⟩
    · intro hclear i hi
      obtain ⟨hres, hfirst⟩ := (hinv.ackTarget_eq_some_iff i ttiRx).mp hi
      obtain ⟨j, hji, hj⟩ := hclear i hres
      rcases hji.lt_or_eq with hlt | rfl
      · exact absurd hj.resembles (hfirst j hlt)
      · exact hj

/-- In every run, the indications go only to processes whose feedback falls in their TTI, iff at
each indication the processes that only look like that stand behind such a process. -/
theorem along_routes_iff (maxharqTx : Fin (2 ^ 32)) (events : List Event) :
    Along step Routes (newHistory maxharqTx) events ↔
      Along step Unambiguous (newHistory maxharqTx) events :=
  along_congr (fun _ e hinv _ => hinv.step e) (fun _ e hinv => hinv.routes_iff e)
    (inv_newHistory maxharqTx)

/-- Process 0 is sent in TTI 10189 and gets no feedback. Process 1 is sent in TTI 10240, at whose
end process 0 is reset for its age. -/
def resetBeforeFeedback : List Event :=
  let mask : RbgMask := BoundedBitset.empty 0 (Nat.zero_le _)
  [.transmit 0 mask 0 10189 4 100 0, .transmit 1 mask 0 10240 4 100 0, .finishTti 10236]

/-- Process 1 was the first empty one, but the reset process 0 takes its ACK. -/
theorem reset_takes_ack :
    let sent := (resetBeforeFeedback.take 1).foldl step (newHistory 5)
    let h := resetBeforeFeedback.foldl step (newHistory 5)
    sent.carrier.getEmptyDlHarq = some 1 ∧ h.sentAt 0 = none ∧
      h.carrier.ackTarget (10244 % 10240) = some 0 ∧ ¬ Routes h (.ack 10244 0 true) := by
  have htarget : (resetBeforeFeedback.foldl step (newHistory 5)).carrier.ackTarget
      (10244 % 10240) = some 0 := by decide +kernel
  have hreset : (resetBeforeFeedback.foldl step (newHistory 5)).sentAt 0 = none := by
    decide +kernel
  refine ⟨by decide +kernel, hreset, htarget, fun h => ?_⟩
  obtain ⟨ttiTxDl, hsent, -⟩ := h 0 htarget
  exact absurd (hreset.symm.trans hsent) nofun

end SchedUeCarrier
end SrsLte
