import SrsLte.Harq
import SrsLte.EventRun

/-!
# Bound on the transmissions of a transport block

Only a NACK compares the number of retransmissions with `max_retx`, and a retransmission leaves the
block in the state NACK. A block whose feedback does not arrive is therefore sent again without
bound. The bound holds as long as each retransmission either answers a NACK that came after the
transmission before it, or finds that fewer than `max_retx` transmissions were made.
-/

namespace SrsLte
namespace HarqProc

open EventRun

/-- A transport block with the number of its transmissions and whether a NACK came after the last
of them. -/
structure TbRun where
  maxRetx : Fin (2 ^ 32)
  tb : HarqTb
  sent : ℕ
  nacked : Bool

/-- What can happen to a block: `transmit` starts a new block where there is none and retransmits
otherwise. A new block of an uplink process sets `max_retx`. -/
inductive TbEvent
  | transmit (mcs tbs : ℤ) (maxRetx : Option (Fin (2 ^ 32)))
  | ack (ack : Bool)
  | resetPendingData
  | reset
  | other

namespace TbRun

def step (r : TbRun) : TbEvent → TbRun
  | .transmit mcs tbs maxRetx =>
    if r.tb.active then { r with tb := r.tb.newRetx, sent := r.sent + 1, nacked := false }
    else
      { maxRetx := maxRetx.getD r.maxRetx, tb := r.tb.newTx mcs tbs, sent := 1, nacked := false }
  | .ack ack => { r with tb := r.tb.setAck r.maxRetx ack, nacked := r.nacked || !ack }
  | .resetPendingData =>
    { r with tb := { r.tb with active := if r.maxRetx = 0 then false else r.tb.active } }
  | .reset => { r with tb := r.tb.reset }
  | .other => r

def Starts (r : TbRun) : TbEvent → Prop
  | .transmit _ _ _ => r.tb.active = false
  | _ => False

/-- After the event a block that is still there was sent `max(1, max_retx)` times at most, and the
NDI has changed iff a new block was started. -/
def StepsWithin (r : TbRun) (e : TbEvent) : Prop :=
  ((r.step e).tb.active = true → (r.step e).sent ≤ max 1 (r.step e).maxRetx) ∧
    ((r.step e).tb.ndi ≠ r.tb.ndi ↔ r.Starts e)

/-- A retransmission answers a NACK, or it comes before `max_retx` transmissions were made. -/
def RetxAnswered (r : TbRun) : TbEvent → Prop
  | .transmit _ _ _ => r.tb.active = true → r.nacked = true ∨ r.tb.nRtx + 1 < r.maxRetx
  | _ => True

/-- A block that is there was sent `n_rtx + 1` times, and a NACK has not used up its
transmissions. -/
structure Inv (r : TbRun) : Prop where
  sent : r.tb.active = true → r.sent = r.tb.nRtx + 1
  bound : r.tb.active = true → r.sent ≤ max 1 r.maxRetx
  nacked : r.tb.active = true → r.nacked = true → r.sent < r.maxRetx

variable {r : TbRun}

theorem inv_of_inactive (h : r.tb.active = false) : Inv r where
  sent := fun ha => absurd ha (by simp [h])
  bound := fun ha => absurd ha (by simp [h])
  nacked := fun ha => absurd ha (by simp [h])

theorem ndi_changes_iff (r : TbRun) (e : TbEvent) : (r.step e).tb.ndi ≠ r.tb.ndi ↔ r.Starts e := by
  cases e with
  | transmit mcs tbs maxRetx =>
    rw [step, Starts]
    cases r.tb.active with
    | false => simp [HarqTb.newTx]
    | true => simp [HarqTb.newRetx]
  | ack ack => exact iff_of_false (fun h => h rfl) not_false
  | resetPendingData => exact iff_of_false (fun h => h rfl) not_false
  | reset => exact iff_of_false (fun h => h rfl) not_false
  | other => exact iff_of_false (fun h => h rfl) not_false

theorem Inv.sent_lt (h : Inv r) (hactive : r.tb.active = true) {mcs tbs : ℤ}
    {maxRetx : Option (Fin (2 ^ 32))} (he : r.RetxAnswered (.transmit mcs tbs maxRetx)) :
    r.tb.nRtx + 1 < r.maxRetx := by
  rcases he hactive with hnacked | hlt
  · rw [← h.sent hactive]
    exact h.nacked hactive hnacked
  · exact hlt

theorem Inv.step (h : Inv r) {e : TbEvent} (he : r.RetxAnswered e) : Inv (r.step e) := by
  cases e with
  | transmit mcs tbs maxRetx =>
    rw [TbRun.step]
    cases hactive : r.tb.active with
    | false =>
      refine ⟨fun _ => rfl, fun _ => le_max_left _ _, fun _ hn => absurd hn Bool.false_ne_true⟩
    | true =>
      have hlt := h.sent_lt hactive he
      have hsent := h.sent hactive
      have hmax := r.maxRetx.isLt
      have hmod : (r.tb.nRtx + 1) % 2 ^ 32 = r.tb.nRtx + 1 := Nat.mod_eq_of_lt (by omega)
      refine ⟨fun _ => ?_, fun _ => ?_, fun _ hn => absurd hn Bool.false_ne_true⟩
      · exact (congrArg (· + 1) (hsent.trans hmod.symm))
      · exact le_max_of_le_right (hsent.symm ▸ hlt)
  | ack ack =>
    cases ack with
    | true => exact inv_of_inactive (by simp [TbRun.step, HarqTb.setAck])
    | false =>
      rcases Nat.lt_or_ge ((r.tb.nRtx + 1) % 2 ^ 32) r.maxRetx with hlt | hge
      · have hkept : (r.step (.ack false)).tb.active = r.tb.active :=
          (r.tb.active_nack r.maxRetx).trans (if_neg (Nat.not_le.mpr hlt))
        refine ⟨fun ha => h.sent (hkept ▸ ha), fun ha => h.bound (hkept ▸ ha), fun ha _ => ?_⟩
        have hsent := h.sent (hkept ▸ ha)
        have hbound := h.bound (hkept ▸ ha)
        have hmax := r.maxRetx.isLt
        rw [Nat.mod_eq_of_lt (by omega)] at hlt
        exact hsent.symm ▸ hlt
      · exact inv_of_inactive ((r.tb.active_nack r.maxRetx).trans (if_pos hge))
  | resetPendingData =>
    by_cases hzero : r.maxRetx = 0
    · exact inv_of_inactive (if_pos hzero)
    · have hkept : (r.step .resetPendingData).tb.active = r.tb.active := if_neg hzero
      exact ⟨fun ha => h.sent (hkept ▸ ha), fun ha => h.bound (hkept ▸ ha),
        fun ha => h.nacked (hkept ▸ ha)⟩
  | reset => exact inv_of_inactive rfl
  | other => exact h

theorem Inv.stepsWithin_iff (h : Inv r) (e : TbEvent) : r.StepsWithin e ↔ r.RetxAnswered e := by
  constructor
  · rintro ⟨hbound, -⟩
    cases e with
    | transmit mcs tbs maxRetx =>
      intro hactive
      have hstep : r.step (.transmit mcs tbs maxRetx) =
          { r with tb := r.tb.newRetx, sent := r.sent + 1, nacked := false } := if_pos hactive
      rw [hstep] at hbound
      have hsent := h.sent hactive
      have hle : r.sent + 1 ≤ max 1 (r.maxRetx : ℕ) := hbound hactive
      right
      omega
    | ack ack => trivial
    | resetPendingData => trivial
    | reset => trivial
    | other => trivial
  · exact fun he => ⟨(h.step he).bound, r.ndi_changes_iff e⟩

theorem along_stepsWithin_iff (h : r.tb.active = false) (events : List TbEvent) :
    Along step StepsWithin r events ↔ Along step RetxAnswered r events :=
  along_congr (fun _ e hr hP => hr.step ((hr.stepsWithin_iff e).mp hP))
    (fun _ e hr => hr.stepsWithin_iff e) (inv_of_inactive h)

end TbRun
end HarqProc

open HarqProc EventRun

/-- A process with the record of the transmissions of its blocks. -/
structure HarqRun (α : Type) where
  proc : α
  sent : Fin 2 → ℕ
  nacked : Fin 2 → Bool

inductive DlHarqEvent
  | transmit (userMask : RbgMask) (tbIdx : Fin 2) (tti : ℕ) (mcs tbs : ℤ) (nCce : ℕ)
  | ack (tbIdx : Fin 2) (ack : Bool)
  | resetPendingData
  | reset

namespace DlHarqProc

def init (id : ℕ) (maxRetx : Fin (2 ^ 32)) : HarqRun DlHarqProc where
  proc :=
    { toHarqProc := HarqProc.config id maxRetx
      rbgmask := BoundedBitset.empty 0 (Nat.zero_le _)
      nCce := 0 }
  sent := fun _ => 0
  nacked := fun _ => false

def step (r : HarqRun DlHarqProc) : DlHarqEvent → HarqRun DlHarqProc
  | .transmit userMask tbIdx tti mcs tbs nCce =>
    { proc := r.proc.transmit userMask tbIdx tti mcs tbs nCce
      sent := Function.update r.sent tbIdx
        (if r.proc.isEmptyTb tbIdx then 1 else r.sent tbIdx + 1)
      nacked := Function.update r.nacked tbIdx false }
  | .ack tbIdx ack =>
    { r with
      proc := r.proc.setAck tbIdx ack
      nacked := Function.update r.nacked tbIdx (r.nacked tbIdx || !ack) }
  | .resetPendingData => { r with proc := r.proc.resetPendingData }
  | .reset => { r with proc := r.proc.resetAll }

/-- The event starts a new block in `tbIdx`. -/
def Starts (r : HarqRun DlHarqProc) (tbIdx : Fin 2) : DlHarqEvent → Prop
  | .transmit _ i _ _ _ _ => i = tbIdx ∧ r.proc.isEmptyTb tbIdx = true
  | _ => False

/-- No block that is still there was sent more than `max(1, max_retx)` times, and the NDI has
changed iff a new block was started. -/
def StepsWithin (r : HarqRun DlHarqProc) (e : DlHarqEvent) : Prop :=
  ∀ tbIdx, ((step r e).proc.isEmptyTb tbIdx = false →
      (step r e).sent tbIdx ≤ max 1 (step r e).proc.maxRetx) ∧
    (((step r e).proc.tb tbIdx).ndi ≠ (r.proc.tb tbIdx).ndi ↔ Starts r tbIdx e)

/-- A retransmission answers a NACK that came after the transmission before it, or fewer than
`max_retx` transmissions were made. -/
def RetxAnswered (r : HarqRun DlHarqProc) : DlHarqEvent → Prop
  | .transmit _ tbIdx _ _ _ _ =>
    r.proc.isEmptyTb tbIdx = false →
      r.nacked tbIdx = true ∨ (r.proc.tb tbIdx).nRtx + 1 < r.proc.maxRetx
  | _ => True

def view (tbIdx : Fin 2) (r : HarqRun DlHarqProc) : TbRun where
  maxRetx := r.proc.maxRetx
  tb := r.proc.tb tbIdx
  sent := r.sent tbIdx
  nacked := r.nacked tbIdx

def tbEvent (tbIdx : Fin 2) : DlHarqEvent → TbEvent
  | .transmit _ i _ mcs tbs _ => if i = tbIdx then .transmit mcs tbs none else .other
  | .ack i ack => if i = tbIdx then .ack ack else .other
  | .resetPendingData => .resetPendingData
  | .reset => .reset

theorem view_step (tbIdx : Fin 2) (r : HarqRun DlHarqProc) (e : DlHarqEvent) :
    view tbIdx (step r e) = (view tbIdx r).step (tbEvent tbIdx e) := by
  cases e with
  | transmit userMask i tti mcs tbs nCce =>
    rcases eq_or_ne i tbIdx with rfl | hne
    · cases hactive : (r.proc.tb i).active <;>
        simp [step, view, tbEvent, TbRun.step, transmit, isEmptyTb, newTx, newTxCommon, newRetx,
          newRetxCommon, HarqProc.reset, hactive]
    · cases hactive : (r.proc.tb i).active <;>
        simp [step, view, tbEvent, TbRun.step, transmit, isEmptyTb, newTx, newTxCommon, newRetx,
          newRetxCommon, HarqProc.reset, hactive, hne, hne.symm]
  | ack i ack =>
    rcases eq_or_ne i tbIdx with rfl | hne
    · simp [step, view, tbEvent, TbRun.step, setAck, setAckCommon]
    · simp [step, view, tbEvent, TbRun.step, setAck, setAckCommon, hne, hne.symm]
  | resetPendingData =>
    change TbRun.mk r.proc.resetPendingDataCommon.maxRetx
      (r.proc.resetPendingDataCommon.tb tbIdx) _ _ = _
    rw [maxRetx_resetPendingDataCommon, tb_resetPendingDataCommon]
    rfl
  | reset =>
    change TbRun.mk r.proc.maxRetx (((r.proc.reset 0).reset 1).tb tbIdx) _ _ = _
    rw [tb_reset_reset]
    rfl

theorem starts_view (tbIdx : Fin 2) (r : HarqRun DlHarqProc) (e : DlHarqEvent) :
    (view tbIdx r).Starts (tbEvent tbIdx e) ↔ Starts r tbIdx e := by
  cases e with
  | transmit userMask i tti mcs tbs nCce =>
    rcases eq_or_ne i tbIdx with rfl | hne
    · simp [view, tbEvent, TbRun.Starts, Starts, isEmptyTb]
    · simp [tbEvent, TbRun.Starts, Starts, hne]
  | ack i ack =>
    rcases eq_or_ne i tbIdx with rfl | hne
    · simp [tbEvent, TbRun.Starts, Starts]
    · simp [tbEvent, TbRun.Starts, Starts, hne]
  | resetPendingData => exact Iff.rfl
  | reset => exact Iff.rfl

theorem retxAnswered_iff (r : HarqRun DlHarqProc) (e : DlHarqEvent) :
    RetxAnswered r e ↔ ∀ tbIdx, (view tbIdx r).RetxAnswered (tbEvent tbIdx e) := by
  cases e with
  | transmit userMask i tti mcs tbs nCce =>
    constructor
    · intro h tbIdx
      rcases eq_or_ne i tbIdx with rfl | hne
      · rw [tbEvent, if_pos rfl]
        exact fun hactive => h (isEmptyTb_eq_false_iff.mpr hactive)
      · rw [tbEvent, if_neg hne]
        trivial
    · intro h hactive
      have hi := h i
      rw [tbEvent, if_pos rfl] at hi
      exact hi (isEmptyTb_eq_false_iff.mp hactive)
  | ack i ack =>
    refine iff_of_true trivial fun tbIdx => ?_
    rcases eq_or_ne i tbIdx with rfl | hne
    · rw [tbEvent, if_pos rfl]
      trivial
    · rw [tbEvent, if_neg hne]
      trivial
  | resetPendingData => exact iff_of_true trivial fun _ => trivial
  | reset => exact iff_of_true trivial fun _ => trivial

theorem stepsWithin_iff (r : HarqRun DlHarqProc) (e : DlHarqEvent) :
    StepsWithin r e ↔ ∀ tbIdx, (view tbIdx r).StepsWithin (tbEvent tbIdx e) := by
  refine forall_congr' fun tbIdx => ?_
  rw [TbRun.StepsWithin, ← view_step, starts_view, isEmptyTb_eq_false_iff]
  exact Iff.rfl

theorem along_stepsWithin_iff (id : ℕ) (maxRetx : Fin (2 ^ 32)) (events : List DlHarqEvent) :
    Along step StepsWithin (init id maxRetx) events ↔
      Along step RetxAnswered (init id maxRetx) events := by
  simp only [funext₂ fun r e => propext (stepsWithin_iff r e),
    funext₂ fun r e => propext (retxAnswered_iff r e), along_forall]
  refine forall_congr' fun tbIdx => ?_
  rw [along_map (view tbIdx) (tbEvent tbIdx) (view_step tbIdx) (fun _ _ => Iff.rfl),
    along_map (view tbIdx) (tbEvent tbIdx) (view_step tbIdx) (fun _ _ => Iff.rfl)]
  exact TbRun.along_stepsWithin_iff rfl _

end DlHarqProc

/-- An uplink process uses one transport block. `maxRetx` is the limit of a new block, which is
another one for a Msg3. -/
inductive UlHarqEvent
  | transmit (tti : ℕ) (mcs tbs : ℤ) (alloc : UlAlloc) (maxRetx : Fin (2 ^ 32))
  | crc (ack : Bool)
  | resetPendingData
  | reset

namespace UlHarqProc

def init (id : ℕ) (maxRetx : Fin (2 ^ 32)) : HarqRun UlHarqProc where
  proc :=
    { toHarqProc := HarqProc.config id maxRetx
      allocation := ⟨0, 0⟩
      pendingData := 0
      isAdaptive := false
      pendingAck := .nullAck }
  sent := fun _ => 0
  nacked := fun _ => false

def step (r : HarqRun UlHarqProc) : UlHarqEvent → HarqRun UlHarqProc
  | .transmit tti mcs tbs alloc maxRetx =>
    { proc := r.proc.transmit tti mcs tbs alloc maxRetx
      sent := Function.update r.sent 0 (if r.proc.isEmptyTb 0 then 1 else r.sent 0 + 1)
      nacked := Function.update r.nacked 0 false }
  | .crc ack =>
    { r with
      proc := r.proc.setAck 0 ack
      nacked := Function.update r.nacked 0 (r.nacked 0 || !ack) }
  | .resetPendingData => { r with proc := r.proc.resetPendingData }
  | .reset => { r with proc := r.proc.resetAll }

def Starts (r : HarqRun UlHarqProc) : UlHarqEvent → Prop
  | .transmit _ _ _ _ _ => r.proc.isEmptyTb 0 = true
  | _ => False

def StepsWithin (r : HarqRun UlHarqProc) (e : UlHarqEvent) : Prop :=
  ((step r e).proc.isEmptyTb 0 = false →
      (step r e).sent 0 ≤ max 1 (step r e).proc.maxRetx) ∧
    (((step r e).proc.tb 0).ndi ≠ (r.proc.tb 0).ndi ↔ Starts r e)

def RetxAnswered (r : HarqRun UlHarqProc) : UlHarqEvent → Prop
  | .transmit _ _ _ _ _ =>
    r.proc.isEmptyTb 0 = false → r.nacked 0 = true ∨ (r.proc.tb 0).nRtx + 1 < r.proc.maxRetx
  | _ => True

def view (r : HarqRun UlHarqProc) : TbRun where
  maxRetx := r.proc.maxRetx
  tb := r.proc.tb 0
  sent := r.sent 0
  nacked := r.nacked 0

def tbEvent : UlHarqEvent → TbEvent
  | .transmit _ mcs tbs _ maxRetx => .transmit mcs tbs (some maxRetx)
  | .crc ack => .ack ack
  | .resetPendingData => .resetPendingData
  | .reset => .reset

section

variable (r : HarqRun UlHarqProc) (e : UlHarqEvent)
include r e

theorem view_step :
    view (step r e) = (view r).step (tbEvent e) := by
  cases e with
  | transmit tti mcs tbs alloc maxRetx =>
    cases hactive : (r.proc.tb 0).active <;>
      simp [step, view, tbEvent, TbRun.step, transmit, isEmptyTb, newTx, newTxCommon, newRetx,
        newRetxCommon, HarqProc.reset, hactive]
  | crc ack => simp [step, view, tbEvent, TbRun.step, setAck, setAckCommon]
  | resetPendingData =>
    change TbRun.mk r.proc.resetPendingDataCommon.maxRetx
      (r.proc.resetPendingDataCommon.tb 0) _ _ = _
    rw [maxRetx_resetPendingDataCommon, tb_resetPendingDataCommon]
    rfl
  | reset =>
    change TbRun.mk r.proc.maxRetx (((r.proc.reset 0).reset 1).tb 0) _ _ = _
    rw [tb_reset_reset]
    rfl

theorem starts_view :
    (view r).Starts (tbEvent e) ↔ Starts r e := by
  cases e with
  | transmit tti mcs tbs alloc maxRetx => exact isEmptyTb_iff.symm
  | crc ack => exact Iff.rfl
  | resetPendingData => exact Iff.rfl
  | reset => exact Iff.rfl

theorem retxAnswered_iff :
    RetxAnswered r e ↔ (view r).RetxAnswered (tbEvent e) := by
  cases e with
  | transmit tti mcs tbs alloc maxRetx => exact imp_congr_left isEmptyTb_eq_false_iff
  | crc ack => exact Iff.rfl
  | resetPendingData => exact Iff.rfl
  | reset => exact Iff.rfl

theorem stepsWithin_iff :
    StepsWithin r e ↔ (view r).StepsWithin (tbEvent e) := by
  rw [StepsWithin, TbRun.StepsWithin, ← view_step, starts_view, isEmptyTb_eq_false_iff]
  exact Iff.rfl

end

theorem along_stepsWithin_iff (id : ℕ) (maxRetx : Fin (2 ^ 32)) (events : List UlHarqEvent) :
    Along step StepsWithin (init id maxRetx) events ↔
      Along step RetxAnswered (init id maxRetx) events := by
  rw [along_map view tbEvent view_step stepsWithin_iff,
    along_map view tbEvent view_step retxAnswered_iff]
  exact TbRun.along_stepsWithin_iff rfl _

end UlHarqProc

/-- For every run of a downlink and of an uplink process: each block is sent `max(1, max_retx)`
times at most and the NDI changes exactly at a new block, iff each retransmission answers a NACK or
comes before `max_retx` transmissions. -/
theorem HarqProc.stepsWithin_iff_retxAnswered (id : ℕ) (maxRetx : Fin (2 ^ 32))
    (dlEvents : List DlHarqEvent) (ulEvents : List UlHarqEvent) :
    (Along DlHarqProc.step DlHarqProc.StepsWithin (DlHarqProc.init id maxRetx) dlEvents ↔
        Along DlHarqProc.step DlHarqProc.RetxAnswered (DlHarqProc.init id maxRetx) dlEvents) ∧
      (Along UlHarqProc.step UlHarqProc.StepsWithin (UlHarqProc.init id maxRetx) ulEvents ↔
        Along UlHarqProc.step UlHarqProc.RetxAnswered (UlHarqProc.init id maxRetx) ulEvents) :=
  ⟨DlHarqProc.along_stepsWithin_iff id maxRetx dlEvents,
    UlHarqProc.along_stepsWithin_iff id maxRetx ulEvents⟩

/-- With `max_retx` 2: a block is sent, a NACK comes, the block is sent again, and the feedback for
that does not come. -/
def unansweredRetx : List DlHarqEvent :=
  let mask : RbgMask := BoundedBitset.empty 0 (Nat.zero_le _)
  [.transmit mask 0 10 4 100 0, .ack 0 false, .transmit mask 0 18 4 100 0]

/-- The block still counts as pending for a retransmission, and sending it exceeds the bound. -/
theorem DlHarqProc.unansweredRetx_exceeds :
    let r := unansweredRetx.foldl DlHarqProc.step (DlHarqProc.init 0 2)
    r.proc.hasPendingRetx 0 26 = true ∧
      ¬ DlHarqProc.StepsWithin r
        (.transmit (BoundedBitset.empty 0 (Nat.zero_le _)) 0 26 4 100 0) := by
  refine ⟨by decide +kernel, fun h => ?_⟩
  exact absurd ((h 0).1 (by decide +kernel)) (by decide +kernel)

end SrsLte
