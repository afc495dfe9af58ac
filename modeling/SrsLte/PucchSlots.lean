import Mathlib.Data.List.MinMax
import Mathlib.Data.List.ProdSigma
import Mathlib.Logic.Function.Basic
import SrsLte.CqiPeriodic
import SrsLte.EventRun

/-!
# PUCCH resources of scheduling requests and CQI reports

The eNB counts the users of each PRB and subframe. A new user gets the PRB and subframe with the
least users, and the count as its index there.
-/

namespace SrsLte

namespace Pucch

/-- `sr_cfg` or `cqi_cfg`, with what the cell gives. -/
structure SlotParams where
  nofPrb : ℕ
  /-- `nof_subframes` is its length. -/
  sfMapping : List ℕ
  period : ℕ
  maxUsers : ℕ
  ncsAn : ℕ
  configIdx : ℕ → ℕ → Option ℕ
  distinct : sfMapping.Nodup
  maxUsers_le : maxUsers ≤ 36

/-- What a UE keeps of its resource; the slot is its PRB and its subframe. -/
structure UeSlot where
  allocated : Bool
  slot : ℕ × ℕ
  configIdx : ℕ
  nPucch : ℕ

/-- `nof_users`, and the UEs. -/
structure SlotTable where
  nofUsers : ℕ × ℕ → ℕ
  ues : ℕ → UeSlot

def SlotTable.init : SlotTable := ⟨fun _ => 0, fun _ => ⟨false, (0, 0), 0, 0⟩⟩

variable (P : SlotParams)

namespace SlotParams

def slots : List (ℕ × ℕ) := (List.range P.nofPrb).product (List.range P.sfMapping.length)

/-- `sf_mapping` at the subframe of a slot. -/
def offset (s : ℕ × ℕ) : ℕ := P.sfMapping.getD s.2 0

def Usable (s : ℕ × ℕ) : Prop := (P.configIdx P.period (P.offset s)).isSome

instance : DecidablePred P.Usable := fun _ => inferInstanceAs (Decidable (_ = true))

end SlotParams

/-- "Find freq-time resources with least number of users". -/
def leastUsed (nofUsers : ℕ × ℕ → ℕ) (slots : List (ℕ × ℕ)) : (ℕ × ℕ) × ℕ :=
  slots.foldl (fun best s => if nofUsers s < best.2 then (s, nofUsers s) else best)
    ((0, 0), 2 ^ 32 - 1)

def SlotTable.next (t : SlotTable) : ℕ × ℕ := (leastUsed t.nofUsers P.slots).1

def SlotTable.nextIdx (t : SlotTable) (s : ℕ × ℕ) : ℕ := s.1 * P.maxUsers + t.nofUsers s + P.ncsAn

/-- The common part of `sr_allocate` and `cqi_allocate`. -/
def allocate (t : SlotTable) (rnti : ℕ) : Option SlotTable :=
  let s := t.next P
  -- "Not enough PUCCH resources to allocate Scheduling Request"
  if P.maxUsers < t.nofUsers s then none
  else
    match P.configIdx P.period (P.offset s) with
    | none => none
    | some configIdx =>
      some
        { nofUsers := Function.update t.nofUsers s (t.nofUsers s + 1)
          ues := Function.update t.ues rnti ⟨true, s, configIdx, t.nextIdx P s⟩ }

/-- The common part of `sr_free` and `cqi_free`, which leave the UE as it is. -/
def free (t : SlotTable) (rnti : ℕ) : SlotTable :=
  let s := (t.ues rnti).slot
  if (t.ues rnti).allocated then
    -- "no users in time-frequency slot"
    if 0 < t.nofUsers s then { t with nofUsers := Function.update t.nofUsers s (t.nofUsers s - 1) }
    else t
  else t

structure CellPucch where
  cpIsNorm : Bool
  deltaPucchShift : ℕ
  ncsAn : ℕ
  delta_pos : 0 < deltaPucchShift

/-- `12 * c / delta_pucch_shift`. -/
def CellPucch.maxUsers (cell : CellPucch) : ℕ :=
  12 * (if cell.cpIsNorm then 3 else 2) / cell.deltaPucchShift

theorem CellPucch.maxUsers_le (cell : CellPucch) : cell.maxUsers ≤ 36 := by
  unfold maxUsers
  refine (Nat.div_le_self _ _).trans ?_
  split_ifs <;> decide

/-- `I_sr`. -/
def srConfigIdx (period sf : ℕ) : Option ℕ :=
  if period ≠ 5 ∧ period ≠ 10 ∧ period ≠ 20 ∧ period ≠ 40 ∧ period ≠ 80 then none
  else if sf < period then some (period - 5 + sf)
  else none

/-- `pmi_idx`. -/
def cqiConfigIdx (period sf : ℕ) : Option ℕ :=
  if period ≠ 2 ∧ period ≠ 5 ∧ period ≠ 10 ∧ period ≠ 20 ∧ period ≠ 40 ∧ period ≠ 80 ∧
      period ≠ 160 ∧ period ≠ 32 ∧ period ≠ 64 ∧ period ≠ 128 then none
  else if sf < period then
    if period ≠ 32 ∧ period ≠ 64 ∧ period ≠ 128 then
      if 2 < period then some (period - 3 + sf) else some sf
    else if period = 32 then some (318 + sf)
    else if period = 64 then some (350 + sf)
    else some (414 + sf)
  else none

/-- The period and the subframes of `sr_cfg` or `cqi_cfg`. -/
structure SlotCfg where
  period : ℕ
  nofPrb : ℕ
  sfMapping : List ℕ
  distinct : sfMapping.Nodup

def srParams (cell : CellPucch) (cfg : SlotCfg) : SlotParams :=
  ⟨cfg.nofPrb, cfg.sfMapping, cfg.period, cell.maxUsers, cell.ncsAn, srConfigIdx, cfg.distinct,
    cell.maxUsers_le⟩

def cqiParams (cell : CellPucch) (cfg : SlotCfg) : SlotParams :=
  ⟨cfg.nofPrb, cfg.sfMapping, cfg.period, cell.maxUsers, cell.ncsAn, cqiConfigIdx, cfg.distinct,
    cell.maxUsers_le⟩

/-- `sr_allocate`. -/
def srAllocate (cell : CellPucch) (cfg : SlotCfg) : SlotTable → ℕ → Option SlotTable :=
  allocate (srParams cell cfg)

/-- `cqi_allocate`. -/
def cqiAllocate (cell : CellPucch) (cfg : SlotCfg) : SlotTable → ℕ → Option SlotTable :=
  allocate (cqiParams cell cfg)

/-- `sr_free`. -/
def srFree : SlotTable → ℕ → SlotTable := free

/-- `cqi_free`. -/
def cqiFree : SlotTable → ℕ → SlotTable := free

theorem cqiGetNFdd_cqiConfigIdx {period sf idx : ℕ} (h : cqiConfigIdx period sf = some idx) :
    Cqi.cqiGetNFdd idx = some (period, sf) := by
  unfold cqiConfigIdx at h
  split_ifs at h with hperiod hsf hdecimal htwo h32 h64
  case' pos =>
    have hcases : period = 5 ∨ period = 10 ∨ period = 20 ∨ period = 40 ∨ period = 80 ∨
        period = 160 := by omega
    rcases hcases with rfl | rfl | rfl | rfl | rfl | rfl
  -- the ranges below that of the period do not hold the index
  all_goals
    obtain rfl := Option.some.inj h
    unfold Cqi.cqiGetNFdd
    repeat rw [if_neg (by omega)]
    rw [if_pos (by omega), Option.some.injEq, Prod.mk.injEq]
    exact ⟨by omega, by omega⟩

section LeastUsed

variable {nofUsers : ℕ × ℕ → ℕ} {slots : List (ℕ × ℕ)}

theorem leastUsed_eq (hlt : ∀ s, nofUsers s < 2 ^ 32 - 1) :
    leastUsed nofUsers slots =
      match slots.argmin nofUsers with
      | none => ((0, 0), 2 ^ 32 - 1)
      | some s => (s, nofUsers s) := by
  induction slots using List.reverseRecOn with
  | nil => rfl
  | append_singleton slots s ih =>
    unfold leastUsed at ih ⊢
    rw [List.foldl_append, ih, List.argmin_concat, List.foldl_cons, List.foldl_nil]
    cases slots.argmin nofUsers with
    | none => rw [if_pos (hlt s)]
    | some best =>
      dsimp only
      split_ifs <;> rfl

end LeastUsed

end Pucch

end SrsLte
