import Mathlib.Data.Finset.Card
import Mathlib.Order.Interval.Finset.Nat
import SrsLte.FourColumns
import SrsLte.ResourceIndication

/-!
# Allocations of downlink blocks

The DCI names the blocks by groups, by a bitmap over a subset, or by a run of virtual blocks. The
blocks of a distributed run are read from an interleaver, and are split by a gap into the two halves
of the band, which change places in the second slot. There are at least two blocks: with one, the
gap and the divisors that come from it are zero.
-/

namespace SrsLte

namespace RaDl

open Word

/-- `SRSLTE_MAX_PRB`. -/
def maxPrb : ℕ := 110

/-- The three members of the allocation in `srslte_dci_dl_t`, with `alloc_type`. -/
inductive Alloc
  | type0 (rbgBitmask : ℕ)
  | type1 (vrbBitmask rbgSubset : ℕ) (shift : Bool)
  | type2 (riv : ℕ) (ngapIs1 localized : Bool)
  deriving DecidableEq

/-- `srslte_dci_dl_t`, as far as the allocation reads it: of the formats only whether it is 1C. -/
structure DciDl where
  format1C : Bool
  alloc : Alloc

/-- `srslte_pdsch_grant_t`, as far as the allocation writes it. The arrays `prb_idx` are the sets of
the blocks that are true. -/
structure PdschGrant where
  prbIdx : Fin 2 → Finset ℕ
  nofPrb : ℕ

def PdschGrant.zero : PdschGrant := ⟨fun _ => ∅, 0⟩

/-- `SRSLTE_ERROR`, or a write outside of the array. -/
inductive Failure
  | error
  | undefined
  deriving DecidableEq

/-- `grant->prb_idx[slot][idx] = true`. -/
def PdschGrant.mark (grant : PdschGrant) (slot : Fin 2) (idx : ℕ) : Except Failure PdschGrant :=
  if idx < maxPrb then
    .ok { grant with
      prbIdx := fun s => if s = slot then insert idx (grant.prbIdx s) else grant.prbIdx s }
  else .error .undefined

/-- `grant->nof_prb++`. -/
def PdschGrant.count (grant : PdschGrant) : PdschGrant := { grant with nofPrb := grant.nofPrb + 1 }

def PdschGrant.copy (grant : PdschGrant) : PdschGrant :=
  { grant with prbIdx := fun _ => grant.prbIdx 0 }

/-- `srslte_ra_type0_P`. -/
def raType0P (nofPrb : ℕ) : ℕ :=
  if nofPrb ≤ 10 then 1 else if nofPrb ≤ 26 then 2 else if nofPrb ≤ 63 then 3 else 4

/-- The quotient rounded up, by `ceilf`. -/
def ceilDiv (a b : ℕ) : ℕ := (a + b - 1) / b

/-- `srslte_ra_type1_N_rb`. -/
def raType1NRb (nofPrb : ℕ) : ℕ :=
  sub32 (sub32 (ceilDiv nofPrb (raType0P nofPrb)) (Nat.clog 2 (raType0P nofPrb))) 1

/-- `srslte_ra_type2_n_rb_step`. -/
def raType2NRbStep (nofPrb : ℕ) : ℕ := if nofPrb < 50 then 2 else 4

def type0Rbg (nofPrb i : ℕ) (grant : PdschGrant) : Except Failure PdschGrant :=
  (List.range (raType0P nofPrb)).foldlM (fun (g : PdschGrant) j =>
    if i * raType0P nofPrb + j < nofPrb then
      (g.mark 0 (i * raType0P nofPrb + j)).map PdschGrant.count
    else .ok g) grant

def allocType0 (nofPrb rbgBitmask : ℕ) (grant : PdschGrant) : Except Failure PdschGrant :=
  let nb := ceilDiv nofPrb (raType0P nofPrb)
  ((List.range nb).foldlM (fun (g : PdschGrant) i =>
    if rbgBitmask.testBit (nb - i - 1) then type0Rbg nofPrb i g else .ok g) grant).map
      PdschGrant.copy

/-- `n_rb_rbg_subset`. -/
def nRbRbgSubset (nofPrb rbgSubset : ℕ) : ℕ :=
  let p := raType0P nofPrb
  let temp := (nofPrb - 1) / p % p
  if rbgSubset < temp then (nofPrb - 1) / (p * p) * p + p
  else if rbgSubset = temp then (nofPrb - 1) / (p * p) * p + (nofPrb - 1) % p + 1
  else (nofPrb - 1) / (p * p) * p

def type1Shift (nofPrb rbgSubset : ℕ) (shift : Bool) : ℕ :=
  if shift then sub32 (nRbRbgSubset nofPrb rbgSubset) (raType1NRb nofPrb) else 0

/-- The block of the bit `i`. -/
def type1Idx (nofPrb rbgSubset shift i : ℕ) : ℕ :=
  let p := raType0P nofPrb
  let m := (i + shift) % 2 ^ 32
  (m / p * p * p + rbgSubset * p + m % p) % 2 ^ 32

def allocType1 (nofPrb vrbBitmask rbgSubset : ℕ) (shift : Bool) (grant : PdschGrant) :
    Except Failure PdschGrant :=
  if raType0P nofPrb ≤ rbgSubset then .error .error
  else
    let nRb := raType1NRb nofPrb
    ((List.range nRb).foldlM (fun (g : PdschGrant) i =>
      if vrbBitmask.testBit (nRb - i - 1) then
        let idx := type1Idx nofPrb rbgSubset (type1Shift nofPrb rbgSubset shift) i
        if idx < nofPrb then (g.mark 0 idx).map PdschGrant.count else .error .error
      else .ok g) grant).map PdschGrant.copy

def type2Run (nofPrb riv : ℕ) (format1C ngapIs1 localized : Bool) : ℕ × ℕ :=
  let nofVrb := if localized then nofPrb else raType2NVrbDl nofPrb ngapIs1
  if format1C then
    let nStep := raType2NRbStep nofPrb
    let run := raType2FromRiv riv (nofVrb / nStep) (nofVrb / nStep)
    (run.1 * nStep % 2 ^ 32, run.2 * nStep % 2 ^ 32)
  else raType2FromRiv riv nofPrb nofVrb

def allocLocalized (run : ℕ × ℕ) (grant : PdschGrant) : Except Failure PdschGrant :=
  ((List.range run.1).foldlM (fun (g : PdschGrant) i =>
    (g.mark 0 (i + run.2)).map PdschGrant.count) grant).map PdschGrant.copy

/-- `N_tilde_vrb`. -/
def nTildeVrb (nofPrb : ℕ) (ngapIs1 : Bool) : ℕ :=
  if ngapIs1 then raType2NVrbDl nofPrb true else 2 * raType2NVrbDl nofPrb true

/-- `N_row`. -/
def nRow (nofPrb : ℕ) (ngapIs1 : Bool) : ℕ :=
  ceilDiv (nTildeVrb nofPrb ngapIs1) (4 * raType0P nofPrb) * raType0P nofPrb

/-- `N_null`. -/
def nNull (nofPrb : ℕ) (ngapIs1 : Bool) : ℕ := 4 * nRow nofPrb ngapIs1 - nTildeVrb nofPrb ngapIs1

/-- `n_tilde_prb_odd`, from `N_tilde_vrb`, `N_row` and `N_null`. -/
def nTildePrbOdd (tilde rows null nVrb : ℕ) : ℤ :=
  let t := nVrb % tilde
  let prb : ℤ := 2 * rows * (t % 2) + t / 2 + tilde * (nVrb / tilde)
  let prb2 : ℤ := rows * (t % 4) + t / 4 + tilde * (nVrb / tilde)
  if null ≠ 0 ∧ tilde - null ≤ t ∧ t % 2 = 1 then prb - rows
  else if null ≠ 0 ∧ tilde - null ≤ t ∧ t % 2 = 0 then prb - rows + (null / 2 : ℕ)
  else if null ≠ 0 ∧ t < tilde - null ∧ 2 ≤ t % 4 then prb2 - (null / 2 : ℕ)
  else prb2

/-- `n_tilde_prb_odd` in the first slot, `n_tilde_prb_even` in the second. -/
def nTildePrb (nofPrb : ℕ) (ngapIs1 : Bool) (slot : Fin 2) (nVrb : ℕ) : ℤ :=
  let tilde := nTildeVrb nofPrb ngapIs1
  let odd := nTildePrbOdd tilde (nRow nofPrb ngapIs1) (nNull nofPrb ngapIs1) nVrb
  if slot = 0 then odd
  else Int.tmod (odd + (tilde / 2 : ℕ)) tilde + (tilde * (nVrb / tilde) : ℕ)

def vrbToPrb (nofPrb : ℕ) (ngapIs1 : Bool) (slot : Fin 2) (nVrb : ℕ) : ℤ :=
  let half := nTildeVrb nofPrb ngapIs1 / 2
  let prb := nTildePrb nofPrb ngapIs1 slot nVrb
  if prb < half then prb else prb + raType2Ngap nofPrb ngapIs1 - half

/-- Both sides of the gap check the block before it is set, as an unsigned word, so that a negative
one does not pass. -/
def markVrb (nofPrb : ℕ) (ngapIs1 : Bool) (slot : Fin 2) (nVrb : ℕ) (grant : PdschGrant) :
    Except Failure PdschGrant :=
  let idx := vrbToPrb nofPrb ngapIs1 slot nVrb
  if 0 ≤ idx ∧ idx < nofPrb then grant.mark slot idx.toNat else .error .error

def allocDistributed (nofPrb : ℕ) (ngapIs1 : Bool) (run : ℕ × ℕ) (grant : PdschGrant) :
    Except Failure PdschGrant :=
  (List.range run.1).foldlM (fun (g : PdschGrant) i => do
    let g ← markVrb nofPrb ngapIs1 0 (i + run.2) g
    markVrb nofPrb ngapIs1 1 (i + run.2) g.count) grant

/-- `srslte_ra_dl_grant_to_grant_prb_allocation`. -/
def raDlGrantToGrantPrbAllocation (dci : DciDl) (grant : PdschGrant) (nofPrb : ℕ) :
    Except Failure PdschGrant :=
  match dci.alloc with
  | .type0 rbgBitmask => allocType0 nofPrb rbgBitmask grant
  | .type1 vrbBitmask rbgSubset shift => allocType1 nofPrb vrbBitmask rbgSubset shift grant
  | .type2 riv ngapIs1 localized =>
    let run := type2Run nofPrb riv dci.format1C ngapIs1 localized
    if localized then allocLocalized run grant else allocDistributed nofPrb ngapIs1 run grant

section Spec

variable (nofPrb : ℕ)

def virtualBlocks (run : ℕ × ℕ) : Finset ℕ := Finset.Ico run.2 (run.2 + run.1)

/-- `N_VRB^DL`, the virtual blocks of the two gaps. -/
def nVrbDl (ngapIs1 : Bool) : ℕ :=
  let ngap := raType2Ngap nofPrb ngapIs1
  if ngapIs1 then 2 * min ngap (nofPrb - ngap) else nofPrb / (2 * ngap) * (2 * ngap)

/-- The resource indication stands for a run of virtual blocks of the band: in format 1C for one of
whole steps, otherwise for one of blocks. -/
def Encodes (format1C ngapIs1 : Bool) (riv : ℕ) (run : ℕ × ℕ) : Prop :=
  if format1C then
    let nStep := raType2NRbStep nofPrb
    let steps := nVrbDl nofPrb ngapIs1 / nStep
    ∃ l s, run = (l * nStep, s * nStep) ∧ 1 ≤ l ∧ s + l ≤ steps ∧ raType2ToRiv l s steps = riv
  else
    1 ≤ run.1 ∧ run.2 + run.1 ≤ nVrbDl nofPrb ngapIs1 ∧ raType2ToRiv run.1 run.2 nofPrb = riv

/-- An allocation that succeeds has set as many blocks of the carrier as it counts, in each slot,
and a distributed one of virtual blocks of the band succeeds with as many different blocks. -/
structure WellAllocated (dci : DciDl) : Prop where
  defined : raDlGrantToGrantPrbAllocation dci .zero nofPrb ≠ .error .undefined
  inside : ∀ grant, raDlGrantToGrantPrbAllocation dci .zero nofPrb = .ok grant → ∀ slot,
    (∀ prb ∈ grant.prbIdx slot, prb < nofPrb) ∧ (grant.prbIdx slot).card = grant.nofPrb
  distributed : ∀ riv ngapIs1, dci.alloc = .type2 riv ngapIs1 false →
    ∀ run, Encodes nofPrb dci.format1C ngapIs1 riv run →
      (∃ grant, raDlGrantToGrantPrbAllocation dci .zero nofPrb = .ok grant ∧
        grant.nofPrb = run.1) ∧
      ∀ slot, Set.InjOn (vrbToPrb nofPrb ngapIs1 slot) (virtualBlocks run)

/-- The place of a virtual block: as it is read from the interleaver, with the halves exchanged in
the second slot. -/
def vrbPlace (ngapIs1 : Bool) (slot : Fin 2) (nVrb : ℕ) : ℕ :=
  let tilde := nTildeVrb nofPrb ngapIs1
  (FourColumns.place (nRow nofPrb ngapIs1) (nNull nofPrb ngapIs1 / 2) (nVrb % tilde) +
    slot * (tilde / 2)) % tilde + tilde * (nVrb / tilde)

/-- No place of the run is past the band, once the second half has been moved to the gap. -/
def Reached (ngapIs1 : Bool) (run : ℕ × ℕ) : Prop :=
  ∀ v ∈ virtualBlocks run, ∀ slot,
    vrbPlace nofPrb ngapIs1 slot v + raType2Ngap nofPrb ngapIs1 <
      nofPrb + nTildeVrb nofPrb ngapIs1 / 2

/-- No two places of the run, the one below and the other above the half, are moved onto each
other. -/
def Unfolded (ngapIs1 : Bool) (run : ℕ × ℕ) : Prop :=
  ∀ u ∈ virtualBlocks run, ∀ v ∈ virtualBlocks run, ∀ slot,
    raType2Ngap nofPrb ngapIs1 ≤ vrbPlace nofPrb ngapIs1 slot u →
      vrbPlace nofPrb ngapIs1 slot u < nTildeVrb nofPrb ngapIs1 / 2 →
        vrbPlace nofPrb ngapIs1 slot v + raType2Ngap nofPrb ngapIs1 ≠
          vrbPlace nofPrb ngapIs1 slot u + nTildeVrb nofPrb ngapIs1 / 2

/-- The run of a resource indication is the one that it stands for. In format 1C with the second
gap, the steps are counted wrong, which leaves only runs of one step. -/
def Found (format1C ngapIs1 : Bool) (run : ℕ × ℕ) : Prop :=
  if format1C then ngapIs1 = true ∨ run.1 = raType2NRbStep nofPrb
  else
    run.1 - 1 ≤ nofPrb / 2 ∨ nofPrb - 1 - run.2 ≤ raType2NVrbDl nofPrb ngapIs1 ∧
      raType2NVrbDl nofPrb ngapIs1 + run.1 + run.2 ≤ 2 * nofPrb

def Condition (dci : DciDl) : Prop :=
  match dci.alloc with
  | .type2 riv ngapIs1 true =>
    ∀ v ∈ virtualBlocks (type2Run nofPrb riv dci.format1C ngapIs1 true), v < nofPrb
  | .type2 riv true false =>
    ∀ run, Encodes nofPrb dci.format1C true riv run → Found nofPrb dci.format1C true run
  | .type2 riv false false =>
    (∀ run, Encodes nofPrb dci.format1C false riv run →
      Found nofPrb dci.format1C false run ∧ Reached nofPrb false run) ∧
    (Reached nofPrb false (type2Run nofPrb riv dci.format1C false false) →
      Unfolded nofPrb false (type2Run nofPrb riv dci.format1C false false))
  | _ => True

end Spec

end RaDl

end SrsLte
