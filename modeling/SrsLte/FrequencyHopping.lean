import Mathlib.Data.Fin.VecNotation
import SrsLte.ResourceIndication

/-!
# Frequency hopping of the PUSCH

An uplink grant is one run of blocks, which hops between the two slots of a subframe or between
transmissions. Hopping of type 1 moves the run by a fixed distance around the blocks that the
hopping offset leaves. Hopping of type 2 moves it from sub-band to sub-band by a pseudo-random
sequence, and mirrors it.
-/

namespace SrsLte

namespace Hopping

open Word

/-- `hop_mode`. -/
inductive HopMode
  | interSf
  | intraSf
  deriving DecidableEq

/-- `freq_hop_fl`. -/
inductive FreqHopFl
  | disabled
  | quart
  | quartNeg
  | half
  | type2
  deriving DecidableEq

/-- `srslte_pusch_hopping_cfg_t`. -/
structure PuschHoppingCfg where
  hopMode : HopMode
  hoppingOffset : ℕ
  nSb : ℕ
  nRbHo : ℕ
  currentTxNb : ℕ
  hoppingEnabled : Bool

/-- `srslte_dci_ul_t`, as far as the allocation reads it. -/
structure DciUl where
  riv : ℕ
  freqHopFl : FreqHopFl

/-- `srslte_pusch_grant_t`, as far as the allocation writes it. -/
structure PuschGrant where
  lPrb : ℕ
  nPrb : Fin 2 → ℕ
  nPrbTilde : Fin 2 → ℕ
  freqHopping : ℕ

/-- The ways in which there is no allocation: `SRSLTE_ERROR`, a division by zero or a shift past the
width of the operand, and a loop that has not come to its end. -/
inductive Failure
  | error
  | undefined
  | running
  deriving DecidableEq

def modulo (a b : ℕ) : Except Failure ℕ := if b = 0 then .error .undefined else .ok (a % b)

/-- The offset after `n_rb_ho++` of an odd one. -/
def evenHo (nRbHo : ℕ) : ℕ := if nRbHo % 2 = 1 then (nRbHo + 1) % 2 ^ 32 else nRbHo

/-- `n_rb_pusch`. -/
def nRbPusch (nRbHo nofPrb : ℕ) : ℕ := sub32 (sub32 nofPrb (evenHo nRbHo)) (nofPrb % 2)

/-- `ra_ul_grant_to_grant_prb_allocation`, up to the check at its end. -/
def grantPrb (dci : DciUl) (nRbHo nofPrb : ℕ) : Except Failure PuschGrant :=
  let (lPrb, nPrb1) := raType2FromRiv dci.riv nofPrb nofPrb
  let nRbHo' := evenHo nRbHo
  let pusch := nRbPusch nRbHo nofPrb
  match dci.freqHopFl with
  | .disabled => .ok ⟨lPrb, ![nPrb1, nPrb1], ![0, 0], 0⟩
  | .type2 => .ok ⟨lPrb, ![nPrb1, nPrb1], ![0, 0], 2⟩
  | .quart =>
    if nPrb1 < nRbHo' / 2 then .error .error
    else do
      let nPrb2 ← modulo ((pusch / 4 + nPrb1) % 2 ^ 32) pusch
      pure ⟨lPrb, ![nPrb1, nPrb2], ![0, 0], 1⟩
  | .quartNeg =>
    if nPrb1 < nRbHo' / 2 then .error .error
    else
      let nPrb2 :=
        if nPrb1 < pusch / 4 then sub32 ((pusch + nPrb1) % 2 ^ 32) (pusch / 4)
        else sub32 nPrb1 (pusch / 4)
      .ok ⟨lPrb, ![nPrb1, nPrb2], ![0, 0], 1⟩
  | .half =>
    if nPrb1 < nRbHo' / 2 then .error .error
    else do
      let nPrb2 ← modulo ((pusch / 2 + nPrb1) % 2 ^ 32) pusch
      pure ⟨lPrb, ![nPrb1, nPrb2], ![0, 0], 1⟩

/-- `ra_ul_grant_to_grant_prb_allocation`. -/
def raUlGrantToGrantPrbAllocation (dci : DciUl) (nRbHo nofPrb : ℕ) : Except Failure PuschGrant := do
  let grant ← grantPrb dci nRbHo nofPrb
  if (grant.nPrb 0 + grant.lPrb) % 2 ^ 32 ≤ nofPrb ∧ (grant.nPrb 1 + grant.lPrb) % 2 ^ 32 ≤ nofPrb
  then pure grant
  else .error .error

/-- `srslte_ra_ul_dci_to_grant`, as far as it allocates blocks. -/
def raUlDciToGrant (cfg : PuschHoppingCfg) (nofPrb : ℕ) (dci : DciUl) :
    Except Failure PuschGrant := do
  let grant ← raUlGrantToGrantPrbAllocation dci cfg.nRbHo nofPrb
  pure { grant with nPrbTilde := grant.nPrb }

/-- The loop of `f_hop_sum`, which counts `i` up and not `k`. -/
def fHopSumLoop (c : ℕ → ℕ) (k : ℕ) : ℕ → ℕ → ℕ → Except Failure ℕ
  | 0, _, _ => .error .running
  | fuel + 1, i, sum =>
    if k < (i * 10 + 9) % 2 ^ 32 then
      let shift := sub32 k ((i * 10 + 1) % 2 ^ 32)
      if shift < 32 then
        fHopSumLoop c k fuel ((i + 1) % 2 ^ 32) ((sum + c k * 2 ^ shift) % 2 ^ 32)
      else .error .undefined
    else .ok sum

/-- `f_hop_sum`. -/
def fHopSum (c : ℕ → ℕ) (fuel i : ℕ) : Except Failure ℕ := fHopSumLoop c (i * 10 + 1) fuel i 0

/-- `f_hop`, of the argument before the one given. -/
def fHop (c : ℕ → ℕ) (fuel nSb : ℕ) : ℕ → Except Failure ℕ
  | 0 => .ok 0
  | i + 1 =>
    if nSb = 1 then .ok 0
    else if nSb = 2 then do
      let before ← fHop c fuel nSb i
      let sum ← fHopSum c fuel i
      modulo (before + sum) 2
    else do
      let before ← fHop c fuel nSb i
      let sum ← fHopSum c fuel i
      let turn ← modulo sum (sub32 nSb 1)
      modulo ((before + turn + 1) % 2 ^ 32) nSb

/-- `f_m`. -/
def fM (c : ℕ → ℕ) (cfg : PuschHoppingCfg) (i : ℕ) : ℕ :=
  if cfg.nSb = 1 then
    match cfg.hopMode with
    | .interSf => cfg.currentTxNb % 2
    | .intraSf => i % 2
  else c (i * 10)

/-- `(hopping_offset - 1) / 2 + 1`. -/
def halfOffset (hoppingOffset : ℕ) : ℕ := sub32 hoppingOffset 1 / 2 + 1

/-- The blocks of a sub-band, `n_rb_sb`. -/
def nRbSb (cfg : PuschHoppingCfg) (nofPrb : ℕ) : ℕ :=
  if cfg.nSb > 1 then
    sub32 (sub32 nofPrb cfg.hoppingOffset) (cfg.hoppingOffset % 2) / cfg.nSb
  else nofPrb

def hopIndex (cfg : PuschHoppingCfg) (tti : ℕ) (slot : Fin 2) : ℕ :=
  match cfg.hopMode with
  | .interSf => tti % 10
  | .intraSf => 2 * tti % 2 ^ 32 % 10 + slot

/-- The hopping of type 2 in `compute_freq_hopping`. -/
def hopType2 (c : ℕ → ℕ) (fuel : ℕ) (cfg : PuschHoppingCfg) (nofPrb tti : ℕ) (nPrb : ℕ)
    (slot : Fin 2) : Except Failure ℕ := do
  let offset := if cfg.nSb > 1 then halfOffset cfg.hoppingOffset else 0
  let nVrbTilde := sub32 nPrb offset
  let i := hopIndex cfg tti slot
  let width := nRbSb cfg nofPrb
  let hop ← fHop c fuel cfg.nSb (i + 1)
  let inside ← modulo nVrbTilde width
  let sum := (nVrbTilde + hop * width + sub32 width 1) % 2 ^ 32
  let nPrbTilde ← modulo (sub32 sum (2 * inside * fM c cfg i % 2 ^ 32))
    (width * cfg.nSb % 2 ^ 32)
  pure ((nPrbTilde + offset) % 2 ^ 32)

def type1Slot (cfg : PuschHoppingCfg) (slot : Fin 2) : Fin 2 :=
  match cfg.hopMode with
  | .interSf => Fin.ofNat 2 cfg.currentTxNb
  | .intraSf => slot

/-- A round of the loop in `compute_freq_hopping`. -/
def hopSlot (c : ℕ → ℕ) (fuel : ℕ) (cfg : PuschHoppingCfg) (nofPrb tti : ℕ) (grant : PuschGrant)
    (slot : Fin 2) : Except Failure ℕ :=
  if grant.freqHopping = 2 then hopType2 c fuel cfg nofPrb tti (grant.nPrb 0) slot
  else if grant.freqHopping = 1 then .ok (grant.nPrb (type1Slot cfg slot))
  else .ok (grant.nPrb slot)

/-- `srslte_ra_ul_pusch_hopping`. In a cell in TDD there is only an error message more. -/
def raUlPuschHopping (c : ℕ → ℕ) (fuel : ℕ) (cfg : PuschHoppingCfg) (nofPrb tti : ℕ)
    (grant : PuschGrant) : Except Failure PuschGrant :=
  if cfg.hoppingEnabled then do
    let first ← hopSlot c fuel cfg nofPrb tti grant 0
    let second ← hopSlot c fuel cfg nofPrb tti grant 1
    pure { grant with nPrbTilde := ![first, second] }
  else .ok { grant with nPrbTilde := grant.nPrb }

def hopped (c : ℕ → ℕ) (fuel : ℕ) (cfg : PuschHoppingCfg) (nofPrb tti : ℕ) (dci : DciUl) :
    Except Failure PuschGrant := do
  let grant ← raUlDciToGrant cfg nofPrb dci
  raUlPuschHopping c fuel cfg nofPrb tti grant

def FreqHopFl.type : FreqHopFl → ℕ
  | .disabled => 0
  | .type2 => 2
  | _ => 1

section Spec

variable (cfg : PuschHoppingCfg) (nofPrb : ℕ)

def DciUl.run (dci : DciUl) : ℕ × ℕ := raType2FromRiv dci.riv nofPrb nofPrb

/-- The resource indication fits its field, and the grant is not refused. -/
structure Valid (dci : DciUl) : Prop where
  width : dci.riv < 2 ^ rivNbits nofPrb
  accepted : raUlDciToGrant cfg nofPrb dci ≠ .error .error

/-- The blocks that the hopping offset takes away on each side. A single sub-band of type 2 is the
carrier, whatever the offset. -/
def margin : ℕ → ℕ
  | 1 => evenHo cfg.nRbHo / 2
  | 2 => if cfg.nSb = 1 then 0 else evenHo cfg.hoppingOffset / 2
  | _ => 0

/-- The allocation is computed, and its blocks are in the carrier in each slot, with hopping enabled
also within the margins. -/
def Placed (c : ℕ → ℕ) (tti : ℕ) (dci : DciUl) : Prop :=
  ∃ fuel grant, hopped c fuel cfg nofPrb tti dci = .ok grant ∧ ∀ slot,
    grant.nPrbTilde slot + grant.lPrb ≤ nofPrb ∧
      (cfg.hoppingEnabled = true → margin cfg grant.freqHopping ≤ grant.nPrbTilde slot ∧
        grant.nPrbTilde slot + grant.lPrb + margin cfg grant.freqHopping ≤ nofPrb)

def Apart (a b : ℕ × ℕ) : Prop := a.2 + a.1 ≤ b.2 ∨ b.2 + b.1 ≤ a.2

def FitsSubband (run : ℕ × ℕ) : Prop :=
  ∃ band < cfg.nSb, margin cfg 2 + band * ((nofPrb - 2 * margin cfg 2) / cfg.nSb) ≤ run.2 ∧
    run.2 + run.1 ≤ margin cfg 2 + (band + 1) * ((nofPrb - 2 * margin cfg 2) / cfg.nSb)

def StayApart (c : ℕ → ℕ) (tti : ℕ) (a b : DciUl) : Prop :=
  a.freqHopFl.type = b.freqHopFl.type → Apart (a.run nofPrb) (b.run nofPrb) →
    FitsSubband cfg nofPrb (a.run nofPrb) → FitsSubband cfg nofPrb (b.run nofPrb) →
      ∀ fuel ga gb, hopped c fuel cfg nofPrb tti a = .ok ga →
        hopped c fuel cfg nofPrb tti b = .ok gb →
          ∀ slot, Apart (ga.lPrb, ga.nPrbTilde slot) (gb.lPrb, gb.nPrbTilde slot)

structure HopsWell (c : ℕ → ℕ) (tti : ℕ) (a b : DciUl) : Prop where
  first : Placed cfg nofPrb c tti a
  second : Placed cfg nofPrb c tti b
  apart : StayApart cfg nofPrb c tti a b

/-- The slots in which a grant is away from its own place: all or none between subframes, the second
one within a subframe. -/
def hopsIn (slot : Fin 2) : Bool :=
  match cfg.hopMode with
  | .interSf => cfg.currentTxNb % 2 = 1
  | .intraSf => slot = 1

/-- The distance of a hop of type 1 around `p` blocks. -/
def advance (p : ℕ) : FreqHopFl → ℕ
  | .quart => p / 4
  | .quartNeg => p - p / 4
  | .half => p / 2
  | _ => 0

/-- How often the hop of type 1 of a run from `n` passes the end of the `p` blocks. -/
def turns (p n : ℕ) : FreqHopFl → ℕ
  | .quartNeg => if n < p / 4 then 0 else 1
  | fl => (n + advance p fl) / p

/-- The condition for the place of a hop of type 1, for a run of length `l` from `n`. -/
def LandsType1 (fl : FreqHopFl) (l n : ℕ) : Prop :=
  let p := nRbPusch cfg.nRbHo nofPrb
  (p = 0 → fl = .quartNeg) ∧
    (cfg.hoppingEnabled = true → ∀ slot,
      if hopsIn cfg slot then
        margin cfg 1 + turns p n fl * p ≤ n + advance p fl ∧
          n + advance p fl + l + margin cfg 1 ≤ nofPrb + turns p n fl * p
      else n + l + margin cfg 1 ≤ nofPrb)

def LandsType2 (l n : ℕ) : Prop :=
  cfg.hoppingEnabled = true → cfg.nSb = 1 ∧ ∀ slot,
    if hopsIn cfg slot then l ≤ n + 1 else 1 ≤ n ∨ l = 1

def Lands (dci : DciUl) : Prop :=
  match dci.freqHopFl with
  | .disabled => True
  | .type2 => LandsType2 cfg (dci.run nofPrb).1 (dci.run nofPrb).2
  | fl => LandsType1 cfg nofPrb fl (dci.run nofPrb).1 (dci.run nofPrb).2

/-- The condition for two hops of type 1: the distances and the turns keep the runs apart. -/
def KeepsType1 (a b : DciUl) : Prop :=
  let p := nRbPusch cfg.nRbHo nofPrb
  let reach (x y : DciUl) : ℕ := (x.run nofPrb).2 + advance p x.freqHopFl +
    turns p (y.run nofPrb).2 y.freqHopFl * p
  (cfg.hoppingEnabled = true → ∃ slot, hopsIn cfg slot = true) →
    reach a b + (a.run nofPrb).1 ≤ reach b a ∨ reach b a + (b.run nofPrb).1 ≤ reach a b

/-- The condition for two hops of type 2: a mirrored run does not reach the next one. -/
def KeepsType2 (a b : DciUl) : Prop :=
  cfg.hoppingEnabled = true → (∃ slot, hopsIn cfg slot = true) →
    (a.run nofPrb).2 + (b.run nofPrb).1 ≤ (b.run nofPrb).2 ∨
      (b.run nofPrb).2 + (a.run nofPrb).1 ≤ (a.run nofPrb).2

def Keeps (a b : DciUl) : Prop :=
  a.freqHopFl.type = b.freqHopFl.type → Apart (a.run nofPrb) (b.run nofPrb) →
    FitsSubband cfg nofPrb (a.run nofPrb) → FitsSubband cfg nofPrb (b.run nofPrb) →
      match a.freqHopFl with
      | .disabled => True
      | .type2 => KeepsType2 cfg nofPrb a b
      | _ => KeepsType1 cfg nofPrb a b

end Spec

end Hopping

end SrsLte
