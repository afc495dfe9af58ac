import Mathlib.Algebra.Order.BigOperators.Group.Finset
import Mathlib.Data.List.Nodup
import Mathlib.Logic.Function.Basic
import Mathlib.Tactic.Ring

/-!
# HARQ-ACK and RI on PUSCH

The bits of HARQ-ACK and of RI are repeated over some symbols of the channel interleaver, with
placeholders that scrambling leaves alone and repetitions of the scrambled bit before. The receiver
adds up what belongs to one bit.
-/

namespace SrsLte

namespace Uci

/-- `srslte_uci_bit_type_t`. -/
inductive UciBitType
  | zero
  | one
  | repetition
  | placeholder
  deriving DecidableEq

/-- `srslte_uci_bit_t`. -/
structure UciBit where
  position : ℕ
  type : UciBitType

structure Grant where
  lPrb : ℕ
  lPrb_pos : 0 < lPrb
  cpIsNorm : Bool
  shortened : Bool
  qm : ℕ
  two_le_qm : 2 ≤ qm

namespace Grant

/-- `nof_symb` of `compute_nof_re`. -/
def nofSymb (g : Grant) : ℕ := 2 * ((if g.cpIsNorm then 7 else 6) - 1) - g.shortened.toNat

/-- `nof_re`, which is `H_prime_total` too. -/
def nofRe (g : Grant) : ℕ := g.nofSymb * g.lPrb * 12

/-- `tb.nof_bits`. -/
def nofBits (g : Grant) : ℕ := g.nofRe * g.qm

end Grant

/-- The generators of positions: `none` past the first row. -/
def interleaveGen (columnSetNorm columnSetExt : List ℕ) (bitIdx qm hPrimeTotal nPuschSymbs : ℕ) :
    Option (List ℕ) :=
  if 1 + bitIdx / 4 ≤ hPrimeTotal / nPuschSymbs then
    let row := hPrimeTotal / nPuschSymbs - 1 - bitIdx / 4
    let colidx := 3 * bitIdx % 4
    let col := (if 10 < nPuschSymbs then columnSetNorm else columnSetExt).getD colidx 0
    some ((List.range qm).map fun k => row * qm + hPrimeTotal / nPuschSymbs * col * qm + k)
  else none

/-- `uci_ulsch_interleave_ack_gen`. -/
def ulschInterleaveAckGen : ℕ → ℕ → ℕ → ℕ → Option (List ℕ) :=
  interleaveGen [2, 3, 8, 9] [1, 2, 6, 7]

/-- `uci_ulsch_interleave_ri_gen`. -/
def ulschInterleaveRiGen : ℕ → ℕ → ℕ → ℕ → Option (List ℕ) :=
  interleaveGen [1, 4, 7, 10] [0, 3, 5, 8]

/-- Bit `t` of the field: its position, which stays as it was where the generator gives none. -/
def bitPosition (g : Grant) (isRi : Bool) (old : ℕ → ℕ) (t : ℕ) : ℕ :=
  match (if isRi then ulschInterleaveRiGen else ulschInterleaveAckGen) (t / g.qm) g.qm g.nofRe
      g.nofSymb with
  | some positions => positions.getD (t % g.qm) 0
  | none => old t

def UciBitType.ofBit (b : Bool) : UciBitType := if b then .one else .zero

def symbolBits (qm : ℕ) (first second : UciBitType) : List UciBitType :=
  [first, second] ++ List.replicate (qm - 2) .placeholder

/-- `encode_ri_ack`. -/
def encodeRiAck (qm : ℕ) : List Bool → List UciBitType
  | [d0] => symbolBits qm (.ofBit d0) .repetition
  | [d0, d1] =>
    symbolBits qm (.ofBit d0) (.ofBit d1) ++ symbolBits qm (.ofBit (d0 ^^ d1)) (.ofBit d0) ++
      symbolBits qm (.ofBit d1) (.ofBit (d0 ^^ d1))
  | _ => []

/-- "Repeat bits Q_prime times". -/
def repeatBits (pattern : List UciBitType) (n : ℕ) : ℕ → List UciBitType → List UciBitType
  | 0, bits => bits
  | fuel + 1, bits =>
    if bits.length < n then repeatBits pattern n fuel (bits ++ pattern) else bits

/-- `srslte_uci_encode_ack_ri` for fewer than three bits and no bundling, with `Q_prime` given: the
bits that are read afterwards. -/
def encodeAckRi (g : Grant) (isRi : Bool) (old : ℕ → ℕ) (data : List Bool) (qPrime : ℕ) :
    List UciBit :=
  let types := repeatBits (encodeRiAck g.qm data) (qPrime * g.qm) (qPrime * g.qm) []
  (List.range (qPrime * g.qm)).map fun t =>
    { position := bitPosition g isRi old t, type := types.getD t .zero }

/-- One bit that `srslte_ulsch_encode` puts into those of the interleaver. -/
def insertBit (g : Grant) (q : ℕ → Bool) (b : UciBit) : ℕ → Bool :=
  if b.position < g.nofBits then Function.update q b.position (b.type = .one) else q

/-- One bit of "Correct UCI placeholder/repetition bits" in `srslte_pusch_encode`. -/
def correctBit (d : ℕ → Bool) (b : UciBit) : ℕ → Bool :=
  match b.type with
  | .placeholder => Function.update d b.position true
  | .repetition => if 1 < b.position then Function.update d b.position (d (b.position - 1)) else d
  | _ => d

/-- The bits that are modulated, with the scrambling sequence `c`. -/
def puschBits (g : Grant) (uci : List UciBit) (c q : ℕ → Bool) : ℕ → Bool :=
  uci.foldl correctBit fun p => uci.foldl (insertBit g) q p ^^ c p

/-- The size of a soft value. -/
abbrev Level := { a : ℤ // 0 < a ∧ a < 2 ^ 15 }

/-- A value of type `int16_t`, negated where the scrambling sequence has a one. -/
def scrambleSoft (b : Bool) (x : ℤ) : ℤ := if b then (-x).bmod (2 ^ 16) else x

/-- The soft bits without noise, after descrambling. The two bits of a symbol that are not
placeholders have one size. -/
def softBits (g : Grant) (levels : ℕ → Level) (c d : ℕ → Bool) (p : ℕ) : ℤ :=
  scrambleSoft (c p) (if d p then (levels (p / g.qm)).val else -(levels (p / g.qm)).val)

structure DecodeRun where
  qBits : ℕ → ℤ
  sum0 : ℤ
  sum1 : ℤ
  sum2 : ℤ

/-- `decode_ri_ack_1bit`, added up. -/
def DecodeRun.decode1bit (c : ℕ → Bool) (pos : ℕ → ℕ) (s : DecodeRun) : DecodeRun :=
  let q := Function.update s.qBits (pos 1) (scrambleSoft (c (pos 1)) (s.qBits (pos 1)))
  { s with qBits := q, sum0 := s.sum0 + (q (pos 0) + scrambleSoft (c (pos 0)) (q (pos 1))) }

/-- `decode_ri_ack_2bits`. -/
def DecodeRun.decode2bits (qm : ℕ) (pos : ℕ → ℕ) (s : DecodeRun) : DecodeRun :=
  { s with
    sum0 := s.sum0 + (s.qBits (pos (qm * 0 + 0)) + s.qBits (pos (qm * 1 + 1)))
    sum1 := s.sum1 + (s.qBits (pos (qm * 0 + 1)) + s.qBits (pos (qm * 2 + 0)))
    sum2 := s.sum2 + (s.qBits (pos (qm * 1 + 0)) + s.qBits (pos (qm * 2 + 1))) }

/-- The body of the loop of `srslte_uci_decode_ack_ri`. -/
def decodeStep (g : Grant) (isRi : Bool) (old : ℕ → ℕ) (c : ℕ → Bool) (nofBits : ℕ)
    (s : DecodeRun) (i : ℕ) : DecodeRun :=
  if nofBits = 2 ∧ i % 3 = 0 ∧ 0 < i then
    s.decode2bits g.qm fun t => bitPosition g isRi old (g.qm * (i - 3) + t)
  else if nofBits = 1 then s.decode1bit c fun t => bitPosition g isRi old (g.qm * i + t)
  else s

/-- `srslte_uci_decode_ack_ri`: the values written. -/
def decodeAckRi (g : Grant) (isRi : Bool) (old : ℕ → ℕ) (c : ℕ → Bool) (nofBits qPrime : ℕ)
    (qBits : ℕ → ℤ) : List Bool :=
  let s := (List.range qPrime).foldl (decodeStep g isRi old c nofBits) ⟨qBits, 0, 0, 0⟩
  decide (0 < s.sum0) :: if nofBits = 2 then [decide (0 < s.sum1)] else []

section Writes

variable {g : Grant} {uci : List UciBit} {b : UciBit} {d q : ℕ → Bool} {p : ℕ}

theorem insertBit_of_ne (h : b.position ≠ p) : insertBit g q b p = q p := by
  unfold insertBit
  split_ifs
  · exact Function.update_of_ne h.symm _ _
  · rfl

theorem foldl_insertBit_of_ne (h : ∀ b ∈ uci, b.position ≠ p) :
    uci.foldl (insertBit g) q p = q p := by
  induction uci generalizing q with
  | nil => rfl
  | cons b uci ih =>
    rw [List.foldl_cons, ih (List.forall_mem_cons.mp h).2,
      insertBit_of_ne (h b List.mem_cons_self)]

theorem foldl_insertBit (hnodup : (uci.map UciBit.position).Nodup) (hb : b ∈ uci)
    (hp : b.position < g.nofBits) :
    uci.foldl (insertBit g) q b.position = decide (b.type = .one) := by
  obtain ⟨before, after, rfl⟩ := List.append_of_mem hb
  rw [List.map_append, List.map_cons, List.nodup_append] at hnodup
  have hafter : ∀ b' ∈ after, b'.position ≠ b.position := by
    intro b' hb' heq
    have hnot := (List.nodup_cons.mp hnodup.2.1).1
    exact hnot (heq ▸ List.mem_map_of_mem hb')
  rw [List.foldl_append, List.foldl_cons, foldl_insertBit_of_ne hafter, insertBit, if_pos hp,
    Function.update_self]

theorem correctBit_of_ne (h : b.position ≠ p) : correctBit d b p = d p := by
  unfold correctBit
  cases b.type with
  | zero | one => rfl
  | placeholder => exact Function.update_of_ne h.symm _ _
  | repetition =>
    dsimp only
    split_ifs
    · exact Function.update_of_ne h.symm _ _
    · rfl

theorem correctBit_of_data (h : b.type = .zero ∨ b.type = .one) : correctBit d b = d := by
  unfold correctBit
  rcases h with h | h <;> rw [h]

theorem foldl_correctBit_keeps
    (h : ∀ b ∈ uci, b.position = p → b.type = .zero ∨ b.type = .one) :
    uci.foldl correctBit d p = d p := by
  induction uci generalizing d with
  | nil => rfl
  | cons b uci ih =>
    rw [List.foldl_cons, ih (List.forall_mem_cons.mp h).2]
    by_cases hp : b.position = p
    · rw [correctBit_of_data (h b List.mem_cons_self hp)]
    · exact correctBit_of_ne hp

theorem foldl_correctBit_repetition (hnodup : (uci.map UciBit.position).Nodup) (hb : b ∈ uci)
    (htype : b.type = .repetition) (hp : 1 < b.position)
    (hbefore : ∀ b' ∈ uci, b'.position = b.position - 1 → b'.type = .zero ∨ b'.type = .one) :
    uci.foldl correctBit d b.position = d (b.position - 1) := by
  obtain ⟨before, after, rfl⟩ := List.append_of_mem hb
  rw [List.map_append, List.map_cons, List.nodup_append] at hnodup
  have hafter : ∀ b' ∈ after, b'.position = b.position → b'.type = .zero ∨ b'.type = .one := by
    intro b' hb' heq
    have hnot := (List.nodup_cons.mp hnodup.2.1).1
    exact absurd (heq ▸ List.mem_map_of_mem hb') hnot
  rw [List.foldl_append, List.foldl_cons, foldl_correctBit_keeps hafter, correctBit, htype]
  dsimp only
  rw [if_pos hp, Function.update_self]
  exact foldl_correctBit_keeps fun b' hb' => hbefore b' (List.mem_append_left _ hb')

end Writes

namespace Grant

variable (g : Grant)

def rows : ℕ := g.lPrb * 12

theorem rows_pos : 0 < g.rows := Nat.mul_pos g.lPrb_pos (by decide)

theorem nofSymb_bounds : 9 ≤ g.nofSymb ∧ g.nofSymb ≤ 12 := by
  unfold nofSymb
  cases g.cpIsNorm <;> cases g.shortened <;> decide

theorem nofRe_eq : g.nofRe = g.nofSymb * g.rows := Nat.mul_assoc _ _ _

theorem nofRe_div : g.nofRe / g.nofSymb = g.rows := by
  rw [nofRe_eq]
  exact Nat.mul_div_cancel_left _ (by have := g.nofSymb_bounds; omega)

def column (isRi : Bool) (i : ℕ) : ℕ :=
  (if 10 < g.nofSymb then (if isRi then [1, 4, 7, 10] else [2, 3, 8, 9])
    else (if isRi then [0, 3, 5, 8] else [1, 2, 6, 7])).getD (3 * i % 4) 0

def symbolIndex (isRi : Bool) (i : ℕ) : ℕ := g.rows - 1 - i / 4 + g.rows * g.column isRi i

theorem column_lt (isRi : Bool) (i : ℕ) : g.column isRi i < g.nofSymb := by
  have hall : ∀ cp sh ri : Bool, ∀ a < 4,
      (if 10 < 2 * ((if cp then 7 else 6) - 1) - sh.toNat then
          (if ri then [1, 4, 7, 10] else [2, 3, 8, 9])
        else (if ri then [0, 3, 5, 8] else [1, 2, 6, 7])).getD a 0 <
        2 * ((if cp then 7 else 6) - 1) - sh.toNat := by
    decide
  exact hall g.cpIsNorm g.shortened isRi _ (Nat.mod_lt _ (by decide))

theorem column_injective {isRi isRi' : Bool} {i j : ℕ}
    (h : g.column isRi i = g.column isRi' j) : isRi = isRi' ∧ 3 * i % 4 = 3 * j % 4 := by
  have hall : ∀ wide : Prop, ∀ [Decidable wide], ∀ ri ri' : Bool, ∀ a < 4, ∀ b < 4,
      (if wide then (if ri then [1, 4, 7, 10] else [2, 3, 8, 9])
        else (if ri then [0, 3, 5, 8] else [1, 2, 6, 7])).getD a 0 =
      (if wide then (if ri' then [1, 4, 7, 10] else [2, 3, 8, 9])
        else (if ri' then [0, 3, 5, 8] else [1, 2, 6, 7])).getD b 0 → ri = ri' ∧ a = b := by
    intro wide _
    by_cases hwide : wide
    · simp only [hwide, if_true]
      decide
    · simp only [hwide, if_false]
      decide
  exact hall (10 < g.nofSymb) isRi isRi' _ (Nat.mod_lt _ (by decide)) _ (Nat.mod_lt _ (by decide)) h

theorem symbolIndex_injective {isRi isRi' : Bool} {i j : ℕ} (hi : i < 4 * g.rows)
    (hj : j < 4 * g.rows) (h : g.symbolIndex isRi i = g.symbolIndex isRi' j) :
    isRi = isRi' ∧ i = j := by
  have hrows := g.rows_pos
  have hrow : g.rows - 1 - i / 4 = g.rows - 1 - j / 4 := by
    have hmod := congrArg (· % g.rows) h
    simp only [symbolIndex, Nat.add_mul_mod_self_left] at hmod
    rwa [Nat.mod_eq_of_lt (by omega), Nat.mod_eq_of_lt (by omega)] at hmod
  have hcol : g.column isRi i = g.column isRi' j := by
    unfold symbolIndex at h
    rw [hrow] at h
    exact Nat.eq_of_mul_eq_mul_left hrows (Nat.add_left_cancel h)
  obtain ⟨hri, hidx⟩ := g.column_injective hcol
  exact ⟨hri, by omega⟩

theorem symbolIndex_lt (isRi : Bool) (i : ℕ) : g.symbolIndex isRi i < g.nofRe := by
  have hrows := g.rows_pos
  have hcol : g.rows * (g.column isRi i + 1) ≤ g.rows * g.nofSymb :=
    Nat.mul_le_mul_left _ (g.column_lt isRi i)
  rw [nofRe_eq, Nat.mul_comm g.nofSymb]
  unfold symbolIndex
  rw [Nat.mul_succ] at hcol
  omega

end Grant

section Positions

variable {g : Grant} {isRi : Bool} {old : ℕ → ℕ} {i k t : ℕ}

theorem bitPosition_eq (hi : i < 4 * g.rows) (hk : k < g.qm) :
    bitPosition g isRi old (i * g.qm + k) = g.symbolIndex isRi i * g.qm + k := by
  have hdiv : (i * g.qm + k) / g.qm = i := by
    rw [Nat.mul_comm, Nat.mul_add_div (by omega), Nat.div_eq_of_lt hk, Nat.add_zero]
  have hmod : (i * g.qm + k) % g.qm = k := by
    rw [Nat.mul_comm, Nat.mul_add_mod, Nat.mod_eq_of_lt hk]
  have hrow : 1 + i / 4 ≤ g.rows := by omega
  unfold bitPosition Grant.symbolIndex Grant.column
  rw [hdiv, hmod]
  cases isRi <;>
    · simp only [ulschInterleaveRiGen, ulschInterleaveAckGen, interleaveGen, g.nofRe_div, hrow,
        if_true, if_false, Bool.false_eq_true]
      rw [List.getD_eq_getElem?_getD, List.getElem?_map, List.getElem?_range hk, Option.map_some,
        Option.getD_some]
      ring

end Positions

/-- HARQ-ACK or RI of fewer than three bits, with its `Q_prime`. -/
structure UciField (g : Grant) where
  data : List Bool
  length_le : data.length ≤ 2
  qPrime : ℕ
  qPrime_le : qPrime ≤ 4 * g.rows
  qPrime_eq_zero : data = [] → qPrime = 0

def patternSymbols : List Bool → List (UciBitType × UciBitType)
  | [d0] => [(.ofBit d0, .repetition)]
  | [d0, d1] =>
    [(.ofBit d0, .ofBit d1), (.ofBit (d0 ^^ d1), .ofBit d0), (.ofBit d1, .ofBit (d0 ^^ d1))]
  | _ => []

section Pattern

variable {qm : ℕ}

@[simp] theorem length_symbolBits (hqm : 2 ≤ qm) (a b : UciBitType) :
    (symbolBits qm a b).length = qm := by
  simp only [symbolBits, List.length_append, List.length_cons, List.length_nil,
    List.length_replicate]
  omega

theorem encodeRiAck_eq (qm : ℕ) (data : List Bool) :
    encodeRiAck qm data = (patternSymbols data).flatMap fun s => symbolBits qm s.1 s.2 := by
  match data with
  | [] => rfl
  | [_] => simp [encodeRiAck, patternSymbols]
  | [_, _] => simp [encodeRiAck, patternSymbols]
  | _ :: _ :: _ :: _ => rfl

theorem getElem?_flatMap_rows {α β : Type*} {f : α → List β} {n : ℕ} (hf : ∀ a, (f a).length = n)
    {k : ℕ} (hk : k < n) (l : List α) (i : ℕ) :
    (l.flatMap f)[i * n + k]? = l[i]?.bind fun a => (f a)[k]? := by
  induction l generalizing i with
  | nil => simp
  | cons a l ih =>
    rw [List.flatMap_cons]
    cases i with
    | zero => simp [List.getElem?_append_left, hf, hk]
    | succ i =>
      rw [List.getElem?_append_right (by rw [hf, Nat.succ_mul]; omega), hf,
        show (i + 1) * n + k - n = i * n + k by rw [Nat.succ_mul]; omega, ih,
        List.getElem?_cons_succ]

theorem repeatBits_getElem? {pattern : List UciBitType} (hpos : 0 < pattern.length) {n t : ℕ}
    (ht : t < n) (fuel : ℕ) (bits : List UciBitType) (hdvd : pattern.length ∣ bits.length)
    (hbits : ∀ u < bits.length, bits[u]? = pattern[u % pattern.length]?)
    (hfuel : n ≤ bits.length + fuel) :
    (repeatBits pattern n fuel bits)[t]? = pattern[t % pattern.length]? := by
  induction fuel generalizing bits with
  | zero => exact hbits t (by omega)
  | succ fuel ih =>
    rw [repeatBits]
    split_ifs with hlen
    · apply ih
      · rw [List.length_append]
        exact (Nat.dvd_add_right hdvd).mpr dvd_rfl
      · intro u hu
        by_cases hleft : u < bits.length
        · rw [List.getElem?_append_left hleft, hbits u hleft]
        · obtain ⟨m, hm⟩ := hdvd
          rw [List.length_append] at hu
          obtain ⟨v, rfl⟩ := Nat.exists_eq_add_of_le (Nat.le_of_not_lt hleft)
          rw [List.getElem?_append_right (Nat.le_add_right _ _), Nat.add_sub_cancel_left, hm,
            Nat.mul_add_mod, Nat.mod_eq_of_lt (by omega)]
      · rw [List.length_append]
        omega
    · exact hbits t (by omega)

end Pattern

end Uci

end SrsLte
