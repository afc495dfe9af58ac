import SrsLte.LengthIndicators
import SrsLte.LevelTable
import SrsLte.MacPdu
import Mathlib.Data.Fin.VecNotation
import Mathlib.Data.Fintype.Basic
import Mathlib.Tactic.FinCases

/-!
# Buffer size levels

`set_bsr` stores the level of each buffer size, `get_bsr` gives back the size at which the level
ends. A size at the end of a level is counted to the next level by `buff_size_table`.
-/

namespace SrsLte

namespace BsrFormat

def lcid : BsrFormat → ℕ
  | truncBsr => Lcid.truncBsr
  | shortBsr => Lcid.shortBsr
  | longBsr => Lcid.longBsr

def Names (format : BsrFormat) (buffSize : Fin 4 → ℕ) (lcg : Fin 4) : Prop :=
  format = longBsr ∨ lcg = CeSetting.nonzeroLcg buffSize

instance (format : BsrFormat) (buffSize : Fin 4 → ℕ) (lcg : Fin 4) :
    Decidable (format.Names buffSize lcg) := inferInstanceAs (Decidable (_ ∨ _))

end BsrFormat

def sizeOfValue (value : ℕ) : ℕ :=
  if value ≠ 0 then
    if value < 63 then btable.getD (1 + value) 0 else btable.getD 63 0
  else value

/-- The values of `get_bsr` before the table is applied, and the LCG it returns. -/
def bsrValues (lcid : ℕ) (payload : Bytes) (buffSize : Fin 4 → ℕ) : (Fin 4 → ℕ) × ℕ :=
  let byte := fun i => (payload.getD i 0).toNat
  if lcid = Lcid.longBsr then
    (![(byte 0 &&& 0xFC) >>> 2,
       (byte 0 &&& 0x03) <<< 4 ||| (byte 1 &&& 0xF0) >>> 4,
       (byte 1 &&& 0x0F) <<< 4 ||| (byte 1 &&& 0xC0) >>> 6,
       byte 2 &&& 0x3F], 0)
  else
    let nonzeroLcg := (byte 0 &&& 0xC0) >>> 6
    (fun i => if i.val = nonzeroLcg % 4 then byte 0 &&& 0x3F else buffSize i, nonzeroLcg)

/-- `get_bsr` on the sizes of the caller. -/
def getBsr (lcid : ℕ) (payload : Bytes) (buffSize : Fin 4 → ℕ) : (Fin 4 → ℕ) × ℕ :=
  let (values, nonzeroLcg) := bsrValues lcid payload buffSize
  (fun i => sizeOfValue (values i), nonzeroLcg)

def bsrReadBack (format : BsrFormat) (buffSize : Fin 4 → ℕ) : (Fin 4 → ℕ) × ℕ :=
  getBsr format.lcid (CeSetting.bsr format buffSize).bytes fun _ => 0

/-- The levels of `btable`. -/
def bsrTable : LevelTable where
  edge k := btable.getD k 0
  top := 62
  edge_zero := rfl
  edge_lt_succ := by decide

theorem edge_bsrTable (k : ℕ) : bsrTable.edge k = btable.getD k 0 := rfl

variable {n : ℕ} {format : BsrFormat} {buffSize : Fin 4 → ℕ}

theorem level_of_find {i : ℕ} (hn : n ≠ 0)
    (h : (List.range 61).find? (fun i => n < btable.getD (i + 2) 0) = some i) :
    bsrTable.level n = 1 + i := by
  rw [List.find?_range_eq_some] at h
  obtain ⟨hlt, hmem, hfirst⟩ := h
  have hi : i < 61 := List.mem_range.mp hmem
  apply bsrTable.level_eq
  · change 1 + i ≤ 62
    omega
  · cases i with
    | zero => exact Nat.pos_of_ne_zero hn
    | succ i =>
      have hprev := hfirst i (Nat.lt_succ_self i)
      rw [Bool.not_eq_true', decide_eq_false_iff_not, Nat.not_lt] at hprev
      rw [Nat.add_comm]
      exact hprev
  · intro _
    have hedge := of_decide_eq_true hlt
    rw [edge_bsrTable, Nat.add_right_comm 1 i 1, Nat.add_comm]
    exact hedge

theorem buffSizeTable_eq (n : ℕ) :
    buffSizeTable n = if n > 150000 then 63 else bsrTable.level n := by
  unfold buffSizeTable
  by_cases hzero : n = 0
  · subst hzero
    exact (bsrTable.level_edge (Nat.zero_le _)).symm
  rw [if_neg hzero]
  split_ifs with hbig
  · rfl
  split
  next i hfind => exact (level_of_find hzero hfind).symm
  next hfind =>
    have hlast := List.find?_eq_none.mp hfind 60 (List.mem_range.mpr (by decide))
    rw [decide_eq_true_iff, Nat.not_lt] at hlast
    refine (bsrTable.level_eq le_rfl hlast ?_).symm
    intro h
    exact absurd h (Nat.lt_irrefl _)

theorem buffSizeTable_lt (n : ℕ) : buffSizeTable n < 64 := by
  have htop : bsrTable.level n ≤ 62 := bsrTable.level_le_top n
  rw [buffSizeTable_eq]
  split_ifs <;> omega

theorem monotone_buffSizeTable : Monotone buffSizeTable := by
  intro x y hxy
  have htop : bsrTable.level x ≤ 62 := bsrTable.level_le_top x
  have hlevel := bsrTable.monotone_level hxy
  rw [buffSizeTable_eq, buffSizeTable_eq]
  split_ifs <;> omega

theorem monotone_sizeOfValue : Monotone sizeOfValue := by
  refine monotone_nat_of_le_succ fun value => ?_
  have hsmall : ∀ value < 63, sizeOfValue value ≤ sizeOfValue (value + 1) := by decide
  by_cases hlt : value < 63
  · exact hsmall value hlt
  · unfold sizeOfValue
    rw [if_pos (by omega), if_neg hlt, if_pos (Nat.succ_ne_zero _), if_neg (by omega)]

theorem le_sizeOfValue (n : ℕ) : min n 150000 ≤ sizeOfValue (buffSizeTable n) := by
  rw [buffSizeTable_eq]
  split_ifs with hbig
  · exact min_le_right _ _
  by_cases hlast : bsrTable.level n = 62
  · rw [hlast]
    exact min_le_right _ _
  have htop : bsrTable.level n ≤ 62 := bsrTable.level_le_top n
  by_cases hzero : n = 0
  · rw [hzero]
    exact (min_le_left _ _).trans (Nat.zero_le _)
  have hpos : 1 ≤ bsrTable.level n := by
    refine bsrTable.le_level ?_ (Nat.pos_of_ne_zero hzero)
    decide
  have hnext := bsrTable.lt_edge_of_level_lt (Nat.lt_succ_self (bsrTable.level n)) (by
    change _ ≤ 62
    omega)
  refine (min_le_left _ _).trans ?_
  unfold sizeOfValue
  rw [if_pos (by omega), if_pos (by omega), Nat.add_comm]
  exact hnext.le

/-- A size read back is the lower edge of the next level. -/
theorem buffSizeTable_sizeOfValue_eq (k : ℕ) :
    buffSizeTable (sizeOfValue k) = if k = 0 then 0 else min (k + 1) 62 := by
  have hedge : ∀ k ≤ 63, btable.getD k 0 ≤ 150000 := by decide
  have hlast : bsrTable.level (btable.getD 63 0) = 62 := by
    refine bsrTable.level_eq le_rfl (by decide) fun h => ?_
    exact absurd h (Nat.lt_irrefl _)
  unfold sizeOfValue
  rw [buffSizeTable_eq]
  rcases eq_or_ne k 0 with rfl | hzero
  · exact bsrTable.level_edge (Nat.zero_le _)
  rw [if_pos hzero, if_neg hzero]
  split_ifs with hlt hbig hbig
  · rw [Nat.add_comm] at hbig
    exact absurd hbig (Nat.not_lt.mpr (hedge (k + 1) hlt))
  · rw [Nat.add_comm]
    rcases Nat.lt_or_ge k 62 with h | h
    · rw [min_eq_left (by omega)]
      exact bsrTable.level_edge (k := k + 1) h
    · obtain rfl : k = 62 := by omega
      exact hlast
  · exact absurd hbig (by decide)
  · rw [hlast, min_eq_right (by omega)]

/-- Only the level of empty buffers and the level in front of the last edge are read back as
themselves. -/
theorem buffSizeTable_sizeOfValue (k : ℕ) :
    buffSizeTable (sizeOfValue k) = k ↔ k = 0 ∨ k = 62 := by
  rw [buffSizeTable_sizeOfValue_eq]
  split_ifs <;> omega

def KeptSize (n : ℕ) : Prop := n = 0 ∨ 128125 ≤ n ∧ n ≤ 150000

instance (n : ℕ) : Decidable (KeptSize n) := inferInstanceAs (Decidable (_ ∨ _))

theorem buffSizeTable_eq_zero_iff : buffSizeTable n = 0 ↔ n = 0 := by
  constructor
  · intro h
    by_contra hzero
    have hone := monotone_buffSizeTable (Nat.one_le_iff_ne_zero.mpr hzero)
    have h1 : buffSizeTable 1 = 1 := by decide
    omega
  · rintro rfl
    rfl

theorem buffSizeTable_eq_last_iff :
    buffSizeTable n = 62 ↔ 128125 ≤ n ∧ n ≤ 150000 := by
  have hedge : bsrTable.edge 62 = 128125 := rfl
  have hle := bsrTable.edge_level_le n
  rw [buffSizeTable_eq]
  split_ifs with hbig
  · omega
  constructor
  · intro h
    rw [h, hedge] at hle
    exact ⟨hle, Nat.not_lt.mp hbig⟩
  · rintro ⟨hlow, -⟩
    exact le_antisymm (bsrTable.level_le_top n) (bsrTable.le_level le_rfl hlow)

theorem keptSize_iff :
    KeptSize n ↔ buffSizeTable (sizeOfValue (buffSizeTable n)) = buffSizeTable n := by
  rw [buffSizeTable_sizeOfValue, buffSizeTable_eq_zero_iff,
    buffSizeTable_eq_last_iff]
  rfl

section Bytes

open LengthIndicators

theorem toNat_high_low {hi lo k : ℕ} (hlo : lo < 2 ^ k) (hlt : hi * 2 ^ k + lo < 256) :
    (UInt8.ofNat (hi <<< k ||| lo)).toNat = hi * 2 ^ k + lo := by
  rw [or_high hlo, toNat_ofNat hlt]

theorem toNat_shortByte (lcg : ℕ) {level : ℕ} (hlevel : level < 64) :
    (UInt8.ofNat ((lcg &&& 0x3) <<< 6 ||| level &&& 0x3F)).toNat = lcg % 4 * 64 + level := by
  have hlow : level &&& 0x3F = level := (and_low level 6).trans (Nat.mod_eq_of_lt hlevel)
  have hhigh : lcg &&& 0x3 = lcg % 4 := and_low lcg 2
  rw [hlow, hhigh]
  exact toNat_high_low hlevel (by omega)

theorem shortByte {lcg level : ℕ} (hlcg : lcg < 4) (hlevel : level < 64) :
    (UInt8.ofNat ((lcg &&& 0x3) <<< 6 ||| level &&& 0x3F)).toNat &&& 0x3F = level ∧
      ((UInt8.ofNat ((lcg &&& 0x3) <<< 6 ||| level &&& 0x3F)).toNat &&& 0xC0) >>> 6 = lcg := by
  rw [toNat_shortByte lcg hlevel]
  constructor
  · exact (and_low _ 6).trans (by omega)
  · exact (and_mask_shift _ 2 6).trans (by omega)

theorem longByte0 {a b : ℕ} (ha : a < 64) (hb : b < 64) :
    let byte := (UInt8.ofNat ((a &&& 0x3F) <<< 2 ||| (b &&& 0x30) >>> 4)).toNat
    (byte &&& 0xFC) >>> 2 = a ∧ (byte &&& 0x03) <<< 4 = b / 16 * 16 := by
  have hhigh : a &&& 0x3F = a := (and_low a 6).trans (Nat.mod_eq_of_lt ha)
  have hlow : (b &&& 0x30) >>> 4 = b / 16 := (and_mask_shift b 2 4).trans (by omega)
  rw [hhigh, hlow, toNat_high_low (by omega) (by omega)]
  constructor
  · exact (and_mask_shift _ 6 2).trans (by omega)
  · rw [Nat.shiftLeft_eq]
    exact congrArg (· * 2 ^ 4) ((and_low _ 2).trans (by omega))

theorem longByte1 (b : ℕ) {c : ℕ} (hc : c < 64) :
    let byte := (UInt8.ofNat ((b &&& 0xF) <<< 4 ||| (c &&& 0x3C) >>> 2)).toNat
    (byte &&& 0xF0) >>> 4 = b % 16 ∧
      (byte &&& 0x0F) <<< 4 ||| (byte &&& 0xC0) >>> 6 = c / 4 * 16 + b % 16 / 4 := by
  have hhigh : b &&& 0xF = b % 16 := and_low b 4
  have hlow : (c &&& 0x3C) >>> 2 = c / 4 := (and_mask_shift c 4 2).trans (by omega)
  rw [hhigh, hlow, toNat_high_low (by omega) (by omega)]
  have hc' : (b % 16 * 2 ^ 4 + c / 4) &&& 0x0F = c / 4 := (and_low _ 4).trans (by omega)
  have hb' : ((b % 16 * 2 ^ 4 + c / 4) &&& 0xC0) >>> 6 = b % 16 / 4 :=
    (and_mask_shift _ 2 6).trans (by omega)
  constructor
  · exact (and_mask_shift _ 4 4).trans (by omega)
  · rw [hc', hb']
    exact or_high (by omega) _

theorem longByte2 (c : ℕ) {d : ℕ} (hd : d < 64) :
    (UInt8.ofNat ((c &&& 0x3) <<< 6 ||| d &&& 0x3F)).toNat &&& 0x3F = d := by
  rw [toNat_shortByte c hd]
  exact (and_low _ 6).trans (by omega)

theorem or_mod_sixteen (b : ℕ) : b / 16 * 16 ||| b % 16 = b := by
  rw [← Nat.shiftLeft_eq _ 4, or_high (show b % 16 < 2 ^ 4 from Nat.mod_lt b (by decide))]
  exact Nat.div_add_mod' b 16

end Bytes

section Long

variable (buffSize : Fin 4 → ℕ)

theorem bsrReadBack_long :
    bsrReadBack .longBsr buffSize =
      (![sizeOfValue (buffSizeTable (buffSize 0)), sizeOfValue (buffSizeTable (buffSize 1)),
        sizeOfValue (buffSizeTable (buffSize 2) / 4 * 16 + buffSizeTable (buffSize 1) % 16 / 4),
        sizeOfValue (buffSizeTable (buffSize 3))], 0) := by
  have hlevel := fun i => buffSizeTable_lt (buffSize i)
  have h0 := longByte0 (hlevel 0) (hlevel 1)
  have h1 := longByte1 (buffSizeTable (buffSize 1)) (hlevel 2)
  have h2 := longByte2 (buffSizeTable (buffSize 2)) (hlevel 3)
  have hor := or_mod_sixteen (buffSizeTable (buffSize 1))
  refine Prod.ext ?_ rfl
  funext i
  fin_cases i
  · exact congrArg sizeOfValue h0.1
  · refine congrArg sizeOfValue ?_
    change (_ &&& 0x03) <<< 4 ||| (_ &&& 0xF0) >>> 4 = _
    rw [← hor, ← h0.2, ← h1.1]
    rfl
  · exact congrArg sizeOfValue h1.2
  · exact congrArg sizeOfValue h2

end Long

theorem bsrReadBack_one (hformat : format ≠ .longBsr) (buffSize : Fin 4 → ℕ) :
    bsrReadBack format buffSize =
      (fun lcg => if lcg = CeSetting.nonzeroLcg buffSize then
        sizeOfValue (buffSizeTable (buffSize lcg)) else 0,
        (CeSetting.nonzeroLcg buffSize).val) := by
  have hbyte := shortByte (CeSetting.nonzeroLcg buffSize).isLt
    (buffSizeTable_lt (buffSize (CeSetting.nonzeroLcg buffSize)))
  have hcase : ∀ bytes : Bytes, bytes = [UInt8.ofNat (((CeSetting.nonzeroLcg buffSize).val &&&
      0x3) <<< 6 ||| buffSizeTable (buffSize (CeSetting.nonzeroLcg buffSize)) &&& 0x3F)] →
      ∀ lcid, lcid ≠ Lcid.longBsr → getBsr lcid bytes (fun _ => 0) =
        (fun lcg => if lcg = CeSetting.nonzeroLcg buffSize then
          sizeOfValue (buffSizeTable (buffSize lcg)) else 0,
          (CeSetting.nonzeroLcg buffSize).val) := by
    rintro _ rfl lcid hlcid
    unfold getBsr bsrValues
    rw [if_neg hlcid]
    refine Prod.ext ?_ hbyte.2
    funext lcg
    simp only [List.getD_cons_zero]
    rw [hbyte.1, hbyte.2, Nat.mod_eq_of_lt (CeSetting.nonzeroLcg buffSize).isLt]
    by_cases h : lcg = CeSetting.nonzeroLcg buffSize
    · rw [if_pos (congrArg Fin.val h), if_pos h, h]
    · rw [if_neg (fun hval => h (Fin.ext hval)), if_neg h]
      rfl
  cases format with
  | truncBsr => exact hcase _ rfl _ (by decide)
  | shortBsr => exact hcase _ rfl _ (by decide)
  | longBsr => exact absurd rfl hformat

/-- Every size that the BSR names is read for its own group, not smaller than it is, and has the
same level when it is written again. -/
structure BsrFaithful (format : BsrFormat) (buffSize : Fin 4 → ℕ) : Prop where
  lcg : format ≠ .longBsr →
    (bsrReadBack format buffSize).2 = (CeSetting.nonzeroLcg buffSize).val
  others : ∀ lcg, ¬ format.Names buffSize lcg → (bsrReadBack format buffSize).1 lcg = 0
  le : ∀ lcg, format.Names buffSize lcg →
    min (buffSize lcg) 150000 ≤ (bsrReadBack format buffSize).1 lcg
  level : ∀ lcg, format.Names buffSize lcg →
    buffSizeTable ((bsrReadBack format buffSize).1 lcg) = buffSizeTable (buffSize lcg)

def BsrOrdered (format : BsrFormat) (buffSize buffSize' : Fin 4 → ℕ) : Prop :=
  ∀ lcg, format.Names buffSize lcg → format.Names buffSize' lcg → buffSize lcg ≤ buffSize' lcg →
    (bsrReadBack format buffSize).1 lcg ≤ (bsrReadBack format buffSize').1 lcg

/-- The named sizes are zero or between the last two edges; where LCG 2 of a long BSR is empty,
so is LCG 1. -/
def BsrKept (format : BsrFormat) (buffSize : Fin 4 → ℕ) : Prop :=
  (∀ lcg, format.Names buffSize lcg → KeptSize (buffSize lcg)) ∧
    (format = .longBsr → buffSize 2 = 0 → buffSize 1 = 0)

theorem bsrReadBack_of_names {lcg : Fin 4}
    (hnames : format.Names buffSize lcg) (h : format ≠ .longBsr ∨ lcg ≠ 2) :
    (bsrReadBack format buffSize).1 lcg = sizeOfValue (buffSizeTable (buffSize lcg)) := by
  by_cases hformat : format = .longBsr
  · have hlcg := h.resolve_left (not_not_intro hformat)
    rw [hformat, bsrReadBack_long]
    fin_cases lcg
    · rfl
    · rfl
    · exact absurd rfl hlcg
    · rfl
  · have hnamed := hnames.resolve_left hformat
    rw [bsrReadBack_one hformat]
    exact if_pos hnamed

/-- The value read for LCG 2 has the level of its size in the same two cases, the empty one only
beside an empty LCG 1. -/
theorem level_lcg2 {b c : ℕ} (hb : b = 0 ∨ b = 62) (hc : c < 64) :
    buffSizeTable (sizeOfValue (c / 4 * 16 + b % 16 / 4)) = c ↔ c = 62 ∨ c = 0 ∧ b = 0 := by
  rw [buffSizeTable_sizeOfValue_eq]
  split_ifs <;> omega

theorem sizeOfValue_lcg2 {b c : ℕ} (h : c = 62 ∨ c = 0 ∧ b = 0) :
    sizeOfValue (c / 4 * 16 + b % 16 / 4) = sizeOfValue c := by
  rcases h with rfl | ⟨rfl, rfl⟩
  · unfold sizeOfValue
    rw [if_pos (by omega), if_neg (by omega)]
    rfl
  · rfl

theorem keptSize_iff_level : KeptSize n ↔ buffSizeTable n = 0 ∨ buffSizeTable n = 62 := by
  rw [buffSizeTable_eq_zero_iff, buffSizeTable_eq_last_iff]
  rfl

theorem BsrKept.readBack (h : BsrKept format buffSize)
    {lcg : Fin 4} (hnames : format.Names buffSize lcg) :
    (bsrReadBack format buffSize).1 lcg = sizeOfValue (buffSizeTable (buffSize lcg)) := by
  by_cases hother : format ≠ .longBsr ∨ lcg ≠ 2
  · exact bsrReadBack_of_names hnames hother
  obtain ⟨hformat, hlcg⟩ := not_or.mp hother
  obtain rfl := not_not.mp hformat
  obtain rfl := not_not.mp hlcg
  rw [bsrReadBack_long]
  apply sizeOfValue_lcg2
  rcases keptSize_iff_level.mp (h.1 2 hnames) with hzero | hlast
  · refine Or.inr ⟨hzero, ?_⟩
    exact buffSizeTable_eq_zero_iff.mpr (h.2 rfl (buffSizeTable_eq_zero_iff.mp hzero))
  · exact Or.inl hlast

theorem BsrKept.faithful (h : BsrKept format buffSize) : BsrFaithful format buffSize where
  lcg hformat := by rw [bsrReadBack_one hformat]
  others lcg hnot := by
    obtain ⟨hformat, hlcg⟩ := not_or.mp hnot
    rw [bsrReadBack_one hformat]
    exact if_neg hlcg
  le lcg hnames := by
    rw [h.readBack hnames]
    exact le_sizeOfValue _
  level lcg hnames := by
    rw [h.readBack hnames]
    exact keptSize_iff.mp (h.1 lcg hnames)

theorem BsrFaithful.kept (h : BsrFaithful format buffSize) : BsrKept format buffSize := by
  have hother : ∀ lcg, format.Names buffSize lcg → format ≠ .longBsr ∨ lcg ≠ 2 →
      KeptSize (buffSize lcg) := by
    intro lcg hnames hlcg
    have hlevel := h.level lcg hnames
    rw [bsrReadBack_of_names hnames hlcg] at hlevel
    exact keptSize_iff.mpr hlevel
  by_cases hformat : format = .longBsr
  · subst hformat
    have hnames : ∀ lcg, BsrFormat.longBsr.Names buffSize lcg := fun _ => Or.inl rfl
    have hone := keptSize_iff_level.mp (hother 1 (hnames 1) (Or.inr (by decide)))
    have hlevel := h.level 2 (hnames 2)
    rw [bsrReadBack_long] at hlevel
    have htwo := (level_lcg2 hone (buffSizeTable_lt (buffSize 2))).mp hlevel
    refine ⟨fun lcg _ => ?_, fun _ hempty => ?_⟩
    · by_cases hlcg : lcg = 2
      · rw [hlcg, keptSize_iff_level]
        exact htwo.symm.imp_left And.left
      · exact hother lcg (hnames lcg) (Or.inr hlcg)
    · rcases htwo with hlast | ⟨-, hzero⟩
      · rw [hempty] at hlast
        exact absurd hlast (by decide)
      · exact buffSizeTable_eq_zero_iff.mp hzero
  · exact ⟨fun lcg hnames => hother lcg hnames (Or.inl hformat), fun hlong => absurd hlong hformat⟩

/-- Writer and reader agree on two reports exactly when both hold only sizes of the two levels
that are read back as themselves. -/
theorem bsrFaithful_iff (format : BsrFormat) (buffSize buffSize' : Fin 4 → ℕ) :
    (BsrFaithful format buffSize ∧ BsrFaithful format buffSize' ∧
      BsrOrdered format buffSize buffSize') ↔
      BsrKept format buffSize ∧ BsrKept format buffSize' := by
  constructor
  · rintro ⟨h, h', -⟩
    exact ⟨h.kept, h'.kept⟩
  · rintro ⟨h, h'⟩
    refine ⟨h.faithful, h'.faithful, ?_⟩
    intro lcg hnames hnames' hle
    rw [h.readBack hnames, h'.readBack hnames']
    exact monotone_sizeOfValue (monotone_buffSizeTable hle)

/-- Five bytes are read as ten, which is written as the next level. -/
theorem five_bytes_change_level :
    ¬ ∀ (format : BsrFormat) (buffSize buffSize' : Fin 4 → ℕ), BsrFaithful format buffSize ∧
      BsrFaithful format buffSize' ∧ BsrOrdered format buffSize buffSize' := by
  intro h
  have hlevel := (h .shortBsr ![5, 0, 0, 0] ![5, 0, 0, 0]).1.level 0 (by decide)
  revert hlevel
  decide

end SrsLte
