import Mathlib.Data.Nat.Find
import SrsLte.RlcAmRxWindow

/-!
# Status reports of the AM receiver

`get_status_pdu` walks from `vr_r` to `vr_ms`, NACKs what is missing and acknowledges up to the last
SN that it finds received. The report is sound if and only if the walk ends behind a received SN, is
empty, or is cut before a second NACK without any received SN.
-/

namespace SrsLte.RlcAmRx

variable {rx : RlcAmRx} {k : ℕ}

/-- The SN of that many steps from `vr_r`. -/
def snAt (rx : RlcAmRx) (k : ℕ) : ℕ := (rx.vrR + k) % rlcAmMod

/-- The PDU lies completely in the window, received as a whole or put together of segments. -/
def Received (rx : RlcAmRx) (sn : ℕ) : Prop := (rx.rxWindow.find? sn).isSome = true

instance (rx : RlcAmRx) (sn : ℕ) : Decidable (rx.Received sn) := inferInstanceAs (Decidable (_ = _))

/-- What `get_status_pdu` notes of the first `k` SNs. -/
def noted (rx : RlcAmRx) : ℕ → RlcStatusPdu
  | 0 => { ackSn := rx.vrR, nacks := [] }
  | k + 1 => rx.noteSn (rx.snAt k) (rx.noted k)

theorem noted_succ_of_received (h : rx.Received (rx.snAt k)) :
    rx.noted (k + 1) = { rx.noted k with ackSn := rx.snAt k } := by
  obtain ⟨pdu, hpdu⟩ := Option.isSome_iff_exists.mp h
  rw [noted, noteSn, hpdu]

theorem noted_succ_of_missing (h : ¬ rx.Received (rx.snAt k)) :
    rx.noted (k + 1) =
      { rx.noted k with nacks := (rx.noted k).nacks ++ [RlcStatusNack.whole (rx.snAt k)] } := by
  rw [noted, noteSn, Option.not_isSome_iff_eq_none.mp h]

theorem rxModBase_snAt (hr : InRange rx) (hk : k < rlcAmMod) : rx.rxModBase (rx.snAt k) = k := by
  have hvrR := hr.vrR_lt
  rw [rxModBase_eq hvrR, snAt]
  simp only [rlcAmMod] at hvrR hk ⊢
  omega

theorem snAt_lt (rx : RlcAmRx) (k : ℕ) : rx.snAt k < rlcAmMod := Nat.mod_lt _ (by decide)

theorem snAt_zero (hr : InRange rx) : rx.snAt 0 = rx.vrR := Nat.mod_eq_of_lt hr.vrR_lt

theorem snAt_succ (rx : RlcAmRx) (k : ℕ) : (rx.snAt k + 1) % rlcAmMod = rx.snAt (k + 1) := by
  rw [snAt, snAt, Nat.mod_add_mod, Nat.add_assoc]

theorem snAt_rxModBase (hr : InRange rx) {sn : ℕ} (hsn : sn < rlcAmMod) :
    rx.snAt (rx.rxModBase sn) = sn := vrR_add_rxModBase hr hsn

theorem mem_nacks_noted {n : RlcStatusNack} :
    n ∈ (rx.noted k).nacks ↔ ∃ j < k, ¬ rx.Received (rx.snAt j) ∧ n = .whole (rx.snAt j) := by
  induction k with
  | zero =>
    exact ⟨fun h => absurd h List.not_mem_nil, fun ⟨j, hj, _⟩ => absurd hj (Nat.not_lt_zero j)⟩
  | succ k ih =>
    by_cases hk : rx.Received (rx.snAt k)
    · rw [noted_succ_of_received hk, ih]
      constructor
      · rintro ⟨j, hj, hmissing, hn⟩
        exact ⟨j, Nat.lt_succ_of_lt hj, hmissing, hn⟩
      · rintro ⟨j, hj, hmissing, hn⟩
        rcases Nat.lt_succ_iff_lt_or_eq.mp hj with hlt | rfl
        · exact ⟨j, hlt, hmissing, hn⟩
        · exact absurd hk hmissing
    · rw [noted_succ_of_missing hk, List.mem_append, ih, List.mem_singleton]
      constructor
      · rintro (⟨j, hj, hmissing, hn⟩ | hn)
        · exact ⟨j, Nat.lt_succ_of_lt hj, hmissing, hn⟩
        · exact ⟨k, Nat.lt_succ_self k, hk, hn⟩
      · rintro ⟨j, hj, hmissing, hn⟩
        rcases Nat.lt_succ_iff_lt_or_eq.mp hj with hlt | rfl
        · exact Or.inl ⟨j, hlt, hmissing, hn⟩
        · exact Or.inr hn

theorem length_nacks_noted_le (rx : RlcAmRx) (k : ℕ) : (rx.noted k).nacks.length ≤ k := by
  induction k with
  | zero => exact le_rfl
  | succ k ih =>
    by_cases hk : rx.Received (rx.snAt k)
    · rw [noted_succ_of_received hk]
      exact Nat.le_succ_of_le ih
    · rw [noted_succ_of_missing hk, List.length_append, List.length_singleton]
      exact Nat.succ_le_succ ih

theorem length_nacks_noted_eq_iff :
    (rx.noted k).nacks.length = k ↔ ∀ j < k, ¬ rx.Received (rx.snAt j) := by
  induction k with
  | zero => exact iff_of_true rfl fun j hj => absurd hj (Nat.not_lt_zero j)
  | succ k ih =>
    have hle := length_nacks_noted_le rx k
    by_cases hk : rx.Received (rx.snAt k)
    · rw [noted_succ_of_received hk]
      exact iff_of_false (by dsimp only; omega) fun h => h k (Nat.lt_succ_self k) hk
    · rw [noted_succ_of_missing hk, List.length_append, List.length_singleton,
        Nat.add_right_cancel_iff, ih]
      constructor
      · intro h j hj
        rcases Nat.lt_succ_iff_lt_or_eq.mp hj with hlt | rfl
        · exact h j hlt
        · exact hk
      · exact fun h j hj => h j (Nat.lt_succ_of_lt hj)

theorem ackSn_noted_cases (hr : InRange rx) (k : ℕ) :
    ((∀ j < k, ¬ rx.Received (rx.snAt j)) ∧ (rx.noted k).ackSn = rx.snAt 0) ∨
      ∃ j < k, rx.Received (rx.snAt j) ∧ (∀ l, j < l → l < k → ¬ rx.Received (rx.snAt l)) ∧
        (rx.noted k).ackSn = rx.snAt j := by
  induction k with
  | zero =>
    exact Or.inl ⟨fun j hj => absurd hj (Nat.not_lt_zero j), (snAt_zero hr).symm⟩
  | succ k ih =>
    by_cases hk : rx.Received (rx.snAt k)
    · rw [noted_succ_of_received hk]
      exact Or.inr ⟨k, Nat.lt_succ_self k, hk, fun l hl hlk => absurd hlk (by omega), rfl⟩
    · rw [noted_succ_of_missing hk]
      rcases ih with ⟨hnone, hack⟩ | ⟨j, hj, hreceived, hlast, hack⟩
      · refine Or.inl ⟨fun j hj => ?_, hack⟩
        rcases Nat.lt_succ_iff_lt_or_eq.mp hj with hlt | rfl
        · exact hnone j hlt
        · exact hk
      · refine Or.inr ⟨j, Nat.lt_succ_of_lt hj, hreceived, fun l hl hlk => ?_, hack⟩
        rcases Nat.lt_succ_iff_lt_or_eq.mp hlk with hlt | rfl
        · exact hlast l hl hlt
        · exact hk

/-- The number of SNs from `vr_r` to `vr_ms`. -/
def span (rx : RlcAmRx) : ℕ := rx.rxModBase rx.vrMs

/-- The number of missing SNs among the first `k`. -/
def missing (rx : RlcAmRx) (k : ℕ) : ℕ := (List.range k).countP fun j => ¬ rx.Received (rx.snAt j)

theorem missing_succ (rx : RlcAmRx) (k : ℕ) :
    rx.missing (k + 1) = rx.missing k + if rx.Received (rx.snAt k) then 0 else 1 := by
  rw [missing, List.range_succ, List.countP_append, List.countP_singleton]
  split_ifs with h hnot hnot
  · exact absurd hnot (of_decide_eq_true h)
  · rfl
  · rfl
  · exact absurd (decide_eq_true hnot) h

/-- A status PDU with the NACKs of the first `k` SNs fits. -/
def Fits (rx : RlcAmRx) (maxPduSize k : ℕ) : Prop :=
  (15 + 12 * rx.missing k + 7) / 8 ≤ maxPduSize

instance (rx : RlcAmRx) (maxPduSize : ℕ) : DecidablePred (rx.Fits maxPduSize) :=
  fun _ => inferInstanceAs (Decidable (_ ≤ _))

theorem packedLength_noted (rx : RlcAmRx) (k : ℕ) :
    (rx.noted k).packedLength = (15 + 12 * rx.missing k + 7) / 8 := by
  have hbits : ((rx.noted k).nacks.map RlcStatusPdu.bitsOfNack).sum = 12 * rx.missing k := by
    induction k with
    | zero => rfl
    | succ k ih =>
      rw [missing_succ]
      by_cases hk : rx.Received (rx.snAt k)
      · rw [noted_succ_of_received hk, if_pos hk]
        exact ih
      · rw [noted_succ_of_missing hk, if_neg hk, List.map_append, List.sum_append, ih, Nat.mul_add]
        rfl
  rw [RlcStatusPdu.packedLength, hbits]

theorem missing_mono (rx : RlcAmRx) {j k : ℕ} (h : j ≤ k) : rx.missing j ≤ rx.missing k := by
  induction k, h using Nat.le_induction with
  | base => exact le_rfl
  | succ k _ ih =>
    rw [missing_succ]
    exact ih.trans (Nat.le_add_right _ _)

def reported (rx : RlcAmRx) (maxPduSize : ℕ) : ℕ :=
  Nat.findGreatest (rx.Fits maxPduSize) rx.span

theorem reported_le (rx : RlcAmRx) (maxPduSize : ℕ) : rx.reported maxPduSize ≤ rx.span :=
  Nat.findGreatest_le _

theorem statusLoop_eq (hr : InRange rx) (hspan : rx.span ≤ rlcAmWindowSize) {maxPduSize fuel : ℕ}
    (hk : k ≤ rx.span) (hfuel : rx.span < k + fuel)
    (hfits : ∀ j, 0 < j → j ≤ k → rx.Fits maxPduSize j) :
    ((∀ j, 0 < j → j ≤ rx.span → rx.Fits maxPduSize j) ∧
        statusLoop rx maxPduSize fuel (rx.snAt k) (rx.noted k) = rx.noted rx.span) ∨
      ∃ w < rx.span, (∀ j, 0 < j → j ≤ w → rx.Fits maxPduSize j) ∧ ¬ rx.Fits maxPduSize (w + 1) ∧
        statusLoop rx maxPduSize fuel (rx.snAt k) (rx.noted k) =
          removeLastNack (rx.noted (w + 1)) := by
  induction fuel generalizing k with
  | zero => omega
  | succ fuel ih =>
    have hlength := length_nacks_noted_le rx k
    have hmod : rlcAmMod = 1024 := rfl
    have hwindow : rlcAmWindowSize = 512 := rfl
    rw [statusLoop, rxModBase_snAt hr (by omega)]
    by_cases hlt : k < rx.span
    · have hnoted : rx.noteSn (rx.snAt k) (rx.noted k) = rx.noted (k + 1) := rfl
      rw [if_pos ⟨hlt, by omega⟩, hnoted, snAt_succ]
      dsimp only
      rw [packedLength_noted]
      by_cases hnext : rx.Fits maxPduSize (k + 1)
      · rw [if_neg (Nat.not_lt.mpr hnext)]
        refine ih (Nat.succ_le_of_lt hlt) (by omega) fun j hpos hj => ?_
        rcases Nat.le_succ_iff.mp hj with hj | rfl
        · exact hfits j hpos hj
        · exact hnext
      · rw [if_pos (Nat.lt_of_not_le hnext)]
        exact Or.inr ⟨k, hlt, hfits, hnext, rfl⟩
    · have heq : k = rx.span := le_antisymm hk (Nat.le_of_not_lt hlt)
      rw [if_neg fun h => hlt h.1, heq]
      exact Or.inl ⟨fun j hpos hj => hfits j hpos (heq ▸ hj), rfl⟩

theorem reported_eq {maxPduSize w : ℕ} (hw : w ≤ rx.span)
    (hfits : ∀ j, 0 < j → j ≤ w → rx.Fits maxPduSize j)
    (hnot : w < rx.span → ¬ rx.Fits maxPduSize (w + 1)) : rx.reported maxPduSize = w := by
  refine Nat.findGreatest_eq_iff.mpr ⟨hw, fun hne => hfits w (Nat.pos_of_ne_zero hne) le_rfl, ?_⟩
  intro j hlt hle hj
  have hmono := rx.missing_mono (show w + 1 ≤ j from hlt)
  refine hnot (lt_of_lt_of_le hlt hle) (le_trans ?_ hj)
  omega

theorem getStatusPdu_eq (hr : InRange rx) (hspan : rx.span ≤ rlcAmWindowSize) (maxPduSize : ℕ) :
    rx.getStatusPdu maxPduSize =
      if rx.reported maxPduSize = rx.span then rx.noted rx.span
      else removeLastNack (rx.noted (rx.reported maxPduSize + 1)) := by
  have hmod : rlcAmMod = 1024 := rfl
  have hwindow : rlcAmWindowSize = 512 := rfl
  have hloop := @statusLoop_eq rx 0 hr hspan maxPduSize rlcAmMod (Nat.zero_le _) (by omega)
    fun j hpos hj => absurd hj (by omega)
  rw [snAt_zero hr] at hloop
  rw [getStatusPdu]
  rcases hloop with ⟨hfits, heq⟩ | ⟨w, hw, hfits, hnot, heq⟩
  · rw [reported_eq le_rfl hfits fun h => absurd h (lt_irrefl _), if_pos rfl]
    exact heq
  · rw [reported_eq hw.le hfits fun _ => hnot, if_neg hw.ne]
    exact heq

/-- Every SN below `ACK_SN` that is not NACKed is received; the NACKs are for missing SNs below
`ACK_SN`, in ascending order from `vr_r` on; and `ACK_SN` is not NACKed. -/
structure StatusSound (rx : RlcAmRx) (status : RlcStatusPdu) : Prop where
  received : ∀ sn < rlcAmMod, rx.rxModBase sn < rx.rxModBase status.ackSn →
    (∀ n ∈ status.nacks, n.nackSn ≠ sn) → rx.Received sn
  nacked : ∀ n ∈ status.nacks, n.nackSn < rlcAmMod ∧
    rx.rxModBase n.nackSn < rx.rxModBase status.ackSn ∧ ¬ rx.Received n.nackSn
  ascending : status.nacks.Pairwise fun a b => rx.rxModBase a.nackSn < rx.rxModBase b.nackSn
  ackSn : ∀ n ∈ status.nacks, n.nackSn ≠ status.ackSn

theorem pairwise_nacks_noted (hr : InRange rx) (hk : k ≤ rlcAmMod) :
    (rx.noted k).nacks.Pairwise fun a b => rx.rxModBase a.nackSn < rx.rxModBase b.nackSn := by
  induction k with
  | zero => exact List.Pairwise.nil
  | succ k ih =>
    have ih := ih (Nat.le_of_succ_le hk)
    by_cases hreceived : rx.Received (rx.snAt k)
    · rw [noted_succ_of_received hreceived]
      exact ih
    · rw [noted_succ_of_missing hreceived]
      refine List.pairwise_append.mpr ⟨ih, List.pairwise_singleton _ _, fun a ha b hb => ?_⟩
      obtain ⟨j, hj, -, rfl⟩ := mem_nacks_noted.mp ha
      rw [List.mem_singleton.mp hb]
      change rx.rxModBase (rx.snAt j) < rx.rxModBase (rx.snAt k)
      rw [rxModBase_snAt hr (by omega), rxModBase_snAt hr (by omega)]
      exact hj

theorem statusSound_empty (hr : InRange rx) :
    StatusSound rx { ackSn := rx.snAt 0, nacks := [] } where
  received sn _ hlt _ := by
    rw [rxModBase_snAt hr (by decide)] at hlt
    exact absurd hlt (Nat.not_lt_zero _)
  nacked _ h := absurd h List.not_mem_nil
  ascending := List.Pairwise.nil
  ackSn _ h := absurd h List.not_mem_nil

theorem noted_zero (hr : InRange rx) : rx.noted 0 = { ackSn := rx.snAt 0, nacks := [] } := by
  rw [snAt_zero hr]
  rfl

theorem statusSound_noted_iff (hr : InRange rx) (hk : k ≤ rlcAmMod) :
    StatusSound rx (rx.noted k) ↔ k = 0 ∨ rx.Received (rx.snAt (k - 1)) := by
  constructor
  · intro h
    by_contra hnot
    obtain ⟨hne, hmissing⟩ := not_or.mp hnot
    have hlast : RlcStatusNack.whole (rx.snAt (k - 1)) ∈ (rx.noted k).nacks :=
      mem_nacks_noted.mpr ⟨k - 1, by omega, hmissing, rfl⟩
    have hlt : rx.rxModBase (rx.snAt (k - 1)) < rx.rxModBase (rx.noted k).ackSn :=
      (h.nacked _ hlast).2.1
    rw [rxModBase_snAt hr (by omega)] at hlt
    rcases ackSn_noted_cases hr k with ⟨-, hack⟩ | ⟨j, hj, -, -, hack⟩
    · rw [hack, rxModBase_snAt hr (by decide)] at hlt
      exact absurd hlt (Nat.not_lt_zero _)
    · rw [hack, rxModBase_snAt hr (by omega)] at hlt
      omega
  · intro h
    by_cases hzero : k = 0
    · rw [hzero, noted_zero hr]
      exact statusSound_empty hr
    · have hreceived := h.resolve_left hzero
      obtain ⟨j, rfl⟩ := Nat.exists_eq_succ_of_ne_zero hzero
      rw [Nat.succ_sub_one] at hreceived
      have hack : (rx.noted (j + 1)).ackSn = rx.snAt j := by rw [noted_succ_of_received hreceived]
      have hbase : rx.rxModBase (rx.snAt j) = j := rxModBase_snAt hr (by omega)
      refine ⟨fun sn hsn hlt hnacks => ?_, fun n hn => ?_, pairwise_nacks_noted hr hk,
        fun n hn => ?_⟩
      · rw [hack, hbase] at hlt
        by_contra hmissing
        refine hnacks (.whole sn) (mem_nacks_noted.mpr ⟨rx.rxModBase sn, by omega, ?_, ?_⟩) rfl
        · rwa [snAt_rxModBase hr hsn]
        · rw [snAt_rxModBase hr hsn]
      · obtain ⟨l, hl, hmissing, rfl⟩ := mem_nacks_noted.mp hn
        have hne : l ≠ j := fun heq => hmissing (heq ▸ hreceived)
        refine ⟨snAt_lt rx l, ?_, hmissing⟩
        change rx.rxModBase (rx.snAt l) < _
        rw [hack, hbase, rxModBase_snAt hr (by omega)]
        omega
      · obtain ⟨l, hl, hmissing, rfl⟩ := mem_nacks_noted.mp hn
        intro heq
        rw [hack] at heq
        exact hmissing ((show rx.snAt l = rx.snAt j from heq) ▸ hreceived)

/-- The walk ends behind a received SN or is empty; or it is cut, before all SNs of a window, with
none of them received. -/
def Covered (rx : RlcAmRx) (maxPduSize : ℕ) : Prop :=
  let w := rx.reported maxPduSize
  w = 0 ∨ rx.Received (rx.snAt (w - 1)) ∨
    (w < rx.span ∧ w + 1 < rlcAmWindowSize ∧ ∀ j < w, ¬ rx.Received (rx.snAt j))

theorem statusSound_removeLastNack_iff (hr : InRange rx) (hfree : ¬ rx.Received (rx.snAt 0))
    (hk : k < rlcAmWindowSize) (hmissing : ¬ rx.Received (rx.snAt k)) :
    StatusSound rx (removeLastNack (rx.noted (k + 1))) ↔
      k = 0 ∨ rx.Received (rx.snAt (k - 1)) ∨
        (k + 1 < rlcAmWindowSize ∧ ∀ j < k, ¬ rx.Received (rx.snAt j)) := by
  have hmod : rlcAmMod = 1024 := rfl
  have hwindow : rlcAmWindowSize = 512 := rfl
  have hlength := length_nacks_noted_le rx k
  have hnoted := noted_succ_of_missing hmissing
  have hcount : (rx.noted (k + 1)).nacks.length = (rx.noted k).nacks.length + 1 := by
    rw [hnoted, List.length_append, List.length_singleton]
  have hdrop : { rx.noted (k + 1) with nacks := (rx.noted (k + 1)).nacks.dropLast } =
      rx.noted k := by
    rw [hnoted]
    dsimp only
    rw [List.dropLast_concat]
  by_cases hfull : (rx.noted (k + 1)).nacks.length < rlcAmWindowSize
  · have hremove : removeLastNack (rx.noted (k + 1)) =
        if (rx.noted k).isValid then rx.noted k else { rx.noted k with nacks := [] } := by
      rw [removeLastNack, if_pos ⟨by omega, hfull⟩]
      dsimp only
      rw [hdrop, ← hdrop]
    rw [hremove]
    rcases ackSn_noted_cases hr k with ⟨hnone, hack⟩ | ⟨j, hj, hreceived, -, hack⟩
    · -- Without a received SN `ACK_SN` is the first NACK, if there is one.
      refine iff_of_true ?_ ?_
      · by_cases hzero : k = 0
        · rw [hzero, noted_zero hr]
          split_ifs
          · exact statusSound_empty hr
          · exact statusSound_empty hr
        · have hinvalid : (rx.noted k).isValid = false := by
            have hmem : RlcStatusNack.whole (rx.snAt 0) ∈ (rx.noted k).nacks :=
              mem_nacks_noted.mpr ⟨0, Nat.pos_of_ne_zero hzero, hfree, rfl⟩
            rw [RlcStatusPdu.isValid, List.all_eq_false]
            exact ⟨_, hmem, by rw [hack]; simp [RlcStatusNack.whole]⟩
          rw [hinvalid, if_neg Bool.false_ne_true]
          dsimp only
          rw [hack]
          exact statusSound_empty hr
      · rw [hcount, length_nacks_noted_eq_iff.mpr hnone] at hfull
        exact Or.inr (Or.inr ⟨hfull, hnone⟩)
    · have hvalid : (rx.noted k).isValid = true := by
        rw [RlcStatusPdu.isValid, List.all_eq_true]
        intro n hn
        obtain ⟨l, hl, hmiss, rfl⟩ := mem_nacks_noted.mp hn
        refine decide_eq_true fun heq => hmiss ?_
        rw [hack] at heq
        exact (show rx.snAt l = rx.snAt j from heq) ▸ hreceived
      rw [if_pos hvalid, statusSound_noted_iff hr (by omega)]
      constructor
      · exact Or.imp_right Or.inl
      · rintro (hzero | hlast | ⟨-, hnone⟩)
        · exact Or.inl hzero
        · exact Or.inr hlast
        · exact absurd hreceived (hnone j hj)
  · -- All SNs of the window are missing, and nothing is removed.
    have hk' : k = 511 := by omega
    have hall : ∀ j < k, ¬ rx.Received (rx.snAt j) :=
      length_nacks_noted_eq_iff.mp (by omega)
    have hremove : removeLastNack (rx.noted (k + 1)) = rx.noted (k + 1) := by
      rw [removeLastNack, if_neg fun h => hfull h.2]
    rw [hremove, statusSound_noted_iff hr (by omega)]
    refine iff_of_false ?_ ?_
    · rintro (hzero | hlast)
      · exact absurd hzero (Nat.succ_ne_zero k)
      · exact hmissing hlast
    · rintro (hzero | hlast | ⟨hlt, -⟩)
      · omega
      · exact hall (k - 1) (by omega) hlast
      · omega

theorem missing_of_not_fits {maxPduSize : ℕ} (hfits : 0 < k → rx.Fits maxPduSize k)
    (hnot : ¬ rx.Fits maxPduSize (k + 1)) (hfree : ¬ rx.Received (rx.snAt 0)) :
    ¬ rx.Received (rx.snAt k) := by
  intro hreceived
  rcases Nat.eq_zero_or_pos k with rfl | hpos
  · exact hfree hreceived
  · refine hnot ?_
    rw [Fits, missing_succ, if_pos hreceived]
    exact hfits hpos

theorem statusSound_iff_covered (h : WindowOrdered rx) (hr : InRange rx) (maxPduSize : ℕ) :
    StatusSound rx (rx.getStatusPdu maxPduSize) ↔ Covered rx maxPduSize := by
  have hmod : rlcAmMod = 1024 := rfl
  have hwindow : rlcAmWindowSize = 512 := rfl
  have hspan : rx.span ≤ rlcAmWindowSize := by
    rw [← rxModBase_vrMr hr h.vrMr_eq]
    exact h.vrMs_le.trans h.vrH_le
  have hfree : ¬ rx.Received (rx.snAt 0) := by
    rw [snAt_zero hr, Received, h.vrR_free]
    exact Bool.false_ne_true
  have hle := rx.reported_le maxPduSize
  have hspec := Nat.findGreatest_eq_iff.mp (rfl : rx.reported maxPduSize = rx.reported maxPduSize)
  obtain ⟨-, hfits, hmax⟩ := hspec
  rw [getStatusPdu_eq hr hspan, Covered]
  generalize rx.reported maxPduSize = w at *
  by_cases heq : w = rx.span
  · rw [if_pos heq, ← heq, statusSound_noted_iff hr (by omega)]
    exact or_congr_right (or_iff_left fun hcut => absurd hcut.1 (lt_irrefl _)).symm
  · have hlt : w < rx.span := lt_of_le_of_ne hle heq
    have hmissing := missing_of_not_fits (fun hpos => hfits hpos.ne')
      (hmax (Nat.lt_succ_self w) hlt) hfree
    rw [if_neg heq, statusSound_removeLastNack_iff hr hfree (by omega) hmissing, and_iff_right hlt]

theorem windowOrdered_run (delivered : List Bytes) (events : List Event) :
    WindowOrdered (events.foldl step (init delivered)) ∧
      InRange (events.foldl step (init delivered)) := by
  have hstart : WindowOrdered (init delivered) ∧ InRange (init delivered) ∧
      SoundWindow (init delivered) :=
    ⟨windowOrdered_init delivered, inRange_init delivered, soundWindow_init delivered⟩
  have hrun : WindowOrdered (events.foldl step (init delivered)) ∧
      InRange (events.foldl step (init delivered)) ∧
        SoundWindow (events.foldl step (init delivered)) := by
    refine List.foldlRecOn
      (motive := fun rx : RlcAmRx => WindowOrdered rx ∧ InRange rx ∧ SoundWindow rx) events _
      hstart fun rx hrx e _ => ?_
    obtain ⟨hordered, hr, hsound⟩ := hrx
    obtain ⟨hordered', hr'⟩ := (step_spec hordered hr hsound e).1
    exact ⟨hordered', hr', soundWindow_step hsound e⟩
  exact ⟨hrun.1, hrun.2.1⟩

/-- In every state that a run reaches and for every size, the report is sound if and only if it is
covered. -/
theorem reportSound_iff_covered (delivered : List Bytes) (events : List Event) (maxPduSize : ℕ) :
    StatusSound (events.foldl step (init delivered))
        ((events.foldl step (init delivered)).getStatusPdu maxPduSize) ↔
      Covered (events.foldl step (init delivered)) maxPduSize :=
  statusSound_iff_covered (windowOrdered_run delivered events).1
    (windowOrdered_run delivered events).2 maxPduSize

/-- Behind a segment of the second PDU and the whole first one, when the timer has expired, the
report NACKs the SN that it gives as `ACK_SN`. -/
theorem ack_sn_nacked : ¬ ∀ (delivered : List Bytes) (events : List Event) (maxPduSize : ℕ),
    StatusSound (events.foldl step (init delivered))
      ((events.foldl step (init delivered)).getStatusPdu maxPduSize) := by
  intro h
  have hsound := h [] [.pdu [0xC0, 0x01, 0x00, 0x00, 0x55], .pdu [0x80, 0x00, 0x66],
    .timerExpired] 100
  exact absurd rfl (hsound.ackSn (.whole 1) (by decide))

end SrsLte.RlcAmRx
