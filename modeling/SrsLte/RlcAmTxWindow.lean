import Mathlib.Order.Interval.Finset.Nat
import SrsLte.RlcAmTxRuns
import SrsLte.RlcUmPdu

/-!
# The transmit window of RLC acknowledged mode

PDUs are numbered in the order in which they are built; the SN of a PDU is its number modulo the SN
space. A ledger of the numbers that no status PDU has acknowledged is kept next to the transmitter.
-/

namespace SrsLte.RlcAmTx

open EventRun (Along along_congr)

/-- The window has the PDUs with the numbers from `A` up to `N`. -/
structure Covers (tx : RlcAmTx) (A N : ℕ) : Prop where
  vtA : tx.vtA = A % rlcAmMod
  vtS : tx.vtS = N % rlcAmMod
  vtMs : tx.vtMs = (A + rlcAmWindowSize) % rlcAmMod
  le : A ≤ N
  near : N ≤ A + rlcAmWindowSize
  keys : ∀ sn, (tx.txWindow.find? sn).isSome = true ↔ ∃ m, A ≤ m ∧ m < N ∧ m % rlcAmMod = sn
  size : tx.windowSize = N - A

variable {tx tx' : RlcAmTx} {A N : ℕ}

theorem txModBase_mod (hvtA : tx.vtA = A % rlcAmMod) {m : ℕ} (hle : A ≤ m)
    (hlt : m < A + rlcAmMod) : tx.txModBase (m % rlcAmMod) = m - A := by
  rw [txModBase, Word.sub32, hvtA]
  simp only [rlcAmMod] at hlt ⊢
  omega

theorem txModBase_pos_iff (hvtA : tx.vtA = A % rlcAmMod) (x : ℕ) :
    0 < tx.txModBase (x % rlcAmMod) ↔ x % rlcAmMod ≠ A % rlcAmMod := by
  rw [txModBase, Word.sub32, hvtA]
  simp only [rlcAmMod]
  omega

theorem Covers.congr (h : Covers tx A N) (hA : tx'.vtA = tx.vtA) (hS : tx'.vtS = tx.vtS)
    (hMs : tx'.vtMs = tx.vtMs)
    (hkeys : ∀ sn, (tx'.txWindow.find? sn).isSome = (tx.txWindow.find? sn).isSome)
    (hsize : tx'.windowSize = tx.windowSize) : Covers tx' A N where
  vtA := hA.trans h.vtA
  vtS := hS.trans h.vtS
  vtMs := hMs.trans h.vtMs
  le := h.le
  near := h.near
  keys sn := by rw [hkeys, h.keys]
  size := hsize.trans h.size

theorem eq_of_mod_eq {m n : ℕ} (hm : A ≤ m) (hm' : m ≤ A + rlcAmWindowSize) (hn : A ≤ n)
    (hn' : n ≤ A + rlcAmWindowSize) (h : m % rlcAmMod = n % rlcAmMod) : m = n := by
  simp only [rlcAmMod, rlcAmWindowSize] at hm' hn' h
  omega

section

variable (h : Covers tx A N)
include h

theorem Covers.insert (hlt : N < A + rlcAmWindowSize) {pdu : RlcAmdTxPdu}
    (hA : tx'.vtA = tx.vtA) (hS : tx'.vtS = (tx.vtS + 1) % rlcAmMod) (hMs : tx'.vtMs = tx.vtMs)
    (hwindow : tx'.txWindow = tx.txWindow.insert tx.vtS pdu) : Covers tx' A (N + 1) where
  vtA := hA.trans h.vtA
  vtS := by rw [hS, h.vtS, Nat.mod_add_mod]
  vtMs := hMs.trans h.vtMs
  le := Nat.le_succ_of_le h.le
  near := hlt
  keys sn := by
    rw [hwindow, OrderedMap.find?_insert, h.vtS]
    constructor
    · intro hsome
      by_cases heq : sn = N % rlcAmMod
      · exact ⟨N, h.le, Nat.lt_succ_self N, heq.symm⟩
      · rw [if_neg heq] at hsome
        obtain ⟨m, hm, hm', hmod⟩ := (h.keys sn).mp hsome
        exact ⟨m, hm, Nat.lt_succ_of_lt hm', hmod⟩
    · rintro ⟨m, hm, hm', rfl⟩
      split_ifs with heq
      · rfl
      · refine (h.keys _).mpr ⟨m, hm, ?_, rfl⟩
        exact Nat.lt_of_le_of_ne (Nat.le_of_lt_succ hm') fun hN => heq (by rw [hN])
  size := by
    have hfree : (tx.txWindow.find? (N % rlcAmMod)).isSome = false := by
      rw [Bool.eq_false_iff]
      intro hsome
      obtain ⟨m, hm, hm', hmod⟩ := (h.keys _).mp hsome
      have heq := eq_of_mod_eq hm (hm'.le.trans h.near) h.le h.near hmod
      omega
    have hsize := h.size
    have hle := h.le
    rw [windowSize] at hsize ⊢
    rw [hwindow, OrderedMap.length_insert, h.vtS, hfree, hsize, if_neg Bool.false_ne_true]
    omega

theorem Covers.erase (hlt : A < N)
    (hA : tx'.vtA = (tx.vtA + 1) % rlcAmMod) (hS : tx'.vtS = tx.vtS)
    (hMs : tx'.vtMs = (tx.vtMs + 1) % rlcAmMod)
    (hwindow : tx'.txWindow = tx.txWindow.erase (A % rlcAmMod)) : Covers tx' (A + 1) N where
  vtA := by rw [hA, h.vtA, Nat.mod_add_mod]
  vtS := hS.trans h.vtS
  vtMs := by rw [hMs, h.vtMs, Nat.mod_add_mod, Nat.add_right_comm]
  le := hlt
  near := by
    have hnear := h.near
    omega
  keys sn := by
    rw [hwindow, OrderedMap.find?_erase]
    constructor
    · intro hsome
      split_ifs at hsome with heq
      · exact absurd hsome Bool.false_ne_true
      · obtain ⟨m, hm, hm', hmod⟩ := (h.keys sn).mp hsome
        refine ⟨m, Nat.lt_of_le_of_ne hm ?_, hm', hmod⟩
        rintro rfl
        exact heq hmod.symm
    · rintro ⟨m, hm, hm', rfl⟩
      have hne : m % rlcAmMod ≠ A % rlcAmMod := fun heq => by
        have heq' := eq_of_mod_eq (Nat.le_of_succ_le hm) (hm'.le.trans h.near) le_rfl
          (h.le.trans h.near) heq
        omega
      rw [if_neg hne]
      exact (h.keys _).mpr ⟨m, Nat.le_of_succ_le hm, hm', rfl⟩
  size := by
    obtain ⟨pdu, hpdu⟩ := Option.isSome_iff_exists.mp
      ((h.keys (A % rlcAmMod)).mpr ⟨A, le_rfl, hlt, rfl⟩)
    have hlength := OrderedMap.length_erase hpdu
    have hsize := h.size
    rw [windowSize] at hsize ⊢
    rw [hwindow]
    omega

theorem Covers.retxQueue (timer : RlcTimer) (queue : List RlcAmdRetx) :
    Covers { tx with pollRetxTimer := timer, retxQueue := queue } A N :=
  h.congr rfl rfl rfl (fun _ => rfl) rfl

theorem Covers.handleNack (nack : RlcStatusNack) :
    Covers (tx.handleNack nack) A N := by
  rcases tx.handleNack_eq nack with heq | ⟨pdu, -, -, heq⟩
  · rw [heq]
    exact h
  · rw [heq]
    exact h.retxQueue tx.pollRetxTimer _

theorem Covers.controlLoop_false (status : RlcStatusPdu) (fuel i : ℕ) :
    Covers (controlLoop status fuel i false tx) A N := by
  induction fuel generalizing i tx with
  | zero => exact h
  | succ fuel ih =>
    rw [controlLoop]
    dsimp only
    split_ifs
    · have hack : tx.handleAck i false = tx := by
        rcases tx.handleAck_eq i false with heq | ⟨hu, -⟩
        · exact heq
        · exact absurd hu Bool.false_ne_true
      rw [hack]
      exact ih h _
    · refine ih ?_ _
      exact List.foldlRecOn (motive := fun tx => Covers tx A N) _ _ h
        fun tx htx nack _ => htx.handleNack nack
    · exact h

end

def Nacks (status : RlcStatusPdu) (m : ℕ) : Prop := ∃ n ∈ status.nacks, n.nackSn = m % rlcAmMod

theorem nacks_iff (status : RlcStatusPdu) (m : ℕ) :
    Nacks status m ↔ (status.nacks.filter fun n => n.nackSn = m % rlcAmMod) ≠ [] := by
  rw [ne_eq, List.filter_eq_nil_iff, Nacks]
  simp

theorem Covers.controlLoop (h : Covers tx A N) (status : RlcStatusPdu)
    (hack : status.ackSn < rlcAmMod) {fuel : ℕ} (hfuel : N - A ≤ fuel) :
    ∃ A', A ≤ A' ∧ Covers (controlLoop status fuel tx.vtA true tx) A' N ∧
      (∀ m, A ≤ m → m < A' → m % rlcAmMod ≠ status.ackSn ∧ ¬ Nacks status m) ∧
      (A' = N ∨ A' % rlcAmMod = status.ackSn ∨ Nacks status A') := by
  induction fuel generalizing tx A with
  | zero =>
    refine ⟨A, le_rfl, h, fun m hm hm' => absurd hm' (Nat.not_lt.mpr hm), Or.inl ?_⟩
    have hle := h.le
    omega
  | succ fuel ih =>
    have hstay : ∀ m, A ≤ m → m < A → m % rlcAmMod ≠ status.ackSn ∧ ¬ Nacks status m :=
      fun m hm hm' => absurd hm' (Nat.not_lt.mpr hm)
    have hzero : tx.txModBase tx.vtA = 0 := by
      rw [h.vtA, txModBase_mod h.vtA le_rfl (by simp [rlcAmMod])]
      exact Nat.sub_self A
    have hle := h.le
    have hcond : (tx.txModBase tx.vtA < tx.txModBase status.ackSn ∧
        tx.txModBase tx.vtA < tx.txModBase tx.vtS) ↔ A % rlcAmMod ≠ status.ackSn ∧ A ≠ N := by
      have hackPos := txModBase_pos_iff h.vtA status.ackSn
      have hlast := txModBase_mod h.vtA h.le (m := N) (by
        have hnear := h.near
        simp only [rlcAmMod, rlcAmWindowSize] at hnear ⊢
        omega)
      rw [Nat.mod_eq_of_lt hack] at hackPos
      rw [hzero, hackPos, h.vtS, hlast]
      exact and_congr ⟨Ne.symm, Ne.symm⟩ (by omega)
    rw [RlcAmTx.controlLoop]
    dsimp only
    by_cases hgo : A % rlcAmMod ≠ status.ackSn ∧ A ≠ N
    · rw [if_pos (hcond.mpr hgo)]
      by_cases hnack : Nacks status A
      · have hnacks := (nacks_iff status A).mp hnack
        rw [← h.vtA] at hnacks
        rw [if_neg hnacks]
        refine ⟨A, le_rfl, Covers.controlLoop_false ?_ _ _ _, hstay, Or.inr (Or.inr hnack)⟩
        exact List.foldlRecOn (motive := fun tx => Covers tx A N) _ _ h
          fun tx htx nack _ => htx.handleNack nack
      · have hnil : (status.nacks.filter fun n => n.nackSn = tx.vtA) = [] := by
          rw [h.vtA]
          exact not_not.mp fun hne => hnack ((nacks_iff status A).mpr hne)
        rw [if_pos hnil]
        have hlt : A < N := Nat.lt_of_le_of_ne hle hgo.2
        obtain ⟨pdu, hpdu⟩ := Option.isSome_iff_exists.mp
          ((h.keys tx.vtA).mpr ⟨A, le_rfl, hlt, h.vtA.symm⟩)
        have hhandle : tx.handleAck tx.vtA true =
            { tx with
              txWindow := tx.txWindow.erase tx.vtA
              vtA := (tx.vtA + 1) % rlcAmMod
              vtMs := (tx.vtMs + 1) % rlcAmMod } := by
          rw [handleAck, hpdu]
          rfl
        have herased : Covers (tx.handleAck tx.vtA true) (A + 1) N := by
          rw [hhandle]
          exact h.erase hlt rfl rfl rfl (by rw [h.vtA])
        have hvtA : (tx.handleAck tx.vtA true).vtA = (tx.vtA + 1) % rlcAmMod := by rw [hhandle]
        rw [← hvtA]
        obtain ⟨A', hA', hcovers, hbefore, hend⟩ := ih herased (by omega)
        refine ⟨A', Nat.le_of_succ_le hA', hcovers, fun m hm hm' => ?_, hend⟩
        rcases Nat.eq_or_lt_of_le hm with rfl | hlt'
        · exact ⟨hgo.1, hnack⟩
        · exact hbefore m hlt' hm'
    · rw [if_neg fun hc => hgo (hcond.mp hc)]
      refine ⟨A, le_rfl, h, hstay, ?_⟩
      by_cases heq : A % rlcAmMod = status.ackSn
      · exact Or.inr (Or.inl heq)
      · exact Or.inl (not_not.mp fun hne => hgo ⟨heq, hne⟩)

theorem Covers.handleControlPdu (h : Covers tx A N) (status : RlcStatusPdu)
    (hack : status.ackSn < rlcAmMod) :
    ∃ A', A ≤ A' ∧ Covers (tx.handleControlPdu status) A' N ∧
      (∀ m, A ≤ m → m < A' → m % rlcAmMod ≠ status.ackSn ∧ ¬ Nacks status m) ∧
      (A' = N ∨ A' % rlcAmMod = status.ackSn ∨ Nacks status A') := by
  have hfuel : N - A ≤ rlcAmMod := by
    have hnear := h.near
    simp only [rlcAmMod, rlcAmWindowSize] at hnear ⊢
    omega
  rw [RlcAmTx.handleControlPdu]
  dsimp only
  split_ifs
  · exact (h.retxQueue tx.pollRetxTimer.stop []).controlLoop status hack hfuel
  · exact (h.retxQueue tx.pollRetxTimer.stop tx.retxQueue).controlLoop status hack hfuel

theorem Covers.scheduleRetx (h : Covers tx A N) (rand : ℕ) : Covers (tx.scheduleRetx rand) A N := by
  obtain ⟨q, hq⟩ := tx.scheduleRetx_eq rand
  rw [hq]
  exact h.congr rfl rfl rfl (fun _ => rfl) rfl

theorem Covers.retransmit (h : Covers tx A N) (nofBytes : ℕ) :
    Covers (tx.retransmit nofBytes).1 A N := by
  have hframe : (tx.retransmit nofBytes).1.vtA = tx.vtA ∧ (tx.retransmit nofBytes).1.vtS = tx.vtS ∧
      (tx.retransmit nofBytes).1.vtMs = tx.vtMs := by
    obtain ⟨p, b, k, t, q, w, m, heq⟩ := tx.retransmit_fst nofBytes
    rw [heq]
    exact ⟨rfl, rfl, rfl⟩
  obtain ⟨hA, hS, hMs⟩ := hframe
  have hsame : (tx.retransmit nofBytes).1.txWindow = tx.txWindow →
      Covers (tx.retransmit nofBytes).1 A N := fun hw =>
    h.congr hA hS hMs (fun sn => by rw [hw]) (by rw [windowSize, windowSize, hw])
  rcases tx.retransmit_cases nofBytes with ⟨-, hw, -⟩ | ⟨retx, rest, pdu, -, hpdu, -, hcase⟩
  · exact hsame hw
  · rcases hcase with ⟨-, -, hw, -⟩ | ⟨-, hw, -⟩
    · exact hsame hw
    · refine h.congr hA hS hMs (fun sn => ?_) ?_
      · rw [hw, OrderedMap.find?_insert]
        split_ifs with heq
        · rw [heq, hpdu]
          rfl
        · rfl
      · rw [windowSize, windowSize, hw, OrderedMap.length_insert, hpdu]
        rfl

def Withheld (nofBytes : ℕ) (retx : RlcAmdRetx) (pdu : RlcAmdTxPdu) : Prop :=
  (requiredBufferSize pdu retx).1 < 0 ∨ ¬ Resends nofBytes pdu retx ∧ nofBytes ≤ headLen pdu

instance (nofBytes : ℕ) (retx : RlcAmdRetx) (pdu : RlcAmdTxPdu) :
    Decidable (Withheld nofBytes retx pdu) := inferInstanceAs (Decidable (_ ∨ _))

theorem requiredBufferSize_nonneg_of_whole {pdu : RlcAmdTxPdu} {retx : RlcAmdRetx}
    (h : retx.isSegment = false) : 0 ≤ (requiredBufferSize pdu retx).1 := by
  rw [requiredBufferSize, if_pos (by simp [h])]
  exact Int.natCast_nonneg _

theorem pdu_retransmit_eq_nil_iff (tx : RlcAmTx) (nofBytes : ℕ) :
    (tx.retransmit nofBytes).2.pdu = [] ↔ ∀ f ∈ tx.front, Withheld nofBytes f.1 f.2 := by
  rw [retransmit_eq]
  rcases tx.retxQueue_dropStale with hnil | ⟨retx, rest, pdu, hqueue, hpdu⟩
  · have hfront : tx.front = none := by rw [front, hnil, List.head?_nil, Option.bind_none]
    have hnone : (tx.buildRetxPdu nofBytes).2.pdu = [] := by
      rw [buildRetxPdu]
      dsimp only
      rw [hnil]
      rfl
    rw [hfront]
    exact iff_of_true hnone fun f hf => absurd hf (Option.not_mem_none f)
  · rw [front_eq tx hqueue hpdu]
    have hfront : (∀ f ∈ some (retx, pdu), Withheld nofBytes f.1 f.2) ↔
        Withheld nofBytes retx pdu :=
      ⟨fun hf => hf _ rfl, fun hf f hmem => Option.some.inj hmem ▸ hf⟩
    rw [hfront, Withheld]
    rcases tx.buildRetxPdu_cases nofBytes hqueue hpdu with
      ⟨hneg, heq⟩ | ⟨hresends, heq⟩ | ⟨⟨hnonneg, hnot⟩, heq⟩
    · rw [heq]
      exact iff_of_true rfl (Or.inl hneg)
    · rw [heq]
      refine iff_of_false (tx.dropStale.pdu_resendPdu_ne_nil pdu retx) ?_
      rintro (hneg | ⟨hnot, -⟩)
      · exact absurd hneg (not_lt.mpr (requiredBufferSize_nonneg_of_whole hresends.1))
      · exact hnot hresends
    · rw [heq]
      dsimp only
      rw [pdu_buildSegment_eq_nil_iff]
      constructor
      · intro hsmall
        exact Or.inr ⟨hnot, hsmall⟩
      · rintro (hneg | ⟨-, hsmall⟩)
        · exact absurd hneg (not_lt.mpr hnonneg)
        · exact hsmall

def Pending (sdu : Option Bytes) : Prop := sdu ≠ some []

theorem pending_remainder (sdu : Bytes) (toMove : ℕ) : Pending (RlcUmTx.remainder sdu toMove) :=
  fun h => (RlcUmTx.remainder_eq_some h).2 rfl

theorem pending_pullSdus {b : Building} (h : Pending b.txSdu) (queue : List Bytes) :
    Pending (pullSdus b queue).1.txSdu := by
  induction queue generalizing b with
  | nil => exact h
  | cons sdu queue ih =>
    rw [pullSdus]
    split_ifs
    · dsimp only
      split_ifs
      · exact h
      · exact ih (pending_remainder sdu _)
    · exact h

theorem pending_built (tx : RlcAmTx) (nofBytes : ℕ) : Pending (tx.built nofBytes).1.txSdu := by
  refine pending_pullSdus ?_ tx.txSduQueue
  rw [startPdu]
  cases tx.txSdu with
  | none => exact fun h => Option.some_ne_none [] h.symm
  | some sdu => exact pending_remainder sdu _

theorem pending_buildDataPdu (h : Pending tx.txSdu) (nofBytes : ℕ) :
    Pending (tx.buildDataPdu nofBytes).1.txSdu := by
  rcases tx.buildDataPdu_cases nofBytes with heq | heq | ⟨-, -, heq⟩
  · rw [heq]
    exact h
  · rw [heq]
    exact tx.pending_built nofBytes
  · rw [heq, placePdu]
    obtain ⟨p, b, k, t, hfst⟩ := (tx.pulled nofBytes).setPollBit_fst
      ((tx.built nofBytes).1.data.length + (tx.built nofBytes).1.headLen)
    dsimp only
    rw [hfst]
    exact tx.pending_built nofBytes

theorem Covers.buildDataPdu (h : Covers tx A N) (nofBytes : ℕ) :
    ((tx.buildDataPdu nofBytes).2.pdu = [] → (tx.buildDataPdu nofBytes).1.vtS = tx.vtS ∧
        Covers (tx.buildDataPdu nofBytes).1 A N) ∧
      ((tx.buildDataPdu nofBytes).2.pdu ≠ [] →
        (tx.buildDataPdu nofBytes).1.vtS = (tx.vtS + 1) % rlcAmMod ∧
        (N < A + rlcAmWindowSize → Covers (tx.buildDataPdu nofBytes).1 A (N + 1))) := by
  rcases tx.buildDataPdu_cases nofBytes with heq | heq | ⟨-, -, heq⟩
  · rw [heq]
    exact ⟨fun _ => ⟨rfl, h⟩, fun hne => absurd rfl hne⟩
  · rw [heq]
    exact ⟨fun _ => ⟨rfl, h.congr rfl rfl rfl (fun _ => rfl) rfl⟩, fun hne => absurd rfl hne⟩
  · rw [heq, placePdu]
    obtain ⟨p, b, k, t, hfst⟩ := (tx.pulled nofBytes).setPollBit_fst
      ((tx.built nofBytes).1.data.length + (tx.built nofBytes).1.headLen)
    dsimp only
    rw [hfst]
    refine ⟨fun hnil => ?_, fun _ => ⟨rfl, fun hlt => h.insert hlt rfl rfl rfl rfl⟩⟩
    simp [AmdPduHeader.write] at hnil

theorem length_data_le_pullSdus (b : Building) (queue : List Bytes) :
    b.data.length ≤ (pullSdus b queue).1.data.length := by
  induction queue generalizing b with
  | nil => exact le_rfl
  | cons sdu queue ih =>
    rw [pullSdus]
    split_ifs
    · dsimp only
      split_ifs
      · exact le_rfl
      · refine le_trans ?_ (ih _)
        dsimp only
        rw [List.length_append]
        exact Nat.le_add_right _ _
    · exact le_rfl

theorem pdu_buildDataPdu_of_full (hfull : rlcAmWindowSize ≤ tx.windowSize)
    (hsdu : Pending tx.txSdu) (nofBytes : ℕ) :
    (tx.buildDataPdu nofBytes).2.pdu ≠ [] ↔
      tx.txSdu ≠ none ∧ AmdPduHeader.packedLength false 0 + 1 < min nofBytes bufferTailroom := by
  constructor
  · intro hne
    have hcan : tx.canBuild nofBytes = true := by
      by_contra hcan
      rw [buildDataPdu, if_pos hcan] at hne
      exact hne rfl
    rw [canBuild, decide_eq_true_iff] at hcan
    exact ⟨fun hnone => hcan.2.1 ⟨hnone, hfull⟩, hcan.2.2⟩
  · rintro ⟨hsome, hroom⟩
    have hcan : tx.canBuild nofBytes = true := by
      rw [canBuild, decide_eq_true_iff]
      exact ⟨fun hnone => hsome hnone.1, fun hnone => hsome hnone.1, hroom⟩
    have hdata : 0 < (tx.built nofBytes).1.data.length := by
      refine lt_of_lt_of_le ?_ (length_data_le_pullSdus _ _)
      rw [(tx.filling_startPdu hroom).2.1, segmentLength]
      obtain ⟨sdu, hsome⟩ := Option.ne_none_iff_exists'.mp hsome
      rw [hsome]
      have hlength : 0 < sdu.length := by
        rw [List.length_pos_iff]
        exact fun hnil => hsdu (by rw [hsome, hnil])
      exact lt_min (Nat.sub_pos_of_lt (Nat.lt_of_succ_lt hroom)) hlength
    have heq : tx.buildDataPdu nofBytes = (tx.pulled nofBytes).placePdu
        (tx.framingInfo (tx.built nofBytes).1) (tx.built nofBytes).1 := by
      rw [buildDataPdu, if_neg (by simpa using hcan)]
      exact if_neg hdata.ne'
    rw [heq, placePdu]
    simp [AmdPduHeader.write]

/-- The transmitter with the number of PDUs that it has built and the numbers of those that no
status PDU has acknowledged. -/
structure Ledger where
  tx : RlcAmTx
  sent : ℕ
  unacked : Finset ℕ

/-- The status PDU with `ACK_SN` for number `ack` acknowledges number `m`. -/
def Acknowledges (ack : ℕ) (nacks : List RlcStatusNack) (m : ℕ) : Prop :=
  m < ack ∧ ∀ n ∈ nacks, n.nackSn ≠ m % rlcAmMod

instance (ack : ℕ) (nacks : List RlcStatusNack) (m : ℕ) : Decidable (Acknowledges ack nacks m) :=
  inferInstanceAs (Decidable (_ ∧ _))

def statusPdu (ack : ℕ) (nacks : List RlcStatusNack) : RlcStatusPdu where
  ackSn := ack % rlcAmMod
  nacks := nacks

/-- The grant does not take a retransmission, there is a rest of an SDU, and the window is full. -/
structure Overfills (tx : RlcAmTx) (rx : RlcAmRx) (rand nofBytes : ℕ) : Prop where
  sendsData : tx.SendsData rx
  full : rlcAmWindowSize ≤ tx.windowSize
  rest : tx.txSdu ≠ none
  room : AmdPduHeader.packedLength false 0 + 1 < min nofBytes bufferTailroom
  withheld : ∀ f ∈ (tx.scheduleRetx rand).front, Withheld nofBytes f.1 f.2

theorem Covers.readPdu (h : Covers tx A N) (hsdu : Pending tx.txSdu) (rx : RlcAmRx)
    (rand nofBytes : ℕ) :
    Pending (tx.readPdu rx rand nofBytes).1.txSdu ∧
      ((tx.readPdu rx rand nofBytes).1.vtS = tx.vtS ∧ Covers (tx.readPdu rx rand nofBytes).1 A N ∧
          ¬ Overfills tx rx rand nofBytes ∨
        (tx.readPdu rx rand nofBytes).1.vtS ≠ tx.vtS ∧
          (N < A + rlcAmWindowSize → Covers (tx.readPdu rx rand nofBytes).1 A (N + 1)) ∧
          (rlcAmWindowSize ≤ tx.windowSize → Overfills tx rx rand nofBytes)) := by
  by_cases hdata : tx.SendsData rx
  · have hscheduled : (tx.scheduleRetx rand).vtS = tx.vtS ∧
        (tx.scheduleRetx rand).txSdu = tx.txSdu := by
      obtain ⟨q, hq⟩ := tx.scheduleRetx_eq rand
      rw [hq]
      exact ⟨rfl, rfl⟩
    obtain ⟨hvtS, -, -, hrest, -⟩ := (tx.scheduleRetx rand).frame_retransmit nofBytes
    rw [hscheduled.1] at hvtS
    rw [hscheduled.2] at hrest
    have hretx := (h.scheduleRetx rand).retransmit nofBytes
    have hwithheld := pdu_retransmit_eq_nil_iff (tx.scheduleRetx rand) nofBytes
    rcases tx.readPdu_of_sendsData rand nofBytes hdata with ⟨hsent, heq⟩ | ⟨hnil, heq⟩
    · rw [heq]
      refine ⟨by rw [hrest]; exact hsdu, Or.inl ⟨hvtS, hretx, fun hover => ?_⟩⟩
      exact hsent (hwithheld.mpr hover.withheld)
    · rw [heq]
      dsimp only
      generalize ((tx.scheduleRetx rand).retransmit nofBytes).1 = tx' at hvtS hrest hretx
      have hsize : tx'.windowSize = tx.windowSize := hretx.size.trans h.size.symm
      have hpending : Pending tx'.txSdu := by
        rw [hrest]
        exact hsdu
      have hfull : rlcAmWindowSize ≤ tx.windowSize → ((tx'.buildDataPdu nofBytes).2.pdu ≠ [] ↔
          tx.txSdu ≠ none ∧
            AmdPduHeader.packedLength false 0 + 1 < min nofBytes bufferTailroom) := by
        intro hle
        rw [← hsize] at hle
        rw [← hrest]
        exact pdu_buildDataPdu_of_full hle hpending nofBytes
      obtain ⟨hsame, hnew⟩ := hretx.buildDataPdu nofBytes
      refine ⟨pending_buildDataPdu hpending nofBytes, ?_⟩
      by_cases hpdu : (tx'.buildDataPdu nofBytes).2.pdu = []
      · refine Or.inl ⟨(hsame hpdu).1.trans hvtS, (hsame hpdu).2, fun hover => ?_⟩
        exact (hfull hover.full).mpr ⟨hover.rest, hover.room⟩ hpdu
      · refine Or.inr ⟨?_, (hnew hpdu).2, fun hle => ?_⟩
        · rw [(hnew hpdu).1, hvtS, h.vtS]
          simp only [rlcAmMod]
          omega
        · obtain ⟨hrest, hroom⟩ := (hfull hle).mp hpdu
          exact ⟨hdata, hle, hrest, hroom, hwithheld.mp hnil⟩
  · obtain ⟨t, heq, -⟩ := tx.readPdu_of_not_sendsData rand nofBytes hdata
    rw [heq]
    exact ⟨hsdu, Or.inl ⟨rfl, h.congr rfl rfl rfl (fun _ => rfl) rfl,
      fun hover => hdata hover.sendsData⟩⟩

namespace Ledger

inductive Input
  | writeSdu (sdu : Bytes)
  | readPdu (rx : RlcAmRx) (rand nofBytes : ℕ)
  | status (ack : ℕ) (nacks : List RlcStatusNack)
  | getBufferState (rx : RlcAmRx)
  | pollRetxTimerExpired (rand : ℕ)
  | statusProhibitTimerExpired

def start (cfg : RlcAmConfig) : Ledger := ⟨configure cfg, 0, ∅⟩

/-- A new PDU has been built when `vt_s` has moved. -/
def readPdu (s : Ledger) (rx : RlcAmRx) (rand nofBytes : ℕ) : Ledger :=
  let tx := (s.tx.readPdu rx rand nofBytes).1
  if tx.vtS = s.tx.vtS then { s with tx := tx }
  else { tx := tx, sent := s.sent + 1, unacked := insert s.sent s.unacked }

def step (s : Ledger) : Input → Ledger
  | .writeSdu sdu => { s with tx := s.tx.writeSdu sdu }
  | .readPdu rx rand nofBytes => s.readPdu rx rand nofBytes
  | .status ack nacks =>
    { s with
      tx := s.tx.handleControlPdu (statusPdu ack nacks)
      unacked := s.unacked.filter fun m => ¬ Acknowledges ack nacks m }
  | .getBufferState rx => { s with tx := (s.tx.getBufferState rx).1 }
  | .pollRetxTimerExpired rand => { s with tx := s.tx.pollRetxTimerExpired rand }
  | .statusProhibitTimerExpired => { s with tx := { s.tx with statusProhibitTimer := .expired } }

def OnlySent (s : Ledger) : Input → Prop
  | .status ack _ => ack ≤ s.sent
  | _ => True

/-- The window has the unacknowledged PDUs, which are at most 512, between its edges. -/
structure Consistent (s : Ledger) : Prop where
  keys : ∀ sn, (s.tx.txWindow.find? sn).isSome = true ↔ ∃ m ∈ s.unacked, m % rlcAmMod = sn
  inWindow : ∀ sn, (s.tx.txWindow.find? sn).isSome = true →
    s.tx.txModBase sn < s.tx.txModBase s.tx.vtS
  vtMs : s.tx.vtMs = (s.tx.vtA + rlcAmWindowSize) % rlcAmMod
  size : s.tx.windowSize ≤ rlcAmWindowSize

/-- The SN of a new PDU is between `vt_a` and `vt_ms`. -/
def NewInWindow (s s' : Ledger) : Prop :=
  s'.tx.vtS ≠ s.tx.vtS → s.tx.txModBase s.tx.vtS < s.tx.txModBase s.tx.vtMs

/-- The condition on an input. The PDUs that a status PDU acknowledges are the oldest ones, and it
is not older than the window. -/
def Regular (s : Ledger) : Input → Prop
  | .readPdu rx rand nofBytes => ¬ Overfills s.tx rx rand nofBytes
  | .status ack nacks =>
    (∀ m ∈ s.unacked, Acknowledges ack nacks m →
        ∀ k ∈ s.unacked, k ≤ m → Acknowledges ack nacks k) ∧
      ∀ m ∈ s.unacked, (∀ k ∈ s.unacked, m ≤ k) → ack ≤ m →
        m % rlcAmMod = ack % rlcAmMod ∨ Nacks (statusPdu ack nacks) m
  | _ => True

structure Inv (s : Ledger) : Prop where
  covers : ∃ A, Covers s.tx A s.sent ∧ s.unacked = Finset.Ico A s.sent
  pending : Pending s.tx.txSdu

variable {s : Ledger}

theorem inv_start (cfg : RlcAmConfig) : (start cfg).Inv where
  covers := by
    refine ⟨0, ⟨rfl, rfl, rfl, le_rfl, Nat.zero_le _, fun sn => ?_, rfl⟩, rfl⟩
    refine iff_of_false Bool.false_ne_true ?_
    rintro ⟨m, -, hlt, -⟩
    exact Nat.not_lt_zero m hlt
  pending h := Option.some_ne_none [] h.symm

theorem Inv.consistent (h : s.Inv) : s.Consistent := by
  obtain ⟨A, hcovers, hunacked⟩ := h.covers
  have hle := hcovers.le
  have hnear := hcovers.near
  have hfits : s.sent < A + rlcAmMod := by
    simp only [rlcAmMod, rlcAmWindowSize] at hnear ⊢
    omega
  constructor
  · intro sn
    rw [hcovers.keys, hunacked]
    constructor
    · rintro ⟨m, hm, hm', hmod⟩
      exact ⟨m, Finset.mem_Ico.mpr ⟨hm, hm'⟩, hmod⟩
    · rintro ⟨m, hm, hmod⟩
      obtain ⟨hm, hm'⟩ := Finset.mem_Ico.mp hm
      exact ⟨m, hm, hm', hmod⟩
  · intro sn hsn
    obtain ⟨m, hm, hm', rfl⟩ := (hcovers.keys sn).mp hsn
    rw [hcovers.vtS, txModBase_mod hcovers.vtA hm (hm'.trans hfits),
      txModBase_mod hcovers.vtA hle hfits]
    omega
  · rw [hcovers.vtMs, hcovers.vtA, Nat.mod_add_mod]
  · rw [hcovers.size]
    omega

theorem Inv.congr (h : s.Inv) {s' : Ledger} (hsent : s'.sent = s.sent)
    (hunacked : s'.unacked = s.unacked) (hA : s'.tx.vtA = s.tx.vtA) (hS : s'.tx.vtS = s.tx.vtS)
    (hMs : s'.tx.vtMs = s.tx.vtMs) (hwindow : s'.tx.txWindow = s.tx.txWindow)
    (hsdu : s'.tx.txSdu = s.tx.txSdu) : s'.Inv where
  covers := by
    obtain ⟨A, hcovers, heq⟩ := h.covers
    refine ⟨A, ?_, by rw [hunacked, hsent, heq]⟩
    rw [hsent]
    exact hcovers.congr hA hS hMs (fun sn => by rw [hwindow])
      (by rw [windowSize, windowSize, hwindow])
  pending := by
    rw [hsdu]
    exact h.pending

theorem readPdu_spec (h : s.Inv) (rx : RlcAmRx) (rand nofBytes : ℕ) :
    ((s.readPdu rx rand nofBytes).Consistent ∧ NewInWindow s (s.readPdu rx rand nofBytes) ↔
        ¬ Overfills s.tx rx rand nofBytes) ∧
      (NewInWindow s (s.readPdu rx rand nofBytes) → (s.readPdu rx rand nofBytes).Inv) := by
  obtain ⟨A, hcovers, hunacked⟩ := h.covers
  obtain ⟨hpending, hcase⟩ := hcovers.readPdu h.pending rx rand nofBytes
  rw [readPdu]
  rcases hcase with ⟨hvtS, hcovers', hover⟩ | ⟨hvtS, hnew, hfull⟩
  · rw [if_pos hvtS]
    have hinv : Inv { s with tx := (s.tx.readPdu rx rand nofBytes).1 } :=
      ⟨⟨A, hcovers', hunacked⟩, hpending⟩
    exact ⟨iff_of_true ⟨hinv.consistent, fun hne => absurd hvtS hne⟩ hover, fun _ => hinv⟩
  · rw [if_neg hvtS]
    have hle := hcovers.le
    have hnear := hcovers.near
    have hposition : s.tx.txModBase s.tx.vtS = s.sent - A := by
      rw [hcovers.vtS]
      refine txModBase_mod hcovers.vtA hle ?_
      simp only [rlcAmMod, rlcAmWindowSize] at hnear ⊢
      omega
    have hedge : s.tx.txModBase s.tx.vtMs = rlcAmWindowSize := by
      rw [hcovers.vtMs, txModBase_mod hcovers.vtA (Nat.le_add_right _ _)
        (Nat.add_lt_add_left (by simp [rlcAmMod, rlcAmWindowSize]) A)]
      exact Nat.add_sub_cancel_left _ _
    have hlt : ∀ tx' : RlcAmTx, tx'.vtS ≠ s.tx.vtS →
        (NewInWindow s ⟨tx', s.sent + 1, insert s.sent s.unacked⟩ ↔
          s.sent < A + rlcAmWindowSize) := by
      intro tx' hne
      rw [NewInWindow, hposition, hedge]
      exact ⟨fun himp => by have hlt := himp hne; omega, fun hlt _ => by omega⟩
    have hinv : s.sent < A + rlcAmWindowSize → Inv ⟨(s.tx.readPdu rx rand nofBytes).1, s.sent + 1,
        insert s.sent s.unacked⟩ := by
      refine fun hlt => ⟨⟨A, hnew hlt, ?_⟩, hpending⟩
      rw [hunacked]
      exact (Nat.Ico_succ_right_eq_insert_Ico hle).symm
    refine ⟨?_, fun hin => hinv ((hlt _ hvtS).mp hin)⟩
    rw [hlt _ hvtS]
    constructor
    · rintro ⟨-, hroom⟩ hover
      have hfull := hover.full
      rw [hcovers.size] at hfull
      omega
    · intro hover
      have hroom : s.sent < A + rlcAmWindowSize := by
        by_contra hroom
        refine hover (hfull ?_)
        rw [hcovers.size]
        omega
      exact ⟨(hinv hroom).consistent, hroom⟩

theorem txSdu_handleControlPdu (tx : RlcAmTx) (status : RlcStatusPdu) :
    (tx.handleControlPdu status).txSdu = tx.txSdu := by
  refine handleControlPdu_induction (P := fun tx' => tx'.txSdu = tx.txSdu) tx
    (fun tx' sn u h => ?_) (fun tx' nack _ h => ?_) (fun t q _ => rfl)
  · rcases tx'.handleAck_eq sn u with heq | ⟨-, -, heq⟩
    · rw [heq]
      exact h
    · rw [heq]
      exact h
  · rcases tx'.handleNack_eq nack with heq | ⟨pdu, -, -, heq⟩
    · rw [heq]
      exact h
    · rw [heq]
      exact h

theorem acknowledges_iff {ack m : ℕ} {nacks : List RlcStatusNack} :
    Acknowledges ack nacks m ↔ m < ack ∧ ¬ Nacks (statusPdu ack nacks) m := by
  rw [Acknowledges, Nacks, statusPdu]
  simp only [not_exists, not_and, ne_eq]

/-- What a status PDU leaves unacknowledged is a window from `A'` on if and only if the condition
holds. -/
theorem regular_iff {A A' ack : ℕ} {nacks : List RlcStatusNack} (hsent : ack ≤ s.sent)
    (hunacked : s.unacked = Finset.Ico A s.sent) (hnear : s.sent ≤ A + rlcAmWindowSize)
    (hA' : A ≤ A') (hle' : A' ≤ s.sent)
    (hbefore : ∀ m, A ≤ m → m < A' →
      m % rlcAmMod ≠ ack % rlcAmMod ∧ ¬ Nacks (statusPdu ack nacks) m)
    (hend : A' = s.sent ∨ A' % rlcAmMod = ack % rlcAmMod ∨ Nacks (statusPdu ack nacks) A') :
    s.Regular (.status ack nacks) ↔
      ∀ m, A ≤ m → m < s.sent → (¬ Acknowledges ack nacks m ↔ A' ≤ m) := by
  rw [Regular, hunacked]
  simp only [Finset.mem_Ico, and_imp]
  constructor
  · rintro ⟨holdest, hstale⟩ m hm hm'
    rcases Nat.lt_or_ge A ack with hack | hack
    · constructor
      · intro hnot
        by_contra hlt
        have hbound : A' ≤ ack := by
          by_contra hgt
          exact (hbefore ack hack.le (not_le.mp hgt)).1 rfl
        exact hnot (acknowledges_iff.mpr
          ⟨(not_le.mp hlt).trans_le hbound, (hbefore m hm (not_le.mp hlt)).2⟩)
      · intro hge hacks
        have hedge := acknowledges_iff.mp (holdest m hm hm' hacks A' hA' (hge.trans_lt hm') hge)
        rcases hend with hend | hend | hend
        · omega
        · have heq := eq_of_mod_eq hA' (hle'.trans hnear) hack.le (hsent.trans hnear) hend
          omega
        · exact hedge.2 hend
    · have heq : A' = A := by
        by_contra hne
        have hlt : A < A' := Nat.lt_of_le_of_ne hA' (Ne.symm hne)
        obtain ⟨hmod, hnack⟩ := hbefore A le_rfl hlt
        rcases hstale A le_rfl (hlt.trans_le hle') (fun k hk _ => hk) hack with hc | hc
        · exact hmod hc
        · exact hnack hc
      rw [heq]
      refine iff_of_true (fun hacks => ?_) hm
      have hlt := hacks.1
      omega
  · intro hset
    refine ⟨fun m hm hm' hacks k hk hk' hkm => ?_, fun m hm hm' hleast hack => ?_⟩
    · by_contra hnot
      exact (hset m hm hm').mpr (((hset k hk hk').mp hnot).trans hkm) hacks
    · obtain rfl : m = A := Nat.le_antisymm (hleast A le_rfl (hm.trans_lt hm')) hm
      have hle := (hset m le_rfl hm').mp fun hacks => Nat.not_lt.mpr hack hacks.1
      obtain rfl : A' = m := Nat.le_antisymm hle hA'
      rcases hend with hend | hend
      · omega
      · exact hend

theorem status_spec (h : s.Inv) {ack : ℕ} (nacks : List RlcStatusNack) (hsent : ack ≤ s.sent) :
    ((s.step (.status ack nacks)).Consistent ↔ s.Regular (.status ack nacks)) ∧
      (s.Regular (.status ack nacks) → (s.step (.status ack nacks)).Inv) := by
  obtain ⟨A, hcovers, hunacked⟩ := h.covers
  have hnear := hcovers.near
  obtain ⟨A', hA', hcovers', hbefore, hend⟩ :=
    hcovers.handleControlPdu (statusPdu ack nacks) (Nat.mod_lt _ (by simp [rlcAmMod]))
  have hregular := regular_iff hsent hunacked hnear hA' hcovers'.le hbefore hend
  have hmem : ∀ m, m ∈ (s.step (.status ack nacks)).unacked ↔
      (A ≤ m ∧ m < s.sent) ∧ ¬ Acknowledges ack nacks m := by
    intro m
    rw [step, hunacked, Finset.mem_filter, Finset.mem_Ico]
  have hinv : s.Regular (.status ack nacks) → (s.step (.status ack nacks)).Inv := by
    intro hreg
    refine ⟨⟨A', hcovers', Finset.ext fun m => ?_⟩, ?_⟩
    · rw [hmem, Finset.mem_Ico]
      constructor
      · rintro ⟨⟨hm, hm'⟩, hnot⟩
        exact ⟨(hregular.mp hreg m hm hm').mp hnot, hm'⟩
      · rintro ⟨hm, hm'⟩
        exact ⟨⟨hA'.trans hm, hm'⟩, (hregular.mp hreg m (hA'.trans hm) hm').mpr hm⟩
    · change Pending (s.tx.handleControlPdu (statusPdu ack nacks)).txSdu
      rw [txSdu_handleControlPdu]
      exact h.pending
  refine ⟨⟨fun hc => hregular.mpr fun m hm hm' => ?_, fun hreg => (hinv hreg).consistent⟩, hinv⟩
  -- A number is in the window if and only if its SN is a key of it.
  have hkeys := (hc.keys (m % rlcAmMod)).symm.trans (hcovers'.keys (m % rlcAmMod))
  constructor
  · intro hnot
    obtain ⟨k, hk, hk', hmod⟩ := hkeys.mp ⟨m, (hmem m).mpr ⟨⟨hm, hm'⟩, hnot⟩, rfl⟩
    rw [← eq_of_mod_eq (hA'.trans hk) (hk'.le.trans hnear) hm (hm'.le.trans hnear) hmod]
    exact hk
  · intro hge
    obtain ⟨k, hk, hmod⟩ := hkeys.mpr ⟨m, hge, hm', rfl⟩
    obtain ⟨⟨hk, hk'⟩, hnot⟩ := (hmem k).mp hk
    rw [← eq_of_mod_eq hk (hk'.le.trans hnear) hm (hm'.le.trans hnear) hmod]
    exact hnot

theorem Inv.quiet (h : s.Inv) {e : Input}
    (hread : ∀ rx rand nofBytes, e ≠ .readPdu rx rand nofBytes)
    (hstatus : ∀ ack nacks, e ≠ .status ack nacks) :
    (s.step e).Inv ∧ (s.step e).tx.vtS = s.tx.vtS := by
  cases e with
  | writeSdu sdu =>
    rw [step, writeSdu]
    split_ifs
    · exact ⟨h.congr rfl rfl rfl rfl rfl rfl rfl, rfl⟩
    · exact ⟨h, rfl⟩
  | readPdu rx rand nofBytes => exact absurd rfl (hread rx rand nofBytes)
  | status ack nacks => exact absurd rfl (hstatus ack nacks)
  | getBufferState rx =>
    change Inv { s with tx := s.tx.neededForRetx.1 } ∧ s.tx.neededForRetx.1.vtS = s.tx.vtS
    obtain ⟨queue, -, heq⟩ := s.tx.neededForRetx_fst
    rw [heq]
    exact ⟨h.congr rfl rfl rfl rfl rfl rfl rfl, rfl⟩
  | pollRetxTimerExpired rand =>
    obtain ⟨queue, heq⟩ := s.tx.pollRetxTimerExpired_eq rand
    rw [step, heq]
    exact ⟨h.congr rfl rfl rfl rfl rfl rfl rfl, rfl⟩
  | statusProhibitTimerExpired => exact ⟨h.congr rfl rfl rfl rfl rfl rfl rfl, rfl⟩

def Sound (s : Ledger) (e : Input) : Prop := (s.step e).Consistent ∧ NewInWindow s (s.step e)

theorem step_spec (h : s.Inv) (e : Input) (hsent : s.OnlySent e) :
    (s.Sound e ↔ s.Regular e) ∧ (s.Sound e → (s.step e).Inv) := by
  by_cases hread : ∃ rx rand nofBytes, e = .readPdu rx rand nofBytes
  · obtain ⟨rx, rand, nofBytes, rfl⟩ := hread
    obtain ⟨hiff, hinv⟩ := readPdu_spec h rx rand nofBytes
    exact ⟨hiff, fun hsound => hinv hsound.2⟩
  · by_cases hstatus : ∃ ack nacks, e = .status ack nacks
    · obtain ⟨ack, nacks, rfl⟩ := hstatus
      obtain ⟨hiff, hinv⟩ := status_spec h nacks hsent
      have hvtS : (s.step (.status ack nacks)).tx.vtS = s.tx.vtS := by
        obtain ⟨A, hcovers, -⟩ := h.covers
        obtain ⟨A', -, hcovers', -⟩ :=
          hcovers.handleControlPdu (statusPdu ack nacks) (Nat.mod_lt _ (by simp [rlcAmMod]))
        exact hcovers'.vtS.trans hcovers.vtS.symm
      exact ⟨⟨fun hsound => hiff.mp hsound.1,
          fun hreg => ⟨hiff.mpr hreg, fun hne => absurd hvtS hne⟩⟩,
        fun hsound => hinv (hiff.mp hsound.1)⟩
    · obtain ⟨hinv, hvtS⟩ := h.quiet (fun rx rand nofBytes he => hread ⟨rx, rand, nofBytes, he⟩)
        fun ack nacks he => hstatus ⟨ack, nacks, he⟩
      have hregular : s.Regular e := by
        cases e with
        | readPdu rx rand nofBytes => exact absurd ⟨rx, rand, nofBytes, rfl⟩ hread
        | status ack nacks => exact absurd ⟨ack, nacks, rfl⟩ hstatus
        | _ => trivial
      exact ⟨iff_of_true ⟨hinv.consistent, fun hne => absurd hvtS hne⟩ hregular, fun _ => hinv⟩

/-- In a run whose status PDUs acknowledge sent PDUs only, the window is sound at every step if and
only if every input meets the condition. -/
theorem alongSound_iff_regular (cfg : RlcAmConfig) (inputs : List Input)
    (hsent : Along step OnlySent (start cfg) inputs) :
    Along step Sound (start cfg) inputs ↔ Along step Regular (start cfg) inputs := by
  have hiff : Along step (fun s e => s.OnlySent e ∧ s.Sound e) (start cfg) inputs ↔
      Along step (fun s e => s.OnlySent e ∧ s.Regular e) (start cfg) inputs :=
    along_congr (fun s e hs hboth => (step_spec hs e hboth.1).2 hboth.2)
      (fun s e hs => and_congr_right fun honly => (step_spec hs e honly).1) (inv_start cfg)
  rw [EventRun.along_and, EventRun.along_and] at hiff
  exact ⟨fun hsound => (hiff.mp ⟨hsent, hsound⟩).2, fun hreg => (hiff.mpr ⟨hsent, hreg⟩).2⟩

def noPolling : RlcAmConfig where
  pollPdu := -1
  pollByte := -1
  maxRetxThresh := 4
  tStatusProhibit := 0
  txQueueLength := 128

def acknowledged : List Input := [.writeSdu [1], .readPdu (RlcAmRx.init []) 0 10, .status 1 []]

/-- A PDU is sent, acknowledged, and the window is sound. -/
theorem alongSound_acknowledged :
    Along step OnlySent (start noPolling) acknowledged ∧
      (Along step Sound (start noPolling) acknowledged ↔
        Along step Regular (start noPolling) acknowledged) :=
  have hsent : Along step OnlySent (start noPolling) acknowledged :=
    ⟨trivial, trivial, by change 1 ≤ Ledger.sent _; decide, trivial⟩
  ⟨hsent, alongSound_iff_regular noPolling acknowledged hsent⟩

/-- Grants of five bytes have sent `k` PDUs of three bytes of one SDU. -/
structure Drained (tx : RlcAmTx) (k : ℕ) : Prop where
  enabled : tx.txEnabled = true
  retxQueue : tx.retxQueue = []
  txSduQueue : tx.txSduQueue = []
  txSdu : tx.txSdu = some (List.replicate (1600 - 3 * k) 0)
  covers : Covers tx 0 k
  pdus : ∀ {sn pdu}, tx.txWindow.find? sn = some pdu → pdu.header.li = [] ∧ pdu.header.rf = false ∧
    pdu.buf.length = 3

theorem Drained.sendsData {tx : RlcAmTx} {k : ℕ} (h : Drained tx k) :
    tx.SendsData (RlcAmRx.init []) := ⟨h.enabled, by simp [statusDue, RlcAmRx.init]⟩

theorem Drained.built {tx : RlcAmTx} {k : ℕ} (h : Drained tx k) (hk : k ≤ rlcAmWindowSize) :
    (tx.built 5).1.li = [] ∧ (tx.built 5).1.data = List.replicate 3 0 ∧
      (tx.built 5).1.txSdu = some (List.replicate (1600 - 3 * (k + 1)) 0) ∧
      (tx.built 5).2 = [] := by
  have hpos : 0 < 1600 - 3 * (k + 1) := by
    simp only [rlcAmWindowSize] at hk
    omega
  have hmove :
      min (min 5 bufferTailroom - AmdPduHeader.packedLength false 0) (1600 - 3 * k) = 3 := by
    have hroom : min 5 bufferTailroom - AmdPduHeader.packedLength false 0 = 3 := by decide
    rw [hroom]
    omega
  rw [RlcAmTx.built, h.txSduQueue, pullSdus, RlcAmTx.startPdu, h.txSdu]
  dsimp only [RlcUmTx.addSegment]
  rw [List.length_replicate, hmove, List.nil_append, List.take_replicate, RlcUmTx.remainder,
    List.drop_replicate, List.length_replicate, if_neg (by omega)]
  refine ⟨rfl, ?_, ?_, rfl⟩
  · rw [min_eq_left (by omega)]
  · rw [Nat.sub_sub, Nat.mul_succ]

theorem Drained.readPdu {tx : RlcAmTx} {k : ℕ} (h : Drained tx k) (hk : k < rlcAmWindowSize) :
    Drained (tx.readPdu (RlcAmRx.init []) 0 5).1 (k + 1) := by
  have hscheduled : tx.scheduleRetx 0 = tx := by
    have hsize := h.covers.size
    rw [RlcAmTx.scheduleRetx, if_neg]
    omega
  have hretx : tx.retransmit 5 = (tx, .none) := by rw [retransmit, if_pos h.retxQueue]
  obtain ⟨hli, hdata, hsdu, hqueue⟩ := h.built hk.le
  have hbuild : tx.buildDataPdu 5 = (tx.pulled 5).placePdu (tx.framingInfo (tx.built 5).1)
      (tx.built 5).1 := by
    have hcan : tx.canBuild 5 = true := by
      rw [canBuild, decide_eq_true_iff, h.txSdu]
      exact ⟨by simp, by simp, by decide⟩
    have hsome : ¬ (tx.built 5).1.data.length = 0 := by rw [hdata]; decide
    rw [RlcAmTx.buildDataPdu, if_neg (by simpa using hcan)]
    exact if_neg hsome
  have heq : (tx.readPdu (RlcAmRx.init []) 0 5).1 =
      ((tx.pulled 5).placePdu (tx.framingInfo (tx.built 5).1) (tx.built 5).1).1 := by
    rcases tx.readPdu_of_sendsData 0 5 h.sendsData with ⟨hsent, -⟩ | ⟨-, heq⟩
    · rw [hscheduled, hretx] at hsent
      exact absurd rfl hsent
    · rw [heq, hscheduled, hretx]
      dsimp only
      rw [hbuild]
  obtain ⟨p, b, c, t, hfst⟩ := (tx.pulled 5).setPollBit_fst
    ((tx.built 5).1.data.length + (tx.built 5).1.headLen)
  have hcovers := (h.covers.buildDataPdu 5).2
  rw [hbuild] at hcovers
  rw [heq]
  rw [placePdu] at hcovers ⊢
  dsimp only at hcovers ⊢
  rw [hfst] at hcovers ⊢
  refine ⟨h.enabled, h.retxQueue, hqueue, hsdu, ?_, fun {sn pdu} hfind => ?_⟩
  · exact (hcovers (by simp [AmdPduHeader.write])).2 (by omega)
  · rw [OrderedMap.find?_insert] at hfind
    split_ifs at hfind
    · rw [← Option.some.inj hfind]
      exact ⟨hli, rfl, by rw [newPdu, hdata]; rfl⟩
    · exact h.pdus hfind

theorem drained_one : Drained
    (((configure noPolling).writeSdu (List.replicate 1600 0)).readPdu (RlcAmRx.init []) 0 5).1
    1 where
  enabled := by decide +kernel
  retxQueue := by decide +kernel
  txSduQueue := by decide +kernel
  txSdu := by decide +kernel
  covers := by
    have hstart : Covers ((configure noPolling).writeSdu (List.replicate 1600 0)) 0 0 :=
      ⟨rfl, rfl, rfl, le_rfl, Nat.zero_le _, fun sn => iff_of_false Bool.false_ne_true
        (fun ⟨m, _, hlt, _⟩ => Nat.not_lt_zero m hlt), rfl⟩
    have hpending : Pending ((configure noPolling).writeSdu (List.replicate 1600 0)).txSdu :=
      fun h => Option.some_ne_none [] h.symm
    rcases (hstart.readPdu hpending (RlcAmRx.init []) 0 5).2 with ⟨hvtS, -⟩ | ⟨-, hcovers, -⟩
    · exact absurd hvtS (by decide +kernel)
    · exact hcovers (by simp [rlcAmWindowSize])
  pdus {sn pdu} hfind := by
    have hall : ∀ e ∈ (((configure noPolling).writeSdu (List.replicate 1600 0)).readPdu
        (RlcAmRx.init []) 0 5).1.txWindow.entries,
        e.2.header.li = [] ∧ e.2.header.rf = false ∧ e.2.buf.length = 3 := by decide +kernel
    exact hall _ (OrderedMap.find?_eq_some_iff.mp hfind)

theorem tx_step_readPdu (s : Ledger) (rx : RlcAmRx) (rand nofBytes : ℕ) :
    (s.step (.readPdu rx rand nofBytes)).tx = (s.tx.readPdu rx rand nofBytes).1 := by
  rw [step, readPdu]
  split_ifs <;> rfl

theorem tx_step_writeSdu (s : Ledger) (sdu : Bytes) :
    (s.step (.writeSdu sdu)).tx = s.tx.writeSdu sdu := rfl

theorem drained_grants (k : ℕ) (hk : k < rlcAmWindowSize) (s : Ledger) (h : Drained s.tx 1) :
    Drained ((List.replicate k (.readPdu (RlcAmRx.init []) 0 5)).foldl step s).tx (k + 1) := by
  induction k with
  | zero => exact h
  | succ k ih =>
    rw [List.replicate_succ', List.foldl_append, List.foldl_cons, List.foldl_nil,
      tx_step_readPdu]
    exact (ih (Nat.lt_of_succ_lt hk)).readPdu hk

theorem Drained.overfills {tx : RlcAmTx} (h : Drained tx rlcAmWindowSize) :
    Overfills tx (RlcAmRx.init []) 0 4 where
  sendsData := h.sendsData
  full := h.covers.size.ge
  rest := by
    rw [h.txSdu]
    exact Option.some_ne_none _
  room := by decide
  withheld f hf := by
    have hfind : tx.txWindow.find? f.1.sn = some f.2 := by
      obtain ⟨retx, -, hmap⟩ := Option.bind_eq_some_iff.mp hf
      obtain ⟨pdu, hpdu, rfl⟩ := Option.map_eq_some_iff.mp hmap
      rw [txWindow_scheduleRetx] at hpdu
      exact hpdu
    obtain ⟨hli, hrf, hlength⟩ := h.pdus hfind
    refine Or.inr ⟨fun hresends => ?_, Nat.le_add_right 4 _⟩
    have hsize := hresends.2
    rw [requiredBufferSize, if_pos (by simp [hresends.1]), hli, hrf, hlength] at hsize
    exact absurd hsize (by decide)

/-- An SDU of 1600 bytes, grants of five bytes until the window is full, and a grant of four. -/
def overfilling : List Input :=
  .writeSdu (List.replicate 1600 0) :: .readPdu (RlcAmRx.init []) 0 5 ::
    (List.replicate 511 (.readPdu (RlcAmRx.init []) 0 5) ++ [.readPdu (RlcAmRx.init []) 0 4])

/-- The window check is not made while the rest of an SDU is pending. -/
theorem window_takes_513_pdus : ¬ ∀ (cfg : RlcAmConfig) (inputs : List Input),
    Along step OnlySent (start cfg) inputs → Along step Sound (start cfg) inputs := by
  intro h
  have hsent : Along step OnlySent (start noPolling) overfilling := by
    refine ⟨trivial, trivial, EventRun.along_append.mpr ⟨?_, trivial, trivial⟩⟩
    generalize 511 = k
    generalize Ledger.step _ _ = s
    induction k generalizing s with
    | zero => trivial
    | succ k ih => exact ⟨trivial, ih _⟩
  obtain ⟨-, -, hrun⟩ := h noPolling overfilling hsent
  obtain ⟨-, ⟨-, hnew⟩, -⟩ := EventRun.along_append.mp hrun
  have hfirst : Drained (((start noPolling).step (.writeSdu (List.replicate 1600 0))).step
      (.readPdu (RlcAmRx.init []) 0 5)).tx 1 := by
    rw [tx_step_readPdu, tx_step_writeSdu]
    exact drained_one
  have hdrained := drained_grants 511 (by decide) _ hfirst
  generalize List.foldl step _ _ = s at hnew hdrained
  have hvtS : (s.step (.readPdu (RlcAmRx.init []) 0 4)).tx.vtS ≠ s.tx.vtS := by
    rw [tx_step_readPdu]
    have hpending : Pending s.tx.txSdu := by
      rw [hdrained.txSdu]
      simp [Pending]
    rcases (hdrained.covers.readPdu hpending (RlcAmRx.init []) 0 4).2 with ⟨-, -, hnot⟩ | ⟨hne, -⟩
    · exact absurd hdrained.overfills hnot
    · exact hne
  have hlt := hnew hvtS
  rw [hdrained.covers.vtS, hdrained.covers.vtMs, Nat.zero_add] at hlt
  exact lt_irrefl _ hlt

end Ledger

end SrsLte.RlcAmTx
