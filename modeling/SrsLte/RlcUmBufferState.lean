import SrsLte.GrantLoop
import SrsLte.RlcUm

/-!
# Buffer state of the UM transmitter

A transmitter of unacknowledged mode that is granted what `get_buffer_state` reports sends all its
SDUs, unless the only one is empty, or a multicast bearer with sequence numbers of ten bits has a
single byte.
-/

namespace SrsLte

/-- The room for the SDUs and for the header extensions of a single PDU with all of them. -/
def sduRoom (sdus : List Bytes) : ℕ :=
  (sdus.map List.length).sum + LengthIndicators.length (sdus.length - 1)

def sduWeight (sdus : List Bytes) : ℕ := (sdus.map fun sdu => sdu.length + 1).sum

@[simp]
theorem sduWeight_nil : sduWeight [] = 0 := rfl

@[simp]
theorem sduWeight_cons (sdu : Bytes) (sdus : List Bytes) :
    sduWeight (sdu :: sdus) = sdu.length + 1 + sduWeight sdus := rfl

@[simp]
theorem sduWeight_append (sdus sdus' : List Bytes) :
    sduWeight (sdus ++ sdus') = sduWeight sdus + sduWeight sdus' := by
  rw [sduWeight, List.map_append, List.sum_append]
  rfl

theorem sduRoom_eq (txSdu : Option Bytes) (queue : List Bytes) :
    (if queue.length + (if txSdu = none then 0 else 1) > 1 then
      (queue.map List.length).sum + (txSdu.getD []).length +
        LengthIndicators.length (queue.length + (if txSdu = none then 0 else 1) - 1)
      else (queue.map List.length).sum + (txSdu.getD []).length) =
      sduRoom (txSdu.toList ++ queue) := by
  have hnone : LengthIndicators.length 0 = 0 := rfl
  unfold sduRoom
  cases txSdu with
  | none =>
    rw [if_pos rfl]
    dsimp only [Option.toList_none, Option.getD_none, List.nil_append, List.length_nil]
    split_ifs with h
    · rfl
    · rw [Nat.sub_eq_zero_of_le (by omega : queue.length ≤ 1), hnone]
  | some sdu =>
    rw [if_neg (Option.some_ne_none sdu)]
    dsimp only [Option.toList_some, Option.getD_some, List.cons_append, List.nil_append]
    rw [List.map_cons, List.sum_cons, List.length_cons]
    split_ifs with h
    · omega
    · rw [Nat.sub_eq_zero_of_le (by omega : queue.length + 1 ≤ 1), hnone]
      omega

namespace RlcUmTx

theorem sduWeight_remainder_lt (sdu : Bytes) {space : ℕ} (h : 0 < space) :
    sduWeight (remainder sdu (min space sdu.length)).toList < sdu.length + 1 := by
  unfold remainder
  split_ifs with hall
  · exact Nat.succ_pos _
  · rw [Option.toList_some, sduWeight_cons, sduWeight_nil]
    rw [List.length_drop] at hall ⊢
    omega

theorem sduWeight_remainder_le (sdu : Bytes) (toMove : ℕ) :
    sduWeight (remainder sdu toMove).toList ≤ sdu.length + 1 := by
  unfold remainder
  split_ifs
  · exact Nat.zero_le _
  · rw [Option.toList_some, sduWeight_cons, sduWeight_nil, List.length_drop]
    omega

def sdus (tx : RlcUmTx) : List Bytes := tx.txSdu.toList ++ tx.txSduQueue

/-- `get_buffer_state`, where sizes are taken not to wrap. -/
def getBufferState (mrb : Bool) (tx : RlcUmTx) : ℕ :=
  let nSdus := tx.txSduQueue.length + if tx.txSdu = none then 0 else 1
  let nBytes := (tx.txSduQueue.map List.length).sum + (tx.txSdu.getD []).length
  let nBytes := if nSdus > 1 then nBytes + LengthIndicators.length (nSdus - 1) else nBytes
  if nBytes > 0 then nBytes + if mrb then 2 else 3 else nBytes

theorem getBufferState_eq (mrb : Bool) (tx : RlcUmTx) :
    tx.getBufferState mrb =
      if sduRoom tx.sdus > 0 then sduRoom tx.sdus + if mrb then 2 else 3 else sduRoom tx.sdus := by
  unfold getBufferState sdus
  dsimp only
  rw [sduRoom_eq]

theorem sduWeight_pullSdus_le (snSize : UmdSnSize) (b : Building) (queue : List Bytes) :
    sduWeight ((pullSdus snSize b queue).1.txSdu.toList ++ (pullSdus snSize b queue).2) ≤
      sduWeight (b.txSdu.toList ++ queue) := by
  induction queue generalizing b with
  | nil => exact le_rfl
  | cons sdu queue ih =>
    unfold pullSdus
    split_ifs
    · have hrest : sduWeight (pullSdu snSize b sdu).txSdu.toList ≤ sdu.length + 1 :=
        sduWeight_remainder_le sdu _
      refine (ih _).trans ?_
      rw [sduWeight_append, sduWeight_append, sduWeight_cons]
      omega
    · exact le_rfl

theorem sduWeight_buildDataPdu_lt {tx : RlcUmTx} {nofBytes : ℕ}
    (h : tx.canBuild nofBytes = true) :
    sduWeight (tx.buildDataPdu nofBytes).1.sdus < sduWeight tx.sdus := by
  obtain ⟨hsdus, hspace⟩ := of_decide_eq_true h
  have hbuilt : (tx.buildDataPdu nofBytes).1.sdus =
      (pullSdus tx.snSize (tx.startPdu nofBytes) tx.txSduQueue).1.txSdu.toList ++
        (pullSdus tx.snSize (tx.startPdu nofBytes) tx.txSduQueue).2 := by
    unfold buildDataPdu
    rw [if_pos h]
    rfl
  rw [hbuilt, sdus]
  unfold startPdu
  cases hsdu : tx.txSdu with
  | some sdu =>
    refine (sduWeight_pullSdus_le _ _ _).trans_lt ?_
    have hlt := sduWeight_remainder_lt sdu (Nat.sub_pos_of_lt (Nat.lt_of_succ_lt hspace))
    rw [sduWeight_append, sduWeight_append]
    exact Nat.add_lt_add_right hlt _
  | none =>
    cases hqueue : tx.txSduQueue with
    | nil => exact absurd ⟨hsdu, hqueue⟩ hsdus
    | cons sdu queue =>
      dsimp only
      unfold pullSdus
      rw [if_pos hspace]
      refine (sduWeight_pullSdus_le _ _ _).trans_lt ?_
      have hlt := sduWeight_remainder_lt sdu (Nat.sub_pos_of_lt (Nat.lt_of_succ_lt hspace))
      rw [sduWeight_append]
      exact Nat.add_lt_add_right hlt _

def granting (mrb : Bool) : Granting RlcUmTx UInt8 where
  report tx := (tx, tx.getBufferState mrb)
  serve _ tx nofBytes := ((tx.buildDataPdu nofBytes).1, (tx.buildDataPdu nofBytes).2.getD [])
  Done tx := tx.sdus = []

/-- What the report has to count for the SDUs: something, and more than a byte behind a header of
two bytes for which only two bytes are added. -/
def Reportable (mrb : Bool) (tx : RlcUmTx) : Prop :=
  tx.sdus ≠ [] → 0 < sduRoom tx.sdus ∧ (mrb = true → tx.snSize = .size10bits → 1 < sduRoom tx.sdus)

theorem pdu_buildDataPdu_ne_nil {tx : RlcUmTx} {nofBytes : ℕ} (h : tx.canBuild nofBytes = true) :
    (tx.buildDataPdu nofBytes).2.getD [] ≠ [] := by
  unfold buildDataPdu
  rw [if_pos h]
  dsimp only [Option.getD_some]
  unfold UmdPduHeader.write
  cases tx.snSize <;> simp

theorem canBuild_getBufferState {mrb : Bool} {tx : RlcUmTx} (h : tx.Reportable mrb)
    (hsdus : tx.sdus ≠ []) : tx.canBuild (tx.getBufferState mrb) = true := by
  obtain ⟨hpos, hmrb⟩ := h hsdus
  have htailroom : bufferTailroom = 12237 := rfl
  have hshort : UmdPduHeader.packedLength .size5bits 0 = 1 := rfl
  have hlong : UmdPduHeader.packedLength .size10bits 0 = 2 := rfl
  refine decide_eq_true ⟨fun hnone => hsdus (by rw [sdus, hnone.1, hnone.2]; rfl), ?_⟩
  rw [getBufferState_eq, if_pos hpos]
  cases hsize : tx.snSize with
  | size5bits => split_ifs <;> omega
  | size10bits =>
    split_ifs with hb
    · have := hmrb hb hsize
      omega
    · omega

theorem advances {mrb : Bool} {tx : RlcUmTx} (h : tx.Reportable mrb) (i : ℕ) :
    (granting mrb).Advances (fun tx => sduWeight tx.sdus) i tx := by
  have hzero : tx.getBufferState mrb = 0 ↔ tx.sdus = [] := by
    rw [getBufferState_eq]
    constructor
    · intro hzero
      by_contra hsdus
      rw [if_pos (h hsdus).1] at hzero
      have := (h hsdus).1
      omega
    · intro hsdus
      rw [hsdus]
      rfl
  refine ⟨hzero, fun hsdus => pdu_buildDataPdu_ne_nil (canBuild_getBufferState h hsdus),
    fun hsdus => ?_⟩
  have hnext : (granting mrb).next i tx = (tx.buildDataPdu (tx.getBufferState mrb)).1 :=
    if_neg fun heq => hsdus (hzero.mp heq)
  rw [hnext]
  exact sduWeight_buildDataPdu_lt (canBuild_getBufferState h hsdus)

theorem drains_of_reportable {mrb : Bool} {tx : RlcUmTx}
    (h : ∀ i, ((granting mrb).after tx i).Reportable mrb) : (granting mrb).Drains tx :=
  Granting.drains_of_advances fun i => advances (h i) i

end RlcUmTx
end SrsLte
