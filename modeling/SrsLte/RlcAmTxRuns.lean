import Mathlib.Algebra.Order.BigOperators.Group.List
import SrsLte.EventRun
import SrsLte.RlcAmTx

/-!
# Runs of the AM transmitter

The transmitter of acknowledged mode takes SDUs, grants, status PDUs and timer expiries in any
order, next to any receiver. Every PDU in its window was built by `build_data_pdu` and has kept its
header and its payload.
-/

namespace SrsLte

open AmdPduHeader (packedLength)

/-- What `rlc_am_read_status_pdu` can return. -/
structure RlcStatusPdu.Decoded (s : RlcStatusPdu) : Prop where
  ackSn : s.ackSn < rlcAmMod
  length : s.nacks.length ≤ rlcAmWindowSize
  nackSn : ∀ n ∈ s.nacks, n.nackSn < rlcAmMod
  soStart : ∀ n ∈ s.nacks, n.soStart < 2 ^ 15
  soEnd : ∀ n ∈ s.nacks, n.soEnd < 2 ^ 15

instance (s : RlcStatusPdu) : Decidable s.Decoded :=
  decidable_of_iff (s.ackSn < rlcAmMod ∧ s.nacks.length ≤ rlcAmWindowSize ∧
      ∀ n ∈ s.nacks, n.nackSn < rlcAmMod ∧ n.soStart < 2 ^ 15 ∧ n.soEnd < 2 ^ 15)
    ⟨fun ⟨ha, hl, hn⟩ => ⟨ha, hl, fun n h => (hn n h).1, fun n h => (hn n h).2.1,
      fun n h => (hn n h).2.2⟩,
      fun h => ⟨h.ackSn, h.length, fun n hn => ⟨h.nackSn n hn, h.soStart n hn, h.soEnd n hn⟩⟩⟩

theorem RlcStatusPdu.decoded_first_nack :
    RlcStatusPdu.Decoded { ackSn := 1, nacks := [RlcStatusNack.whole 0] } := by decide

abbrev RlcStatusReport := { s : RlcStatusPdu // s.Decoded }

namespace RlcAmTx

inductive Event
  | writeSdu (sdu : Bytes)
  | readPdu (rx : RlcAmRx) (rand nofBytes : ℕ)
  | getBufferState (rx : RlcAmRx)
  | handleControlPdu (status : RlcStatusReport)
  | pollRetxTimerExpired (rand : ℕ)
  | statusProhibitTimerExpired
  | emptyQueue
  | stop
  | reestablish

def step (tx : RlcAmTx) : Event → RlcAmTx
  | .writeSdu sdu => tx.writeSdu sdu
  | .readPdu rx rand nofBytes => (tx.readPdu rx rand nofBytes).1
  | .getBufferState rx => (tx.getBufferState rx).1
  | .handleControlPdu status => tx.handleControlPdu status
  | .pollRetxTimerExpired rand => tx.pollRetxTimerExpired rand
  | .statusProhibitTimerExpired => { tx with statusProhibitTimer := .expired }
  | .emptyQueue => tx.emptyQueue
  | .stop => tx.stop
  | .reestablish => tx.reestablish

variable (tx : RlcAmTx) (rand nBytes nofBytes : ℕ)

theorem setPollBit_fst : ∃ p b k t, (tx.setPollBit nBytes).1 =
    { tx with pollSn := k, pduWithoutPoll := p, byteWithoutPoll := b, pollRetxTimer := t } := by
  unfold setPollBit
  dsimp only
  split
  · exact ⟨_, _, _, _, rfl⟩
  · exact ⟨_, _, tx.pollSn, tx.pollRetxTimer, rfl⟩

@[simp]
theorem retxQueue_setPollBit : (tx.setPollBit nBytes).1.retxQueue = tx.retxQueue := by
  obtain ⟨p, b, k, t, h⟩ := tx.setPollBit_fst nBytes
  rw [h]

@[simp]
theorem setPollBit_frame :
    (tx.setPollBit nBytes).1.txWindow = tx.txWindow ∧ (tx.setPollBit nBytes).1.vtS = tx.vtS ∧
      (tx.setPollBit nBytes).1.vtA = tx.vtA ∧ (tx.setPollBit nBytes).1.cfg = tx.cfg ∧
      (tx.setPollBit nBytes).1.maxRetxAttempted = tx.maxRetxAttempted := by
  obtain ⟨p, b, k, t, h⟩ := tx.setPollBit_fst nBytes
  rw [h]
  exact ⟨rfl, rfl, rfl, rfl, rfl⟩

theorem retransmitRandomPdu_eq :
    tx.retransmitRandomPdu rand = tx ∨ ∃ sn pdu, tx.txWindow.find? sn = some pdu ∧
      tx.retransmitRandomPdu rand = { tx with
        retxQueue := tx.retxQueue ++
          [{ sn := sn, isSegment := false, soStart := 0, soEnd := pdu.buf.length }] } := by
  unfold retransmitRandomPdu
  cases hget : tx.txWindow.entries[rand % tx.windowSize]? with
  | none => exact Or.inl rfl
  | some e =>
    obtain ⟨sn, pdu⟩ := e
    exact Or.inr ⟨sn, pdu, OrderedMap.find?_eq_some_iff.mpr (List.mem_of_getElem? hget), rfl⟩

theorem retransmitRandomPdu_queue :
    ∃ queue, tx.retransmitRandomPdu rand = { tx with retxQueue := queue } := by
  rcases tx.retransmitRandomPdu_eq rand with h | ⟨sn, pdu, -, h⟩
  · exact ⟨tx.retxQueue, h⟩
  · exact ⟨_, h⟩

@[simp]
theorem txWindow_retransmitRandomPdu : (tx.retransmitRandomPdu rand).txWindow = tx.txWindow := by
  obtain ⟨queue, h⟩ := tx.retransmitRandomPdu_queue rand
  rw [h]

/-- The header fits in the room that is left of `room` bytes, and the indicators count bytes of the
PDU. -/
structure Filling (room : ℕ) (b : Building) : Prop where
  head : packedLength false 0 ≤ b.headLen
  underflow : b.underflow = false
  header : packedLength false b.li.length ≤ b.pduSpace
  space : b.pduSpace + b.data.length = room
  indicators : b.li.sum + b.lastLi ≤ b.data.length
  length : b.li.length ≤ rlcAmWindowSize

theorem packedLength_mono {m n : ℕ} (rf : Bool) (h : m ≤ n) :
    packedLength rf m ≤ packedLength rf n := by
  unfold packedLength LengthIndicators.length
  omega

theorem sum_countedLi (b : Building) : (countedLi b).sum = b.li.sum + b.lastLi := by
  unfold countedLi
  split_ifs with hpos
  · simp
  · omega

theorem length_countedLi_le (b : Building) : (countedLi b).length ≤ b.li.length + 1 := by
  unfold countedLi
  split_ifs <;> simp

theorem sum_dropLast_countedLi (b : Building) :
    (countedLi b).dropLast.sum + b.lastLi ≤ b.li.sum + b.lastLi := by
  unfold countedLi
  split_ifs with hpos
  · rw [List.dropLast_concat]
  · exact Nat.add_le_add_right (b.li.dropLast_sublist.sum_le_sum fun _ _ => Nat.zero_le _) _

theorem Filling.pullSdus {room : ℕ} {b : Building} (h : Filling room b)
    (queue : List Bytes) : Filling room (pullSdus b queue).1 := by
  induction queue generalizing b with
  | nil => exact h
  | cons sdu queue ih =>
    unfold RlcAmTx.pullSdus
    by_cases hmore : b.pduSpace > b.headLen + 1 ∧ b.li.length < rlcAmWindowSize
    · rw [if_pos hmore]
      obtain ⟨hhead, hunderflow, hheader, hspace, hind, hlen⟩ := h
      have hsum := sum_countedLi b
      have hlength := length_countedLi_le b
      have hdropSum := sum_dropLast_countedLi b
      dsimp only
      generalize countedLi b = li at hsum hlength hdropSum ⊢
      by_cases hroom : packedLength false li.length ≥ b.pduSpace
      · rw [if_pos hroom]
        have hdrop : li.dropLast.length ≤ b.li.length := by
          rw [List.length_dropLast]
          omega
        -- Without an indicator the header has not grown, and the room was larger than it.
        have hpos : li.length ≠ 0 := by
          intro hzero
          rw [hzero] at hroom
          omega
        refine ⟨packedLength_mono false (Nat.zero_le _), ?_,
          (packedLength_mono false hdrop).trans hheader, hspace, hdropSum.trans hind,
          hdrop.trans hlen⟩
        dsimp only
        rw [hunderflow, decide_eq_false hpos]
        rfl
      · rw [if_neg hroom]
        apply ih
        refine ⟨packedLength_mono false (Nat.zero_le _), hunderflow, ?_, ?_, ?_,
          hlength.trans hmore.2⟩
        · dsimp only
          omega
        · dsimp only
          rw [List.length_append, List.length_take]
          omega
        · dsimp only
          rw [List.length_append, List.length_take, hsum]
          omega
    · rw [if_neg hmore]
      exact h

theorem length_pullSdus (b : Building) (queue : List Bytes) :
    (RlcAmTx.pullSdus b queue).1.data.length ≤ b.data.length + (queue.map List.length).sum ∧
      (RlcAmTx.pullSdus b queue).1.li.length ≤ b.li.length + queue.length := by
  induction queue generalizing b with
  | nil => exact ⟨Nat.le_refl _, Nat.le_refl _⟩
  | cons sdu queue ih =>
    unfold RlcAmTx.pullSdus
    have hlength := length_countedLi_le b
    rw [List.map_cons, List.sum_cons, List.length_cons]
    split_ifs with hmore
    · dsimp only
      generalize countedLi b = li at hlength ⊢
      split_ifs with hroom
      · dsimp only
        rw [List.length_dropLast]
        omega
      · obtain ⟨hdata, hli⟩ := ih _
        refine ⟨hdata.trans ?_, hli.trans ?_⟩
        · dsimp only
          rw [List.length_append, List.length_take]
          omega
        · dsimp only
          omega
    · dsimp only
      omega

def segmentLength (nofBytes : ℕ) : ℕ :=
  match tx.txSdu with
  | none => 0
  | some sdu => min (min nofBytes bufferTailroom - packedLength false 0) sdu.length

/-- The room that the loop "Pull SDUs from queue" counts with. -/
def countedRoom (nofBytes : ℕ) : ℕ :=
  min nofBytes bufferTailroom +
    (tx.segmentLength nofBytes -
      min (tx.segmentLength nofBytes) (bufferTailroom - tx.segmentLength nofBytes))

theorem filling_startPdu {nofBytes : ℕ}
    (h : min nofBytes bufferTailroom > packedLength false 0 + 1) :
    Filling (tx.countedRoom nofBytes) (tx.startPdu nofBytes) ∧
      (tx.startPdu nofBytes).data.length = tx.segmentLength nofBytes ∧
      (tx.startPdu nofBytes).li = [] := by
  unfold startPdu countedRoom segmentLength
  cases tx.txSdu with
  | none =>
    exact ⟨⟨Nat.le_refl _, rfl, Nat.le_of_lt (Nat.lt_of_succ_lt h), rfl, Nat.le_refl _,
      Nat.zero_le _⟩, rfl, rfl⟩
  | some sdu =>
    dsimp only [RlcUmTx.addSegment, List.nil_append]
    generalize hmove :
      min (min nofBytes bufferTailroom - packedLength false 0) sdu.length = toMove
    have hlength : (sdu.take toMove).length = toMove := by
      rw [List.length_take]
      omega
    refine ⟨⟨Nat.le_refl _, ?_, ?_, ?_, ?_, Nat.zero_le _⟩, hlength, rfl⟩
    · dsimp only
      rw [decide_eq_false_iff_not, hlength]
      omega
    · dsimp only [List.length_nil]
      omega
    · dsimp only
      rw [hlength]
      omega
    · dsimp only
      rw [hlength, List.sum_nil]
      omega

/-- What `build_data_pdu` leaves in the window. -/
structure Placed (sn : ℕ) (pdu : RlcAmdTxPdu) : Prop where
  sn : pdu.header.sn = sn
  whole : pdu.header.rf = false
  lengthLi : pdu.header.li.length ≤ rlcAmWindowSize
  sumLi : pdu.header.li.sum ≤ pdu.buf.length
  nonempty : 0 < pdu.buf.length
  bounded : pdu.buf.length ≤ 2 * bufferTailroom

theorem countedRoom_le : tx.countedRoom nofBytes ≤ 2 * bufferTailroom := by
  have hle : tx.segmentLength nofBytes ≤ bufferTailroom := by
    unfold segmentLength
    cases tx.txSdu with
    | none => exact Nat.zero_le _
    | some sdu => exact (Nat.min_le_left _ _).trans ((Nat.sub_le _ _).trans (Nat.min_le_right _ _))
  unfold countedRoom
  omega

/-- The variables of `build_data_pdu` behind its loop. -/
def built (nofBytes : ℕ) : Building × List Bytes :=
  RlcAmTx.pullSdus (tx.startPdu nofBytes) tx.txSduQueue

def pulled (nofBytes : ℕ) : RlcAmTx :=
  { tx with txSdu := (tx.built nofBytes).1.txSdu, txSduQueue := (tx.built nofBytes).2 }

theorem buildDataPdu_cases :
    tx.buildDataPdu nofBytes = (tx, .none) ∨
      tx.buildDataPdu nofBytes = (tx.pulled nofBytes, .none) ∨
      (min nofBytes bufferTailroom > packedLength false 0 + 1 ∧
        0 < (tx.built nofBytes).1.data.length ∧
        tx.buildDataPdu nofBytes = (tx.pulled nofBytes).placePdu
          (tx.framingInfo (tx.built nofBytes).1) (tx.built nofBytes).1) := by
  unfold buildDataPdu
  by_cases hcan : tx.canBuild nofBytes
  · rw [if_neg (by simpa using hcan)]
    have hspace : min nofBytes bufferTailroom > packedLength false 0 + 1 := by
      unfold canBuild at hcan
      exact (of_decide_eq_true hcan).2.2
    change (if (tx.built nofBytes).1.data.length = 0 then (tx.pulled nofBytes, RlcAmOutput.none)
      else (tx.pulled nofBytes).placePdu (tx.framingInfo (tx.built nofBytes).1)
        (tx.built nofBytes).1) = (tx, .none) ∨ _
    by_cases hempty : (tx.built nofBytes).1.data.length = 0
    · exact Or.inr (Or.inl (if_pos hempty))
    · exact Or.inr (Or.inr ⟨hspace, Nat.pos_of_ne_zero hempty, if_neg hempty⟩)
  · exact Or.inl (if_pos hcan)

theorem filling_built {nofBytes : ℕ}
    (h : min nofBytes bufferTailroom > packedLength false 0 + 1) :
    Filling (tx.countedRoom nofBytes) (tx.built nofBytes).1 :=
  (tx.filling_startPdu h).1.pullSdus tx.txSduQueue

theorem txWindow_buildDataPdu :
    (tx.buildDataPdu nofBytes).1.txWindow = tx.txWindow ∧ (tx.buildDataPdu nofBytes).2.pdu = [] ∨
      ∃ pdu, Placed tx.vtS pdu ∧ pdu.retxCount = 0 ∧
        (tx.buildDataPdu nofBytes).1.txWindow = tx.txWindow.insert tx.vtS pdu ∧
        (tx.buildDataPdu nofBytes).2.pdu ≠ [] := by
  rcases tx.buildDataPdu_cases nofBytes with h | h | ⟨hspace, hdata, h⟩
  · exact Or.inl (by rw [h]; exact ⟨rfl, rfl⟩)
  · exact Or.inl (by rw [h]; exact ⟨rfl, rfl⟩)
  · have hfill := tx.filling_built hspace
    have hroom := tx.countedRoom_le nofBytes
    have hspace := hfill.space
    have hsum := hfill.indicators
    have hcount := hfill.length
    have hvtS : (tx.pulled nofBytes).vtS = tx.vtS := rfl
    generalize (tx.built nofBytes).1 = b at hdata hspace hsum hcount h
    refine Or.inr ⟨newPdu tx.vtS (tx.framingInfo b)
      ((tx.pulled nofBytes).setPollBit (b.data.length + b.headLen)).2 b, ?_, rfl, ?_, ?_⟩
    · refine ⟨rfl, rfl, hcount, ?_, hdata, ?_⟩
      · change b.li.sum ≤ b.data.length
        omega
      · change b.data.length ≤ _
        omega
    · rw [h, placePdu]
      simp only [setPollBit_frame, hvtS]
      rfl
    · rw [h, placePdu]
      simp [AmdPduHeader.write]

@[simp]
theorem vtA_buildDataPdu : (tx.buildDataPdu nofBytes).1.vtA = tx.vtA := by
  rcases tx.buildDataPdu_cases nofBytes with h | h | ⟨-, -, h⟩
  · rw [h]
  · rw [h]
    rfl
  · rw [h, placePdu]
    exact (setPollBit_frame _ _).2.2.1

@[simp]
theorem retxQueue_buildDataPdu : (tx.buildDataPdu nofBytes).1.retxQueue = tx.retxQueue := by
  rcases tx.buildDataPdu_cases nofBytes with h | h | ⟨-, -, h⟩
  · rw [h]
  · rw [h]
    rfl
  · rw [h, placePdu]
    exact retxQueue_setPollBit _ _

theorem frame_buildDataPdu :
    (tx.buildDataPdu nofBytes).1.cfg = tx.cfg ∧
      (tx.buildDataPdu nofBytes).1.maxRetxAttempted = tx.maxRetxAttempted := by
  rcases tx.buildDataPdu_cases nofBytes with h | h | ⟨-, -, h⟩
  · rw [h]
    exact ⟨rfl, rfl⟩
  · rw [h]
    exact ⟨rfl, rfl⟩
  · rw [h, placePdu]
    exact (setPollBit_frame _ _).2.2.2

theorem retxQueue_dropStale :
    tx.dropStale.retxQueue = [] ∨ ∃ retx rest pdu, tx.dropStale.retxQueue = retx :: rest ∧
      tx.txWindow.find? retx.sn = some pdu := by
  cases hqueue : tx.dropStale.retxQueue with
  | nil => exact Or.inl rfl
  | cons retx rest =>
    have hdrop : tx.dropStale.retxQueue =
      tx.retxQueue.dropWhile fun r => (tx.txWindow.find? r.sn).isNone := rfl
    have hhead := List.head?_dropWhile_not (fun r : RlcAmdRetx => (tx.txWindow.find? r.sn).isNone)
      tx.retxQueue
    rw [← hdrop, hqueue] at hhead
    obtain ⟨pdu, hpdu⟩ := Option.isSome_iff_exists.mp (Option.isNone_eq_false_iff.mp hhead)
    exact Or.inr ⟨retx, rest, pdu, rfl, hpdu⟩

def front : Option (RlcAmdRetx × RlcAmdTxPdu) :=
  tx.dropStale.retxQueue.head?.bind fun retx =>
    (tx.txWindow.find? retx.sn).map fun pdu => (retx, pdu)

theorem front_eq {retx : RlcAmdRetx} {rest : List RlcAmdRetx} {pdu : RlcAmdTxPdu}
    (hqueue : tx.dropStale.retxQueue = retx :: rest)
    (hpdu : tx.txWindow.find? retx.sn = some pdu) : tx.front = some (retx, pdu) := by
  rw [front, hqueue, List.head?_cons, Option.bind_some, hpdu, Option.map_some]

def Resends (nofBytes : ℕ) (pdu : RlcAmdTxPdu) (retx : RlcAmdRetx) : Prop :=
  retx.isSegment = false ∧ (requiredBufferSize pdu retx).1 ≤ Word.toInt32 nofBytes

instance (nofBytes : ℕ) (pdu : RlcAmdTxPdu) (retx : RlcAmdRetx) :
    Decidable (Resends nofBytes pdu retx) := inferInstanceAs (Decidable (_ ∧ _))

theorem buildRetxPdu_cases {retx : RlcAmdRetx} {rest : List RlcAmdRetx} {pdu : RlcAmdTxPdu}
    (hqueue : tx.dropStale.retxQueue = retx :: rest)
    (hpdu : tx.txWindow.find? retx.sn = some pdu) :
    (requiredBufferSize pdu retx).1 < 0 ∧ tx.buildRetxPdu nofBytes =
        ({ tx.dropStale with retxQueue := rest },
          { RlcAmOutput.none with underflow := (requiredBufferSize pdu retx).2 }) ∨
      Resends nofBytes pdu retx ∧ tx.buildRetxPdu nofBytes = ((tx.dropStale.resendPdu pdu retx).1,
        { (tx.dropStale.resendPdu pdu retx).2 with
          underflow := (requiredBufferSize pdu retx).2 ||
            (tx.dropStale.resendPdu pdu retx).2.underflow }) ∨
      (0 ≤ (requiredBufferSize pdu retx).1 ∧ ¬ Resends nofBytes pdu retx) ∧
        tx.buildRetxPdu nofBytes = ((tx.dropStale.buildSegment nofBytes pdu retx).1,
          { (tx.dropStale.buildSegment nofBytes pdu retx).2 with
            underflow := (requiredBufferSize pdu retx).2 ||
              (tx.dropStale.buildSegment nofBytes pdu retx).2.underflow }) := by
  have hwindow : tx.dropStale.txWindow.find? retx.sn = some pdu := hpdu
  unfold buildRetxPdu
  dsimp only
  rw [hqueue]
  dsimp only
  rw [hwindow]
  dsimp only
  by_cases hneg : (requiredBufferSize pdu retx).1 < 0
  · exact Or.inl ⟨hneg, if_pos hneg⟩
  · rw [if_neg hneg]
    by_cases hresend : Resends nofBytes pdu retx
    · have hnot : ¬ (retx.isSegment = true ∨
          (requiredBufferSize pdu retx).1 > Word.toInt32 nofBytes) := by
        rintro (hseg | hsize)
        · rw [hresend.1] at hseg
          exact absurd hseg (by decide)
        · exact absurd hresend.2 (not_le.mpr hsize)
      rw [if_neg hnot]
      exact Or.inr (Or.inl ⟨hresend, rfl⟩)
    · have hsegment : retx.isSegment = true ∨
          (requiredBufferSize pdu retx).1 > Word.toInt32 nofBytes := by
        by_contra hnot
        rw [not_or, Bool.not_eq_true, not_lt] at hnot
        exact hresend hnot
      rw [if_pos hsegment]
      exact Or.inr (Or.inr ⟨⟨not_lt.mp hneg, hresend⟩, rfl⟩)

section

variable (pdu : RlcAmdTxPdu) (retx : RlcAmdRetx)
include pdu retx

theorem buildSegment_fst : ∃ p b k t q,
    (tx.buildSegment nofBytes pdu retx).1 =
      { tx with
        pollSn := k
        pduWithoutPoll := p
        byteWithoutPoll := b
        pollRetxTimer := t
        retxQueue := q } := by
  obtain ⟨p, b, k, t, h⟩ :=
    tx.setPollBit_fst (pdu.buf.length + packedLength false 0)
  unfold buildSegment
  dsimp only
  rw [h]
  by_cases hsmall : nofBytes ≤ headLen pdu
  · rw [if_pos hsmall]
    exact ⟨p, b, k, t, tx.retxQueue, rfl⟩
  · rw [if_neg hsmall]
    exact ⟨p, b, k, t, _, rfl⟩

theorem resendPdu_fst : ∃ p b k t,
    (tx.resendPdu pdu retx).1 =
      { tx with
        pollSn := k
        pduWithoutPoll := p
        byteWithoutPoll := b
        pollRetxTimer := t
        retxQueue := tx.retxQueue.tail
        txWindow := tx.txWindow.insert retx.sn { pdu with retxCount := pdu.retxCount + 1 }
        maxRetxAttempted :=
          if pdu.retxCount + 1 ≥ tx.cfg.maxRetxThresh then tx.maxRetxAttempted + 1
          else tx.maxRetxAttempted } := by
  obtain ⟨p, b, k, t, h⟩ := tx.setPollBit_fst
    (pdu.buf.length + packedLength pdu.header.rf pdu.header.li.length)
  refine ⟨p, b, k, t, ?_⟩
  unfold resendPdu
  dsimp only
  rw [h]

theorem pdu_resendPdu_ne_nil :
    (tx.resendPdu pdu retx).2.pdu ≠ [] := by
  simp [resendPdu, AmdPduHeader.write]

end

theorem retransmit_eq : tx.retransmit nofBytes = tx.buildRetxPdu nofBytes := by
  unfold retransmit
  split_ifs with hnil
  · have hdrop : tx.dropStale = tx := by
      rw [dropStale, hnil]
      exact congrArg (fun q => { tx with retxQueue := q }) hnil.symm
    unfold buildRetxPdu
    dsimp only
    rw [hdrop, hnil]
  · rfl

theorem pdu_buildSegment_eq_nil_iff (nofBytes : ℕ) (pdu : RlcAmdTxPdu) (retx : RlcAmdRetx) :
    (tx.buildSegment nofBytes pdu retx).2.pdu = [] ↔ nofBytes ≤ headLen pdu := by
  unfold buildSegment
  dsimp only
  by_cases h : nofBytes ≤ headLen pdu
  · rw [if_pos h]
    exact iff_of_true rfl h
  · rw [if_neg h]
    exact iff_of_false (by simp [AmdPduHeader.write]) h

theorem retransmit_cases :
    ((tx.retransmit nofBytes).2.pdu = [] ∧ (tx.retransmit nofBytes).1.txWindow = tx.txWindow ∧
        (tx.retransmit nofBytes).1.maxRetxAttempted = tx.maxRetxAttempted) ∨
      ∃ retx rest pdu, tx.dropStale.retxQueue = retx :: rest ∧
        tx.txWindow.find? retx.sn = some pdu ∧ (tx.retransmit nofBytes).2.pdu ≠ [] ∧
        (¬ Resends nofBytes pdu retx ∧ headLen pdu < nofBytes ∧
            (tx.retransmit nofBytes).1.txWindow = tx.txWindow ∧
            (tx.retransmit nofBytes).1.maxRetxAttempted = tx.maxRetxAttempted ∨
          Resends nofBytes pdu retx ∧ (tx.retransmit nofBytes).1.txWindow =
              tx.txWindow.insert retx.sn { pdu with retxCount := pdu.retxCount + 1 } ∧
            (tx.retransmit nofBytes).1.maxRetxAttempted =
              if pdu.retxCount + 1 ≥ tx.cfg.maxRetxThresh then tx.maxRetxAttempted + 1
              else tx.maxRetxAttempted) := by
  rw [retransmit_eq]
  rcases tx.retxQueue_dropStale with hnil | ⟨retx, rest, pdu, hqueue, hpdu⟩
  · left
    unfold buildRetxPdu
    dsimp only
    rw [hnil]
    exact ⟨rfl, rfl, rfl⟩
  · rcases tx.buildRetxPdu_cases nofBytes hqueue hpdu with
      ⟨-, h⟩ | ⟨hresend, h⟩ | ⟨⟨-, hsegment⟩, h⟩
    · rw [h]
      exact Or.inl ⟨rfl, rfl, rfl⟩
    · right
      obtain ⟨p, b, k, t, hfst⟩ := tx.dropStale.resendPdu_fst pdu retx
      rw [h]
      refine ⟨retx, rest, pdu, hqueue, hpdu, tx.dropStale.pdu_resendPdu_ne_nil pdu retx,
        Or.inr ⟨hresend, ?_, ?_⟩⟩
      · dsimp only
        rw [hfst]
        rfl
      · dsimp only
        rw [hfst]
        rfl
    · obtain ⟨p, b, k, t, q, hfst⟩ := tx.dropStale.buildSegment_fst nofBytes pdu retx
      rw [h]
      dsimp only
      rw [hfst]
      by_cases hempty : (tx.dropStale.buildSegment nofBytes pdu retx).2.pdu = []
      · exact Or.inl ⟨hempty, rfl, rfl⟩
      · have hlarge : headLen pdu < nofBytes := Nat.lt_of_not_le fun hsmall =>
          hempty ((tx.dropStale.pdu_buildSegment_eq_nil_iff nofBytes pdu retx).mpr hsmall)
        exact Or.inr ⟨retx, rest, pdu, hqueue, hpdu, hempty,
          Or.inl ⟨hsegment, hlarge, rfl, rfl⟩⟩

theorem retransmit_fst : ∃ p b k t q w m, (tx.retransmit nofBytes).1 =
    { tx with
      pollSn := k
      pduWithoutPoll := p
      byteWithoutPoll := b
      pollRetxTimer := t
      retxQueue := q
      txWindow := w
      maxRetxAttempted := m } := by
  rw [retransmit_eq]
  rcases tx.retxQueue_dropStale with hnil | ⟨retx, rest, pdu, hqueue, hpdu⟩
  · unfold buildRetxPdu
    dsimp only
    rw [hnil]
    exact ⟨_, _, _, _, _, _, _, rfl⟩
  · rcases tx.buildRetxPdu_cases nofBytes hqueue hpdu with ⟨-, h⟩ | ⟨-, h⟩ | ⟨-, h⟩
    · rw [h]
      exact ⟨_, _, _, _, _, _, _, rfl⟩
    · obtain ⟨p, b, k, t, hfst⟩ := tx.dropStale.resendPdu_fst pdu retx
      rw [h]
      dsimp only
      rw [hfst]
      exact ⟨_, _, _, _, _, _, _, rfl⟩
    · obtain ⟨p, b, k, t, q, hfst⟩ := tx.dropStale.buildSegment_fst nofBytes pdu retx
      rw [h]
      dsimp only
      rw [hfst]
      exact ⟨_, _, _, _, _, _, _, rfl⟩

theorem frame_retransmit :
    (tx.retransmit nofBytes).1.vtS = tx.vtS ∧ (tx.retransmit nofBytes).1.vtA = tx.vtA ∧
      (tx.retransmit nofBytes).1.cfg = tx.cfg ∧ (tx.retransmit nofBytes).1.txSdu = tx.txSdu ∧
      (tx.retransmit nofBytes).1.txSduQueue = tx.txSduQueue := by
  obtain ⟨p, b, k, t, q, w, m, h⟩ := tx.retransmit_fst nofBytes
  rw [h]
  exact ⟨rfl, rfl, rfl, rfl, rfl⟩

def SendsData (rx : RlcAmRx) : Prop := tx.txEnabled = true ∧ tx.statusDue rx = false

instance (rx : RlcAmRx) : Decidable (tx.SendsData rx) := inferInstanceAs (Decidable (_ ∧ _))

theorem readPdu_of_not_sendsData {rx : RlcAmRx} (h : ¬ tx.SendsData rx) :
    ∃ t, (tx.readPdu rx rand nofBytes).1 = { tx with statusProhibitTimer := t } ∧
      ((tx.readPdu rx rand nofBytes).2.2 = .none ∨
        (rx.getStatusPdu nofBytes).packedLength ≤ nofBytes ∧
          (tx.readPdu rx rand nofBytes).2.2 =
            { RlcAmOutput.none with pdu := (rx.getStatusPdu nofBytes).write }) := by
  unfold readPdu
  by_cases hen : tx.txEnabled
  · have hdue : tx.statusDue rx = true := by
      by_contra hdue
      exact h ⟨hen, Bool.eq_false_of_not_eq_true hdue⟩
    rw [if_neg (by simpa using hen), if_pos hdue]
    unfold buildStatusPdu
    dsimp only
    by_cases hfit : nofBytes ≥ (rx.getStatusPdu nofBytes).packedLength
    · rw [if_pos hfit]
      dsimp only
      split_ifs
      · exact ⟨_, rfl, Or.inr ⟨hfit, rfl⟩⟩
      · exact ⟨tx.statusProhibitTimer, rfl, Or.inr ⟨hfit, rfl⟩⟩
    · rw [if_neg hfit]
      exact ⟨tx.statusProhibitTimer, rfl, Or.inl rfl⟩
  · rw [if_pos (by simpa using hen)]
    exact ⟨tx.statusProhibitTimer, rfl, Or.inl rfl⟩

theorem readPdu_of_sendsData {rx : RlcAmRx} (h : tx.SendsData rx) :
    (((tx.scheduleRetx rand).retransmit nofBytes).2.pdu ≠ [] ∧
      tx.readPdu rx rand nofBytes = (((tx.scheduleRetx rand).retransmit nofBytes).1, rx,
        ((tx.scheduleRetx rand).retransmit nofBytes).2)) ∨
    (((tx.scheduleRetx rand).retransmit nofBytes).2.pdu = [] ∧
      tx.readPdu rx rand nofBytes =
        ((((tx.scheduleRetx rand).retransmit nofBytes).1.buildDataPdu nofBytes).1, rx,
          { (((tx.scheduleRetx rand).retransmit nofBytes).1.buildDataPdu nofBytes).2 with
            underflow := ((tx.scheduleRetx rand).retransmit nofBytes).2.underflow ||
              (((tx.scheduleRetx rand).retransmit nofBytes).1.buildDataPdu nofBytes).2.underflow
          })) := by
  unfold readPdu
  rw [if_neg (by simpa using h.1), if_neg (by simp [h.2])]
  dsimp only
  by_cases hempty : ((tx.scheduleRetx rand).retransmit nofBytes).2.pdu = []
  · rw [if_neg (by rw [hempty]; decide)]
    exact Or.inr ⟨hempty, rfl⟩
  · rw [if_pos (List.length_pos_iff.mpr hempty)]
    exact Or.inl ⟨hempty, rfl⟩

@[simp]
theorem txWindow_scheduleRetx : (tx.scheduleRetx rand).txWindow = tx.txWindow := by
  unfold scheduleRetx
  split_ifs <;> simp

theorem scheduleRetx_eq : ∃ q, tx.scheduleRetx rand = { tx with retxQueue := q } := by
  unfold scheduleRetx
  split_ifs
  · exact tx.retransmitRandomPdu_queue rand
  · exact ⟨tx.retxQueue, rfl⟩

theorem pollRetxTimerExpired_eq : ∃ queue, tx.pollRetxTimerExpired rand =
    { tx with pollRetxTimer := .expired, retxQueue := queue } := by
  unfold pollRetxTimerExpired
  dsimp only
  split_ifs
  · exact ({ tx with pollRetxTimer := .expired } : RlcAmTx).retransmitRandomPdu_queue rand
  · exact ⟨tx.retxQueue, rfl⟩

theorem controlLoop_induction {P : RlcAmTx → Prop} {status : RlcStatusPdu}
    (hack : ∀ tx sn u, P tx → P (tx.handleAck sn u))
    (hnack : ∀ tx, ∀ nack ∈ status.nacks, P tx → P (tx.handleNack nack)) (fuel i : ℕ) (u : Bool)
    {tx : RlcAmTx} (h : P tx) : P (controlLoop status fuel i u tx) := by
  induction fuel generalizing i u tx with
  | zero => exact h
  | succ fuel ih =>
    unfold controlLoop
    dsimp only
    split_ifs
    · exact ih _ _ (hack tx i u h)
    · apply ih
      exact List.foldlRecOn _ _ h fun tx htx nack hmem =>
        hnack tx nack (List.mem_of_mem_filter hmem) htx
    · exact h

theorem handleControlPdu_induction {P : RlcAmTx → Prop} {status : RlcStatusPdu}
    (hack : ∀ tx sn u, P tx → P (tx.handleAck sn u))
    (hnack : ∀ tx, ∀ nack ∈ status.nacks, P tx → P (tx.handleNack nack))
    (hstart : ∀ t, ∀ q ⊆ tx.retxQueue, P { tx with pollRetxTimer := t, retxQueue := q }) :
    P (tx.handleControlPdu status) := by
  unfold handleControlPdu
  dsimp only
  split_ifs
  · exact controlLoop_induction hack hnack _ _ _ (hstart _ _ (List.nil_subset _))
  · exact controlLoop_induction hack hnack _ _ _ (hstart _ tx.retxQueue (List.Subset.refl _))

theorem handleNack_eq (nack : RlcStatusNack) :
    tx.handleNack nack = tx ∨ ∃ pdu, tx.txWindow.find? nack.nackSn = some pdu ∧
      tx.retxQueueHasSn nack.nackSn = false ∧ tx.handleNack nack =
        { tx with retxQueue := tx.retxQueue ++ [retxOfNack pdu.buf.length nack] } := by
  unfold handleNack
  cases hfind : tx.txWindow.find? nack.nackSn with
  | none => exact Or.inl rfl
  | some pdu =>
    dsimp only
    cases hhas : tx.retxQueueHasSn nack.nackSn with
    | true => exact Or.inl rfl
    | false => exact Or.inr ⟨pdu, rfl, rfl, rfl⟩

theorem handleAck_eq (sn : ℕ) (u : Bool) :
    tx.handleAck sn u = tx ∨ u = true ∧ (∃ pdu, tx.txWindow.find? sn = some pdu) ∧
      tx.handleAck sn u =
        { tx with
          txWindow := tx.txWindow.erase sn
          vtA := (tx.vtA + 1) % rlcAmMod
          vtMs := (tx.vtMs + 1) % rlcAmMod } := by
  unfold handleAck
  cases hfind : tx.txWindow.find? sn with
  | none => exact Or.inl rfl
  | some pdu =>
    dsimp only
    cases u with
    | false => exact Or.inl rfl
    | true => exact Or.inr ⟨rfl, ⟨pdu, rfl⟩, rfl⟩

structure Inv : Prop where
  window : ∀ {sn pdu}, tx.txWindow.find? sn = some pdu → Placed sn pdu
  keys : ∀ {sn pdu}, tx.txWindow.find? sn = some pdu → sn < rlcAmMod
  vtS : tx.vtS < rlcAmMod
  vtA : tx.vtA < rlcAmMod

variable {tx} {tx' : RlcAmTx}

theorem inv_of_empty (hwindow : tx.txWindow = OrderedMap.empty) (hs : tx.vtS = 0)
    (ha : tx.vtA = 0) : tx.Inv where
  window h := by simp [hwindow] at h
  keys h := by simp [hwindow] at h
  vtS := by rw [hs]; decide
  vtA := by rw [ha]; decide

theorem Inv.congr (h : tx.Inv) (hwindow : tx'.txWindow = tx.txWindow) (hs : tx'.vtS = tx.vtS)
    (ha : tx'.vtA = tx.vtA) : tx'.Inv where
  window hfind := h.window (hwindow ▸ hfind)
  keys hfind := h.keys (hwindow ▸ hfind)
  vtS := hs ▸ h.vtS
  vtA := ha ▸ h.vtA

theorem Inv.insert (h : tx.Inv) {sn : ℕ} {pdu : RlcAmdTxPdu} (hsn : sn < rlcAmMod)
    (hpdu : Placed sn pdu) (hwindow : tx'.txWindow = tx.txWindow.insert sn pdu)
    (hs : tx'.vtS < rlcAmMod) (ha : tx'.vtA = tx.vtA) : tx'.Inv where
  window {k q} hfind := by
    rw [hwindow, OrderedMap.find?_insert] at hfind
    split_ifs at hfind with heq
    · rw [heq, ← Option.some.inj hfind]
      exact hpdu
    · exact h.window hfind
  keys {k q} hfind := by
    rw [hwindow, OrderedMap.find?_insert] at hfind
    split_ifs at hfind with heq
    · rw [heq]
      exact hsn
    · exact h.keys hfind
  vtS := hs
  vtA := ha ▸ h.vtA

theorem Placed.recount {sn count : ℕ} {pdu : RlcAmdTxPdu} (h : Placed sn pdu) :
    Placed sn { pdu with retxCount := count } :=
  ⟨h.sn, h.whole, h.lengthLi, h.sumLi, h.nonempty, h.bounded⟩

theorem Inv.retransmit (h : tx.Inv) : (tx.retransmit nofBytes).1.Inv := by
  obtain ⟨hs, ha, -⟩ := tx.frame_retransmit nofBytes
  rcases tx.retransmit_cases nofBytes with ⟨-, hw, -⟩ | ⟨retx, rest, pdu, -, hpdu, -, hcase⟩
  · exact h.congr hw hs ha
  · rcases hcase with ⟨-, -, hw, -⟩ | ⟨-, hw, -⟩
    · exact h.congr hw hs ha
    · exact h.insert (h.keys hpdu) (h.window hpdu).recount hw (hs ▸ h.vtS) ha

theorem vtS_buildDataPdu_lt (h : tx.vtS < rlcAmMod) :
    (tx.buildDataPdu nofBytes).1.vtS < rlcAmMod := by
  rcases tx.buildDataPdu_cases nofBytes with heq | heq | ⟨-, -, heq⟩
  · rw [heq]
    exact h
  · rw [heq]
    exact h
  · rw [heq]
    exact Nat.mod_lt _ (by decide)

theorem Inv.buildDataPdu (h : tx.Inv) : (tx.buildDataPdu nofBytes).1.Inv := by
  have hs := vtS_buildDataPdu_lt nofBytes h.vtS
  have ha := tx.vtA_buildDataPdu nofBytes
  rcases tx.txWindow_buildDataPdu nofBytes with ⟨hw, -⟩ | ⟨pdu, hpdu, -, hw, -⟩
  · exact ⟨fun hfind => h.window (hw ▸ hfind), fun hfind => h.keys (hw ▸ hfind), hs, ha ▸ h.vtA⟩
  · exact h.insert h.vtS hpdu hw hs ha

theorem Inv.readPdu (h : tx.Inv) (rx : RlcAmRx) : (tx.readPdu rx rand nofBytes).1.Inv := by
  by_cases hdata : tx.SendsData rx
  · obtain ⟨q, hq⟩ := tx.scheduleRetx_eq rand
    have hstart : (tx.scheduleRetx rand).Inv := by
      rw [hq]
      exact h.congr rfl rfl rfl
    rcases tx.readPdu_of_sendsData rand nofBytes hdata with ⟨-, heq⟩ | ⟨-, heq⟩
    · rw [heq]
      exact hstart.retransmit nofBytes
    · rw [heq]
      exact (hstart.retransmit nofBytes).buildDataPdu nofBytes
  · obtain ⟨t, heq, -⟩ := tx.readPdu_of_not_sendsData rand nofBytes hdata
    rw [heq]
    exact h.congr rfl rfl rfl

theorem Inv.handleAck (h : tx.Inv) (sn : ℕ) (u : Bool) : (tx.handleAck sn u).Inv := by
  rcases tx.handleAck_eq sn u with heq | ⟨-, -, heq⟩
  · rw [heq]
    exact h
  · rw [heq]
    refine ⟨fun {k q} hfind => ?_, fun {k q} hfind => ?_, h.vtS, Nat.mod_lt _ (by decide)⟩
    · rw [OrderedMap.find?_erase] at hfind
      split_ifs at hfind
      exact h.window hfind
    · rw [OrderedMap.find?_erase] at hfind
      split_ifs at hfind
      exact h.keys hfind

theorem Inv.handleControlPdu (h : tx.Inv) (status : RlcStatusPdu) :
    (tx.handleControlPdu status).Inv := by
  refine tx.handleControlPdu_induction (fun tx sn u h => h.handleAck sn u) (fun tx nack _ h => ?_)
    (fun t q _ => h.congr rfl rfl rfl)
  rcases tx.handleNack_eq nack with heq | ⟨pdu, -, -, heq⟩
  · rw [heq]
    exact h
  · rw [heq]
    exact h.congr rfl rfl rfl

theorem neededForRetx_fst (tx : RlcAmTx) :
    ∃ queue ⊆ tx.retxQueue, tx.neededForRetx.1 = { tx with retxQueue := queue } := by
  have hsame : ∃ queue ⊆ tx.retxQueue, tx = { tx with retxQueue := queue } :=
    ⟨_, List.Subset.refl _, rfl⟩
  unfold neededForRetx
  split
  · exact hsame
  · next retx rest hqueue =>
    split
    · exact hsame
    · dsimp only
      split_ifs
      · exact ⟨rest, hqueue ▸ List.subset_cons_self retx rest, rfl⟩
      · exact hsame

theorem Inv.neededForRetx (h : tx.Inv) : tx.neededForRetx.1.Inv := by
  obtain ⟨queue, -, heq⟩ := tx.neededForRetx_fst
  rw [heq]
  exact h.congr rfl rfl rfl

theorem Inv.step (h : tx.Inv) (e : Event) : (tx.step e).Inv := by
  cases e with
  | writeSdu sdu =>
    change (tx.writeSdu sdu).Inv
    unfold writeSdu
    split_ifs
    · exact h.congr rfl rfl rfl
    · exact h
  | readPdu rx rand nofBytes => exact h.readPdu rand nofBytes rx
  | getBufferState rx => exact h.neededForRetx
  | handleControlPdu status => exact h.handleControlPdu status
  | pollRetxTimerExpired rand =>
    change (tx.pollRetxTimerExpired rand).Inv
    obtain ⟨queue, heq⟩ := tx.pollRetxTimerExpired_eq rand
    rw [heq]
    exact h.congr rfl rfl rfl
  | statusProhibitTimerExpired | emptyQueue => exact h.congr rfl rfl rfl
  | stop => exact inv_of_empty rfl rfl rfl
  | reestablish => exact inv_of_empty rfl rfl rfl

theorem inv_run (cfg : RlcAmConfig) (events : List Event) :
    (events.foldl step (configure cfg)).Inv := by
  have hstart : (configure cfg).Inv := inv_of_empty rfl rfl rfl
  exact List.foldlRecOn events _ hstart fun tx htx e _ => htx.step e

end RlcAmTx
end SrsLte
