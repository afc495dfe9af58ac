import Mathlib.Data.List.TakeWhile
import SrsLte.RlcAmBufferState

/-!
# Sufficiency of buffer states

Grants of the sizes that `get_buffer_state` reports drain the transmitters of both RLC modes along
every run in which each state can be reported.
-/

namespace SrsLte
namespace RlcAmTx

variable {tx : RlcAmTx} {rx : RlcAmRx} {rand nofBytes : ℕ}

def NothingLeft (tx : RlcAmTx) : Prop := tx.pendingRetx = [] ∧ tx.sdus = []

def retxWeight (retx : RlcAmdRetx) : ℕ :=
  if retx.isSegment then retx.soEnd - retx.soStart + 1 else 1

def queueWeight (window : OrderedMap ℕ RlcAmdTxPdu) (queue : List RlcAmdRetx) : ℕ :=
  ((queue.filter fun r => (window.find? r.sn).isSome).map retxWeight).sum

def weight (tx : RlcAmTx) : ℕ := queueWeight tx.txWindow tx.retxQueue + sduWeight tx.sdus

/-- The transmitter granted what it reports next to the receiver, with the values of `rand()`. -/
def granting (rx : RlcAmRx) (rand : ℕ → ℕ) : Granting RlcAmTx UInt8 where
  report tx := tx.getBufferState rx
  serve i tx nofBytes :=
    ((tx.readPdu rx (rand i) nofBytes).1, (tx.readPdu rx (rand i) nofBytes).2.2.pdu)
  Done := NothingLeft

/-- If only SDUs are left, they have bytes and the window is not full. A retransmission that is
left stands in front, and if it is a segment, it is not empty and its grant moves it. -/
structure Reportable (tx : RlcAmTx) : Prop where
  small : tx.waiting < 2 ^ 29
  new : tx.pendingRetx = [] → tx.sdus ≠ [] →
    0 < (tx.sdus.map List.length).sum ∧ tx.windowSize < rlcAmWindowSize
  retx : tx.pendingRetx ≠ [] → ∃ retx pdu, tx.retxQueue.head? = some retx ∧
    tx.txWindow.find? retx.sn = some pdu ∧ (retx.isSegment = true → retx.soStart < retx.soEnd ∧
      SegmentMoves (retxRoom pdu retx + tx.waiting) pdu.header.li.length)

theorem neededForRetx_of_nil (h : tx.pendingRetx = []) : tx.neededForRetx = (tx, 0) := by
  unfold neededForRetx
  cases hqueue : tx.retxQueue with
  | nil => rfl
  | cons retx rest =>
    have hstale : tx.txWindow.find? retx.sn = none := by
      rw [pendingRetx, hqueue, List.filter_eq_nil_iff] at h
      simpa using h retx List.mem_cons_self
    dsimp only
    rw [hstale]

theorem dropStale_of_nil (h : tx.pendingRetx = []) : tx.dropStale.retxQueue = [] := by
  rw [pendingRetx, List.filter_eq_nil_iff] at h
  refine List.dropWhile_eq_nil_iff.mpr fun r hr => ?_
  simpa using h r hr

theorem sduRoom_pos (h : 0 < (tx.sdus.map List.length).sum) : 0 < sduRoom tx.sdus :=
  h.trans_le (Nat.le_add_right _ _)

theorem readPdu_new (hsends : tx.SendsData rx) (h : tx.pendingRetx = [])
    (hbytes : 0 < (tx.sdus.map List.length).sum) (hwindow : tx.windowSize < rlcAmWindowSize)
    (hspace : min nofBytes bufferTailroom > AmdPduHeader.packedLength false 0 + 1) :
    (tx.readPdu rx rand nofBytes).2.2.pdu ≠ [] ∧
      (tx.readPdu rx rand nofBytes).1.weight < tx.weight := by
  have hschedule : tx.scheduleRetx rand = tx :=
    if_neg fun hfull => absurd hfull.1 (Nat.not_le.mpr hwindow)
  have hretx : tx.retransmit nofBytes = (tx.dropStale, .none) := by
    rw [retransmit_eq]
    unfold buildRetxPdu
    dsimp only
    rw [dropStale_of_nil h]
  have hdata := @buildDataPdu_sends nofBytes tx.dropStale hwindow hbytes hspace
  rcases tx.readPdu_of_sendsData rand nofBytes hsends with ⟨hne, -⟩ | ⟨-, heq⟩
  · rw [hschedule, hretx] at hne
    exact absurd rfl hne
  · rw [hschedule, hretx] at heq
    rw [heq]
    refine ⟨hdata.1, ?_⟩
    rw [weight, weight, retxQueue_buildDataPdu, dropStale_of_nil h]
    exact (Nat.zero_add _).trans_lt (hdata.2.trans_le (Nat.le_add_left _ _))

section

variable {window : OrderedMap ℕ RlcAmdTxPdu} {retx : RlcAmdRetx} {rest : List RlcAmdRetx}

theorem queueWeight_cons (h : (window.find? retx.sn).isSome = true) :
    queueWeight window (retx :: rest) = retxWeight retx + queueWeight window rest := by
  have hfilter : (retx :: rest).filter (fun r => (window.find? r.sn).isSome) =
      retx :: rest.filter fun r => (window.find? r.sn).isSome := List.filter_cons_of_pos h
  rw [queueWeight, hfilter, List.map_cons, List.sum_cons]
  rfl

theorem queueWeight_insert {sn : ℕ} (h : (window.find? sn).isSome = true) (pdu : RlcAmdTxPdu)
    (queue : List RlcAmdRetx) :
    queueWeight (window.insert sn pdu) queue = queueWeight window queue := by
  have hkeys (r : RlcAmdRetx) :
      ((window.insert sn pdu).find? r.sn).isSome = (window.find? r.sn).isSome := by
    rw [OrderedMap.find?_insert]
    split_ifs with hsn
    · rw [hsn, h]
      rfl
    · rfl
  simp only [queueWeight, hkeys]

theorem retxWeight_pos (retx : RlcAmdRetx) : 0 < retxWeight retx := by
  unfold retxWeight
  split_ifs
  · exact Nat.succ_pos _
  · exact Nat.one_pos

theorem queueWeight_updateRetxQueue {nBytes soEnd : ℕ}
    (hpdu : (window.find? retx.sn).isSome = true) (hsegment : retx.isSegment = true)
    (hstart : retx.soStart < soEnd) (hend : soEnd ≤ retx.soEnd) :
    queueWeight window (updateRetxQueue (retx :: rest) nBytes soEnd) <
      queueWeight window (retx :: rest) := by
  have hpos := retxWeight_pos retx
  rw [queueWeight_cons hpdu]
  unfold updateRetxQueue
  dsimp only
  split_ifs
  · omega
  · omega
  · rw [queueWeight_cons (by exact hpdu)]
    refine Nat.add_lt_add_right ?_ _
    rw [retxWeight, retxWeight, if_pos rfl, if_pos hsegment]
    dsimp only
    omega

end

theorem readPdu_retx (hreached : tx.Reached) (hdue : tx.statusDue rx = false)
    {retx : RlcAmdRetx} {pdu : RlcAmdTxPdu} {rest : List RlcAmdRetx} {room : ℕ}
    (hqueue : tx.retxQueue = retx :: rest) (hpdu : tx.txWindow.find? retx.sn = some pdu)
    (hgrant : nofBytes < 2 ^ 31)
    (hwhole : retx.isSegment = false → (requiredBufferSize pdu retx).1 ≤ nofBytes)
    (hmoves : retx.isSegment = true → retx.soStart < retx.soEnd ∧ 0 < room ∧
      nofBytes = AmdPduHeader.packedLength true 0 + room ∧
      SegmentMoves room pdu.header.li.length) :
    (tx.readPdu rx rand nofBytes).2.2.pdu ≠ [] ∧
      (tx.readPdu rx rand nofBytes).1.weight < tx.weight := by
  have hplaced := hreached.inv.window hpdu
  have hsoEnd : retx.soEnd < soEndLimit := hreached.bounded retx (by rw [hqueue]; simp)
  have hlimit : soEndLimit = 2 ^ 30 := rfl
  have hsends : tx.SendsData rx := ⟨hreached.live.txEnabled hpdu, hdue⟩
  have hschedule : tx.scheduleRetx rand = tx :=
    if_neg fun hfull => by
      rw [hqueue] at hfull
      exact absurd hfull.2 (List.cons_ne_nil _ _)
  have hdrop : tx.dropStale = tx := by
    rw [dropStale, hqueue, List.dropWhile_cons_of_neg (by simp [hpdu]), ← hqueue]
  have hsome : (tx.txWindow.find? retx.sn).isSome = true := by
    rw [hpdu]
    rfl
  -- What is sent instead of new data.
  have hsent : (tx.retransmit nofBytes).2.pdu ≠ [] ∧
      (tx.retransmit nofBytes).1.weight < tx.weight := by
    rw [retransmit_eq]
    rcases tx.buildRetxPdu_cases nofBytes (by rw [hdrop, hqueue]) hpdu with
      ⟨hneg, -⟩ | ⟨hresends, heq⟩ | ⟨⟨-, hnot⟩, heq⟩
    · have hnonneg := requiredBufferSize_nonneg (fun hsegment => (hmoves hsegment).1.le)
        (hlimit ▸ hsoEnd) (by have := hplaced.sumLi; have := hplaced.lt_soEndLimit; omega)
        hplaced.lengthLi
      exact absurd hnonneg.1 (not_le.mpr hneg)
    · obtain ⟨p, b, k, t, hfst⟩ := tx.resendPdu_fst pdu retx
      rw [heq, hdrop]
      refine ⟨tx.pdu_resendPdu_ne_nil pdu retx, ?_⟩
      dsimp only
      rw [hfst]
      have hpos := retxWeight_pos retx
      rw [weight, weight, queueWeight_insert hsome, hqueue, List.tail_cons,
        queueWeight_cons hsome]
      change queueWeight tx.txWindow rest + sduWeight tx.sdus < _
      omega
    · have hsegment : retx.isSegment = true := by
        by_contra hwhole'
        rw [Bool.not_eq_true] at hwhole'
        refine hnot ⟨hwhole', ?_⟩
        rw [Word.toInt32_of_lt hgrant]
        exact hwhole hwhole'
      obtain ⟨hstart, hpos, rfl, hmove⟩ := hmoves hsegment
      obtain ⟨hlarge, hlo, hhi⟩ := rebuild_moves hpos hgrant hmove hstart (by omega)
        hplaced.lengthLi
      rw [heq, hdrop]
      refine ⟨?_, ?_⟩
      · dsimp only
        rw [Ne, pdu_buildSegment_eq_nil_iff]
        exact Nat.not_le.mpr hlarge
      · have hrange : range pdu retx = retx := if_pos hsegment
        dsimp only
        unfold buildSegment
        dsimp only
        rw [if_neg (Nat.not_le.mpr hlarge), hrange]
        obtain ⟨p, b, k, t, hfst⟩ :=
          tx.setPollBit_fst (pdu.buf.length + AmdPduHeader.packedLength false 0)
        rw [hfst]
        dsimp only
        rw [weight, weight, hqueue]
        exact Nat.add_lt_add_right (queueWeight_updateRetxQueue hsome hsegment hlo hhi) _
  rcases tx.readPdu_of_sendsData rand nofBytes hsends with ⟨-, heq⟩ | ⟨hempty, -⟩
  · rw [hschedule] at heq
    rw [heq]
    exact hsent
  · rw [hschedule] at hempty
    exact absurd hempty hsent.1

def Granted (rx : RlcAmRx) (tx : RlcAmTx) : Prop := tx.Reached ∧ tx.statusDue rx = false

section

variable (h : Granted rx tx)
include h

theorem Granted.readPdu (hsends : tx.SendsData rx) :
    Granted rx (tx.readPdu rx rand nofBytes).1 := by
  refine ⟨h.1.step (.readPdu rx rand nofBytes), ?_⟩
  rw [statusDue, (frame_readPdu hsends rand nofBytes).2]
  exact h.2

theorem getBufferState_of_nothingLeft (hdone : tx.NothingLeft) :
    tx.getBufferState rx = (tx, 0) := by
  have hretx := neededForRetx_of_nil hdone.1
  refine Prod.ext (by rw [getBufferState_fst, hretx]) ?_
  rw [getBufferState_snd h.2 fun hsdus => absurd hdone.2 hsdus, hretx, waiting,
    if_pos (Or.inl hdone.2)]

theorem next_of_nothingLeft (hdone : tx.NothingLeft) (rand : ℕ → ℕ) (i : ℕ) :
    (granting rx rand).next i tx = tx := by
  unfold Granting.next
  change (if (tx.getBufferState rx).2 = 0 then (tx.getBufferState rx).1 else _) = tx
  rw [getBufferState_of_nothingLeft h hdone, if_pos rfl]

theorem advances_done (hdone : tx.NothingLeft) (rand : ℕ → ℕ) (i : ℕ) :
    (granting rx rand).Advances weight i tx ∧ Granted rx ((granting rx rand).next i tx) := by
  refine ⟨⟨iff_of_true ?_ hdone, fun hnot => absurd hdone hnot, fun hnot => absurd hdone hnot⟩, ?_⟩
  · exact congrArg Prod.snd (getBufferState_of_nothingLeft h hdone)
  · rw [next_of_nothingLeft h hdone]
    exact h

theorem advances_of_report (hleft : ¬ tx.NothingLeft) {g : ℕ} (hg : g ≠ 0)
    (hreport : tx.getBufferState rx = (tx, g)) (hsends : tx.SendsData rx) (rand : ℕ → ℕ) (i : ℕ)
    (hread : (tx.readPdu rx (rand i) g).2.2.pdu ≠ [] ∧
      (tx.readPdu rx (rand i) g).1.weight < tx.weight) :
    (granting rx rand).Advances weight i tx ∧ Granted rx ((granting rx rand).next i tx) := by
  have hnext : (granting rx rand).next i tx = (tx.readPdu rx (rand i) g).1 := by
    unfold Granting.next
    change (if (tx.getBufferState rx).2 = 0 then _ else
      ((tx.getBufferState rx).1.readPdu rx (rand i) (tx.getBufferState rx).2).1) = _
    rw [hreport, if_neg hg]
  refine ⟨⟨iff_of_false ?_ hleft, fun _ => ?_, fun _ => ?_⟩, ?_⟩
  · change (tx.getBufferState rx).2 ≠ 0
    rw [hreport]
    exact hg
  · change ((tx.getBufferState rx).1.readPdu rx (rand i) (tx.getBufferState rx).2).2.2.pdu ≠ []
    rw [hreport]
    exact hread.1
  · rw [hnext]
    exact hread.2
  · rw [hnext]
    exact h.readPdu hsends

theorem advances_new (hready : tx.Reportable) (hpending : tx.pendingRetx = [])
    (hsdus : tx.sdus ≠ []) (rand : ℕ → ℕ) (i : ℕ) :
    (granting rx rand).Advances weight i tx ∧ Granted rx ((granting rx rand).next i tx) := by
  obtain ⟨hbytes, hwindow⟩ := hready.new hpending hsdus
  have hpos := sduRoom_pos hbytes
  have hretx := neededForRetx_of_nil hpending
  have hsize : rlcAmWindowSize = 512 := rfl
  have htailroom : bufferTailroom = 12237 := rfl
  have hfixed : AmdPduHeader.packedLength false 0 = 2 := rfl
  have hreport : tx.getBufferState rx = (tx, sduRoom tx.sdus + 3) := by
    refine Prod.ext (by rw [getBufferState_fst, hretx]) ?_
    rw [getBufferState_snd h.2 fun _ => Nat.add_pos_right _ hpos, hretx, waiting,
      if_neg (not_or.mpr ⟨hsdus, by omega⟩), Nat.zero_add]
  have hsends : tx.SendsData rx :=
    ⟨h.1.live.resolve_right fun hidle => hsdus hidle.2.2, h.2⟩
  exact advances_of_report h (fun hnothing => hsdus hnothing.2) (Nat.succ_ne_zero _) hreport hsends
    rand i (readPdu_new hsends hpending hbytes hwindow (by omega))

theorem advances_retx (hready : tx.Reportable)
    (hpending : tx.pendingRetx ≠ []) (rand : ℕ → ℕ) (i : ℕ) :
    (granting rx rand).Advances weight i tx ∧ Granted rx ((granting rx rand).next i tx) := by
  obtain ⟨retx, pdu, hhead, hpdu, hsegment⟩ := hready.retx hpending
  obtain ⟨rest, hqueue⟩ := List.head?_eq_some_iff.mp hhead
  have hsmall := hready.small
  have hplaced := h.1.inv.window hpdu
  have hsoEnd : retx.soEnd < soEndLimit := h.1.bounded retx (by rw [hqueue]; simp)
  have hlimit : soEndLimit = 2 ^ 30 := rfl
  have htailroom : bufferTailroom = 12237 := rfl
  have hsize : rlcAmWindowSize = 512 := rfl
  have hbuf := hplaced.bounded
  have hmax : AmdPduHeader.packedLength true rlcAmWindowSize = 772 := rfl
  have hfixed : AmdPduHeader.packedLength true 0 = 4 := rfl
  -- The size of the retransmission, and that it is small.
  obtain ⟨size, hreq, hpos, hlt⟩ : ∃ size : ℕ, (requiredBufferSize pdu retx).1 = size ∧ 0 < size ∧
      size < 2 ^ 30 + 772 := by
    cases hwhole : retx.isSegment with
    | false =>
      have hpacked := packedLength_mono pdu.header.rf hplaced.lengthLi
      have hfalse : AmdPduHeader.packedLength pdu.header.rf rlcAmWindowSize ≤ 772 := by
        rw [hplaced.whole]
        decide
      refine ⟨_, by rw [requiredBufferSize, if_pos (by rw [hwhole]; decide)], ?_, ?_⟩
      · exact Nat.add_pos_right _ hplaced.nonempty
      · omega
    | true =>
      have hle := (hsegment hwhole).1
      refine ⟨_, requiredBufferSize_segment hwhole hle.le (hlimit ▸ hsoEnd) hplaced.lengthLi, ?_,
        ?_⟩
      · omega
      · have hcount := meeting_le retx.soStart retx.soEnd 0 pdu.header.li
        have hpacked := packedLength_mono true (hcount.trans hplaced.lengthLi)
        have hsum : AmdPduHeader.packedLength true
            (meeting retx.soStart retx.soEnd 0 pdu.header.li) =
              AmdPduHeader.packedLength true 0 + LengthIndicators.length
                (meeting retx.soStart retx.soEnd 0 pdu.header.li) := rfl
        rw [retxRoom]
        omega
  have hneeded : tx.neededForRetx = (tx, size) := by
    unfold neededForRetx
    rw [hqueue]
    dsimp only
    rw [hpdu]
    dsimp only
    rw [hreq, if_neg (not_lt.mpr (Int.natCast_nonneg _)), Int.toNat_natCast]
  have hreport : tx.getBufferState rx = (tx, size + tx.waiting) := by
    refine Prod.ext (by rw [getBufferState_fst, hneeded]) ?_
    rw [getBufferState_snd h.2 (by rw [hneeded]; exact fun _ => Nat.add_pos_left hpos _), hneeded]
  refine advances_of_report h (fun hnothing => hpending hnothing.1) (by omega) hreport
    ⟨h.1.live.txEnabled hpdu, h.2⟩ rand i ?_
  refine @readPdu_retx tx rx (rand i) (size + tx.waiting) h.1 h.2 retx pdu rest
    (retxRoom pdu retx + tx.waiting) hqueue hpdu (by omega) (fun _ => ?_) (fun hseg => ?_)
  · rw [hreq]
    exact_mod_cast Nat.le_add_right _ _
  · obtain ⟨hlt', hmoves⟩ := hsegment hseg
    have hexact := requiredBufferSize_segment hseg hlt'.le (hlimit ▸ hsoEnd) hplaced.lengthLi
    rw [hreq, Int.natCast_inj] at hexact
    refine ⟨hlt', ?_, by omega, hmoves⟩
    rw [retxRoom]
    omega

theorem advances (hready : tx.Reportable) (rand : ℕ → ℕ) (i : ℕ) :
    (granting rx rand).Advances weight i tx ∧ Granted rx ((granting rx rand).next i tx) := by
  by_cases hpending : tx.pendingRetx = []
  · by_cases hsdus : tx.sdus = []
    · exact advances_done h ⟨hpending, hsdus⟩ rand i
    · exact advances_new h hready hpending hsdus rand i
  · exact advances_retx h hready hpending rand i

theorem drains_of_reportable (rand : ℕ → ℕ)
    (hready : ∀ i, ((granting rx rand).after tx i).Reportable) : (granting rx rand).Drains tx :=
  Granting.drains_of_ready h hready fun i _ ht hready => advances ht hready rand i

end

end RlcAmTx

/-- A transmitter of acknowledged mode after the events, next to a receiver and with the values of
`rand()` to come, or a transmitter of unacknowledged mode. -/
inductive RlcBearer
  | am (cfg : RlcAmConfig) (events : List RlcAmTx.Event) (rx : RlcAmRx) (rand : ℕ → ℕ)
  | um (mrb : Bool) (tx : RlcUmTx)

namespace RlcBearer

def NoStatus : RlcBearer → Prop
  | am cfg events rx _ =>
    (events.foldl RlcAmTx.step (RlcAmTx.configure cfg)).statusDue rx = false
  | um _ _ => True

def Reportable : RlcBearer → Prop
  | am cfg events rx rand => ∀ i, ((RlcAmTx.granting rx rand).after
      (events.foldl RlcAmTx.step (RlcAmTx.configure cfg)) i).Reportable
  | um mrb tx => ∀ i, ((RlcUmTx.granting mrb).after tx i).Reportable mrb

/-- The reports are zero exactly when nothing is left, and their grants are used and leave nothing
in the end. -/
def Drains : RlcBearer → Prop
  | am cfg events rx rand =>
    (RlcAmTx.granting rx rand).Drains (events.foldl RlcAmTx.step (RlcAmTx.configure cfg))
  | um mrb tx => (RlcUmTx.granting mrb).Drains tx

def oneSdu : RlcAmTx :=
  [RlcAmTx.Event.writeSdu [0]].foldl RlcAmTx.step (RlcAmTx.configure RlcAmTx.noPolling)

theorem reportable_oneSdu (i : ℕ) :
    ((RlcAmTx.granting (RlcAmRx.init []) fun _ => 0).after oneSdu i).Reportable := by
  have hready : oneSdu.Reportable := ⟨by decide, fun _ _ => by decide, fun h => absurd rfl h⟩
  have hgranted : RlcAmTx.Granted (RlcAmRx.init [])
      ((RlcAmTx.granting (RlcAmRx.init []) fun _ => 0).after oneSdu 1) :=
    (RlcAmTx.advances ⟨RlcAmTx.reached_run RlcAmTx.noPolling _, rfl⟩ hready (fun _ => 0) 0).2
  have hdone : ((RlcAmTx.granting (RlcAmRx.init []) fun _ => 0).after oneSdu 1).NothingLeft :=
    ⟨by decide, by decide⟩
  rcases Nat.eq_zero_or_pos i with rfl | hi
  · exact hready
  · rw [Granting.after_of_fixed (RlcAmTx.next_of_nothingLeft hgranted hdone _) hi]
    exact ⟨by decide, fun _ h => absurd hdone.2 h, fun h => absurd hdone.1 h⟩

def lastByteMissing : List RlcAmTx.Event :=
  [.writeSdu [1], .writeSdu [2], .readPdu (RlcAmRx.init []) 0 20,
    .handleControlPdu
      ⟨{ ackSn := 1, nacks := [{ nackSn := 0, hasSo := true, soStart := 1, soEnd := 1 }] },
        by decide⟩]

end RlcBearer
end SrsLte
