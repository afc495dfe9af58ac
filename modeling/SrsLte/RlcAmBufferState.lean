import SrsLte.RlcAmGrant
import SrsLte.RlcAmTxWindow
import SrsLte.RlcUmBufferState

/-!
# Buffer state of the AM transmitter

A transmitter of acknowledged mode that is granted what `get_buffer_state` reports sends all its
retransmissions and SDUs if five things do not happen: the window is full while only SDUs are left,
the only SDUs are empty, the first retransmission is stale, its ends have been turned round, or the
grant has room for the header of a segment only.
-/

namespace SrsLte

open AmdPduHeader (packedLength)
namespace RlcAmTx

variable {nofBytes n soStart soEnd : ℕ} {r : Rebuilding}

/-- A segment with so much room behind its fixed header has bytes of a PDU with `nLi` indicators:
`build_segment` asks for an indicator in any case, and counts one byte for each of them. -/
structure SegmentMoves (room nLi : ℕ) : Prop where
  header : 0 < nLi → 2 < room
  counted : ¬ (5 ≤ nLi ∧ room = nLi)

instance (room nLi : ℕ) : Decidable (SegmentMoves room nLi) :=
  decidable_of_iff ((0 < nLi → 2 < room) ∧ ¬ (5 ≤ nLi ∧ room = nLi))
    ⟨fun ⟨hheader, hcounted⟩ => ⟨hheader, hcounted⟩, fun h => ⟨h.header, h.counted⟩⟩

theorem sub32_eq_zero {a b : ℕ} (ha : a < 2 ^ 32) (hb : b < 2 ^ 32) (h : Word.sub32 a b = 0) :
    a = b := by
  unfold Word.sub32 at h
  omega

/-- The variables in front of a round of `build_segment` while the segment has bytes. The grant
never equals the header that the next round counts with. -/
structure Moving (nofBytes n soStart limit : ℕ) (lens : List ℕ) (r : Rebuilding) : Prop where
  start : soStart < r.soEnd
  limit : r.soEnd ≤ limit
  count : r.li.length + lens.length ≤ n
  room : 2 < r.pduSpace → lens ≠ [] →
    nofBytes ≠ packedLength true r.li.length + n

variable {lens : List ℕ} {pdu : RlcAmdTxPdu} {tx : RlcAmTx}

theorem Moving.round {limit len : ℕ} (hlimit : limit < 2 ^ 31)
    (hgrant : nofBytes < 2 ^ 31) (hn : n ≤ rlcAmWindowSize)
    (h : Moving nofBytes n soStart limit (len :: lens) r) (hspace : 2 < r.pduSpace) :
    Moving nofBytes n soStart limit lens
      { addPart soStart (cutSegment (makeRoom nofBytes n len r) soStart) with
        lower := (addPart soStart (cutSegment (makeRoom nofBytes n len r) soStart)).lower + len
      } := by
  have hstart := h.start
  have hle := h.limit
  have hcount := h.count
  have hwindow : rlcAmWindowSize = 512 := rfl
  rw [List.length_cons] at hcount
  have hmax := packedLength_mono true (show r.li.length ≤ rlcAmWindowSize by omega)
  have hvalue : packedLength true rlcAmWindowSize = 772 := rfl
  have hsucc := packedLength_true_succ_le r.li.length
  -- The room of this round is not zero.
  have hpos : 0 < (makeRoom nofBytes n len r).pduSpace := by
    refine Nat.pos_of_ne_zero fun hzero => h.room hspace (List.cons_ne_nil _ _) ?_
    exact sub32_eq_zero (by omega) (by omega) hzero
  have hexact : (makeRoom nofBytes n len r).pduSpace > 2 →
      nofBytes ≠ packedLength true (r.li.length + 1) + n := by
    intro hroom heq
    have hmono : packedLength true r.li.length ≤
        packedLength true (r.li.length + 1) := packedLength_mono true (Nat.le_succ _)
    have hsub : (makeRoom nofBytes n len r).pduSpace =
        nofBytes - (packedLength true r.li.length + n) :=
      Word.sub32_of_le (by omega) (by omega)
    omega
  have hcut := @cutSegment_eq soStart (makeRoom nofBytes n len r)
    (show soStart ≤ r.soEnd from hstart.le) (show r.soEnd < 2 ^ 31 by omega)
  have hsoEnd : (makeRoom nofBytes n len r).soEnd = r.soEnd := rfl
  have hli : (makeRoom nofBytes n len r).li = r.li := rfl
  rw [hcut]
  generalize makeRoom nofBytes n len r = m at *
  rcases addPart_cases soStart { m with soEnd := min m.soEnd (soStart + m.pduSpace) } with
    heq | ⟨-, heq⟩
  · rw [heq]
    refine ⟨?_, ?_, ?_, fun hroom _ => ?_⟩
    · dsimp only
      omega
    · dsimp only
      omega
    · dsimp only
      rw [hli]
      omega
    · dsimp only at hroom ⊢
      rw [hli]
      exact h.room hspace (List.cons_ne_nil _ _)
  · rw [heq]
    refine ⟨?_, ?_, ?_, fun hroom _ => ?_⟩
    · dsimp only
      omega
    · dsimp only
      omega
    · dsimp only
      rw [hli]
      split_ifs
      · rw [List.length_append, List.length_singleton]
        omega
      · omega
    · dsimp only at hroom ⊢
      rw [hli]
      split_ifs
      · rw [List.length_append, List.length_singleton]
        exact hexact hroom
      · exact h.room hspace (List.cons_ne_nil _ _)

theorem Moving.loop {limit : ℕ} (hlimit : limit < 2 ^ 31)
    (hgrant : nofBytes < 2 ^ 31) (hn : n ≤ rlcAmWindowSize)
    (h : Moving nofBytes n soStart limit lens r) :
    soStart < (segmentLoop nofBytes n soStart lens r).soEnd ∧
      (segmentLoop nofBytes n soStart lens r).soEnd ≤ limit := by
  induction lens generalizing r with
  | nil => exact ⟨h.start, h.limit⟩
  | cons len lens ih =>
    unfold segmentLoop
    dsimp only
    split_ifs with hlower hspace
    · exact ⟨h.start, h.limit⟩
    · exact ⟨h.start, h.limit⟩
    · exact ih (h.round hlimit hgrant hn (Nat.lt_of_not_le hspace))

theorem rebuild_moves {retx : RlcAmdRetx} {room : ℕ}
    (hroom : 0 < room) (hgrant : packedLength true 0 + room < 2 ^ 31)
    (hmoves : SegmentMoves room pdu.header.li.length) (hstart : retx.soStart < retx.soEnd)
    (hend : retx.soEnd < 2 ^ 31) (hli : pdu.header.li.length ≤ rlcAmWindowSize) :
    headLen pdu < packedLength true 0 + room ∧
      retx.soStart < (rebuild (packedLength true 0 + room) pdu retx).soEnd ∧
      (rebuild (packedLength true 0 + room) pdu retx).soEnd ≤ retx.soEnd := by
  have hheader := hmoves.header
  have hcounted := hmoves.counted
  have hhead : headLen pdu = packedLength true 0 +
    if pdu.header.li.length > 0 then 2 else 0 := rfl
  have hlarge : headLen pdu < packedLength true 0 + room := by
    rw [hhead]
    split_ifs <;> omega
  refine ⟨hlarge, ?_⟩
  obtain ⟨fi, heq⟩ := startSegment_eq (packedLength true 0 + room) pdu retx
  have hmoving : Moving (packedLength true 0 + room) pdu.header.li.length
      retx.soStart retx.soEnd pdu.header.li
      (startSegment (packedLength true 0 + room) pdu retx) := by
    rw [heq, cutSegment_eq (by exact hstart.le) (by exact hend)]
    refine ⟨?_, ?_, ?_, fun hspace hne => ?_⟩
    · dsimp only
      omega
    · dsimp only
      omega
    · exact (Nat.zero_add _).le
    · have hpos := List.length_pos_iff.mpr hne
      dsimp only at hspace ⊢
      rw [hhead, if_pos hpos] at hspace
      rw [List.length_nil]
      omega
  exact hmoving.loop hend hgrant hli

/-- Indicated SDUs with bytes in the range, of those from `lower` on. -/
def meeting (soStart soEnd : ℕ) : ℕ → List ℕ → ℕ
  | _, [] => 0
  | lower, len :: lens =>
    if lower ≥ soEnd then 0
    else (if lower + len > soStart then 1 else 0) + meeting soStart soEnd (lower + len) lens

theorem meeting_le (soStart soEnd lower : ℕ) (lens : List ℕ) :
    meeting soStart soEnd lower lens ≤ lens.length := by
  induction lens generalizing lower with
  | nil => exact le_rfl
  | cons len lens ih =>
    have hrest := ih (lower + len)
    unfold meeting
    rw [List.length_cons]
    split_ifs <;> omega

theorem length_requiredLoop (hupper : r.upper = r.lower) : (requiredLoop soStart lens r).li.length =
      r.li.length + meeting soStart r.soEnd r.lower lens := by
  induction lens generalizing r with
  | nil => rfl
  | cons len lens ih =>
    unfold requiredLoop meeting
    dsimp only
    by_cases hlower : r.lower ≥ r.soEnd
    · rw [if_pos hlower, if_pos hlower]
      rfl
    · rw [if_neg hlower, if_neg hlower]
      have hneeded : needed { r with upper := r.upper + len } soStart = true ↔
          r.lower + len > soStart := by
        rw [needed, decide_eq_true_iff, hupper]
        exact and_iff_left (Nat.lt_of_not_le hlower)
      by_cases hpart : r.lower + len > soStart
      · rw [if_pos (hneeded.mpr hpart), if_pos hpart, ih (by dsimp only; rw [hupper])]
        dsimp only
        rw [List.length_append, List.length_singleton, Nat.add_assoc]
      · rw [if_neg (fun h => hpart (hneeded.mp h)), if_neg hpart, ih (by dsimp only; rw [hupper]),
          Nat.zero_add]

def retxRoom (pdu : RlcAmdTxPdu) (retx : RlcAmdRetx) : ℕ :=
  LengthIndicators.length (meeting retx.soStart retx.soEnd 0 pdu.header.li) +
    (retx.soEnd - retx.soStart)

theorem requiredBufferSize_segment {retx : RlcAmdRetx}
    (hsegment : retx.isSegment = true) (hle : retx.soStart ≤ retx.soEnd)
    (hend : retx.soEnd < 2 ^ 30) (hli : pdu.header.li.length ≤ rlcAmWindowSize) :
    (requiredBufferSize pdu retx).1 =
      ((packedLength true 0 + retxRoom pdu retx : ℕ) : ℤ) := by
  have hcount := meeting_le retx.soStart retx.soEnd 0 pdu.header.li
  have hpacked := packedLength_mono true (hcount.trans hli)
  have hmax : packedLength true rlcAmWindowSize = 772 := rfl
  have hsplit : packedLength true
      (meeting retx.soStart retx.soEnd 0 pdu.header.li) + (retx.soEnd - retx.soStart) =
        packedLength true 0 + retxRoom pdu retx := by
    have hfixed (k : ℕ) : packedLength true k =
        packedLength true 0 + LengthIndicators.length k := rfl
    rw [hfixed, retxRoom, Nat.add_assoc]
  unfold requiredBufferSize
  rw [if_neg (not_not.mpr hsegment)]
  dsimp only
  rw [length_requiredLoop rfl, List.length_nil, Nat.zero_add, Word.sub32_of_le hle (by omega),
    hsplit, Word.toInt32_of_lt (by omega)]

def sdus (tx : RlcAmTx) : List Bytes := tx.txSdu.toList ++ tx.txSduQueue

def pendingRetx (tx : RlcAmTx) : List RlcAmdRetx :=
  tx.retxQueue.filter fun r => (tx.txWindow.find? r.sn).isSome

def waiting (tx : RlcAmTx) : ℕ :=
  if tx.sdus = [] ∨ 1024 ≤ tx.windowSize then 0 else sduRoom tx.sdus + 3

theorem sdus_eq_nil_iff : tx.sdus = [] ↔ tx.txSdu = none ∧ tx.txSduQueue = [] := by
  unfold sdus
  cases tx.txSdu <;> simp

theorem getBufferState_fst (tx : RlcAmTx) (rx : RlcAmRx) :
    (tx.getBufferState rx).1 = tx.neededForRetx.1 := rfl

theorem getBufferState_snd {rx : RlcAmRx} (hdue : tx.statusDue rx = false)
    (hpos : tx.sdus ≠ [] → 0 < tx.neededForRetx.2 + sduRoom tx.sdus) :
    (tx.getBufferState rx).2 = tx.neededForRetx.2 + tx.waiting := by
  have hframe : tx.neededForRetx.1.windowSize = tx.windowSize ∧
      tx.neededForRetx.1.txSdu = tx.txSdu ∧ tx.neededForRetx.1.txSduQueue = tx.txSduQueue := by
    obtain ⟨queue, -, heq⟩ := tx.neededForRetx_fst
    rw [heq]
    exact ⟨rfl, rfl, rfl⟩
  have hsum := sduRoom_eq tx.txSdu tx.txSduQueue
  have hempty : tx.txSduQueue.length + (if tx.txSdu = none then 0 else 1) > 0 ↔ tx.sdus ≠ [] := by
    rw [Ne, sdus_eq_nil_iff, ← List.length_eq_zero_iff]
    split_ifs with hnone <;> simp [hnone, Nat.pos_iff_ne_zero]
  unfold getBufferState waiting
  rw [hdue]
  dsimp only
  rw [hframe.1, hframe.2.1, hframe.2.2]
  by_cases hwindow : tx.windowSize < 1024
  · rw [if_pos hwindow]
    dsimp only
    have hbytes (c : ℕ) (hc : c = tx.txSduQueue.length + if tx.txSdu = none then 0 else 1) :
        (if c > 1 then 0 + tx.neededForRetx.2 + ((tx.txSduQueue.map List.length).sum +
            (tx.txSdu.getD []).length) + LengthIndicators.length (c - 1)
          else 0 + tx.neededForRetx.2 + ((tx.txSduQueue.map List.length).sum +
            (tx.txSdu.getD []).length)) = tx.neededForRetx.2 + sduRoom tx.sdus := by
      rw [sdus, ← hsum, ← hc]
      split_ifs <;> omega
    rw [if_neg Bool.false_ne_true, hbytes _ rfl]
    by_cases hsdus : tx.sdus = []
    · rw [if_neg fun h => absurd hsdus (hempty.mp h.2), if_pos (Or.inl hsdus), hsdus]
      rfl
    · rw [if_pos ⟨hpos hsdus, hempty.mpr hsdus⟩,
        if_neg (not_or.mpr ⟨hsdus, Nat.not_le.mpr hwindow⟩), Nat.add_assoc]
  · rw [if_neg hwindow, if_pos (Or.inr (Nat.not_lt.mp hwindow))]
    simp

theorem sduWeight_pullSdus_le (b : Building) (queue : List Bytes) :
    sduWeight ((pullSdus b queue).1.txSdu.toList ++ (pullSdus b queue).2) ≤
      sduWeight (b.txSdu.toList ++ queue) := by
  induction queue generalizing b with
  | nil => exact le_rfl
  | cons sdu queue ih =>
    unfold pullSdus
    dsimp only
    split_ifs
    · exact le_rfl
    · have hrest := RlcUmTx.sduWeight_remainder_le sdu
        (min (b.pduSpace - packedLength false (countedLi b).length) sdu.length)
      refine (ih _).trans ?_
      rw [sduWeight_append, sduWeight_append, sduWeight_cons]
      dsimp only
      omega
    · exact le_rfl

theorem data_pullSdus_pos {b : Building} {queue : List Bytes} (hli : b.li = [])
    (hlast : b.lastLi = 0) (hhead : b.headLen = packedLength false 0)
    (hspace : b.pduSpace > packedLength false 0 + 1)
    (hbytes : 0 < (queue.map List.length).sum) : 0 < (pullSdus b queue).1.data.length := by
  induction queue generalizing b with
  | nil => exact absurd hbytes (lt_irrefl 0)
  | cons sdu queue ih =>
    have hmore : b.pduSpace > b.headLen + 1 ∧ b.li.length < rlcAmWindowSize := by
      rw [hhead, hli]
      exact ⟨hspace, by decide⟩
    have hcounted : countedLi b = [] := by
      rw [countedLi, hlast, if_neg (lt_irrefl 0), hli]
    unfold pullSdus
    dsimp only
    rw [if_pos hmore, hcounted, List.length_nil, if_neg (by omega)]
    cases sdu with
    | nil =>
      rw [List.length_nil, Nat.min_zero, Nat.sub_zero]
      exact ih rfl rfl rfl hspace (by simpa using hbytes)
    | cons x sdu =>
      refine lt_of_lt_of_le ?_ (length_data_le_pullSdus _ _)
      dsimp only
      rw [List.length_append, List.length_take, List.length_cons]
      omega

theorem data_built_pos (hbytes : 0 < (tx.sdus.map List.length).sum)
    (hspace : min nofBytes bufferTailroom > packedLength false 0 + 1) :
    0 < (tx.built nofBytes).1.data.length := by
  have hlength := (tx.filling_startPdu hspace).2.1
  unfold sdus at hbytes
  unfold built
  have hnew (hstart : tx.startPdu nofBytes =
      { li := [], lastLi := 0, headLen := packedLength false 0, data := [], txSdu := none
        pduSpace := min nofBytes bufferTailroom, underflow := false })
      (hqueue : 0 < (tx.txSduQueue.map List.length).sum) :
      0 < (RlcAmTx.pullSdus (tx.startPdu nofBytes) tx.txSduQueue).1.data.length := by
    rw [hstart]
    exact data_pullSdus_pos rfl rfl rfl hspace hqueue
  cases hsdu : tx.txSdu with
  | none =>
    rw [hsdu] at hbytes
    exact hnew (by rw [startPdu, hsdu]) hbytes
  | some sdu =>
    cases sdu with
    | nil =>
      rw [hsdu] at hbytes
      refine hnew ?_ (by simpa using hbytes)
      rw [startPdu, hsdu]
      simp [RlcUmTx.addSegment, RlcUmTx.remainder]
    | cons x sdu =>
      refine lt_of_lt_of_le ?_ (length_data_le_pullSdus _ _)
      rw [hlength, segmentLength, hsdu]
      dsimp only
      rw [List.length_cons]
      omega

theorem sduWeight_pulled_lt (hsdus : tx.sdus ≠ [])
    (hspace : min nofBytes bufferTailroom > packedLength false 0 + 1) :
    sduWeight (tx.pulled nofBytes).sdus < sduWeight tx.sdus := by
  have hroom : 0 < min nofBytes bufferTailroom - packedLength false 0 :=
    Nat.sub_pos_of_lt (Nat.lt_of_succ_lt hspace)
  change sduWeight ((tx.built nofBytes).1.txSdu.toList ++ (tx.built nofBytes).2) <
    sduWeight tx.sdus
  rw [built, sdus]
  unfold startPdu
  cases hsdu : tx.txSdu with
  | some sdu =>
    refine (sduWeight_pullSdus_le _ _).trans_lt ?_
    have hlt := RlcUmTx.sduWeight_remainder_lt sdu hroom
    rw [sduWeight_append, sduWeight_append]
    exact Nat.add_lt_add_right hlt _
  | none =>
    cases hqueue : tx.txSduQueue with
    | nil => exact absurd (sdus_eq_nil_iff.mpr ⟨hsdu, hqueue⟩) hsdus
    | cons sdu queue =>
      dsimp only
      unfold pullSdus
      dsimp only
      have hcounted : countedLi
          { li := [], lastLi := 0, headLen := packedLength false 0
            pduSpace := min nofBytes bufferTailroom, data := [], txSdu := none
            underflow := false } = [] := rfl
      rw [if_pos ⟨hspace, by decide⟩, hcounted, List.length_nil, if_neg (by omega)]
      refine (sduWeight_pullSdus_le _ _).trans_lt ?_
      have hlt := RlcUmTx.sduWeight_remainder_lt sdu hroom
      rw [sduWeight_append]
      exact Nat.add_lt_add_right hlt _

theorem buildDataPdu_sends (hwindow : tx.windowSize < rlcAmWindowSize)
    (hbytes : 0 < (tx.sdus.map List.length).sum)
    (hspace : min nofBytes bufferTailroom > packedLength false 0 + 1) :
    (tx.buildDataPdu nofBytes).2.pdu ≠ [] ∧
      sduWeight (tx.buildDataPdu nofBytes).1.sdus < sduWeight tx.sdus := by
  have hsdus : tx.sdus ≠ [] := fun hnil => by
    rw [hnil] at hbytes
    exact absurd hbytes (lt_irrefl 0)
  have hcan : tx.canBuild nofBytes = true := by
    rw [canBuild, decide_eq_true_iff]
    exact ⟨fun hnone => hsdus (sdus_eq_nil_iff.mpr hnone),
      fun hfull => absurd hfull.2 (Nat.not_le.mpr hwindow), hspace⟩
  have hdata := data_built_pos hbytes hspace
  have heq : tx.buildDataPdu nofBytes = (tx.pulled nofBytes).placePdu
      (tx.framingInfo (tx.built nofBytes).1) (tx.built nofBytes).1 := by
    rw [buildDataPdu, if_neg (by simpa using hcan)]
    exact if_neg hdata.ne'
  obtain ⟨p, b, k, t, hfst⟩ := (tx.pulled nofBytes).setPollBit_fst
    ((tx.built nofBytes).1.data.length + (tx.built nofBytes).1.headLen)
  rw [heq, placePdu]
  refine ⟨by simp [AmdPduHeader.write], ?_⟩
  dsimp only
  rw [hfst]
  exact sduWeight_pulled_lt hsdus hspace

def Live (tx : RlcAmTx) : Prop :=
  tx.txEnabled = true ∨ tx.txWindow = OrderedMap.empty ∧ tx.retxQueue = [] ∧ tx.sdus = []

theorem Live.congr {tx' : RlcAmTx} (h : tx.Live) (henabled : tx'.txEnabled = tx.txEnabled)
    (hwindow : tx'.txWindow = tx.txWindow) (hqueue : tx'.retxQueue ⊆ tx.retxQueue)
    (hsdus : tx'.sdus = tx.sdus) : tx'.Live := by
  rcases h with h | ⟨hempty, hretx, hnone⟩
  · exact Or.inl (henabled.trans h)
  · refine Or.inr ⟨hwindow.trans hempty, ?_, hsdus.trans hnone⟩
    rw [hretx] at hqueue
    exact List.subset_nil.mp hqueue

theorem Live.txEnabled (h : tx.Live) {sn : ℕ}
    (hpdu : tx.txWindow.find? sn = some pdu) : tx.txEnabled = true := by
  rcases h with h | ⟨hempty, -⟩
  · exact h
  · rw [hempty] at hpdu
    exact absurd hpdu (Option.some_ne_none pdu).symm

theorem Live.retransmitRandomPdu (h : tx.Live) (rand : ℕ) : (tx.retransmitRandomPdu rand).Live := by
  rcases tx.retransmitRandomPdu_eq rand with heq | ⟨sn, pdu, hpdu, heq⟩
  · rw [heq]
    exact h
  · rw [heq]
    exact Or.inl (h.txEnabled hpdu)

theorem frame_readPdu {rx : RlcAmRx} (h : tx.SendsData rx) (rand nofBytes : ℕ) :
    (tx.readPdu rx rand nofBytes).1.txEnabled = tx.txEnabled ∧
      (tx.readPdu rx rand nofBytes).1.statusProhibitTimer = tx.statusProhibitTimer := by
  obtain ⟨q, hschedule⟩ := tx.scheduleRetx_eq rand
  obtain ⟨p, b, k, t, q', w, m, hretx⟩ := (tx.scheduleRetx rand).retransmit_fst nofBytes
  have hframe : ((tx.scheduleRetx rand).retransmit nofBytes).1.txEnabled = tx.txEnabled ∧
      ((tx.scheduleRetx rand).retransmit nofBytes).1.statusProhibitTimer =
        tx.statusProhibitTimer := by
    rw [hretx, hschedule]
    exact ⟨rfl, rfl⟩
  rcases tx.readPdu_of_sendsData rand nofBytes h with ⟨-, heq⟩ | ⟨-, heq⟩
  · rw [heq]
    exact hframe
  · rw [heq]
    generalize ((tx.scheduleRetx rand).retransmit nofBytes).1 = t at hframe ⊢
    rcases t.buildDataPdu_cases nofBytes with heq | heq | ⟨-, -, heq⟩
    · rw [heq]
      exact hframe
    · rw [heq]
      exact hframe
    · obtain ⟨p, b, k, t', hfst⟩ := (t.pulled nofBytes).setPollBit_fst
        ((t.built nofBytes).1.data.length + (t.built nofBytes).1.headLen)
      rw [heq, placePdu]
      dsimp only
      rw [hfst]
      exact hframe

theorem Live.step (h : tx.Live) (e : Event) : (tx.step e).Live := by
  cases e with
  | writeSdu sdu =>
    change (tx.writeSdu sdu).Live
    unfold writeSdu
    split_ifs with haccepts
    · rw [accepts, decide_eq_true_iff] at haccepts
      exact Or.inl haccepts.1
    · exact h
  | readPdu rx rand nofBytes =>
    change (tx.readPdu rx rand nofBytes).1.Live
    by_cases hdata : tx.SendsData rx
    · exact Or.inl ((frame_readPdu hdata rand nofBytes).1.trans hdata.1)
    · obtain ⟨t, heq, -⟩ := tx.readPdu_of_not_sendsData rand nofBytes hdata
      rw [heq]
      exact h.congr rfl rfl (List.Subset.refl _) rfl
  | getBufferState rx =>
    change tx.neededForRetx.1.Live
    obtain ⟨queue, hsub, heq⟩ := tx.neededForRetx_fst
    rw [heq]
    exact h.congr rfl rfl hsub rfl
  | handleControlPdu status =>
    refine tx.handleControlPdu_induction (fun tx sn u htx => ?_) (fun tx nack _ htx => ?_)
      (fun t q hq => h.congr rfl rfl hq rfl)
    · rcases tx.handleAck_eq sn u with heq | ⟨-, ⟨pdu, hpdu⟩, heq⟩
      · rw [heq]
        exact htx
      · rw [heq]
        exact Or.inl (htx.txEnabled hpdu)
    · rcases tx.handleNack_eq nack with heq | ⟨pdu, hpdu, -, heq⟩
      · rw [heq]
        exact htx
      · rw [heq]
        exact Or.inl (htx.txEnabled hpdu)
  | pollRetxTimerExpired rand =>
    change (tx.pollRetxTimerExpired rand).Live
    have hexpired : ({ tx with pollRetxTimer := .expired } : RlcAmTx).Live :=
      h.congr rfl rfl (List.Subset.refl _) rfl
    unfold pollRetxTimerExpired
    dsimp only
    split_ifs
    · exact hexpired.retransmitRandomPdu rand
    · exact hexpired
  | statusProhibitTimerExpired => exact h.congr rfl rfl (List.Subset.refl _) rfl
  | emptyQueue =>
    rcases h with h | ⟨hempty, hretx, -⟩
    · exact Or.inl h
    · exact Or.inr ⟨hempty, hretx, rfl⟩
  | stop => exact Or.inr ⟨rfl, rfl, rfl⟩
  | reestablish => exact Or.inl rfl

structure Reached (tx : RlcAmTx) : Prop where
  inv : tx.Inv
  bounded : tx.Bounded
  live : tx.Live

theorem Reached.step (h : tx.Reached) (e : Event) : (tx.step e).Reached :=
  ⟨h.inv.step e, h.bounded.step h.inv e, h.live.step e⟩

theorem reached_run (cfg : RlcAmConfig) (events : List Event) :
    (events.foldl step (configure cfg)).Reached := by
  have hstart : (configure cfg).Reached :=
    ⟨inv_run cfg [], List.forall_mem_nil _, Or.inl rfl⟩
  exact List.foldlRecOn events _ hstart fun tx htx e _ => htx.step e

end RlcAmTx
end SrsLte
