import SrsLte.RlcAmTxRuns

/-!
# Segments of the AM transmitter

A segment that `build_segment` cuts out of a PDU ends inside the range that was asked for and fits
in the grant, and nothing wraps, if the ends of the range are in order and the grant has room for
the header that the loop counts with.
-/

namespace SrsLte
namespace RlcAmTx

variable {nofBytes n soStart : ℕ} {r : Rebuilding}

theorem partLength_eq {len : ℕ} (hupper : r.upper = r.lower + len)
    (hneeded : needed r soStart = true) (hle : soStart ≤ r.soEnd) (hlt : r.upper < 2 ^ 32) :
    partLength r soStart = (min r.upper r.soEnd - max r.lower soStart, false) := by
  have hneeded' : r.upper > soStart ∧ r.lower < r.soEnd := of_decide_eq_true hneeded
  have hli : Word.sub32 r.upper r.lower = len := by
    rw [Word.sub32_of_le (by omega) hlt]
    omega
  have hbehind : (if r.upper > r.soEnd then r.upper - r.soEnd else 0) = r.upper - r.soEnd := by
    split_ifs <;> omega
  have hfront : (if r.lower < soStart then soStart - r.lower else 0) = soStart - r.lower := by
    split_ifs <;> omega
  have hfirst : Word.sub32 len (r.upper - r.soEnd) = len - (r.upper - r.soEnd) :=
    Word.sub32_of_le (by omega) (by omega)
  have hsecond : Word.sub32 (len - (r.upper - r.soEnd)) (soStart - r.lower) =
      len - (r.upper - r.soEnd) - (soStart - r.lower) :=
    Word.sub32_of_le (by omega) (by omega)
  unfold partLength
  dsimp only
  rw [hli, hbehind, hfront, hfirst, hsecond]
  refine Prod.ext ?_ ?_
  · dsimp only
    omega
  · dsimp only
    rw [decide_eq_false_iff_not]
    omega

/-- A segment without wrapped sizes, inside the bytes up to `limit`. -/
structure Cut (soStart limit : ℕ) (r : Rebuilding) : Prop where
  start : soStart ≤ r.soEnd
  limit : r.soEnd ≤ limit
  underflow : r.underflow = false

theorem cutSegment_eq (hle : soStart ≤ r.soEnd) (hlt : r.soEnd < 2 ^ 31) :
    cutSegment r soStart = { r with soEnd := min r.soEnd (soStart + r.pduSpace) } := by
  unfold cutSegment
  rw [Word.sub32_of_le hle (by omega), decide_eq_false (by omega), Bool.or_false]
  congr 1
  split_ifs
  · rw [Nat.mod_eq_of_lt (by omega)]
    omega
  · omega

variable {limit : ℕ} {lens : List ℕ} {pdu : RlcAmdTxPdu} {retx : RlcAmdRetx}

theorem Cut.cutSegment (h : Cut soStart limit r) (hlimit : limit < 2 ^ 31) :
    Cut soStart limit (cutSegment r soStart) ∧
      (RlcAmTx.cutSegment r soStart).soEnd ≤ soStart + r.pduSpace ∧
      (RlcAmTx.cutSegment r soStart).soEnd ≤ r.soEnd := by
  have hstart := h.start
  have hend := h.limit
  rw [cutSegment_eq h.start (by omega)]
  refine ⟨⟨?_, ?_, h.underflow⟩, ?_, ?_⟩
  all_goals
    dsimp only
    omega

theorem packedLength_true_succ_le (k : ℕ) :
    AmdPduHeader.packedLength true (k + 1) ≤ AmdPduHeader.packedLength true k + 2 := by
  unfold AmdPduHeader.packedLength LengthIndicators.length
  omega

/-- The variables in front of a round of `build_segment` with the indicators `lens` to come, `n` of
them in all. -/
structure Segmenting (nofBytes n soStart limit : ℕ) (lens : List ℕ) (r : Rebuilding) : Prop where
  cut : Cut soStart limit r
  upper : r.upper = r.lower
  total : r.lower + lens.sum < 2 ^ 31
  count : r.li.length + lens.length ≤ n
  fits : AmdPduHeader.packedLength true r.li.length + (r.soEnd - soStart) ≤ nofBytes
  first : 0 < n → AmdPduHeader.packedLength true 1 + (r.soEnd - soStart) ≤ nofBytes
  room : 2 < r.pduSpace → lens ≠ [] →
    AmdPduHeader.packedLength true r.li.length + n ≤ nofBytes

theorem addPart_cases (soStart : ℕ) (r : Rebuilding) :
    addPart soStart r = r ∨ needed r soStart = true ∧ addPart soStart r =
      { r with
        fi := alignPart r soStart
        li := if r.soEnd > r.upper then r.li ++ [(partLength r soStart).1 % 2 ^ 16] else r.li
        underflow := r.underflow || (partLength r soStart).2 } := by
  unfold addPart
  by_cases h : needed r soStart = true
  · rw [if_pos h]
    exact Or.inr ⟨h, rfl⟩
  · rw [if_neg h]
    exact Or.inl rfl

theorem Segmenting.round {len : ℕ} (hlimit : limit < 2 ^ 31)
    (h : Segmenting nofBytes n soStart limit (len :: lens) r) (hspace : 2 < r.pduSpace) :
    Segmenting nofBytes n soStart limit lens
      { addPart soStart (cutSegment (makeRoom nofBytes n len r) soStart) with
        lower := (addPart soStart (cutSegment (makeRoom nofBytes n len r) soStart)).lower + len
      } := by
  have hroom := h.room hspace (List.cons_ne_nil _ _)
  have htotal := h.total
  have hcount := h.count
  have hfits := h.fits
  have hfirst := h.first
  have hsucc := packedLength_true_succ_le r.li.length
  have hone := packedLength_true_succ_le 0
  have hzero : AmdPduHeader.packedLength true 0 = 4 := rfl
  rw [List.sum_cons] at htotal
  rw [List.length_cons] at hcount
  -- The room is what the grant leaves behind the header, without wrap.
  have hmake : Cut soStart limit (makeRoom nofBytes n len r) := by
    refine ⟨h.cut.start, h.cut.limit, ?_⟩
    unfold makeRoom
    dsimp only
    rw [h.cut.underflow, decide_eq_false (Nat.not_lt.mpr hroom)]
    rfl
  obtain ⟨hcut, hend, hmono⟩ := hmake.cutSegment hlimit
  have hspace' : (makeRoom nofBytes n len r).pduSpace +
      (AmdPduHeader.packedLength true r.li.length + n) ≤ nofBytes := Word.sub32_add_le hroom
  have hlower : (RlcAmTx.cutSegment (makeRoom nofBytes n len r) soStart).lower = r.lower := rfl
  have hupper : (RlcAmTx.cutSegment (makeRoom nofBytes n len r) soStart).upper = r.lower + len := by
    change r.upper + len = r.lower + len
    rw [h.upper]
  have hli : (RlcAmTx.cutSegment (makeRoom nofBytes n len r) soStart).li = r.li := rfl
  have hpduSpace : (RlcAmTx.cutSegment (makeRoom nofBytes n len r) soStart).pduSpace =
      (makeRoom nofBytes n len r).pduSpace := rfl
  have hsoEnd : (makeRoom nofBytes n len r).soEnd = r.soEnd := rfl
  generalize RlcAmTx.cutSegment (makeRoom nofBytes n len r) soStart = c at *
  rcases addPart_cases soStart c with heq | ⟨hneeded, heq⟩
  · rw [heq]
    refine ⟨⟨hcut.start, hcut.limit, hcut.underflow⟩, ?_, ?_, ?_, ?_, ?_, ?_⟩
    all_goals
      dsimp only
      rw [hli] at *
      omega
  · have hpart := partLength_eq (hupper.trans (by rw [hlower])) hneeded hcut.start (by omega)
    have hlength : (if c.soEnd > c.upper then
        c.li ++ [(min c.upper c.soEnd - max c.lower soStart) % 2 ^ 16] else c.li).length ≤
        r.li.length + 1 := by
      rw [hli]
      split_ifs <;> simp
    have hgrow := packedLength_mono true hlength
    -- With one indicator in all the header has no other one yet.
    have hsingle : r.li.length = 0 → AmdPduHeader.packedLength true (r.li.length + 1) =
        AmdPduHeader.packedLength true 1 := fun h => by rw [h]
    rw [heq, hpart]
    refine ⟨⟨hcut.start, hcut.limit, ?_⟩, ?_, ?_, ?_, ?_, ?_, ?_⟩
    · dsimp only
      rw [hcut.underflow]
      rfl
    all_goals
      dsimp only
      omega

theorem Segmenting.loop (hlimit : limit < 2 ^ 31) (h : Segmenting nofBytes n soStart limit lens r) :
    Cut soStart limit (segmentLoop nofBytes n soStart lens r) ∧
      AmdPduHeader.packedLength true (segmentLoop nofBytes n soStart lens r).li.length +
        ((segmentLoop nofBytes n soStart lens r).soEnd - soStart) ≤ nofBytes := by
  induction lens generalizing r with
  | nil => exact ⟨h.cut, h.fits⟩
  | cons len lens ih =>
    unfold segmentLoop
    dsimp only
    by_cases hlower : r.lower ≥ r.soEnd
    · rw [if_pos hlower]
      exact ⟨h.cut, h.fits⟩
    · rw [if_neg hlower]
      by_cases hspace : r.pduSpace ≤ 2
      · rw [if_pos hspace]
        exact ⟨h.cut, h.fits⟩
      · rw [if_neg hspace]
        exact ih (h.round hlimit (Nat.lt_of_not_le hspace))

/-- The grant has room for the header that `build_segment` counts with, if it gets to its loop. -/
def SegmentRoom (nofBytes : ℕ) (pdu : RlcAmdTxPdu) : Prop :=
  nofBytes < 9 ∨ AmdPduHeader.packedLength true 0 + pdu.header.li.length ≤ nofBytes

instance (nofBytes : ℕ) (pdu : RlcAmdTxPdu) : Decidable (SegmentRoom nofBytes pdu) :=
  inferInstanceAs (Decidable (_ ∨ _))

theorem startSegment_eq (nofBytes : ℕ) (pdu : RlcAmdTxPdu) (retx : RlcAmdRetx) : ∃ fi,
    startSegment nofBytes pdu retx =
      { cutSegment
          { soEnd := retx.soEnd, pduSpace := nofBytes - headLen pdu, lower := 0, upper := 0
            fi := RlcFi.notStartOrEndAligned, li := [], underflow := false } retx.soStart with
        fi := fi } := by
  unfold startSegment
  dsimp only
  split_ifs
  · exact ⟨_, rfl⟩
  · exact ⟨_, rfl⟩

section

variable (hlarge : headLen pdu < nofBytes) (hroom : SegmentRoom nofBytes pdu)
  (hle : retx.soStart ≤ retx.soEnd) (hend : retx.soEnd < 2 ^ 31) (hsum : pdu.header.li.sum < 2 ^ 31)
include hlarge hroom hle hend hsum

theorem segmenting_startSegment :
    Segmenting nofBytes pdu.header.li.length retx.soStart retx.soEnd pdu.header.li
      (startSegment nofBytes pdu retx) := by
  have hstart : Cut retx.soStart retx.soEnd
      { soEnd := retx.soEnd, pduSpace := nofBytes - headLen pdu, lower := 0, upper := 0
        fi := RlcFi.notStartOrEndAligned, li := [], underflow := false } :=
    ⟨hle, Nat.le_refl _, rfl⟩
  obtain ⟨hcut, hcutEnd, -⟩ := hstart.cutSegment hend
  obtain ⟨fi, heq⟩ := startSegment_eq nofBytes pdu retx
  have hli : (startSegment nofBytes pdu retx).li = [] := by rw [heq]; rfl
  have hlower : (startSegment nofBytes pdu retx).lower = 0 := by rw [heq]; rfl
  have hupper : (startSegment nofBytes pdu retx).upper = 0 := by rw [heq]; rfl
  have hspace : (startSegment nofBytes pdu retx).pduSpace = nofBytes - headLen pdu := by
    rw [heq]; rfl
  have hsoEnd : (startSegment nofBytes pdu retx).soEnd ≤
      retx.soStart + (nofBytes - headLen pdu) := by
    rw [heq]
    exact hcutEnd
  have hcut' : Cut retx.soStart retx.soEnd (startSegment nofBytes pdu retx) := by
    rw [heq]
    exact ⟨hcut.start, hcut.limit, hcut.underflow⟩
  have hzero : AmdPduHeader.packedLength true 0 = 4 := rfl
  have hone : AmdPduHeader.packedLength true 1 = 6 := rfl
  have hhead : headLen pdu = 4 + if pdu.header.li.length > 0 then 2 else 0 := rfl
  unfold SegmentRoom at hroom
  rw [hhead] at hlarge hspace hsoEnd
  refine ⟨hcut', by rw [hlower, hupper], by omega, ?_, ?_, ?_, ?_⟩
  · rw [hli, List.length_nil, Nat.zero_add]
  · rw [hli, List.length_nil, hzero]
    omega
  · intro hpos
    rw [if_pos hpos] at hlarge hsoEnd
    omega
  · intro hmore hne
    rw [if_pos (List.length_pos_iff.mpr hne)] at hspace
    rw [hli, List.length_nil]
    omega

theorem rebuild_cut :
    Cut retx.soStart retx.soEnd (rebuild nofBytes pdu retx) ∧
      AmdPduHeader.packedLength true (rebuild nofBytes pdu retx).li.length +
        ((rebuild nofBytes pdu retx).soEnd - retx.soStart) ≤ nofBytes :=
  (segmenting_startSegment hlarge hroom hle hend hsum).loop hend

end

theorem buildSegment_fits (tx : RlcAmTx)
    (hroom : SegmentRoom nofBytes pdu) (hle : (range pdu retx).soStart ≤ (range pdu retx).soEnd)
    (hend : (range pdu retx).soEnd < 2 ^ 31) (hsum : pdu.header.li.sum < 2 ^ 31) :
    (tx.buildSegment nofBytes pdu retx).2.pdu.length ≤ nofBytes ∧
      (tx.buildSegment nofBytes pdu retx).2.underflow = false ∧
      (tx.buildSegment nofBytes pdu retx).2.overrun = false := by
  unfold buildSegment
  dsimp only
  by_cases hsmall : nofBytes ≤ headLen pdu
  · rw [if_pos hsmall]
    exact ⟨Nat.zero_le _, rfl, rfl⟩
  · rw [if_neg hsmall]
    obtain ⟨hcut, hfits⟩ := rebuild_cut (Nat.lt_of_not_le hsmall) hroom hle hend hsum
    have hlimit := hcut.limit
    refine ⟨?_, ?_, rfl⟩
    · dsimp only
      rw [List.length_append, AmdPduHeader.length_write, List.takeD_length,
        Word.sub32_of_le hcut.start (by omega)]
      exact hfits
    · dsimp only
      rw [hcut.underflow, decide_eq_false (Nat.not_lt.mpr hcut.start)]
      rfl

/-- The variables in front of a round of `required_buffer_size`. -/
structure Requiring (soStart soEnd n : ℕ) (lens : List ℕ) (r : Rebuilding) : Prop where
  soEnd : r.soEnd = soEnd
  upper : r.upper = r.lower
  total : r.lower + lens.sum < 2 ^ 31
  count : r.li.length + lens.length ≤ n
  underflow : r.underflow = false

theorem Requiring.loop {soEnd : ℕ} (hle : soStart ≤ soEnd) (h : Requiring soStart soEnd n lens r) :
    (requiredLoop soStart lens r).underflow = false ∧
      (requiredLoop soStart lens r).li.length ≤ n := by
  induction lens generalizing r with
  | nil => exact ⟨h.underflow, h.count⟩
  | cons len lens ih =>
    have hcount := h.count
    have htotal := h.total
    rw [List.length_cons] at hcount
    rw [List.sum_cons] at htotal
    unfold requiredLoop
    dsimp only
    by_cases hlower : r.lower ≥ r.soEnd
    · rw [if_pos hlower]
      exact ⟨h.underflow, by omega⟩
    · rw [if_neg hlower]
      apply ih
      have hupper : ({ r with upper := r.upper + len } : Rebuilding).upper = r.lower + len := by
        dsimp only
        rw [h.upper]
      by_cases hneeded : needed { r with upper := r.upper + len } soStart = true
      · have hpart := partLength_eq hupper hneeded (by dsimp only; rw [h.soEnd]; exact hle)
          (by rw [hupper]; omega)
        rw [if_pos hneeded, hpart]
        refine ⟨h.soEnd, hupper, ?_, ?_, ?_⟩
        · dsimp only
          omega
        · dsimp only
          rw [List.length_append, List.length_singleton]
          omega
        · dsimp only
          rw [h.underflow]
          rfl
      · rw [if_neg hneeded]
        refine ⟨h.soEnd, hupper, ?_, ?_, h.underflow⟩
        · dsimp only
          omega
        · dsimp only
          omega

theorem requiredBufferSize_nonneg
    (hle : retx.isSegment = true → retx.soStart ≤ retx.soEnd) (hend : retx.soEnd < 2 ^ 30)
    (hsum : pdu.header.li.sum < 2 ^ 31) (hli : pdu.header.li.length ≤ rlcAmWindowSize) :
    0 ≤ (requiredBufferSize pdu retx).1 ∧ (requiredBufferSize pdu retx).2 = false := by
  unfold requiredBufferSize
  cases hseg : retx.isSegment with
  | false => exact ⟨Int.natCast_nonneg _, rfl⟩
  | true =>
    have hstart : Requiring retx.soStart retx.soEnd pdu.header.li.length pdu.header.li
        { soEnd := retx.soEnd, pduSpace := 0, lower := 0, upper := 0
          fi := RlcFi.notStartOrEndAligned, li := [], underflow := false } :=
      ⟨rfl, rfl, by dsimp only; omega, by simp, rfl⟩
    have hle' := hle hseg
    obtain ⟨hunderflow, hcount⟩ := hstart.loop hle'
    rw [if_neg (by decide)]
    dsimp only
    constructor
    · have hpacked := packedLength_mono true (hcount.trans hli)
      have hmax : AmdPduHeader.packedLength true rlcAmWindowSize = 772 := rfl
      rw [Word.sub32_of_le hle' (by omega), Word.toInt32_of_lt (by omega)]
      exact Int.natCast_nonneg _
    · rw [hunderflow, decide_eq_false (Nat.not_lt.mpr hle')]
      rfl

end RlcAmTx
end SrsLte

/-!
What `read_pdu` writes fits in the grant, no size computation wraps and no buffer is extended past
its tailroom as long as three things do not happen: a segment is made of a PDU with more length
indicators than the grant has room for, a NACK has turned the ends of a segment round, and further
SDUs are put behind an SDU segment of more than half a buffer.
-/

namespace SrsLte
namespace RlcAmTx

def soEndLimit : ℕ := 2 ^ 30

def Bounded (tx : RlcAmTx) : Prop := ∀ r ∈ tx.retxQueue, r.soEnd < soEndLimit

variable {tx tx' : RlcAmTx} {pdu : RlcAmdTxPdu} {nofBytes : ℕ} {status : RlcStatusPdu}

theorem Bounded.subset (h : tx.Bounded) (hsub : tx'.retxQueue ⊆ tx.retxQueue) :
    tx'.Bounded := fun r hr => h r (hsub hr)

theorem Bounded.concat (h : tx.Bounded) {r : RlcAmdRetx}
    (hqueue : tx'.retxQueue = tx.retxQueue ++ [r]) (hr : r.soEnd < soEndLimit) : tx'.Bounded := by
  intro q hq
  rw [hqueue, List.mem_append, List.mem_singleton] at hq
  rcases hq with hq | rfl
  · exact h q hq
  · exact hr

theorem Placed.lt_soEndLimit {sn : ℕ} (h : Placed sn pdu) :
    pdu.buf.length < soEndLimit :=
  h.bounded.trans_lt (by decide)

theorem Bounded.retransmitRandomPdu (h : tx.Bounded) (hinv : tx.Inv) (rand : ℕ) :
    (tx.retransmitRandomPdu rand).Bounded := by
  rcases tx.retransmitRandomPdu_eq rand with heq | ⟨sn, pdu, hpdu, heq⟩
  · rw [heq]
    exact h
  · rw [heq]
    exact h.concat rfl (hinv.window hpdu).lt_soEndLimit

theorem Bounded.scheduleRetx (h : tx.Bounded) (hinv : tx.Inv) (rand : ℕ) :
    (tx.scheduleRetx rand).Bounded := by
  unfold RlcAmTx.scheduleRetx
  split_ifs
  · exact h.retransmitRandomPdu hinv rand
  · exact h

theorem Bounded.dropStale (h : tx.Bounded) : tx.dropStale.Bounded :=
  h.subset (List.dropWhile_subset _)

theorem bounded_updateRetxQueue {queue : List RlcAmdRetx} (h : ∀ r ∈ queue, r.soEnd < soEndLimit)
    (nBytes soEnd : ℕ) : ∀ r ∈ updateRetxQueue queue nBytes soEnd, r.soEnd < soEndLimit := by
  cases queue with
  | nil => exact h
  | cons front rest =>
    have hrest := (List.forall_mem_cons.mp h).2
    unfold updateRetxQueue
    dsimp only
    split_ifs
    · exact hrest
    · exact hrest
    · intro r hr
      rcases List.mem_cons.mp hr with rfl | hr
      · exact h front List.mem_cons_self
      · exact hrest r hr

theorem Bounded.buildSegment (h : tx.Bounded) (nofBytes : ℕ) (pdu : RlcAmdTxPdu)
    (retx : RlcAmdRetx) : (tx.buildSegment nofBytes pdu retx).1.Bounded := by
  unfold RlcAmTx.buildSegment Bounded
  dsimp only
  by_cases hsmall : nofBytes ≤ headLen pdu
  · rw [if_pos hsmall, retxQueue_setPollBit]
    exact h
  · rw [if_neg hsmall]
    dsimp only
    rw [retxQueue_setPollBit]
    exact bounded_updateRetxQueue h _ _

theorem Bounded.retransmit (h : tx.Bounded) (nofBytes : ℕ) :
    (tx.retransmit nofBytes).1.Bounded := by
  rw [retransmit_eq]
  rcases tx.retxQueue_dropStale with hnil | ⟨retx, rest, pdu, hqueue, hpdu⟩
  · unfold buildRetxPdu
    dsimp only
    rw [hnil]
    exact h.dropStale
  · rcases tx.buildRetxPdu_cases nofBytes hqueue hpdu with ⟨-, heq⟩ | ⟨-, heq⟩ | ⟨-, heq⟩
    · rw [heq]
      refine h.dropStale.subset ?_
      rw [hqueue]
      exact List.subset_cons_self retx rest
    · obtain ⟨p, b, k, t, hfst⟩ := tx.dropStale.resendPdu_fst pdu retx
      rw [heq]
      dsimp only
      rw [hfst]
      exact h.dropStale.subset (List.tail_sublist _).subset
    · rw [heq]
      exact h.dropStale.buildSegment nofBytes pdu retx

theorem soEnd_retxOfNack_le {nBytes : ℕ} (hn : nBytes < soEndLimit) {nack : RlcStatusNack}
    (hend : nack.soEnd < 2 ^ 15) : (retxOfNack nBytes nack).soEnd < soEndLimit := by
  have hlimit : 2 ^ 15 < soEndLimit := by decide
  unfold retxOfNack
  dsimp only
  split_ifs
  all_goals
    dsimp only
    omega

theorem Bounded.step (h : tx.Bounded) (hinv : tx.Inv) (e : Event) : (tx.step e).Bounded := by
  cases e with
  | writeSdu sdu =>
    change (tx.writeSdu sdu).Bounded
    unfold writeSdu
    split_ifs
    · exact h.subset (List.Subset.refl _)
    · exact h
  | readPdu rx rand nofBytes =>
    change (tx.readPdu rx rand nofBytes).1.Bounded
    by_cases hdata : tx.SendsData rx
    · have hsent := (h.scheduleRetx hinv rand).retransmit nofBytes
      rcases tx.readPdu_of_sendsData rand nofBytes hdata with ⟨-, heq⟩ | ⟨-, heq⟩
      · rw [heq]
        exact hsent
      · rw [heq]
        exact hsent.subset (by rw [retxQueue_buildDataPdu]; exact List.Subset.refl _)
    · obtain ⟨t, heq, -⟩ := tx.readPdu_of_not_sendsData rand nofBytes hdata
      rw [heq]
      exact h
  | getBufferState rx =>
    change tx.neededForRetx.1.Bounded
    obtain ⟨queue, hsub, heq⟩ := tx.neededForRetx_fst
    rw [heq]
    exact h.subset hsub
  | handleControlPdu status =>
    have hboth : (tx.handleControlPdu status.1).Inv ∧ (tx.handleControlPdu status.1).Bounded := by
      refine tx.handleControlPdu_induction (P := fun tx => tx.Inv ∧ tx.Bounded)
        (fun tx sn u htx => ⟨htx.1.handleAck sn u, ?_⟩) (fun tx nack hnack htx => ?_)
        (fun t q hq => ⟨hinv.congr rfl rfl rfl, h.subset hq⟩)
      · rcases tx.handleAck_eq sn u with heq | ⟨-, -, heq⟩
        · rw [heq]
          exact htx.2
        · rw [heq]
          exact htx.2
      · rcases tx.handleNack_eq nack with heq | ⟨pdu, hpdu, -, heq⟩
        · rw [heq]
          exact htx
        · rw [heq]
          exact ⟨htx.1.congr rfl rfl rfl, htx.2.concat rfl
            (soEnd_retxOfNack_le (htx.1.window hpdu).lt_soEndLimit (status.2.soEnd nack hnack))⟩
    exact hboth.2
  | pollRetxTimerExpired rand =>
    change (tx.pollRetxTimerExpired rand).Bounded
    have hexpired : ({ tx with pollRetxTimer := .expired } : RlcAmTx).Bounded := h
    unfold pollRetxTimerExpired
    dsimp only
    split_ifs
    · exact hexpired.retransmitRandomPdu (hinv.congr rfl rfl rfl) rand
    · exact h
  | statusProhibitTimerExpired => exact h
  | emptyQueue => exact h
  | stop => exact List.forall_mem_nil _
  | reestablish => exact List.forall_mem_nil _

/-- Nothing wraps, and what is written fits in the grant and in the buffer of the PDU. -/
structure Respects (nofBytes : ℕ) (out : RlcAmOutput) : Prop where
  length : out.pdu.length ≤ nofBytes
  underflow : out.underflow = false
  overrun : out.overrun = false

theorem respects_none (nofBytes : ℕ) : Respects nofBytes .none := ⟨Nat.zero_le _, rfl, rfl⟩

def RetxFits (nofBytes : ℕ) (retx : RlcAmdRetx) (pdu : RlcAmdTxPdu) : Prop :=
  (retx.isSegment = true → retx.soStart ≤ retx.soEnd) ∧
    (Resends nofBytes pdu retx ∨ SegmentRoom nofBytes pdu)

/-- At most half a buffer goes in front of further SDUs, or all of them have room behind it. -/
def DataFits (tx : RlcAmTx) (nofBytes : ℕ) : Prop :=
  2 * tx.segmentLength nofBytes ≤ bufferTailroom ∨
    AmdPduHeader.packedLength false tx.txSduQueue.length + tx.segmentLength nofBytes +
      (tx.txSduQueue.map List.length).sum ≤ min nofBytes bufferTailroom

instance (nofBytes : ℕ) (retx : RlcAmdRetx) (pdu : RlcAmdTxPdu) :
    Decidable (RetxFits nofBytes retx pdu) := inferInstanceAs (Decidable (_ ∧ _))

instance (tx : RlcAmTx) (nofBytes : ℕ) : Decidable (tx.DataFits nofBytes) :=
  inferInstanceAs (Decidable (_ ∨ _))

def GrantFits (tx : RlcAmTx) (nofBytes : ℕ) : Prop :=
  (∀ f ∈ tx.front, RetxFits nofBytes f.1 f.2) ∧ (tx.front.isNone = true → DataFits tx nofBytes)

instance (tx : RlcAmTx) (nofBytes : ℕ) : Decidable (tx.GrantFits nofBytes) :=
  inferInstanceAs (Decidable (_ ∧ _))

def EventFits (tx : RlcAmTx) : Event → Prop
  | .readPdu rx rand nofBytes => tx.SendsData rx → GrantFits (tx.scheduleRetx rand) nofBytes
  | _ => True

def GrantRespected (tx : RlcAmTx) : Event → Prop
  | .readPdu rx rand nofBytes => Respects nofBytes (tx.readPdu rx rand nofBytes).2.2
  | _ => True

theorem buildDataPdu_respects (h : tx.DataFits nofBytes) :
    Respects nofBytes (tx.buildDataPdu nofBytes).2 := by
  rcases tx.buildDataPdu_cases nofBytes with heq | heq | ⟨hspace, hdata, heq⟩
  · rw [heq]
    exact respects_none nofBytes
  · rw [heq]
    exact respects_none nofBytes
  · have hfill := tx.filling_built hspace
    have hheader := hfill.header
    have hroom := hfill.space
    obtain ⟨-, hstartData, hstartLi⟩ := tx.filling_startPdu hspace
    have hlength := length_pullSdus (tx.startPdu nofBytes) tx.txSduQueue
    rw [hstartData, hstartLi, List.length_nil, Nat.zero_add] at hlength
    have hgrow := packedLength_mono false hlength.2
    have hfits : AmdPduHeader.packedLength false (tx.built nofBytes).1.li.length +
        (tx.built nofBytes).1.data.length ≤ min nofBytes bufferTailroom := by
      rcases h with hhalf | hall
      · unfold countedRoom at hroom
        omega
      · unfold built
        omega
    have hunderflow := hfill.underflow
    rw [heq, placePdu]
    generalize (tx.built nofBytes).1 = b at hfits hunderflow
    refine ⟨?_, hunderflow, ?_⟩
    · dsimp only
      rw [List.length_append, AmdPduHeader.length_write]
      exact hfits.trans (Nat.min_le_left _ _)
    · dsimp only
      rw [decide_eq_false_iff_not]
      omega

theorem buildRetxPdu_respects {retx : RlcAmdRetx}
    {rest : List RlcAmdRetx} (hinv : tx.Inv) (hbounded : tx.Bounded)
    (hqueue : tx.dropStale.retxQueue = retx :: rest) (hpdu : tx.txWindow.find? retx.sn = some pdu)
    (hfits : RetxFits nofBytes retx pdu) : Respects nofBytes (tx.buildRetxPdu nofBytes).2 := by
  have hplaced := hinv.window hpdu
  have hsoEnd : retx.soEnd < soEndLimit := hbounded.dropStale retx (by rw [hqueue]; simp)
  have hlimit : soEndLimit = 2 ^ 30 := rfl
  have hsum : pdu.header.li.sum < 2 ^ 31 := by
    have := hplaced.sumLi
    have := hplaced.lt_soEndLimit
    omega
  obtain ⟨hsize, hunderflow⟩ := requiredBufferSize_nonneg hfits.1 (hlimit ▸ hsoEnd) hsum
    hplaced.lengthLi
  rcases tx.buildRetxPdu_cases nofBytes hqueue hpdu with
    ⟨hneg, -⟩ | ⟨hresends, heq⟩ | ⟨⟨-, hnot⟩, heq⟩
  · exact absurd hsize (not_le.mpr hneg)
  · rw [heq, hunderflow]
    refine ⟨?_, rfl, rfl⟩
    have hle := hresends.2.trans (Word.toInt32_le nofBytes)
    unfold requiredBufferSize at hle
    rw [hresends.1, if_pos (by decide)] at hle
    unfold resendPdu
    dsimp only at hle ⊢
    rw [List.length_append, AmdPduHeader.length_write]
    exact_mod_cast hle
  · have hrange : (range pdu retx).soStart ≤ (range pdu retx).soEnd ∧
        (range pdu retx).soEnd < 2 ^ 31 := by
      unfold range
      split_ifs with hseg
      · exact ⟨hfits.1 hseg, by omega⟩
      · have := hplaced.lt_soEndLimit
        exact ⟨Nat.zero_le _, by dsimp only; omega⟩
    obtain ⟨hlength, hsegUnderflow, hoverrun⟩ := tx.dropStale.buildSegment_fits
      (hfits.2.resolve_left hnot) hrange.1 hrange.2 hsum
    rw [heq, hunderflow, hsegUnderflow]
    exact ⟨hlength, rfl, hoverrun⟩

theorem segmentLength_congr (h : tx'.txSdu = tx.txSdu) (nofBytes : ℕ) :
    tx'.segmentLength nofBytes = tx.segmentLength nofBytes := by
  unfold segmentLength
  rw [h]

theorem dataFits_of_le (h : nofBytes ≤ headLen pdu) (tx : RlcAmTx) : tx.DataFits nofBytes := by
  have hhead : headLen pdu ≤ 6 := by
    unfold headLen
    rw [show AmdPduHeader.packedLength true 0 = 4 from rfl]
    split_ifs <;> omega
  have hroom : bufferTailroom = 12237 := rfl
  left
  unfold segmentLength
  cases tx.txSdu with
  | none => exact Nat.zero_le _
  | some sdu =>
    dsimp only
    omega

theorem retransmit_respects (hinv : tx.Inv) (hbounded : tx.Bounded)
    (hfits : tx.GrantFits nofBytes) :
    Respects nofBytes (tx.retransmit nofBytes).2 ∧
      ((tx.retransmit nofBytes).2.pdu = [] → (tx.retransmit nofBytes).1.DataFits nofBytes) := by
  obtain ⟨-, -, -, hsdu, hqueueSdus⟩ := tx.frame_retransmit nofBytes
  rcases tx.retxQueue_dropStale with hnil | ⟨retx, rest, pdu, hqueue, hpdu⟩
  · have hfront : tx.front = none := by rw [front, hnil]; rfl
    have hdata : tx.DataFits nofBytes := hfits.2 (by rw [hfront]; rfl)
    constructor
    · rw [retransmit_eq]
      unfold buildRetxPdu
      dsimp only
      rw [hnil]
      exact respects_none nofBytes
    · intro _
      unfold DataFits at hdata ⊢
      rw [segmentLength_congr hsdu, hqueueSdus]
      exact hdata
  · have hfits := hfits.1 _ (tx.front_eq hqueue hpdu)
    have hrespects := buildRetxPdu_respects hinv hbounded hqueue hpdu hfits
    rw [← retransmit_eq] at hrespects
    refine ⟨hrespects, fun hempty => ?_⟩
    rw [retransmit_eq] at hempty
    rcases tx.buildRetxPdu_cases nofBytes hqueue hpdu with ⟨hneg, -⟩ | ⟨-, heq⟩ | ⟨-, heq⟩
    · have hplaced := hinv.window hpdu
      have hsum := hplaced.sumLi
      have hbuf := hplaced.lt_soEndLimit
      have hlimit : soEndLimit = 2 ^ 30 := rfl
      have hsoEnd : retx.soEnd < soEndLimit := hbounded.dropStale retx (by rw [hqueue]; simp)
      have hsize := requiredBufferSize_nonneg hfits.1 (hlimit ▸ hsoEnd) (by omega) hplaced.lengthLi
      exact absurd hsize.1 (not_le.mpr hneg)
    · rw [heq] at hempty
      exact absurd hempty (tx.dropStale.pdu_resendPdu_ne_nil pdu retx)
    · rw [heq] at hempty
      have hsmall := (tx.dropStale.pdu_buildSegment_eq_nil_iff nofBytes pdu retx).mp hempty
      exact dataFits_of_le hsmall _

def WholeNacks (status : RlcStatusPdu) : Prop := ∀ n ∈ status.nacks, n.hasSo = false

theorem wholeNacks_noteSn (rx : RlcAmRx) (i : ℕ) (h : WholeNacks status) :
    WholeNacks (rx.noteSn i status) := by
  unfold RlcAmRx.noteSn
  cases rx.rxWindow.find? i with
  | none =>
    intro n hn
    rcases List.mem_append.mp hn with hn | hn
    · exact h n hn
    · rw [List.mem_singleton.mp hn]
      rfl
  | some pdu => exact h

theorem wholeNacks_removeLastNack (h : WholeNacks status) :
    WholeNacks (RlcAmRx.removeLastNack status) := by
  unfold RlcAmRx.removeLastNack
  dsimp only
  split_ifs
  · exact fun n hn => h n (List.dropLast_subset _ hn)
  · exact List.forall_mem_nil _
  · exact h

theorem wholeNacks_statusLoop (rx : RlcAmRx) (maxPduSize fuel i : ℕ)
    (h : WholeNacks status) : WholeNacks (rx.statusLoop maxPduSize fuel i status) := by
  induction fuel generalizing i status with
  | zero => exact h
  | succ fuel ih =>
    have hnext := wholeNacks_noteSn rx i h
    unfold RlcAmRx.statusLoop
    dsimp only
    split_ifs
    · exact wholeNacks_removeLastNack hnext
    · exact ih _ hnext
    · exact h

theorem sum_bitsOfNack {nacks : List RlcStatusNack} (h : ∀ n ∈ nacks, n.hasSo = false) :
    (nacks.map RlcStatusPdu.bitsOfNack).sum = 12 * nacks.length := by
  induction nacks with
  | nil => rfl
  | cons n nacks ih =>
    have hn : RlcStatusPdu.bitsOfNack n = 12 := by
      rw [RlcStatusPdu.bitsOfNack, h n List.mem_cons_self]
      rfl
    rw [List.map_cons, List.sum_cons, ih (List.forall_mem_cons.mp h).2, hn,
      List.length_cons]
    omega

theorem length_write_getStatusPdu (rx : RlcAmRx) (maxPduSize : ℕ) :
    (rx.getStatusPdu maxPduSize).write.length = (rx.getStatusPdu maxPduSize).packedLength := by
  have hstart : WholeNacks { ackSn := rx.vrR, nacks := [] } :=
    List.forall_mem_nil _
  have hsum := sum_bitsOfNack (wholeNacks_statusLoop rx maxPduSize rlcAmMod rx.vrR hstart)
  rw [RlcStatusPdu.length_write, RlcStatusPdu.length_bits, RlcStatusPdu.packedLength]
  unfold RlcAmRx.getStatusPdu
  rw [hsum]
  omega

theorem readPdu_respects (hinv : tx.Inv) (hbounded : tx.Bounded) (rx : RlcAmRx)
    (rand nofBytes : ℕ) (hfits : tx.EventFits (.readPdu rx rand nofBytes)) :
    Respects nofBytes (tx.readPdu rx rand nofBytes).2.2 := by
  by_cases hdata : tx.SendsData rx
  · obtain ⟨q, hq⟩ := tx.scheduleRetx_eq rand
    have hinv' : (tx.scheduleRetx rand).Inv := by
      rw [hq]
      exact hinv.congr rfl rfl rfl
    obtain ⟨hretx, hnext⟩ :=
      retransmit_respects hinv' (hbounded.scheduleRetx hinv rand) (hfits hdata)
    rcases tx.readPdu_of_sendsData rand nofBytes hdata with ⟨-, heq⟩ | ⟨hempty, heq⟩
    · rw [heq]
      exact hretx
    · have hnew := buildDataPdu_respects (hnext hempty)
      rw [heq]
      refine ⟨hnew.length, ?_, hnew.overrun⟩
      dsimp only
      rw [hretx.underflow, hnew.underflow]
      rfl
  · obtain ⟨t, -, hout | ⟨hfit, hout⟩⟩ := tx.readPdu_of_not_sendsData rand nofBytes hdata
    · rw [hout]
      exact respects_none nofBytes
    · rw [hout]
      exact ⟨(length_write_getStatusPdu rx nofBytes).le.trans hfit, rfl, rfl⟩

/-- Along every run whose grants all fit what is due, all grants are respected. -/
theorem grantRespected_of_eventFits (cfg : RlcAmConfig) (events : List Event)
    (h : EventRun.Along step EventFits (configure cfg) events) :
    EventRun.Along step GrantRespected (configure cfg) events := by
  refine EventRun.along_mono (I := fun tx => tx.Inv ∧ tx.Bounded)
    (fun tx e htx _ => ⟨htx.1.step e, htx.2.step htx.1 e⟩) (fun tx e htx hfits => ?_)
    ⟨inv_run cfg [], List.forall_mem_nil _⟩ h
  cases e with
  | readPdu rx rand nofBytes => exact readPdu_respects htx.1 htx.2 rx rand nofBytes hfits
  | _ => trivial

def eightSdus (grant : ℕ) : List Event :=
  let rx := RlcAmRx.init []
  List.replicate 8 (.writeSdu [0]) ++
    [.readPdu rx 0 40,
      .handleControlPdu ⟨_, RlcStatusPdu.decoded_first_nack⟩,
      .readPdu rx 0 grant]

def noPolling : RlcAmConfig where
  pollPdu := -1
  pollByte := -1
  maxRetxThresh := 4
  tStatusProhibit := 0
  txQueueLength := 128

theorem grantRespected_of_eventFits_eightSdus :
    EventRun.Along step GrantRespected (configure noPolling) (eightSdus 11) :=
  grantRespected_of_eventFits noPolling (eightSdus 11)
    ⟨trivial, trivial, trivial, trivial, trivial, trivial, trivial, trivial, fun _ => by decide,
      trivial, fun _ => by decide, trivial⟩

/-- A grant of ten bytes takes a segment of thirteen. -/
theorem segment_exceeds_grant : ¬ ∀ (cfg : RlcAmConfig) (events : List Event),
    EventRun.Along step GrantRespected (configure cfg) events := by
  intro h
  obtain ⟨-, -, -, -, -, -, -, -, -, -, hlast, -⟩ := h noPolling (eightSdus 10)
  exact absurd hlast.length (by decide)

end RlcAmTx
end SrsLte
