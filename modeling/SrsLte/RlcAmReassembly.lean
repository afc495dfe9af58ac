import SrsLte.EventRun
import SrsLte.RlcAmPdu
import SrsLte.RlcAmRx

/-!
# When the RLC AM receiver can reassemble what it has received

The reassembly takes the PDUs that are in sequence one after the other out of the window. A PDU that
does not fit the SDU buffer costs the buffer itself, and the next PDU in sequence is then added to
no buffer at all. Of the PDUs in sequence, only the last may thus not fit.
-/

namespace SrsLte

namespace RlcAmdRxPdu

def sduLengths (pdu : RlcAmdRxPdu) : List ℕ := pdu.header.li.takeWhile (· ≠ 0)

def firstPiece (pdu : RlcAmdRxPdu) : ℕ := pdu.sduLengths.headD pdu.buf.length

/-- The PDU fits a buffer that has `pending` bytes, and some of it is left behind its SDUs when it
is as long as a buffer. -/
def Fits (pending : ℕ) (pdu : RlcAmdRxPdu) : Prop :=
  pdu.firstPiece ≤ bufferTailroom - pending ∧ pdu.sduLengths.sum < bufferTailroom

def pendingAfter (pending : ℕ) (pdu : RlcAmdRxPdu) : ℕ :=
  if RlcFi.endAligned pdu.header.fi then 0
  else if pdu.sduLengths = [] then pending + pdu.buf.length
  else pdu.buf.length - pdu.sduLengths.sum

structure Sound (pdu : RlcAmdRxPdu) : Prop where
  li_le : pdu.header.li.sum ≤ pdu.buf.length
  buf_le : pdu.buf.length ≤ bufferTailroom

theorem Sound.sduLengths_le {pdu : RlcAmdRxPdu} (h : pdu.Sound) :
    pdu.sduLengths.sum ≤ pdu.buf.length := by
  have hli := h.li_le
  rw [← List.takeWhile_append_dropWhile (p := (· ≠ 0)) (l := pdu.header.li), List.sum_append] at hli
  exact le_trans (Nat.le_add_right _ _) hli

end RlcAmdRxPdu

namespace RlcAmRx

def AllButLastFit : ℕ → List RlcAmdRxPdu → Prop
  | _, [] => True
  | _, [_] => True
  | pending, pdu :: next :: pdus =>
    pdu.Fits pending ∧ AllButLastFit (pdu.pendingAfter pending) (next :: pdus)

/-- The PDUs in sequence from `sn` on, each one taken out of the window. -/
def inSequence : ℕ → OrderedMap ℕ RlcAmdRxPdu → ℕ → List RlcAmdRxPdu
  | 0, _, _ => []
  | fuel + 1, window, sn =>
    match window.find? sn with
    | none => []
    | some pdu => pdu :: inSequence fuel (window.erase sn) ((sn + 1) % rlcAmMod)

def withSdu (rx : RlcAmRx) (delivered : List Bytes) (sdu : Option Bytes) : RlcAmRx :=
  { rx with delivered := delivered, rxSdu := sdu }

theorem rxSdu_withSdu (rx : RlcAmRx) (delivered : List Bytes) (sdu : Option Bytes) :
    (rx.withSdu delivered sdu).rxSdu = sdu := rfl

variable {rx rx' : RlcAmRx} {sdu : Bytes} {pdu : RlcAmdRxPdu}

theorem withSdu_of_rxSdu {sdu : Option Bytes} (h : rx.rxSdu = sdu) :
    rx.withSdu rx.delivered sdu = rx := by
  rw [withSdu, ← h]

theorem maxBufferSizeBytes_eq : maxBufferSizeBytes = bufferTailroom + 1020 := rfl

theorem rxSdu_deliver (rx : RlcAmRx) (sdu : Bytes) : (rx.deliver sdu).rxSdu = some [] := rfl

theorem handleSegments_eq (li : List ℕ) (used : ℕ) (buf : Bytes) (rx : RlcAmRx)
    (hsdu : rx.rxSdu = some sdu) (hle : (li.takeWhile (· ≠ 0)).sum ≤ buf.length)
    (hused : used + buf.length ≤ bufferTailroom) (hlt : used < bufferTailroom) :
    ∃ delivered, rx.handleSegments li used buf =
      if (li.takeWhile (· ≠ 0)).headD 0 ≤ bufferTailroom - sdu.length ∧
          used + (li.takeWhile (· ≠ 0)).sum < bufferTailroom then
        .ok (rx.withSdu delivered (some (if li.takeWhile (· ≠ 0) = [] then sdu else [])),
          some (buf.drop (li.takeWhile (· ≠ 0)).sum))
      else .ok (rx.withSdu delivered none, none) := by
  induction li generalizing used buf rx sdu with
  | nil =>
    refine ⟨rx.delivered, ?_⟩
    rw [if_pos ⟨Nat.zero_le _, hlt⟩, handleSegments, List.takeWhile_nil, if_pos rfl,
      List.sum_nil, List.drop_zero, withSdu_of_rxSdu hsdu]
  | cons len li ih =>
    by_cases hlen : len = 0
    · have hnil : (len :: li).takeWhile (· ≠ 0) = [] := by simp [hlen]
      refine ⟨rx.delivered, ?_⟩
      rw [handleSegments, if_pos hlen, hnil, if_pos ⟨Nat.zero_le _, hlt⟩, if_pos rfl,
        List.sum_nil, List.drop_zero, withSdu_of_rxSdu hsdu]
    · have hcons : (len :: li).takeWhile (· ≠ 0) = len :: li.takeWhile (· ≠ 0) := by simp [hlen]
      rw [hcons] at hle ⊢
      rw [List.sum_cons] at hle ⊢
      rw [List.headD_cons, if_neg (List.cons_ne_nil _ _), handleSegments, if_neg hlen, hsdu]
      have hmax := maxBufferSizeBytes_eq
      by_cases hfirst : len ≤ bufferTailroom - sdu.length
      swap
      · exact ⟨rx.delivered, by rw [if_neg fun h => hfirst h.1]; simp only [if_neg hfirst]; rfl⟩
      by_cases hroom : 1020 + used + len < maxBufferSizeBytes
      swap
      · refine ⟨rx.delivered, ?_⟩
        rw [if_neg fun h => by omega]
        simp only [if_pos hfirst, if_neg hroom]
        rfl
      have hbuf : ¬ buf.length < len := by omega
      have hdrop : (buf.drop len).length = buf.length - len := List.length_drop
      obtain ⟨delivered, h⟩ := ih (used + len) (buf.drop len) (rx.deliver (sdu ++ buf.take len))
        (rxSdu_deliver rx _) (by omega) (by omega) (by omega)
      have hnext : (li.takeWhile (· ≠ 0)).headD 0 ≤ (li.takeWhile (· ≠ 0)).sum := by
        cases li.takeWhile (· ≠ 0) with
        | nil => exact le_rfl
        | cons l ls => exact Nat.le_add_right l ls.sum
      have hfits : ((li.takeWhile (· ≠ 0)).headD 0 ≤ bufferTailroom - ([] : Bytes).length ∧
          used + len + (li.takeWhile (· ≠ 0)).sum < bufferTailroom) ↔
          len ≤ bufferTailroom - sdu.length ∧
            used + (len + (li.takeWhile (· ≠ 0)).sum) < bufferTailroom := by
        rw [List.length_nil]
        omega
      refine ⟨delivered, ?_⟩
      simp only [hfits, ite_self, List.drop_drop] at h
      simp only [takeBytes, if_pos hfirst, if_pos hroom, if_neg hbuf, h]
      rfl

theorem handleLastSegment_of_fits (rx : RlcAmRx) (fi : ℕ) (buf : Bytes)
    (hsdu : rx.rxSdu = some sdu) (hfits : bufferTailroom - sdu.length ≥ buf.length) :
    ∃ delivered, rx.handleLastSegment fi buf =
      .ok (rx.withSdu delivered (some (if RlcFi.endAligned fi then [] else sdu ++ buf))) := by
  rw [handleLastSegment, hsdu]
  by_cases hend : RlcFi.endAligned fi = true
  · exact ⟨rx.delivered ++ [sdu ++ buf], by simp only [if_pos hfits, if_pos hend]; rfl⟩
  · exact ⟨rx.delivered, by simp only [if_pos hfits, if_neg hend]; rfl⟩

theorem reassemblePdu_of_fits (hpdu : pdu.Sound)
    (hsdu : rx.rxSdu = some sdu) (hfits : pdu.Fits sdu.length) :
    ∃ delivered left, left.length = pdu.pendingAfter sdu.length ∧
      rx.reassemblePdu pdu =
        .ok (rx.withSdu delivered (some left)).moveRxWindow := by
  have hbuf := hpdu.buf_le
  have hle := hpdu.sduLengths_le
  obtain ⟨hfirst, hsum⟩ := hfits
  have hhead : pdu.sduLengths.headD 0 ≤ bufferTailroom - sdu.length := by
    rw [RlcAmdRxPdu.firstPiece] at hfirst
    cases hlengths : pdu.sduLengths with
    | nil => exact Nat.zero_le _
    | cons len lens => rwa [hlengths] at hfirst
  obtain ⟨delivered, h⟩ := handleSegments_eq pdu.header.li 0 pdu.buf rx hsdu hle
    (by rw [Nat.zero_add]; exact hbuf) (by decide)
  rw [if_pos ⟨hhead, by rw [Nat.zero_add]; exact hsum⟩] at h
  have hlength : (pdu.buf.drop pdu.sduLengths.sum).length = pdu.buf.length - pdu.sduLengths.sum :=
    List.length_drop
  have hlast : bufferTailroom - (if pdu.sduLengths = [] then sdu else []).length ≥
      (pdu.buf.drop pdu.sduLengths.sum).length := by
    rw [hlength]
    split_ifs with hnil
    · rw [RlcAmdRxPdu.firstPiece, hnil, List.headD_nil] at hfirst
      omega
    · simp only [List.length_nil]
      omega
  obtain ⟨delivered', h'⟩ := handleLastSegment_of_fits
    (rx.withSdu delivered (some (if pdu.sduLengths = [] then sdu else []))) pdu.header.fi
    (pdu.buf.drop pdu.sduLengths.sum) (rxSdu_withSdu _ _ _) hlast
  refine ⟨delivered', if RlcFi.endAligned pdu.header.fi then []
    else (if pdu.sduLengths = [] then sdu else []) ++ pdu.buf.drop pdu.sduLengths.sum, ?_, ?_⟩
  · rw [RlcAmdRxPdu.pendingAfter]
    split_ifs with hend hnil
    · rfl
    · rw [List.length_append, hlength, hnil, List.sum_nil, Nat.sub_zero]
    · rw [List.nil_append, hlength]
  · change rx.handleSegments pdu.header.li 0 pdu.buf =
      .ok (rx.withSdu delivered (some (if pdu.sduLengths = [] then sdu else [])),
        some (pdu.buf.drop pdu.sduLengths.sum)) at h
    rw [reassemblePdu, h]
    simp only [h']
    rfl

theorem reassemblePdu_of_not_fits
    (hpdu : pdu.Sound) (hsdu : rx.rxSdu = some sdu) (hfits : ¬ pdu.Fits sdu.length) :
    ∃ delivered, rx.reassemblePdu pdu = .ok (rx.withSdu delivered none).moveRxWindow := by
  have hused : 0 + pdu.buf.length ≤ bufferTailroom := by
    rw [Nat.zero_add]
    exact hpdu.buf_le
  obtain ⟨delivered, h⟩ := handleSegments_eq pdu.header.li 0 pdu.buf rx hsdu
    hpdu.sduLengths_le hused (by decide)
  by_cases hsegments : pdu.sduLengths.headD 0 ≤ bufferTailroom - sdu.length ∧
      0 + pdu.sduLengths.sum < bufferTailroom
  · replace h := h.trans (if_pos hsegments)
    -- The SDUs inside the PDU fit, so it has none, and what does not fit is all of it.
    have hnil : pdu.sduLengths = [] := by
      by_contra hne
      obtain ⟨len, lens, hcons⟩ := List.exists_cons_of_ne_nil hne
      refine hfits ⟨?_, by omega⟩
      rw [RlcAmdRxPdu.firstPiece, hcons]
      rw [hcons] at hsegments
      exact hsegments.1
    have hlast : ¬ bufferTailroom - sdu.length ≥ pdu.buf.length := by
      intro hroom
      refine hfits ⟨?_, by omega⟩
      rwa [RlcAmdRxPdu.firstPiece, hnil]
    refine ⟨delivered, ?_⟩
    change List.takeWhile _ _ = _ at hnil
    rw [hnil, if_pos rfl, List.sum_nil, List.drop_zero] at h
    rw [reassemblePdu, h]
    change (handleLastSegment _ pdu.header.fi pdu.buf).map _ = _
    rw [handleLastSegment, rxSdu_withSdu]
    simp only [if_neg hlast]
    rfl
  · replace h := h.trans (if_neg hsegments)
    exact ⟨delivered, by rw [reassemblePdu, h]⟩

theorem reassemblePdu_of_none (hsdu : rx.rxSdu = none) (pdu : RlcAmdRxPdu) :
    (rx.reassemblePdu pdu).isOk = false := by
  have hlast (buf : Bytes) : rx.handleLastSegment pdu.header.fi buf = .error .nullSdu := by
    simp only [handleLastSegment, hsdu]
  rw [reassemblePdu]
  cases pdu.header.li with
  | nil => simp only [handleSegments, hlast, isOk_map, isOk_error]
  | cons len li =>
    by_cases hlen : len = 0
    · simp only [handleSegments, if_pos hlen, hlast, isOk_map, isOk_error]
    · simp only [handleSegments, if_neg hlen, hsdu, isOk_error]

theorem isOk_reassembleLoop_of_none (fuel : ℕ) (hsdu : rx.rxSdu = none) :
    (reassembleLoop fuel rx).isOk = true ↔ inSequence fuel rx.rxWindow rx.vrR = [] := by
  cases fuel with
  | zero => exact ⟨fun _ => rfl, fun _ => rfl⟩
  | succ fuel =>
    rw [reassembleLoop, inSequence]
    cases rx.rxWindow.find? rx.vrR with
    | none => exact ⟨fun _ => rfl, fun _ => rfl⟩
    | some pdu =>
      have hfault := reassemblePdu_of_none hsdu pdu
      cases hpdu : rx.reassemblePdu pdu with
      | ok rx' =>
        rw [hpdu] at hfault
        exact absurd hfault.symm Bool.false_ne_true
      | error fault => simp [hpdu]

theorem isOk_reassembleLoop (fuel : ℕ) (hsdu : rx.rxSdu = some sdu)
    (hsound : ∀ sn pdu, rx.rxWindow.find? sn = some pdu → pdu.Sound) :
    (reassembleLoop fuel rx).isOk = true ↔
      AllButLastFit sdu.length (inSequence fuel rx.rxWindow rx.vrR) := by
  induction fuel generalizing rx sdu with
  | zero => exact ⟨fun _ => trivial, fun _ => rfl⟩
  | succ fuel ih =>
    rw [reassembleLoop, inSequence]
    cases hfind : rx.rxWindow.find? rx.vrR with
    | none => exact ⟨fun _ => trivial, fun _ => rfl⟩
    | some pdu =>
      have hpdu := hsound _ _ hfind
      have hsound' (sn : ℕ) (pdu' : RlcAmdRxPdu)
          (h : (rx.rxWindow.erase rx.vrR).find? sn = some pdu') : pdu'.Sound := by
        rw [OrderedMap.find?_erase] at h
        split_ifs at h
        exact hsound sn pdu' h
      by_cases hfits : pdu.Fits sdu.length
      · obtain ⟨delivered, left, hleft, h⟩ := reassemblePdu_of_fits hpdu hsdu hfits
        have hloop : (reassembleLoop fuel (rx.withSdu delivered (some left)).moveRxWindow).isOk ↔
            AllButLastFit left.length
              (inSequence fuel (rx.rxWindow.erase rx.vrR) ((rx.vrR + 1) % rlcAmMod)) :=
          ih rfl hsound'
        simp only [h]
        rw [hloop, hleft]
        cases inSequence fuel (rx.rxWindow.erase rx.vrR) ((rx.vrR + 1) % rlcAmMod) with
        | nil => exact Iff.rfl
        | cons next pdus => exact (and_iff_right hfits).symm
      · obtain ⟨delivered, h⟩ := reassemblePdu_of_not_fits hpdu hsdu hfits
        have hloop : (reassembleLoop fuel (rx.withSdu delivered none).moveRxWindow).isOk ↔
            inSequence fuel (rx.rxWindow.erase rx.vrR) ((rx.vrR + 1) % rlcAmMod) = [] :=
          isOk_reassembleLoop_of_none fuel rfl
        simp only [h]
        rw [hloop]
        cases inSequence fuel (rx.rxWindow.erase rx.vrR) ((rx.vrR + 1) % rlcAmMod) with
        | nil => exact ⟨fun _ => trivial, fun _ => rfl⟩
        | cons next pdus =>
          exact ⟨fun h => absurd h (List.cons_ne_nil _ _), fun h => absurd h.1 hfits⟩

theorem isOk_reassembleRxSdus (hsound : ∀ sn pdu, rx.rxWindow.find? sn = some pdu → pdu.Sound) :
    rx.reassembleRxSdus.isOk = true ↔ AllButLastFit (rx.rxSdu.getD []).length
      (inSequence rx.rxWindow.entries.length rx.rxWindow rx.vrR) :=
  isOk_reassembleLoop _ rfl hsound

theorem handleSegments_eq_withSdu {li : List ℕ} {used : ℕ} {buf : Bytes}
    {left : Option Bytes} (h : rx.handleSegments li used buf = .ok (rx', left)) :
    ∃ delivered sdu, rx' = rx.withSdu delivered sdu := by
  induction li generalizing used buf rx with
  | nil =>
    cases h
    exact ⟨_, _, (withSdu_of_rxSdu rfl).symm⟩
  | cons len li ih =>
    rw [handleSegments] at h
    by_cases hlen : len = 0
    · rw [if_pos hlen] at h
      cases h
      exact ⟨_, _, (withSdu_of_rxSdu rfl).symm⟩
    · rw [if_neg hlen] at h
      cases hsdu : rx.rxSdu with
      | none => simp only [hsdu] at h; cases h
      | some sdu =>
        simp only [hsdu, takeBytes] at h
        split_ifs at h
        · cases h
          exact ⟨rx.delivered, none, rfl⟩
        · obtain ⟨delivered, sdu', h'⟩ := ih h
          exact ⟨delivered, sdu', h'⟩
        · cases h
          exact ⟨rx.delivered, none, rfl⟩
        · cases h
          exact ⟨rx.delivered, none, rfl⟩

theorem handleLastSegment_eq_withSdu {fi : ℕ} {buf : Bytes}
    (h : rx.handleLastSegment fi buf = .ok rx') :
    ∃ delivered sdu, rx' = rx.withSdu delivered sdu := by
  rw [handleLastSegment] at h
  cases hsdu : rx.rxSdu with
  | none => simp only [hsdu] at h; cases h
  | some sdu =>
    simp only [hsdu] at h
    split_ifs at h <;> cases h
    · exact ⟨_, some [], rfl⟩
    · exact ⟨rx.delivered, some (sdu ++ buf), rfl⟩
    · exact ⟨rx.delivered, none, rfl⟩

theorem reassemblePdu_eq_moveRxWindow (h : rx.reassemblePdu pdu = .ok rx') :
    ∃ delivered sdu, rx' = (rx.withSdu delivered sdu).moveRxWindow := by
  rw [reassemblePdu] at h
  cases hsegments : rx.handleSegments pdu.header.li 0 pdu.buf with
  | error fault => simp only [hsegments] at h; cases h
  | ok r =>
    obtain ⟨rx₁, left⟩ := r
    obtain ⟨delivered, sdu, rfl⟩ := handleSegments_eq_withSdu hsegments
    simp only [hsegments] at h
    cases left with
    | none =>
      cases h
      exact ⟨delivered, sdu, rfl⟩
    | some buf =>
      cases hlast : (rx.withSdu delivered sdu).handleLastSegment pdu.header.fi buf with
      | error fault => simp only [hlast] at h; cases h
      | ok rx₂ =>
        obtain ⟨delivered', sdu', rfl⟩ := handleLastSegment_eq_withSdu hlast
        simp only [hlast] at h
        cases h
        exact ⟨delivered', sdu', rfl⟩

theorem reassembleLoop_succ {fuel : ℕ} (h : reassembleLoop (fuel + 1) rx = .ok rx') :
    rx.rxWindow.find? rx.vrR = none ∧ rx' = rx ∨
      ∃ delivered sdu, (rx.rxWindow.find? rx.vrR).isSome ∧
        reassembleLoop fuel (rx.withSdu delivered sdu).moveRxWindow = .ok rx' := by
  rw [reassembleLoop] at h
  cases hfind : rx.rxWindow.find? rx.vrR with
  | none =>
    simp only [hfind] at h
    cases h
    exact Or.inl ⟨rfl, rfl⟩
  | some pdu =>
    cases hpdu : rx.reassemblePdu pdu with
    | error fault => simp only [hfind, hpdu] at h; cases h
    | ok rx₁ =>
      obtain ⟨delivered, sdu, rfl⟩ := reassemblePdu_eq_moveRxWindow hpdu
      simp only [hfind, hpdu] at h
      exact Or.inr ⟨delivered, sdu, rfl, h⟩

theorem reassembleLoop_invariant {P : RlcAmRx → Prop} {fuel : ℕ}
    (hround : ∀ rx delivered sdu, P rx → (rx.rxWindow.find? rx.vrR).isSome →
      P (rx.withSdu delivered sdu).moveRxWindow)
    (hrx : P rx) (h : reassembleLoop fuel rx = .ok rx') : P rx' := by
  induction fuel generalizing rx with
  | zero =>
    cases h
    exact hrx
  | succ fuel ih =>
    obtain ⟨-, rfl⟩ | ⟨delivered, sdu, hsome, hnext⟩ := reassembleLoop_succ h
    · exact hrx
    · exact ih (hround rx delivered sdu hrx hsome) hnext

end RlcAmRx
end SrsLte

/-!
The receiver is driven by the PDUs that arrive and by its reordering timer.
-/

namespace SrsLte.RlcAmRx

inductive Event
  | pdu (payload : Bytes)
  | timerExpired

/-- A call that would touch memory it must not leaves the state as it was. The timer expires while
it is running. -/
def step (rx : RlcAmRx) : Event → RlcAmRx
  | .pdu payload =>
    match rx.writePdu payload with
    | .ok r => r.1
    | .error _ => rx
  | .timerExpired => if rx.reorderingTimer then rx.timerExpired else rx

theorem exists_requestStatus (rx : RlcAmRx) (p : Bool) :
    ∃ d, rx.requestStatus p = { rx with doStatus := d } := by
  rw [requestStatus]
  split
  · exact ⟨true, rfl⟩
  · exact ⟨rx.doStatus, rfl⟩

theorem exists_checkPollBit (rx : RlcAmRx) (header : AmdPduHeader) :
    ∃ p d, rx.checkPollBit header = { rx with pollReceived := p, doStatus := d } := by
  rw [checkPollBit]
  split
  · exact ⟨true, _, rfl⟩
  · exact ⟨rx.pollReceived, rx.doStatus, rfl⟩

theorem exists_updateVrH (rx : RlcAmRx) (sn : ℕ) :
    ∃ vrH, rx.updateVrH sn = { rx with vrH := vrH } := by
  rw [updateVrH]
  split
  · exact ⟨(sn + 1) % rlcAmMod, rfl⟩
  · exact ⟨rx.vrH, rfl⟩

theorem exists_advanceVrMs (fuel : ℕ) (rx : RlcAmRx) :
    ∃ vrMs, advanceVrMs fuel rx = { rx with vrMs := vrMs } := by
  induction fuel generalizing rx with
  | zero => exact ⟨rx.vrMs, rfl⟩
  | succ fuel ih =>
    rw [advanceVrMs]
    cases rx.rxWindow.find? rx.vrMs with
    | none => exact ⟨rx.vrMs, rfl⟩
    | some pdu =>
      obtain ⟨vrMs, h⟩ := ih { rx with vrMs := (rx.vrMs + 1) % rlcAmMod }
      exact ⟨vrMs, h⟩

theorem exists_store (rx : RlcAmRx) (payload : Bytes) (header : AmdPduHeader) :
    ∃ vrMs vrH p d, rx.store payload header =
      { rx with
        rxWindow := rx.rxWindow.insert header.sn ⟨header, payload⟩
        vrMs := vrMs
        vrH := vrH
        pollReceived := p
        doStatus := d } := by
  rw [store]
  obtain ⟨vrH, hvrH⟩ := exists_updateVrH
    { rx with rxWindow := rx.rxWindow.insert header.sn ⟨header, payload⟩ } header.sn
  obtain ⟨vrMs, hvrMs⟩ := exists_advanceVrMs
    (rx.rxWindow.insert header.sn ⟨header, payload⟩).entries.length
    { rx with rxWindow := rx.rxWindow.insert header.sn ⟨header, payload⟩, vrH := vrH }
  obtain ⟨p, d, hpoll⟩ := exists_checkPollBit
    { rx with
      rxWindow := rx.rxWindow.insert header.sn ⟨header, payload⟩, vrH := vrH, vrMs := vrMs } header
  refine ⟨vrMs, vrH, p, d, ?_⟩
  simp only [hvrH, hvrMs, hpoll]

theorem exists_timers (rx : RlcAmRx) :
    ∃ vrX timer, rx.stopTimer.startTimer = { rx with vrX := vrX, reorderingTimer := timer } := by
  have hstop : ∃ timer, rx.stopTimer = { rx with reorderingTimer := timer } := by
    rw [stopTimer]
    split
    · exact ⟨false, rfl⟩
    · exact ⟨rx.reorderingTimer, rfl⟩
  obtain ⟨timer, hstop⟩ := hstop
  rw [hstop, startTimer]
  split
  · exact ⟨rx.vrH, true, rfl⟩
  · exact ⟨rx.vrX, timer, rfl⟩

theorem exists_timerExpired (rx : RlcAmRx) :
    ∃ vrMs vrX d timer, rx.timerExpired =
      { rx with vrMs := vrMs, vrX := vrX, doStatus := d, reorderingTimer := timer } := by
  obtain ⟨vrMs, h⟩ := exists_advanceVrMs rx.rxWindow.entries.length
    { rx with reorderingTimer := false, vrMs := rx.vrX }
  rw [timerExpired]
  simp only [h]
  by_cases hpoll : rx.pollReceived = true
  · simp only [if_pos hpoll]
    split
    · exact ⟨vrMs, rx.vrH, true, true, rfl⟩
    · exact ⟨vrMs, rx.vrX, true, false, rfl⟩
  · simp only [if_neg hpoll]
    split
    · exact ⟨vrMs, rx.vrH, rx.doStatus, true, rfl⟩
    · exact ⟨vrMs, rx.vrX, rx.doStatus, false, rfl⟩

def Stores (rx : RlcAmRx) (payload : Bytes) (header : AmdPduHeader) : Prop :=
  header.li.sum ≤ payload.length ∧ rx.insideRxWindow header.sn = true ∧
    rx.rxWindow.find? header.sn = none ∧ payload.length ≤ bufferTailroom

variable {rx rx' : RlcAmRx} {payload : Bytes} {header : AmdPduHeader} {segments : List RlcAmdRxPdu}
  {segment : RlcAmdRxPdu}

theorem handleDataPdu_of_stores (h : Stores rx payload header) :
    rx.handleDataPdu payload header =
      (rx.store payload header).reassembleRxSdus.map fun rx => rx.stopTimer.startTimer := by
  obtain ⟨hli, hinside, hfind, hlength⟩ := h
  have hcorrupted : ¬ corrupted header payload = true := by
    rw [corrupted, decide_eq_true_iff]
    omega
  rw [handleDataPdu, if_neg hcorrupted, if_neg (not_not_intro hinside), hfind, if_neg (by simp),
    if_neg (Nat.not_lt.mpr hlength)]

theorem handleDataPdu_of_not_stores (h : ¬ Stores rx payload header) :
    ∃ p, rx.handleDataPdu payload header = .ok (rx.requestStatus p) := by
  rw [handleDataPdu]
  split_ifs with hcorrupted hinside hfind hlength
  · exact ⟨false, rfl⟩
  · exact ⟨header.p, rfl⟩
  · exact ⟨false, rfl⟩
  · have hli : header.li.sum ≤ payload.length := by
      rw [corrupted, decide_eq_true_iff] at hcorrupted
      omega
    exact absurd ⟨hli, hinside, by simpa using hfind, Nat.not_lt.mp hlength⟩ h
  · exact ⟨header.p, rfl⟩

theorem handleDataPdu_cases (h : rx.handleDataPdu payload header = .ok rx') :
    (∃ p, rx' = rx.requestStatus p) ∨
      Stores rx payload header ∧
        ∃ rx₁, (rx.store payload header).reassembleRxSdus = .ok rx₁ ∧
          rx' = rx₁.stopTimer.startTimer := by
  by_cases hstores : Stores rx payload header
  · rw [handleDataPdu_of_stores hstores] at h
    obtain ⟨rx₁, hreassemble, hrx'⟩ := map_eq_ok_iff.mp h
    exact Or.inr ⟨hstores, rx₁, hreassemble, hrx'.symm⟩
  · obtain ⟨p, hp⟩ := handleDataPdu_of_not_stores hstores
    rw [hp] at h
    cases h
    exact Or.inl ⟨p, rfl⟩

/-- The list of segments at `sn` is replaced. -/
def withSegments (rx : RlcAmRx) (sn : ℕ) (segments : List RlcAmdRxPdu) : RlcAmRx :=
  { rx with rxSegments := rx.rxSegments.insert sn segments }

/-- The segment is the last one of a PDU whose other segments have been received in order. -/
def Completes (segments : List RlcAmdRxPdu) (segment : RlcAmdRxPdu) : Prop :=
  segment.header.so ≠ 0 ∧ segment.header.so = nextOffset segments ∧
    contiguous 0 (segments ++ [segment]) = true ∧ segment.header.lsf = true

theorem addSegmentAndCheck_of_completes (rx : RlcAmRx) (sn : ℕ) (h : Completes segments segment) :
    rx.addSegmentAndCheck sn segments segment =
      match reconstructHeader (segments ++ [segment]) with
      | .error fault => .error fault
      | .ok header =>
        ((rx.withSegments sn (segments ++ [segment])).handleDataPdu
          ((segments ++ [segment]).flatMap RlcAmdRxPdu.buf) header).map fun rx => (rx, true) := by
  obtain ⟨hfirst, hnext, hcontiguous, hlsf⟩ := h
  rw [addSegmentAndCheck, if_neg hfirst, if_neg (not_not_intro hnext)]
  simp only [if_neg (not_not_intro hcontiguous), if_neg (not_not_intro hlsf)]
  rfl

theorem addSegmentAndCheck_of_not_completes (rx : RlcAmRx) (sn : ℕ)
    (h : ¬ Completes segments segment) :
    rx.addSegmentAndCheck sn segments segment = .ok (rx, false) ∨
      ∃ segments', (∀ s ∈ segments', s ∈ segments ∨ s = segment) ∧
        rx.addSegmentAndCheck sn segments segment = .ok (rx.withSegments sn segments', false) := by
  rw [addSegmentAndCheck]
  by_cases hfirst : segment.header.so = 0
  · rw [if_pos hfirst]
    exact Or.inr ⟨[segment], fun s hs => Or.inr (List.mem_singleton.mp hs), rfl⟩
  rw [if_neg hfirst]
  by_cases hnext : segment.header.so = nextOffset segments
  · rw [if_neg (not_not_intro hnext)]
    refine Or.inr ⟨segments ++ [segment], fun s hs => ?_, ?_⟩
    · rcases List.mem_append.mp hs with hs | hs
      · exact Or.inl hs
      · exact Or.inr (List.mem_singleton.mp hs)
    by_cases hcontiguous : contiguous 0 (segments ++ [segment]) = true
    · have hlsf : ¬ segment.header.lsf = true := fun hlsf =>
        h ⟨hfirst, hnext, hcontiguous, hlsf⟩
      simp only [if_neg (not_not_intro hcontiguous), if_pos hlsf]
      rfl
    · simp only [if_pos hcontiguous]
      rfl
  · rw [if_pos hnext]
    exact Or.inl rfl

theorem addSegmentAndCheck_cases {sn : ℕ} {complete : Bool}
    (h : rx.addSegmentAndCheck sn segments segment = .ok (rx', complete)) :
    (rx' = rx ∨ ∃ segments', rx' = rx.withSegments sn segments') ∨
      ∃ header, (rx.withSegments sn (segments ++ [segment])).handleDataPdu
        ((segments ++ [segment]).flatMap RlcAmdRxPdu.buf) header = .ok rx' := by
  by_cases hcompletes : Completes segments segment
  · rw [addSegmentAndCheck_of_completes rx sn hcompletes] at h
    cases hheader : reconstructHeader (segments ++ [segment]) with
    | error fault => simp only [hheader] at h; cases h
    | ok header =>
      simp only [hheader] at h
      obtain ⟨rx₁, hhandle, hrx'⟩ := map_eq_ok_iff.mp h
      cases hrx'
      exact Or.inr ⟨header, hhandle⟩
  · rcases addSegmentAndCheck_of_not_completes rx sn hcompletes with heq | ⟨segments', -, heq⟩
    · rw [heq] at h
      cases h
      exact Or.inl (Or.inl rfl)
    · rw [heq] at h
      cases h
      exact Or.inl (Or.inr ⟨segments', rfl⟩)

theorem handleDataPduSegment_cases (h : rx.handleDataPduSegment payload header = .ok rx') :
    (∃ p, rx' = rx.requestStatus p) ∨
      rx.insideRxWindow header.sn = true ∧
        (rx.rxSegments.find? header.sn = none ∧
            rx' = ((rx.withSegments header.sn [⟨header, payload⟩]).updateVrH
              header.sn).checkPollBit header ∨
          ∃ segments r, rx.rxSegments.find? header.sn = some segments ∧
            (rx.requestStatus header.p).addSegmentAndCheck header.sn segments
              ⟨header, payload⟩ = .ok r ∧
            rx' =
              if r.2 then { r.1 with rxSegments := r.1.rxSegments.erase header.sn } else r.1) := by
  rw [handleDataPduSegment] at h
  by_cases hinside : rx.insideRxWindow header.sn = true
  · rw [if_neg (not_not_intro hinside)] at h
    by_cases hlength : bufferTailroom < payload.length
    · rw [if_pos hlength] at h
      cases h
      exact Or.inl ⟨false, rfl⟩
    rw [if_neg hlength] at h
    cases hfind : rx.rxSegments.find? header.sn with
    | none =>
      simp only [hfind] at h
      cases h
      exact Or.inr ⟨hinside, Or.inl ⟨rfl, rfl⟩⟩
    | some segments =>
      simp only [hfind] at h
      obtain ⟨r, hadd, hrx'⟩ := map_eq_ok_iff.mp h
      exact Or.inr ⟨hinside, Or.inr ⟨segments, r, rfl, hadd, hrx'.symm⟩⟩
  · rw [if_pos hinside] at h
    cases h
    exact Or.inl ⟨header.p, rfl⟩

theorem writePdu_cases {status : Option RlcStatusPdu}
    (h : rx.writePdu payload = .ok (rx', status)) :
    rx' = rx ∨ ∃ header rest, rlcAmIsControlPdu payload = false ∧
      AmdPduHeader.read payload = .ok (header, rest) ∧
      (header.rf = true ∧ rx.handleDataPduSegment rest header = .ok rx' ∨
        header.rf = false ∧ rx.handleDataPdu rest header = .ok rx') := by
  rw [writePdu] at h
  split_ifs at h with hlength hcontrol
  · cases h
    exact Or.inl rfl
  · obtain ⟨s, -, hr⟩ := map_eq_ok_iff.mp h
    cases hr
    exact Or.inl rfl
  · have hdata : rlcAmIsControlPdu payload = false := by simpa using hcontrol
    cases hread : AmdPduHeader.read payload with
    | error fault => simp only [hread] at h; cases h
    | ok r =>
      obtain ⟨header, rest⟩ := r
      simp only [hread] at h
      refine Or.inr ⟨header, rest, hdata, rfl, ?_⟩
      by_cases hrf : header.rf = true
      · rw [if_pos hrf] at h
        obtain ⟨rx₁, hhandle, hr⟩ := map_eq_ok_iff.mp h
        cases hr
        exact Or.inl ⟨hrf, hhandle⟩
      · rw [if_neg hrf] at h
        obtain ⟨rx₁, hhandle, hr⟩ := map_eq_ok_iff.mp h
        cases hr
        exact Or.inr ⟨by simpa using hrf, hhandle⟩

end SrsLte.RlcAmRx
