import SrsLte.RlcAmReassembly

/-!
# Robustness of the RLC AM receiver

Which PDUs, in which states, make the receiver read behind the end of a PDU, write behind the end of
an array or lose its SDU buffer.
-/

namespace SrsLte

namespace RlcAmdRxPdu

/-- How many length indicators the segment adds to those of its PDU when other segments follow. -/
def indicators (segment : RlcAmdRxPdu) : ℕ :=
  segment.header.li.length -
      (if segment.buf.length < segment.header.li.sum % 2 ^ 16 then 1 else 0) +
    if RlcFi.endAligned segment.header.fi then 1 else 0

end RlcAmdRxPdu

namespace RlcAmRx

open EventRun (Along along_congr)

/-- The array of length indicators, with `n` of them in it, has room for those of the segments. -/
def IndicatorsFit : ℕ → List RlcAmdRxPdu → Prop
  | _, [] => True
  | n, segment :: segments =>
    n + segment.header.li.length ≤ rlcAmWindowSize ∧
      IndicatorsFit (n + segment.indicators) segments

def Reconstruction.counted (r : Reconstruction) (segment : RlcAmdRxPdu) : Reconstruction :=
  let li := r.li ++ carried r.carryover segment.header.li
  let nBytes := segment.buf.length
  let carryover := if segment.header.li = [] then r.carryover else 0
  let count := segment.header.li.sum % 2 ^ 16
  if count ≤ nBytes then
    { li := li, carryover := (carryover + (nBytes - count)) % 2 ^ 16 }
  else
    { li := li.dropLast
      carryover := (nBytes + li.getLastD 0 + (2 ^ 16 - count)) % 2 ^ 16 }

def Reconstruction.withSegment (r : Reconstruction) (segment : RlcAmdRxPdu) (more : Bool) :
    Reconstruction :=
  if RlcFi.endAligned segment.header.fi ∧ more then
    { li := (r.counted segment).li ++ [(r.counted segment).carryover], carryover := 0 }
  else r.counted segment

def Reconstruction.withSegments : Reconstruction → List RlcAmdRxPdu → Reconstruction
  | r, [] => r
  | r, segment :: segments => (r.withSegment segment (segments ≠ [])).withSegments segments

theorem pushLis_eq (li lens : List ℕ) (h : li.length ≤ rlcAmWindowSize) :
    pushLis li lens =
      if li.length + lens.length ≤ rlcAmWindowSize then .ok (li ++ lens)
      else .error .liOverflow := by
  induction lens generalizing li with
  | nil => rw [pushLis, List.length_nil, Nat.add_zero, if_pos h, List.append_nil]
  | cons len lens ih =>
    rw [pushLis, pushLi, List.length_cons]
    by_cases hlt : li.length < rlcAmWindowSize
    · have hlength : (li ++ [len]).length = li.length + 1 := List.length_append
      simp only [if_pos hlt]
      rw [ih (li ++ [len]) (by omega), hlength, List.append_assoc, List.singleton_append,
        Nat.add_right_comm, Nat.add_assoc]
    · have hgt : ¬ li.length + (lens.length + 1) ≤ rlcAmWindowSize := by omega
      simp only [if_neg hlt, if_neg hgt]

theorem length_carried (carryover : ℕ) (li : List ℕ) :
    (carried carryover li).length = li.length := by
  cases li <;> rfl

theorem length_counted (r : Reconstruction) (segment : RlcAmdRxPdu) :
    (r.counted segment).li.length = r.li.length + segment.header.li.length -
      if segment.buf.length < segment.header.li.sum % 2 ^ 16 then 1 else 0 := by
  have hlength : (r.li ++ carried r.carryover segment.header.li).length =
      r.li.length + segment.header.li.length := by
    rw [List.length_append, length_carried]
  by_cases hle : segment.header.li.sum % 2 ^ 16 ≤ segment.buf.length
  · simp only [Reconstruction.counted, if_pos hle, if_neg (Nat.not_lt.mpr hle)]
    exact hlength
  · simp only [Reconstruction.counted, if_neg hle, if_pos (Nat.not_le.mp hle)]
    rw [List.length_dropLast, hlength]

theorem pos_of_over {segment : RlcAmdRxPdu}
    (h : segment.buf.length < segment.header.li.sum % 2 ^ 16) : 0 < segment.header.li.length := by
  cases hli : segment.header.li with
  | nil =>
    rw [hli] at h
    exact absurd h (Nat.not_lt_zero _)
  | cons len lens => exact Nat.succ_pos _

theorem length_withSegment (r : Reconstruction) (segment : RlcAmdRxPdu) :
    (r.withSegment segment true).li.length = r.li.length + segment.indicators := by
  have hpos := @pos_of_over segment
  rw [Reconstruction.withSegment, RlcAmdRxPdu.indicators]
  by_cases hend : RlcFi.endAligned segment.header.fi = true
  · rw [if_pos ⟨hend, rfl⟩, if_pos hend, List.length_append, length_counted, List.length_singleton]
    split_ifs at hpos ⊢ <;> omega
  · rw [if_neg fun h => hend h.1, if_neg hend, length_counted]
    split_ifs at hpos ⊢ <;> omega

theorem reconstructSegment_eq (r : Reconstruction) (segment : RlcAmdRxPdu) (more : Bool)
    (hr : r.li.length ≤ rlcAmWindowSize) :
    reconstructSegment r segment more =
      if r.li.length + segment.header.li.length ≤ rlcAmWindowSize ∧
          (r.withSegment segment more).li.length ≤ rlcAmWindowSize then
        .ok (r.withSegment segment more)
      else .error .liOverflow := by
  rw [reconstructSegment, pushLis_eq _ _ hr, length_carried]
  by_cases hroom : r.li.length + segment.header.li.length ≤ rlcAmWindowSize
  · have hlength := length_counted r segment
    simp only [if_pos hroom]
    unfold Reconstruction.withSegment
    unfold Reconstruction.counted at hlength ⊢
    dsimp only at hlength ⊢
    generalize ite (segment.header.li.sum % 2 ^ 16 ≤ segment.buf.length) _ _ = c at hlength ⊢
    rw [pushLi]
    by_cases hmore : RlcFi.endAligned segment.header.fi = true ∧ more = true
    · rw [if_pos hmore, if_pos hmore, List.length_append, List.length_singleton]
      by_cases hlt : c.li.length < rlcAmWindowSize
      · rw [if_pos hlt, if_pos ⟨hroom, hlt⟩]
      · rw [if_neg hlt, if_neg fun h => hlt h.2]
    · rw [if_neg hmore, if_neg hmore, if_pos ⟨hroom, by omega⟩]
  · simp only [if_neg hroom, if_neg fun h : _ ∧ _ => hroom h.1]

variable {segments : List RlcAmdRxPdu} {rx : RlcAmRx} {payload : Bytes} {header : AmdPduHeader}

theorem reconstructLoop_of_indicatorsFit {r : Reconstruction}
    (hr : r.li.length ≤ rlcAmWindowSize) (hfit : IndicatorsFit r.li.length segments) :
    reconstructLoop r segments = .ok (r.withSegments segments) := by
  induction segments generalizing r with
  | nil => rfl
  | cons segment segments ih =>
    obtain ⟨hroom, hrest⟩ := hfit
    rw [reconstructLoop, reconstructSegment_eq r segment _ hr, Reconstruction.withSegments]
    cases segments with
    | nil =>
      have hlength : (r.withSegment segment false).li.length ≤ rlcAmWindowSize := by
        rw [Reconstruction.withSegment, if_neg fun h => absurd h.2 Bool.false_ne_true,
          length_counted]
        omega
      simp only [ne_eq, not_true_eq_false, decide_false, if_pos (And.intro hroom hlength)]
      exact ih hlength trivial
    | cons next segments =>
      have hlength := length_withSegment r segment
      have hle : (r.withSegment segment true).li.length ≤ rlcAmWindowSize := by
        have hnext := hrest.1
        omega
      simp only [ne_eq, reduceCtorEq, not_false_eq_true, decide_true,
        if_pos (And.intro hroom hle)]
      exact ih hle (by rwa [hlength])

theorem indicatorsFit_of_isOk {r : Reconstruction}
    (hr : r.li.length ≤ rlcAmWindowSize) (h : (reconstructLoop r segments).isOk = true) :
    IndicatorsFit r.li.length segments := by
  induction segments generalizing r with
  | nil => trivial
  | cons segment segments ih =>
    rw [reconstructLoop, reconstructSegment_eq r segment _ hr] at h
    by_cases hroom : r.li.length + segment.header.li.length ≤ rlcAmWindowSize ∧
        (r.withSegment segment (decide (segments ≠ []))).li.length ≤ rlcAmWindowSize
    · simp only [if_pos hroom] at h
      refine ⟨hroom.1, ?_⟩
      cases segments with
      | nil => trivial
      | cons next segments =>
        rw [← length_withSegment]
        exact ih hroom.2 h
    · simp only [if_neg hroom] at h
      exact absurd h Bool.false_ne_true

/-- The header of the PDU that the segments are parts of, whatever the size of the array. -/
def reconstructedHeader (segments : List RlcAmdRxPdu) : AmdPduHeader where
  rf := false
  p := false
  fi := RlcFi.startAndEndAligned |||
    ((segments.head?.map fun s => s.header.fi).getD 0 &&& RlcFi.notStartAligned) |||
    ((segments.getLast?.map fun s => s.header.fi).getD 0 &&& RlcFi.notEndAligned)
  sn := (segments.head?.map fun s => s.header.sn).getD 0
  lsf := false
  so := 0
  li := (Reconstruction.withSegments { li := [], carryover := 0 } segments).li

theorem reconstructHeader_of_indicatorsFit (hfit : IndicatorsFit 0 segments) :
    reconstructHeader segments = .ok (reconstructedHeader segments) := by
  have hloop := reconstructLoop_of_indicatorsFit (r := { li := [], carryover := 0 })
    (Nat.zero_le _) hfit
  rw [reconstructHeader, hloop]
  rfl

/-- Of the PDUs that are in sequence when the PDU is stored, all but the last fit the SDU buffer. -/
def Reassembles (rx : RlcAmRx) (payload : Bytes) (header : AmdPduHeader) : Prop :=
  Stores rx payload header →
    let window := rx.rxWindow.insert header.sn ⟨header, payload⟩
    AllButLastFit (rx.rxSdu.getD []).length
      (inSequence window.entries.length window rx.vrR)

/-- A PDU received in segments has room for its length indicators and can be reassembled. -/
def SegmentsFit (rx : RlcAmRx) (segments : List RlcAmdRxPdu) (segment : RlcAmdRxPdu) : Prop :=
  Completes segments segment →
    IndicatorsFit 0 (segments ++ [segment]) ∧
      Reassembles rx ((segments ++ [segment]).flatMap RlcAmdRxPdu.buf)
        (reconstructedHeader (segments ++ [segment]))

def CopesWith (rx : RlcAmRx) (payload : Bytes) : Prop :=
  if rlcAmIsControlPdu payload then RlcStatusPdu.Inside payload
  else AmdPduHeader.Inside payload ∧ ∀ header rest, AmdPduHeader.read payload = .ok (header, rest) →
    if header.rf then
      rx.insideRxWindow header.sn = true → rest.length ≤ bufferTailroom →
        ∀ segments, rx.rxSegments.find? header.sn = some segments →
          SegmentsFit rx segments ⟨header, rest⟩
    else Reassembles rx rest header

def SoundWindow (rx : RlcAmRx) : Prop :=
  ∀ sn pdu, rx.rxWindow.find? sn = some pdu → pdu.Sound

theorem forall_eq_ok_iff {r : AmdPduHeader × Bytes} {P : AmdPduHeader → Bytes → Prop} :
    (∀ header rest, (Except.ok r : Except RlcAmFault _) = .ok (header, rest) → P header rest) ↔
      P r.1 r.2 :=
  ⟨fun h => h _ _ rfl, fun h header rest heq => by cases heq; exact h⟩

section

variable (hrx : SoundWindow rx)
include hrx

theorem soundWindow_store (hpdu : (⟨header, payload⟩ : RlcAmdRxPdu).Sound) :
    SoundWindow (rx.store payload header) := by
  obtain ⟨vrMs, vrH, p, d, h⟩ := exists_store rx payload header
  rw [h]
  intro sn pdu hfind
  rw [OrderedMap.find?_insert] at hfind
  split_ifs at hfind
  · cases hfind
    exact hpdu
  · exact hrx sn pdu hfind

theorem isOk_handleDataPdu (payload : Bytes) (header : AmdPduHeader) :
    (rx.handleDataPdu payload header).isOk = true ↔ Reassembles rx payload header := by
  by_cases hstores : Stores rx payload header
  · have hsound : SoundWindow (rx.store payload header) :=
      soundWindow_store hrx ⟨hstores.1, hstores.2.2.2⟩
    rw [handleDataPdu_of_stores hstores, isOk_map, isOk_reassembleRxSdus hsound, Reassembles,
      imp_iff_right hstores]
    obtain ⟨vrMs, vrH, p, d, h⟩ := exists_store rx payload header
    rw [h]
  · obtain ⟨p, hp⟩ := handleDataPdu_of_not_stores hstores
    rw [hp]
    exact ⟨fun _ h => absurd h hstores, fun _ => rfl⟩

theorem isOk_addSegmentAndCheck (sn : ℕ)
    (segments : List RlcAmdRxPdu) (segment : RlcAmdRxPdu) :
    (rx.addSegmentAndCheck sn segments segment).isOk = true ↔ SegmentsFit rx segments segment := by
  by_cases hcompletes : Completes segments segment
  · rw [addSegmentAndCheck_of_completes rx sn hcompletes, SegmentsFit, imp_iff_right hcompletes]
    by_cases hfit : IndicatorsFit 0 (segments ++ [segment])
    · simp only [reconstructHeader_of_indicatorsFit hfit, isOk_map, and_iff_right hfit]
      have hrx' : SoundWindow (rx.withSegments sn (segments ++ [segment])) := hrx
      exact isOk_handleDataPdu hrx' _ _
    · cases hheader : reconstructHeader (segments ++ [segment]) with
      | error fault => exact ⟨fun h => absurd h Bool.false_ne_true, fun h => absurd h.1 hfit⟩
      | ok header =>
        obtain ⟨r, hloop, -⟩ := map_eq_ok_iff.mp hheader
        exact absurd (indicatorsFit_of_isOk (Nat.zero_le _) (isOk_iff_exists.mpr ⟨r, hloop⟩)) hfit
  · refine ⟨fun _ h => absurd h hcompletes, fun _ => ?_⟩
    rcases addSegmentAndCheck_of_not_completes rx sn hcompletes with heq | ⟨segments', -, heq⟩
    · rw [heq]
      rfl
    · rw [heq]
      rfl

theorem isOk_handleDataPduSegment (payload : Bytes) (header : AmdPduHeader) :
    (rx.handleDataPduSegment payload header).isOk = true ↔
      (rx.insideRxWindow header.sn = true → payload.length ≤ bufferTailroom →
        ∀ segments, rx.rxSegments.find? header.sn = some segments →
          SegmentsFit rx segments ⟨header, payload⟩) := by
  rw [handleDataPduSegment]
  by_cases hinside : rx.insideRxWindow header.sn = true
  · rw [if_neg (not_not_intro hinside), imp_iff_right hinside]
    by_cases hlength : bufferTailroom < payload.length
    · rw [if_pos hlength]
      exact ⟨fun _ h => absurd h (Nat.not_le.mpr hlength), fun _ => rfl⟩
    · rw [if_neg hlength, imp_iff_right (Nat.not_lt.mp hlength)]
      cases rx.rxSegments.find? header.sn with
      | none => exact ⟨fun _ segments h => (by cases h), fun _ => rfl⟩
      | some segments =>
        obtain ⟨d, hd⟩ := exists_requestStatus rx header.p
        simp only [isOk_map, Option.some.injEq, forall_eq']
        rw [hd]
        have hrx' : SoundWindow { rx with doStatus := d } := hrx
        exact isOk_addSegmentAndCheck hrx' _ _ _
  · rw [if_pos hinside]
    exact ⟨fun _ h => absurd h hinside, fun _ => rfl⟩

theorem isOk_writePdu
    (hne : 1 ≤ payload.length) : (rx.writePdu payload).isOk = true ↔ CopesWith rx payload := by
  rw [writePdu, if_neg (Nat.not_lt.mpr hne), CopesWith]
  by_cases hcontrol : rlcAmIsControlPdu payload = true
  · rw [if_pos hcontrol, if_pos hcontrol, isOk_map, RlcStatusPdu.isOk_read hne]
  · rw [if_neg hcontrol, if_neg hcontrol, ← AmdPduHeader.isOk_read]
    cases hread : AmdPduHeader.read payload with
    | error fault =>
      exact ⟨fun h => absurd h Bool.false_ne_true, fun h => absurd h.1 Bool.false_ne_true⟩
    | ok r =>
      obtain ⟨header, rest⟩ := r
      rw [isOk_ok, and_iff_right rfl]
      rw [forall_eq_ok_iff]
      by_cases hrf : header.rf = true
      · simp only [if_pos hrf, isOk_map]
        exact isOk_handleDataPduSegment hrx rest header
      · simp only [if_neg hrf, isOk_map]
        exact isOk_handleDataPdu hrx rest header

theorem soundWindow_handleDataPdu {rx' : RlcAmRx}
    (h : rx.handleDataPdu payload header = .ok rx') : SoundWindow rx' := by
  rcases handleDataPdu_cases h with ⟨p, rfl⟩ | ⟨hstores, rx₁, hreassemble, rfl⟩
  · obtain ⟨d, hd⟩ := exists_requestStatus rx p
    rw [hd]
    exact hrx
  · have hrx₁ : SoundWindow rx₁ := by
      refine reassembleLoop_invariant ?_ ?_ hreassemble
      · intro rx delivered sdu hrx _ sn pdu hfind
        change (rx.rxWindow.erase rx.vrR).find? sn = some pdu at hfind
        rw [OrderedMap.find?_erase] at hfind
        split_ifs at hfind
        exact hrx sn pdu hfind
      · exact soundWindow_store hrx ⟨hstores.1, hstores.2.2.2⟩
    obtain ⟨vrX, timer, ht⟩ := exists_timers rx₁
    rw [ht]
    exact hrx₁

theorem soundWindow_handleDataPduSegment {rx' : RlcAmRx}
    (h : rx.handleDataPduSegment payload header = .ok rx') : SoundWindow rx' := by
  rcases handleDataPduSegment_cases h with
    ⟨p, rfl⟩ | ⟨-, ⟨-, rfl⟩ | ⟨segments, ⟨rx₁, complete⟩, -, hadd, rfl⟩⟩
  · obtain ⟨d, hd⟩ := exists_requestStatus rx p
    rw [hd]
    exact hrx
  · obtain ⟨vrH, hvrH⟩ := exists_updateVrH (rx.withSegments header.sn [⟨header, payload⟩]) header.sn
    rw [hvrH]
    obtain ⟨p, d, hpoll⟩ := exists_checkPollBit
      { rx.withSegments header.sn [⟨header, payload⟩] with vrH := vrH } header
    rw [hpoll]
    exact hrx
  · obtain ⟨d, hd⟩ := exists_requestStatus rx header.p
    rw [hd] at hadd
    have hrx₁ : SoundWindow rx₁ := by
      rcases addSegmentAndCheck_cases hadd with
        (rfl | ⟨segments', rfl⟩) | ⟨header', hhandle⟩
      · exact hrx
      · exact hrx
      · exact soundWindow_handleDataPdu (by exact hrx) hhandle
    split
    · exact hrx₁
    · exact hrx₁

theorem soundWindow_step (e : Event) :
    SoundWindow (rx.step e) := by
  cases e with
  | timerExpired =>
    rw [step]
    split
    · obtain ⟨vrMs, vrX, d, timer, h⟩ := exists_timerExpired rx
      rw [h]
      exact hrx
    · exact hrx
  | pdu payload =>
    rw [step]
    cases hwrite : rx.writePdu payload with
    | error fault => exact hrx
    | ok r =>
      obtain ⟨rx', status⟩ := r
      rcases writePdu_cases hwrite with rfl | ⟨header, rest, -, -, ⟨-, h⟩ | ⟨-, h⟩⟩
      · exact hrx
      · exact soundWindow_handleDataPduSegment hrx h
      · exact soundWindow_handleDataPdu hrx h

end

def Robust (rx : RlcAmRx) : Event → Prop
  | .pdu payload => (rx.writePdu payload).isOk = true
  | .timerExpired => True

def Copes (rx : RlcAmRx) : Event → Prop
  | .pdu payload => 1 ≤ payload.length → CopesWith rx payload
  | .timerExpired => True

theorem robust_iff_copes (hrx : SoundWindow rx) (e : Event) :
    Robust rx e ↔ Copes rx e := by
  cases e with
  | timerExpired => exact Iff.rfl
  | pdu payload =>
    by_cases hne : 1 ≤ payload.length
    · rw [Robust, Copes, imp_iff_right hne, isOk_writePdu hrx hne]
    · have hwrite : rx.writePdu payload = .ok (rx, none) := by
        rw [writePdu, if_pos (Nat.not_le.mp hne)]
      rw [Robust, Copes, hwrite]
      exact ⟨fun _ h => absurd h hne, fun _ => rfl⟩

theorem soundWindow_init (delivered : List Bytes) : SoundWindow (init delivered) := by
  intro sn pdu h
  cases h

end RlcAmRx
end SrsLte
