import SrsLte.RlcUmPdu

/-!
# Reassembly in the UM receiver

What the receiver does with one PDU of its window. The partial SDU is empty or holds all that was
sent of the SDU under way; then the SDUs delivered are among those that end in the PDU, and the
partial SDU is again empty or all of the SDU under way. When nothing is missing they are all of
those.
-/

namespace SrsLte

open Segmentation

namespace RlcUmRx

structure Frame (rx rx' : RlcUmRx) : Prop where
  snSize : rx'.snSize = rx.snSize
  rxWindow : rx'.rxWindow = rx.rxWindow
  vrUr : rx'.vrUr = rx.vrUr
  vrUx : rx'.vrUx = rx.vrUx
  vrUh : rx'.vrUh = rx.vrUh
  reorderingTimer : rx'.reorderingTimer = rx.reorderingTimer

theorem Frame.refl (rx : RlcUmRx) : Frame rx rx := ⟨rfl, rfl, rfl, rfl, rfl, rfl⟩

theorem Frame.trans {rx rx' rx'' : RlcUmRx} (h : Frame rx rx') (h' : Frame rx' rx'') :
    Frame rx rx'' where
  snSize := h'.snSize.trans h.snSize
  rxWindow := h'.rxWindow.trans h.rxWindow
  vrUr := h'.vrUr.trans h.vrUr
  vrUx := h'.vrUx.trans h.vrUx
  vrUh := h'.vrUh.trans h.vrUh
  reorderingTimer := h'.reorderingTimer.trans h.reorderingTimer

theorem frame_lowerEdgeSegments (fi i : ℕ) (li : List ℕ) (rx : RlcUmRx) (buf : Bytes) :
    Frame rx (lowerEdgeSegments fi i li rx buf).1 := by
  induction li generalizing i rx buf with
  | nil => exact Frame.refl rx
  | cons len li ih =>
    rw [lowerEdgeSegments]
    dsimp only
    split_ifs
    · exact ⟨rfl, rfl, rfl, rfl, rfl, rfl⟩
    all_goals
      refine Frame.trans ?_ (ih _ _ _)
      exact ⟨rfl, rfl, rfl, rfl, rfl, rfl⟩

theorem frame_endSdu (rx : RlcUmRx) (fi : ℕ) : Frame rx (rx.endSdu fi) := by
  unfold endSdu
  split_ifs <;> exact ⟨rfl, rfl, rfl, rfl, rfl, rfl⟩

theorem frame_updateSegments (fi i : ℕ) (li : List ℕ) (rx : RlcUmRx) (buf : Bytes) :
    Frame rx (updateSegments fi i li rx buf).1 := by
  induction li generalizing i rx buf with
  | nil => exact Frame.refl rx
  | cons len li ih =>
    rw [updateSegments]
    dsimp only
    split_ifs
    · exact Frame.refl rx
    · refine Frame.trans ?_ (ih _ _ _)
      exact ⟨rfl, rfl, rfl, rfl, rfl, rfl⟩
    · exact ⟨rfl, rfl, rfl, rfl, rfl, rfl⟩
    all_goals
      refine Frame.trans ?_ (ih _ _ _)
      exact ⟨rfl, rfl, rfl, rfl, rfl, rfl⟩

theorem frame_updateLast (rx : RlcUmRx) (fi nLi : ℕ) (buf : Bytes) :
    Frame rx (rx.updateLast fi nLi buf) := by
  unfold updateLast
  dsimp only
  split_ifs
  · exact ⟨rfl, rfl, rfl, rfl, rfl, rfl⟩
  all_goals
    refine Frame.trans ?_ (frame_endSdu _ _)
    exact ⟨rfl, rfl, rfl, rfl, rfl, rfl⟩

def Bounded (pre : Bytes) (f : Fragment UInt8) : Prop :=
  (∀ u ∈ f.completed pre, u.length ≤ bufferTailroom) ∧ (f.rest pre).length ≤ bufferTailroom

/-- `units` are delivered, and the partial SDU is empty or `rest`, last written from the PDU at
`vr_ur`. -/
structure Reassembles (rx rx' : RlcUmRx) (units : List Bytes) (rest : Bytes) : Prop where
  frame : Frame rx rx'
  delivered : rx'.delivered = rx.delivered ++ units
  partialSdu : rx'.rxSdu = [] ∨ rx'.rxSdu = rest ∧ rx'.vrUrInRxSdu = rx.vrUr

variable {rx rx₁ rx₂ : RlcUmRx}

theorem Reassembles.after {units units' : List Bytes} {rest : Bytes} (hframe : Frame rx rx₁)
    (hdelivered : rx₁.delivered = rx.delivered ++ units) (h : Reassembles rx₁ rx₂ units' rest) :
    Reassembles rx rx₂ (units ++ units') rest where
  frame := hframe.trans h.frame
  delivered := by rw [h.delivered, hdelivered, List.append_assoc]
  partialSdu := h.partialSdu.imp id fun hpart => ⟨hpart.1, hpart.2.trans hframe.vrUr⟩

theorem reassembles_clearSdu (rest : Bytes) : Reassembles rx rx.clearSdu [] rest :=
  ⟨⟨rfl, rfl, rfl, rfl, rfl, rfl⟩, by simp [clearSdu], Or.inl rfl⟩

variable {f : Fragment UInt8} {piece pre : Bytes} {pieces : List Bytes}

/-- The last piece of a PDU is written to the partial SDU. -/
def lastAppended (rx : RlcUmRx) (f : Fragment UInt8) : RlcUmRx :=
  ({ rx.append f.last with vrUrInRxSdu := rx.vrUr } : RlcUmRx).endSdu (UmdPdu.fi f)

theorem lastAppended_reassembles {sdu : Bytes} (hsdu : rx.rxSdu ++ f.last = sdu) :
    ∃ units, Reassembles rx (rx.lastAppended f) units (if f.endAligned then [] else sdu) ∧
      units.Sublist (if f.endAligned then [sdu] else []) ∧
      (rx.pduLost = false → units = (if f.endAligned then [sdu] else []) ∧
        (rx.lastAppended f).rxSdu = (if f.endAligned then [] else sdu) ∧
        (rx.lastAppended f).pduLost = false) := by
  unfold lastAppended endSdu
  rw [UmdPdu.endAligned_fi, UmdPdu.startAligned_fi]
  cases hend : f.endAligned with
  | false =>
    exact ⟨[], ⟨⟨rfl, rfl, rfl, rfl, rfl, rfl⟩, by simp [append], Or.inr ⟨hsdu, rfl⟩⟩,
      List.Sublist.refl _, fun hlost => ⟨rfl, hsdu, hlost⟩⟩
  | true =>
    rw [if_pos rfl]
    by_cases hdrop : rx.pduLost = true ∧ ¬ f.startAligned = true
    · rw [if_pos (by exact hdrop)]
      refine ⟨[], ⟨⟨rfl, rfl, rfl, rfl, rfl, rfl⟩, by simp [append, clearSdu], Or.inl rfl⟩,
        List.nil_sublist _, fun hkeep => ?_⟩
      exact absurd (hdrop.1.symm.trans hkeep) (by simp)
    · rw [if_neg (by exact hdrop)]
      exact ⟨[sdu], ⟨⟨rfl, rfl, rfl, rfl, rfl, rfl⟩, by simp [append, deliver, hsdu], Or.inl rfl⟩,
        List.Sublist.refl _, fun _ => ⟨rfl, rfl, rfl⟩⟩

theorem updateSegments_first (fi i : ℕ)
    (hfirst : ¬ (rx.rxSdu = [] ∧ i = 0 ∧ ¬ RlcFi.startAligned fi = true))
    (hroom : (rx.rxSdu ++ piece).length ≤ bufferTailroom) (li : List ℕ) (buf : Bytes) :
    ∃ rx₁, updateSegments fi i (piece.length :: li) rx (piece ++ buf) =
        updateSegments fi (i + 1) li rx₁ buf ∧ rx₁.rxSdu = [] ∧ rx₁.pduLost = false ∧
      rx₁.delivered = rx.delivered ++ [rx.rxSdu ++ piece] := by
  have hbelongs : ({ rx.append piece with vrUrInRxSdu := rx.vrUr } : RlcUmRx).pduBelongsToRxSdu =
      true := decide_eq_true (Or.inr rfl)
  have hfits : ¬ piece.length > rx.sduTailroom := by
    unfold sduTailroom
    rw [List.length_append] at hroom
    omega
  rw [updateSegments, if_neg hfirst, if_neg hfits, List.take_left, List.drop_left]
  dsimp only
  rw [if_pos hbelongs]
  exact ⟨_, rfl, rfl, rfl, rfl⟩

variable (rx) in
theorem updateSegments_spec (fi i : ℕ)
    (hfirst : ¬ (rx.rxSdu = [] ∧ i = 0 ∧ ¬ RlcFi.startAligned fi = true))
    (hroom : (rx.rxSdu ++ piece).length ≤ bufferTailroom)
    (hbound : ∀ p ∈ pieces, p.length ≤ bufferTailroom) (last : Bytes) :
    ∃ rx', updateSegments fi i ((piece :: pieces).map List.length) rx
        (piece ++ (pieces.flatten ++ last)) = (rx', last, false) ∧ rx'.rxSdu = [] ∧
      rx'.pduLost = false ∧ rx'.delivered = rx.delivered ++ (rx.rxSdu ++ piece) :: pieces := by
  induction pieces generalizing piece i rx with
  | nil => exact updateSegments_first fi i hfirst hroom [] last
  | cons piece' pieces ih =>
    obtain ⟨rx₁, hstep, hempty₁, -, hdelivered₁⟩ := updateSegments_first fi i hfirst hroom
      ((piece' :: pieces).map List.length) ((piece' :: pieces).flatten ++ last)
    obtain ⟨rx', hrun, hempty, hlost, hdelivered⟩ :=
      ih rx₁ (i + 1) (fun h => absurd h.2.1 (Nat.succ_ne_zero i))
        (by rw [hempty₁]; exact hbound piece' List.mem_cons_self)
        (List.forall_mem_cons.mp hbound).2
    rw [List.flatten_cons, List.append_assoc] at hstep ⊢
    refine ⟨rx', hstep.trans hrun, hempty, hlost, ?_⟩
    rw [hdelivered, hdelivered₁, hempty₁, List.append_assoc]
    rfl

/-- The first piece of a PDU is usable: it starts an SDU or continues the partial one. -/
def usable (rx : RlcUmRx) (f : Fragment UInt8) : Bool := rx.rxSdu ≠ [] ∨ f.startAligned

theorem not_usable :
    rx.usable f = false ↔ rx.rxSdu = [] ∧ f.startAligned = false := by
  unfold usable
  simp

theorem usable_of_pre (hpre : rx.rxSdu = pre) (hmiss : pre = [] → f.startAligned = true) :
    rx.usable f = true := by
  by_contra hnot
  obtain ⟨hnil, hunaligned⟩ := not_usable.mp (Bool.not_eq_true _ ▸ hnot)
  exact absurd (hmiss (hpre.symm.trans hnil)) (by simp [hunaligned])

variable (rx) in
theorem updateLast_eq (nLi : ℕ) (hbound : (rx.rxSdu ++ f.last).length ≤ bufferTailroom) :
    rx.updateLast (UmdPdu.fi f) nLi f.last =
      if rx.usable f = false ∧ nLi = 0 then rx.clearSdu else rx.lastAppended f := by
  have hroom : rx.rxSdu.length < maxBufferSizeBytes ∧ f.last.length < maxBufferSizeBytes ∧
      f.last.length + rx.rxSdu.length < maxBufferSizeBytes := by
    have hlt : bufferTailroom < maxBufferSizeBytes := by decide
    rw [List.length_append] at hbound
    omega
  unfold updateLast
  rw [UmdPdu.startAligned_fi, if_pos hroom]
  by_cases hskip : rx.rxSdu = [] ∧ nLi = 0 ∧ ¬ f.startAligned = true
  · have husable := not_usable.mpr ⟨hskip.1, by simpa using hskip.2.2⟩
    rw [if_pos hskip, if_pos ⟨husable, hskip.2.1⟩]
  · have husable : ¬ (rx.usable f = false ∧ nLi = 0) := fun h =>
      hskip ⟨(not_usable.mp h.1).1, h.2, by simp [(not_usable.mp h.1).2]⟩
    rw [if_neg hskip, if_neg husable]
    rfl

/-- The state that `updatePdu` works on: the partial SDU is dropped if a PDU is missing. -/
def checked (rx : RlcUmRx) : RlcUmRx :=
  if ¬ rx.pduBelongsToRxSdu then { rx.clearSdu with pduLost := false } else rx

theorem frame_checked (rx : RlcUmRx) : Frame rx rx.checked := by
  unfold checked
  split_ifs
  · exact Frame.refl rx
  · exact ⟨rfl, rfl, rfl, rfl, rfl, rfl⟩

theorem delivered_checked (rx : RlcUmRx) : rx.checked.delivered = rx.delivered := by
  unfold checked
  split_ifs <;> rfl

/-- `updatePdu` without the check in front and the window behind it. -/
def updateBody (rx : RlcUmRx) (pdu : UmdPdu) : RlcUmRx :=
  let (rx, buf, skip) := updateSegments pdu.header.fi 0 pdu.header.li rx pdu.buf
  if skip then rx else rx.updateLast pdu.header.fi pdu.header.li.length buf

theorem updatePdu_eq (rx : RlcUmRx) (pdu : UmdPdu) :
    rx.updatePdu pdu =
      let rx' := (rx.checked.updateBody pdu).erase (rx.checked.updateBody pdu).vrUr
      { rx' with vrUr := (rx'.vrUr + 1) % rx'.snSize.mod } := rfl

theorem frame_updateBody (rx : RlcUmRx) (pdu : UmdPdu) : Frame rx (rx.updateBody pdu) := by
  have hsegments := frame_updateSegments pdu.header.fi 0 pdu.header.li rx pdu.buf
  unfold updateBody
  dsimp only
  split_ifs
  · exact hsegments
  · exact hsegments.trans (frame_updateLast _ _ _ _)

theorem rxSdu_of_usable
    (hsdu : rx.rxSdu = [] ∨ rx.rxSdu = pre) (hstart : f.startAligned = true → pre = [])
    (h : rx.usable f = true) : rx.rxSdu = pre := by
  rcases of_decide_eq_true h with hne | haligned
  · exact hsdu.resolve_left hne
  · rcases hsdu with hnil | hpre
    · rw [hnil, hstart haligned]
    · exact hpre

theorem length_append_le (hsdu : rx.rxSdu = [] ∨ rx.rxSdu = pre)
    (h : (pre ++ piece).length ≤ bufferTailroom) :
    (rx.rxSdu ++ piece).length ≤ bufferTailroom := by
  rcases hsdu with hnil | hpre
  · rw [List.length_append] at h
    rw [hnil, List.nil_append]
    omega
  · rwa [hpre]

theorem length_last_le {sdu : Bytes} {ends : Bool}
    (hcompleted : ∀ u ∈ (if ends then [sdu] else []), u.length ≤ bufferTailroom)
    (hrest : (if ends then [] else sdu).length ≤ bufferTailroom) :
    sdu.length ≤ bufferTailroom := by
  cases ends with
  | false => exact hrest
  | true => exact hcompleted sdu List.mem_cons_self

/-- The PDU is used up; nothing of it is lost unless a PDU or the start of the SDU is missing. -/
def Updates (rx rx' : RlcUmRx) (f : Fragment UInt8) (pre : Bytes) : Prop :=
  ∃ units, Reassembles rx rx' units (f.rest pre) ∧ units.Sublist (f.completed pre) ∧
    (rx.rxSdu = pre → (pre = [] → f.startAligned = true) → rx.pduLost = false →
      units = f.completed pre ∧ rx'.rxSdu = f.rest pre ∧ rx'.pduLost = false)

theorem updateBody_single (snSize : UmdSnSize) (n : ℕ) (hinit : f.init = [])
    (hbound : Bounded pre f) (hsdu : rx.rxSdu = [] ∨ rx.rxSdu = pre)
    (hstart : f.startAligned = true → pre = []) :
    Updates rx (rx.updateBody (UmdPdu.ofFragment snSize n f)) f pre := by
  obtain ⟨hcompleted, hrest, hdata⟩ := f.of_nil hinit pre
  rw [Bounded, hcompleted, hrest] at hbound
  have hbody : rx.updateBody (UmdPdu.ofFragment snSize n f) =
      if rx.usable f = false then rx.clearSdu else rx.lastAppended f := by
    have hlast := updateLast_eq rx 0
      (length_append_le hsdu (length_last_le hbound.1 hbound.2))
    unfold updateBody UmdPdu.ofFragment
    dsimp only
    rw [hinit, hdata]
    exact hlast.trans (by simp)
  rw [Updates, hbody, hcompleted, hrest]
  cases husable : rx.usable f with
  | false =>
    exact ⟨[], reassembles_clearSdu _, List.nil_sublist _, fun hpre hmiss _ =>
      absurd (husable.symm.trans (usable_of_pre hpre hmiss)) Bool.false_ne_true⟩
  | true =>
    have hpre := rxSdu_of_usable hsdu hstart husable
    obtain ⟨units, hre, hsub, hexact⟩ :=
      lastAppended_reassembles (f := f) (congrArg (· ++ f.last) hpre)
    exact ⟨units, hre, hsub, fun _ _ => hexact⟩

/-- The pieces in front of the last one: the first is dropped if it cannot be used. -/
theorem updateSegments_cons (hinit : f.init = piece :: pieces)
    (hfirst : (rx.rxSdu ++ piece).length ≤ bufferTailroom)
    (hbound : ∀ p ∈ pieces, p.length ≤ bufferTailroom) :
    ∃ rx', updateSegments (UmdPdu.fi f) 0 (f.init.map List.length) rx f.data =
        (rx', f.last, false) ∧ rx'.rxSdu = [] ∧ rx'.pduLost = false ∧
      rx'.delivered = rx.delivered ++
        ((if rx.usable f then [rx.rxSdu ++ piece] else []) ++ pieces) := by
  rw [f.data_cons hinit, hinit]
  cases husable : rx.usable f with
  | false =>
    obtain ⟨hsdu, hstart⟩ := not_usable.mp husable
    have hlen : ¬ (piece ++ (pieces.flatten ++ f.last)).length < piece.length := by
      rw [List.length_append]
      omega
    rw [List.map_cons, updateSegments, UmdPdu.startAligned_fi,
      if_pos ⟨hsdu, rfl, by simp [hstart]⟩, if_neg hlen, List.drop_left]
    cases pieces with
    | nil => exact ⟨_, rfl, rfl, rfl, by simp [clearSdu]⟩
    | cons piece' pieces =>
      rw [List.flatten_cons, List.append_assoc]
      exact updateSegments_spec { rx.clearSdu with pduLost := false } (UmdPdu.fi f) 1
        (fun h => absurd h.2.1 Nat.one_ne_zero) (hbound piece' List.mem_cons_self)
        (List.forall_mem_cons.mp hbound).2
        f.last
  | true =>
    refine updateSegments_spec rx (UmdPdu.fi f) 0 ?_ hfirst hbound f.last
    rintro ⟨hsdu, -, hstart⟩
    rw [UmdPdu.startAligned_fi, Bool.not_eq_true] at hstart
    exact Bool.false_ne_true ((not_usable.mpr ⟨hsdu, hstart⟩).symm.trans husable)

theorem updateBody_cons (snSize : UmdSnSize) (n : ℕ) (hinit : f.init = piece :: pieces)
    (hbound : Bounded pre f) (hsdu : rx.rxSdu = [] ∨ rx.rxSdu = pre)
    (hstart : f.startAligned = true → pre = []) :
    Updates rx (rx.updateBody (UmdPdu.ofFragment snSize n f)) f pre := by
  obtain ⟨hcompleted, hrest⟩ := f.of_cons hinit pre
  rw [Bounded, hcompleted, hrest] at hbound
  obtain ⟨hfirst, hrestOf⟩ := List.forall_mem_cons.mp hbound.1
  obtain ⟨hmiddle, hended⟩ := List.forall_mem_append.mp hrestOf
  have hlast := length_last_le hended hbound.2
  obtain ⟨rx₁, hrun, hempty, hlost, hdelivered⟩ :=
    updateSegments_cons hinit (length_append_le hsdu hfirst) hmiddle
  have hframe := frame_updateSegments (UmdPdu.fi f) 0 (f.init.map List.length) rx f.data
  rw [hrun] at hframe
  have hbody : rx.updateBody (UmdPdu.ofFragment snSize n f) = rx₁.lastAppended f := by
    have hlast' := updateLast_eq rx₁ (f := f) (f.init.map List.length).length (by rwa [hempty])
    rw [if_neg fun h => absurd h.2 (by rw [hinit]; simp)] at hlast'
    rw [← hlast']
    unfold updateBody UmdPdu.ofFragment
    dsimp only
    rw [hrun]
    rfl
  obtain ⟨units, hre, hsub, hexact⟩ :=
    lastAppended_reassembles (f := f) (congrArg (· ++ f.last) hempty)
  obtain ⟨hunits, hexact⟩ := hexact hlost
  rw [Updates, hbody, hrest, hcompleted]
  refine ⟨_, hre.after hframe hdelivered, ?_, fun hpre hmiss _ => ⟨?_, hexact⟩⟩
  · rw [hunits, List.append_assoc]
    cases husable : rx.usable f with
    | false => exact List.sublist_cons_self _ _
    | true =>
      rw [rxSdu_of_usable hsdu hstart husable]
      exact List.Sublist.refl _
  · rw [hunits, usable_of_pre hpre hmiss, hpre, List.append_assoc]
    rfl

theorem updateBody_reassembles (snSize : UmdSnSize) (n : ℕ)
    (hbound : Bounded pre f) (hsdu : rx.rxSdu = [] ∨ rx.rxSdu = pre)
    (hstart : f.startAligned = true → pre = []) :
    Updates rx (rx.updateBody (UmdPdu.ofFragment snSize n f)) f pre := by
  cases hinit : f.init with
  | nil => exact updateBody_single snSize n hinit hbound hsdu hstart
  | cons piece pieces => exact updateBody_cons snSize n hinit hbound hsdu hstart

theorem lowerEdgeSegments_first (fi i : ℕ)
    (hfirst : ¬ (rx.rxSdu = [] ∧ i = 0 ∧ ¬ RlcFi.startAligned fi = true)) (piece : Bytes)
    (li : List ℕ) (buf : Bytes) :
    ∃ rx₁ units, lowerEdgeSegments fi i (piece.length :: li) rx (piece ++ buf) =
        lowerEdgeSegments fi (i + 1) li rx₁ buf ∧ rx₁.rxSdu = [] ∧
      rx₁.delivered = rx.delivered ++ units ∧ units.Sublist [rx.rxSdu ++ piece] := by
  rw [lowerEdgeSegments, if_neg hfirst, List.take_left, List.drop_left]
  dsimp only
  split_ifs
  · exact ⟨_, [], rfl, rfl, by simp [append, clearSdu], List.nil_sublist _⟩
  · exact ⟨_, [rx.rxSdu ++ piece], rfl, rfl, rfl, List.Sublist.refl _⟩

variable (rx) in
theorem lowerEdgeSegments_spec (fi i : ℕ)
    (hfirst : ¬ (rx.rxSdu = [] ∧ i = 0 ∧ ¬ RlcFi.startAligned fi = true)) (piece : Bytes)
    (pieces : List Bytes) (last : Bytes) :
    ∃ rx' units, lowerEdgeSegments fi i ((piece :: pieces).map List.length) rx
        (piece ++ (pieces.flatten ++ last)) = (rx', last) ∧ rx'.rxSdu = [] ∧
      rx'.delivered = rx.delivered ++ units ∧ units.Sublist ((rx.rxSdu ++ piece) :: pieces) := by
  induction pieces generalizing piece i rx with
  | nil => exact lowerEdgeSegments_first fi i hfirst piece [] last
  | cons piece' pieces ih =>
    obtain ⟨rx₁, units₁, hstep, hempty₁, hdelivered₁, hsub₁⟩ :=
      lowerEdgeSegments_first fi i hfirst piece ((piece' :: pieces).map List.length)
        ((piece' :: pieces).flatten ++ last)
    obtain ⟨rx', units, hrun, hempty, hdelivered, hsub⟩ :=
      ih rx₁ (i + 1) (fun h => absurd h.2.1 (Nat.succ_ne_zero i)) piece'
    rw [List.flatten_cons, List.append_assoc] at hstep ⊢
    rw [hempty₁] at hsub
    exact ⟨rx', units₁ ++ units, hstep.trans hrun, hempty,
      by rw [hdelivered, hdelivered₁, List.append_assoc], hsub₁.append hsub⟩

theorem lowerEdgeLast_eq (f : Fragment UInt8) :
    rx.lowerEdgeLast (UmdPdu.fi f) f.last = if rx.usable f then rx.lastAppended f else rx := by
  unfold lowerEdgeLast usable
  rw [UmdPdu.startAligned_fi]
  simp only [decide_eq_true_eq]
  rfl

variable (rx) in
theorem lowerEdgeLast_reassembles {sdu : Bytes}
    (hsdu : rx.usable f = true → rx.rxSdu ++ f.last = sdu) :
    ∃ units, Reassembles rx (rx.lowerEdgeLast (UmdPdu.fi f) f.last) units
        (if f.endAligned then [] else sdu) ∧
      units.Sublist (if f.endAligned then [sdu] else []) := by
  rw [lowerEdgeLast_eq]
  cases husable : rx.usable f with
  | false =>
    obtain ⟨hnil, -⟩ := not_usable.mp husable
    exact ⟨[], ⟨Frame.refl rx, by simp, Or.inl hnil⟩, List.nil_sublist _⟩
  | true =>
    obtain ⟨units, hre, hsub, -⟩ := lastAppended_reassembles (hsdu husable)
    exact ⟨units, hre, hsub⟩

/-- What `lowerEdgeStep` does with a PDU. -/
def lowerEdgeBody (rx : RlcUmRx) (pdu : UmdPdu) : RlcUmRx :=
  let (rx, buf) := lowerEdgeSegments pdu.header.fi 0 pdu.header.li rx pdu.buf
  rx.lowerEdgeLast pdu.header.fi buf

theorem frame_lowerEdgeBody (rx : RlcUmRx) (pdu : UmdPdu) : Frame rx (rx.lowerEdgeBody pdu) := by
  have hsegments := frame_lowerEdgeSegments pdu.header.fi 0 pdu.header.li rx pdu.buf
  unfold lowerEdgeBody lowerEdgeLast
  dsimp only
  split_ifs
  · refine hsegments.trans (Frame.trans ?_ (frame_endSdu _ _))
    exact ⟨rfl, rfl, rfl, rfl, rfl, rfl⟩
  · exact hsegments

theorem lowerEdgeBody_cons (snSize : UmdSnSize) (n : ℕ) (hinit : f.init = piece :: pieces)
    (hsdu : rx.rxSdu = [] ∨ rx.rxSdu = pre) (hstart : f.startAligned = true → pre = []) :
    ∃ units, Reassembles rx (rx.lowerEdgeBody (UmdPdu.ofFragment snSize n f)) units (f.rest pre) ∧
      units.Sublist (f.completed pre) := by
  obtain ⟨hcompleted, hrest⟩ := f.of_cons hinit pre
  have hframe := frame_lowerEdgeSegments (UmdPdu.fi f) 0 (f.init.map List.length) rx f.data
  unfold lowerEdgeBody UmdPdu.ofFragment
  dsimp only
  rw [f.data_cons hinit, hinit] at hframe ⊢
  rw [hcompleted, hrest]
  cases husable : rx.usable f with
  | false =>
    -- nothing of this PDU is used
    obtain ⟨hnil, hunaligned⟩ := not_usable.mp husable
    have hskip (buf : Bytes) : rx.clearSdu.lowerEdgeLast (UmdPdu.fi f) buf = rx.clearSdu := by
      unfold lowerEdgeLast
      rw [UmdPdu.startAligned_fi, if_neg (by simp [clearSdu, hunaligned])]
    rw [List.map_cons, lowerEdgeSegments, UmdPdu.startAligned_fi,
      if_pos ⟨hnil, rfl, by simp [hunaligned]⟩]
    dsimp only
    rw [hskip]
    exact ⟨[], reassembles_clearSdu _, List.nil_sublist _⟩
  | true =>
    have hfirst : ¬ (rx.rxSdu = [] ∧ 0 = 0 ∧ ¬ RlcFi.startAligned (UmdPdu.fi f) = true) := by
      rintro ⟨hnil, -, hunaligned⟩
      rw [UmdPdu.startAligned_fi, Bool.not_eq_true] at hunaligned
      exact Bool.false_ne_true ((not_usable.mpr ⟨hnil, hunaligned⟩).symm.trans husable)
    obtain ⟨rx₁, units, hrun, hempty, hdelivered, hsub⟩ :=
      lowerEdgeSegments_spec rx (UmdPdu.fi f) 0 hfirst piece pieces f.last
    rw [hrun] at hframe ⊢
    rw [rxSdu_of_usable hsdu hstart husable] at hsub
    obtain ⟨units', hre, hsub'⟩ := lowerEdgeLast_reassembles rx₁ (f := f)
      fun _ => congrArg (· ++ f.last) hempty
    exact ⟨units ++ units', hre.after hframe hdelivered, hsub.append hsub'⟩

theorem lowerEdgeBody_reassembles (snSize : UmdSnSize) (n : ℕ)
    (hsdu : rx.rxSdu = [] ∨ rx.rxSdu = pre) (hstart : f.startAligned = true → pre = []) :
    ∃ units, Reassembles rx (rx.lowerEdgeBody (UmdPdu.ofFragment snSize n f)) units (f.rest pre) ∧
      units.Sublist (f.completed pre) := by
  cases hinit : f.init with
  | nil =>
    obtain ⟨hcompleted, hrest, hdata⟩ := f.of_nil hinit pre
    unfold lowerEdgeBody UmdPdu.ofFragment
    dsimp only
    rw [hinit, hdata, hcompleted, hrest]
    exact lowerEdgeLast_reassembles rx fun husable => by rw [rxSdu_of_usable hsdu hstart husable]
  | cons piece pieces => exact lowerEdgeBody_cons snSize n hinit hsdu hstart

end RlcUmRx
end SrsLte

/-!
The state variables are residues of numbers that are counted without wrap: `U` for `vr_ur`, `H` for
`vr_uh`. The window holds PDUs with numbers from `U` up to `H`; what was delivered is a sublist of
the SDUs that end before PDU `U`.
-/

namespace SrsLte

open Segmentation

namespace RlcUmRx

variable {rx rx' : RlcUmRx} {n U H : ℕ}

theorem mod_eq (s : UmdSnSize) : s.mod = 2 * s.rxWindowSize := by cases s <;> rfl

theorem window_pos (s : UmdSnSize) : 2 < s.rxWindowSize := by cases s <;> decide

section

variable (huh : rx.vrUh = H % rx.snSize.mod)
include huh

theorem rxModBase_near (hlo : H ≤ n + rx.snSize.rxWindowSize)
    (hhi : n < H + rx.snSize.rxWindowSize) :
    rx.rxModBase (n % rx.snSize.mod) = n + rx.snSize.rxWindowSize - H := by
  unfold rxModBase Word.sub32
  rw [huh]
  cases hs : rx.snSize <;> rw [hs] at hlo hhi <;>
    simp only [UmdSnSize.mod, UmdSnSize.rxWindowSize] at hlo hhi ⊢ <;> omega

theorem rxModBase_below
    (hlo : H ≤ n + 3 * rx.snSize.rxWindowSize) (hhi : n + rx.snSize.rxWindowSize < H) :
    rx.rxModBase (n % rx.snSize.mod) = n + 3 * rx.snSize.rxWindowSize - H := by
  unfold rxModBase Word.sub32
  rw [huh]
  cases hs : rx.snSize <;> rw [hs] at hlo hhi <;>
    simp only [UmdSnSize.mod, UmdSnSize.rxWindowSize] at hlo hhi ⊢ <;> omega

theorem rxModBase_lowerEdge :
    rx.rxModBase (Word.sub32 rx.vrUh rx.snSize.rxWindowSize) = 0 := by
  unfold rxModBase Word.sub32
  rw [huh]
  cases rx.snSize <;> simp only [UmdSnSize.mod, UmdSnSize.rxWindowSize] <;> omega

theorem rxModBase_vrUh :
    rx.rxModBase rx.vrUh = rx.snSize.rxWindowSize := by
  have hpos := window_pos rx.snSize
  have hnear := rxModBase_near (n := H) huh (by omega) (by omega)
  rw [← huh] at hnear
  omega

theorem insideReorderingWindow_iff
    (hne : rx.rxWindow ≠ []) (hlo : H ≤ n + 2 * rx.snSize.rxWindowSize)
    (hhi : n < H + rx.snSize.rxWindowSize) :
    rx.insideReorderingWindow (n % rx.snSize.mod) = true ↔
      H ≤ n + rx.snSize.rxWindowSize ∧ n < H := by
  unfold insideReorderingWindow
  rw [rxModBase_lowerEdge huh, rxModBase_vrUh huh, decide_eq_true_iff]
  simp only [hne, false_or, Nat.zero_le, true_and]
  by_cases hnear : H ≤ n + rx.snSize.rxWindowSize
  · rw [rxModBase_near huh hnear hhi]
    omega
  · rw [rxModBase_below huh (by omega) (by omega)]
    omega

end

theorem eq_of_residues {M m n : ℕ} (hlo : n ≤ m) (hhi : m < n + M) (h : m % M = n % M) : m = n :=
  Word.eq_of_mod_eq hlo hhi le_rfl (by omega) h

/-- PDU `n` is in the window. -/
def Holds (rx : RlcUmRx) (n : ℕ) : Prop := ∃ p ∈ rx.rxWindow, p.header.sn = n % rx.snSize.mod

theorem find_isSome_iff : (rx.find (n % rx.snSize.mod)).isSome = true ↔ rx.Holds n := by
  unfold find Holds
  rw [List.find?_isSome]
  simp only [decide_eq_true_eq]

theorem find_eq_none_iff : rx.find (n % rx.snSize.mod) = none ↔ ¬ rx.Holds n := by
  rw [← find_isSome_iff, Option.not_isSome_iff_eq_none]

/-- The state variables are residues of `U` and `H`, and the PDUs of the window have numbers between
them. -/
structure Numbered (rx : RlcUmRx) (U H : ℕ) : Prop where
  vrUr : rx.vrUr = U % rx.snSize.mod
  vrUh : rx.vrUh = H % rx.snSize.mod
  le : U ≤ H
  window : ∀ p ∈ rx.rxWindow, ∃ n, U ≤ n ∧ n < H ∧ p.header.sn = n % rx.snSize.mod

theorem Numbered.holds_lt (h : Numbered rx U H) (hH : H ≤ U + rx.snSize.mod) (hlo : U ≤ n)
    (hhi : n < U + rx.snSize.mod) (hn : rx.Holds n) : n < H := by
  obtain ⟨p, hp, hsn⟩ := hn
  obtain ⟨m, hm, hmH, hpsn⟩ := h.window p hp
  have heq := Word.eq_of_mod_eq hlo hhi hm (by omega) (hsn.symm.trans hpsn)
  rw [heq]
  exact hmH

theorem Numbered.holds_erase (h : Numbered rx U H) (hlo : U < n) (hhi : n < U + rx.snSize.mod)
    (hn : rx.Holds n) :
    ∃ p ∈ rx.rxWindow.filter (fun p => p.header.sn ≠ rx.vrUr), p.header.sn = n % rx.snSize.mod := by
  obtain ⟨p, hp, hsn⟩ := hn
  refine ⟨p, List.mem_filter.mpr ⟨hp, ?_⟩, hsn⟩
  apply decide_eq_true
  intro hur
  have := eq_of_residues (Nat.le_of_lt hlo) hhi (hsn.symm.trans (hur.trans h.vrUr))
  omega

variable (fs : List (Fragment UInt8))

/-- The state refers to the fragments `fs` at the numbers `U` and `H`. -/
structure Core (rx : RlcUmRx) (U H : ℕ) : Prop where
  vrUr : rx.vrUr = U % rx.snSize.mod
  vrUh : rx.vrUh = H % rx.snSize.mod
  le : U ≤ H
  window : ∀ p ∈ rx.rxWindow, ∃ n f, U ≤ n ∧ n < H ∧ fs[n]? = some f ∧
    p = UmdPdu.ofFragment rx.snSize n f
  delivered : rx.delivered.Sublist (completed (fs.take U))

/-- The partial SDU is empty, or all that was sent before PDU `J` of the SDU under way there. -/
def Partial (rx : RlcUmRx) (J : ℕ) : Prop :=
  rx.rxSdu = [] ∨ rx.rxSdu = carry (fs.take J) ∧
    (rx.vrUrInRxSdu + 1) % rx.snSize.mod = J % rx.snSize.mod

/-- The transmitter's fragments: they are chained, and their units fit into SDU buffers. -/
structure Sendable : Prop where
  chained : Chained true fs
  completed : ∀ u ∈ completed fs, u.length ≤ bufferTailroom
  carry : (carry fs).length ≤ bufferTailroom

variable {fs} {f : Fragment UInt8}

theorem Sendable.bounded (h : Sendable fs) (hf : fs[n]? = some f) :
    Bounded (Segmentation.carry (fs.take n)) f := by
  constructor
  · intro u hu
    apply h.completed u
    apply (completed_take_sublist fs (n + 1)).subset
    rw [completed_take_succ hf]
    exact List.mem_append_right _ hu
  · rw [← carry_take_succ hf]
    exact length_carry_take_le h.completed h.carry (n + 1)

theorem Core.numbered (h : Core fs rx U H) : Numbered rx U H where
  vrUr := h.vrUr
  vrUh := h.vrUh
  le := h.le
  window := fun p hp => by
    obtain ⟨n, f, hlo, hhi, -, rfl⟩ := h.window p hp
    exact ⟨n, hlo, hhi, rfl⟩

theorem Core.find_vrUr (h : Core fs rx U H) (hH : H ≤ U + rx.snSize.mod) {p : UmdPdu}
    (hfind : rx.find rx.vrUr = some p) :
    ∃ f, fs[U]? = some f ∧ p = UmdPdu.ofFragment rx.snSize U f ∧ U < H := by
  unfold find at hfind
  have hmem := List.mem_of_find?_eq_some hfind
  have hsn : p.header.sn = rx.vrUr := by simpa using List.find?_some hfind
  obtain ⟨m, f, hm, hmH, hf, rfl⟩ := h.window p hmem
  have heq : m = U := eq_of_residues hm (by omega) (hsn.trans h.vrUr)
  subst heq
  exact ⟨f, hf, rfl, hmH⟩

theorem Core.window_erase (h : Core fs rx U H) {p : UmdPdu}
    (hp : p ∈ rx.rxWindow.filter fun p => p.header.sn ≠ rx.vrUr) :
    ∃ n f, U + 1 ≤ n ∧ n < H ∧ fs[n]? = some f ∧ p = UmdPdu.ofFragment rx.snSize n f := by
  obtain ⟨hmem, hne⟩ := List.mem_filter.mp hp
  obtain ⟨m, f, hm, hmH, hf, rfl⟩ := h.window p hmem
  refine ⟨m, f, ?_, hmH, hf, rfl⟩
  rcases Nat.lt_or_eq_of_le hm with hlt | rfl
  · exact hlt
  · exact absurd h.vrUr.symm (of_decide_eq_true hne)

theorem Core.advance (h : Core fs rx U H) (hlt : U < H) {rx₁ : RlcUmRx} (units : List Bytes)
    (hsize : rx₁.snSize = rx.snSize) (hur : rx₁.vrUr = (rx.vrUr + 1) % rx.snSize.mod)
    (huh : rx₁.vrUh = rx.vrUh)
    (hwindow : ∀ p ∈ rx₁.rxWindow, ∃ n f, U + 1 ≤ n ∧ n < H ∧ fs[n]? = some f ∧
      p = UmdPdu.ofFragment rx.snSize n f)
    (hdelivered : rx₁.delivered = rx.delivered ++ units)
    (hunits : (completed (fs.take U) ++ units).Sublist (completed (fs.take (U + 1)))) :
    Core fs rx₁ (U + 1) H where
  vrUr := by rw [hur, h.vrUr, hsize, Nat.mod_add_mod]
  vrUh := by rw [huh, h.vrUh, hsize]
  le := hlt
  window := by
    rw [hsize]
    exact hwindow
  delivered := by
    rw [hdelivered]
    exact (h.delivered.append (List.Sublist.refl units)).trans hunits

end RlcUmRx
end SrsLte
