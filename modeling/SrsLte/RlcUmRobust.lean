import SrsLte.RlcAmPdu
import SrsLte.RlcUmRxRuns

/-!
# The UM receiver with its memory accesses

The functions of the receiver with the faults that they do not check for: a header that is read
behind the end of the PDU, more length indicators than the array of the header holds, and a
subtraction from `N_bytes` that underflows. A call that meets no fault does what the receiver does.
-/

namespace SrsLte

open OctetBits (bit)
open BitString (ofBytes)
open AmdPduHeader (readLi isOk_readLi liStart_false)

namespace UmdPduHeader

/-- The extension part behind a fixed part with the extension bit `ext`. -/
def readExtension (ext : ℕ) (rest : Bytes) : Except RlcAmFault (List ℕ) :=
  if ext = 0 then .ok [] else (readLi rlcAmWindowSize false rest).map Prod.fst

/-- `rlc_um_read_data_pdu_header`. -/
def readChecked : UmdSnSize → Bytes → Except RlcAmFault UmdPduHeader
  | .size5bits, x :: rest =>
    (readExtension (x.toNat >>> 5 &&& 0x01) rest).map fun li =>
      { fi := x.toNat >>> 6 &&& 0x03
        snSize := .size5bits
        sn := x.toNat &&& 0x1F
        li := li }
  | .size10bits, x :: y :: rest =>
    (readExtension (x.toNat >>> 2 &&& 0x01) rest).map fun li =>
      { fi := x.toNat >>> 3 &&& 0x03
        snSize := .size10bits
        sn := (x.toNat &&& 0x03) <<< 8 ||| (y.toNat &&& 0xFF)
        li := li }
  | _, _ => .error .readPastEnd

def extensionBit : UmdSnSize → ℕ
  | .size5bits => 2
  | .size10bits => 5

def Inside (snSize : UmdSnSize) (payload : Bytes) : Prop :=
  fixedLength snSize ≤ payload.length ∧
    ((ofBytes payload).getD (extensionBit snSize) false = true →
      LiChain rlcAmWindowSize ((ofBytes payload).drop (8 * fixedLength snSize)))

theorem isOk_readExtension (b : Bool) (rest : Bytes) :
    (readExtension b.toNat rest).isOk = true ↔
      (b = true → LiChain rlcAmWindowSize (ofBytes rest)) := by
  have hread := isOk_readLi rlcAmWindowSize false rest
  rw [liStart_false, List.drop_zero] at hread
  cases b with
  | false => exact iff_of_true rfl fun h => absurd h Bool.false_ne_true
  | true =>
    change ((readLi rlcAmWindowSize false rest).map Prod.fst).isOk = true ↔ _
    rw [isOk_map, hread]
    exact (imp_iff_right rfl).symm

theorem isOk_readChecked (snSize : UmdSnSize) (payload : Bytes) :
    (readChecked snSize payload).isOk = true ↔ Inside snSize payload := by
  unfold Inside
  cases snSize with
  | size5bits =>
    rcases payload with - | ⟨x, rest⟩
    · exact iff_of_false Bool.false_ne_true fun h => absurd h.1 (by decide)
    · have hext : x.toNat >>> 5 &&& 0x01 = (bit x 2).toNat :=
        shiftRight_and_one x (i := 2) (by decide)
      have hdrop : (ofBytes (x :: rest)).drop 8 = ofBytes rest := drop_ofBytes_cons x rest 0
      have hlength : 1 ≤ (x :: rest).length := Nat.le_add_left 1 _
      rw [readChecked, isOk_map, hext, isOk_readExtension, extensionBit, fixedLength,
        getD_ofBytes_cons x _ (by decide), hdrop, and_iff_right hlength]
  | size10bits =>
    rcases payload with - | ⟨x, - | ⟨y, rest⟩⟩
    · exact iff_of_false Bool.false_ne_true fun h => absurd h.1 (by decide)
    · exact iff_of_false Bool.false_ne_true fun h => absurd h.1 (by simp [fixedLength])
    · have hext : x.toNat >>> 2 &&& 0x01 = (bit x 5).toNat :=
        shiftRight_and_one x (i := 5) (by decide)
      have hdrop : (ofBytes (x :: y :: rest)).drop 16 = ofBytes rest :=
        (drop_ofBytes_cons x _ 8).trans (drop_ofBytes_cons y rest 0)
      have hlength : 2 ≤ (x :: y :: rest).length := Nat.le_add_left 2 _
      rw [readChecked, isOk_map, hext, isOk_readExtension, extensionBit, fixedLength,
        getD_ofBytes_cons x _ (by decide), hdrop, and_iff_right hlength]

/-- The indicators that are read have eleven bits and lie inside the bytes, and the reader of the
receiver finds the same ones. -/
theorem of_readLi {room : ℕ} {middle : Bool} {bytes rest payload : Bytes} {li acc : List ℕ}
    {ptr fuel : ℕ} (h : readLi room middle bytes = .ok (li, rest))
    (hdrop : payload.drop ptr = bytes)
    (hacc : acc.length % 2 = middle.toNat) (hfuel : li.length ≤ fuel) :
    (LengthIndicators.read payload fuel ptr acc).1 = acc ++ li ∧
      (3 * li.length + 1 + middle.toNat) / 2 ≤ bytes.length ∧ ∀ len ∈ li, len < 2048 := by
  induction room generalizing middle bytes li acc ptr fuel with
  | zero => cases middle <;> cases h
  | succ room ih =>
    rcases bytes with - | ⟨x, - | ⟨y, tail⟩⟩
    · cases middle <;> cases h
    · cases middle <;> cases h
    · have h0 : payload.getD ptr 0 = x :=
        @LengthIndicators.getD_of_drop payload tail ptr [x, y] hdrop 0 (by simp)
      have h1 : payload.getD (ptr + 1) 0 = y :=
        @LengthIndicators.getD_of_drop payload tail ptr [x, y] hdrop 1 (by simp)
      have hy : y.toNat < 256 := y.toNat_lt
      have hbit (k : ℕ) : x.toNat >>> k &&& 0x01 = 0 ∨ x.toNat >>> k &&& 0x01 = 1 := by
        rw [LengthIndicators.read_ext]
        omega
      obtain ⟨ext, len, hext, hlen, hli, hread⟩ : ∃ ext len, (ext = 0 ∨ ext = 1) ∧ len < 2048 ∧
          readLi (room + 1) middle (x :: y :: tail) = (if ext = 0 then .ok ([len], tail) else
            (readLi room (!middle) ((x :: y :: tail).drop (1 + middle.toNat))).map
              fun r => (len :: r.1, r.2)) ∧
          ∀ fuel, LengthIndicators.read payload (fuel + 1) ptr acc =
            if ext = 1 then LengthIndicators.read payload fuel (ptr + (1 + middle.toNat))
              (acc ++ [len]) else (acc ++ [len], ptr + (1 + middle.toNat)) := by
        cases middle with
        | false =>
          have heven : acc.length % 2 = 0 := hacc
          refine ⟨_, (x.toNat &&& 0x7F) <<< 4 ||| (y.toNat &&& 0xF0) >>> 4, hbit 7, ?_, rfl,
            fun fuel => ?_⟩
          · rw [LengthIndicators.read_first hy]
            omega
          · rw [LengthIndicators.read]
            simp only [heven, if_true, h0, h1]
            rfl
        | true =>
          have hodd : ¬ acc.length % 2 = 0 := by
            rw [hacc]
            decide
          refine ⟨_, (x.toNat &&& 0x07) <<< 8 ||| (y.toNat &&& 0xFF), hbit 3, ?_, rfl,
            fun fuel => ?_⟩
          · rw [LengthIndicators.read_second hy]
            omega
          · rw [LengthIndicators.read]
            simp only [hodd, if_false, h0, h1]
            rfl
      rw [hli] at h
      rcases hext with rfl | rfl
      · cases h
        obtain ⟨fuel, rfl⟩ : ∃ k, fuel = k + 1 := Nat.exists_eq_add_of_le' hfuel
        rw [hread]
        exact ⟨rfl, by cases middle <;> simp, by simpa using hlen⟩
      · obtain ⟨⟨li', rest'⟩, hrec, heq⟩ := map_eq_ok_iff.mp h
        cases heq
        obtain ⟨fuel, rfl⟩ : ∃ k, fuel = k + 1 :=
          Nat.exists_eq_add_of_le' (Nat.le_trans (Nat.le_add_left 1 _) hfuel)
        obtain ⟨hgo, hlength, hlis⟩ := @ih (!middle) _ li' (acc ++ [len])
          (ptr + (1 + middle.toNat)) fuel hrec (by rw [← List.drop_drop, hdrop])
          (by cases middle <;> simp at hacc ⊢ <;> omega) (by simpa using hfuel)
        refine ⟨?_, ?_, List.forall_mem_cons.mpr ⟨hlen, hlis⟩⟩
        · rw [hread, if_pos rfl, hgo, List.append_assoc, List.singleton_append]
        · cases middle <;> simp at hlength ⊢ <;> omega

theorem of_readExtension {ext ptr : ℕ} {payload : Bytes} {li : List ℕ} (hext : ext < 2)
    (h : readExtension ext (payload.drop ptr) = .ok li) :
    li = (if ext = 1 then (LengthIndicators.read payload payload.length ptr []).1 else []) ∧
      LengthIndicators.length li.length ≤ (payload.drop ptr).length ∧ ∀ len ∈ li, len < 2048 := by
  unfold readExtension at h
  by_cases hnone : ext = 0
  · rw [if_pos hnone] at h
    cases h
    rw [if_neg (by omega)]
    exact ⟨rfl, Nat.zero_le _, List.forall_mem_nil _⟩
  · rw [if_neg hnone] at h
    obtain ⟨⟨li', rest⟩, hread, rfl⟩ := map_eq_ok_iff.mp h
    have hlen (k : ℕ) (hk : k ≤ (payload.drop ptr).length) : k ≤ payload.length :=
      hk.trans (by rw [List.length_drop]; omega)
    obtain ⟨-, hlength, hli⟩ := @of_readLi _ false _ rest payload li' [] ptr li'.length hread rfl
      rfl le_rfl
    have hfuel : li'.length ≤ payload.length := hlen _ (by simp at hlength ⊢; omega)
    obtain ⟨hsame, -, -⟩ := @of_readLi _ false _ rest payload li' [] ptr payload.length hread rfl
      rfl hfuel
    rw [if_pos (by omega), hsame]
    exact ⟨rfl, hlength, hli⟩

theorem of_readChecked {snSize : UmdSnSize} {payload : Bytes} {header : UmdPduHeader}
    (h : readChecked snSize payload = .ok header) :
    header = read snSize payload ∧ packedLength snSize header.li.length ≤ payload.length ∧
      ∀ len ∈ header.li, len < 2048 := by
  have hbit (x : UInt8) (k : ℕ) : x.toNat >>> k &&& 0x01 < 2 := by
    rw [LengthIndicators.read_ext]
    omega
  cases snSize with
  | size5bits =>
    rcases payload with - | ⟨x, rest⟩
    · cases h
    · obtain ⟨li, hli, rfl⟩ := map_eq_ok_iff.mp h
      obtain ⟨hsame, hlength, hbound⟩ :=
        @of_readExtension _ 1 (x :: rest) li (hbit x 5) hli
      refine ⟨?_, ?_, hbound⟩
      · rw [hsame]
        rfl
      · simp [packedLength, fixedLength] at hlength ⊢
        omega
  | size10bits =>
    rcases payload with - | ⟨x, - | ⟨y, rest⟩⟩
    · cases h
    · cases h
    · obtain ⟨li, hli, rfl⟩ := map_eq_ok_iff.mp h
      obtain ⟨hsame, hlength, hbound⟩ :=
        @of_readExtension _ 2 (x :: y :: rest) li (hbit x 2) hli
      refine ⟨?_, ?_, hbound⟩
      · rw [hsame]
        rfl
      · simp [packedLength, fixedLength] at hlength ⊢
        omega

end UmdPduHeader

namespace RlcUmRx

/-- `N_bytes -= len` and `msg += len`. -/
def strip (buf : Bytes) (len : ℕ) : Except RlcAmFault Bytes :=
  if buf.length < len then .error .nBytesUnderflow else .ok (buf.drop len)

/-- "Handle any SDU segments" below the window. -/
def lowerEdgeSegmentsChecked (fi : ℕ) :
    ℕ → List ℕ → RlcUmRx → Bytes → Except RlcAmFault (RlcUmRx × Bytes)
  | _, [], rx, buf => .ok (rx, buf)
  | i, len :: li, rx, buf =>
    if rx.rxSdu = [] ∧ i = 0 ∧ ¬ RlcFi.startAligned fi then
      (strip buf len).map fun rest => (rx.clearSdu, rest)
    else do
      let rest ← strip buf len
      let rx := rx.append (buf.take len)
      let rx :=
        if (rx.pduLost ∧ ¬ RlcFi.startAligned fi) ∨
            rx.vrUr ≠ (rx.vrUrInRxSdu + 1) % rx.snSize.mod then rx.clearSdu
        else rx.deliver
      lowerEdgeSegmentsChecked fi (i + 1) li { rx with pduLost := false } rest

/-- One round of "catch up with lower edge of reordering window". -/
def lowerEdgeStepChecked (rx : RlcUmRx) : Except RlcAmFault RlcUmRx := do
  let rx ← match rx.find rx.vrUr with
    | none => .ok rx.clearSdu
    | some pdu => do
      let (rx, buf) ← lowerEdgeSegmentsChecked pdu.header.fi 0 pdu.header.li rx pdu.buf
      let rx := rx.lowerEdgeLast pdu.header.fi buf
      .ok (rx.erase rx.vrUr)
  .ok { rx with vrUr := (rx.vrUr + 1) % rx.snSize.mod }

def catchUpChecked : ℕ → RlcUmRx → Except RlcAmFault RlcUmRx
  | 0, rx => .ok rx
  | fuel + 1, rx =>
    if rx.insideReorderingWindow rx.vrUr then .ok rx
    else rx.lowerEdgeStepChecked >>= catchUpChecked fuel

/-- "Handle any SDU segments". -/
def updateSegmentsChecked (fi : ℕ) :
    ℕ → List ℕ → RlcUmRx → Bytes → Except RlcAmFault (RlcUmRx × Bytes × Bool)
  | _, [], rx, buf => .ok (rx, buf, false)
  | i, len :: li, rx, buf =>
    if rx.rxSdu = [] ∧ i = 0 ∧ ¬ RlcFi.startAligned fi then
      if buf.length < len then .ok (rx, buf, true)
      else updateSegmentsChecked fi (i + 1) li { rx.clearSdu with pduLost := false } (buf.drop len)
    else if len > rx.sduTailroom then .ok (rx.clearSdu, buf, true)
    else do
      let rest ← strip buf len
      let rx := { rx.append (buf.take len) with vrUrInRxSdu := rx.vrUr }
      let (rx, buf) ←
        if rx.pduBelongsToRxSdu then .ok (rx.deliver, rest)
        else (strip rest len).map fun rest => (rx, rest)
      updateSegmentsChecked fi (i + 1) li { rx with pduLost := false } buf

/-- The PDU with SN `vr_ur` in the window. -/
def updatePduChecked (rx : RlcUmRx) (pdu : UmdPdu) : Except RlcAmFault RlcUmRx := do
  let rx := if ¬ rx.pduBelongsToRxSdu then { rx.clearSdu with pduLost := false } else rx
  let (rx, buf, skip) ← updateSegmentsChecked pdu.header.fi 0 pdu.header.li rx pdu.buf
  let rx := if skip then rx else rx.updateLast pdu.header.fi pdu.header.li.length buf
  let rx := rx.erase rx.vrUr
  .ok { rx with vrUr := (rx.vrUr + 1) % rx.snSize.mod }

def updateVrUrChecked : ℕ → RlcUmRx → Except RlcAmFault RlcUmRx
  | 0, rx => .ok rx
  | fuel + 1, rx =>
    match rx.find rx.vrUr with
    | none => .ok rx
    | some pdu => rx.updatePduChecked pdu >>= updateVrUrChecked fuel

def reassembleRxSdusChecked (rx : RlcUmRx) : Except RlcAmFault RlcUmRx := do
  let rx ← catchUpChecked rx.snSize.mod rx
  updateVrUrChecked rx.rxWindow.length rx

def handleDataPduChecked (rx : RlcUmRx) (payload : Bytes) : Except RlcAmFault RlcUmRx := do
  let header ← UmdPduHeader.readChecked rx.snSize payload
  if rx.discards header.sn then .ok rx
  else
    let buf ← strip payload (UmdPduHeader.packedLength rx.snSize header.li.length)
    let rx ← (rx.store ⟨header, buf⟩).reassembleRxSdusChecked
    .ok rx.stopTimer.startTimer

def expireLoopChecked : ℕ → RlcUmRx → Except RlcAmFault RlcUmRx
  | 0, rx => .ok rx
  | fuel + 1, rx =>
    if rx.rxModBase rx.vrUr < rx.rxModBase rx.vrUx then
      { rx with vrUr := (rx.vrUr + 1) % rx.snSize.mod }.reassembleRxSdusChecked >>=
        expireLoopChecked fuel
    else .ok rx

def timerExpiredChecked (rx : RlcUmRx) : Except RlcAmFault RlcUmRx := do
  let rx := { rx.clearSdu with pduLost := true, reorderingTimer := false }
  let rx ← expireLoopChecked rx.snSize.mod rx
  .ok rx.startTimer

def nextChecked (rx : RlcUmRx) : Input → Except RlcAmFault RlcUmRx
  | .pdu payload => rx.handleDataPduChecked payload
  | .expiry => if rx.reorderingTimer then rx.timerExpiredChecked else .ok rx
  | .lapse => .ok { rx with reorderingTimer := false }
  | .reestablish =>
    if rx.reorderingTimer then rx.timerExpiredChecked.map reset else .ok rx.reset
  | .stop => .ok rx.stop

end RlcUmRx
end SrsLte

/-!
Which PDUs, in which states, make the receiver read behind the end of a PDU, write behind the end of
the array of length indicators or subtract more from `N_bytes` than is left of a PDU.
-/

namespace SrsLte

/-- The result `a`, or the underflow of `N_bytes` where `P` does not hold. -/
noncomputable def unlessUnderflow {α : Type} (P : Prop) (a : α) : Except RlcAmFault α :=
  open scoped Classical in if P then .ok a else .error .nBytesUnderflow

section

variable {α β : Type} {P Q : Prop} {a : α} {b : β} {f : α → Except RlcAmFault β}

theorem unlessUnderflow_of (h : P) : unlessUnderflow P a = .ok a := if_pos h

theorem unlessUnderflow_of_not (h : ¬ P) : unlessUnderflow P a = .error .nBytesUnderflow := if_neg h

theorem isOk_unlessUnderflow : (unlessUnderflow P a).isOk = true ↔ P := by
  by_cases h : P
  · rw [unlessUnderflow_of h]
    exact iff_of_true rfl h
  · rw [unlessUnderflow_of_not h]
    exact iff_of_false Bool.false_ne_true h

theorem unlessUnderflow_bind (h : P → f a = unlessUnderflow Q b) :
    (unlessUnderflow P a >>= f) = unlessUnderflow (P ∧ Q) b := by
  by_cases hP : P
  · rw [unlessUnderflow_of hP, ok_bind, h hP, and_iff_right hP]
  · rw [unlessUnderflow_of_not hP, unlessUnderflow_of_not (fun h => hP h.1)]
    rfl

theorem unlessUnderflow_map (g : α → β) :
    (unlessUnderflow P a).map g = unlessUnderflow P (g a) := by
  by_cases hP : P
  · rw [unlessUnderflow_of hP, unlessUnderflow_of hP]
    rfl
  · rw [unlessUnderflow_of_not hP, unlessUnderflow_of_not hP]
    rfl

theorem unlessUnderflow_true : unlessUnderflow True a = .ok a := unlessUnderflow_of trivial

end

namespace RlcUmRx

variable {rx rx' : RlcUmRx}

theorem strip_eq (buf : Bytes) (len : ℕ) :
    strip buf len = unlessUnderflow (len ≤ buf.length) (buf.drop len) := by
  unfold strip
  by_cases h : buf.length < len
  · rw [if_pos h, unlessUnderflow_of_not (by omega)]
  · rw [if_neg h, unlessUnderflow_of (by omega)]

/-- The length indicators that are used are inside the PDU: without the beginning of its first SDU,
only the first one is. -/
def LowerEdgeFits (rx : RlcUmRx) (pdu : UmdPdu) : Prop :=
  if rx.rxSdu = [] ∧ ¬ RlcFi.startAligned pdu.header.fi then
    pdu.header.li.headD 0 ≤ pdu.buf.length
  else pdu.header.li.sum ≤ pdu.buf.length

def CatchUpFits : ℕ → RlcUmRx → Prop
  | 0, _ => True
  | fuel + 1, rx => rx.insideReorderingWindow rx.vrUr = true ∨
      (∀ pdu, rx.find rx.vrUr = some pdu → rx.LowerEdgeFits pdu) ∧ CatchUpFits fuel rx.lowerEdgeStep

theorem lowerEdgeSegmentsChecked_all (fi i : ℕ) (li : List ℕ) (rx : RlcUmRx) (buf : Bytes)
    (h : ¬ (rx.rxSdu = [] ∧ i = 0 ∧ ¬ RlcFi.startAligned fi = true)) :
    lowerEdgeSegmentsChecked fi i li rx buf =
      unlessUnderflow (li.sum ≤ buf.length) (lowerEdgeSegments fi i li rx buf) := by
  induction li generalizing i rx buf with
  | nil => exact (unlessUnderflow_of (Nat.zero_le _)).symm
  | cons len li ih =>
    rw [lowerEdgeSegmentsChecked, lowerEdgeSegments, if_neg h, if_neg h, strip_eq]
    rw [unlessUnderflow_bind fun _ => ih (i + 1) _ _ (fun hi => by omega)]
    congr 1
    rw [List.sum_cons, List.length_drop, eq_iff_iff]
    omega

theorem lowerEdgeSegmentsChecked_eq (rx : RlcUmRx) (pdu : UmdPdu) :
    lowerEdgeSegmentsChecked pdu.header.fi 0 pdu.header.li rx pdu.buf =
      unlessUnderflow (rx.LowerEdgeFits pdu)
        (lowerEdgeSegments pdu.header.fi 0 pdu.header.li rx pdu.buf) := by
  unfold LowerEdgeFits
  by_cases hskip : rx.rxSdu = [] ∧ ¬ RlcFi.startAligned pdu.header.fi = true
  · rw [if_pos hskip]
    cases hli : pdu.header.li with
    | nil => exact (unlessUnderflow_of (Nat.zero_le _)).symm
    | cons len li =>
      rw [lowerEdgeSegmentsChecked, lowerEdgeSegments, if_pos ⟨hskip.1, rfl, hskip.2⟩,
        if_pos ⟨hskip.1, rfl, hskip.2⟩, strip_eq, unlessUnderflow_map]
      rfl
  · rw [if_neg hskip]
    exact lowerEdgeSegmentsChecked_all _ _ _ _ _ fun h => hskip ⟨h.1, h.2.2⟩

theorem lowerEdgeStepChecked_eq (rx : RlcUmRx) :
    rx.lowerEdgeStepChecked =
      unlessUnderflow (∀ pdu, rx.find rx.vrUr = some pdu → rx.LowerEdgeFits pdu)
        rx.lowerEdgeStep := by
  unfold lowerEdgeStepChecked lowerEdgeStep
  cases hfind : rx.find rx.vrUr with
  | none => exact (unlessUnderflow_of (by simp)).symm
  | some pdu =>
    simp only [Option.some.injEq, forall_eq', lowerEdgeSegmentsChecked_eq]
    by_cases h : rx.LowerEdgeFits pdu
    · rw [unlessUnderflow_of h, unlessUnderflow_of h]
      rfl
    · rw [unlessUnderflow_of_not h, unlessUnderflow_of_not h]
      rfl

theorem catchUpChecked_eq (fuel : ℕ) (rx : RlcUmRx) :
    catchUpChecked fuel rx = unlessUnderflow (CatchUpFits fuel rx) (catchUp fuel rx) := by
  induction fuel generalizing rx with
  | zero => exact unlessUnderflow_true.symm
  | succ fuel ih =>
    rw [catchUpChecked, catchUp, CatchUpFits]
    by_cases hin : rx.insideReorderingWindow rx.vrUr = true
    · rw [if_pos hin, if_pos hin, unlessUnderflow_of (Or.inl hin)]
    · rw [if_neg hin, if_neg hin, or_iff_right hin, lowerEdgeStepChecked_eq,
        unlessUnderflow_bind fun _ => ih _]

/-- The length indicators that are used are inside the PDU: those of a PDU without the beginning of
its first SDU, or whose first segment has no room in the SDU buffer, are not used if the first one
is too large. -/
def UpdateFits (rx : RlcUmRx) (pdu : UmdPdu) : Prop :=
  if rx.checked.rxSdu = [] ∧ ¬ RlcFi.startAligned pdu.header.fi then
    pdu.header.li.headD 0 ≤ pdu.buf.length → pdu.header.li.sum ≤ pdu.buf.length
  else pdu.header.li.headD 0 ≤ rx.checked.sduTailroom → pdu.header.li.sum ≤ pdu.buf.length

def UpdateVrUrFits : ℕ → RlcUmRx → Prop
  | 0, _ => True
  | fuel + 1, rx => ∀ pdu, rx.find rx.vrUr = some pdu →
      rx.UpdateFits pdu ∧ UpdateVrUrFits fuel (rx.updatePdu pdu)

def IndicatorsBounded (rx : RlcUmRx) : Prop :=
  ∀ pdu ∈ rx.rxWindow, ∀ len ∈ pdu.header.li, len < 2048

theorem updateSegmentsChecked_succ (fi i : ℕ) (li : List ℕ) (rx : RlcUmRx) (buf : Bytes)
    (hsdu : rx.rxSdu = []) (hli : ∀ len ∈ li, len < 2048) :
    updateSegmentsChecked fi (i + 1) li rx buf =
      unlessUnderflow (li.sum ≤ buf.length) (updateSegments fi (i + 1) li rx buf) := by
  induction li generalizing i rx buf with
  | nil => exact (unlessUnderflow_of (Nat.zero_le _)).symm
  | cons len li ih =>
    have hlen := hli len List.mem_cons_self
    have hroom : ¬ len > rx.sduTailroom := by
      have htailroom : 2048 ≤ bufferTailroom := by decide
      unfold sduTailroom
      rw [hsdu, List.length_nil]
      omega
    have hbelongs : ({ rx.append (buf.take len) with vrUrInRxSdu := rx.vrUr } :
        RlcUmRx).pduBelongsToRxSdu = true := decide_eq_true (Or.inr rfl)
    have hskip : ¬ (rx.rxSdu = [] ∧ i + 1 = 0 ∧ ¬ RlcFi.startAligned fi = true) := by
      rintro ⟨-, hi, -⟩
      omega
    rw [updateSegmentsChecked, updateSegments, if_neg hskip, if_neg hskip, if_neg hroom,
      if_neg hroom, strip_eq]
    dsimp only
    rw [if_pos hbelongs]
    simp only [if_pos hbelongs, ok_bind]
    rw [unlessUnderflow_bind fun _ =>
      ih (i + 1) _ _ rfl (List.forall_mem_cons.mp hli).2]
    congr 1
    rw [List.sum_cons, List.length_drop, eq_iff_iff]
    omega

theorem updateSegmentsChecked_eq (rx : RlcUmRx) {pdu : UmdPdu}
    (hli : ∀ len ∈ pdu.header.li, len < 2048) :
    updateSegmentsChecked pdu.header.fi 0 pdu.header.li rx.checked pdu.buf =
      unlessUnderflow (rx.UpdateFits pdu)
        (updateSegments pdu.header.fi 0 pdu.header.li rx.checked pdu.buf) := by
  unfold UpdateFits
  generalize rx.checked = rx
  cases hcons : pdu.header.li with
  | nil =>
    rw [unlessUnderflow_of (by simp)]
    rfl
  | cons len li =>
    have htail : ∀ n ∈ li, n < 2048 := fun n hn => hli n (hcons ▸ List.mem_cons_of_mem _ hn)
    rw [updateSegmentsChecked, updateSegments, List.headD_cons, List.sum_cons]
    by_cases hskip : rx.rxSdu = [] ∧ ¬ RlcFi.startAligned pdu.header.fi = true
    · -- the beginning of the first SDU is lost
      have hskip' : rx.rxSdu = [] ∧ 0 = 0 ∧ ¬ RlcFi.startAligned pdu.header.fi = true :=
        ⟨hskip.1, rfl, hskip.2⟩
      rw [if_pos hskip', if_pos hskip', if_pos hskip]
      by_cases hshort : pdu.buf.length < len
      · rw [if_pos hshort, if_pos hshort, unlessUnderflow_of (by omega)]
      · rw [if_neg hshort, if_neg hshort,
          updateSegmentsChecked_succ _ _ _ _ _ (by rfl) htail]
        congr 1
        rw [List.length_drop, eq_iff_iff]
        omega
    · have hskip' : ¬ (rx.rxSdu = [] ∧ 0 = 0 ∧ ¬ RlcFi.startAligned pdu.header.fi = true) :=
        fun h => hskip ⟨h.1, h.2.2⟩
      rw [if_neg hskip', if_neg hskip', if_neg hskip]
      by_cases hroom : len > rx.sduTailroom
      · rw [if_pos hroom, if_pos hroom, unlessUnderflow_of (by omega)]
      · have hbelongs : ({ rx.append (pdu.buf.take len) with vrUrInRxSdu := rx.vrUr } :
            RlcUmRx).pduBelongsToRxSdu = true := decide_eq_true (Or.inr rfl)
        rw [if_neg hroom, if_neg hroom, strip_eq]
        dsimp only
        rw [if_pos hbelongs]
        simp only [if_pos hbelongs, ok_bind]
        rw [unlessUnderflow_bind fun _ => updateSegmentsChecked_succ _ _ _ _ _ (by rfl) htail]
        congr 1
        rw [List.length_drop, eq_iff_iff]
        omega

theorem updatePduChecked_eq (rx : RlcUmRx) {pdu : UmdPdu}
    (hli : ∀ len ∈ pdu.header.li, len < 2048) :
    rx.updatePduChecked pdu = unlessUnderflow (rx.UpdateFits pdu) (rx.updatePdu pdu) := by
  have hsegments := updateSegmentsChecked_eq rx hli
  unfold checked at hsegments
  unfold updatePduChecked
  dsimp only
  rw [hsegments]
  by_cases h : rx.UpdateFits pdu
  · rw [unlessUnderflow_of h, unlessUnderflow_of h]
    rfl
  · rw [unlessUnderflow_of_not h, unlessUnderflow_of_not h]
    rfl

theorem rxWindow_updatePdu (rx : RlcUmRx) (pdu : UmdPdu) :
    (rx.updatePdu pdu).rxWindow ⊆ rx.rxWindow := by
  have hframe := (frame_checked rx).trans (frame_updateBody rx.checked pdu)
  change (rx.checked.updateBody pdu).rxWindow.filter _ ⊆ _
  rw [hframe.rxWindow]
  exact List.filter_subset_self _

theorem rxWindow_lowerEdgeStep (rx : RlcUmRx) : rx.lowerEdgeStep.rxWindow ⊆ rx.rxWindow := by
  unfold lowerEdgeStep
  cases rx.find rx.vrUr with
  | none => exact List.Subset.refl _
  | some pdu =>
    change (rx.lowerEdgeBody pdu).rxWindow.filter _ ⊆ _
    rw [(frame_lowerEdgeBody rx pdu).rxWindow]
    exact List.filter_subset_self _

theorem rxWindow_catchUp (fuel : ℕ) (rx : RlcUmRx) : (catchUp fuel rx).rxWindow ⊆ rx.rxWindow := by
  induction fuel generalizing rx with
  | zero => exact List.Subset.refl _
  | succ fuel ih =>
    rw [catchUp]
    split_ifs
    · exact List.Subset.refl _
    · exact List.Subset.trans (ih _) (rxWindow_lowerEdgeStep rx)

theorem rxWindow_updateVrUr (fuel : ℕ) (rx : RlcUmRx) :
    (updateVrUr fuel rx).rxWindow ⊆ rx.rxWindow := by
  induction fuel generalizing rx with
  | zero => exact List.Subset.refl _
  | succ fuel ih =>
    rw [updateVrUr]
    split
    · exact List.Subset.refl _
    · exact List.Subset.trans (ih _) (rxWindow_updatePdu rx _)

theorem rxWindow_reassembleRxSdus (rx : RlcUmRx) : rx.reassembleRxSdus.rxWindow ⊆ rx.rxWindow :=
  List.Subset.trans (rxWindow_updateVrUr _ _) (rxWindow_catchUp _ rx)

theorem IndicatorsBounded.of_subset (h : rx.IndicatorsBounded)
    (hsub : rx'.rxWindow ⊆ rx.rxWindow) : rx'.IndicatorsBounded :=
  fun pdu hpdu => h pdu (hsub hpdu)

theorem updateVrUrChecked_eq (fuel : ℕ) (h : rx.IndicatorsBounded) :
    updateVrUrChecked fuel rx = unlessUnderflow (UpdateVrUrFits fuel rx) (updateVrUr fuel rx) := by
  induction fuel generalizing rx with
  | zero => exact unlessUnderflow_true.symm
  | succ fuel ih =>
    rw [updateVrUrChecked, updateVrUr, UpdateVrUrFits]
    cases hfind : rx.find rx.vrUr with
    | none => exact (unlessUnderflow_of (by simp)).symm
    | some pdu =>
      have hmem : pdu ∈ rx.rxWindow := List.mem_of_find?_eq_some hfind
      simp only [Option.some.injEq, forall_eq']
      rw [updatePduChecked_eq rx (h pdu hmem),
        unlessUnderflow_bind fun _ => ih (h.of_subset (rxWindow_updatePdu rx pdu))]

/-- Every PDU that `reassemble_rx_sdus` meets fits. -/
def ReassemblyFits (rx : RlcUmRx) : Prop :=
  CatchUpFits rx.snSize.mod rx ∧
    UpdateVrUrFits (catchUp rx.snSize.mod rx).rxWindow.length (catchUp rx.snSize.mod rx)

def ExpiryFits : ℕ → RlcUmRx → Prop
  | 0, _ => True
  | fuel + 1, rx => rx.rxModBase rx.vrUr < rx.rxModBase rx.vrUx →
      ReassemblyFits { rx with vrUr := (rx.vrUr + 1) % rx.snSize.mod } ∧
        ExpiryFits fuel { rx with vrUr := (rx.vrUr + 1) % rx.snSize.mod }.reassembleRxSdus

theorem reassembleRxSdusChecked_eq (h : rx.IndicatorsBounded) :
    rx.reassembleRxSdusChecked = unlessUnderflow rx.ReassemblyFits rx.reassembleRxSdus := by
  unfold reassembleRxSdusChecked ReassemblyFits reassembleRxSdus
  rw [catchUpChecked_eq]
  exact unlessUnderflow_bind fun _ => updateVrUrChecked_eq _ (h.of_subset (rxWindow_catchUp _ rx))

theorem rxWindow_expireLoop (fuel : ℕ) (rx : RlcUmRx) :
    (expireLoop fuel rx).rxWindow ⊆ rx.rxWindow := by
  induction fuel generalizing rx with
  | zero => exact List.Subset.refl _
  | succ fuel ih =>
    rw [expireLoop]
    split_ifs
    · exact List.Subset.trans (ih _) (rxWindow_reassembleRxSdus _)
    · exact List.Subset.refl _

theorem expireLoopChecked_eq (fuel : ℕ) (h : rx.IndicatorsBounded) :
    expireLoopChecked fuel rx = unlessUnderflow (ExpiryFits fuel rx) (expireLoop fuel rx) := by
  induction fuel generalizing rx with
  | zero => exact unlessUnderflow_true.symm
  | succ fuel ih =>
    rw [expireLoopChecked, expireLoop, ExpiryFits]
    by_cases hlt : rx.rxModBase rx.vrUr < rx.rxModBase rx.vrUx
    · have hmoved : ({ rx with vrUr := (rx.vrUr + 1) % rx.snSize.mod } :
          RlcUmRx).IndicatorsBounded := h
      rw [if_pos hlt, if_pos hlt, imp_iff_right hlt, reassembleRxSdusChecked_eq hmoved]
      exact unlessUnderflow_bind fun _ => ih (hmoved.of_subset (rxWindow_reassembleRxSdus _))
    · rw [if_neg hlt, if_neg hlt, unlessUnderflow_of fun h => absurd h hlt]

/-- The receiver with which `timer_expired` enters its loop. -/
def expired (rx : RlcUmRx) : RlcUmRx :=
  { rx.clearSdu with pduLost := true, reorderingTimer := false }

theorem timerExpiredChecked_eq (h : rx.IndicatorsBounded) :
    rx.timerExpiredChecked =
      unlessUnderflow (ExpiryFits rx.snSize.mod rx.expired) rx.timerExpired := by
  have hloop := @expireLoopChecked_eq rx.expired rx.snSize.mod h
  change (expireLoopChecked rx.snSize.mod rx.expired >>= fun rx => .ok rx.startTimer) = _
  rw [hloop]
  by_cases hfits : ExpiryFits rx.snSize.mod rx.expired
  · rw [unlessUnderflow_of hfits, unlessUnderflow_of hfits]
    rfl
  · rw [unlessUnderflow_of_not hfits, unlessUnderflow_of_not hfits]
    rfl

def withPdu (rx : RlcUmRx) (payload : Bytes) : RlcUmRx :=
  rx.store ⟨UmdPduHeader.read rx.snSize payload, payload.drop
    (UmdPduHeader.packedLength rx.snSize (UmdPduHeader.read rx.snSize payload).li.length)⟩

/-- The receiver can cope with a PDU: its header is inside it and has room in the header structure,
and if it is not discarded, every PDU that is then reassembled fits. -/
def CopesWith (rx : RlcUmRx) (payload : Bytes) : Prop :=
  UmdPduHeader.Inside rx.snSize payload ∧
    (rx.discards (UmdPduHeader.read rx.snSize payload).sn = false →
      (rx.withPdu payload).ReassemblyFits)

theorem rxWindow_store (rx : RlcUmRx) (pdu : UmdPdu) :
    (rx.store pdu).rxWindow = pdu :: rx.rxWindow := by
  unfold store
  dsimp only
  split_ifs <;> rfl

theorem IndicatorsBounded.withPdu (h : rx.IndicatorsBounded) {payload : Bytes}
    (hli : ∀ len ∈ (UmdPduHeader.read rx.snSize payload).li, len < 2048) :
    (rx.withPdu payload).IndicatorsBounded := by
  intro pdu hpdu
  unfold RlcUmRx.withPdu at hpdu
  rw [rxWindow_store, List.mem_cons] at hpdu
  rcases hpdu with rfl | hpdu
  · exact hli
  · exact h pdu hpdu

theorem handleDataPduChecked_eq (h : rx.IndicatorsBounded) {payload : Bytes}
    (hinside : UmdPduHeader.Inside rx.snSize payload) :
    rx.handleDataPduChecked payload =
      unlessUnderflow (rx.discards (UmdPduHeader.read rx.snSize payload).sn = false →
        (rx.withPdu payload).ReassemblyFits) (rx.handleDataPdu payload) := by
  obtain ⟨header, hread⟩ :=
    isOk_iff_exists.mp ((UmdPduHeader.isOk_readChecked rx.snSize payload).mpr hinside)
  obtain ⟨rfl, hlength, hli⟩ := UmdPduHeader.of_readChecked hread
  unfold handleDataPduChecked handleDataPdu
  rw [hread, ok_bind]
  dsimp only
  cases hd : rx.discards (UmdPduHeader.read rx.snSize payload).sn with
  | true =>
    rw [if_pos rfl, if_pos rfl, unlessUnderflow_of fun hf => absurd hf (by decide)]
  | false =>
    have hreassemble := reassembleRxSdusChecked_eq (h.withPdu hli)
    unfold withPdu at hreassemble
    rw [if_neg Bool.false_ne_true, if_neg Bool.false_ne_true, strip_eq, unlessUnderflow_of hlength,
      ok_bind, hreassemble, imp_iff_right rfl]
    change (unlessUnderflow (rx.withPdu payload).ReassemblyFits _ >>= _) = _
    by_cases hfits : (rx.withPdu payload).ReassemblyFits
    · rw [unlessUnderflow_of hfits, unlessUnderflow_of hfits]
      rfl
    · rw [unlessUnderflow_of_not hfits, unlessUnderflow_of_not hfits]
      rfl

theorem isOk_handleDataPduChecked (h : rx.IndicatorsBounded) (payload : Bytes) :
    (rx.handleDataPduChecked payload).isOk = true ↔ rx.CopesWith payload := by
  unfold CopesWith
  by_cases hinside : UmdPduHeader.Inside rx.snSize payload
  · rw [handleDataPduChecked_eq h hinside, isOk_unlessUnderflow, and_iff_right hinside]
  · refine iff_of_false (fun hok => hinside ?_) fun hcopes => hinside hcopes.1
    obtain ⟨header, hread, -⟩ := isOk_bind.mp hok
    rw [← UmdPduHeader.isOk_readChecked, hread]
    rfl

def Robust (rx : RlcUmRx) (input : Input) : Prop := (rx.nextChecked input).isOk = true

def Copes (rx : RlcUmRx) : Input → Prop
  | .pdu payload => rx.CopesWith payload
  | .expiry | .reestablish => rx.reorderingTimer = true → ExpiryFits rx.snSize.mod rx.expired
  | .lapse | .stop => True

theorem robust_iff_copes (h : rx.IndicatorsBounded) (input : Input) :
    rx.Robust input ↔ rx.Copes input := by
  cases input with
  | pdu payload => exact isOk_handleDataPduChecked h payload
  | expiry =>
    unfold Robust Copes nextChecked
    dsimp only
    by_cases hrun : rx.reorderingTimer = true
    · rw [if_pos hrun, timerExpiredChecked_eq h, isOk_unlessUnderflow, imp_iff_right hrun]
    · rw [if_neg hrun]
      exact iff_of_true rfl fun h => absurd h hrun
  | reestablish =>
    unfold Robust Copes nextChecked
    dsimp only
    by_cases hrun : rx.reorderingTimer = true
    · rw [if_pos hrun, timerExpiredChecked_eq h, isOk_map, isOk_unlessUnderflow, imp_iff_right hrun]
    · rw [if_neg hrun]
      exact iff_of_true rfl fun h => absurd h hrun
  | lapse | stop => exact iff_of_true rfl trivial

theorem nextChecked_eq (h : rx.IndicatorsBounded) {input : Input} (hrobust : rx.Robust input) :
    rx.nextChecked input = .ok (rx.next input) := by
  have hcopes := (robust_iff_copes h input).mp hrobust
  cases input with
  | pdu payload =>
    change rx.handleDataPduChecked payload = .ok (rx.handleDataPdu payload)
    rw [handleDataPduChecked_eq h hcopes.1, unlessUnderflow_of hcopes.2]
  | expiry =>
    unfold nextChecked next
    dsimp only
    split_ifs with hrun
    · rw [timerExpiredChecked_eq h, unlessUnderflow_of (hcopes hrun)]
    · rfl
  | reestablish =>
    unfold nextChecked next reestablish
    dsimp only
    split_ifs with hrun
    · rw [timerExpiredChecked_eq h, unlessUnderflow_of (hcopes hrun)]
      rfl
    · rfl
  | lapse | stop => rfl

theorem rxWindow_startTimer (rx : RlcUmRx) : rx.startTimer.rxWindow = rx.rxWindow := by
  unfold startTimer
  split_ifs <;> rfl

theorem rxWindow_timerExpired (rx : RlcUmRx) : rx.timerExpired.rxWindow ⊆ rx.rxWindow := by
  change (expireLoop rx.snSize.mod rx.expired).startTimer.rxWindow ⊆ _
  rw [rxWindow_startTimer]
  exact rxWindow_expireLoop _ rx.expired

theorem IndicatorsBounded.next (h : rx.IndicatorsBounded) {input : Input}
    (hrobust : rx.Robust input) : (rx.next input).IndicatorsBounded := by
  cases input with
  | pdu payload =>
    obtain ⟨header, hread, -⟩ := isOk_bind.mp hrobust
    obtain ⟨rfl, -, hli⟩ := UmdPduHeader.of_readChecked hread
    change (rx.handleDataPdu payload).IndicatorsBounded
    unfold handleDataPdu
    dsimp only
    split_ifs
    · exact h
    · refine (h.withPdu hli).of_subset ?_
      rw [rxWindow_startTimer, stopTimer_frame]
      exact rxWindow_reassembleRxSdus _
  | expiry =>
    unfold RlcUmRx.next
    dsimp only
    split_ifs
    · exact h.of_subset (rxWindow_timerExpired rx)
    · exact h
  | lapse => exact h
  | reestablish =>
    refine h.of_subset ?_
    unfold RlcUmRx.next RlcUmRx.reestablish
    dsimp only
    split_ifs <;> exact List.nil_subset _
  | stop => exact h.of_subset (List.nil_subset _)

theorem indicatorsBounded_configure (snSize : UmdSnSize) : (configure snSize).IndicatorsBounded :=
  List.forall_mem_nil _

theorem foldlM_nextChecked (h : rx.IndicatorsBounded) {inputs : List Input} {rx' : RlcUmRx} :
    inputs.foldlM nextChecked rx = .ok rx' ↔
      EventRun.Along next Copes rx inputs ∧ inputs.foldl next rx = rx' := by
  induction inputs generalizing rx with
  | nil => simp [EventRun.Along, pure, Except.pure]
  | cons input inputs ih =>
    rw [List.foldlM_cons, EventRun.Along, List.foldl_cons, ← robust_iff_copes h, and_assoc]
    by_cases hrobust : rx.Robust input
    · rw [nextChecked_eq h hrobust, ok_bind, ih (h.next hrobust), and_iff_right hrobust]
    · refine iff_of_false (fun hok => hrobust ?_) fun hok => hrobust hok.1
      obtain ⟨rx₁, hnext, -⟩ := isOk_bind.mp (isOk_iff_exists.mpr ⟨rx', hok⟩)
      exact isOk_iff_exists.mpr ⟨rx₁, hnext⟩

end RlcUmRx
end SrsLte
