import SrsLte.EventRun
import SrsLte.RlcUmNrPdu

/-!
# What the NR UM transmitter sends

A transmission keeps, for each PDU, the SDU it belongs to and its sequence number without the
reduction modulo the SN space. With sequence numbers of 6 bits its PDUs carry pieces that tile the
SDUs, when `next_so` is 0 at every grant that starts to segment an SDU.
-/

namespace SrsLte
namespace RlcUmNrTx

inductive Event
  | writeSdu (sdu : Bytes)
  | readPdu (nofBytes : ℕ)
  deriving DecidableEq

structure SentPdu where
  pdu : Bytes
  sdu : ℕ
  sn : Option ℕ
  deriving DecidableEq

/-- A transmitter with the SDUs it has accepted, the number of those it has sent in segments, and
the PDUs it has built. -/
structure Transmission where
  tx : RlcUmNrTx
  accepted : List Bytes
  segmented : ℕ
  sent : List SentPdu

namespace Transmission

def start (snSize : UmNrSnSize) (txQueueLength : ℕ) : Transmission where
  tx := configure snSize txQueueLength
  accepted := []
  segmented := 0
  sent := []

def sdusSent (t : Transmission) : ℕ :=
  t.accepted.length - (t.tx.txSdu.toList.length + t.tx.txSduQueue.length)

def record (t : Transmission) (tx : RlcUmNrTx) (pdu : Bytes) : Transmission :=
  let si := (UmNrPduHeader.read t.tx.snSize pdu).si
  { t with
    tx := tx
    segmented := if si = .lastSegment then t.segmented + 1 else t.segmented
    sent := t.sent ++ [⟨pdu, t.sdusSent, if si = .fullSdu then none else some t.segmented⟩] }

def step (t : Transmission) : Event → Transmission
  | .writeSdu sdu =>
    { t with
      tx := t.tx.writeSdu sdu
      accepted := if t.tx.accepts then t.accepted ++ [sdu] else t.accepted }
  | .readPdu nofBytes =>
    match t.tx.buildDataPdu nofBytes with
    | (tx, some pdu) => t.record tx pdu
    | (tx, none) => { t with tx := tx }

end Transmission

def transmit (snSize : UmNrSnSize) (txQueueLength : ℕ) (events : List Event) : Transmission :=
  events.foldl Transmission.step (.start snSize txQueueLength)

def segmentsNewSdu (tx : RlcUmNrTx) (nofBytes : ℕ) : Bool :=
  match tx.txSdu, tx.txSduQueue with
  | none, sdu :: _ =>
    tx.headLen + 1 < min nofBytes bufferTailroom ∧ tx.toMove nofBytes sdu < sdu.length
  | _, _ => false

/-- `next_so` is 0 when the transmitter starts to segment an SDU, and the SDUs written fit into a
byte buffer behind a header. -/
def Regular (t : Transmission) : Event → Prop
  | .writeSdu sdu => sdu.length < bufferTailroom
  | .readPdu nofBytes => t.tx.segmentsNewSdu nofBytes = true → t.tx.nextSo = 0

instance (t : Transmission) : (e : Event) → Decidable (Regular t e)
  | .writeSdu sdu => inferInstanceAs (Decidable (sdu.length < bufferTailroom))
  | .readPdu nofBytes =>
    inferInstanceAs (Decidable (t.tx.segmentsNewSdu nofBytes = true → t.tx.nextSo = 0))

variable {tx : RlcUmNrTx} {nofBytes : ℕ}

variable {sdu u : Bytes} {S : ℕ} {queue : List Bytes}

theorem toMove_pos (hspace : tx.headLen + 1 < min nofBytes bufferTailroom)
    (hsdu : sdu ≠ []) : 0 < tx.toMove nofBytes sdu := by
  have := List.length_pos_iff.mpr hsdu
  unfold toMove
  omega

theorem toMove_le (sdu : Bytes) : tx.toMove nofBytes sdu ≤ sdu.length := Nat.min_le_right _ _

theorem remainder_eq (sdu : Bytes) (k : ℕ) :
    RlcUmTx.remainder sdu k = if sdu.length ≤ k then none else some (sdu.drop k) := by
  unfold RlcUmTx.remainder
  rw [List.length_drop]
  simp only [Nat.sub_eq_zero_iff_le]

section

variable (hsize : tx.snSize = .size6bits)
include hsize

theorem addSegment_last {o : ℕ}
    (hnext : tx.txNext = S % 64) (hso : tx.nextSo = o) (hpos : 0 < o) (hlen : u.length < 2 ^ 16)
    (hlt : o < u.length) (hend : u.length ≤ o + tx.toMove nofBytes (u.drop o)) (n : ℕ) :
    tx.addSegment nofBytes (u.drop o) =
      ({ tx with txSdu := none, txNext := (S + 1) % 64, nextSo := 0 },
        (UmNrPiece.mk n (some S) o u.length).encode u) := by
  have hrest : (u.drop o).length ≤ tx.toMove nofBytes (u.drop o) := by
    rw [List.length_drop]
    omega
  have hnone : RlcUmTx.remainder (u.drop o) (tx.toMove nofBytes (u.drop o)) = none := by
    rw [remainder_eq, if_pos hrest]
  have hdata : (u.drop o).take (tx.toMove nofBytes (u.drop o)) = Tiling.part u o u.length := by
    rw [List.take_of_length_le hrest, Tiling.part,
      List.take_of_length_le (List.length_drop).le]
  have hso16 : o % 2 ^ 16 = o := Nat.mod_eq_of_lt (hlt.trans hlen)
  unfold addSegment submit
  dsimp only
  rw [hnone, hdata, hso, hso16, hnext, hsize]
  simp [UmNrPiece.encode, UmNrPiece.header, UmNrPiece.si, UmNrSnSize.mod, hpos.ne']

theorem addSegment_middle {o : ℕ}
    (hnext : tx.txNext = S % 64) (hso : tx.nextSo = o) (hpos : 0 < o) (hlen : u.length < 2 ^ 16)
    (hmore : o + tx.toMove nofBytes (u.drop o) < u.length) (n : ℕ) :
    tx.addSegment nofBytes (u.drop o) =
      ({ tx with
          txSdu := some (u.drop (o + tx.toMove nofBytes (u.drop o)))
          nextSo := o + tx.toMove nofBytes (u.drop o) },
        (UmNrPiece.mk n (some S) o (o + tx.toMove nofBytes (u.drop o))).encode u) := by
  have hsome : RlcUmTx.remainder (u.drop o) (tx.toMove nofBytes (u.drop o)) =
      some (u.drop (o + tx.toMove nofBytes (u.drop o))) := by
    rw [remainder_eq, if_neg (by rw [List.length_drop]; omega), List.drop_drop]
  have hdata : (u.drop o).take (tx.toMove nofBytes (u.drop o)) =
      Tiling.part u o (o + tx.toMove nofBytes (u.drop o)) := by
    rw [Tiling.part, Nat.add_sub_cancel_left]
  have hso16 : o % 2 ^ 16 = o := Nat.mod_eq_of_lt (by omega)
  have hnew : (o + (Tiling.part u o (o + tx.toMove nofBytes (u.drop o))).length) % 2 ^ 32 =
      o + tx.toMove nofBytes (u.drop o) := by
    rw [Tiling.length_part (by omega)]
    omega
  unfold addSegment submit
  dsimp only
  rw [hsome, hdata, hso, hso16, hnew, hnext, hsize]
  simp [UmNrPiece.encode, UmNrPiece.header, UmNrPiece.si, hpos.ne', hmore.ne]

theorem pullSdu_full (hend : u.length ≤ tx.toMove nofBytes u) (n : ℕ) :
    tx.pullSdu nofBytes u queue =
      ({ tx with
          txSdu := none
          txSduQueue := queue
          nextSo := (tx.nextSo + u.length) % 2 ^ 32 },
        (UmNrPiece.mk n none 0 u.length).encode u) := by
  have hnone : RlcUmTx.remainder u (tx.toMove nofBytes u) = none := by
    rw [remainder_eq, if_pos hend]
  have hdata : u.take (tx.toMove nofBytes u) = u := List.take_of_length_le hend
  have hpart : Tiling.part u 0 u.length = u := by simp [Tiling.part]
  unfold pullSdu submit UmNrPiece.encode
  dsimp only
  rw [hnone, hdata, hsize, hpart]
  simp [UmNrPiece.header, UmNrPiece.si, UmNrPduHeader.write, UmNrPduHeader.fields,
    UmNrPduHeader.packedLength]

theorem pullSdu_first (hnext : tx.txNext = S % 64) (hso : tx.nextSo = 0) (hlen : u.length < 2 ^ 16)
    (hmore : tx.toMove nofBytes u < u.length) (n : ℕ) :
    tx.pullSdu nofBytes u queue =
      ({ tx with
          txSdu := some (u.drop (tx.toMove nofBytes u))
          txSduQueue := queue
          nextSo := tx.toMove nofBytes u },
        (UmNrPiece.mk n (some S) 0 (tx.toMove nofBytes u)).encode u) := by
  have hsome : RlcUmTx.remainder u (tx.toMove nofBytes u) =
      some (u.drop (tx.toMove nofBytes u)) := by
    rw [remainder_eq, if_neg (not_le.mpr hmore)]
  have hdata : u.take (tx.toMove nofBytes u) = Tiling.part u 0 (tx.toMove nofBytes u) := rfl
  have hnew : (0 + (Tiling.part u 0 (tx.toMove nofBytes u)).length) % 2 ^ 32 =
      tx.toMove nofBytes u := by
    rw [Tiling.length_part hmore.le]
    omega
  unfold pullSdu submit
  dsimp only
  rw [hsome, hdata, hso, hnew, hnext, hsize]
  simp [UmNrPiece.encode, UmNrPiece.header, UmNrPiece.si]

end

namespace Transmission

/-- The `i`-th accepted SDU. -/
def unit (t : Transmission) (i : ℕ) : Bytes := t.accepted.getD i []

def cur (t : Transmission) : Option ℕ := t.tx.txSdu.map fun _ => t.tx.nextSo

end Transmission

/-- The PDUs of a transmission carry the pieces `ps` of the first `n` SDUs and of the one under
way. -/
structure Sent (t : Transmission) (n : ℕ) (ps : List UmNrPiece) : Prop where
  snSize : t.tx.snSize = .size6bits
  txNext : t.tx.txNext = t.segmented % 64
  bounded : ∀ sdu ∈ t.accepted, sdu.length < bufferTailroom
  sent : t.sent = ps.map fun p => ⟨p.encode (t.unit p.sdu), p.sdu, p.sn⟩
  count : t.accepted.length = n + (t.tx.txSdu.toList.length + t.tx.txSduQueue.length)
  queue : t.accepted.drop (n + t.tx.txSdu.toList.length) = t.tx.txSduQueue
  cut : Cut (fun i => (t.unit i).length) ps n t.segmented t.cur
  rest : ∀ rem, t.tx.txSdu = some rem → rem = (t.unit n).drop t.tx.nextSo ∧
    0 < t.tx.nextSo ∧ t.tx.nextSo < (t.unit n).length

variable {t : Transmission} {n : ℕ} {ps : List UmNrPiece}

theorem sent_start (txQueueLength : ℕ) : Sent (.start .size6bits txQueueLength) 0 [] where
  snSize := rfl
  txNext := rfl
  bounded := List.forall_mem_nil _
  sent := rfl
  count := rfl
  queue := rfl
  cut := Cut.nil _
  rest := fun _ h => by cases h

theorem Sent.sdusSent_eq (h : Sent t n ps) : t.sdusSent = n := by
  unfold Transmission.sdusSent
  rw [h.count, Nat.add_sub_cancel]

theorem bufferTailroom_lt : bufferTailroom < 2 ^ 16 := by decide

section

variable (h : Sent t n ps)
include h

theorem Sent.length_unit (i : ℕ) : (t.unit i).length < bufferTailroom := by
  unfold Transmission.unit
  rcases lt_or_ge i t.accepted.length with hi | hi
  · rw [List.getD_eq_getElem _ _ hi]
    exact h.bounded _ (List.getElem_mem hi)
  · rw [List.getD_eq_default _ _ hi]
    decide

theorem Sent.lt_accepted {i : ℕ} (hi : i < n ∨ i = n ∧ t.cur ≠ none) :
    i < t.accepted.length := by
  have hcount := h.count
  rcases hi with hi | ⟨rfl, hcur⟩
  · omega
  · cases hrem : t.tx.txSdu with
    | none => exact absurd (by rw [Transmission.cur, hrem]; rfl) hcur
    | some rem =>
      rw [hrem, Option.toList_some, List.length_singleton] at hcount
      omega

theorem Sent.sdu_lt_accepted {p : UmNrPiece} (hp : p ∈ ps) :
    p.sdu < t.accepted.length := by
  refine h.lt_accepted ?_
  rcases h.cut.done p hp with hold | ⟨hsdu, -, o, ho, -⟩
  · exact Or.inl hold.1
  · exact Or.inr ⟨hsdu, by rw [ho]; simp⟩

theorem Sent.writeSdu (hsdu : sdu.length < bufferTailroom) :
    Sent (t.step (.writeSdu sdu)) n ps := by
  by_cases haccepts : t.tx.accepts = true
  · have hstep : t.step (.writeSdu sdu) =
        { t with
          tx := { t.tx with txSduQueue := t.tx.txSduQueue ++ [sdu] }
          accepted := t.accepted ++ [sdu] } := by
      simp [Transmission.step, RlcUmNrTx.writeSdu, haccepts]
    have hunit : ∀ i < t.accepted.length, (t.step (.writeSdu sdu)).unit i = t.unit i := by
      intro i hi
      rw [hstep, Transmission.unit, Transmission.unit, List.getD_eq_getElem?_getD,
        List.getD_eq_getElem?_getD, List.getElem?_append_left hi]
    have hcount := h.count
    constructor
    case sent =>
      have hmap : (t.step (.writeSdu sdu)).sent = t.sent := rfl
      rw [hmap, h.sent]
      exact List.map_congr_left fun p hp => by rw [hunit p.sdu (h.sdu_lt_accepted hp)]
    case cut =>
      have hcur : (t.step (.writeSdu sdu)).cur = t.cur := by rw [hstep]; rfl
      rw [hcur]
      exact h.cut.congr fun i hi => by rw [hunit i (h.lt_accepted hi)]
    case rest =>
      intro rem hrem
      have hrem' : t.tx.txSdu = some rem := by rw [hstep] at hrem; exact hrem
      have hnext : (t.step (.writeSdu sdu)).tx.nextSo = t.tx.nextSo := by rw [hstep]
      have hn : n < t.accepted.length := h.lt_accepted
        (Or.inr ⟨rfl, by rw [Transmission.cur, hrem']; simp⟩)
      rw [hunit n hn, hnext]
      exact h.rest rem hrem'
    all_goals rw [hstep]
    · exact h.snSize
    · exact h.txNext
    · intro s hs
      rcases List.mem_append.mp hs with hs | hs
      · exact h.bounded s hs
      · exact List.mem_singleton.mp hs ▸ hsdu
    · simp only [List.length_append, List.length_singleton]
      omega
    · dsimp only
      rw [List.drop_append_of_le_length (by omega), h.queue]
  · have hstep : t.step (.writeSdu sdu) = t := by
      simp [Transmission.step, RlcUmNrTx.writeSdu, haccepts]
    rw [hstep]
    exact h

/-- A PDU with the piece `p` of the first SDU that is not sent completely leaves `tx` behind, and
now `n'` SDUs are sent, `S'` of them in segments. -/
theorem Sent.record {p : UmNrPiece} (hfits : p.Fits (t.unit n).length)
    (hsdu : p.sdu = n) (hsn : p.sn = none ∨ p.sn = some t.segmented) {tx : RlcUmNrTx} {n' S' : ℕ}
    (hS : (if p.si (t.unit n).length = .lastSegment then t.segmented + 1 else t.segmented) = S')
    (hsize : tx.snSize = t.tx.snSize) (hnext : tx.txNext = S' % 64)
    (hcount : t.accepted.length = n' + (tx.txSdu.toList.length + tx.txSduQueue.length))
    (hqueue : t.accepted.drop (n' + tx.txSdu.toList.length) = tx.txSduQueue)
    (hcut : Cut (fun i => (t.unit i).length) (ps ++ [p]) n' S' (tx.txSdu.map fun _ => tx.nextSo))
    (hrest : ∀ rem, tx.txSdu = some rem → rem = (t.unit n').drop tx.nextSo ∧
      0 < tx.nextSo ∧ tx.nextSo < (t.unit n').length) :
    Sent (t.record tx (p.encode (t.unit n))) n' (ps ++ [p]) := by
  have hlen := (h.length_unit n).trans bufferTailroom_lt
  have hread : UmNrPduHeader.read t.tx.snSize (p.encode (t.unit n)) =
      p.header (t.unit n).length := by
    rw [h.snSize]
    exact (hfits.coded hlen).read_write _
  have hsn' : (if (p.header (t.unit n).length).si = .fullSdu then none else some t.segmented) =
      p.sn := by
    rcases hsn with hnone | hsome
    · rw [if_pos (UmNrPiece.header_si_eq_fullSdu.mpr hnone), hnone]
    · rw [if_neg (fun hfull => by simp [UmNrPiece.header_si_eq_fullSdu.mp hfull] at hsome), hsome]
  have heq : t.record tx (p.encode (t.unit n)) =
      { t with
        tx := tx
        segmented := S'
        sent := t.sent ++ [⟨p.encode (t.unit n), n, p.sn⟩] } := by
    unfold Transmission.record
    rw [hread, h.sdusSent_eq]
    dsimp only
    rw [hsn', ← hS]
    rfl
  rw [heq]
  constructor
  · exact hsize.trans h.snSize
  · exact hnext
  · exact h.bounded
  · change t.sent ++ _ = _
    rw [List.map_append, h.sent, List.map_singleton, hsdu]
    rfl
  · exact hcount
  · exact hqueue
  · exact hcut
  · exact hrest

theorem Sent.head_eq (hnone : t.tx.txSdu = none)
    (hqueue : t.tx.txSduQueue = sdu :: queue) :
    t.unit n = sdu ∧ t.accepted.length = n + 1 + queue.length ∧
      t.accepted.drop (n + 1) = queue := by
  have hdrop := h.queue
  have hcount := h.count
  rw [hnone, hqueue, Option.toList_none, List.length_nil, Nat.add_zero] at hdrop
  rw [hnone, hqueue, Option.toList_none, List.length_nil, List.length_cons] at hcount
  refine ⟨?_, by omega, ?_⟩
  · have hget : t.accepted[n]? = some sdu := by
      rw [← Nat.add_zero n, ← List.getElem?_drop, hdrop, List.getElem?_cons_zero]
    rw [Transmission.unit, List.getD_eq_getElem?_getD, hget, Option.getD_some]
  · rw [← List.tail_drop, hdrop, List.tail_cons]

theorem Sent.readPdu {nofBytes : ℕ}
    (hzero : t.tx.segmentsNewSdu nofBytes = true → t.tx.nextSo = 0) :
    ∃ n' qs, Sent (t.step (.readPdu nofBytes)) n' (ps ++ qs) := by
  have hsize := h.snSize
  have hnext := h.txNext
  have hlen := (h.length_unit n).trans bufferTailroom_lt
  unfold Transmission.step buildDataPdu
  dsimp only
  by_cases hspace : min nofBytes bufferTailroom ≤ t.tx.headLen + 1
  · rw [if_pos hspace]
    exact ⟨n, [], by rw [List.append_nil]; exact h⟩
  rw [if_neg hspace]
  have hcut := h.cut
  unfold Transmission.cur at hcut
  cases hrem : t.tx.txSdu with
  | none =>
    rw [hrem] at hcut
    cases hqueue : t.tx.txSduQueue with
    | nil => exact ⟨n, [], by rw [List.append_nil]; exact h⟩
    | cons sdu queue =>
      obtain ⟨rfl, hcount, hdrop⟩ := h.head_eq hrem hqueue
      dsimp only
      by_cases hend : (t.unit n).length ≤ t.tx.toMove nofBytes (t.unit n)
      · -- the SDU fits
        rw [pullSdu_full hsize hend n]
        have hfits : (UmNrPiece.mk n none 0 (t.unit n).length).Fits (t.unit n).length :=
          ⟨fun _ => ⟨rfl, rfl⟩, fun hne => absurd rfl hne, le_refl _⟩
        exact ⟨n + 1, _, h.record hfits rfl (Or.inl rfl) (by simp [UmNrPiece.si]) rfl hnext
          (by simpa using hcount) hdrop (hcut.finish hfits (Or.inl ⟨rfl, rfl, rfl⟩))
          (fun _ h => by cases h)⟩
      · have hmore : t.tx.toMove nofBytes (t.unit n) < (t.unit n).length := not_le.mp hend
        have hne : t.unit n ≠ [] := fun hnil => by simp [hnil] at hmore
        have hpos := toMove_pos (not_le.mp hspace) hne
        have hso : t.tx.nextSo = 0 := hzero (by
          simp only [segmentsNewSdu, hrem, hqueue, hmore, and_true, decide_eq_true_eq]
          exact not_le.mp hspace)
        rw [pullSdu_first hsize hnext hso hlen hmore n]
        have hcut' := hcut.segment (t.tx.toMove nofBytes (t.unit n)) hpos hmore
        exact ⟨n, _, h.record (hcut'.fits _ List.mem_concat_self)
          rfl (Or.inr rfl) (by simp [UmNrPiece.si]) rfl hnext
          (by simpa [Nat.add_assoc] using hcount) hdrop hcut'
          (fun rem hrem => ⟨(Option.some.inj hrem).symm, hpos, hmore⟩)⟩
  | some rem =>
    obtain ⟨rfl, hpos, hlt⟩ := h.rest rem hrem
    rw [hrem] at hcut
    have hcount := h.count
    have hdrop := h.queue
    rw [hrem, Option.toList_some, List.length_singleton] at hcount hdrop
    dsimp only
    by_cases hend : (t.unit n).length ≤
        t.tx.nextSo + t.tx.toMove nofBytes ((t.unit n).drop t.tx.nextSo)
    · rw [addSegment_last hsize hnext rfl hpos hlen hlt hend n]
      have hfits : (UmNrPiece.mk n (some t.segmented) t.tx.nextSo (t.unit n).length).Fits
          (t.unit n).length :=
        ⟨fun hnone => absurd hnone (by simp), fun _ => ⟨hlt, fun hz => absurd hz hpos.ne'⟩,
          le_refl _⟩
      exact ⟨n + 1, _, h.record hfits rfl (Or.inr rfl) (by simp [UmNrPiece.si, hpos.ne']) rfl rfl
        (by simpa [Nat.add_assoc] using hcount) hdrop
        (hcut.finish hfits (Or.inr ⟨rfl, by simp, rfl⟩)) (fun _ h => by cases h)⟩
    · have hmore := not_le.mp hend
      have hne : (t.unit n).drop t.tx.nextSo ≠ [] := by
        rw [ne_eq, List.drop_eq_nil_iff]
        omega
      have hmove := toMove_pos (not_le.mp hspace) hne
      rw [addSegment_middle hsize hnext rfl hpos hlen hmore n]
      have hcut' := hcut.segment
        (t.tx.nextSo + t.tx.toMove nofBytes ((t.unit n).drop t.tx.nextSo))
        (by simpa using hmove) hmore
      exact ⟨n, _, h.record (hcut'.fits _ List.mem_concat_self)
        rfl (Or.inr rfl) (by simp [UmNrPiece.si, hpos.ne', hmore.ne]) rfl hnext
        (by simpa using hcount) hdrop hcut'
        (fun rem hrem => ⟨(Option.some.inj hrem).symm, Nat.add_pos_left hpos _, hmore⟩)⟩

end

theorem transmit_pieces {txQueueLength : ℕ} {events : List Event}
    (hevents : EventRun.Along Transmission.step Regular (.start .size6bits txQueueLength) events) :
    ∃ n ps, Sent (transmit .size6bits txQueueLength events) n ps := by
  refine EventRun.Along.invariant (I := fun t => ∃ n ps, Sent t n ps) ?_
    ⟨0, [], sent_start txQueueLength⟩ hevents
  rintro t event ⟨n, ps, h⟩ hregular
  cases event with
  | writeSdu sdu => exact ⟨n, ps, h.writeSdu hregular⟩
  | readPdu nofBytes =>
    obtain ⟨n', qs, hstep⟩ := h.readPdu hregular
    exact ⟨n', ps ++ qs, hstep⟩

end RlcUmNrTx
end SrsLte
