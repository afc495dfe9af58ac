import SrsLte.PdcpNrReordering

/-!
# Transfer between two NR PDCP entities

Every SDU goes through `write_sdu`, and its PDU through `write_pdu` of the peer before the next SDU
is submitted. `append_mac` compares the length of the whole message with the tailroom, so that the
PDU of a long SDU is sent without MAC-I although there is room for it; the peer then takes the last
four bytes of the payload for the MAC-I.
-/

namespace SrsLte

/-- `PDCP_MAX_SDU_SIZE`. -/
def pdcpMaxSduSize : ℕ := 9000

/-- An SDU handed to `write_sdu`, with the first content of the `mac` arrays of `write_sdu` and of
the `write_pdu` that gets its PDU. -/
structure NrSubmission where
  sdu : ByteBuffer
  txStack : Mac
  rxStack : Mac

structure NrLink where
  sender : PdcpEntityNr
  receiver : PdcpEntityNr

/-- The link after some submissions, the COUNTs used for them and what the receiver has passed to
the upper layers. -/
structure NrTransfer where
  link : NrLink
  counts : List ℕ
  delivered : List (ℕ × Bytes)

/-- The SDU has a supported length and, with header and MAC-I, fits its buffer. -/
structure NrAdmissible (b : PdcpEntityBase) (sdu : ByteBuffer) : Prop where
  length_le : sdu.nBytes ≤ pdcpMaxSduSize
  headroom : b.cfg.hdrLenBytes ≤ sdu.headroom
  tailroom : 4 ≤ sdu.tailroom

namespace NrLink

variable (sec : SecurityLib)

/-- Two entities of one bearer after `init`. -/
def init (b : PdcpEntityBase) (t t' : ℕ) : NrLink where
  sender := PdcpEntityNr.init b t
  receiver := PdcpEntityNr.init b.peer t'

def submit (l : NrLink) (x : NrSubmission) : NrTransfer :=
  match l.sender.writeSdu sec x.txStack x.sdu with
  | (e, none) => ⟨⟨e, l.receiver⟩, [], []⟩
  | (e, some pdu) =>
    let r := l.receiver.writePdu sec x.rxStack pdu.msg
    ⟨⟨e, r.entity⟩, [l.sender.txNext], r.delivered⟩

def transfer (l : NrLink) : List NrSubmission → NrTransfer
  | [] => ⟨l, [], []⟩
  | x :: xs =>
    let s := l.submit sec x
    let r := s.link.transfer xs
    ⟨r.link, s.counts ++ r.counts, s.delivered ++ r.delivered⟩

/-- `append_mac` takes header and SDU to leave room for the MAC-I, or the PDU carries an SDU too
short to lose bytes and the uninitialised `mac` of `write_pdu` passes the integrity check. -/
def KeepsSdu (b : PdcpEntityBase) (count : ℕ) (x : NrSubmission) : Prop :=
  x.sdu.nBytes + b.cfg.hdrLenBytes + 4 ≤ x.sdu.tailroom ∨
    0 < x.sdu.nBytes ∧ x.sdu.nBytes < 4 ∧
      b.peer.integrityVerify sec x.sdu.msg count x.rxStack.val = true

end NrLink

namespace PdcpEntityNr

variable (sec : SecurityLib) {b : PdcpEntityBase}

def pduPayload (b : PdcpEntityBase) (stack : Mac) (count : ℕ) (sdu : ByteBuffer) : Bytes :=
  if sdu.nBytes + b.cfg.hdrLenBytes + 4 ≤ sdu.tailroom then
    b.cipherEncrypt sec sdu.msg count ++ b.integrityGenerate sec sdu.msg count stack.val
  else b.cipherEncrypt sec sdu.msg count

theorem appendMac_msg (mac : Mac) (sdu : ByteBuffer) :
    (appendMac mac sdu).msg =
      if sdu.nBytes + 4 ≤ sdu.tailroom then sdu.msg ++ mac.val else sdu.msg := by
  unfold appendMac
  by_cases hroom : sdu.nBytes + 4 ≤ sdu.tailroom
  · have hlen : mac.val.length ≤ sdu.tailroom := by
      rw [mac.property]
      omega
    rw [dif_pos ⟨hlen, hroom⟩, if_pos hroom]
    rfl
  · rw [dif_neg fun h => hroom h.2, if_neg hroom]

theorem packDataPdu_msg (hsn : b.cfg.snLen = 12 ∨ b.cfg.snLen = 18) (stack : Mac) (count : ℕ)
    (sdu : ByteBuffer) (hroom : b.cfg.hdrLenBytes ≤ sdu.headroom) :
    (packDataPdu sec b stack count sdu).msg =
      dataHeader b count ++ pduPayload sec b stack count sdu := by
  have hlen := length_dataHeader hsn count
  have hct := b.length_cipherEncrypt sec sdu.msg count
  have hbytes : (sdu.overwrite (b.cipherEncrypt sec sdu.msg count) hct).nBytes = sdu.nBytes := hct
  have htail : (sdu.overwrite (b.cipherEncrypt sec sdu.msg count) hct).tailroom = sdu.tailroom :=
    congrArg (maxBufferSizeBytes - sdu.headroom - ·) hct
  have hhdr : (dataHeader b count).length ≤
      (sdu.overwrite (b.cipherEncrypt sec sdu.msg count) hct).headroom := by
    rw [hlen]
    exact hroom
  unfold packDataPdu pduPayload
  dsimp only
  rw [writeDataHeader, dif_pos hhdr, appendMac_msg, ByteBuffer.nBytes_prepend,
    ByteBuffer.tailroom_prepend, hbytes, htail]
  by_cases hmac : sdu.nBytes + b.cfg.hdrLenBytes + 4 ≤ sdu.tailroom
  · rw [if_pos (by omega), if_pos hmac]
    exact List.append_assoc _ _ _
  · rw [if_neg (by omega), if_neg hmac]
    rfl

theorem extractMac_append (stack mac : Mac) (ct : Bytes) :
    extractMac stack (ct ++ mac.val) = (ct, mac) := by
  have hlen : (ct ++ mac.val).length - 4 = ct.length := by
    rw [List.length_append, mac.property, Nat.add_sub_cancel]
  have hle : 4 ≤ (ct ++ mac.val).length := by
    rw [List.length_append, mac.property]
    exact Nat.le_add_left 4 _
  unfold extractMac
  rw [dif_pos hle]
  refine Prod.ext ?_ (Subtype.ext ?_)
  · change (ct ++ mac.val).take ((ct ++ mac.val).length - 4) = ct
    rw [hlen]
    exact List.take_left
  · change (ct ++ mac.val).drop ((ct ++ mac.val).length - 4) = mac.val
    rw [hlen]
    exact List.drop_left

variable {payload : Bytes} {e : PdcpEntityNr} {n : ℕ}

theorem extractMac_of_lt (stack : Mac) (h : payload.length < 4) :
    extractMac stack payload = (payload, stack) := by
  unfold extractMac
  exact dif_neg (Nat.not_le.mpr h)

theorem length_extractMac (stack : Mac) (h : 4 ≤ payload.length) :
    (extractMac stack payload).1.length = payload.length - 4 := by
  unfold extractMac
  rw [dif_pos h, List.length_take]
  omega

theorem length_cipherDecrypt (b : PdcpEntityBase) (ct : Bytes) (count : ℕ) :
    (b.cipherDecrypt sec ct count).length = ct.length := by
  unfold PdcpEntityBase.cipherDecrypt
  split_ifs
  · rfl
  · exact b.length_applyKeystream sec count _ ct

/-- The receiver of sender `b` has delivered all COUNTs below `n` and holds nothing back. -/
structure AwaitsNext (b : PdcpEntityBase) (n : ℕ) (e : PdcpEntityNr) : Prop where
  base : e.toPdcpEntityBase = b.peer
  windowSize : e.windowSize = 2 ^ (b.cfg.snLen - 1)
  rxDeliv : e.rxDeliv = n % 2 ^ 32
  rxNext : e.rxNext = n % 2 ^ 32
  rxOverflow : e.rxOverflow = decide (n = 2 ^ 32)
  queue : e.reorderQueue = []

section

variable (h : AwaitsNext b n e)
include h

theorem AwaitsNext.deliver_stored (hn : n < 2 ^ 32) (sdu : Bytes) :
    (e.stored n sdu).deliverAllConsecutiveCounts =
      ({ e.stored n sdu with
          rxDeliv := (n + 1) % 2 ^ 32
          rxOverflow := (n + 1) % 2 ^ 32 = 0
          reorderQueue := [] }, [(n, sdu)]) := by
  have hdeliv : (e.stored n sdu).rxDeliv = n := h.rxDeliv.trans (Nat.mod_eq_of_lt hn)
  have hover : (e.stored n sdu).rxOverflow = false := by
    rw [show (e.stored n sdu).rxOverflow = e.rxOverflow from rfl, h.rxOverflow]
    exact decide_eq_false hn.ne
  have hqueue : (e.stored n sdu).reorderQueue = [(n, sdu)] := congrArg (storePdu n sdu) h.queue
  unfold deliverAllConsecutiveCounts
  rw [hdeliv, hover, hqueue]
  simp only [deliverConsecutive, if_true, Bool.false_eq_true, if_false]

theorem AwaitsNext.accept (hn : n < 2 ^ 32) (sdu : Bytes) :
    (e.acceptPdu n sdu).2 = [(n, sdu)] ∧ AwaitsNext b (n + 1) (e.acceptPdu n sdu).1 := by
  have hmod : n % 2 ^ 32 = n := Nat.mod_eq_of_lt hn
  have hdeliv : e.rxDeliv = n := h.rxDeliv.trans hmod
  have heq : e.acceptPdu n sdu =
      ((e.stored n sdu).deliverAllConsecutiveCounts.1.handleReorderingTimer,
        (e.stored n sdu).deliverAllConsecutiveCounts.2) := by
    unfold acceptPdu
    rw [if_neg (by omega), if_neg (by simp [h.queue])]
    simp only [stored_eq]
    rw [if_pos (show n = (e.stored n sdu).rxDeliv from hdeliv.symm)]
  obtain ⟨reord, running, htimer⟩ :=
    (e.stored n sdu).deliverAllConsecutiveCounts.1.handleReorderingTimer_eq
  rw [heq, htimer, h.deliver_stored hn]
  refine ⟨rfl, h.base, h.windowSize, rfl, ?_, ?_, rfl⟩
  · change (if n ≥ e.rxNext then (n + 1) % 2 ^ 32 else e.rxNext) = (n + 1) % 2 ^ 32
    exact if_pos (h.rxNext.trans hmod).le
  · change decide ((n + 1) % 2 ^ 32 = 0) = decide (n + 1 = 2 ^ 32)
    exact decide_eq_decide.mpr (by omega)

theorem AwaitsNext.writePdu_eq (hn : n < 2 ^ 32)
    (hsn : b.cfg.snLen = 12 ∨ b.cfg.snLen = 18) (stack : Mac)
    (hpayload : 0 < payload.length) :
    e.writePdu sec stack (dataHeader b n ++ payload) =
      if b.peer.integrityVerify sec (b.peer.cipherDecrypt sec (extractMac stack payload).1 n) n
          (extractMac stack payload).2.val then
        ⟨(e.acceptPdu n (b.peer.cipherDecrypt sec (extractMac stack payload).1 n)).1, some n,
          (e.acceptPdu n (b.peer.cipherDecrypt sec (extractMac stack payload).1 n)).2⟩
      else ⟨e, some n, []⟩ := by
  have hlen := length_dataHeader hsn n
  have hcfg : e.cfg = b.cfg.peer := congrArg PdcpEntityBase.cfg h.base
  have hhdr : e.cfg.hdrLenBytes = b.cfg.hdrLenBytes := by
    rw [hcfg]
    rfl
  have hdeliv : e.rxDeliv = n := h.rxDeliv.trans (Nat.mod_eq_of_lt hn)
  have hcount :
      e.rcvdCount (readDataHeader e.toPdcpEntityBase (dataHeader b n ++ payload)) = n := by
    have hpos : 0 < 2 ^ (b.cfg.snLen - 1) := Nat.two_pow_pos _
    have hrecv : Receiving b e := by
      refine ⟨⟨?_, ?_⟩, ?_, ?_, ?_⟩
      · rw [hcfg]
        exact hsn
      · rw [hcfg]
        exact h.windowSize
      · rw [hcfg]
        rfl
      · rw [hdeliv]
        exact hn
      · rw [h.queue]
        exact sortedFrom_nil _
    exact hrecv.rcvdCount_readDataHeader hn ⟨payload, rfl⟩ (by omega) (by omega)
  have hdrop : (dataHeader b n ++ payload).drop e.cfg.hdrLenBytes = payload := by
    rw [hhdr, ← hlen]
    exact List.drop_left
  unfold writePdu
  rw [if_neg (by rw [List.length_append, hlen, hhdr]; omega), hcount, hdrop, h.base]

theorem AwaitsNext.writePdu_header (hsn : b.cfg.snLen = 12 ∨ b.cfg.snLen = 18) (stack : Mac) :
    e.writePdu sec stack (dataHeader b n ++ []) = ⟨e, none, []⟩ := by
  have hhdr : e.cfg.hdrLenBytes = b.cfg.hdrLenBytes :=
    (congrArg (fun b : PdcpEntityBase => b.cfg.hdrLenBytes) h.base).trans rfl
  unfold writePdu
  exact if_pos (by rw [List.append_nil, length_dataHeader hsn n, hhdr])

/-- What the receiver makes of the PDU of an SDU: it delivers the SDU if it is kept, else nothing or
something that is not the SDU. -/
theorem AwaitsNext.writePdu_packDataPdu
    (hn : n < 2 ^ 32) (hsn : b.cfg.snLen = 12 ∨ b.cfg.snLen = 18) (x : NrSubmission)
    (hroom : b.cfg.hdrLenBytes ≤ x.sdu.headroom) :
    (NrLink.KeepsSdu sec b n x ∧
      (e.writePdu sec x.rxStack (packDataPdu sec b x.txStack n x.sdu).msg).delivered =
        [(n, x.sdu.msg)] ∧
      AwaitsNext b (n + 1)
        (e.writePdu sec x.rxStack (packDataPdu sec b x.txStack n x.sdu).msg).entity) ∨
    (¬ NrLink.KeepsSdu sec b n x ∧
      ((e.writePdu sec x.rxStack (packDataPdu sec b x.txStack n x.sdu).msg).delivered = [] ∧
          (e.writePdu sec x.rxStack (packDataPdu sec b x.txStack n x.sdu).msg).entity = e ∨
        ∃ sdu ≠ x.sdu.msg,
          (e.writePdu sec x.rxStack (packDataPdu sec b x.txStack n x.sdu).msg).delivered =
            [(n, sdu)])) := by
  have hct := b.length_cipherEncrypt sec x.sdu.msg n
  have hplain := b.peer_cipherDecrypt_cipherEncrypt sec x.sdu.msg n
  rw [packDataPdu_msg sec hsn x.txStack n x.sdu hroom]
  unfold pduPayload NrLink.KeepsSdu
  by_cases hmac : x.sdu.nBytes + b.cfg.hdrLenBytes + 4 ≤ x.sdu.tailroom
  · -- with its MAC-I
    let mac : Mac := ⟨b.integrityGenerate sec x.sdu.msg n x.txStack.val,
      b.length_integrityGenerate sec _ _ _ x.txStack.property⟩
    have hpos : 0 < (b.cipherEncrypt sec x.sdu.msg n ++ mac.val).length := by
      rw [List.length_append, mac.property]
      exact Nat.succ_pos _
    rw [if_pos hmac, h.writePdu_eq sec hn hsn x.rxStack hpos, extractMac_append x.rxStack mac,
      hplain, if_pos (b.peer_integrityVerify_integrityGenerate sec x.sdu.msg x.txStack.val n)]
    exact Or.inl ⟨Or.inl hmac, h.accept hn x.sdu.msg⟩
  rw [if_neg hmac]
  by_cases hzero : x.sdu.nBytes = 0
  · have hnil : b.cipherEncrypt sec x.sdu.msg n = [] :=
      List.eq_nil_of_length_eq_zero (hct.trans hzero)
    rw [hnil, h.writePdu_header sec hsn]
    exact Or.inr ⟨fun hk => hk.elim hmac fun hk => hk.1.ne' hzero, Or.inl ⟨rfl, rfl⟩⟩
  rw [h.writePdu_eq sec hn hsn x.rxStack (by rw [hct]; exact Nat.pos_of_ne_zero hzero)]
  by_cases hshort : x.sdu.nBytes < 4
  · -- nothing is stripped
    rw [extractMac_of_lt x.rxStack (lt_of_eq_of_lt hct hshort), hplain]
    by_cases hverify : b.peer.integrityVerify sec x.sdu.msg n x.rxStack.val = true
    · rw [if_pos hverify]
      exact Or.inl ⟨Or.inr ⟨Nat.pos_of_ne_zero hzero, hshort, hverify⟩, h.accept hn x.sdu.msg⟩
    · rw [if_neg hverify]
      exact Or.inr ⟨fun hk => hk.elim hmac fun hk => hverify hk.2.2, Or.inl ⟨rfl, rfl⟩⟩
  · -- the last four bytes of the SDU are stripped
    have hlong : 4 ≤ (b.cipherEncrypt sec x.sdu.msg n).length :=
      (Nat.le_of_not_lt hshort).trans_eq hct.symm
    have hlost : ¬ (x.sdu.nBytes + b.cfg.hdrLenBytes + 4 ≤ x.sdu.tailroom ∨
        0 < x.sdu.nBytes ∧ x.sdu.nBytes < 4 ∧
          b.peer.integrityVerify sec x.sdu.msg n x.rxStack.val = true) :=
      fun hk => hk.elim hmac fun hk => hshort hk.2.1
    refine Or.inr ⟨hlost, ?_⟩
    split_ifs
    · refine Or.inr ⟨_, fun heq => ?_, (h.accept hn _).1⟩
      have hlen := congrArg List.length heq
      rw [length_cipherDecrypt, length_extractMac x.rxStack hlong] at hlen
      omega
    · exact Or.inl ⟨rfl, rfl⟩

end

theorem length_deliverConsecutive (d : ℕ) (o : Bool) (q : List (ℕ × Bytes)) :
    (deliverConsecutive d o q).2.2.2.length + (deliverConsecutive d o q).2.2.1.length =
      q.length := by
  induction q generalizing d o with
  | nil => rfl
  | cons p q ih =>
    unfold deliverConsecutive
    split_ifs
    · exact Nat.zero_add _
    · have hrest := ih ((d + 1) % 2 ^ 32) ((d + 1) % 2 ^ 32 = 0)
      exact (Nat.add_right_comm _ 1 _).trans (congrArg (· + 1) hrest)
    · exact Nat.zero_add _

theorem length_storePdu (count : ℕ) (sdu : Bytes) (q : List (ℕ × Bytes)) :
    (storePdu count sdu q).length = q.length + 1 := by
  induction q with
  | nil => rfl
  | cons p q ih =>
    unfold storePdu
    split_ifs
    · rfl
    · exact congrArg (· + 1) ih

theorem length_acceptPdu_le (e : PdcpEntityNr) (count : ℕ) (sdu : Bytes) :
    (e.acceptPdu count sdu).2.length + (e.acceptPdu count sdu).1.reorderQueue.length ≤
      e.reorderQueue.length + 1 := by
  have hstored : (e.stored count sdu).reorderQueue.length = e.reorderQueue.length + 1 :=
    length_storePdu count sdu e.reorderQueue
  rcases e.acceptPdu_cases count sdu with heq | ⟨-, -, ⟨-, heq⟩ | ⟨-, heq⟩⟩
  · rw [heq]
    change 0 + e.reorderQueue.length ≤ e.reorderQueue.length + 1
    omega
  · obtain ⟨reord, running, htimer⟩ := (e.stored count sdu).handleReorderingTimer_eq
    rw [heq, htimer]
    change 0 + (e.stored count sdu).reorderQueue.length ≤ _
    omega
  · obtain ⟨reord, running, htimer⟩ :=
      (e.stored count sdu).deliverAllConsecutiveCounts.1.handleReorderingTimer_eq
    rw [heq, htimer]
    have hsplit := length_deliverConsecutive (e.stored count sdu).rxDeliv
      (e.stored count sdu).rxOverflow (e.stored count sdu).reorderQueue
    exact (hsplit.trans hstored).le

theorem length_writePdu_le (e : PdcpEntityNr) (stack : Mac) (pdu : Bytes) :
    (e.writePdu sec stack pdu).delivered.length +
        (e.writePdu sec stack pdu).entity.reorderQueue.length ≤ e.reorderQueue.length + 1 := by
  rcases e.writePdu_cases sec stack pdu with ⟨hentity, hout⟩ | ⟨sdu, hentity, hout⟩
  · rw [hentity, hout, List.length_nil]
    omega
  · rw [hentity, hout]
    exact e.length_acceptPdu_le _ sdu

/-- The sender has used all COUNTs below `n`. -/
structure SendsNext (b : PdcpEntityBase) (n : ℕ) (e : PdcpEntityNr) : Prop where
  base : e.toPdcpEntityBase = b
  txNext : e.txNext = n % 2 ^ 32
  txOverflow : e.txOverflow = decide (n = 2 ^ 32)

theorem SendsNext.writeSdu_none (h : SendsNext b (2 ^ 32) e) (stack : Mac)
    (sdu : ByteBuffer) : e.writeSdu sec stack sdu = (e, none) := by
  unfold writeSdu
  rw [h.txOverflow]
  exact if_pos (decide_eq_true rfl)

theorem SendsNext.writeSdu_some (h : SendsNext b n e) (hn : n < 2 ^ 32)
    (stack : Mac) (sdu : ByteBuffer) :
    ∃ e', e.writeSdu sec stack sdu = (e', some (packDataPdu sec b stack n sdu)) ∧
      SendsNext b (n + 1) e' := by
  have hnext : e.txNext = n := h.txNext.trans (Nat.mod_eq_of_lt hn)
  have hover : ¬ e.txOverflow = true := by
    rw [h.txOverflow]
    exact fun hn' => hn.ne (of_decide_eq_true hn')
  unfold writeSdu
  rw [if_neg hover, hnext, h.base]
  refine ⟨_, rfl, rfl, rfl, ?_⟩
  change decide ((n + 1) % 2 ^ 32 = 0) = decide (n + 1 = 2 ^ 32)
  exact decide_eq_decide.mpr (by omega)

end PdcpEntityNr

namespace NrLink

open PdcpEntityNr

variable (sec : SecurityLib) {b : PdcpEntityBase}

theorem submit_none {l : NrLink} (hs : SendsNext b (2 ^ 32) l.sender) (x : NrSubmission) :
    l.submit sec x = ⟨l, [], []⟩ := by
  unfold submit
  rw [hs.writeSdu_none sec x.txStack x.sdu]

theorem submit_some {l : NrLink} {n : ℕ} (hs : SendsNext b n l.sender) (hn : n < 2 ^ 32)
    (x : NrSubmission) :
    ∃ e, SendsNext b (n + 1) e ∧
      let r := l.receiver.writePdu sec x.rxStack (packDataPdu sec b x.txStack n x.sdu).msg
      l.submit sec x = ⟨⟨e, r.entity⟩, [n], r.delivered⟩ := by
  obtain ⟨e, heq, he⟩ := hs.writeSdu_some sec hn x.txStack x.sdu
  refine ⟨e, he, ?_⟩
  unfold submit
  rw [heq, hs.txNext, Nat.mod_eq_of_lt hn]

theorem transfer_counts {l : NrLink} {n : ℕ} (hs : SendsNext b n l.sender) (hn : n ≤ 2 ^ 32)
    (xs : List NrSubmission) :
    (l.transfer sec xs).counts = List.range' n (min xs.length (2 ^ 32 - n)) := by
  induction xs generalizing l n with
  | nil =>
    rw [List.length_nil, Nat.zero_min]
    rfl
  | cons x xs ih =>
    unfold transfer
    dsimp only
    rcases hn.lt_or_eq with hlt | rfl
    · obtain ⟨e, he, heq⟩ := submit_some sec hs hlt x
      dsimp only at heq
      rw [heq, ih he hlt, List.length_cons]
      have hmin : min (xs.length + 1) (2 ^ 32 - n) = min xs.length (2 ^ 32 - (n + 1)) + 1 := by
        omega
      rw [hmin, List.range'_succ]
      rfl
    · rw [submit_none sec hs x, ih hs le_rfl, Nat.sub_self, Nat.min_zero, Nat.min_zero]
      rfl

theorem length_submit_le (l : NrLink) (x : NrSubmission) :
    (l.submit sec x).delivered.length + (l.submit sec x).link.receiver.reorderQueue.length ≤
      l.receiver.reorderQueue.length + 1 := by
  unfold submit
  split
  · change 0 + l.receiver.reorderQueue.length ≤ _
    omega
  · exact length_writePdu_le sec l.receiver x.rxStack _

theorem length_transfer_le (l : NrLink) (xs : List NrSubmission) :
    (l.transfer sec xs).delivered.length ≤ l.receiver.reorderQueue.length + xs.length := by
  induction xs generalizing l with
  | nil => exact Nat.zero_le _
  | cons x xs ih =>
    have hstep := length_submit_le sec l x
    have hrest := ih (l.submit sec x).link
    unfold transfer
    dsimp only
    rw [List.length_append, List.length_cons]
    omega

theorem not_delivered_of_skip {l l' : NrLink} {x : NrSubmission} {counts : List ℕ}
    (heq : l.submit sec x = ⟨l', counts, []⟩) (hqueue : l'.receiver.reorderQueue = [])
    (xs : List NrSubmission) :
    (l.transfer sec (x :: xs)).delivered.map Prod.snd ≠ (x :: xs).map fun x => x.sdu.msg := by
  intro hall
  have hlen := congrArg List.length hall
  have hle := length_transfer_le sec l' xs
  unfold transfer at hlen
  dsimp only at hlen
  rw [heq, List.length_map, List.length_map, List.length_cons] at hlen
  dsimp only [List.nil_append] at hlen
  rw [hqueue, List.length_nil] at hle
  omega

/-- The SDUs arrive as they were submitted if and only if there is a COUNT for each and the PDU of
each keeps it. -/
theorem transfer_delivered_iff {l : NrLink} {n : ℕ} (hsn : b.cfg.snLen = 12 ∨ b.cfg.snLen = 18)
    (hn : n ≤ 2 ^ 32) (hs : SendsNext b n l.sender) (hr : AwaitsNext b n l.receiver)
    (xs : List NrSubmission) (hroom : ∀ x ∈ xs, b.cfg.hdrLenBytes ≤ x.sdu.headroom) :
    ((l.transfer sec xs).delivered.map Prod.snd = xs.map fun x => x.sdu.msg) ↔
      n + xs.length ≤ 2 ^ 32 ∧ ∀ k x, xs[k]? = some x → KeepsSdu sec b (n + k) x := by
  induction xs generalizing l n with
  | nil => exact ⟨fun _ => ⟨hn, fun k x hx => by simp at hx⟩, fun _ => rfl⟩
  | cons x xs ih =>
    rcases hn.lt_or_eq with hlt | rfl
    · obtain ⟨e, he, heq⟩ := submit_some sec hs hlt x
      dsimp only at heq
      rcases hr.writePdu_packDataPdu sec hlt hsn x (hroom x List.mem_cons_self) with
        ⟨hkeeps, hout, hnext⟩ | ⟨hlost, ⟨hout, hstay⟩ | ⟨sdu, hne, hout⟩⟩
      · -- delivered, both sides at the next COUNT
        have hrest := ih (l := ⟨e, _⟩) hlt he hnext (List.forall_mem_cons.mp hroom).2
        unfold transfer
        dsimp only
        rw [heq, hout, List.map_append, List.map_cons, List.map_nil, List.singleton_append,
          List.map_cons, List.cons_inj_right, hrest, List.length_cons]
        constructor
        · rintro ⟨hle, hall⟩
          refine ⟨by omega, fun k y hy => ?_⟩
          cases k with
          | zero => exact Option.some.inj hy ▸ hkeeps
          | succ k =>
            have hk := hall k y hy
            rwa [Nat.succ_add_eq_add_succ] at hk
        · rintro ⟨hle, hall⟩
          refine ⟨by omega, fun k y hy => ?_⟩
          rw [Nat.succ_add_eq_add_succ]
          exact hall (k + 1) y hy
      · rw [hout, hstay] at heq
        refine iff_of_false (not_delivered_of_skip sec heq hr.queue xs) ?_
        exact fun hall => hlost (hall.2 0 x rfl)
      · refine iff_of_false (fun hall => hne ?_) fun hall => hlost (hall.2 0 x rfl)
        unfold transfer at hall
        dsimp only at hall
        rw [heq, hout, List.map_append, List.map_cons, List.map_cons] at hall
        exact (List.cons.inj hall).1
    · refine iff_of_false (not_delivered_of_skip sec (submit_none sec hs x) hr.queue xs) ?_
      rintro ⟨hle, -⟩
      rw [List.length_cons] at hle
      omega

theorem init_delivered_iff (hsn : b.cfg.snLen = 12 ∨ b.cfg.snLen = 18) (t t' : ℕ)
    (xs : List NrSubmission) (hxs : ∀ x ∈ xs, NrAdmissible b x.sdu) :
    (((init b t t').transfer sec xs).delivered.map Prod.snd = xs.map fun x => x.sdu.msg) ↔
      xs.length ≤ 2 ^ 32 ∧ ∀ k x, xs[k]? = some x → KeepsSdu sec b k x := by
  -- `init` clears the two switches, which neither side looks at
  let b₀ : PdcpEntityBase := { b with doIntegrity := false, doEncryption := false }
  have hs : SendsNext b₀ 0 (init b t t').sender := ⟨rfl, rfl, rfl⟩
  have hr : AwaitsNext b₀ 0 (init b t t').receiver := by
    refine ⟨rfl, ?_, rfl, rfl, rfl, rfl⟩
    change 1 <<< (b.cfg.snLen - 1) = 2 ^ (b.cfg.snLen - 1)
    rw [Nat.shiftLeft_eq, Nat.one_mul]
  have hiff := transfer_delivered_iff (b := b₀) sec hsn (Nat.zero_le _) hs hr xs
    fun x hx => (hxs x hx).headroom
  simp only [Nat.zero_add] at hiff
  exact hiff

/-- The peer gets exactly the SDUs submitted, in order, and no COUNT is used for two of them, if and
only if there are at most 2^32 SDUs and the PDU of each keeps it. -/
theorem transfer_identity_iff (hsn : b.cfg.snLen = 12 ∨ b.cfg.snLen = 18) (t t' : ℕ)
    (xs : List NrSubmission) (hxs : ∀ x ∈ xs, NrAdmissible b x.sdu) :
    (((init b t t').transfer sec xs).delivered.map Prod.snd = xs.map (fun x => x.sdu.msg) ∧
        ((init b t t').transfer sec xs).counts.Nodup) ↔
      xs.length ≤ 2 ^ 32 ∧ ∀ k x, xs[k]? = some x → KeepsSdu sec b k x := by
  have hs : SendsNext { b with doIntegrity := false, doEncryption := false } 0
      (init b t t').sender := ⟨rfl, rfl, rfl⟩
  have hcounts : ((init b t t').transfer sec xs).counts.Nodup := by
    rw [transfer_counts sec hs (Nat.zero_le _) xs]
    exact List.nodup_range'
  rw [and_iff_left hcounts]
  exact init_delivered_iff sec hsn t t' xs hxs

/-- Three one-byte SDUs in fresh buffers of the bearer `nrDrb1`. -/
def shortSdus : List NrSubmission :=
  [1, 2, 3].map fun x => ⟨⟨1020, [x], one_byte_fits x⟩,
    ⟨[0, 0, 0, 0], length_zero_mac⟩, ⟨[0, 0, 0, 0], length_zero_mac⟩⟩

theorem transfer_identity_iff_shortSdus :
    (((init nrDrb1 500 500).transfer nullSecurity shortSdus).delivered.map Prod.snd =
          shortSdus.map (fun x => x.sdu.msg) ∧
        ((init nrDrb1 500 500).transfer nullSecurity shortSdus).counts.Nodup) ↔
      shortSdus.length ≤ 2 ^ 32 ∧
        ∀ k x, shortSdus[k]? = some x → KeepsSdu nullSecurity nrDrb1 k x := by
  refine transfer_identity_iff nullSecurity (Or.inl rfl) 500 500 shortSdus fun x hx => ?_
  obtain ⟨c, -, rfl⟩ := List.mem_map.mp hx
  exact ⟨by change 1 ≤ 9000; decide, by change 2 ≤ 1020; decide,
    by change 4 ≤ 97896 / 8 + 1020 - 1020 - 1; decide⟩

def longSdu : NrSubmission where
  sdu := ⟨1020, List.replicate 6200 0, by
    rw [List.length_replicate]
    change 1020 + 6200 ≤ 97896 / 8 + 1020
    decide⟩
  txStack := ⟨[0, 0, 0, 0], length_zero_mac⟩
  rxStack := ⟨[0, 0, 0, 0], length_zero_mac⟩

theorem longSdu_nBytes : longSdu.sdu.nBytes = 6200 := List.length_replicate

theorem longSdu_tailroom : longSdu.sdu.tailroom = 6037 := by
  unfold ByteBuffer.tailroom
  rw [longSdu_nBytes]
  rfl

/-- `append_mac` refuses the MAC-I of an SDU of 6200 bytes that has 6037 bytes behind it. -/
theorem long_sdu_loses_mac :
    ¬ ∀ (sec : SecurityLib) (b : PdcpEntityBase), b.cfg.snLen = 12 ∨ b.cfg.snLen = 18 →
      ∀ (t t' : ℕ) (xs : List NrSubmission), xs.length ≤ 2 ^ 32 →
        (∀ x ∈ xs, NrAdmissible b x.sdu) →
        ((init b t t').transfer sec xs).delivered.map Prod.snd = xs.map (fun x => x.sdu.msg) ∧
          ((init b t t').transfer sec xs).counts.Nodup := by
  intro hall
  have hadm : ∀ x ∈ [longSdu], NrAdmissible nrDrb1 x.sdu := by
    intro x hx
    rw [List.mem_singleton.mp hx]
    refine ⟨?_, by change 2 ≤ 1020; decide, ?_⟩
    · rw [longSdu_nBytes]
      unfold pdcpMaxSduSize
      omega
    · rw [longSdu_tailroom]
      omega
  obtain ⟨hdelivered, -⟩ :=
    hall nullSecurity nrDrb1 (Or.inl rfl) 500 500 [longSdu] (by change 1 ≤ 2 ^ 32; omega) hadm
  have hkeeps := ((init_delivered_iff nullSecurity (Or.inl rfl) 500 500 [longSdu] hadm).mp
    hdelivered).2 0 longSdu rfl
  rcases hkeeps with hmac | ⟨-, hshort, -⟩
  · rw [longSdu_nBytes, longSdu_tailroom] at hmac
    omega
  · rw [longSdu_nBytes] at hshort
    omega

end NrLink
end SrsLte
