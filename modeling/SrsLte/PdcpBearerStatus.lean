import SrsLte.EventRun
import SrsLte.PdcpLteAgreement

/-!
# Bearer status for the handover

`get_bearer_status` splits `tx_count` and `rx_count` into SN and HFN. The receive state machine
keeps its own HFN and SN, and `rx_count` counts the PDUs received, whatever their SN is. The two
agree as long as every PDU is the one expected next and the HFNs fit in the 16 bits of the report.
-/

namespace SrsLte

/-- What `get_bearer_status` reports. -/
structure BearerStatus where
  dlsn : ℕ
  dlhfn : ℕ
  ulsn : ℕ
  ulhfn : ℕ

/-- SN and HFN of a COUNT with a `w`-bit SN, as `uint16_t`. -/
def splitCount (w count : ℕ) : ℕ × ℕ :=
  let sn := (count &&& (2 ^ w - 1)) % 2 ^ 16
  (sn, (Word.sub32 count sn >>> w) % 2 ^ 16)

namespace PdcpEntityLte

variable (sec : SecurityLib)

def getBearerStatus (e : PdcpEntityLte) : BearerStatus :=
  let w := if e.cfg.rbType = .isDrb then if 12 = e.cfg.snLen then 12 else 7 else 5
  let (dlsn, dlhfn) := splitCount w e.txCount
  let (ulsn, ulhfn) := splitCount w e.rxCount
  ⟨dlsn, dlhfn, ulsn, ulhfn⟩

/-- `rbIsUm` is the answer of `rlc->rb_is_um(lcid)`. -/
def reestablish (rbIsUm : Bool) (e : PdcpEntityLte) : PdcpEntityLte :=
  if e.isSrb then { e with txCount := 0, rxCount := 0, rxHfn := 0, nextPdcpRxSn := 0 }
  else if rbIsUm then { e with txCount := 0, rxCount := 0, rxHfn := 0, nextPdcpRxSn := 0 }
  else e

inductive Event
  | writeSdu (sdu : Bytes)
  | writePdu (pdu : Bytes)
  | reestablish

def step (rbIsUm : Bool) (e : PdcpEntityLte) : Event → PdcpEntityLte
  | .writeSdu sdu => (e.writeSdu sec sdu).1
  | .writePdu pdu => (e.writePdu sec rbIsUm pdu).entity
  | .reestablish => e.reestablish rbIsUm

/-- The status reports the HFN and the SN of the receive state machine, and the COUNT that a target
makes of the transmit part is the one that `write_sdu` uses next. -/
structure StatusMatches (e : PdcpEntityLte) : Prop where
  ulhfn : e.getBearerStatus.ulhfn = e.rxHfn
  ulsn : e.getBearerStatus.ulsn = e.nextPdcpRxSn
  dl : e.countOf e.getBearerStatus.dlhfn e.getBearerStatus.dlsn = e.txCount

def receivedSn (rbIsUm : Bool) (e : PdcpEntityLte) (pdu : Bytes) : ℕ :=
  if rbIsUm ∧ e.cfg.snLen ≠ 12 then (pdcpUnpackDataPduShortSn pdu).1
  else (pdcpUnpackDataPduLongSn pdu).1

/-- A PDU with more than a header is the one expected next, and the HFN of the COUNT after it has 16
bits; so has the HFN of the COUNT after an SDU. -/
def KeepsStatus (rbIsUm : Bool) (e : PdcpEntityLte) : Event → Prop
  | .writeSdu _ => e.txCount + 1 < 2 ^ (e.cfg.snLen + 16)
  | .writePdu pdu => e.cfg.hdrLenBytes < pdu.length →
      e.receivedSn rbIsUm pdu = e.nextPdcpRxSn ∧ e.rxCount + 1 < 2 ^ (e.cfg.snLen + 16)
  | .reestablish => True

theorem splitCount_eq {w count : ℕ} (hw : w = 7 ∨ w = 12) (hcount : count < 2 ^ 32) :
    splitCount w count = (count % 2 ^ w, count / 2 ^ w % 2 ^ 16) := by
  have hmask : count &&& (2 ^ w - 1) = count % 2 ^ w := Nat.and_two_pow_sub_one_eq_mod count w
  have hsn : count % 2 ^ w % 2 ^ 16 = count % 2 ^ w := by
    rcases hw with rfl | rfl
    · omega
    · omega
  unfold splitCount
  dsimp only
  rw [hmask, hsn, Word.sub32_of_le (Nat.mod_le _ _) hcount, Nat.shiftRight_eq_div_pow]
  rcases hw with rfl | rfl
  · refine Prod.ext rfl ?_
    dsimp only
    omega
  · refine Prod.ext rfl ?_
    dsimp only
    omega

theorem receivedSn_lt (rbIsUm : Bool) (e : PdcpEntityLte) (pdu : Bytes)
    (hsn : e.cfg.snLen = 12 ∨ rbIsUm = true ∧ e.cfg.snLen = 7) :
    e.receivedSn rbIsUm pdu < 2 ^ e.cfg.snLen := by
  have hshort : (pdcpUnpackDataPduShortSn pdu).1 < 2 ^ 7 := by
    unfold pdcpUnpackDataPduShortSn
    rw [and_0x7F]
    exact Nat.mod_lt _ (by decide)
  have hlong : (pdcpUnpackDataPduLongSn pdu).1 < 2 ^ 12 := by
    unfold pdcpUnpackDataPduLongSn
    have hlow := (pdu.getD 1 0).toNat_lt
    rw [and_0x0F, Nat.shiftLeft_eq]
    apply Nat.or_lt_two_pow
    · omega
    · omega
  unfold receivedSn
  rcases hsn with h12 | ⟨hum, h7⟩
  · rw [if_neg (fun h => h.2 h12), h12]
    exact hlong
  · rw [if_pos ⟨hum, by omega⟩, h7]
    exact hshort

open LteBearer

variable {sec} {bt : LteBearer} {b : PdcpEntityBase} {e : PdcpEntityLte} {n sn : ℕ}

/-- The state after a received SN, before `rx_count` is incremented. -/
def receive (rbIsUm : Bool) (e : PdcpEntityLte) (sn : ℕ) : PdcpEntityLte :=
  if rbIsUm then (e.umDrbCount sn).1 else (e.amDrbCount sn).1

theorem receive_counts (rbIsUm : Bool) (e : PdcpEntityLte) (sn : ℕ) :
    (e.receive rbIsUm sn).rxCount = e.rxCount ∧ (e.receive rbIsUm sn).txCount = e.txCount := by
  unfold receive umDrbCount amDrbCount
  dsimp only
  cases rbIsUm with
  | true =>
    rw [if_pos rfl]
    split_ifs <;> exact ⟨rfl, rfl⟩
  | false =>
    rw [if_neg Bool.false_ne_true]
    split_ifs <;> exact ⟨rfl, rfl⟩

theorem entity_writePdu {rbIsUm : Bool} {pdu : Bytes} (hdrb : e.isDrb = true)
    (hlen : e.cfg.hdrLenBytes < pdu.length) :
    (e.writePdu sec rbIsUm pdu).entity =
      { e.receive rbIsUm (e.receivedSn rbIsUm pdu) with rxCount := (e.rxCount + 1) % 2 ^ 32 } := by
  have hcounts := receive_counts rbIsUm e (e.receivedSn rbIsUm pdu)
  have hentity : (if rbIsUm then e.handleUmDrbPdu sec pdu else e.handleAmDrbPdu sec pdu).entity
      = e.receive rbIsUm (e.receivedSn rbIsUm pdu) := by
    unfold receive receivedSn
    cases rbIsUm with
    | true =>
      unfold handleUmDrbPdu
      by_cases h12 : e.cfg.snLen = 12
      · cases e.doEncryption with
        | true => simp [h12]
        | false => simp [h12]
      · cases e.doEncryption with
        | true => simp [h12]
        | false => simp [h12]
    | false => simp [handleAmDrbPdu]
  unfold writePdu
  rw [if_neg (Nat.not_le.mpr hlen), if_pos hdrb]
  dsimp only
  rw [hentity, hcounts.1]

theorem UmExpects.receive {w : ℕ} (hw : w = 7 ∨ w = 12) (h : UmExpects w e n) (hsn : sn < 2 ^ w) :
    ∃ n', UmExpects w (e.receive true sn) n' ∧
      (e.receive true sn).toPdcpEntityBase = e.toPdcpEntityBase ∧
      (sn = n % 2 ^ w → n' = n + 1) ∧ (sn ≠ n % 2 ^ w → n' % 2 ^ w ≠ (n + 1) % 2 ^ w) := by
  have hlt : n % 2 ^ w < 2 ^ w := Nat.mod_lt _ (Nat.two_pow_pos w)
  have hdist : (sn + 2 ^ w - n % 2 ^ w) % 2 ^ w < 2 ^ w := Nat.mod_lt _ (Nat.two_pow_pos w)
  have hcount : (n + (sn + 2 ^ w - n % 2 ^ w) % 2 ^ w) % 2 ^ w = sn := by
    rcases hw with rfl | rfl
    · omega
    · omega
  obtain ⟨e', heq, he', hbase⟩ := umDrbCount_eq hw h (Nat.le_add_right n _)
    (Nat.add_lt_add_left hdist n)
  rw [hcount] at heq
  have hreceive : e.receive true sn = e' := congrArg Prod.fst heq
  refine ⟨_, hreceive.symm ▸ he', hreceive.symm ▸ hbase, ?_, ?_⟩
  · intro hsame
    rcases hw with rfl | rfl
    · omega
    · omega
  · intro hne
    rcases hw with rfl | rfl
    · omega
    · omega

theorem AmExpects.receive (h : AmExpects e n) (hsn : sn < 4096) :
    ∃ n', AmExpects (e.receive false sn) n' ∧
      (e.receive false sn).toPdcpEntityBase = e.toPdcpEntityBase ∧
      (sn = n % 4096 → n' = n + 1) ∧ (sn ≠ n % 4096 → n' % 4096 ≠ (n + 1) % 4096) := by
  by_cases hahead : (sn + 4096 - n % 4096) % 4096 < 2048
  · have hcount : (n + (sn + 4096 - n % 4096) % 4096) % 4096 = sn := by omega
    obtain ⟨e', heq, he', hbase, -⟩ := amDrbCount_near h (Nat.add_lt_add_left hahead n) (by omega)
    rw [hcount] at heq
    have hreceive : e.receive false sn = e' := congrArg Prod.fst heq
    refine ⟨_, hreceive.symm ▸ he', hreceive.symm ▸ hbase, ?_, ?_⟩
    · omega
    · omega
  · have hbehind : ¬SnAhead ((n + 4095) % 4096) sn := by
      unfold SnAhead
      omega
    have hsubmitted : Submitted e.toPdcpEntityBase.peer e ((n + 4095) % 4096) :=
      ⟨Nat.mod_lt _ (by decide), rfl, n, h, rfl⟩
    obtain ⟨count, heq⟩ := amDrbCount_behind hsubmitted hsn hbehind
    have hreceive : e.receive false sn = e := congrArg Prod.fst heq
    refine ⟨n, hreceive.symm ▸ h, by rw [hreceive], ?_, ?_⟩
    · omega
    · omega

theorem Expects.receive (hbt : bt ≠ srb) (h : Expects bt b e n) (hsn : sn < 2 ^ bt.snLen) :
    ∃ n', Expects bt b (e.receive bt.rbIsUm sn) n' ∧ (sn = n % 2 ^ bt.snLen → n' = n + 1) ∧
      (sn ≠ n % 2 ^ bt.snLen → n' % 2 ^ bt.snLen ≠ (n + 1) % 2 ^ bt.snLen) := by
  obtain ⟨hbase, hexpects⟩ := h
  cases bt with
  | srb => exact absurd rfl hbt
  | umDrbShort =>
    obtain ⟨n', he', hbase', hrest⟩ := UmExpects.receive (Or.inl rfl) hexpects hsn
    exact ⟨n', ⟨hbase'.trans hbase, he'⟩, hrest⟩
  | umDrbLong =>
    obtain ⟨n', he', hbase', hrest⟩ := UmExpects.receive (Or.inr rfl) hexpects hsn
    exact ⟨n', ⟨hbase'.trans hbase, he'⟩, hrest⟩
  | amDrb =>
    obtain ⟨n', he', hbase', hrest⟩ := AmExpects.receive hexpects hsn
    exact ⟨n', ⟨hbase'.trans hbase, he'⟩, hrest⟩

theorem Expects.state (hbt : bt ≠ srb) (h : Expects bt b e n) :
    (bt.snLen = 7 ∨ bt.snLen = 12) ∧ e.cfg.snLen = bt.snLen ∧ e.cfg.rbType = .isDrb ∧
      e.nextPdcpRxSn = n % 2 ^ bt.snLen ∧ e.rxHfn = n / 2 ^ bt.snLen % 2 ^ 32 := by
  obtain ⟨hbase, hexpects⟩ := h
  cases bt with
  | srb => exact absurd rfl hbt
  | umDrbShort => exact ⟨Or.inl rfl, hexpects.snLen, hexpects.isDrb, hexpects.next, hexpects.hfn⟩
  | umDrbLong => exact ⟨Or.inr rfl, hexpects.snLen, hexpects.isDrb, hexpects.next, hexpects.hfn⟩
  | amDrb => exact ⟨Or.inr rfl, hexpects.snLen, hexpects.isDrb, hexpects.next, hexpects.hfn⟩

theorem getBearerStatus_eq {w : ℕ} (hw : w = 7 ∨ w = 12) (hsnLen : e.cfg.snLen = w)
    (hdrb : e.cfg.rbType = .isDrb) (htx : e.txCount < 2 ^ 32) (hrx : e.rxCount < 2 ^ 32) :
    e.getBearerStatus = ⟨e.txCount % 2 ^ w, e.txCount / 2 ^ w % 2 ^ 16, e.rxCount % 2 ^ w,
      e.rxCount / 2 ^ w % 2 ^ 16⟩ := by
  have hwidth : (if e.cfg.rbType = .isDrb then if 12 = e.cfg.snLen then 12 else 7 else 5) = w := by
    rw [if_pos hdrb, hsnLen]
    rcases hw with rfl | rfl
    · rfl
    · rfl
  unfold getBearerStatus
  rw [hwidth]
  dsimp only
  rw [splitCount_eq hw htx, splitCount_eq hw hrx]

theorem statusMatches_iff (hbt : bt ≠ srb) (h : Expects bt b e n) (htx : e.txCount < 2 ^ 32)
    (hrx : e.rxCount < 2 ^ 32) :
    StatusMatches e ↔ e.rxCount / 2 ^ bt.snLen % 2 ^ 16 = n / 2 ^ bt.snLen % 2 ^ 32 ∧
      e.rxCount % 2 ^ bt.snLen = n % 2 ^ bt.snLen ∧ e.txCount < 2 ^ (bt.snLen + 16) := by
  obtain ⟨hw, hsnLen, hdrb, hnext, hhfn⟩ := h.state hbt
  have hstatus := getBearerStatus_eq hw hsnLen hdrb htx hrx
  have hcount : e.countOf (e.txCount / 2 ^ bt.snLen % 2 ^ 16) (e.txCount % 2 ^ bt.snLen) = e.txCount
      ↔ e.txCount < 2 ^ (bt.snLen + 16) := by
    rw [countOf_of_snLen hsnLen (by omega) (Nat.mod_lt _ (Nat.two_pow_pos _))]
    rcases hw with hw | hw
    · rw [hw]
      omega
    · rw [hw]
      omega
  constructor
  · rintro ⟨hulhfn, hulsn, hdl⟩
    rw [hstatus] at hulhfn hulsn hdl
    exact ⟨hulhfn.trans hhfn, hulsn.trans hnext, hcount.mp hdl⟩
  · rintro ⟨hulhfn, hulsn, hdl⟩
    refine ⟨?_, ?_, ?_⟩
    · rw [hstatus]
      exact hulhfn.trans hhfn.symm
    · rw [hstatus]
      exact hulsn.trans hnext.symm
    · rw [hstatus]
      exact hcount.mpr hdl

theorem Expects.withCounts (h : Expects bt b e n) (txCount rxCount : ℕ) :
    Expects bt b { e with txCount := txCount, rxCount := rxCount } n := by
  obtain ⟨hbase, hexpects⟩ := h
  refine ⟨hbase, ?_⟩
  cases bt with
  | srb => trivial
  | umDrbShort | umDrbLong =>
    exact ⟨hexpects.isDrb, hexpects.snLen, hexpects.maxSn, hexpects.next, hexpects.hfn⟩
  | amDrb =>
    exact ⟨hexpects.isDrb, hexpects.snLen, hexpects.window, hexpects.maxSn, hexpects.last,
      hexpects.next, hexpects.hfn⟩

/-- The receiver expects the COUNT that `rx_count` holds, and the HFNs fit in the report. -/
structure InStep (bt : LteBearer) (b : PdcpEntityBase) (e : PdcpEntityLte) : Prop where
  expects : Expects bt b e e.rxCount
  rx : e.rxCount < 2 ^ (bt.snLen + 16)
  tx : e.txCount < 2 ^ (bt.snLen + 16)

theorem lt_word {count : ℕ} (hw : bt.snLen = 7 ∨ bt.snLen = 12)
    (hcount : count < 2 ^ (bt.snLen + 16)) : count + 1 < 2 ^ 32 := by
  rcases hw with hw | hw
  · rw [hw] at hcount
    omega
  · rw [hw] at hcount
    omega

theorem InStep.statusMatches (hbt : bt ≠ srb) (h : InStep bt b e) : StatusMatches e := by
  obtain ⟨hw, -⟩ := h.expects.state hbt
  have hrx := h.rx
  have hrx' := lt_word hw hrx
  have htx' := lt_word hw h.tx
  rw [statusMatches_iff hbt h.expects (by omega) (by omega)]
  refine ⟨?_, rfl, h.tx⟩
  rcases hw with hw | hw
  · rw [hw] at hrx ⊢
    omega
  · rw [hw] at hrx ⊢
    omega

theorem InStep.step_cases (sec : SecurityLib) (hbt : bt ≠ srb) (h : InStep bt b e) (ev : Event) :
    KeepsStatus bt.rbIsUm e ev ∧ InStep bt b (step sec bt.rbIsUm e ev) ∨
      ¬KeepsStatus bt.rbIsUm e ev ∧ ¬StatusMatches (step sec bt.rbIsUm e ev) := by
  obtain ⟨hw, hsnLen, hdrb, hnext, -⟩ := h.expects.state hbt
  have hrx' := lt_word hw h.rx
  have htx' := lt_word hw h.tx
  cases ev with
  | writeSdu sdu =>
    have hcount : (e.txCount + 1) % 2 ^ 32 = e.txCount + 1 := Nat.mod_eq_of_lt htx'
    have hexpects := h.expects.withCounts (e.txCount + 1) e.rxCount
    have hstep : step sec bt.rbIsUm e (.writeSdu sdu) =
        { e with txCount := e.txCount + 1, rxCount := e.rxCount } := by
      change ({ e with txCount := (e.txCount + 1) % 2 ^ 32 } : PdcpEntityLte) = _
      rw [hcount]
    rw [hstep, KeepsStatus, hsnLen]
    by_cases hkeeps : e.txCount + 1 < 2 ^ (bt.snLen + 16)
    · exact Or.inl ⟨hkeeps, hexpects, h.rx, hkeeps⟩
    · refine Or.inr ⟨hkeeps, fun hmatches => hkeeps ?_⟩
      exact ((statusMatches_iff hbt hexpects htx' (by dsimp only; omega)).mp hmatches).2.2
  | writePdu pdu =>
    by_cases hlen : e.cfg.hdrLenBytes < pdu.length
    · have hsn : e.receivedSn bt.rbIsUm pdu < 2 ^ bt.snLen := by
        rw [← hsnLen]
        apply receivedSn_lt
        rw [hsnLen]
        cases bt with
        | srb => exact absurd rfl hbt
        | umDrbShort => exact Or.inr ⟨rfl, rfl⟩
        | umDrbLong | amDrb => exact Or.inl rfl
      have hisDrb : e.isDrb = true := decide_eq_true hdrb
      have hcounts := receive_counts bt.rbIsUm e (e.receivedSn bt.rbIsUm pdu)
      have hstep : step sec bt.rbIsUm e (.writePdu pdu) =
          { e.receive bt.rbIsUm (e.receivedSn bt.rbIsUm pdu) with
            txCount := e.txCount, rxCount := e.rxCount + 1 } := by
        change (e.writePdu sec bt.rbIsUm pdu).entity = _
        rw [entity_writePdu hisDrb hlen, Nat.mod_eq_of_lt hrx', ← hcounts.2]
      obtain ⟨n', hexpects, hsame, hother⟩ := h.expects.receive hbt hsn
      have hexpects' := hexpects.withCounts e.txCount (e.rxCount + 1)
      have hmatches := statusMatches_iff hbt hexpects' (by dsimp only; omega) hrx'
      dsimp only at hmatches
      rw [hstep, KeepsStatus, hnext, hsnLen]
      by_cases hnew : e.receivedSn bt.rbIsUm pdu = e.rxCount % 2 ^ bt.snLen
      · by_cases hfits : e.rxCount + 1 < 2 ^ (bt.snLen + 16)
        · refine Or.inl ⟨fun _ => ⟨hnew, hfits⟩, ?_, hfits, h.tx⟩
          exact hsame hnew ▸ hexpects'
        · refine Or.inr ⟨fun hkeeps => hfits (hkeeps hlen).2, fun hshown => hfits ?_⟩
          have hhfn := (hmatches.mp hshown).1
          have hrx := h.rx
          rw [hsame hnew] at hhfn
          rcases hw with hw | hw
          · rw [hw] at hhfn hrx ⊢
            omega
          · rw [hw] at hhfn hrx ⊢
            omega
      · refine Or.inr ⟨fun hkeeps => hnew (hkeeps hlen).1, fun hshown => ?_⟩
        exact hother hnew (hmatches.mp hshown).2.1.symm
    · have hstep : step sec bt.rbIsUm e (.writePdu pdu) = e := by
        change (e.writePdu sec bt.rbIsUm pdu).entity = e
        rw [writePdu, if_pos (Nat.le_of_not_lt hlen)]
      rw [hstep]
      exact Or.inl ⟨fun hlen' => absurd hlen' hlen, h⟩
  | reestablish =>
    refine Or.inl ⟨trivial, ?_⟩
    have hisSrb : e.isSrb = false := by
      unfold PdcpEntityBase.isSrb
      rw [hdrb]
      rfl
    have hpos : 0 < 2 ^ (bt.snLen + 16) := Nat.two_pow_pos _
    change InStep bt b (e.reestablish bt.rbIsUm)
    unfold reestablish
    rw [hisSrb, if_neg Bool.false_ne_true]
    obtain ⟨hbase, hexpects⟩ := h.expects
    cases bt with
    | srb => exact absurd rfl hbt
    | umDrbShort =>
      have hum : umDrbShort.rbIsUm = true := rfl
      rw [if_pos hum]
      exact ⟨⟨hbase, hexpects.isDrb, hexpects.snLen, hexpects.maxSn, rfl, by simp⟩, hpos, hpos⟩
    | umDrbLong =>
      have hum : umDrbLong.rbIsUm = true := rfl
      rw [if_pos hum]
      exact ⟨⟨hbase, hexpects.isDrb, hexpects.snLen, hexpects.maxSn, rfl, by simp⟩, hpos, hpos⟩
    | amDrb => exact h

/-- On every bearer for data, the reported status is the one of the receive state machine and of
the transmitter in every state of a run exactly when each PDU received is the one expected next,
and the COUNTs stay below the HFN that does not fit in 16 bits. -/
theorem bearer_status_iff (sec : SecurityLib) {bt : LteBearer} (hbt : bt ≠ srb)
    {b : PdcpEntityBase} (hcfg : bt.Configures b) (events : List Event) :
    (∀ pre, pre <+: events → StatusMatches (pre.foldl (step sec bt.rbIsUm) (init b)))
      ↔ EventRun.Along (step sec bt.rbIsUm) (KeepsStatus bt.rbIsUm) (init b) events := by
  have hstart : InStep bt b.peer (init b) := by
    have hexpects : Expects bt b.peer (init b) 0 := @expects_init bt b.peer hcfg
    exact ⟨hexpects, Nat.two_pow_pos _, Nat.two_pow_pos _⟩
  rw [EventRun.forall_prefix_iff, and_iff_right (hstart.statusMatches hbt)]
  apply EventRun.along_congr _ _ hstart
  · intro e ev he hmatches
    rcases he.step_cases sec hbt ev with ⟨-, hnext⟩ | ⟨-, hnot⟩
    · exact hnext
    · exact absurd hmatches hnot
  · intro e ev he
    rcases he.step_cases sec hbt ev with ⟨hkeeps, hnext⟩ | ⟨hnot, hnot'⟩
    · exact iff_of_true (hnext.statusMatches hbt) hkeeps
    · exact iff_of_false hnot' hnot

theorem bearer_status_iff_drb1 :
    (∀ pre, pre <+: [Event.writePdu [0x80, 0, 1]] →
        StatusMatches (pre.foldl (step onesKeystream amDrb.rbIsUm) (init drb1)))
      ↔ EventRun.Along (step onesKeystream amDrb.rbIsUm) (KeepsStatus amDrb.rbIsUm) (init drb1)
        [Event.writePdu [0x80, 0, 1]] :=
  bearer_status_iff onesKeystream (by decide) ⟨rfl, rfl⟩ _

/-- When the first PDU is lost, the second one moves the receiver to SN 2, and 1 is reported. -/
theorem lost_pdu_not_counted :
    ¬∀ (sec : SecurityLib) (bt : LteBearer), bt ≠ srb → ∀ b : PdcpEntityBase, bt.Configures b →
      ∀ events pre : List Event, pre <+: events →
        StatusMatches (pre.foldl (step sec bt.rbIsUm) (init b)) := by
  intro hall
  have hmatches := hall onesKeystream amDrb (by decide) drb1 ⟨rfl, rfl⟩
    [.writePdu [0x80, 1, 1]] _ (List.prefix_refl _)
  have hulsn := hmatches.ulsn
  revert hulsn
  decide +kernel

end PdcpEntityLte

end SrsLte
