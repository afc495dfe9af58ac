import Mathlib.Data.List.Forall2
import SrsLte.PdcpBase

/-!
# LTE PDCP entity

Transmit and receive side of `pdcp_entity_lte`. `writeSdu` returns the PDU handed to RLC.
`writePdu` returns, next to the new entity, what became of the PDU, the COUNT values passed to the
security functions in call order, and the local `discard` of `handle_am_drb_pdu`.

A byte buffer is its list of bytes. Where the source subtracts more from `N_bytes` than the buffer
holds, the outcome is `wrapped`.
-/

namespace SrsLte

structure PdcpEntityLte extends PdcpEntityBase where
  rxCount : ℕ
  txCount : ℕ
  rxHfn : ℕ
  nextPdcpRxSn : ℕ
  reorderingWindow : ℕ
  lastSubmittedPdcpRxSn : ℕ
  maximumPdcpSn : ℕ

/-- What `write_pdu` does with a PDU. -/
inductive PdcpRxOutcome
  | dropped
  | toGw (sdu : Bytes)
  | toRrc (sdu : Bytes)
  | wrapped
  deriving DecidableEq

structure PdcpRxResult where
  entity : PdcpEntityLte
  outcome : PdcpRxOutcome
  securityCounts : List ℕ
  discard : Bool

def pdcpPackControlPdu (sn : ℕ) (sdu : Bytes) : Bytes :=
  UInt8.ofNat (sn &&& 0x1F) :: sdu ++ [0, 0, 0, 0]

def pdcpPackDataPduShortSn (sn : ℕ) (sdu : Bytes) : Bytes :=
  UInt8.ofNat ((1 <<< 7) ||| (sn &&& 0x7F)) :: sdu

def pdcpUnpackDataPduShortSn (pdu : Bytes) : ℕ × Bytes :=
  ((pdu.getD 0 0).toNat &&& 0x7F, pdu.drop 1)

def pdcpPackDataPduLongSn (sn : ℕ) (sdu : Bytes) : Bytes :=
  UInt8.ofNat ((1 <<< 7) ||| ((sn >>> 8) &&& 0x0F)) :: UInt8.ofNat (sn &&& 0xFF) :: sdu

def pdcpUnpackDataPduLongSn (pdu : Bytes) : ℕ × Bytes :=
  ((((pdu.getD 0 0).toNat &&& 0x0F) <<< 8) ||| (pdu.getD 1 0).toNat, pdu.drop 2)

namespace PdcpEntityLte

variable (sec : SecurityLib)

def init (b : PdcpEntityBase) : PdcpEntityLte where
  toPdcpEntityBase := b
  rxCount := 0
  txCount := 0
  rxHfn := 0
  nextPdcpRxSn := 0
  reorderingWindow := if b.isSrb then 0 else 2048
  lastSubmittedPdcpRxSn := (1 <<< b.cfg.snLen) - 1
  maximumPdcpSn := (1 <<< b.cfg.snLen) - 1

/-- Header (and MAC) of `write_sdu` before ciphering. -/
def packSdu (e : PdcpEntityLte) (sdu : Bytes) : Bytes :=
  if e.isSrb then
    let pdu := pdcpPackControlPdu e.txCount sdu
    if e.doIntegrity then
      let msg := pdu.take (pdu.length - 4)
      msg ++ e.integrityGenerate sec msg e.txCount (pdu.drop (pdu.length - 4))
    else pdu
  else if e.cfg.snLen = 12 then pdcpPackDataPduLongSn e.txCount sdu
  else pdcpPackDataPduShortSn e.txCount sdu

def writeSdu (e : PdcpEntityLte) (sdu : Bytes) : PdcpEntityLte × Bytes :=
  let pdu := e.packSdu sec sdu
  let pdu := if e.doEncryption then
      pdu.take e.cfg.hdrLenBytes ++ e.cipherEncrypt sec (pdu.drop e.cfg.hdrLenBytes) e.txCount
    else pdu
  ({ e with txCount := (e.txCount + 1) % 2 ^ 32 }, pdu)

def umDrbCount (e : PdcpEntityLte) (sn : ℕ) : PdcpEntityLte × ℕ :=
  let e := if sn < e.nextPdcpRxSn then { e with rxHfn := (e.rxHfn + 1) % 2 ^ 32 } else e
  let count := e.countOf e.rxHfn sn
  let e := { e with nextPdcpRxSn := sn + 1 }
  let e := if e.nextPdcpRxSn > e.maximumPdcpSn then
      { e with nextPdcpRxSn := 0, rxHfn := (e.rxHfn + 1) % 2 ^ 32 }
    else e
  (e, count)

def handleUmDrbPdu (e : PdcpEntityLte) (pdu : Bytes) : PdcpRxResult :=
  let (sn, sdu) := if e.cfg.snLen = 12 then pdcpUnpackDataPduLongSn pdu
    else pdcpUnpackDataPduShortSn pdu
  let (e', count) := e.umDrbCount sn
  if e.doEncryption then
    { entity := e', outcome := .toGw (e.cipherDecrypt sec sdu count),
      securityCounts := [count], discard := false }
  else { entity := e', outcome := .toGw sdu, securityCounts := [], discard := false }

/-- DRBs mapped on RLC AM: state update, COUNT and `discard` for a received SN. -/
def amDrbCount (e : PdcpEntityLte) (sn : ℕ) : PdcpEntityLte × ℕ × Bool :=
  let lastSubmitDiffSn := Word.toInt32 (Word.sub32 e.lastSubmittedPdcpRxSn sn)
  let snDiffLastSubmit := Word.toInt32 (Word.sub32 sn e.lastSubmittedPdcpRxSn)
  let snDiffNextPdcpRxSn := Word.toInt32 (Word.sub32 sn e.nextPdcpRxSn)
  let window := Word.toInt32 e.reorderingWindow
  if (0 ≤ snDiffLastSubmit ∧ snDiffLastSubmit > window) ∨
      (0 ≤ lastSubmitDiffSn ∧ lastSubmitDiffSn < window) then
    -- outside the reordering window or already submitted
    if sn > e.nextPdcpRxSn then (e, e.countOf (Word.sub32 e.rxHfn 1) sn, true)
    else (e, e.countOf e.rxHfn sn, true)
  else
    let e' := { e with lastSubmittedPdcpRxSn := sn }
    if Word.toInt32 (Word.sub32 e.nextPdcpRxSn sn) > window then
      let hfn := (e.rxHfn + 1) % 2 ^ 32
      ({ e' with rxHfn := hfn, nextPdcpRxSn := sn + 1 }, e.countOf hfn sn, false)
    else if snDiffNextPdcpRxSn ≥ window then (e', e.countOf (Word.sub32 e.rxHfn 1) sn, false)
    else if sn ≥ e.nextPdcpRxSn then
      if sn + 1 > e.maximumPdcpSn then
        ({ e' with nextPdcpRxSn := 0, rxHfn := (e.rxHfn + 1) % 2 ^ 32 },
          e.countOf e.rxHfn sn, false)
      else ({ e' with nextPdcpRxSn := sn + 1 }, e.countOf e.rxHfn sn, false)
    else (e', e.countOf e.rxHfn sn, false)

def handleAmDrbPdu (e : PdcpEntityLte) (pdu : Bytes) : PdcpRxResult :=
  let (sn, sdu) := pdcpUnpackDataPduLongSn pdu
  let (e', count, discard) := e.amDrbCount sn
  -- `write_pdu` hands the buffer to the gateway whatever `discard` says
  { entity := e', outcome := .toGw (e.cipherDecrypt sec sdu count),
    securityCounts := [count], discard := discard }

/-- The SRB branch of `write_pdu`. -/
def handleSrbPdu (e : PdcpEntityLte) (pdu : Bytes) : PdcpRxResult :=
  let sn := (pdu.getD 0 0).toNat &&& 0x1F
  let pdu := if e.doEncryption then
      pdu.take e.cfg.hdrLenBytes ++ e.cipherDecrypt sec (pdu.drop e.cfg.hdrLenBytes) sn
    else pdu
  let msg := pdu.take (pdu.length - 4)
  let mac := pdu.drop (pdu.length - 4)
  let counts := (if e.doEncryption then [sn] else []) ++ (if e.doIntegrity then [sn] else [])
  let outcome :=
    if e.doIntegrity ∧ pdu.length < 4 then .wrapped
    else if e.doIntegrity ∧ ¬ e.integrityVerify sec msg sn mac then .dropped
    else if pdu.length < 5 then .wrapped
    else .toRrc (msg.drop 1)
  { entity := e, outcome := outcome, securityCounts := counts, discard := false }

/-- `write_pdu`; `rbIsUm` is the answer of `rlc->rb_is_um(lcid)`. -/
def writePdu (rbIsUm : Bool) (e : PdcpEntityLte) (pdu : Bytes) : PdcpRxResult :=
  if pdu.length ≤ e.cfg.hdrLenBytes then
    { entity := e, outcome := .dropped, securityCounts := [], discard := false }
  else
    let r := if e.isDrb then
        if rbIsUm then e.handleUmDrbPdu sec pdu else e.handleAmDrbPdu sec pdu
      else e.handleSrbPdu sec pdu
    { r with entity := { r.entity with rxCount := (r.entity.rxCount + 1) % 2 ^ 32 } }

/-- The PDUs of a sequence of `write_sdu` calls. -/
def sendAll (e : PdcpEntityLte) : List Bytes → List Bytes
  | [] => []
  | sdu :: sdus => (e.writeSdu sec sdu).2 :: sendAll (e.writeSdu sec sdu).1 sdus

/-- The results of a sequence of `write_pdu` calls. -/
def receiveAll (rbIsUm : Bool) (e : PdcpEntityLte) : List Bytes → List PdcpRxResult
  | [] => []
  | pdu :: pdus => e.writePdu sec rbIsUm pdu ::
      receiveAll rbIsUm (e.writePdu sec rbIsUm pdu).entity pdus

end PdcpEntityLte
end SrsLte

/-!
Each receive path is specified by the COUNT the entity expects next. The AM path accepts the 2048
serial numbers from the expected one on and reconstructs the COUNT of the 2048 before it. The UM
path takes every serial number as a COUNT not below the expected one. The SRB path has no HFN.
-/

namespace SrsLte
namespace PdcpEntityLte

open Word

variable (sec : SecurityLib)

theorem and_0x1F (n : ℕ) : n &&& 0x1F = n % 32 := Nat.and_two_pow_sub_one_eq_mod n 5

theorem and_0x7F (n : ℕ) : n &&& 0x7F = n % 128 := Nat.and_two_pow_sub_one_eq_mod n 7

theorem and_0x0F (n : ℕ) : n &&& 0x0F = n % 16 := Nat.and_two_pow_sub_one_eq_mod n 4

theorem and_0xFF (n : ℕ) : n &&& 0xFF = n % 256 := Nat.and_two_pow_sub_one_eq_mod n 8

theorem unpack_pack_shortSn (count : ℕ) (sdu : Bytes) :
    pdcpUnpackDataPduShortSn (pdcpPackDataPduShortSn count sdu) = (count % 128, sdu) := by
  have hbits : ∀ x < 128, (UInt8.ofNat ((1 <<< 7) ||| x)).toNat &&& 0x7F = x := by decide
  unfold pdcpUnpackDataPduShortSn pdcpPackDataPduShortSn
  rw [and_0x7F count]
  exact Prod.ext (hbits _ (Nat.mod_lt _ (by decide))) rfl

theorem unpack_pack_longSn (count : ℕ) (sdu : Bytes) :
    pdcpUnpackDataPduLongSn (pdcpPackDataPduLongSn count sdu) = (count % 4096, sdu) := by
  have hbits : ∀ x < 16, (UInt8.ofNat ((1 <<< 7) ||| x)).toNat &&& 0x0F = x := by decide
  have hhi := hbits (count / 256 % 16) (Nat.mod_lt _ (by decide))
  have hlo : count % 256 < 2 ^ 8 := Nat.mod_lt _ (by decide)
  have hlow : (UInt8.ofNat (count % 256)).toNat = count % 256 := by simp
  unfold pdcpUnpackDataPduLongSn pdcpPackDataPduLongSn
  rw [and_0x0F (count >>> 8), and_0xFF count, Nat.shiftRight_eq_div_pow]
  refine Prod.ext ?_ rfl
  change ((UInt8.ofNat ((1 <<< 7) ||| count / 256 % 16)).toNat &&& 0x0F) <<< 8 |||
    (UInt8.ofNat (count % 256)).toNat = count % 4096
  rw [hhi, hlow, ← Nat.shiftLeft_add_eq_or_of_lt hlo, Nat.shiftLeft_eq]
  omega

/-- The receiver of an AM DRB expects COUNT `n` next. -/
structure AmExpects (e : PdcpEntityLte) (n : ℕ) : Prop where
  isDrb : e.cfg.rbType = .isDrb
  snLen : e.cfg.snLen = 12
  window : e.reorderingWindow = 2048
  maxSn : e.maximumPdcpSn = 4095
  last : e.lastSubmittedPdcpRxSn = (n + 4095) % 4096
  next : e.nextPdcpRxSn = n % 4096
  hfn : e.rxHfn = n / 4096 % 2 ^ 32

variable {b : PdcpEntityBase} {w n c : ℕ} {e : PdcpEntityLte}

theorem amExpects_init (hdrb : b.cfg.rbType = .isDrb)
    (hsn : b.cfg.snLen = 12) : AmExpects (init b) 0 := by
  constructor <;> simp [init, hdrb, hsn, PdcpEntityBase.isSrb]

theorem countOf_of_snLen (hw : b.cfg.snLen = w) (hw' : w ≤ 32)
    {sn : ℕ} (hsn : sn < 2 ^ w) (hfn : ℕ) : b.countOf hfn sn = (hfn * 2 ^ w + sn) % 2 ^ 32 := by
  unfold PdcpEntityBase.countOf
  rw [hw]
  exact concat32_eq hw' hsn hfn

/-- Any COUNT within 2048 of the expected one is found; it is discarded if it is older. -/
theorem amDrbCount_near (he : AmExpects e n) (hhi : c < n + 2048) (hlo : n ≤ c + 2048) :
    ∃ e', e.amDrbCount (c % 4096) = (e', c % 2 ^ 32, decide (c < n)) ∧
      AmExpects e' (max n (c + 1)) ∧ e'.toPdcpEntityBase = e.toPdcpEntityBase ∧
      (c < n → e' = e) := by
  obtain ⟨hdrb, hsnLen, hwin, hmax, hlast, hnext, hhfn⟩ := id he
  have hcount (hfn : ℕ) : e.countOf hfn (c % 4096) = (hfn * 4096 + c % 4096) % 2 ^ 32 :=
    countOf_of_snLen hsnLen (by decide) (Nat.mod_lt _ (by decide)) hfn
  have hlt : n % 4096 < 4096 := Nat.mod_lt _ (by decide)
  have hlt' : (n + 4095) % 4096 < 4096 := Nat.mod_lt _ (by decide)
  have hlt'' : c % 4096 < 4096 := Nat.mod_lt _ (by decide)
  have hwin' : toInt32 2048 = 2048 := by decide
  unfold amDrbCount
  rw [hlast, hnext, hwin, hhfn, hmax]
  simp only [hcount, hwin']
  rw [toInt32_sub32 (by omega) (by omega), toInt32_sub32 (by omega) (by omega),
    toInt32_sub32 (by omega) (by omega), toInt32_sub32 (by omega) (by omega)]
  by_cases hnew : n ≤ c
  · rw [Nat.max_eq_right (by omega), decide_eq_false (by omega)]
    split_ifs
    any_goals omega
    all_goals refine ⟨_, Prod.ext rfl (Prod.ext ?_ rfl), ?_, rfl, fun hold => by omega⟩
    any_goals (simp only; omega)
    all_goals exact ⟨hdrb, hsnLen, rfl, rfl, by simp only; omega, by simp only; omega,
      by simp only; omega⟩
  · rw [Nat.max_eq_left (by omega), decide_eq_true (by omega)]
    unfold sub32
    split_ifs
    any_goals omega
    all_goals exact ⟨e, Prod.ext rfl (Prod.ext (by simp only; omega) rfl), he, rfl, fun _ => rfl⟩

/-- The receiver of a UM DRB with a `w`-bit SN expects COUNT `n` next. -/
structure UmExpects (w : ℕ) (e : PdcpEntityLte) (n : ℕ) : Prop where
  isDrb : e.cfg.rbType = .isDrb
  snLen : e.cfg.snLen = w
  maxSn : e.maximumPdcpSn = 2 ^ w - 1
  next : e.nextPdcpRxSn = n % 2 ^ w
  hfn : e.rxHfn = n / 2 ^ w % 2 ^ 32

theorem umExpects_init (hdrb : b.cfg.rbType = .isDrb)
    (hsn : b.cfg.snLen = w) : UmExpects w (init b) 0 := by
  constructor <;> simp [init, hdrb, hsn, Nat.shiftLeft_eq]

theorem umDrbCount_eq (hw : w = 7 ∨ w = 12)
    (he : UmExpects w e n) (hlo : n ≤ c) (hhi : c < n + 2 ^ w) :
    ∃ e', e.umDrbCount (c % 2 ^ w) = (e', c % 2 ^ 32) ∧ UmExpects w e' (c + 1) ∧
      e'.toPdcpEntityBase = e.toPdcpEntityBase := by
  obtain ⟨hdrb, hsnLen, hmax, hnext, hhfn⟩ := he
  have hcount (hfn : ℕ) : Word.concat32 e.cfg.snLen hfn (c % 2 ^ w) =
      (hfn * 2 ^ w + c % 2 ^ w) % 2 ^ 32 :=
    countOf_of_snLen hsnLen (by omega) (Nat.mod_lt _ (Nat.two_pow_pos w)) hfn
  unfold umDrbCount PdcpEntityBase.countOf
  rw [hnext]
  simp only
  split_ifs with hlt hwrap hwrap
  all_goals
    refine ⟨_, Prod.ext rfl ?_, ?_, rfl⟩
    · simp only [hcount, hhfn]
      rcases hw with rfl | rfl <;> omega
    · simp only [hmax, hhfn] at hwrap ⊢
      constructor <;> simp only [hdrb, hsnLen]
      all_goals rcases hw with rfl | rfl <;> omega

end PdcpEntityLte
end SrsLte

/-!
`write_pdu` compares the length of a PDU with the length of its header only, and every PDU that
passes this check is counted in `rx_count`. A PDU that ends inside its header or MAC-I, or whose
MAC-I does not verify, leaves no trace exactly when this first check already drops it.
-/

namespace SrsLte

def PdcpRxOutcome.delivered : PdcpRxOutcome → Bool
  | toGw _ | toRrc _ => true
  | dropped | wrapped => false

namespace PdcpEntityLte

variable (sec : SecurityLib) (rbIsUm : Bool) (e : PdcpEntityLte) (pdu : Bytes)

def rxCounters (e : PdcpEntityLte) : ℕ × ℕ × ℕ × ℕ :=
  (e.rxCount, e.rxHfn, e.nextPdcpRxSn, e.lastSubmittedPdcpRxSn)

/-- The header of a DRB PDU, or the header and MAC-I of an SRB PDU, as `write_pdu` strips them. -/
def headerAndMacLen : ℕ :=
  if e.isDrb then if rbIsUm ∧ e.cfg.snLen ≠ 12 then 1 else 2 else 5

def plainSrbPdu : Bytes :=
  if e.doEncryption then
    pdu.take e.cfg.hdrLenBytes ++
      e.cipherDecrypt sec (pdu.drop e.cfg.hdrLenBytes) ((pdu.getD 0 0).toNat &&& 0x1F)
  else pdu

/-- The last four bytes of the SRB PDU are not the MAC-I of the bytes in front of them. -/
def FailsIntegrity : Prop :=
  e.isDrb = false ∧ e.doIntegrity = true ∧
    e.integrityVerify sec ((e.plainSrbPdu sec pdu).take (pdu.length - 4))
      ((pdu.getD 0 0).toNat &&& 0x1F) ((e.plainSrbPdu sec pdu).drop (pdu.length - 4)) = false

instance : Decidable (e.FailsIntegrity sec pdu) := inferInstanceAs (Decidable (_ ∧ _ ∧ _))

/-- A subtraction from `N_bytes` underflows while the PDU is handled. -/
def Underflows : Prop :=
  (e.writePdu sec rbIsUm pdu).outcome = .wrapped ∨
    (e.isDrb = true ∧ e.cfg.hdrLenBytes < pdu.length ∧ pdu.length < e.headerAndMacLen rbIsUm)

/-- `write_pdu` is robust against the PDU. -/
structure RejectsInvalid : Prop where
  noUnderflow : ¬ e.Underflows sec rbIsUm pdu
  notDelivered : pdu.length < e.headerAndMacLen rbIsUm ∨ e.FailsIntegrity sec pdu →
    (e.writePdu sec rbIsUm pdu).outcome.delivered = false
  countersKept : pdu.length < e.headerAndMacLen rbIsUm ∨ e.FailsIntegrity sec pdu →
    (e.writePdu sec rbIsUm pdu).entity.rxCounters = e.rxCounters

/-- The first check of `write_pdu` drops the PDU, or the PDU has its header and a valid MAC-I. -/
def RegularPdu : Prop :=
  pdu.length ≤ e.cfg.hdrLenBytes ∨
    (e.headerAndMacLen rbIsUm ≤ pdu.length ∧ ¬ e.FailsIntegrity sec pdu)

theorem writePdu_short (h : pdu.length ≤ e.cfg.hdrLenBytes) :
    e.writePdu sec rbIsUm pdu =
      { entity := e, outcome := .dropped, securityCounts := [], discard := false } := by
  rw [writePdu, if_pos h]

theorem length_plainSrbPdu (h : e.cfg.hdrLenBytes < pdu.length) :
    (e.plainSrbPdu sec pdu).length = pdu.length := by
  unfold plainSrbPdu
  split_ifs
  · have hdec : (e.cipherDecrypt sec (pdu.drop e.cfg.hdrLenBytes)
        ((pdu.getD 0 0).toNat &&& 0x1F)).length = pdu.length - e.cfg.hdrLenBytes := by
      unfold PdcpEntityBase.cipherDecrypt
      split_ifs <;> simp
    rw [List.length_append, hdec, List.length_take]
    omega
  · rfl

section

variable (hlen : e.cfg.hdrLenBytes < pdu.length)
include hlen

theorem handleSrbPdu_outcome (hdrb : e.isDrb = false) :
    (e.handleSrbPdu sec pdu).outcome =
      if e.doIntegrity = true ∧ pdu.length < 4 then .wrapped
      else if e.FailsIntegrity sec pdu then .dropped
      else if pdu.length < 5 then .wrapped
      else .toRrc (((e.plainSrbPdu sec pdu).take (pdu.length - 4)).drop 1) := by
  have hplain := e.length_plainSrbPdu sec pdu hlen
  change (if e.doIntegrity = true ∧ (e.plainSrbPdu sec pdu).length < 4 then PdcpRxOutcome.wrapped
    else if e.doIntegrity = true ∧ ¬ e.integrityVerify sec
        ((e.plainSrbPdu sec pdu).take ((e.plainSrbPdu sec pdu).length - 4))
        ((pdu.getD 0 0).toNat &&& 0x1F)
        ((e.plainSrbPdu sec pdu).drop ((e.plainSrbPdu sec pdu).length - 4)) = true then .dropped
    else if (e.plainSrbPdu sec pdu).length < 5 then .wrapped
    else .toRrc (((e.plainSrbPdu sec pdu).take ((e.plainSrbPdu sec pdu).length - 4)).drop 1)) = _
  simp only [hplain, FailsIntegrity, hdrb, true_and, Bool.not_eq_true]

theorem writePdu_rxCounters_ne (hdrb : e.isDrb = false) :
    (e.writePdu sec rbIsUm pdu).entity.rxCounters ≠ e.rxCounters := by
  rw [writePdu, if_neg (by omega), hdrb]
  intro h
  have hcount : (e.rxCount + 1) % 2 ^ 32 = e.rxCount := congrArg Prod.fst h
  omega

theorem writePdu_drb_delivered (hdrb : e.isDrb = true) :
    (e.writePdu sec rbIsUm pdu).outcome.delivered = true := by
  rw [writePdu, if_neg (by omega), if_pos hdrb]
  cases rbIsUm with
  | false => rfl
  | true =>
    simp only [if_true, handleUmDrbPdu]
    split_ifs <;> rfl

end

theorem rejectsInvalid_of_short (h : pdu.length ≤ e.cfg.hdrLenBytes) :
    e.RejectsInvalid sec rbIsUm pdu := by
  have hrun := e.writePdu_short sec rbIsUm pdu h
  refine ⟨?_, fun _ => by rw [hrun]; rfl, fun _ => by rw [hrun]⟩
  rintro (hwrap | ⟨-, hlen, -⟩)
  · rw [hrun] at hwrap
    cases hwrap
  · omega

theorem rejectsInvalid_drb_iff (hlen : e.cfg.hdrLenBytes < pdu.length) (hdrb : e.isDrb = true) :
    e.RejectsInvalid sec rbIsUm pdu ↔ e.headerAndMacLen rbIsUm ≤ pdu.length := by
  have hdel := e.writePdu_drb_delivered sec rbIsUm pdu hlen hdrb
  have hvalid : ¬ e.FailsIntegrity sec pdu := fun hf => by simp [hf.1] at hdrb
  constructor
  · intro h
    by_contra hshort
    exact h.noUnderflow (Or.inr ⟨hdrb, hlen, by omega⟩)
  · intro h
    have hnone : ¬ (pdu.length < e.headerAndMacLen rbIsUm ∨ e.FailsIntegrity sec pdu) := by
      rintro (hshort | hf)
      · omega
      · exact hvalid hf
    refine ⟨?_, fun hf => absurd hf hnone, fun hf => absurd hf hnone⟩
    rintro (hwrap | ⟨-, -, hshort⟩)
    · rw [hwrap] at hdel
      cases hdel
    · omega

theorem rejectsInvalid_srb_iff (hlen : e.cfg.hdrLenBytes < pdu.length) (hdrb : e.isDrb = false) :
    e.RejectsInvalid sec rbIsUm pdu ↔ 5 ≤ pdu.length ∧ ¬ e.FailsIntegrity sec pdu := by
  have hne := e.writePdu_rxCounters_ne sec rbIsUm pdu hlen hdrb
  have hmac : e.headerAndMacLen rbIsUm = 5 := by simp [headerAndMacLen, hdrb]
  have hout : (e.writePdu sec rbIsUm pdu).outcome = (e.handleSrbPdu sec pdu).outcome := by
    rw [writePdu, if_neg (by omega), hdrb]
    rfl
  constructor
  · intro h
    have hvalid : ¬ (pdu.length < e.headerAndMacLen rbIsUm ∨ e.FailsIntegrity sec pdu) :=
      fun hf => hne (h.countersKept hf)
    rw [hmac, not_or] at hvalid
    exact ⟨by omega, hvalid.2⟩
  · rintro ⟨h5, hvalid⟩
    have hnone : ¬ (pdu.length < e.headerAndMacLen rbIsUm ∨ e.FailsIntegrity sec pdu) := by
      rw [hmac]
      rintro (hshort | hf)
      · omega
      · exact hvalid hf
    refine ⟨?_, fun hf => absurd hf hnone, fun hf => absurd hf hnone⟩
    rintro (hwrap | ⟨h, -⟩)
    · rw [hout, e.handleSrbPdu_outcome sec pdu hlen hdrb, if_neg (by omega), if_neg hvalid,
        if_neg (by omega)] at hwrap
      cases hwrap
    · simp [h] at hdrb

theorem rejectsInvalid_iff_regular :
    e.RejectsInvalid sec rbIsUm pdu ↔ e.RegularPdu sec rbIsUm pdu := by
  unfold RegularPdu
  rcases Nat.lt_or_ge e.cfg.hdrLenBytes pdu.length with hlen | hshort
  · rw [or_iff_right (by omega)]
    cases hdrb : e.isDrb with
    | true =>
      rw [e.rejectsInvalid_drb_iff sec rbIsUm pdu hlen hdrb, iff_self_and]
      intro _ hf
      simp [hf.1] at hdrb
    | false =>
      rw [e.rejectsInvalid_srb_iff sec rbIsUm pdu hlen hdrb]
      simp [headerAndMacLen, hdrb]
  · exact ⟨fun _ => Or.inl hshort, fun _ => e.rejectsInvalid_of_short sec rbIsUm pdu hshort⟩

/-- Two bytes on an SRB without security: the MAC-I is stripped from a PDU that has none. -/
theorem two_byte_srb_pdu_wraps :
    ¬ ∀ (sec : SecurityLib) (rbIsUm : Bool) (e : PdcpEntityLte) (pdu : Bytes),
      e.RejectsInvalid sec rbIsUm pdu := by
  intro h
  let srb : PdcpEntityBase :=
    { cfg := ⟨1, .isSrb, .downlink, .uplink, 5⟩, doIntegrity := false, doEncryption := false,
      kRrcEnc := [], kRrcInt := [], kUpEnc := [], kUpInt := [], cipherAlgo := .eea0,
      integAlgo := .eia0 }
  let sec : SecurityLib := ⟨fun _ _ _ _ _ _ => 0, fun _ _ _ _ _ _ => ⟨[0, 0, 0, 0], rfl⟩⟩
  have hwraps : ((init srb).writePdu sec false [0, 0]).outcome = .wrapped := by
    simp [writePdu, handleSrbPdu, PdcpEntityBase.isDrb, init, srb, PdcpConfig.hdrLenBytes]
  exact (h sec false (init srb) [0, 0]).noUnderflow (Or.inl hwraps)

end PdcpEntityLte
end SrsLte
