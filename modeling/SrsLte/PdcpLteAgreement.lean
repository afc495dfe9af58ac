import SrsLte.PdcpLte

/-!
# COUNT agreement between LTE PDCP peers

A sender protects SDU number `c` with COUNT `c`. `Expects` is the invariant that relates the
receiver to the COUNT it expects next, for each bearer type. One received PDU preserves it, is
deciphered and verified with the COUNT of its sender and gives back the SDU; on an SRB, whose
receiver passes the five-bit SN as COUNT, only while the COUNT is below 32.
-/

namespace SrsLte

inductive LteBearer
  | srb
  | umDrbShort
  | umDrbLong
  | amDrb
  deriving DecidableEq

namespace LteBearer

def snLen : LteBearer → ℕ
  | srb => 5
  | umDrbShort => 7
  | umDrbLong => 12
  | amDrb => 12

def rbType : LteBearer → PdcpRbType
  | srb => .isSrb
  | _ => .isDrb

/-- `rlc->rb_is_um(lcid)`. -/
def rbIsUm : LteBearer → Bool
  | umDrbShort | umDrbLong => true
  | _ => false

/-- The configuration of entity `b` is that of bearer `bt`. -/
def Configures (bt : LteBearer) (b : PdcpEntityBase) : Prop :=
  b.cfg.rbType = bt.rbType ∧ b.cfg.snLen = bt.snLen

def delivery (bt : LteBearer) (sdu : Bytes) : PdcpRxOutcome :=
  if bt = srb then .toRrc sdu else .toGw sdu

/-- The COUNTs of the arriving PDUs stay within half the SN space of the COUNT expected next, and
only an AM bearer lets a PDU arrive behind it. -/
def WithinHalf (bt : LteBearer) : ℕ → List ℕ → Prop
  | _, [] => True
  | n, c :: cs => (bt ≠ amDrb → n ≤ c) ∧ c < n + 2 ^ (bt.snLen - 1) ∧ n < c + 2 ^ (bt.snLen - 1) ∧
      bt.WithinHalf (max n (c + 1)) cs

end LteBearer

namespace PdcpEntityLte

open LteBearer

variable (sec : SecurityLib)

/-- The entity after `c` calls of `write_sdu`. -/
def atCount (e : PdcpEntityLte) (c : ℕ) : PdcpEntityLte := { e with txCount := c % 2 ^ 32 }

/-- PDU number `c` of the sender. -/
def sentPdu (b : PdcpEntityBase) (sdus : List Bytes) (c : ℕ) : Bytes :=
  (sendAll sec (init b) sdus).getD c []

theorem writeSdu_atCount (e : PdcpEntityLte) (c : ℕ) (sdu : Bytes) :
    ((e.atCount c).writeSdu sec sdu).1 = e.atCount (c + 1) := by
  change { e with txCount := (c % 2 ^ 32 + 1) % 2 ^ 32 } = { e with txCount := (c + 1) % 2 ^ 32 }
  rw [Nat.mod_add_mod]

theorem sendAll_getD (e : PdcpEntityLte) (sdus : List Bytes) (k c : ℕ) (hc : c < sdus.length) :
    (sendAll sec (e.atCount k) sdus).getD c [] =
      ((e.atCount (k + c)).writeSdu sec (sdus.getD c [])).2 := by
  induction sdus generalizing k c with
  | nil => exact absurd hc (Nat.not_lt_zero c)
  | cons sdu sdus ih =>
    rw [sendAll, writeSdu_atCount]
    cases c with
    | zero => rfl
    | succ c =>
      have h := ih (k + 1) c (Nat.lt_of_succ_lt_succ hc)
      simpa only [List.getD_cons_succ, Nat.add_assoc, Nat.add_comm 1 c] using h

theorem sentPdu_eq (b : PdcpEntityBase) (sdus : List Bytes) (c : ℕ) (hc : c < sdus.length) :
    sentPdu sec b sdus c = (((init b).atCount c).writeSdu sec (sdus.getD c [])).2 := by
  have h := sendAll_getD sec (init b) sdus 0 c hc
  rw [Nat.zero_add] at h
  exact h

variable {bt : LteBearer} {b : PdcpEntityBase} {e : PdcpEntityLte} {c n : ℕ}

theorem sentPdu_drb (hbt : bt ≠ srb) (hcfg : bt.Configures b)
    (sdus : List Bytes) (c : ℕ) (hc : c < sdus.length) :
    sentPdu sec b sdus c =
      (if bt.snLen = 12 then pdcpPackDataPduLongSn else pdcpPackDataPduShortSn) (c % 2 ^ 32)
        (if b.doEncryption then b.cipherEncrypt sec (sdus.getD c []) (c % 2 ^ 32)
          else sdus.getD c []) := by
  obtain ⟨hrb, hsn⟩ := hcfg
  have hsrb : b.isSrb = false := by
    cases bt <;> simp [PdcpEntityBase.isSrb, hrb, LteBearer.rbType] at hbt ⊢
  rw [sentPdu_eq sec b sdus c hc]
  simp only [writeSdu, packSdu, atCount, init, hsrb, hsn, PdcpConfig.hdrLenBytes]
  cases bt <;> cases b.doEncryption <;> first | exact absurd rfl hbt | rfl

theorem sentPdu_srb (hcfg : srb.Configures b) (sdus : List Bytes) (c : ℕ) (hc : c < sdus.length) :
    ∃ mac : Bytes, mac.length = 4 ∧
      (b.doIntegrity = true → mac = b.integrityGenerate sec
        (UInt8.ofNat (c % 2 ^ 32 &&& 0x1F) :: sdus.getD c []) (c % 2 ^ 32) [0, 0, 0, 0]) ∧
      sentPdu sec b sdus c = UInt8.ofNat (c % 2 ^ 32 &&& 0x1F) ::
        (if b.doEncryption then b.cipherEncrypt sec (sdus.getD c [] ++ mac) (c % 2 ^ 32)
          else sdus.getD c [] ++ mac) := by
  obtain ⟨hrb, hsn⟩ := hcfg
  have hsrb : b.isSrb = true := by simp [PdcpEntityBase.isSrb, hrb, LteBearer.rbType]
  have hhdr : b.cfg.hdrLenBytes = 1 := by rw [PdcpConfig.hdrLenBytes, hsn]; rfl
  rw [sentPdu_eq sec b sdus c hc]
  generalize sdus.getD c [] = sdu
  have htake (x : UInt8) : (x :: sdu ++ [0, 0, 0, 0]).take ((x :: sdu ++ [0, 0, 0, 0]).length - 4) =
      x :: sdu := by simp
  have hdrop (x : UInt8) : (x :: sdu ++ [0, 0, 0, 0]).drop ((x :: sdu ++ [0, 0, 0, 0]).length - 4) =
      [0, 0, 0, 0] := by simp
  cases hint : b.doIntegrity with
  | false =>
    refine ⟨[0, 0, 0, 0], rfl, fun h => absurd h (by simp), ?_⟩
    simp only [writeSdu, packSdu, atCount, init, hsrb, hint, hhdr, pdcpPackControlPdu]
    cases b.doEncryption <;> rfl
  | true =>
    refine ⟨_, b.length_integrityGenerate sec _ _ _ rfl, fun _ => rfl, ?_⟩
    simp only [writeSdu, packSdu, atCount, init, hsrb, hint, hhdr, pdcpPackControlPdu, htake, hdrop]
    cases b.doEncryption <;> rfl

/-- The receiving peer of sender `b` on bearer `bt` expects COUNT `n` next. -/
def Expects (bt : LteBearer) (b : PdcpEntityBase) (e : PdcpEntityLte) (n : ℕ) : Prop :=
  e.toPdcpEntityBase = b.peer ∧
    match bt with
    | srb => True
    | umDrbShort => UmExpects 7 e n
    | umDrbLong => UmExpects 12 e n
    | amDrb => AmExpects e n

theorem expects_init (hcfg : bt.Configures b) :
    Expects bt b (init b.peer) 0 := by
  refine ⟨rfl, ?_⟩
  cases bt with
  | srb => trivial
  | umDrbShort => exact umExpects_init hcfg.1 hcfg.2
  | umDrbLong => exact umExpects_init hcfg.1 hcfg.2
  | amDrb => exact amExpects_init hcfg.1 hcfg.2

/-- The result of `write_pdu` on PDU number `c` uses the COUNT of the sender and delivers its
SDU. -/
def Agrees (bt : LteBearer) (sdus : List Bytes) (c : ℕ) (r : PdcpRxResult) : Prop :=
  (∀ k ∈ r.securityCounts, k = c % 2 ^ 32) ∧ r.outcome = bt.delivery (sdus.getD c [])

/-- PDU number `c` is protected in a way the receiver can undo. -/
def Recoverable (bt : LteBearer) (b : PdcpEntityBase) (sdus : List Bytes) (c : ℕ) : Prop :=
  (bt ≠ srb → sdus.getD c [] ≠ []) ∧
    (bt = srb → b.doEncryption ∨ b.doIntegrity → c % 2 ^ 32 < 32) ∧
    (bt = amDrb → b.doEncryption ∨ b.cipherAlgo = .eea0)

theorem decipher_of_count (he : e.toPdcpEntityBase = b.peer) (sdu : Bytes) (count : ℕ)
    (henc : b.doEncryption ∨ b.cipherAlgo = .eea0) :
    e.cipherDecrypt sec (if b.doEncryption then b.cipherEncrypt sec sdu count else sdu) count =
      sdu := by
  rw [he]
  cases hd : b.doEncryption with
  | true => exact b.peer_cipherDecrypt_cipherEncrypt sec sdu count
  | false =>
    have h0 : b.cipherAlgo = .eea0 := by simpa [hd] using henc
    unfold PdcpEntityBase.cipherDecrypt
    exact if_pos h0

theorem isDrb_of_peer (hcfg : bt.Configures b)
    (he : e.toPdcpEntityBase = b.peer) : e.isDrb = decide (bt ≠ srb) := by
  rw [he]
  change decide (b.cfg.rbType = .isDrb) = _
  rw [hcfg.1]
  cases bt <;> rfl

theorem snLen_of_peer (hcfg : bt.Configures b)
    (he : e.toPdcpEntityBase = b.peer) : e.cfg.snLen = bt.snLen := by
  rw [he]
  exact hcfg.2

theorem sn_srb (count : ℕ) :
    (UInt8.ofNat (count &&& 0x1F)).toNat &&& 0x1F = count % 32 := by
  rw [and_0x1F, and_0x1F, UInt8.toNat_ofNat']
  omega

section

variable (hcfg : srb.Configures b) (he : e.toPdcpEntityBase = b.peer) (sdus : List Bytes)
  (hc : c < sdus.length)
include hcfg he sdus hc

theorem received_srb :
    e.cfg.hdrLenBytes = 1 ∧ ¬ (sentPdu sec b sdus c).length ≤ e.cfg.hdrLenBytes ∧
      e.doEncryption = b.doEncryption ∧ e.doIntegrity = b.doIntegrity := by
  obtain ⟨mac, hmac, -, hpdu⟩ := sentPdu_srb sec hcfg sdus c hc
  have hhdr : e.cfg.hdrLenBytes = 1 := by rw [PdcpConfig.hdrLenBytes, snLen_of_peer hcfg he]; rfl
  refine ⟨hhdr, ?_, by rw [he]; rfl, by rw [he]; rfl⟩
  rw [hpdu, hhdr]
  cases b.doEncryption <;> simp [hmac]

theorem writePdu_srb_securityCounts :
    (e.writePdu sec false (sentPdu sec b sdus c)).securityCounts =
      (if b.doEncryption then [c % 2 ^ 32 % 32] else []) ++
        (if b.doIntegrity then [c % 2 ^ 32 % 32] else []) := by
  obtain ⟨mac, -, -, hpdu⟩ := sentPdu_srb sec hcfg sdus c hc
  obtain ⟨-, hlen, henc, hint⟩ := received_srb sec hcfg he sdus hc
  rw [writePdu, if_neg hlen, isDrb_of_peer hcfg he, hpdu]
  simp only [handleSrbPdu, henc, hint, List.getD_cons_zero, sn_srb, ne_eq, not_true_eq_false,
    decide_false, Bool.false_eq_true, if_false]

theorem writePdu_srb (hcount : b.doEncryption ∨ b.doIntegrity → c % 2 ^ 32 < 32) :
    Agrees srb sdus c (e.writePdu sec false (sentPdu sec b sdus c)) := by
  constructor
  · rw [writePdu_srb_securityCounts sec hcfg he sdus hc]
    intro k hk
    have hk' : (b.doEncryption ∨ b.doIntegrity) ∧ k = c % 2 ^ 32 % 32 := by
      cases henc : b.doEncryption <;> cases hint : b.doIntegrity <;> simp [henc, hint] at hk ⊢
      all_goals exact hk
    rw [hk'.2, Nat.mod_eq_of_lt (hcount hk'.1)]
  obtain ⟨mac, hmac, hgen, hpdu⟩ := sentPdu_srb sec hcfg sdus c hc
  obtain ⟨hhdr, hlen, henc, hint⟩ := received_srb sec hcfg he sdus hc
  generalize sdus.getD c [] = sdu at *
  -- deciphering restores the plain PDU
  have hplain : (if e.doEncryption then
      (sentPdu sec b sdus c).take 1 ++
        e.cipherDecrypt sec ((sentPdu sec b sdus c).drop 1) (c % 2 ^ 32 % 32)
      else sentPdu sec b sdus c) = UInt8.ofNat (c % 2 ^ 32 &&& 0x1F) :: (sdu ++ mac) := by
    rw [hpdu, henc]
    cases hd : b.doEncryption with
    | false => rfl
    | true =>
      rw [Nat.mod_eq_of_lt (hcount (Or.inl hd)), he]
      simp [b.peer_cipherDecrypt_cipherEncrypt sec]
  have hverify : e.doIntegrity = true → e.integrityVerify sec
      (UInt8.ofNat (c % 2 ^ 32 &&& 0x1F) :: sdu) (c % 2 ^ 32 % 32) mac = true := by
    intro hi
    rw [hint] at hi
    rw [Nat.mod_eq_of_lt (hcount (Or.inr hi)), he, hgen hi]
    exact b.peer_integrityVerify_integrityGenerate sec _ _ _
  have hsn : ((sentPdu sec b sdus c).getD 0 0).toNat &&& 0x1F = c % 2 ^ 32 % 32 := by
    rw [hpdu, List.getD_cons_zero, sn_srb]
  have htake (x : UInt8) :
      (x :: (sdu ++ mac)).take ((x :: (sdu ++ mac)).length - 4) = x :: sdu := by
    simp [hmac]
  have hdrop (x : UInt8) : (x :: (sdu ++ mac)).drop ((x :: (sdu ++ mac)).length - 4) = mac := by
    simp [hmac]
  have hlong (x : UInt8) : ¬ (x :: (sdu ++ mac)).length < 5 := by simp [hmac]
  have hlong' (x : UInt8) : ¬ (x :: (sdu ++ mac)).length < 4 := by simp [hmac]
  rw [writePdu, if_neg hlen, isDrb_of_peer hcfg he]
  simp only [handleSrbPdu, hsn, hhdr, hplain, htake, hdrop, hlong, hlong', and_false, if_false]
  cases hi : e.doIntegrity with
  | false => rfl
  | true =>
    rw [hverify hi]
    rfl

end

section

variable (hbt : bt ≠ srb) (hcfg : bt.Configures b)
include hbt hcfg

theorem length_sentPdu_drb (sdus : List Bytes) (hc : c < sdus.length) :
    (sentPdu sec b sdus c).length = b.cfg.hdrLenBytes + (sdus.getD c []).length := by
  rw [sentPdu_drb sec hbt hcfg sdus c hc, PdcpConfig.hdrLenBytes, hcfg.2]
  cases bt with
  | srb => exact absurd rfl hbt
  | umDrbShort =>
    cases b.doEncryption <;> simp [LteBearer.snLen, pdcpPackDataPduShortSn, Nat.add_comm]
  | umDrbLong | amDrb =>
    cases b.doEncryption <;> simp [LteBearer.snLen, pdcpPackDataPduLongSn] <;> omega

theorem writePdu_drb (he : e.toPdcpEntityBase = b.peer)
    (sdus : List Bytes) (hc : c < sdus.length) (hne : sdus.getD c [] ≠ []) :
    e.writePdu sec bt.rbIsUm (sentPdu sec b sdus c) =
      let r := if bt.rbIsUm then e.handleUmDrbPdu sec (sentPdu sec b sdus c)
        else e.handleAmDrbPdu sec (sentPdu sec b sdus c)
      { r with entity := { r.entity with rxCount := (r.entity.rxCount + 1) % 2 ^ 32 } } := by
  have hlen : ¬ (sentPdu sec b sdus c).length ≤ e.cfg.hdrLenBytes := by
    have hpos := List.length_pos_of_ne_nil hne
    rw [length_sentPdu_drb sec hbt hcfg sdus hc, he]
    change ¬ b.cfg.hdrLenBytes + _ ≤ b.cfg.hdrLenBytes
    omega
  have hdrb : e.isDrb = true := by rw [isDrb_of_peer hcfg he, decide_eq_true hbt]
  rw [writePdu, if_neg hlen, hdrb]
  rfl

theorem writePdu_drb_empty (he : e.toPdcpEntityBase = b.peer)
    (sdus : List Bytes) (hc : c < sdus.length) (hemp : sdus.getD c [] = []) :
    (e.writePdu sec bt.rbIsUm (sentPdu sec b sdus c)).outcome = .dropped := by
  have hlen : (sentPdu sec b sdus c).length ≤ e.cfg.hdrLenBytes := by
    rw [length_sentPdu_drb sec hbt hcfg sdus hc, hemp, he]
    exact Nat.le_refl _
  rw [writePdu, if_pos hlen]

end

theorem writePdu_um {w : ℕ} (hw : bt = umDrbShort ∧ w = 7 ∨ bt = umDrbLong ∧ w = 12)
    (hcfg : bt.Configures b)
    (he : e.toPdcpEntityBase = b.peer) (hum : UmExpects w e n) (sdus : List Bytes)
    (hc : c < sdus.length) (hne : sdus.getD c [] ≠ []) (hlo : n ≤ c) (hhi : c < n + 2 ^ w) :
    Agrees bt sdus c (e.writePdu sec bt.rbIsUm (sentPdu sec b sdus c)) ∧
      (e.writePdu sec bt.rbIsUm (sentPdu sec b sdus c)).entity.toPdcpEntityBase = b.peer ∧
      UmExpects w (e.writePdu sec bt.rbIsUm (sentPdu sec b sdus c)).entity (c + 1) := by
  have hbt : bt ≠ srb := by rcases hw with ⟨rfl, -⟩ | ⟨rfl, -⟩ <;> decide
  have hrb : bt.rbIsUm = true := by rcases hw with ⟨rfl, -⟩ | ⟨rfl, -⟩ <;> rfl
  have hdel : bt.delivery (sdus.getD c []) = .toGw (sdus.getD c []) := if_neg hbt
  have hsn := snLen_of_peer hcfg he
  have henc : e.doEncryption = b.doEncryption := by rw [he]; rfl
  obtain ⟨e', hcount, hum', hbase⟩ := umDrbCount_eq (by omega) hum hlo hhi
  rw [writePdu_drb sec hbt hcfg he sdus hc hne, hrb, if_pos rfl, handleUmDrbPdu,
    sentPdu_drb sec hbt hcfg sdus c hc, hsn]
  -- the header carries the SN of the COUNT
  have hunpack (p : Bytes) : (if bt.snLen = 12 then pdcpUnpackDataPduLongSn
      ((if bt.snLen = 12 then pdcpPackDataPduLongSn else pdcpPackDataPduShortSn) (c % 2 ^ 32) p)
      else pdcpUnpackDataPduShortSn
      ((if bt.snLen = 12 then pdcpPackDataPduLongSn else pdcpPackDataPduShortSn) (c % 2 ^ 32) p)) =
      (c % 2 ^ w, p) := by
    rcases hw with ⟨rfl, rfl⟩ | ⟨rfl, rfl⟩
    · have := unpack_pack_shortSn (c % 2 ^ 32) p
      rw [Nat.mod_mod_of_dvd c (by decide : 128 ∣ 2 ^ 32)] at this
      exact this
    · have := unpack_pack_longSn (c % 2 ^ 32) p
      rw [Nat.mod_mod_of_dvd c (by decide : 4096 ∣ 2 ^ 32)] at this
      exact this
  rw [hunpack]
  simp only [hcount, henc]
  have hum'' : UmExpects w { e' with rxCount := (e'.rxCount + 1) % 2 ^ 32 } (c + 1) :=
    ⟨hum'.isDrb, hum'.snLen, hum'.maxSn, hum'.next, hum'.hfn⟩
  cases hd : b.doEncryption with
  | false => exact ⟨⟨fun k hk => absurd hk (by simp), hdel.symm⟩, hbase.trans he, hum''⟩
  | true =>
    refine ⟨⟨fun k hk => by simpa using hk, ?_⟩, hbase.trans he, hum''⟩
    have hplain := decipher_of_count sec he (sdus.getD c []) (c % 2 ^ 32) (Or.inl hd)
    rw [hd] at hplain
    exact (congrArg PdcpRxOutcome.toGw hplain).trans hdel.symm

theorem handleAmDrbPdu_sentPdu (hcfg : amDrb.Configures b)
    {e' : PdcpEntityLte} (sdus : List Bytes) {discard : Bool} (hc : c < sdus.length)
    (hcount : e.amDrbCount (c % 4096) = (e', c % 2 ^ 32, discard)) :
    e.handleAmDrbPdu sec (sentPdu sec b sdus c) =
      { entity := e'
        outcome := .toGw (e.cipherDecrypt sec (if b.doEncryption then
          b.cipherEncrypt sec (sdus.getD c []) (c % 2 ^ 32) else sdus.getD c []) (c % 2 ^ 32))
        securityCounts := [c % 2 ^ 32], discard := discard } := by
  rw [handleAmDrbPdu, sentPdu_drb sec (by decide) hcfg sdus c hc]
  simp only [LteBearer.snLen, ↓reduceIte, unpack_pack_longSn,
    Nat.mod_mod_of_dvd c (by decide : 4096 ∣ 2 ^ 32), hcount]

theorem writePdu_am (hcfg : amDrb.Configures b)
    (he : e.toPdcpEntityBase = b.peer) (ham : AmExpects e n) (sdus : List Bytes)
    (hc : c < sdus.length) (hne : sdus.getD c [] ≠ []) (hhi : c < n + 2048)
    (hlo : n ≤ c + 2048) :
    let r := e.writePdu sec false (sentPdu sec b sdus c)
    r.outcome = .toGw (e.cipherDecrypt sec (if b.doEncryption then
        b.cipherEncrypt sec (sdus.getD c []) (c % 2 ^ 32) else sdus.getD c []) (c % 2 ^ 32)) ∧
      r.securityCounts = [c % 2 ^ 32] ∧ r.discard = decide (c < n) ∧
      r.entity.toPdcpEntityBase = b.peer ∧ AmExpects r.entity (max n (c + 1)) := by
  intro r
  have hw := writePdu_drb sec (show amDrb ≠ srb by decide) hcfg he sdus hc hne
  have hr : r = _ := hw
  obtain ⟨e', hcount, ham', hbase, -⟩ := amDrbCount_near ham hhi hlo
  rw [hr]
  simp only [LteBearer.rbIsUm, Bool.false_eq_true, if_false,
    handleAmDrbPdu_sentPdu sec hcfg sdus hc hcount]
  exact ⟨trivial, trivial, trivial, hbase.trans he, ham'.isDrb, ham'.snLen, ham'.window, ham'.maxSn,
    ham'.last, ham'.next, ham'.hfn⟩

theorem writePdu_srb_base (hcfg : srb.Configures b)
    (he : e.toPdcpEntityBase = b.peer) (pdu : Bytes) :
    (e.writePdu sec false pdu).entity.toPdcpEntityBase = b.peer := by
  have hdrb : e.isDrb = false := isDrb_of_peer hcfg he
  rw [writePdu, hdrb]
  by_cases hlen : pdu.length ≤ e.cfg.hdrLenBytes
  · rw [if_pos hlen]
    exact he
  · rw [if_neg hlen]
    exact he

theorem writePdu_expects (hcfg : bt.Configures b) (he : Expects bt b e n) (sdus : List Bytes)
    (hc : c < sdus.length) (hle : bt ≠ amDrb → n ≤ c) (hhi : c < n + 2 ^ (bt.snLen - 1))
    (hlo : n < c + 2 ^ (bt.snLen - 1)) (hrec : Recoverable bt b sdus c) :
    Agrees bt sdus c (e.writePdu sec bt.rbIsUm (sentPdu sec b sdus c)) ∧
      Expects bt b (e.writePdu sec bt.rbIsUm (sentPdu sec b sdus c)).entity (max n (c + 1)) := by
  obtain ⟨hbase, hst⟩ := he
  obtain ⟨hne, hsrb, ham⟩ := hrec
  cases bt with
  | srb =>
    exact ⟨writePdu_srb sec hcfg hbase sdus hc (hsrb rfl), writePdu_srb_base sec hcfg hbase _,
      trivial⟩
  | umDrbShort =>
    have hn := hle (by decide)
    have hstep := writePdu_um sec (Or.inl ⟨rfl, rfl⟩) hcfg hbase hst sdus hc (hne (by decide)) hn
      (lt_of_lt_of_le hhi (Nat.add_le_add_left (by decide) n))
    rw [Nat.max_eq_right (by omega)]
    exact hstep
  | umDrbLong =>
    have hn := hle (by decide)
    have hstep := writePdu_um sec (Or.inr ⟨rfl, rfl⟩) hcfg hbase hst sdus hc (hne (by decide)) hn
      (lt_of_lt_of_le hhi (Nat.add_le_add_left (by decide) n))
    rw [Nat.max_eq_right (by omega)]
    exact hstep
  | amDrb =>
    obtain ⟨hout, hcount, -, hbase', hst'⟩ :=
      writePdu_am sec hcfg hbase hst sdus hc (hne (by decide)) hhi hlo.le
    refine ⟨⟨fun k hk => ?_, ?_⟩, hbase', hst'⟩
    · exact List.mem_singleton.mp (hcount ▸ hk)
    · exact hout.trans (congrArg PdcpRxOutcome.toGw
        (decipher_of_count sec hbase _ _ (ham rfl)))

theorem receiveAll_agrees (hcfg : bt.Configures b)
    (sdus : List Bytes) (arrivals : List ℕ) (he : Expects bt b e n)
    (hsent : ∀ c ∈ arrivals, c < sdus.length) (hhalf : bt.WithinHalf n arrivals)
    (hrec : ∀ c ∈ arrivals, Recoverable bt b sdus c) :
    List.Forall₂ (Agrees bt sdus) arrivals
      (receiveAll sec bt.rbIsUm e (arrivals.map (sentPdu sec b sdus))) := by
  induction arrivals generalizing e n with
  | nil => exact List.Forall₂.nil
  | cons c cs ih =>
    obtain ⟨hle, hhi, hlo, hrest⟩ := hhalf
    obtain ⟨hc, hsent⟩ := List.forall_mem_cons.mp hsent
    obtain ⟨hrec, hrecs⟩ := List.forall_mem_cons.mp hrec
    obtain ⟨hagree, he'⟩ := writePdu_expects sec hcfg he sdus hc hle hhi hlo hrec
    exact List.Forall₂.cons hagree (ih he' hsent hrest hrecs)

def onesKeystream : SecurityLib where
  keystream := fun _ _ _ _ _ _ => 1
  mac := fun _ _ _ _ _ _ => ⟨[0, 0, 0, 0], length_zero_mac⟩

theorem cipherDecrypt_onesKeystream_ne (halgo : b.cipherAlgo ≠ .eea0)
    {sdu : Bytes} (hne : sdu ≠ []) (count : ℕ) : b.cipherDecrypt onesKeystream sdu count ≠ sdu := by
  obtain ⟨x, xs, rfl⟩ := List.exists_cons_of_ne_nil hne
  rw [PdcpEntityBase.cipherDecrypt, if_neg halgo]
  intro h
  have hx : x ^^^ 1 = x := by
    simpa [PdcpEntityBase.applyKeystream, onesKeystream] using congrArg (List.getD · 0 0) h
  have h1 : (1 : UInt8) = 0 := by
    calc (1 : UInt8) = x ^^^ (x ^^^ 1) := by rw [← UInt8.xor_assoc, UInt8.xor_self, UInt8.zero_xor]
      _ = 0 := by rw [hx, UInt8.xor_self]
  exact absurd h1 (by decide)

theorem recoverable_of_agrees (hcfg : bt.Configures b) (he : Expects bt b e n) (sdus : List Bytes)
    (hc : c < sdus.length) (hhi : c < n + 2 ^ (bt.snLen - 1)) (hlo : n < c + 2 ^ (bt.snLen - 1))
    (hagree : Agrees bt sdus c
      (e.writePdu onesKeystream bt.rbIsUm (sentPdu onesKeystream b sdus c))) :
    Recoverable bt b sdus c := by
  obtain ⟨hbase, hst⟩ := he
  obtain ⟨hcounts, hout⟩ := hagree
  have hne : bt ≠ srb → sdus.getD c [] ≠ [] := by
    intro hbt hemp
    rw [writePdu_drb_empty onesKeystream hbt hcfg hbase sdus hc hemp, delivery, if_neg hbt] at hout
    exact PdcpRxOutcome.noConfusion hout
  refine ⟨hne, ?_, ?_⟩
  · rintro rfl hsec
    change ∀ k ∈ (e.writePdu onesKeystream false _).securityCounts, _ at hcounts
    rw [writePdu_srb_securityCounts onesKeystream hcfg hbase sdus hc] at hcounts
    have hk := hcounts (c % 2 ^ 32 % 32) (by rcases hsec with h | h <;> simp [h])
    omega
  · rintro rfl
    by_contra hplain
    obtain ⟨henc, halgo⟩ := not_or.mp hplain
    obtain ⟨hout', -⟩ :=
      writePdu_am onesKeystream hcfg hbase hst sdus hc (hne (by decide)) hhi hlo.le
    rw [if_neg henc] at hout'
    have heq := hout'.symm.trans hout
    exact cipherDecrypt_onesKeystream_ne (b := e.toPdcpEntityBase) (by rw [hbase]; exact halgo)
      (hne (by decide)) _ (PdcpRxOutcome.toGw.inj heq)

theorem recoverable_of_receiveAll (hcfg : bt.Configures b)
    (sdus : List Bytes) (arrivals : List ℕ) (he : Expects bt b e n)
    (hsent : ∀ c ∈ arrivals, c < sdus.length) (hhalf : bt.WithinHalf n arrivals)
    (hall : List.Forall₂ (Agrees bt sdus) arrivals
      (receiveAll onesKeystream bt.rbIsUm e (arrivals.map (sentPdu onesKeystream b sdus)))) :
    ∀ c ∈ arrivals, Recoverable bt b sdus c := by
  induction arrivals generalizing e n with
  | nil => exact List.forall_mem_nil _
  | cons c cs ih =>
    obtain ⟨hle, hhi, hlo, hrest⟩ := hhalf
    obtain ⟨hagree, htail⟩ := List.forall₂_cons.mp hall
    obtain ⟨hc, hsent⟩ := List.forall_mem_cons.mp hsent
    have hrec := recoverable_of_agrees hcfg he sdus hc hhi hlo hagree
    obtain ⟨-, he'⟩ := writePdu_expects onesKeystream hcfg he sdus hc hle hhi hlo hrec
    exact List.forall_mem_cons.mpr ⟨hrec, ih he' hsent hrest htail⟩

def srb1 : PdcpEntityBase where
  cfg := { bearerId := 1, rbType := .isSrb, txDirection := .downlink, rxDirection := .uplink,
           snLen := 5 }
  doIntegrity := true
  doEncryption := true
  kRrcEnc := []
  kRrcInt := []
  kUpEnc := []
  kUpInt := []
  cipherAlgo := .eea2
  integAlgo := .eia2

end PdcpEntityLte
end SrsLte

/-!
`handle_am_drb_pdu` classifies an SN as new when it is 1 to 2048 ahead of the SN submitted last,
modulo 4096, and `write_pdu` delivers whatever the classification is. Over an arbitrary sequence
of arrivals, the COUNTs delivered are distinct and nothing classified as old is delivered exactly
when the arrivals already have these two properties.
-/

namespace SrsLte

def PdcpRxResult.delivered (r : PdcpRxResult) : Bool :=
  match r.outcome with
  | .toGw _ | .toRrc _ => true
  | _ => false

namespace PdcpEntityLte

open LteBearer Word

variable (sec : SecurityLib)

/-- SN `sn` is 1 to 2048 ahead of SN `last`, modulo 4096. -/
def SnAhead (last sn : ℕ) : Prop := (sn + 4095 - last) % 4096 < 2048

instance (last sn : ℕ) : Decidable (SnAhead last sn) :=
  inferInstanceAs (Decidable (_ < _))

/-- The receiver is in step with some COUNT whose predecessor has SN `last`. -/
def Submitted (b : PdcpEntityBase) (e : PdcpEntityLte) (last : ℕ) : Prop :=
  last < 4096 ∧ e.toPdcpEntityBase = b.peer ∧ ∃ n, AmExpects e n ∧ (n + 4095) % 4096 = last

variable {b : PdcpEntityBase} {e : PdcpEntityLte} {last : ℕ}

theorem submitted_init (hcfg : amDrb.Configures b) :
    Submitted b (init b.peer) 4095 :=
  ⟨by decide, rfl, 0, (expects_init hcfg).2, rfl⟩

theorem amDrbCount_ahead {sn : ℕ}
    (he : Submitted b e last) (hsn : sn < 4096) (hahead : SnAhead last sn) :
    ∃ e' count, e.amDrbCount sn = (e', count, false) ∧ Submitted b e' sn := by
  obtain ⟨hlt, hbase, n, hn, hlast⟩ := he
  unfold SnAhead at hahead
  -- the COUNT with this SN among the 2048 from the expected one on
  have hc : (n + (sn + 4095 - last) % 4096) % 4096 = sn := by omega
  obtain ⟨e', hcount, hn', hbase', -⟩ :=
    amDrbCount_near hn (Nat.add_lt_add_left hahead n) (by omega)
  rw [hc, decide_eq_false (by omega)] at hcount
  exact ⟨e', _, hcount, hsn, hbase'.trans hbase, _, hn', by omega⟩

theorem amDrbCount_behind {sn : ℕ}
    (he : Submitted b e last) (hsn : sn < 4096) (hbehind : ¬ SnAhead last sn) :
    ∃ count, e.amDrbCount sn = (e, count, true) := by
  obtain ⟨hlt, hbase, n, hn, hlast⟩ := he
  unfold SnAhead at hbehind
  -- the state is that of any number of whole COUNT cycles later
  have hn' : AmExpects e (n + 2 ^ 44) :=
    ⟨hn.isDrb, hn.snLen, hn.window, hn.maxSn, hn.last.trans (by omega), hn.next.trans (by omega),
      hn.hfn.trans (by omega)⟩
  have hc : (n + 2 ^ 44 + (sn + 4095 - last) % 4096 - 4096) % 4096 = sn := by omega
  obtain ⟨e', hcount, -, -, hsame⟩ := amDrbCount_near hn'
    (c := n + 2 ^ 44 + (sn + 4095 - last) % 4096 - 4096) (by omega) (by omega)
  rw [hc, decide_eq_true (by omega), hsame (by omega)] at hcount
  exact ⟨_, hcount⟩

/-- PDU number `c` is long enough to reach the handler. -/
def Processed (sdus : List Bytes) (c : ℕ) : Prop := sdus.getD c [] ≠ []

instance (sdus : List Bytes) (c : ℕ) : Decidable (Processed sdus c) :=
  inferInstanceAs (Decidable (_ ≠ _))

theorem Submitted.countRx (he : Submitted b e last) :
    Submitted b { e with rxCount := (e.rxCount + 1) % 2 ^ 32 } last := by
  obtain ⟨hlt, hbase, n, hn, hlast⟩ := he
  exact ⟨hlt, hbase, n, ⟨hn.isDrb, hn.snLen, hn.window, hn.maxSn, hn.last, hn.next, hn.hfn⟩, hlast⟩

theorem writePdu_unprocessed (hcfg : amDrb.Configures b)
    (he : e.toPdcpEntityBase = b.peer) (sdus : List Bytes) {c : ℕ} (hc : c < sdus.length)
    (hp : ¬ Processed sdus c) :
    e.writePdu sec false (sentPdu sec b sdus c) = ⟨e, .dropped, [], false⟩ := by
  have hlen : (sentPdu sec b sdus c).length ≤ e.cfg.hdrLenBytes := by
    rw [length_sentPdu_drb sec (by decide) hcfg sdus hc, not_not.mp hp, he]
    exact Nat.le_refl _
  rw [writePdu, if_pos hlen]

theorem writePdu_processed (hcfg : amDrb.Configures b)
    (he : Submitted b e last) (sdus : List Bytes) {c : ℕ} (hc : c < sdus.length)
    (hp : Processed sdus c) :
    let r := e.writePdu sec false (sentPdu sec b sdus c)
    r.delivered = true ∧ r.discard = !decide (SnAhead last (c % 4096)) ∧
      Submitted b r.entity (if SnAhead last (c % 4096) then c % 4096 else last) := by
  intro r
  have hsn : c % 4096 < 4096 := Nat.mod_lt _ (by decide)
  have hr : r = _ := writePdu_drb sec (show amDrb ≠ srb by decide) hcfg he.2.1 sdus hc hp
  have hunpack : pdcpUnpackDataPduLongSn (sentPdu sec b sdus c) =
      (c % 4096, (pdcpUnpackDataPduLongSn (sentPdu sec b sdus c)).2) := by
    refine Prod.ext ?_ rfl
    rw [sentPdu_drb sec (by decide) hcfg sdus c hc]
    simp only [LteBearer.snLen, ↓reduceIte, unpack_pack_longSn,
      Nat.mod_mod_of_dvd c (by decide : 4096 ∣ 2 ^ 32)]
  rw [hr]
  simp only [LteBearer.rbIsUm, Bool.false_eq_true, if_false, handleAmDrbPdu]
  rw [hunpack]
  by_cases hahead : SnAhead last (c % 4096)
  · obtain ⟨e', count, hcount, he'⟩ := amDrbCount_ahead he hsn hahead
    simp only [hcount, if_pos hahead, decide_eq_true hahead]
    exact ⟨rfl, rfl, he'.countRx⟩
  · obtain ⟨count, hcount⟩ := amDrbCount_behind he hsn hahead
    simp only [hcount, if_neg hahead, decide_eq_false hahead]
    exact ⟨rfl, rfl, he.countRx⟩

def deliveredCounts (arrivals : List ℕ) (rs : List PdcpRxResult) : List ℕ :=
  ((arrivals.zip rs).filter fun a => a.2.delivered).map fun a => a.1 % 2 ^ 32

theorem deliveredCounts_cons (c : ℕ) (cs : List ℕ) (r : PdcpRxResult) (rs : List PdcpRxResult) :
    deliveredCounts (c :: cs) (r :: rs) =
      if r.delivered then c % 2 ^ 32 :: deliveredCounts cs rs else deliveredCounts cs rs := by
  unfold deliveredCounts
  cases h : r.delivered <;> simp [h]

section

variable (hcfg : amDrb.Configures b) (sdus : List Bytes) (arrivals : List ℕ)
  (he : Submitted b e last) (hsent : ∀ c ∈ arrivals, c < sdus.length)
include hcfg sdus arrivals he hsent

theorem deliveredCounts_receiveAll :
    deliveredCounts arrivals (receiveAll sec false e (arrivals.map (sentPdu sec b sdus))) =
      (arrivals.filter (Processed sdus ·)).map (· % 2 ^ 32) := by
  induction arrivals generalizing e last with
  | nil => rfl
  | cons c cs ih =>
    obtain ⟨hc, hsent'⟩ := List.forall_mem_cons.mp hsent
    by_cases hp : Processed sdus c
    · obtain ⟨hdel, -, he'⟩ := writePdu_processed sec hcfg he sdus hc hp
      rw [List.map_cons, receiveAll, deliveredCounts_cons, if_pos hdel, ih he' hsent',
        List.filter_cons_of_pos (by simpa using hp), List.map_cons]
    · have hdrop := writePdu_unprocessed sec hcfg he.2.1 sdus hc hp
      rw [List.map_cons, receiveAll, hdrop, deliveredCounts_cons,
        if_neg (by exact Bool.false_ne_true),
        ih he hsent', List.filter_cons_of_neg (by simpa using hp)]

theorem discarded_not_delivered_iff :
    (∀ r ∈ receiveAll sec false e (arrivals.map (sentPdu sec b sdus)),
        r.discard = true → r.delivered = false) ↔
      List.IsChain SnAhead (last :: (arrivals.filter (Processed sdus ·)).map (· % 4096)) := by
  induction arrivals generalizing e last with
  | nil => simp [receiveAll]
  | cons c cs ih =>
    obtain ⟨hc, hsent'⟩ := List.forall_mem_cons.mp hsent
    rw [List.map_cons, receiveAll, List.forall_mem_cons]
    by_cases hp : Processed sdus c
    · obtain ⟨hdel, hdis, he'⟩ := writePdu_processed sec hcfg he sdus hc hp
      rw [ih he' hsent', List.filter_cons_of_pos (by simpa using hp), List.map_cons,
        List.isChain_cons_cons, hdel, hdis]
      by_cases hahead : SnAhead last (c % 4096)
      · simp [hahead]
      · simp [hahead]
    · have hdrop := writePdu_unprocessed sec hcfg he.2.1 sdus hc hp
      rw [hdrop, ih he hsent', List.filter_cons_of_neg (by simpa using hp)]
      simp

end

/-- On any path with duplication and reordering, each COUNT is delivered at most once and nothing
classified as old is delivered, iff the PDUs that reach the handler carry distinct COUNTs and each
has an SN 1 to 2048 ahead of the one before. -/
theorem delivered_once_iff {b : PdcpEntityBase} (hcfg : amDrb.Configures b) (sdus : List Bytes)
    (arrivals : List ℕ) (hsent : ∀ c ∈ arrivals, c < sdus.length) :
    ((deliveredCounts arrivals
          (receiveAll sec false (init b.peer) (arrivals.map (sentPdu sec b sdus)))).Nodup ∧
        ∀ r ∈ receiveAll sec false (init b.peer) (arrivals.map (sentPdu sec b sdus)),
          r.discard = true → r.delivered = false) ↔
      ((arrivals.filter (Processed sdus ·)).map (· % 2 ^ 32)).Nodup ∧
        List.IsChain SnAhead (4095 :: (arrivals.filter (Processed sdus ·)).map (· % 4096)) := by
  have he := submitted_init hcfg
  rw [deliveredCounts_receiveAll sec hcfg sdus arrivals he hsent,
    discarded_not_delivered_iff sec hcfg sdus arrivals he hsent]

def drb1 : PdcpEntityBase where
  cfg := { bearerId := 1, rbType := .isDrb, txDirection := .downlink, rxDirection := .uplink,
           snLen := 12 }
  doIntegrity := false
  doEncryption := true
  kRrcEnc := []
  kRrcInt := []
  kUpEnc := []
  kUpInt := []
  cipherAlgo := .eea2
  integAlgo := .eia0

theorem delivered_once_iff_drb1 :
    ((deliveredCounts [0, 1] (receiveAll onesKeystream false (init drb1.peer)
          ([0, 1].map (sentPdu onesKeystream drb1 [[1], [2]])))).Nodup ∧
        ∀ r ∈ receiveAll onesKeystream false (init drb1.peer)
          ([0, 1].map (sentPdu onesKeystream drb1 [[1], [2]])),
          r.discard = true → r.delivered = false) ↔
      (([0, 1].filter (Processed [[1], [2]] ·)).map (· % 2 ^ 32)).Nodup ∧
        List.IsChain SnAhead (4095 :: ([0, 1].filter (Processed [[1], [2]] ·)).map (· % 4096)) :=
  delivered_once_iff onesKeystream ⟨rfl, rfl⟩ [[1], [2]] [0, 1] (by decide)

/-- The second copy of a PDU is classified as old and delivered again. -/
theorem drb1_duplicate_delivered :
    let rs := receiveAll onesKeystream false (init drb1.peer)
      ([0, 0].map (sentPdu onesKeystream drb1 [[1]]))
    rs.map (·.discard) = [false, true] ∧ rs.map (·.outcome) = [.toGw [1], .toGw [1]] ∧
      ¬ (deliveredCounts [0, 0] rs).Nodup := by
  decide +kernel

end PdcpEntityLte
end SrsLte
