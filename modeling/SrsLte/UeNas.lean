import Mathlib.Data.Nat.Bitwise
import SrsLte.EventRun
import SrsLte.MmeNas

/-!
# Downlink NAS COUNT

The downlink COUNT of the MME (`dl_nas_count`) and that of the UE (`rx_count`) after a Security Mode
Command. A message carries the low octet of its COUNT; the UE takes the other bits from its own.
Integrity and ciphering with the keys of the context are parameters, and so is what the parsers of
the longer messages find.
-/

namespace SrsLte

open EventRun

/-- Downlink security with the keys of the context, and what the UE finds in messages. -/
structure NasDownlinkEnv where
  integ : ℕ → Bytes → Bytes
  ciph : ℕ → Bytes → Bytes
  /-- `parse_attach_accept` gets to its end: the PDN type is one that was asked for. -/
  attachAcceptHandled : Bytes → Bool
  securityModeValid : Bytes → Bool
  authenticationOk : Bytes → Bool

structure UeNas where
  rxCount : ℕ
  authRequest : Bool
  deriving DecidableEq

namespace UeNas

/-- `count_est`. -/
def countEst (rxCount : ℕ) (sn : UInt8) : ℕ := (rxCount &&& 0x0FF0) ||| sn.toNat

variable (E : NasDownlinkEnv)

/-- `integrity_check` with the new `rx_count`. -/
def integrityCheck (rxCount : ℕ) (pdu : Bytes) : Option ℕ :=
  let sn := pdu.getD 5 0
  let expMac := E.integ (countEst rxCount sn) (pdu.drop 5)
  if pdu.length > 5 ∧ ((List.range 4).all fun i => expMac.getD i 0 == pdu.getD (1 + i) 0) then
    some (if sn.toNat ≠ rxCount then countEst rxCount sn else rxCount)
  else none

def cipherDecrypt (pdu : Bytes) : Bytes :=
  pdu.take 6 ++ E.ciph (pdu.getD 5 0).toNat (pdu.drop 6)

def incremented (ue : UeNas) : UeNas := { ue with rxCount := (ue.rxCount + 1) % 2 ^ 32 }

def parseSecurityModeCommand (ue : UeNas) (pdu : Bytes) : UeNas × Bool :=
  if pdu.length ≤ 5 then (ue, false)
  else if E.securityModeValid pdu = false then (ue, false)
  else
    let ue := if ue.authRequest then ⟨0, false⟩ else ue
    match integrityCheck E ue.rxCount pdu with
    | none => (ue, false)
    | some rxCount => ({ ue with rxCount := rxCount }.incremented, true)

def parse (ue : UeNas) (pdu : Bytes) : UeNas × Bool :=
  let msgType := parseMsgHeader pdu
  if msgType = 0x42 then (if E.attachAcceptHandled pdu then ue.incremented else ue, true)
  else if msgType = 0x44 ∨ msgType = 0x54 then (ue, true)
  else if msgType = 0x4E then ({ ue with rxCount := 0 }, true)
  else if msgType = 0x52 then
    ({ ue.incremented with authRequest := ue.authRequest || E.authenticationOk pdu }, true)
  else if msgType = 0x5D then ue.parseSecurityModeCommand E pdu
  else if msgType ∈ [0x55, 0xD9, 0x61, 0x60, 0x45, 0xC5, 0xCD, 0xC9, 0x84] then
    (ue.incremented, true)
  else (ue, false)

def writePdu (ue : UeNas) (pdu : Bytes) : UeNas × Bool :=
  let hdr := secHdrType pdu
  if hdr = 0 ∨ hdr = 3 ∨ hdr = 0xC ∨ hdr = 4 then ue.parse E pdu
  else if hdr = 1 ∨ hdr = 2 then
    match integrityCheck E ue.rxCount pdu with
    | none => (ue, false)
    | some rxCount =>
      let plain := if hdr = 2 then cipherDecrypt E pdu else pdu
      ({ ue with rxCount := rxCount }.parse E plain |>.1, true)
  else (ue, false)

end UeNas

/-- The messages that the MME protects in a context, with the octets behind the message type. -/
inductive ProtectedNas
  | esmInformationRequest (transactionId : UInt8) (rest : Bytes)
  | attachAccept (rest : Bytes)
  | emmInformation (rest : Bytes)

namespace ProtectedNas

def plain : ProtectedNas → Bytes
  | .esmInformationRequest transactionId rest => [0x02, transactionId, 0xD9] ++ rest
  | .attachAccept rest => [0x07, 0x42] ++ rest
  | .emmInformation rest => [0x07, 0x61] ++ rest

end ProtectedNas

namespace NasDownlinkEnv

variable (E : NasDownlinkEnv)

/-- The octets that `integrity_generate` leaves in the header. -/
def macOctets (count : ℕ) (msg : Bytes) : Bytes :=
  (List.range 4).map fun i => (E.integ count msg).getD i 0

def packed (hdr : UInt8) (count : ℕ) (body : Bytes) : Bytes :=
  hdr :: E.macOctets count (UInt8.ofNat count :: body) ++ UInt8.ofNat count :: body

/-- `pack_security_mode_command`, behind the message type. -/
def packSecurityModeCommand (count : ℕ) (rest : Bytes) : Bytes :=
  E.packed 0x37 count ([0x07, 0x5D] ++ rest)

/-- The packers of the messages that are also ciphered, with the octet of the header as COUNT of
the cipher. -/
def packProtected (count : ℕ) (msg : ProtectedNas) : Bytes :=
  E.packed 0x27 count (E.ciph (UInt8.ofNat count).toNat msg.plain)

end NasDownlinkEnv

/-- Both sides after a Security Mode Command, with the PDUs sent so far and their COUNT, and the
COUNT of the last one that the UE has accepted. -/
structure NasDownlink where
  ue : UeNas
  dlNasCount : ℕ
  sent : List (ℕ × Bytes)
  last : ℕ

inductive NasDownlinkEvent
  | send (msg : ProtectedNas)
  /-- The UE gets the PDU sent as number `i`, for the first time or again. -/
  | deliver (i : ℕ)
  | identityRequest (rest : Bytes)
  | authenticationRequest (rest : Bytes)

namespace NasDownlink

variable (E : NasDownlinkEnv)

def start (rxCount : ℕ) (rest : Bytes) : NasDownlink :=
  ⟨(UeNas.writePdu E ⟨rxCount, true⟩ (E.packSecurityModeCommand 0 rest)).1, 0,
    [(0, E.packSecurityModeCommand 0 rest)], 0⟩

def step (s : NasDownlink) : NasDownlinkEvent → NasDownlink
  | .send msg =>
    let count := (s.dlNasCount + 1) % 2 ^ 32
    { s with dlNasCount := count, sent := s.sent ++ [(count, E.packProtected count msg)] }
  | .deliver i =>
    match s.sent[i]? with
    | none => s
    | some (count, pdu) =>
      { s with
        ue := (s.ue.writePdu E pdu).1
        last := if (s.ue.writePdu E pdu).2 then count else s.last }
  | .identityRequest rest => { s with ue := (s.ue.writePdu E ([0x07, 0x55] ++ rest)).1 }
  | .authenticationRequest rest => { s with ue := (s.ue.writePdu E ([0x07, 0x52] ++ rest)).1 }

/-- A genuine message in order, after fewer than 128 losses, is accepted with its COUNT; one that is
not newer than the last accepted one is rejected. -/
def CountStep (s : NasDownlink) : NasDownlinkEvent → Prop
  | .deliver i => ∀ count pdu, s.sent[i]? = some (count, pdu) →
    (s.last < count → count ≤ s.last + 128 →
      UeNas.countEst s.ue.rxCount (pdu.getD 5 0) = count ∧ (pdu.getD 5 0).toNat = count ∧
        (s.ue.writePdu E pdu).2 = true) ∧
    (count ≤ s.last → (s.ue.writePdu E pdu).2 = false)
  | _ => True

/-- The counter of the UE lets it find the COUNT: both are the same in bits 8 to 11, and no bit from
4 to 7 is set in the counter alone. -/
def Fits (rxCount count : ℕ) : Prop :=
  count < 2 ^ 12 ∧ (∀ i, 8 ≤ i → i < 12 → rxCount.testBit i = count.testBit i) ∧
    ∀ i, 4 ≤ i → i < 8 → rxCount.testBit i = true → count.testBit i = true

instance (rxCount count : ℕ) : Decidable (Fits rxCount count) :=
  inferInstanceAs (Decidable (_ ∧ _ ∧ _))

/-- New messages have a COUNT of one octet, and exactly they fit the counter of the UE. -/
def Fitting (s : NasDownlink) : NasDownlinkEvent → Prop
  | .deliver i => ∀ count pdu, s.sent[i]? = some (count, pdu) →
    (s.last < count → count ≤ s.last + 128 → count < 2 ^ 8 ∧ Fits s.ue.rxCount count) ∧
    (count ≤ s.last → ¬ Fits s.ue.rxCount count)
  | _ => True

def InContext (_ : NasDownlink) : NasDownlinkEvent → Prop
  | .authenticationRequest rest => E.authenticationOk ([0x07, 0x52] ++ rest) = false
  | _ => True

def NoCollision (s : NasDownlink) : NasDownlinkEvent → Prop
  | .deliver i => ∀ count pdu, s.sent[i]? = some (count, pdu) → count ≤ s.last →
    E.macOctets (UeNas.countEst s.ue.rxCount (pdu.getD 5 0)) (pdu.drop 5) =
      E.macOctets count (pdu.drop 5) → UeNas.countEst s.ue.rxCount (pdu.getD 5 0) = count
  | _ => True

end NasDownlink

namespace UeNas

theorem testBit_mask (i : ℕ) : (0x0FF0 : ℕ).testBit i = decide (4 ≤ i ∧ i < 12) := by
  by_cases hi : i < 12
  · have hall : ∀ j < 12, (0x0FF0 : ℕ).testBit j = decide (4 ≤ j ∧ j < 12) := by decide
    exact hall i hi
  · have hlow : (0x0FF0 : ℕ).testBit i = false :=
      Nat.testBit_lt_two_pow ((by decide : (0x0FF0 : ℕ) < 2 ^ 12).trans_le
        (Nat.pow_le_pow_right (by decide) (not_lt.mp hi)))
    rw [hlow]
    exact (decide_eq_false fun h => hi h.2).symm

theorem testBit_octet (count i : ℕ) :
    (UInt8.ofNat count).toNat.testBit i = (decide (i < 8) && count.testBit i) := by
  rw [UInt8.toNat_ofNat']
  exact Nat.testBit_mod_two_pow count 8 i

theorem testBit_countEst (rxCount count i : ℕ) :
    (countEst rxCount (UInt8.ofNat count)).testBit i =
      (rxCount.testBit i && decide (4 ≤ i ∧ i < 12) || decide (i < 8) && count.testBit i) := by
  unfold countEst
  rw [Nat.testBit_or, Nat.testBit_and, testBit_mask, testBit_octet]

theorem countEst_eq_iff (rxCount count : ℕ) :
    countEst rxCount (UInt8.ofNat count) = count ↔ NasDownlink.Fits rxCount count := by
  constructor
  · intro h
    have hbit : ∀ i, (rxCount.testBit i && decide (4 ≤ i ∧ i < 12) ||
        decide (i < 8) && count.testBit i) = count.testBit i := by
      intro i
      rw [← testBit_countEst, h]
    refine ⟨?_, ?_, ?_⟩
    · refine Nat.lt_pow_two_of_testBit count fun i hi => ?_
      have hi' := hbit i
      simp only [show ¬ i < 12 by omega, show ¬ i < 8 by omega, and_false, decide_false,
        Bool.and_false, Bool.false_and, Bool.or_false] at hi'
      exact hi'.symm
    · intro i h8 h12
      have hi' := hbit i
      simpa [h12, show 4 ≤ i by omega, show ¬ i < 8 by omega] using hi'
    · intro i h4 h8 hrx
      have hi' := hbit i
      simpa [h4, h8, show i < 12 by omega, hrx] using hi'.symm
  · rintro ⟨hlt, hhigh, hlow⟩
    refine Nat.eq_of_testBit_eq fun i => ?_
    rw [testBit_countEst]
    by_cases h4 : 4 ≤ i
    · by_cases h8 : i < 8
      · have himp := hlow i h4 h8
        cases hrx : rxCount.testBit i with
        | false => simp [h8]
        | true => simp [himp hrx, h4, show i < 12 by omega]
      · by_cases h12 : i < 12
        · simp [h8, h12, h4, hhigh i (by omega) h12]
        · have hzero : count.testBit i = false := Nat.testBit_lt_two_pow
            (hlt.trans_le (Nat.pow_le_pow_right (by decide) (not_lt.mp h12)))
          simp [h8, h12, hzero]
    · simp [h4, show i < 8 by omega]

end UeNas

end SrsLte

/-!
The UE keeps bits 4 to 11 of its counter where the high bits of a COUNT are, and does not compare an
estimate with what it has accepted. It finds the COUNT of new messages and rejects old ones as long
as exactly the new ones fit.
-/

namespace SrsLte

open EventRun

variable {E : NasDownlinkEnv}

theorem secHdrType_cons (hdr : UInt8) (msg : Bytes) :
    secHdrType (hdr :: msg) = secHdrType [hdr] := rfl

namespace NasDownlinkEnv

variable (E) (hdr : UInt8) (count : ℕ) (body : Bytes)

theorem packed_eq : ∃ a b c d, E.macOctets count (UInt8.ofNat count :: body) = [a, b, c, d] ∧
    E.packed hdr count body = hdr :: a :: b :: c :: d :: UInt8.ofNat count :: body :=
  ⟨_, _, _, _, rfl, rfl⟩

theorem packed_drop : (E.packed hdr count body).drop 5 = UInt8.ofNat count :: body := by
  obtain ⟨a, b, c, d, -, h⟩ := E.packed_eq hdr count body
  rw [h]
  rfl

theorem packed_sn : (E.packed hdr count body).getD 5 0 = UInt8.ofNat count := by
  obtain ⟨a, b, c, d, -, h⟩ := E.packed_eq hdr count body
  rw [h]
  rfl

theorem packed_length : (E.packed hdr count body).length > 5 := by
  obtain ⟨a, b, c, d, -, h⟩ := E.packed_eq hdr count body
  rw [h]
  simp

theorem packed_mac : ((List.range 4).map fun i => (E.packed hdr count body).getD (1 + i) 0) =
    E.macOctets count (UInt8.ofNat count :: body) := by
  obtain ⟨a, b, c, d, hmac, h⟩ := E.packed_eq hdr count body
  rw [h, hmac]
  rfl

theorem secHdrType_packed : secHdrType (E.packed hdr count body) = secHdrType [hdr] :=
  secHdrType_cons _ _

end NasDownlinkEnv

namespace UeNas

theorem all_range_beq_iff (x y : ℕ → UInt8) :
    ((List.range 4).all fun i => x i == y i) = true ↔
      (List.range 4).map x = (List.range 4).map y := by
  rw [List.all_eq_true, List.map_inj_left]
  exact forall₂_congr fun i _ => beq_iff_eq

theorem integrityCheck_packed (rxCount : ℕ) (hdr : UInt8) (count : ℕ) (body : Bytes) :
    (integrityCheck E rxCount (E.packed hdr count body)).isSome = true ↔
      E.macOctets (countEst rxCount (UInt8.ofNat count)) (UInt8.ofNat count :: body) =
        E.macOctets count (UInt8.ofNat count :: body) := by
  unfold integrityCheck
  rw [E.packed_sn, E.packed_drop]
  dsimp only
  rw [Option.isSome_ite, all_range_beq_iff, E.packed_mac]
  exact and_iff_right (E.packed_length hdr count body)

theorem parseMsgHeader_behind {hdr : UInt8} (hhdr : hdr = 0x27 ∨ hdr = 0x37) (a b c d sn : UInt8)
    (msg : Bytes) : parseMsgHeader (hdr :: a :: b :: c :: d :: sn :: msg) =
      if (msg.getD 0 0).toNat % 16 = 2 then msg.getD 2 0 else msg.getD 1 0 := by
  have hpd : hdr.toNat % 16 = 7 := by
    rcases hhdr with rfl | rfl <;> rfl
  have htype : secHdrType (hdr :: a :: b :: c :: d :: sn :: msg) ∈ [2, 3] := by
    rw [secHdrType_cons]
    rcases hhdr with rfl | rfl <;> decide
  have hne : ∀ k, k ∉ [2, 3] → secHdrType (hdr :: a :: b :: c :: d :: sn :: msg) ≠ k :=
    fun k hk heq => hk (heq ▸ htype)
  unfold parseMsgHeader
  rw [if_neg (hne 0xC (by decide)), if_neg (hne 0 (by decide)), if_neg]
  · rfl
  · rw [List.getD_cons_zero, hpd]
    decide

theorem parseMsgHeader_unprotected (msgType : UInt8) (rest : Bytes) :
    parseMsgHeader ([0x07, msgType] ++ rest) = msgType := by
  have hhdr : secHdrType ([0x07, msgType] ++ rest) = 0 := secHdrType_cons 0x07 _
  unfold parseMsgHeader
  rw [hhdr]
  rfl

theorem writePdu_unprotected (ue : UeNas) (msgType : UInt8) (rest : Bytes) :
    ue.writePdu E ([0x07, msgType] ++ rest) = ue.parse E ([0x07, msgType] ++ rest) := by
  have hhdr : secHdrType ([0x07, msgType] ++ rest) = 0 := secHdrType_cons 0x07 _
  unfold writePdu
  rw [hhdr]
  rfl

theorem writePdu_protected (ue : UeNas) (count : ℕ) (msg : ProtectedNas) :
    (ue.writePdu E (E.packProtected count msg)).2 =
      (integrityCheck E ue.rxCount (E.packProtected count msg)).isSome := by
  have hhdr : secHdrType (E.packProtected count msg) = 2 := E.secHdrType_packed 0x27 _ _
  unfold writePdu
  rw [hhdr]
  cases integrityCheck E ue.rxCount (E.packProtected count msg) with
  | none => rfl
  | some rxCount => rfl

theorem parseMsgHeader_command (count : ℕ) (rest : Bytes) :
    parseMsgHeader (E.packSecurityModeCommand count rest) = 0x5D := by
  obtain ⟨a, b, c, d, -, h⟩ := E.packed_eq 0x37 count ([0x07, 0x5D] ++ rest)
  unfold NasDownlinkEnv.packSecurityModeCommand
  rw [h, parseMsgHeader_behind (Or.inr rfl)]
  rfl

theorem writePdu_command (ue : UeNas) (count : ℕ) (rest : Bytes) :
    ue.writePdu E (E.packSecurityModeCommand count rest) =
      ue.parseSecurityModeCommand E (E.packSecurityModeCommand count rest) := by
  have hhdr : secHdrType (E.packSecurityModeCommand count rest) = 3 :=
    E.secHdrType_packed 0x37 _ _
  unfold writePdu
  rw [hhdr]
  unfold parse
  rw [parseMsgHeader_command]
  rfl

theorem parseSecurityModeCommand_valid {ue : UeNas} {count : ℕ} {rest : Bytes}
    (hvalid : E.securityModeValid (E.packSecurityModeCommand count rest) = true)
    (hauth : ue.authRequest = false) :
    (ue.parseSecurityModeCommand E (E.packSecurityModeCommand count rest)).2 =
        (integrityCheck E ue.rxCount (E.packSecurityModeCommand count rest)).isSome ∧
      (ue.parseSecurityModeCommand E (E.packSecurityModeCommand count rest)).1.authRequest =
        false := by
  have hlen : (E.packSecurityModeCommand count rest).length > 5 := E.packed_length _ _ _
  unfold parseSecurityModeCommand
  rw [if_neg (not_le.mpr hlen), hvalid, if_neg Bool.true_eq_false.mp, hauth]
  simp only [Bool.false_eq_true, if_false]
  cases integrityCheck E ue.rxCount (E.packSecurityModeCommand count rest) with
  | none => exact ⟨rfl, hauth⟩
  | some rxCount => exact ⟨rfl, hauth⟩

theorem cipherDecrypt_packProtected (hciph : ∀ n p, E.ciph n (E.ciph n p) = p) (count : ℕ)
    (msg : ProtectedNas) : ∃ a b c d,
      cipherDecrypt E (E.packProtected count msg) =
        0x27 :: a :: b :: c :: d :: UInt8.ofNat count :: msg.plain := by
  obtain ⟨a, b, c, d, -, h⟩ :=
    E.packed_eq 0x27 count (E.ciph (UInt8.ofNat count).toNat msg.plain)
  refine ⟨a, b, c, d, ?_⟩
  unfold cipherDecrypt NasDownlinkEnv.packProtected
  rw [h]
  exact congrArg (fun p => 0x27 :: a :: b :: c :: d :: UInt8.ofNat count :: p) (hciph _ _)

theorem parseMsgHeader_plain (a b c d sn : UInt8) (msg : ProtectedNas) :
    parseMsgHeader (0x27 :: a :: b :: c :: d :: sn :: msg.plain) ∈ [0xD9, 0x42, 0x61] := by
  rw [parseMsgHeader_behind (Or.inl rfl)]
  cases msg with
  | esmInformationRequest transactionId rest => exact List.mem_cons_self
  | attachAccept rest => exact List.mem_cons_of_mem _ List.mem_cons_self
  | emmInformation rest =>
    exact List.mem_cons_of_mem _ (List.mem_cons_of_mem _ List.mem_cons_self)

theorem parse_authRequest {ue : UeNas} {pdu : Bytes}
    (htype : parseMsgHeader pdu ∈ [0xD9, 0x42, 0x61]) :
    (ue.parse E pdu).1.authRequest = ue.authRequest := by
  unfold parse
  rcases List.mem_cons.mp htype with h | h
  · rw [h]
    rfl
  · rcases List.mem_cons.mp h with h | h
    · rw [h]
      split_ifs <;> rfl
    · rw [List.mem_singleton.mp h]
      rfl

theorem writePdu_protected_authRequest (hciph : ∀ n p, E.ciph n (E.ciph n p) = p) (ue : UeNas)
    (count : ℕ) (msg : ProtectedNas) :
    (ue.writePdu E (E.packProtected count msg)).1.authRequest = ue.authRequest := by
  have hhdr : secHdrType (E.packProtected count msg) = 2 := E.secHdrType_packed 0x27 _ _
  obtain ⟨a, b, c, d, hplain⟩ := cipherDecrypt_packProtected hciph count msg
  unfold writePdu
  rw [hhdr]
  cases integrityCheck E ue.rxCount (E.packProtected count msg) with
  | none => rfl
  | some rxCount =>
    have htype := parseMsgHeader_plain a b c d (UInt8.ofNat count) msg
    rw [← hplain] at htype
    exact parse_authRequest htype

theorem writePdu_identityRequest (ue : UeNas) (rest : Bytes) :
    (ue.writePdu E ([0x07, 0x55] ++ rest)).1.authRequest = ue.authRequest := by
  rw [writePdu_unprotected]
  unfold parse
  rw [parseMsgHeader_unprotected]
  rfl

theorem writePdu_authenticationRequest (ue : UeNas) (rest : Bytes) :
    (ue.writePdu E ([0x07, 0x52] ++ rest)).1.authRequest =
      (ue.authRequest || E.authenticationOk ([0x07, 0x52] ++ rest)) := by
  rw [writePdu_unprotected]
  unfold parse
  rw [parseMsgHeader_unprotected]
  rfl

end UeNas

namespace NasDownlink

/-- What is in the list of sent PDUs: genuine messages with their COUNT. -/
inductive Genuine (E : NasDownlinkEnv) : ℕ → Bytes → Prop
  | command (rest : Bytes)
      (hvalid : E.securityModeValid (E.packSecurityModeCommand 0 rest) = true) :
      Genuine E 0 (E.packSecurityModeCommand 0 rest)
  | protectedNas (count : ℕ) (msg : ProtectedNas) : Genuine E count (E.packProtected count msg)

/-- The UE keeps its keys, and only genuine messages have been sent. -/
structure Sound (E : NasDownlinkEnv) (s : NasDownlink) : Prop where
  authRequest : s.ue.authRequest = false
  sent : ∀ count pdu, (count, pdu) ∈ s.sent → Genuine E count pdu

namespace Genuine

variable {count : ℕ} {pdu : Bytes}

theorem sn (h : Genuine E count pdu) : pdu.getD 5 0 = UInt8.ofNat count := by
  cases h with
  | command rest => exact E.packed_sn _ _ _
  | protectedNas _ msg => exact E.packed_sn _ _ _

theorem drop (h : Genuine E count pdu) : ∃ hdr body, pdu = E.packed hdr count body := by
  cases h with
  | command rest => exact ⟨_, _, rfl⟩
  | protectedNas _ msg => exact ⟨_, _, rfl⟩

theorem writePdu (h : Genuine E count pdu) {ue : UeNas} (hauth : ue.authRequest = false) :
    (ue.writePdu E pdu).2 = (UeNas.integrityCheck E ue.rxCount pdu).isSome := by
  cases h with
  | command rest hvalid =>
    rw [UeNas.writePdu_command]
    exact (UeNas.parseSecurityModeCommand_valid hvalid hauth).1
  | protectedNas _ msg => exact UeNas.writePdu_protected ue _ msg

theorem writePdu_authRequest (hciph : ∀ n p, E.ciph n (E.ciph n p) = p) (h : Genuine E count pdu)
    {ue : UeNas} (hauth : ue.authRequest = false) :
    (ue.writePdu E pdu).1.authRequest = false := by
  cases h with
  | command rest hvalid =>
    rw [UeNas.writePdu_command]
    exact (UeNas.parseSecurityModeCommand_valid hvalid hauth).2
  | protectedNas _ msg => exact (UeNas.writePdu_protected_authRequest hciph ue _ _).trans hauth

theorem accepted_iff (h : Genuine E count pdu) {ue : UeNas} (hauth : ue.authRequest = false) :
    (ue.writePdu E pdu).2 = true ↔
      E.macOctets (UeNas.countEst ue.rxCount (pdu.getD 5 0)) (pdu.drop 5) =
        E.macOctets count (pdu.drop 5) := by
  rw [h.writePdu hauth]
  obtain ⟨hdr, body, rfl⟩ := h.drop
  rw [UeNas.integrityCheck_packed, E.packed_sn, E.packed_drop]

end Genuine

namespace Sound

variable {s : NasDownlink} {e : NasDownlinkEvent} {i count : ℕ} {pdu : Bytes}

theorem genuine (h : Sound E s) (hi : s.sent[i]? = some (count, pdu)) : Genuine E count pdu :=
  h.sent count pdu (List.mem_of_getElem? hi)

theorem start (rxCount : ℕ) (rest : Bytes)
    (hvalid : E.securityModeValid (E.packSecurityModeCommand 0 rest) = true) :
    Sound E (start E rxCount rest) := by
  constructor
  · have hlen : (E.packSecurityModeCommand 0 rest).length > 5 := E.packed_length _ _ _
    unfold NasDownlink.start
    rw [UeNas.writePdu_command]
    unfold UeNas.parseSecurityModeCommand
    rw [if_neg (not_le.mpr hlen), hvalid, if_neg Bool.true_eq_false.mp]
    dsimp only
    rw [if_pos rfl]
    cases UeNas.integrityCheck E 0 (E.packSecurityModeCommand 0 rest) with
    | none => rfl
    | some rxCount => rfl
  · intro count pdu hmem
    cases List.mem_singleton.mp hmem
    exact Genuine.command rest hvalid

theorem step (hciph : ∀ n p, E.ciph n (E.ciph n p) = p) (h : Sound E s) (hctx : InContext E s e) :
    Sound E (s.step E e) := by
  cases e with
  | send msg =>
    refine ⟨h.authRequest, fun count pdu hmem => ?_⟩
    rcases List.mem_append.mp hmem with hold | hnew
    · exact h.sent count pdu hold
    · cases List.mem_singleton.mp hnew
      exact Genuine.protectedNas _ msg
  | deliver i =>
    cases hi : s.sent[i]? with
    | none =>
      have hstep : s.step E (.deliver i) = s := by
        simp only [NasDownlink.step, hi]
      rwa [hstep]
    | some entry =>
      simp only [NasDownlink.step, hi]
      exact ⟨(h.genuine hi).writePdu_authRequest hciph h.authRequest, h.sent⟩
  | identityRequest rest =>
    exact ⟨(UeNas.writePdu_identityRequest s.ue rest).trans h.authRequest, h.sent⟩
  | authenticationRequest rest =>
    refine ⟨(UeNas.writePdu_authenticationRequest s.ue rest).trans ?_, h.sent⟩
    rw [h.authRequest, show E.authenticationOk _ = false from hctx]
    rfl

theorem new_iff (h : Sound E s) (hi : s.sent[i]? = some (count, pdu)) :
    (UeNas.countEst s.ue.rxCount (pdu.getD 5 0) = count ∧ (pdu.getD 5 0).toNat = count ∧
        (s.ue.writePdu E pdu).2 = true) ↔ count < 2 ^ 8 ∧ Fits s.ue.rxCount count := by
  have hgen := h.genuine hi
  rw [hgen.accepted_iff h.authRequest, hgen.sn, UeNas.countEst_eq_iff, UInt8.toNat_ofNat',
    Nat.mod_eq_iff_lt (by decide)]
  constructor
  · rintro ⟨hfits, hlt, -⟩
    exact ⟨hlt, hfits⟩
  · rintro ⟨hlt, hfits⟩
    refine ⟨hfits, hlt, ?_⟩
    rw [(UeNas.countEst_eq_iff _ _).mpr hfits]

theorem old_iff (h : Sound E s) (hi : s.sent[i]? = some (count, pdu))
    (hmac : E.macOctets (UeNas.countEst s.ue.rxCount (pdu.getD 5 0)) (pdu.drop 5) =
      E.macOctets count (pdu.drop 5) → UeNas.countEst s.ue.rxCount (pdu.getD 5 0) = count) :
    (s.ue.writePdu E pdu).2 = false ↔ ¬ Fits s.ue.rxCount count := by
  have hgen := h.genuine hi
  rw [← Bool.not_eq_true, hgen.accepted_iff h.authRequest, ← UeNas.countEst_eq_iff, ← hgen.sn]
  refine not_congr ⟨hmac, fun heq => ?_⟩
  rw [heq]

theorem countStep_iff (h : Sound E s) (hmac : NoCollision E s e) :
    CountStep E s e ↔ Fitting s e := by
  cases e with
  | deliver i =>
    refine forall_congr' fun count => forall_congr' fun pdu => forall_congr' fun hi => ?_
    refine and_congr ?_ ?_
    · exact forall_congr' fun _ => forall_congr' fun _ => h.new_iff hi
    · exact forall_congr' fun hle => h.old_iff hi (hmac count pdu hi hle)
  | send msg => exact Iff.rfl
  | identityRequest rest => exact Iff.rfl
  | authenticationRequest rest => exact Iff.rfl

end Sound

/-- In every run after a Security Mode Command, the COUNTs agree and nothing is replayed iff the
messages with a new COUNT, and no others, fit the counter of the UE. -/
theorem nas_count_agrees (E : NasDownlinkEnv) (hciph : ∀ n p, E.ciph n (E.ciph n p) = p)
    (rxCount : ℕ) (rest : Bytes)
    (hvalid : E.securityModeValid (E.packSecurityModeCommand 0 rest) = true)
    (events : List NasDownlinkEvent)
    (hctx : Along (step E) (InContext E) (start E rxCount rest) events)
    (hmac : Along (step E) (NoCollision E) (start E rxCount rest) events) :
    Along (step E) (CountStep E) (start E rxCount rest) events ↔
      Along (step E) Fitting (start E rxCount rest) events := by
  have hrun : Along (step E) (fun s e => (InContext E s e ∧ NoCollision E s e) ∧ CountStep E s e)
        (start E rxCount rest) events ↔
      Along (step E) (fun s e => (InContext E s e ∧ NoCollision E s e) ∧ Fitting s e)
        (start E rxCount rest) events := by
    refine along_congr (fun s e hs he => Sound.step hciph hs he.1.1) (fun s e hs => ?_)
      (Sound.start rxCount rest hvalid)
    exact and_congr_right fun he => hs.countStep_iff he.2
  have hpre := along_and.mpr ⟨hctx, hmac⟩
  constructor
  · intro h
    exact (along_and.mp (hrun.mp (along_and.mpr ⟨hpre, h⟩))).2
  · intro h
    exact (along_and.mp (hrun.mpr (along_and.mpr ⟨hpre, h⟩))).2

def countedNas : NasDownlinkEnv where
  integ count _ := [24, 16, 8, 0].map fun shift => UInt8.ofNat (count >>> shift)
  ciph _ body := body
  attachAcceptHandled _ := true
  securityModeValid _ := true
  authenticationOk _ := false

theorem along_sends (P : NasDownlink → NasDownlinkEvent → Prop) {msg : ProtectedNas}
    (hP : ∀ s, P s (.send msg)) (n : ℕ) (s : NasDownlink) :
    Along (step countedNas) P s (List.replicate n (.send msg)) := by
  induction n generalizing s with
  | zero => trivial
  | succ n ih => exact ⟨hP s, ih _⟩

/-- After 15 losses message 16 fits, and message 1, which comes late, does not. -/
theorem nas_count_agrees_late : Along (step countedNas) (CountStep countedNas)
    (start countedNas 0 [])
    (List.replicate 16 (.send (.emmInformation [])) ++ [.deliver 16, .deliver 1]) := by
  refine (nas_count_agrees countedNas (fun _ _ => rfl) 0 [] rfl _ ?_ ?_).mpr ?_
  · refine along_append.mpr ⟨along_sends _ (fun _ => trivial) 16 _, trivial, trivial, trivial⟩
  · refine along_append.mpr ⟨along_sends _ (fun _ => trivial) 16 _, ?_, ?_, trivial⟩
    · rintro count pdu ⟨⟩
      decide
    · rintro count pdu ⟨⟩
      decide
  · refine along_append.mpr ⟨along_sends _ (fun _ => trivial) 16 _, ?_, ?_, trivial⟩
    · rintro count pdu ⟨⟩
      decide
    · rintro count pdu ⟨⟩
      decide

/-- After 15 losses the UE that has accepted message 16 looks for message 32 at COUNT 48. Without
losses it accepts message 1 a second time. -/
theorem nas_count_lost :
    (∃ events, Along (step countedNas) (InContext countedNas) (start countedNas 0 []) events ∧
      Along (step countedNas) (NoCollision countedNas) (start countedNas 0 []) events ∧
      UeNas.countEst (events.foldl (step countedNas) (start countedNas 0 [])).ue.rxCount 32 = 48 ∧
      ¬ Along (step countedNas) (CountStep countedNas) (start countedNas 0 [])
        (events ++ [.deliver 32])) ∧
    ¬ Along (step countedNas) (CountStep countedNas) (start countedNas 0 [])
      [.send (.emmInformation []), .deliver 1, .deliver 1] := by
  constructor
  · refine ⟨List.replicate 32 (.send (.emmInformation [])) ++ [.deliver 16], ?_, ?_, by decide, ?_⟩
    · exact along_append.mpr ⟨along_sends _ (fun _ => trivial) 32 _, trivial, trivial⟩
    · refine along_append.mpr ⟨along_sends _ (fun _ => trivial) 32 _, ?_, trivial⟩
      rintro count pdu ⟨⟩
      decide
    · intro h
      have hlast := (along_append.mp h).2.1 32 _ rfl
      exact absurd (hlast.1 (by decide) (by decide)).1 (by decide)
  · rintro ⟨-, -, h, -⟩
    exact absurd ((h 1 _ rfl).2 (by decide)) (by decide)

end NasDownlink

end SrsLte
