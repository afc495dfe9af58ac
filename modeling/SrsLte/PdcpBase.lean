import SrsLte.Word
import SrsLte.ByteBuffer

/-!
# Common part of the LTE and NR PDCP entities

Configuration, keys and security functions of `pdcp_entity_base`. The ciphering algorithms of the
security library are stream ciphers: each of EEA1, EEA2 and EEA3 adds a keystream determined by
key, COUNT, bearer and direction to the message. The integrity algorithms are functions of the
same inputs and the message with a four-byte result. Both are kept as parameters.
-/

namespace SrsLte

inductive PdcpRbType
  | isSrb
  | isDrb
  deriving DecidableEq

inductive SecurityDirection
  | uplink
  | downlink
  deriving DecidableEq

inductive CipheringAlgorithm
  | eea0
  | eea1
  | eea2
  | eea3
  deriving DecidableEq

inductive IntegrityAlgorithm
  | eia0
  | eia1
  | eia2
  | eia3
  deriving DecidableEq

/-- A four-byte message authentication code. -/
abbrev Mac := {m : Bytes // m.length = 4}

theorem length_zero_mac : ([0, 0, 0, 0] : Bytes).length = 4 := rfl

/-- The keystream and MAC functions of the security library, addressed by algorithm, key, COUNT,
bearer and direction. -/
structure SecurityLib where
  keystream : CipheringAlgorithm → Bytes → ℕ → ℕ → SecurityDirection → ℕ → UInt8
  mac : IntegrityAlgorithm → Bytes → ℕ → ℕ → SecurityDirection → Bytes → Mac

structure PdcpConfig where
  bearerId : ℕ
  rbType : PdcpRbType
  txDirection : SecurityDirection
  rxDirection : SecurityDirection
  snLen : ℕ

/-- `ceil(sn_len / 8)`. -/
def PdcpConfig.hdrLenBytes (cfg : PdcpConfig) : ℕ := (cfg.snLen + 7) / 8

/-- The configuration of the peer: the same bearer with the two directions exchanged. -/
def PdcpConfig.peer (cfg : PdcpConfig) : PdcpConfig :=
  { cfg with txDirection := cfg.rxDirection, rxDirection := cfg.txDirection }

structure PdcpEntityBase where
  cfg : PdcpConfig
  doIntegrity : Bool
  doEncryption : Bool
  kRrcEnc : Bytes
  kRrcInt : Bytes
  kUpEnc : Bytes
  kUpInt : Bytes
  cipherAlgo : CipheringAlgorithm
  integAlgo : IntegrityAlgorithm

namespace PdcpEntityBase

variable (sec : SecurityLib) (b : PdcpEntityBase)

def isSrb : Bool := b.cfg.rbType = .isSrb

def isDrb : Bool := b.cfg.rbType = .isDrb

/-- `cfg.bearer_id - 1` passed as a `uint8_t`. -/
def securityBearer : ℕ := (b.cfg.bearerId + 255) % 256

def kEnc : Bytes := if b.isSrb then b.kRrcEnc else b.kUpEnc

def kInt : Bytes := if b.isSrb then b.kRrcInt else b.kUpInt

/-- `security_128_eea1/2/3`: addition of the keystream. -/
def applyKeystream (count : ℕ) (dir : SecurityDirection) (msg : Bytes) : Bytes :=
  msg.mapIdx fun i c =>
    c ^^^ sec.keystream b.cipherAlgo (b.kEnc.drop 16) count b.securityBearer dir i

def cipherEncrypt (msg : Bytes) (count : ℕ) : Bytes :=
  if b.cipherAlgo = .eea0 then msg else b.applyKeystream sec count b.cfg.txDirection msg

def cipherDecrypt (ct : Bytes) (count : ℕ) : Bytes :=
  if b.cipherAlgo = .eea0 then ct else b.applyKeystream sec count b.cfg.rxDirection ct

/-- With EIA0 the four bytes at `mac` keep their value. -/
def integrityGenerate (msg : Bytes) (count : ℕ) (mac : Bytes) : Bytes :=
  if b.integAlgo = .eia0 then mac
  else (sec.mac b.integAlgo (b.kInt.drop 16) count b.securityBearer b.cfg.txDirection msg).val

def integrityVerify (msg : Bytes) (count : ℕ) (mac : Bytes) : Bool :=
  b.integAlgo = .eia0 ||
    mac = (sec.mac b.integAlgo (b.kInt.drop 16) count b.securityBearer b.cfg.rxDirection msg).val

/-- `SN(count)`. -/
def sn (count : ℕ) : ℕ := count &&& (0xFFFFFFFF >>> (32 - b.cfg.snLen))

/-- `HFN(count)`. -/
def hfn (count : ℕ) : ℕ := count >>> b.cfg.snLen

/-- `COUNT(hfn, sn)`. -/
def countOf (hfn sn : ℕ) : ℕ := Word.concat32 b.cfg.snLen hfn sn

/-- The entity of the peer: same keys, algorithms and switches, directions exchanged. -/
def peer : PdcpEntityBase := { b with cfg := b.cfg.peer }

@[simp] theorem peer_isSrb : b.peer.isSrb = b.isSrb := rfl

@[simp] theorem peer_isDrb : b.peer.isDrb = b.isDrb := rfl

@[simp] theorem length_applyKeystream (count : ℕ) (dir : SecurityDirection) (msg : Bytes) :
    (b.applyKeystream sec count dir msg).length = msg.length := by
  simp [applyKeystream]

@[simp] theorem length_cipherEncrypt (msg : Bytes) (count : ℕ) :
    (b.cipherEncrypt sec msg count).length = msg.length := by
  unfold cipherEncrypt
  split_ifs <;> simp

theorem applyKeystream_applyKeystream (count : ℕ) (dir : SecurityDirection) (msg : Bytes) :
    b.applyKeystream sec count dir (b.applyKeystream sec count dir msg) = msg := by
  unfold applyKeystream
  rw [List.mapIdx_mapIdx]
  have hcancel (c k : UInt8) : c ^^^ k ^^^ k = c := by
    rw [UInt8.xor_assoc, UInt8.xor_self, UInt8.xor_zero]
  simp only [Function.comp_def, hcancel]
  exact List.ext_getElem (by simp) (by simp)

theorem peer_cipherDecrypt_cipherEncrypt (msg : Bytes) (count : ℕ) :
    b.peer.cipherDecrypt sec (b.cipherEncrypt sec msg count) count = msg := by
  unfold cipherDecrypt cipherEncrypt
  change (if b.cipherAlgo = .eea0 then _ else b.applyKeystream sec count b.cfg.txDirection _) = msg
  split_ifs with h
  · rfl
  · exact b.applyKeystream_applyKeystream sec count _ msg

theorem peer_integrityVerify_integrityGenerate (msg mac : Bytes) (count : ℕ) :
    b.peer.integrityVerify sec msg count (b.integrityGenerate sec msg count mac) = true := by
  unfold integrityVerify integrityGenerate
  change (decide (b.integAlgo = .eia0) || decide (_ = (sec.mac b.integAlgo (b.kInt.drop 16) count
    b.securityBearer b.cfg.txDirection msg).val)) = true
  by_cases h : b.integAlgo = .eia0
  · simp [h]
  · simp [h]

theorem length_integrityGenerate (msg mac : Bytes) (count : ℕ) (hmac : mac.length = 4) :
    (b.integrityGenerate sec msg count mac).length = 4 := by
  unfold integrityGenerate
  split_ifs
  · exact hmac
  · exact (sec.mac _ _ _ _ _ _).property

end PdcpEntityBase
end SrsLte
