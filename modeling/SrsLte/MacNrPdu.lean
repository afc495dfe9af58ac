import SrsLte.ByteBuffer
import SrsLte.LengthIndicators

/-!
# NR MAC PDUs

Writer and parser of `mac_nr_sch_pdu`. A subPDU is recorded by the parser before the end of its
payload is compared with the length of the PDU.
-/

namespace SrsLte

namespace NrLcid

def ccch : ℕ := 0b000000
def drxCmd : ℕ := 0b111100
def taCmd : ℕ := 0b111101
def conResId : ℕ := 0b111110
def crnti : ℕ := 0b111010
def shortTruncBsr : ℕ := 0b111011
def ccchSize48 : ℕ := 0b110100
def ccchSize64 : ℕ := 0b000000
def shortBsr : ℕ := 0b111101
def padding : ℕ := 0b111111

end NrLcid

namespace MacNr

def isSdu (ulsch : Bool) (lcid : ℕ) : Bool := lcid ≤ 32 ∨ ulsch ∧ lcid = NrLcid.ccchSize48

def isValidLcid (ulsch : Bool) (lcid : ℕ) : Bool :=
  lcid ≤ 63 ∧ (ulsch ∧ (lcid ≤ 32 ∨ lcid ≥ 52) ∨ (lcid ≤ 32 ∨ lcid ≥ 47))

def isUlCcch (ulsch : Bool) (lcid : ℕ) : Bool :=
  ulsch ∧ (lcid = NrLcid.ccchSize48 ∨ lcid = NrLcid.ccchSize64)

def sizeofCe (lcid : ℕ) (isUl : Bool) : ℕ :=
  if isUl then
    if lcid = NrLcid.ccchSize48 then 6
    else if lcid = NrLcid.ccchSize64 then 8
    else if lcid = NrLcid.crnti then 2
    else if lcid = NrLcid.shortTruncBsr then 1
    else if lcid = NrLcid.shortBsr then 1
    else 0
  else
    if lcid = NrLcid.conResId then 6
    else if lcid = NrLcid.taCmd then 1
    else 0

def sizeHeaderSdu (ulsch : Bool) (lcid nbytes : ℕ) : ℕ :=
  if isUlCcch ulsch lcid then 1 else if nbytes < 256 then 2 else 3

end MacNr

structure NrSubPdu where
  lcid : ℕ
  fBit : Bool
  headerLength : ℕ
  sduLength : ℕ
  deriving DecidableEq

namespace NrSubPdu

def totalLength (s : NrSubPdu) : ℕ := s.headerLength + s.sduLength

/-- `set_sdu`. The size of an uplink CCCH SDU is that of its LCID. -/
def setSdu (ulsch : Bool) (lcid len : ℕ) : NrSubPdu :=
  let headerLength := if MacNr.isUlCcch ulsch lcid then 1 else 2
  let sduLength := if MacNr.isUlCcch ulsch lcid then MacNr.sizeofCe lcid ulsch else len
  if sduLength ≥ 256 then ⟨lcid, true, headerLength + 1, sduLength⟩
  else ⟨lcid, false, headerLength, sduLength⟩

def setPadding (len : ℕ) : NrSubPdu := ⟨NrLcid.padding, false, 1, len - 1⟩

/-- `write_subpdu`: the subheader and the payload found at the SDU pointer. -/
def writeSubpdu (s : NrSubPdu) (payload : Bytes) : Bytes :=
  UInt8.ofNat ((if s.fBit then 1 else 0) <<< 6 ||| (s.lcid &&& 0x3F)) ::
    ((if s.headerLength = 3 then
        [UInt8.ofNat ((s.sduLength &&& 0xFF00) >>> 8), UInt8.ofNat s.sduLength]
      else if s.headerLength = 2 then [UInt8.ofNat s.sduLength]
      else []) ++ payload)

/-- `read_subheader` at a position of the memory; `none` for an invalid LCID. -/
def readSubheader (ulsch : Bool) (mem : ℕ → UInt8) (ptr : ℕ) : Option NrSubPdu :=
  let byte := fun i => (mem i).toNat
  let fBit : Bool := byte ptr &&& 0x40 ≠ 0
  let lcid := byte ptr &&& 0x3F
  if MacNr.isValidLcid ulsch lcid then
    if MacNr.isSdu ulsch lcid ∧ ¬ MacNr.isUlCcch ulsch lcid then
      if fBit then some ⟨lcid, fBit, 3, byte (ptr + 1) <<< 8 ||| (byte (ptr + 2) &&& 0xFF)⟩
      else some ⟨lcid, fBit, 2, byte (ptr + 1)⟩
    else some ⟨lcid, fBit, 1, MacNr.sizeofCe lcid ulsch⟩
  else none

end NrSubPdu

structure NrSdu where
  lcid : ℕ
  data : Bytes
  behind : ℕ → UInt8

structure NrMacPdu where
  ulsch : Bool
  buffer : Bytes
  remainingLen : ℕ

namespace NrMacPdu

/-- `init_tx` on an empty buffer. -/
def initTx (pduLen : ℕ) (ulsch : Bool) : NrMacPdu := ⟨ulsch, [], pduLen⟩

/-- `add_sdu`; `none` when header and SDU exceed the remaining length. The remaining length is
unsigned. -/
def addSdu (p : NrMacPdu) (sdu : NrSdu) : Option NrMacPdu :=
  if MacNr.sizeHeaderSdu p.ulsch sdu.lcid sdu.data.length + sdu.data.length > p.remainingLen then
    none
  else
    let s := NrSubPdu.setSdu p.ulsch sdu.lcid sdu.data.length
    some { p with
      buffer := p.buffer ++ s.writeSubpdu (bytesAt (memory sdu.data sdu.behind) 0 s.sduLength)
      remainingLen := (p.remainingLen + 2 ^ 32 - s.totalLength) % 2 ^ 32 }

/-- A sequence of `add_sdu` calls that all succeed. -/
def addSdus (p : NrMacPdu) : List NrSdu → Option NrMacPdu
  | [] => some p
  | sdu :: sdus => (p.addSdu sdu).bind fun p => addSdus p sdus

/-- `pack`: the padding subPDU, with zeros for its payload. -/
def pack (p : NrMacPdu) : Bytes :=
  if p.remainingLen ≠ 0 then
    let s := NrSubPdu.setPadding p.remainingLen
    p.buffer ++ s.writeSubpdu (List.replicate s.sduLength 0)
  else p.buffer

end NrMacPdu

/-- The loop of `unpack`: the recorded subPDUs with their offset. -/
def nrUnpackLoop (ulsch : Bool) (mem : ℕ → UInt8) (len : ℕ) :
    ℕ → ℕ → Option (List (NrSubPdu × ℕ))
  | 0, _ => none
  | fuel + 1, offset =>
    if offset < len then
      match NrSubPdu.readSubheader ulsch mem offset with
      | none => some []
      | some s => (nrUnpackLoop ulsch mem len fuel (offset + s.totalLength)).map ((s, offset) :: ·)
    else some []

/-- `unpack`. Every subPDU has at least one byte. -/
def nrUnpack (ulsch : Bool) (mem : ℕ → UInt8) (len : ℕ) : Option (List (NrSubPdu × ℕ)) :=
  nrUnpackLoop ulsch mem len (len + 1) 0

def nrPayload (mem : ℕ → UInt8) (a : NrSubPdu × ℕ) : Bytes :=
  bytesAt mem (a.2 + a.1.headerLength) a.1.sduLength

def nrPayloadEnd (a : NrSubPdu × ℕ) : ℕ := a.2 + a.1.totalLength

end SrsLte

/-!
The parser reads one subPDU after the other. A written SDU is read back with its length modulo
`2 ^ 16`, and an uplink CCCH SDU with the size of its LCID.
-/

namespace SrsLte

open LengthIndicators

/-- What `unpack` records from an offset on. -/
inductive NrUnpacks (ulsch : Bool) (mem : ℕ → UInt8) (len : ℕ) :
    ℕ → List (NrSubPdu × ℕ) → Prop
  | done {offset : ℕ} (hend : len ≤ offset) : NrUnpacks ulsch mem len offset []
  | invalid {offset : ℕ} (hlt : offset < len)
      (hread : NrSubPdu.readSubheader ulsch mem offset = none) : NrUnpacks ulsch mem len offset []
  | next {offset : ℕ} {s : NrSubPdu} {subs : List (NrSubPdu × ℕ)} (hlt : offset < len)
      (hread : NrSubPdu.readSubheader ulsch mem offset = some s)
      (hrest : NrUnpacks ulsch mem len (offset + s.totalLength) subs) :
      NrUnpacks ulsch mem len offset ((s, offset) :: subs)

section Unpack

variable {ulsch : Bool} {mem : ℕ → UInt8} {len offset : ℕ} {s : NrSubPdu}
  {subs subs' : List (NrSubPdu × ℕ)}

theorem NrUnpacks.unique (h : NrUnpacks ulsch mem len offset subs)
    (h' : NrUnpacks ulsch mem len offset subs') : subs = subs' := by
  induction h generalizing subs' with
  | done hend =>
    cases h' with
    | done _ => rfl
    | invalid _ _ => rfl
    | next hlt _ _ => omega
  | invalid hlt hread =>
    cases h' with
    | done _ => rfl
    | invalid _ _ => rfl
    | next _ hread' _ =>
      rw [hread] at hread'
      cases hread'
  | next hlt hread _ ih =>
    cases h' with
    | done hend => omega
    | invalid _ hread' =>
      rw [hread] at hread'
      cases hread'
    | next _ hread' hrest' =>
      obtain rfl := Option.some.inj (hread.symm.trans hread')
      rw [ih hrest']

theorem headerLength_pos (h : NrSubPdu.readSubheader ulsch mem offset = some s) :
    0 < s.headerLength := by
  unfold NrSubPdu.readSubheader at h
  dsimp only at h
  split_ifs at h <;>
    · obtain rfl := Option.some.inj h
      exact Nat.succ_pos _

theorem exists_nrUnpackLoop {fuel : ℕ} (hfuel : len - offset < fuel) :
    ∃ subs, nrUnpackLoop ulsch mem len fuel offset = some subs ∧
      NrUnpacks ulsch mem len offset subs := by
  induction fuel generalizing offset with
  | zero => omega
  | succ fuel ih =>
    unfold nrUnpackLoop
    by_cases hlt : offset < len
    · rw [if_pos hlt]
      cases hread : NrSubPdu.readSubheader ulsch mem offset with
      | none => exact ⟨[], rfl, NrUnpacks.invalid hlt hread⟩
      | some s =>
        have hpos := headerLength_pos hread
        have hnext : len - (offset + s.totalLength) < fuel := by
          unfold NrSubPdu.totalLength
          omega
        obtain ⟨subs, hloop, hsubs⟩ := ih hnext
        exact ⟨(s, offset) :: subs, congrArg (Option.map _) hloop, NrUnpacks.next hlt hread hsubs⟩
    · rw [if_neg hlt]
      exact ⟨[], rfl, NrUnpacks.done (Nat.not_lt.mp hlt)⟩

theorem nrUnpack_eq_some_iff : nrUnpack ulsch mem len = some subs ↔
    NrUnpacks ulsch mem len 0 subs := by
  obtain ⟨subs', hloop, hsubs'⟩ :=
    @exists_nrUnpackLoop ulsch mem len 0 (len + 1) (Nat.lt_succ_self _)
  unfold nrUnpack
  rw [hloop, Option.some.injEq]
  constructor
  · rintro rfl
    exact hsubs'
  · exact fun h => hsubs'.unique h

end Unpack

section Written

variable {ulsch : Bool} {lcid n offset : ℕ} {bytes payload rest : Bytes} {behind : ℕ → UInt8}

theorem isValidLcid_of_isSdu (h : MacNr.isSdu ulsch lcid = true) :
    MacNr.isValidLcid ulsch lcid = true ∧ lcid < 64 := by
  unfold MacNr.isSdu at h
  unfold MacNr.isValidLcid
  have h' := of_decide_eq_true h
  have h52 : NrLcid.ccchSize48 = 52 := rfl
  rw [h52] at h'
  rw [decide_eq_true_iff]
  rcases h' with h' | ⟨hul, h'⟩
  · omega
  · rw [h', hul]
    decide

theorem shortSubheader : ∀ lcid < 64,
    (UInt8.ofNat (0 <<< 6 ||| (lcid &&& 0x3F))).toNat &&& 0x40 = 0 ∧
      (UInt8.ofNat (0 <<< 6 ||| (lcid &&& 0x3F))).toNat &&& 0x3F = lcid := by
  decide +kernel

theorem longSubheader : ∀ lcid < 64,
    (UInt8.ofNat (1 <<< 6 ||| (lcid &&& 0x3F))).toNat &&& 0x40 = 64 ∧
      (UInt8.ofNat (1 <<< 6 ||| (lcid &&& 0x3F))).toNat &&& 0x3F = lcid := by
  decide +kernel

theorem lengthField_long (n : ℕ) :
    (UInt8.ofNat ((n &&& 0xFF00) >>> 8)).toNat <<< 8 ||| ((UInt8.ofNat n).toNat &&& 0xFF) =
      n % 65536 := by
  have hhigh : (n &&& 0xFF00) >>> 8 = n / 256 % 256 := and_mask_shift n 8 8
  have hlow : (UInt8.ofNat n).toNat &&& 0xFF = n % 256 := by
    rw [UInt8.toNat_ofNat']
    exact (and_low _ 8).trans (Nat.mod_mod _ _)
  rw [hhigh, hlow, toNat_ofNat (Nat.mod_lt _ (by decide)),
    or_high (show n % 256 < 2 ^ 8 from Nat.mod_lt _ (by decide))]
  omega

theorem setSdu_ccch (h : MacNr.isUlCcch ulsch lcid = true) (n : ℕ) :
    NrSubPdu.setSdu ulsch lcid n = ⟨lcid, false, 1, MacNr.sizeofCe lcid ulsch⟩ := by
  have hsize : ¬ MacNr.sizeofCe lcid ulsch ≥ 256 := by
    unfold MacNr.sizeofCe
    split_ifs <;> decide
  unfold NrSubPdu.setSdu
  rw [h]
  exact if_neg hsize

theorem setSdu_short (h : MacNr.isUlCcch ulsch lcid = false) (hn : n < 256) :
    NrSubPdu.setSdu ulsch lcid n = ⟨lcid, false, 2, n⟩ := by
  unfold NrSubPdu.setSdu
  rw [h]
  exact if_neg (Nat.not_le.mpr hn)

theorem setSdu_long (h : MacNr.isUlCcch ulsch lcid = false) (hn : 256 ≤ n) :
    NrSubPdu.setSdu ulsch lcid n = ⟨lcid, true, 3, n⟩ := by
  unfold NrSubPdu.setSdu
  rw [h]
  exact if_pos hn

theorem sizeofCe_lt (lcid : ℕ) (ulsch : Bool) : MacNr.sizeofCe lcid ulsch < 65536 := by
  unfold MacNr.sizeofCe
  split_ifs <;> decide

theorem readSubheader_setSdu (hsdu : MacNr.isSdu ulsch lcid = true) (behind : ℕ → UInt8)
    (hdrop : bytes.drop offset = (NrSubPdu.setSdu ulsch lcid n).writeSubpdu payload ++ rest) :
    NrSubPdu.readSubheader ulsch (memory bytes behind) offset =
      some { NrSubPdu.setSdu ulsch lcid n with
        sduLength := (NrSubPdu.setSdu ulsch lcid n).sduLength % 65536 } := by
  obtain ⟨hvalid, hlcid⟩ := isValidLcid_of_isSdu hsdu
  cases hccch : MacNr.isUlCcch ulsch lcid with
  | true =>
    have hbyte := shortSubheader lcid hlcid
    rw [setSdu_ccch hccch] at hdrop ⊢
    have hfirst : bytes.drop offset =
        UInt8.ofNat (0 <<< 6 ||| (lcid &&& 0x3F)) :: (payload ++ rest) := hdrop
    unfold NrSubPdu.readSubheader
    simp only [memory_of_drop hfirst, hbyte.1, hbyte.2, hvalid, hccch, if_true, ne_eq, not_true,
      and_false, if_false, decide_false, Nat.mod_eq_of_lt (sizeofCe_lt lcid ulsch)]
  | false =>
    rcases Nat.lt_or_ge n 256 with hn | hn
    · have hbyte := shortSubheader lcid hlcid
      rw [setSdu_short hccch hn] at hdrop ⊢
      have hfirst : bytes.drop offset = UInt8.ofNat (0 <<< 6 ||| (lcid &&& 0x3F)) ::
          UInt8.ofNat n :: (payload ++ rest) := hdrop
      have hsecond := drop_succ_of_drop hfirst
      have hmod : n % 65536 = n := Nat.mod_eq_of_lt (by omega)
      unfold NrSubPdu.readSubheader
      simp only [memory_of_drop hfirst, memory_of_drop hsecond, hbyte.1, hbyte.2, hvalid, hsdu,
        hccch, if_true, ne_eq, not_true, Bool.false_eq_true, not_false_eq_true, and_self,
        decide_false, if_false, toNat_ofNat hn, hmod]
    · have hbyte := longSubheader lcid hlcid
      rw [setSdu_long hccch hn] at hdrop ⊢
      have hfirst : bytes.drop offset = UInt8.ofNat (1 <<< 6 ||| (lcid &&& 0x3F)) ::
          UInt8.ofNat ((n &&& 0xFF00) >>> 8) :: UInt8.ofNat n :: (payload ++ rest) := hdrop
      have hsecond := drop_succ_of_drop hfirst
      have hthird := drop_succ_of_drop hsecond
      unfold NrSubPdu.readSubheader
      simp only [memory_of_drop hfirst, memory_of_drop hsecond, memory_of_drop hthird, hbyte.1,
        hbyte.2, hvalid, hsdu, hccch, if_true, ne_eq, Bool.false_eq_true, not_false_eq_true,
        and_self, lengthField_long]
      rfl

end Written

namespace NrSdu

def sub (ulsch : Bool) (sdu : NrSdu) : NrSubPdu := .setSdu ulsch sdu.lcid sdu.data.length

/-- What `add_sdu` writes for the SDU. -/
def written (ulsch : Bool) (sdu : NrSdu) : Bytes :=
  (sdu.sub ulsch).writeSubpdu (bytesAt (memory sdu.data sdu.behind) 0 (sdu.sub ulsch).sduLength)

/-- The subheader can give the length of the SDU: an uplink CCCH SDU has the size of its LCID, the
others less than `2 ^ 16` bytes. -/
def Announceable (ulsch : Bool) (sdu : NrSdu) : Prop :=
  if MacNr.isUlCcch ulsch sdu.lcid then sdu.data.length = MacNr.sizeofCe sdu.lcid ulsch
  else sdu.data.length < 65536

instance (ulsch : Bool) : DecidablePred (Announceable ulsch) := fun _ => by
  unfold Announceable
  infer_instance

def size (ulsch : Bool) (sdu : NrSdu) : ℕ :=
  MacNr.sizeHeaderSdu ulsch sdu.lcid sdu.data.length + sdu.data.length

variable {ulsch : Bool} {sdu : NrSdu}

theorem sub_cases (ulsch : Bool) (sdu : NrSdu) :
    (sdu.sub ulsch).lcid = sdu.lcid ∧
      (sdu.sub ulsch).headerLength =
        MacNr.sizeHeaderSdu ulsch sdu.lcid sdu.data.length ∧
      (sdu.sub ulsch).sduLength =
        if MacNr.isUlCcch ulsch sdu.lcid then MacNr.sizeofCe sdu.lcid ulsch
        else sdu.data.length := by
  unfold sub MacNr.sizeHeaderSdu
  cases hccch : MacNr.isUlCcch ulsch sdu.lcid with
  | true =>
    rw [setSdu_ccch hccch]
    exact ⟨rfl, rfl, rfl⟩
  | false =>
    rcases Nat.lt_or_ge sdu.data.length 256 with hn | hn
    · rw [setSdu_short hccch hn]
      exact ⟨rfl, (if_pos hn).symm, rfl⟩
    · rw [setSdu_long hccch hn]
      exact ⟨rfl, (if_neg (Nat.not_lt.mpr hn)).symm, rfl⟩

theorem announceable_iff : sdu.Announceable ulsch ↔
    (sdu.sub ulsch).sduLength % 65536 = sdu.data.length := by
  rw [(sub_cases ulsch sdu).2.2]
  unfold Announceable
  split_ifs
  · rw [Nat.mod_eq_of_lt (sizeofCe_lt _ _)]
    exact eq_comm
  · omega

theorem Announceable.sduLength (h : sdu.Announceable ulsch) :
    (sdu.sub ulsch).sduLength = sdu.data.length := by
  rw [(sub_cases ulsch sdu).2.2]
  unfold Announceable at h
  split_ifs at h ⊢
  · exact h.symm
  · rfl

theorem Announceable.totalLength (h : sdu.Announceable ulsch) :
    (sdu.sub ulsch).totalLength = sdu.size ulsch := by
  rw [NrSubPdu.totalLength, (sub_cases ulsch sdu).2.1, h.sduLength]
  rfl

theorem length_writeSubpdu {s : NrSubPdu} {payload : Bytes}
    (h : s.headerLength = 1 ∨ s.headerLength = 2 ∨ s.headerLength = 3) :
    (s.writeSubpdu payload).length = s.headerLength + payload.length := by
  unfold NrSubPdu.writeSubpdu
  rcases h with h | h | h <;> rw [h] <;> simp <;> omega

theorem headerLength_sub (ulsch : Bool) (sdu : NrSdu) : (sdu.sub ulsch).headerLength = 1 ∨
    (sdu.sub ulsch).headerLength = 2 ∨ (sdu.sub ulsch).headerLength = 3 := by
  rw [(sub_cases ulsch sdu).2.1]
  unfold MacNr.sizeHeaderSdu
  split_ifs
  · exact Or.inl rfl
  · exact Or.inr (Or.inl rfl)
  · exact Or.inr (Or.inr rfl)

theorem Announceable.written_eq (h : sdu.Announceable ulsch) :
    sdu.written ulsch = (sdu.sub ulsch).writeSubpdu sdu.data := by
  have hdata : sdu.data.drop 0 = sdu.data ++ [] := (List.append_nil _).symm
  unfold written
  rw [h.sduLength, bytesAt_of_drop hdata]

theorem Announceable.length_written (h : sdu.Announceable ulsch) :
    (sdu.written ulsch).length = sdu.size ulsch := by
  rw [h.written_eq, length_writeSubpdu (headerLength_sub ulsch sdu), (sub_cases ulsch sdu).2.1]
  rfl

theorem drop_writeSubpdu {s : NrSubPdu} {payload rest : Bytes}
    (h : s.headerLength = 1 ∨ s.headerLength = 2 ∨ s.headerLength = 3) :
    (s.writeSubpdu payload ++ rest).drop s.headerLength = payload ++ rest := by
  unfold NrSubPdu.writeSubpdu
  rcases h with h | h | h <;> rw [h] <;> rfl

section Read

variable {bytes rest : Bytes} {behind : ℕ → UInt8} {offset : ℕ}

theorem Announceable.readSubheader (h : sdu.Announceable ulsch)
    (hsdu : MacNr.isSdu ulsch sdu.lcid = true) (behind : ℕ → UInt8)
    (hdrop : bytes.drop offset = sdu.written ulsch ++ rest) :
    NrSubPdu.readSubheader ulsch (memory bytes behind) offset = some (sdu.sub ulsch) := by
  have hmod := announceable_iff.mp h
  rw [← h.sduLength] at hmod
  refine (readSubheader_setSdu hsdu behind hdrop).trans (congrArg some ?_)
  change { sdu.sub ulsch with sduLength := (sdu.sub ulsch).sduLength % 65536 } = _
  rw [hmod]

theorem Announceable.nrPayload_eq (h : sdu.Announceable ulsch)
    (hdrop : bytes.drop offset = sdu.written ulsch ++ rest) :
    nrPayload (memory bytes behind) (sdu.sub ulsch, offset) = sdu.data := by
  have hpayload : bytes.drop (offset + (sdu.sub ulsch).headerLength) = sdu.data ++ rest := by
    rw [← List.drop_drop, hdrop, h.written_eq, drop_writeSubpdu (headerLength_sub ulsch sdu)]
  unfold nrPayload
  dsimp only
  rw [h.sduLength]
  exact bytesAt_of_drop hpayload

end Read

end NrSdu

end SrsLte
