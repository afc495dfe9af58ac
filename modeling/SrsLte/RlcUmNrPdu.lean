import SrsLte.RlcUmNr
import SrsLte.Tiling

/-!
# PDUs of the NR UM transmitter

With sequence numbers of 6 bits each PDU carries a piece of one SDU, and its header tells which one.
The pieces of an SDU tile it, as long as `next_so` is 0 when the transmitter starts to segment it.
-/

namespace SrsLte

namespace UmNrPduHeader

theorem fixedByte : ∀ si : NrSiField, ∀ sn < 64,
    let x := (UInt8.ofNat ((si.code &&& 0x03) <<< 6 ||| (sn &&& 0x3f))).toNat
    NrSiField.ofCode (x >>> 6 &&& 0x03) = si ∧ x &&& 0x3F = sn := by
  intro si
  cases si <;> decide

theorem read_so {so : ℕ} (h : so < 2 ^ 16) :
    ((UInt8.ofNat (so >>> 8)).toNat &&& 0xFF) <<< 8 |||
      ((UInt8.ofNat (so &&& 0xFF)).toNat &&& 0xFF) = so := by
  have hmask : ∀ n, n &&& 0xFF = n % 256 := fun n => LengthIndicators.and_low n 8
  have hhigh : (UInt8.ofNat (so >>> 8)).toNat = so / 256 := by
    rw [Nat.shiftRight_eq_div_pow]
    exact LengthIndicators.toNat_ofNat (by omega)
  rw [hhigh, LengthIndicators.toNat_third, hmask, hmask,
    LengthIndicators.or_high (show so % 256 % 256 < 2 ^ 8 from Nat.mod_lt _ (by decide))]
  omega

/-- What the transmitter puts into a header with a sequence number of 6 bits: an offset where there
is a field for one, and a sequence number in all but full SDUs. -/
structure Coded (h : UmNrPduHeader) : Prop where
  snSize : h.snSize = .size6bits
  sn : h.sn < 64
  snFull : h.si = .fullSdu → h.sn = 0
  so : h.so < 2 ^ 16
  hasSo : h.si.hasSo = true ↔ h.so ≠ 0

variable {h : UmNrPduHeader}

theorem Coded.length_fields (hc : h.Coded) : h.fields.length = h.packedLength := by
  obtain ⟨si, snSize, sn, so⟩ := h
  obtain ⟨rfl, -, -, -, hso⟩ := hc
  cases si <;> simp_all [fields, packedLength, NrSiField.hasSo]

theorem write_eq_of_length (hlength : h.fields.length = h.packedLength) (msg : Bytes) :
    h.write msg = h.fields ++ msg := by
  rw [write, hlength, List.drop_left' List.length_replicate, ← hlength, ← List.length_append,
    List.take_length]

theorem Coded.write_eq (hc : h.Coded) (msg : Bytes) : h.write msg = h.fields ++ msg :=
  write_eq_of_length hc.length_fields msg

theorem Coded.read_write (hc : h.Coded) (msg : Bytes) : read .size6bits (h.write msg) = h := by
  rw [hc.write_eq]
  obtain ⟨si, snSize, sn, so⟩ := h
  obtain ⟨rfl, hsn, hfull, hso, hhas⟩ := hc
  obtain ⟨hsi, hlow⟩ := fixedByte si sn hsn
  have hback := read_so hso
  cases si <;> simp_all [fields, read, NrSiField.hasSo]

theorem Coded.drop_write (hc : h.Coded) (msg : Bytes) :
    (h.write msg).drop h.packedLength = msg := by
  rw [hc.write_eq, ← hc.length_fields, List.drop_left]

end UmNrPduHeader

/-- What a PDU carries: the bytes between two offsets of an SDU. The SDUs that are sent in segments
are numbered by their sequence numbers, here without reduction; a full SDU has none. -/
structure UmNrPiece where
  sdu : ℕ
  sn : Option ℕ
  start : ℕ
  stop : ℕ
  deriving DecidableEq

namespace UmNrPiece

def si (p : UmNrPiece) (length : ℕ) : NrSiField :=
  if p.sn = none then .fullSdu
  else if p.start = 0 then .firstSegment
  else if p.stop = length then .lastSegment
  else .neitherFirstNorLastSegment

def header (p : UmNrPiece) (length : ℕ) : UmNrPduHeader where
  si := p.si length
  snSize := .size6bits
  sn := p.sn.getD 0 % 64
  so := p.start

def encode (p : UmNrPiece) (sdu : Bytes) : Bytes :=
  (p.header sdu.length).write (Tiling.part sdu p.start p.stop)

/-- A full SDU, or a part that is neither empty nor the full SDU. -/
structure Fits (p : UmNrPiece) (length : ℕ) : Prop where
  full : p.sn = none → p.start = 0 ∧ p.stop = length
  segment : p.sn ≠ none → p.start < p.stop ∧ (p.start = 0 → p.stop ≠ length)
  stop_le : p.stop ≤ length

variable {p : UmNrPiece} {length : ℕ}

theorem Fits.coded (h : p.Fits length) (hlen : length < 2 ^ 16) : (p.header length).Coded where
  snSize := rfl
  sn := Nat.mod_lt _ (by decide)
  snFull := fun hfull => by
    have hnone : p.sn = none := by
      by_contra hne
      unfold header si at hfull
      split_ifs at hfull
    unfold header
    rw [hnone]
    rfl
  so := by
    by_cases hnone : p.sn = none
    · change p.start < 2 ^ 16
      rw [(h.full hnone).1]
      exact Nat.two_pow_pos 16
    · exact ((h.segment hnone).1.trans_le h.stop_le).trans hlen
  hasSo := by
    unfold header si
    dsimp only
    split_ifs with hnone hzero hstop
    · rw [(h.full hnone).1]
      decide
    · rw [hzero]
      decide
    · simp [NrSiField.hasSo, hzero]
    · simp [NrSiField.hasSo, hzero]

theorem header_si_eq_fullSdu : (p.header length).si = .fullSdu ↔ p.sn = none := by
  unfold header si
  split_ifs with hnone <;> simp [hnone]

end UmNrPiece

/-- The pieces `ps` of the first `n` SDUs, of which `S` were sent in segments, and of the next one
up to the offset `cur`, if there is one. -/
structure Cut (length : ℕ → ℕ) (ps : List UmNrPiece) (n S : ℕ) (cur : Option ℕ) : Prop where
  fits : ∀ p ∈ ps, p.Fits (length p.sdu)
  order : ps.Pairwise fun p q =>
    (p.sdu < q.sdu ∧ ∀ a b, p.sn = some a → q.sn = some b → a < b) ∨
      (p.sdu = q.sdu ∧ p.sn = q.sn ∧ p.sn ≠ none ∧ p.stop ≤ q.start)
  done : ∀ p ∈ ps, (p.sdu < n ∧ ∀ a, p.sn = some a → a < S) ∨
    (p.sdu = n ∧ p.sn = some S ∧ ∃ o, cur = some o ∧ p.stop ≤ o)
  first : ∀ i, (i < n ∨ i = n ∧ cur ≠ none) → ∃ p ∈ ps, p.sdu = i ∧ p.start = 0
  next : ∀ p ∈ ps, p.stop = (if p.sdu = n then cur.getD 0 else length p.sdu) ∨
    ∃ q ∈ ps, q.sdu = p.sdu ∧ q.start = p.stop

namespace Cut

variable {length : ℕ → ℕ} {ps : List UmNrPiece} {n S : ℕ} {cur : Option ℕ}

theorem nil (length : ℕ → ℕ) : Cut length [] 0 0 none where
  fits := List.forall_mem_nil _
  order := List.Pairwise.nil
  done := List.forall_mem_nil _
  first := fun i h => by
    rcases h with h | ⟨-, h⟩
    · exact absurd h (Nat.not_lt_zero i)
    · exact absurd rfl h
  next := List.forall_mem_nil _

section

variable (h : Cut length ps n S cur)
include h

theorem congr {length' : ℕ → ℕ}
    (heq : ∀ i, (i < n ∨ i = n ∧ cur ≠ none) → length' i = length i) :
    Cut length' ps n S cur := by
  have hps : ∀ p ∈ ps, length' p.sdu = length p.sdu := fun p hp => by
    refine heq p.sdu ?_
    rcases h.done p hp with hold | ⟨hsdu, -, o, rfl, -⟩
    · exact Or.inl hold.1
    · exact Or.inr ⟨hsdu, by simp⟩
  exact ⟨fun p hp => by rw [hps p hp]; exact h.fits p hp, h.order, h.done, h.first,
    fun p hp => by rw [hps p hp]; exact h.next p hp⟩

theorem concat {sn : Option ℕ} {stop n' S' : ℕ} {cur' : Option ℕ}
    (hfits : (UmNrPiece.mk n sn (cur.getD 0) stop).Fits (length n))
    (hsn : (sn = none ∧ cur = none) ∨ sn = some S)
    (hstop : stop = if n = n' then cur'.getD 0 else length n)
    (hcur : n' = n ∨ n' = n + 1 ∧ cur' = none)
    (hdone : ∀ p ∈ ps ++ [⟨n, sn, cur.getD 0, stop⟩], (p.sdu < n' ∧ ∀ a, p.sn = some a → a < S') ∨
      (p.sdu = n' ∧ p.sn = some S' ∧ ∃ o, cur' = some o ∧ p.stop ≤ o)) :
    Cut length (ps ++ [⟨n, sn, cur.getD 0, stop⟩]) n' S' cur' where
  fits := List.forall_mem_append.mpr ⟨h.fits, List.forall_mem_singleton.mpr hfits⟩
  order := by
    refine List.pairwise_append.mpr ⟨h.order, List.pairwise_singleton _ _, fun p hp q hq => ?_⟩
    rw [List.mem_singleton.mp hq]
    rcases h.done p hp with ⟨hsdu, hold⟩ | ⟨hsdu, hsn', o, rfl, ho⟩
    · refine Or.inl ⟨hsdu, fun a b ha hb => ?_⟩
      rcases hsn with ⟨rfl, -⟩ | rfl
      · cases hb
      · exact Option.some.inj hb ▸ hold a ha
    · rcases hsn with ⟨-, hcur⟩ | rfl
      · cases hcur
      · exact Or.inr ⟨hsdu, hsn', by simp [hsn'], ho⟩
  done := hdone
  first := fun i hi => by
    have hle : i < n ∨ i = n := by
      rcases hcur with rfl | ⟨rfl, rfl⟩
      · exact hi.imp_right And.left
      · rcases hi with hi | ⟨-, hcur⟩
        · omega
        · exact absurd rfl hcur
    by_cases hold : i < n ∨ i = n ∧ cur ≠ none
    · obtain ⟨p, hp, hfirst⟩ := h.first i hold
      exact ⟨p, List.mem_append_left _ hp, hfirst⟩
    · rw [not_or, not_and, not_not] at hold
      have hi := hle.resolve_left hold.1
      exact ⟨_, List.mem_concat_self, hi.symm, by rw [hold.2 hi]; rfl⟩
  next := fun p hp => by
    rcases List.mem_append.mp hp with hp | hp
    · rcases h.next p hp with hend | ⟨q, hq, hnext⟩
      · split_ifs at hend with hsdu
        · exact Or.inr ⟨_, List.mem_concat_self, hsdu.symm, hend.symm⟩
        · have hne : p.sdu ≠ n' := by rcases h.done p hp with h | h <;> omega
          rw [if_neg hne]
          exact Or.inl hend
      · exact Or.inr ⟨q, List.mem_append_left _ hq, hnext⟩
    · rw [List.mem_singleton.mp hp]
      exact Or.inl hstop

theorem segment (stop : ℕ) (hlt : cur.getD 0 < stop)
    (hstop : stop < length n) :
    Cut length (ps ++ [⟨n, some S, cur.getD 0, stop⟩]) n S (some stop) := by
  refine h.concat ⟨nofun, fun _ => ⟨hlt, fun _ => hstop.ne⟩, hstop.le⟩ (Or.inr rfl)
    (if_pos rfl).symm (Or.inl rfl) fun p hp => ?_
  rcases List.mem_append.mp hp with hp | hp
  · rcases h.done p hp with hold | ⟨hsdu, hsn, o, rfl, ho⟩
    · exact Or.inl hold
    · exact Or.inr ⟨hsdu, hsn, stop, rfl, ho.trans hlt.le⟩
  · rw [List.mem_singleton.mp hp]
    exact Or.inr ⟨rfl, rfl, stop, rfl, le_refl _⟩

theorem finish {sn : Option ℕ} {S' : ℕ}
    (hfits : (UmNrPiece.mk n sn (cur.getD 0) (length n)).Fits (length n))
    (hsn : (sn = none ∧ cur = none ∧ S' = S) ∨ (sn = some S ∧ cur ≠ none ∧ S' = S + 1)) :
    Cut length (ps ++ [⟨n, sn, cur.getD 0, length n⟩]) (n + 1) S' none := by
  have hle : S ≤ S' := by rcases hsn with ⟨-, -, rfl⟩ | ⟨-, -, rfl⟩ <;> omega
  refine h.concat hfits (hsn.imp (fun h => ⟨h.1, h.2.1⟩) And.left)
    (if_neg (Nat.lt_succ_self n).ne).symm (Or.inr ⟨rfl, rfl⟩) fun p hp => Or.inl ?_
  rcases List.mem_append.mp hp with hp | hp
  · rcases h.done p hp with ⟨hsdu, hold⟩ | ⟨hsdu, hsn', o, rfl, -⟩
    · exact ⟨by omega, fun a ha => (hold a ha).trans_le hle⟩
    · refine ⟨by omega, fun a ha => ?_⟩
      rcases hsn with ⟨-, hcur, -⟩ | ⟨-, -, rfl⟩
      · cases hcur
      · rw [hsn'] at ha
        exact Option.some.inj ha ▸ Nat.lt_succ_self S
  · rw [List.mem_singleton.mp hp]
    refine ⟨Nat.lt_succ_self n, fun a ha => ?_⟩
    rcases hsn with ⟨rfl, -⟩ | ⟨rfl, -, rfl⟩
    · cases ha
    · exact Option.some.inj ha ▸ Nat.lt_succ_self S

end

end Cut
end SrsLte

/-!
The writer of a header with a sequence number of 12 bits puts the lowest four bits of the number
into the first byte, where the reader expects the upper ones, and moves them by four; the writer
leaves out an offset of zero, and one of the two bytes in front of a full SDU.
-/

namespace SrsLte

def UmNrSnSize.width : UmNrSnSize → ℕ
  | size6bits => 6
  | size12bits => 12

namespace UmNrPduHeader

/-- What `rlc_um_nr_read_data_pdu_header` returns: the bytes that it consumes. -/
def consumed (snSize : UmNrSnSize) (payload : Bytes) : ℕ :=
  let byte := fun i => (payload.getD i 0).toNat
  let si := NrSiField.ofCode (byte 0 >>> 6 &&& 0x03)
  let so := if si.hasSo then 2 else 0
  match snSize with
  | .size6bits => if si = .fullSdu ∧ byte 0 &&& 0x3F ≠ 0 then 0 else 1 + so
  | .size12bits => if si = .firstSegment ∧ byte 0 >>> 4 &&& 0x03 ≠ 0 then 0 else 2 + so

/-- The fields are in their ranges, and an offset is given where there is a field for one. -/
structure InRange (h : UmNrPduHeader) : Prop where
  sn : h.sn < 2 ^ h.snSize.width
  so : h.so < 2 ^ 16
  noSo : h.si.hasSo = false → h.so = 0

/-- The reader recovers the header in front of the message, and written and consumed bytes are the
packed length. -/
structure ReadsBack (h : UmNrPduHeader) (msg : Bytes) : Prop where
  si : (read h.snSize (h.write msg)).si = h.si
  sn : h.si ≠ .fullSdu → (read h.snSize (h.write msg)).sn = h.sn
  so : h.si.hasSo = true → (read h.snSize (h.write msg)).so = h.so
  written : h.fields.length = h.packedLength
  consumed : consumed h.snSize (h.write msg) = h.packedLength

/-- The upper four of the 12 bits are zero, and the lowest four are set only where the ones in the
middle are. -/
def NibblesAgree (sn : ℕ) : Prop := sn < 256 ∧ sn % 16 ||| sn / 16 = sn / 16

instance (sn : ℕ) : Decidable (NibblesAgree sn) := inferInstanceAs (Decidable (_ ∧ _))

def Regular (h : UmNrPduHeader) : Prop :=
  (h.si.hasSo = true → h.so ≠ 0) ∧
    (h.snSize = .size12bits → h.si ≠ .fullSdu ∧ NibblesAgree h.sn)

variable {h : UmNrPduHeader}

theorem length_fields_eq_iff (hh : h.InRange) : h.fields.length = h.packedLength ↔
    (h.si.hasSo = true → h.so ≠ 0) ∧ (h.snSize = .size12bits → h.si ≠ .fullSdu) := by
  obtain ⟨si, snSize, sn, so⟩ := h
  have hso := hh.noSo
  cases si <;> cases snSize <;> by_cases hzero : so = 0 <;>
    simp_all [fields, packedLength, NrSiField.hasSo]

theorem fixedByte12 : ∀ si : NrSiField, ∀ low < 16,
    let x := (UInt8.ofNat ((si.code &&& 0x03) <<< 6 ||| low)).toNat
    NrSiField.ofCode (x >>> 6 &&& 0x03) = si ∧ x &&& 0x0F = low ∧ x >>> 4 &&& 0x03 = 0 := by
  intro si
  cases si <;> decide

def readSn (snSize : UmNrSnSize) (sn : ℕ) : ℕ :=
  match snSize with
  | .size6bits => sn
  | .size12bits => (sn &&& 0xf) <<< 4 ||| ((UInt8.ofNat (sn &&& 0xFF)).toNat &&& 0xFF)

theorem readSn12_iff {sn : ℕ} (hsn : sn < 2 ^ 12) :
    readSn .size12bits sn = sn ↔ NibblesAgree sn := by
  have hlow : sn &&& 0xf = sn % 16 := LengthIndicators.and_low sn 4
  have hbyte : sn % 256 &&& 0xFF = sn % 256 % 256 := LengthIndicators.and_low _ 8
  have hmod : sn % 16 < 2 ^ 4 := Nat.mod_lt _ (by decide)
  have hsplit : sn % 256 = (sn / 16 % 16) <<< 4 ||| sn % 16 := by
    rw [LengthIndicators.or_high hmod]
    omega
  have hor : sn % 16 ||| sn / 16 % 16 < 2 ^ 4 :=
    Nat.or_lt_two_pow hmod (Nat.mod_lt _ (by decide))
  rw [readSn, hlow, LengthIndicators.toNat_third, hbyte, Nat.mod_mod, hsplit, ← Nat.lor_assoc,
    ← Nat.shiftLeft_or_distrib, LengthIndicators.or_high hmod, NibblesAgree]
  constructor
  · intro h
    refine ⟨by omega, ?_⟩
    rw [show sn / 16 = sn / 16 % 16 by omega]
    omega
  · rintro ⟨hlt, h⟩
    rw [show sn / 16 % 16 = sn / 16 by omega, h]
    omega

def offset (rest : Bytes) : ℕ :=
  ((rest.getD 0 0).toNat &&& 0xFF) <<< 8 ||| ((rest.getD 1 0).toNat &&& 0xFF)

theorem read_cons6 {si : NrSiField} {sn : ℕ} {x : UInt8}
    (hsi : NrSiField.ofCode (x.toNat >>> 6 &&& 0x03) = si) (hsn : x.toNat &&& 0x3F = sn)
    (rest : Bytes) :
    read .size6bits (x :: rest) = ⟨si, .size6bits, sn, if si.hasSo then offset rest else 0⟩ ∧
      consumed .size6bits (x :: rest) =
        if si = .fullSdu ∧ sn ≠ 0 then 0 else 1 + if si.hasSo then 2 else 0 := by
  subst hsi hsn
  exact ⟨rfl, rfl⟩

theorem read_cons12 {si : NrSiField} {low : ℕ} {x : UInt8}
    (hsi : NrSiField.ofCode (x.toNat >>> 6 &&& 0x03) = si) (hlow : x.toNat &&& 0x0F = low)
    (hreserved : x.toNat >>> 4 &&& 0x03 = 0) (y : UInt8) (rest : Bytes) :
    read .size12bits (x :: y :: rest) =
        ⟨si, .size12bits, low <<< 4 ||| (y.toNat &&& 0xFF), if si.hasSo then offset rest else 0⟩ ∧
      consumed .size12bits (x :: y :: rest) = 2 + if si.hasSo then 2 else 0 := by
  subst hsi hlow
  have hvalid : ¬ (NrSiField.ofCode (x.toNat >>> 6 &&& 0x03) = .firstSegment ∧
      x.toNat >>> 4 &&& 0x03 ≠ 0) := fun h => h.2 hreserved
  exact ⟨if_neg hvalid, if_neg hvalid⟩

theorem offset_fields {so : ℕ} (hso : so < 2 ^ 16) (msg : Bytes) :
    offset ([UInt8.ofNat (so >>> 8), UInt8.ofNat (so &&& 0xFF)] ++ msg) = so := read_so hso

theorem offset_eq (hh : h.InRange) (hso : h.si.hasSo = true → h.so ≠ 0) (msg : Bytes) :
    (if h.si.hasSo then offset ((if h.so ≠ 0 then
      [UInt8.ofNat (h.so >>> 8), UInt8.ofNat (h.so &&& 0xFF)] else []) ++ msg) else 0) = h.so := by
  by_cases hhas : h.si.hasSo = true
  · rw [if_pos hhas, if_pos (hso hhas)]
    exact offset_fields hh.so msg
  · rw [if_neg hhas]
    exact (hh.noSo (Bool.eq_false_of_not_eq_true hhas)).symm

theorem read_write_segment (hh : h.InRange) (hfull : h.si ≠ .fullSdu)
    (hso : h.si.hasSo = true → h.so ≠ 0) (msg : Bytes) :
    read h.snSize (h.write msg) = { h with sn := readSn h.snSize h.sn } ∧
      consumed h.snSize (h.write msg) = h.packedLength := by
  have hlength := (length_fields_eq_iff hh).mpr ⟨hso, fun _ => hfull⟩
  have hoffset := offset_eq hh hso msg
  rw [write_eq_of_length hlength]
  obtain ⟨si, snSize, sn, so⟩ := h
  dsimp only at hfull hoffset ⊢
  rw [fields]
  dsimp only
  rw [if_neg hfull, List.append_assoc]
  cases snSize with
  | size6bits =>
    obtain ⟨hsi, hsn⟩ := fixedByte si sn hh.sn
    obtain ⟨hread, hconsumed⟩ := read_cons6 hsi hsn ((if so ≠ 0 then
      [UInt8.ofNat (so >>> 8), UInt8.ofNat (so &&& 0xFF)] else []) ++ msg)
    rw [hoffset] at hread
    refine ⟨hread, hconsumed.trans ?_⟩
    rw [if_neg (fun hc => hfull hc.1)]
    cases si <;> first | exact absurd rfl hfull | rfl
  | size12bits =>
    have hlow : sn &&& 0xf < 16 := by
      have heq : sn &&& 0xf = sn % 16 := LengthIndicators.and_low sn 4
      omega
    obtain ⟨hsi, hnibble, hreserved⟩ := fixedByte12 si _ hlow
    obtain ⟨hread, hconsumed⟩ := read_cons12 hsi hnibble hreserved (UInt8.ofNat (sn &&& 0xFF))
      ((if so ≠ 0 then [UInt8.ofNat (so >>> 8), UInt8.ofNat (so &&& 0xFF)] else []) ++ msg)
    rw [hoffset] at hread
    refine ⟨hread, hconsumed.trans ?_⟩
    cases si <;> first | exact absurd rfl hfull | rfl

theorem read_write_full (sn so : ℕ) (msg : Bytes) :
    read .size6bits (write ⟨.fullSdu, .size6bits, sn, so⟩ msg) = ⟨.fullSdu, .size6bits, 0, 0⟩ ∧
      consumed .size6bits (write ⟨.fullSdu, .size6bits, sn, so⟩ msg) = 1 := by
  have hfields : fields ⟨.fullSdu, .size6bits, sn, so⟩ =
      [UInt8.ofNat ((NrSiField.fullSdu.code &&& 0x03) <<< 6)] := by
    rw [fields]
    exact if_pos rfl
  have hlength : (fields ⟨.fullSdu, .size6bits, sn, so⟩).length =
      packedLength ⟨.fullSdu, .size6bits, sn, so⟩ := by
    rw [hfields]
    rfl
  rw [write_eq_of_length hlength, hfields, List.singleton_append]
  exact @read_cons6 .fullSdu 0 (UInt8.ofNat ((NrSiField.fullSdu.code &&& 0x03) <<< 6))
    (by decide) (by decide) msg

/-- A header is read back if and only if it meets the condition. -/
theorem readsBack_iff_regular (h : UmNrPduHeader) (hh : h.InRange) (msg : Bytes) :
    h.ReadsBack msg ↔ h.Regular := by
  by_cases hlength : h.fields.length = h.packedLength
  · obtain ⟨hso, hfull⟩ := (length_fields_eq_iff hh).mp hlength
    by_cases hsi : h.si = .fullSdu
    · obtain ⟨si, snSize, sn, so⟩ := h
      dsimp only at hsi hfull
      subst hsi
      cases snSize with
      | size6bits =>
        obtain ⟨hread, hconsumed⟩ := read_write_full sn so msg
        refine iff_of_true ⟨?_, fun h => absurd rfl h, fun h => (by cases h), hlength, hconsumed⟩
          ⟨hso, fun h => (by cases h)⟩
        dsimp only
        rw [hread]
      | size12bits => exact absurd rfl (hfull rfl)
    · obtain ⟨hread, hconsumed⟩ := read_write_segment hh hsi hso msg
      have hiff : readSn h.snSize h.sn = h.sn ↔ (h.snSize = .size12bits → NibblesAgree h.sn) := by
        have hsn := hh.sn
        cases hsize : h.snSize with
        | size6bits => exact iff_of_true rfl fun h => by cases h
        | size12bits =>
          rw [hsize] at hsn
          rw [readSn12_iff hsn]
          exact ⟨fun h _ => h, fun h => h rfl⟩
      constructor
      · intro hback
        have hsn := hback.sn hsi
        rw [hread] at hsn
        exact ⟨hso, fun hsize => ⟨hsi, hiff.mp hsn hsize⟩⟩
      · intro hreg
        have hsn := hiff.mpr fun hsize => (hreg.2 hsize).2
        rw [hsn] at hread
        refine ⟨?_, fun _ => ?_, fun _ => ?_, hlength, hconsumed⟩ <;> rw [hread]
  · refine iff_of_false (fun hback => hlength hback.written) fun hreg => hlength ?_
    exact (length_fields_eq_iff hh).mpr ⟨hreg.1, fun hsize => (hreg.2 hsize).1⟩

/-- The first segment with the SN 0x32 of 12 bits, whose lowest nibble is part of the next one, and
the last segment with an SN of 6 bits. -/
theorem readsBack_segments :
    (ReadsBack ⟨.firstSegment, .size12bits, 0x32, 0⟩ [0xAA] ↔
      Regular ⟨.firstSegment, .size12bits, 0x32, 0⟩) ∧
    (ReadsBack ⟨.lastSegment, .size6bits, 63, 300⟩ [0xAA] ↔
      Regular ⟨.lastSegment, .size6bits, 63, 300⟩) :=
  ⟨readsBack_iff_regular _ ⟨by decide, by decide, by decide⟩ _,
    readsBack_iff_regular _ ⟨by decide, by decide, by decide⟩ _⟩

/-- The first segment with the SN 1 of 12 bits is read with the SN 17. -/
theorem sn_one_read_as_17 :
    ¬ ∀ h : UmNrPduHeader, h.InRange → ∀ msg : Bytes, h.ReadsBack msg := by
  intro h
  have hback := h ⟨.firstSegment, .size12bits, 1, 0⟩ ⟨by decide, by decide, by decide⟩ []
  have hsn := hback.sn (by decide)
  exact absurd hsn (by decide)

end UmNrPduHeader
end SrsLte
