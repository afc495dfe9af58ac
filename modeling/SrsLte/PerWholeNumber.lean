import Mathlib.Data.Nat.Log
import Mathlib.Tactic.Zify
import SrsLte.BitRef
import SrsLte.IntType

/-!
# Constrained whole numbers

The PER functions for a whole number between two bounds. Logarithms are exact. The logarithm of
zero is minus infinity, which the conversion to `uint32_t` turns into `0`.
-/

namespace SrsLte

open BitField

/-- `ceilf(log2f(n))` -/
def ceilLog2 (n : ℕ) : ℕ := Nat.clog 2 n

/-- `floorf(log2f(n) + 1)` -/
def bitLength (n : ℕ) : ℕ := if n = 0 then 0 else Nat.log 2 n + 1

def ceilFrac (n d : ℕ) : ℕ := (n + (d - 1)) / d

/-- The argument of `pack`. -/
def toUint32 (x : ℤ) : ℕ := (x % 2 ^ 32).toNat

/-- `ra`: the size of the range, which may overflow. -/
def rangeSize (lb ub : ℤ) : ℕ := ((ub - lb).toNat + 1) % 2 ^ 64

/-- The template `unpack`, at one of the integer types. -/
def BitRef.unpackInt (t : IntType) (b : BitRef) (nBits : ℕ) : Unpacked ℤ :=
  ⟨t.wrap (b.unpack nBits).val, (b.unpack nBits).cur, (b.unpack nBits).ok⟩

def packOctets (b : BitRef) (toencode : ℤ) (nBits : ℕ) : BitRef × Bool :=
  let nOctets := ceilFrac nBits 8
  handleCode b.alignBytesZero fun b =>
  handleCode (b.pack 0 (nOctets * 8 - nBits)) fun b =>
  handleCode (b.pack (toUint32 toencode) nBits) fun b =>
  b.alignBytesZero

def packIndefinite (b : BitRef) (toencode : ℤ) (nBits : ℕ) : BitRef × Bool :=
  let nBitsLen := ceilLog2 (ceilFrac nBits 8)
  let nBits := bitLength toencode.toNat
  let nOctets := (nBits + 7) / 8
  handleCode (b.pack (toUint32 (nOctets - 1)) nBitsLen) fun b =>
  handleCode b.alignBytesZero fun b =>
  handleCode (b.pack 0 (nOctets * 8 - nBits)) fun b =>
  b.pack (toUint32 toencode) nBits

def packConstrainedWholeNumber (t : IntType) (b : BitRef) (n lb ub : ℤ) (aligned : Bool) :
    BitRef × Bool :=
  if ub < lb ∨ n < lb ∨ n > ub then (b, false)
  else
    let ra := rangeSize lb ub
    if ra = 1 then (b, true)
    else
      let nBits := ceilLog2 ra
      let toencode := t.wrap (n - lb)
      if !aligned then
        -- the return code is not looked at
        ((b.pack (toUint32 toencode) nBits).1, true)
      else if ra < 256 then b.pack (toUint32 toencode) nBits
      else if ra ≤ 65536 then packOctets b toencode nBits
      else packIndefinite b toencode nBits

def unpackOctets (t : IntType) (n : ℤ) (b : BitRef) (nBits : ℕ) : Unpacked ℤ :=
  let nOctets := ceilFrac nBits 8
  (Unpacked.ofCode b.alignBytes).handleCode n fun _ b =>
  let r := b.unpackInt t (nOctets * 8)
  r.handleCode r.val fun n b =>
  ⟨n, b.alignBytes.1, b.alignBytes.2⟩

def unpackIndefinite (t : IntType) (n : ℤ) (b : BitRef) (nBits : ℕ) : Unpacked ℤ :=
  let nBitsLen := ceilLog2 (ceilFrac nBits 8)
  (b.unpack nBitsLen).handleCode n fun nOctets b =>
  (Unpacked.ofCode b.alignBytes).handleCode n fun _ b =>
  b.unpackInt t ((nOctets + 1) * 8)

/-- `n` is what the output variable holds before. -/
def unpackConstrainedWholeNumber (t : IntType) (n : ℤ) (b : BitRef) (lb ub : ℤ) (aligned : Bool) :
    Unpacked ℤ :=
  if ub < lb then ⟨n, b, false⟩
  else
    let ra := rangeSize lb ub
    if ra = 1 then ⟨lb, b, true⟩
    else
      let nBits := ceilLog2 ra
      if !aligned then
        let r := b.unpackInt t nBits
        r.handleCode r.val fun n b =>
        ⟨t.wrap (n + lb), b, decide (t.wrap (n + lb) ≤ ub)⟩
      else
        let r :=
          if ra < 256 then b.unpackInt t nBits
          else if ra ≤ 65536 then unpackOctets t n b nBits
          else unpackIndefinite t n b nBits
        r.handleCode r.val fun n b =>
        ⟨t.wrap (n + lb), b, true⟩

end SrsLte

/-!
The decoder reads one field and adds the lower bound. The encoder writes that field, unless the
range is too wide for `pack` or the number is the lower bound of an indefinite length.
-/

namespace SrsLte

open BitField BitRef

variable {t : IntType} {b : BitRef} {n lb ub : ℤ} {nBits v : ℕ} {mem : Memory}

theorem le_ceilFrac (nBits : ℕ) : nBits ≤ ceilFrac nBits 8 * 8 := by
  unfold ceilFrac
  omega

theorem ceilFrac_lt (nBits : ℕ) : ceilFrac nBits 8 * 8 < nBits + 8 := by
  unfold ceilFrac
  omega

theorem toUint32_natCast (v : ℕ) : toUint32 v = v % 2 ^ 32 := rfl

theorem toUint32_of_lt (hv : v < 2 ^ 32) : toUint32 v = v := by
  rw [toUint32_natCast, Nat.mod_eq_of_lt hv]

theorem toUint32_wrap (hwidth : nBits ≤ t.width) (hbits : nBits ≤ 32) (hv : v < 2 ^ nBits) :
    toUint32 (t.wrap v) % 2 ^ nBits = v := by
  have hdvd : (2 : ℤ) ^ nBits ∣ 2 ^ t.width := pow_dvd_pow 2 hwidth
  have hdvd' : (2 : ℤ) ^ nBits ∣ 2 ^ 32 := pow_dvd_pow 2 hbits
  have hnonneg : 0 ≤ t.wrap v % 2 ^ 32 := Int.emod_nonneg _ (by decide)
  zify
  rw [toUint32, Int.toNat_of_nonneg hnonneg, Int.emod_emod_of_dvd _ hdvd',
    ← Int.emod_emod_of_dvd _ hdvd, IntType.wrap_emod, Int.emod_emod_of_dvd _ hdvd]
  exact Int.emod_eq_of_lt (Int.natCast_nonneg v) (by exact_mod_cast hv)

theorem lt_two_pow_bitLength (v : ℕ) : v < 2 ^ bitLength v := by
  unfold bitLength
  split_ifs with hzero
  · omega
  · exact Nat.lt_pow_succ_log_self Nat.one_lt_two v

theorem bitLength_le (hv : v < 2 ^ nBits) : bitLength v ≤ nBits := by
  unfold bitLength
  split_ifs with hzero
  · exact Nat.zero_le _
  · exact Nat.log_lt_of_lt_pow hzero hv

theorem bitLength_pos (hv : v ≠ 0) : 0 < bitLength v := by
  rw [bitLength, if_neg hv]
  exact Nat.succ_pos _

def numberField (b : BitRef) (ra : ℕ) (aligned : Bool) : BitRef × ℕ :=
  let nBits := ceilLog2 ra
  if !aligned || ra < 256 then (b, nBits)
  else if ra ≤ 65536 then (b.advance b.padding, ceilFrac nBits 8 * 8)
  else
    let nBitsLen := ceilLog2 (ceilFrac nBits 8)
    let c := b.advance nBitsLen
    (c.advance c.padding, (field b.mem b.pos nBitsLen + 1) * 8)

def Reads (f : BitRef × ℕ) : Prop := f.2 ≤ 32 ∧ f.1.Room f.2

def numberRead (f : BitRef × ℕ) : ℕ := field f.1.mem f.1.pos f.2

theorem unpackInt_spec (hn : nBits ≤ 32) (hroom : b.Room nBits) :
    b.unpackInt t nBits = ⟨t.wrap (field b.mem b.pos nBits), b.advance nBits, true⟩ := by
  rw [unpackInt, unpack_spec hn hroom]

theorem unpackInt_ok : (b.unpackInt t nBits).ok = true ↔ nBits ≤ 32 ∧ b.Room nBits := unpack_ok

theorem room_of_advance (h : (b.advance v).Room nBits) (hn : nBits ≠ 0) : b.Room v := by
  have hpos := h.resolve_left hn
  rw [pos_advance, max_advance] at hpos
  right
  omega

theorem padding_octets (h : b.padding = 0) (k : ℕ) : (b.advance (k * 8)).padding = 0 := by
  have hmod : (b.advance (k * 8)).offset = b.offset := by
    have hoff := b.offset_lt
    have hpos : (b.advance (k * 8)).offset = (8 * b.ptr + b.offset + k * 8) % 8 := rfl
    omega
  rw [padding, hmod]
  exact h

theorem alignBytes_octets (h : b.padding = 0) (k : ℕ) :
    (b.advance (k * 8)).alignBytes = (b.advance (k * 8), true) := by
  have hpad := padding_octets h k
  rw [alignBytes_spec (.inl hpad), hpad, advance_zero]

theorem unpackOctets_spec (hbits : ceilFrac nBits 8 * 8 ≤ 32)
    (hroom : (b.advance b.padding).Room (ceilFrac nBits 8 * 8)) (hpad : b.Room b.padding) :
    unpackOctets t n b nBits =
      ⟨t.wrap (field b.mem (b.advance b.padding).pos (ceilFrac nBits 8 * 8)),
        (b.advance b.padding).advance (ceilFrac nBits 8 * 8), true⟩ := by
  simp only [unpackOctets, alignBytes_spec hpad, ofCode_eq, unpacked_handleCode_true,
    unpackInt_spec hbits hroom, alignBytes_octets padding_aligned, mem_advance]

theorem unpackIndefinite_spec (hlen : ceilLog2 (ceilFrac nBits 8) ≤ 32)
    (hroomLen : b.Room (ceilLog2 (ceilFrac nBits 8))) :
    let c := b.advance (ceilLog2 (ceilFrac nBits 8))
    let bits := (field b.mem b.pos (ceilLog2 (ceilFrac nBits 8)) + 1) * 8
    c.Room c.padding → bits ≤ 32 → (c.advance c.padding).Room bits →
    unpackIndefinite t n b nBits =
      ⟨t.wrap (field b.mem (c.advance c.padding).pos bits), (c.advance c.padding).advance bits,
        true⟩ := by
  intro c bits hpad hbits hroom
  simp only [unpackIndefinite, unpack_spec hlen hroomLen, unpacked_handleCode_true, ofCode_eq,
    alignBytes_spec hpad, unpackInt_spec hbits hroom, mem_advance, c, bits]

theorem unpackOctets_ok (hok : (unpackOctets t n b nBits).ok = true) :
    b.Room b.padding ∧ ceilFrac nBits 8 * 8 ≤ 32 ∧
      (b.advance b.padding).Room (ceilFrac nBits 8 * 8) := by
  obtain ⟨halign, hrest⟩ := unpacked_handleCode_ok.mp hok
  have hpad := alignBytes_ok.mp halign
  rw [ofCode_eq, alignBytes_spec hpad] at hrest
  exact ⟨hpad, unpackInt_ok.mp (unpacked_handleCode_ok.mp hrest).1⟩

theorem unpackIndefinite_ok (hok : (unpackIndefinite t n b nBits).ok = true) :
    let c := b.advance (ceilLog2 (ceilFrac nBits 8))
    let bits := (field b.mem b.pos (ceilLog2 (ceilFrac nBits 8)) + 1) * 8
    bits ≤ 32 ∧ (c.advance c.padding).Room bits := by
  obtain ⟨hlen, hrest⟩ := unpacked_handleCode_ok.mp hok
  obtain ⟨hbits, hroom⟩ := unpack_ok.mp hlen
  rw [unpack_spec hbits hroom] at hrest
  obtain ⟨halign, hnumber⟩ := unpacked_handleCode_ok.mp hrest
  have hpad := alignBytes_ok.mp halign
  rw [ofCode_eq, alignBytes_spec hpad] at hnumber
  exact unpackInt_ok.mp hnumber

def readNumber (t : IntType) (n : ℤ) (b : BitRef) (ra : ℕ) (aligned : Bool) : Unpacked ℤ :=
  if !aligned || ra < 256 then b.unpackInt t (ceilLog2 ra)
  else if ra ≤ 65536 then unpackOctets t n b (ceilLog2 ra)
  else unpackIndefinite t n b (ceilLog2 ra)

variable {ra : ℕ} {aligned : Bool}

theorem ceilLog2_le (hra : ra ≤ 2 ^ nBits) : ceilLog2 ra ≤ nBits :=
  Nat.clog_le_of_le_pow hra

theorem lengthBits_le (hra : ra ≤ 2 ^ 64) : ceilLog2 (ceilFrac (ceilLog2 ra) 8) ≤ 3 := by
  have hbits := ceilLog2_le hra
  apply ceilLog2_le
  unfold ceilFrac
  omega

theorem readNumber_reads (hra : ra ≤ 2 ^ 64) (h : Reads (numberField b ra aligned)) :
    readNumber t n b ra aligned =
      ⟨t.wrap (numberRead (numberField b ra aligned)),
        (numberField b ra aligned).1.advance (numberField b ra aligned).2, true⟩ := by
  obtain ⟨hbits, hroom⟩ := h
  unfold readNumber numberRead
  unfold numberField at hbits hroom ⊢
  dsimp only at hbits hroom ⊢
  split_ifs at hbits hroom ⊢ with hshort hoctets
  · exact unpackInt_spec hbits hroom
  · have hpos : ceilFrac (ceilLog2 ra) 8 * 8 ≠ 0 := by
      have hle := le_ceilFrac (ceilLog2 ra)
      have hlog : 0 < ceilLog2 ra := Nat.clog_pos Nat.one_lt_two (by simp at hshort; omega)
      omega
    exact unpackOctets_spec hbits hroom (room_of_advance hroom hpos)
  · have hpos : (field b.mem b.pos (ceilLog2 (ceilFrac (ceilLog2 ra) 8)) + 1) * 8 ≠ 0 := by omega
    have hpad := room_of_advance hroom hpos
    rw [advance_advance] at hroom
    have hlen := room_mono (room_of_advance hroom hpos) (Nat.le_add_right _ _)
    rw [← advance_advance] at hroom
    exact unpackIndefinite_spec ((lengthBits_le hra).trans (by decide)) hlen hpad hbits hroom

theorem reads_of_readNumber
    (hok : (readNumber t n b ra aligned).ok = true) : Reads (numberField b ra aligned) := by
  unfold readNumber at hok
  unfold Reads numberField
  dsimp only
  split_ifs at hok ⊢ with hshort hoctets
  · exact unpackInt_ok.mp hok
  · exact (unpackOctets_ok hok).2
  · exact unpackIndefinite_ok hok

section

variable (hlt : ¬ub < lb) (hra : rangeSize lb ub ≠ 1)
include hlt hra

/-- The decoder is the reading of the number, the addition, and the check of the upper bound that
only the unaligned variant has. -/
theorem unpackConstrained_eq :
    unpackConstrainedWholeNumber t n b lb ub aligned =
      let r := readNumber t n b (rangeSize lb ub) aligned
      r.handleCode r.val fun n b =>
        ⟨t.wrap (n + lb), b, aligned || decide (t.wrap (n + lb) ≤ ub)⟩ := by
  rw [unpackConstrainedWholeNumber, if_neg hlt]
  simp only [if_neg hra, readNumber]
  cases aligned
  · rfl
  · simp only [Bool.not_true, Bool.false_or, Bool.true_or, decide_eq_true_eq]
    rfl

theorem unpackConstrained_reads (h : Reads (numberField b (rangeSize lb ub) aligned)) :
    let f := numberField b (rangeSize lb ub) aligned
    unpackConstrainedWholeNumber t n b lb ub aligned =
      ⟨t.wrap (numberRead f + lb), f.1.advance f.2,
        aligned || decide (t.wrap (numberRead f + lb) ≤ ub)⟩ := by
  intro f
  have hle : rangeSize lb ub ≤ 2 ^ 64 := Nat.le_of_lt (Nat.mod_lt _ (by decide))
  rw [unpackConstrained_eq hlt hra, readNumber_reads hle h]
  simp only [unpacked_handleCode_true, IntType.wrap_wrap_add, f]

theorem unpackConstrained_ok (hok : (unpackConstrainedWholeNumber t n b lb ub aligned).ok = true) :
    Reads (numberField b (rangeSize lb ub) aligned) := by
  rw [unpackConstrained_eq hlt hra] at hok
  exact reads_of_readNumber (unpacked_handleCode_ok.mp hok).1

end

/-- The encoder left the number where the decoder will read it, and its cursor behind it. -/
def Wrote (b : BitRef) (r : BitRef × Bool) (ra : ℕ) (aligned : Bool) (v : ℕ) : Prop :=
  let f := numberField (b.withMem r.1.mem) ra aligned
  r = (f.1.advance f.2, true) ∧ Reads f ∧ numberRead f = v

theorem wrote_short {e : ℤ}
    (hshort : (!aligned || decide (ra < 256)) = true) (hn : ceilLog2 ra < 32)
    (hroom : b.Room (ceilLog2 ra)) (he : toUint32 e % 2 ^ ceilLog2 ra = v) :
    Wrote b (b.pack (toUint32 e) (ceilLog2 ra)) ra aligned v := by
  obtain ⟨mem, hpack, -, hfield⟩ := pack_spec hn hroom (toUint32 e)
  rw [hpack]
  simp only [Wrote, numberField, if_pos hshort]
  refine ⟨rfl, ⟨Nat.le_of_lt hn, hroom⟩, ?_⟩
  exact hfield.trans he

theorem wrote_octets {e : ℤ} (hlong : ¬ra < 256) (hoctets : ra ≤ 65536)
    (he : toUint32 e % 2 ^ ceilLog2 ra = v) (hok : (packOctets b e (ceilLog2 ra)).2 = true) :
    Wrote b (packOctets b e (ceilLog2 ra)) ra true v := by
  have hshort : ¬(!true || decide (ra < 256)) = true := by simpa using hlong
  have hbits : ceilLog2 ra ≤ 16 := ceilLog2_le hoctets
  have hle := le_ceilFrac (ceilLog2 ra)
  have hceil := ceilFrac_lt (ceilLog2 ra)
  unfold packOctets at hok ⊢
  dsimp only at hok ⊢
  obtain ⟨halign, hrest⟩ := handleCode_ok.mp hok
  have hpad := alignBytesZero_ok.mp halign
  obtain ⟨mem, hzero, -⟩ := alignBytesZero_spec hpad
  rw [hzero] at hrest ⊢
  obtain ⟨mem', -, hfield, -, hroom, hrun⟩ := pack_padded hrest
  rw [handleCode_true, hrun]
  have hwidth : ceilFrac (ceilLog2 ra) 8 * 8 - ceilLog2 ra + ceilLog2 ra =
      ceilFrac (ceilLog2 ra) 8 * 8 := Nat.sub_add_cancel hle
  rw [hwidth, he] at hfield
  rw [hwidth, advance_withMem, withMem_withMem]
  have hpadded : (((b.advance b.padding).advance (ceilFrac (ceilLog2 ra) 8 * 8)).withMem
      mem').padding = 0 := by
    rw [padding_withMem]
    exact padding_octets padding_aligned _
  obtain ⟨mem'', hlast, hagree⟩ := alignBytesZero_spec (.inl hpadded)
  rw [hlast, hpadded, advance_zero, withMem_withMem]
  rw [pos_withMem, pos_advance, mem_withMem] at hagree
  simp only [Wrote, numberField, if_neg hshort, if_pos hoctets]
  refine ⟨rfl, ⟨by omega, hwidth ▸ hroom⟩, ?_⟩
  unfold numberRead
  simp only [mem_advance, mem_withMem, padding_withMem, pos_advance, pos_withMem]
  rw [pos_withMem, pos_advance] at hfield
  rw [hagree.field (by rw [pos_advance]), hfield]

theorem octets_lt (hv : v < 2 ^ ceilLog2 ra) (hpos : v ≠ 0) :
    (bitLength v + 7) / 8 - 1 < 2 ^ ceilLog2 (ceilFrac (ceilLog2 ra) 8) := by
  have hlen := bitLength_le hv
  have hone := bitLength_pos hpos
  have hceil : ceilFrac (ceilLog2 ra) 8 ≤ 2 ^ ceilLog2 (ceilFrac (ceilLog2 ra) 8) :=
    Nat.le_pow_clog Nat.one_lt_two _
  have hle : (bitLength v + 7) / 8 ≤ ceilFrac (ceilLog2 ra) 8 :=
    Nat.div_le_div_right (Nat.add_le_add_right hlen 7)
  omega

theorem wrote_indefinite (hra : ra ≤ 2 ^ 64) (hlong : 65536 < ra) (hpos : v ≠ 0)
    (hv : v < 2 ^ ceilLog2 ra) (hok : (packIndefinite b v (ceilLog2 ra)).2 = true) :
    Wrote b (packIndefinite b v (ceilLog2 ra)) ra true v := by
  have hshort : ¬(!true || decide (ra < 256)) = true := by simp; omega
  have hlenBits := lengthBits_le hra
  have hoctets := octets_lt hv hpos
  have hone := bitLength_pos hpos
  have hcount : toUint32 (((bitLength v + 7) / 8 : ℕ) - 1) = (bitLength v + 7) / 8 - 1 := by
    rw [← Nat.cast_pred (by omega), toUint32_of_lt]
    exact hoctets.trans_le (Nat.pow_le_pow_right (by decide) (hlenBits.trans (by decide)))
  unfold packIndefinite at hok ⊢
  rw [Int.toNat_natCast] at hok ⊢
  dsimp only at hok ⊢
  rw [hcount] at hok ⊢
  generalize hlen : ceilLog2 (ceilFrac (ceilLog2 ra) 8) = len at *
  generalize hbits : (bitLength v + 7) / 8 = octets at *
  obtain ⟨hfirst, hrest⟩ := handleCode_ok.mp hok
  obtain ⟨hlenLt, hroomLen⟩ := pack_ok.mp hfirst
  obtain ⟨mem, hlength, -, hfieldLen⟩ := pack_spec hlenLt hroomLen (octets - 1)
  rw [hlength] at hrest ⊢
  obtain ⟨halign, hnumber⟩ := handleCode_ok.mp hrest
  have hpad := alignBytesZero_ok.mp halign
  obtain ⟨mem₁, hzero, hagree₁⟩ := alignBytesZero_spec hpad
  rw [handleCode_true, hzero, handleCode_true]
  rw [hzero] at hnumber
  obtain ⟨mem₂, hagree₂, hfield, hbitsLt, hroom, hrun⟩ := pack_padded_last hnumber
  rw [hrun]
  have hlt : v < 2 ^ 32 := (lt_two_pow_bitLength v).trans (Nat.pow_lt_pow_right Nat.one_lt_two
    hbitsLt)
  have hwidth : octets * 8 - bitLength v + bitLength v = octets * 8 :=
    Nat.sub_add_cancel (by omega)
  have hone' : octets - 1 + 1 = octets := Nat.sub_add_cancel (by omega)
  rw [toUint32_of_lt hlt, hwidth, Nat.mod_eq_of_lt (lt_two_pow_bitLength v)] at hfield
  rw [hwidth] at hroom ⊢
  simp only [pos_withMem, pos_advance, mem_withMem] at hagree₁
  simp only [pos_withMem, pos_advance, mem_withMem, padding_withMem] at hagree₂ hfield
  have hkept : field mem₂ b.pos len = octets - 1 := by
    rw [hagree₂.field (Nat.le_add_right _ _), hagree₁.field (Nat.le_refl _), hfieldLen,
      Nat.mod_eq_of_lt hoctets]
  simp only [Wrote, numberField, if_neg hshort, if_neg (Nat.not_le.mpr hlong), hlen, numberRead,
    mem_withMem, pos_withMem, hkept, hone', pos_advance, advance_withMem, padding_withMem,
    withMem_withMem]
  have hle : octets * 8 ≤ 32 := by omega
  exact ⟨trivial, ⟨hle, hroom⟩, hfield⟩

theorem packIndefinite_zero {len : ℕ} (hlen : ceilLog2 (ceilFrac nBits 8) = len)
    (hpos : len ≠ 0) (hlenLt : len < 32) (hroom : b.Room len) :
    ∃ mem, packIndefinite b 0 nBits =
        (((b.advance len).advance (b.advance len).padding).withMem mem, true) ∧
      field mem b.pos len = 2 ^ len - 1 := by
  obtain ⟨mem, hpack, -, hfield⟩ := pack_spec hlenLt hroom (2 ^ 32 - 1)
  have hpad := room_padding_of_room hroom hpos
  obtain ⟨mem', halign, hagree⟩ := alignBytesZero_spec (b := (b.advance len).withMem mem) hpad
  refine ⟨mem', ?_, ?_⟩
  · have hcount : toUint32 (((bitLength 0 + 7) / 8 : ℕ) - 1) = 2 ^ 32 - 1 := by decide
    simp only [packIndefinite, hlen, Int.toNat_zero, hcount, hpack, handleCode_true, halign]
    rfl
  · rw [pos_withMem, pos_advance, mem_withMem] at hagree
    have hdvd : 2 ^ 32 = 2 ^ len * 2 ^ (32 - len) := by
      rw [← Nat.pow_add, Nat.add_sub_cancel' (Nat.le_of_lt hlenLt)]
    have hmod : (2 ^ 32 - 1) % 2 ^ len = 2 ^ len - 1 := by
      have hone := Nat.one_le_two_pow (n := len)
      have hone' := Nat.one_le_two_pow (n := 32 - len)
      have hsplit : 2 ^ 32 - 1 = 2 ^ len - 1 + 2 ^ len * (2 ^ (32 - len) - 1) := by
        rw [Nat.mul_sub, ← hdvd, Nat.mul_one]
        have hle : 2 ^ len ≤ 2 ^ 32 := Nat.pow_le_pow_right (by decide) (Nat.le_of_lt hlenLt)
        omega
      rw [hsplit, Nat.add_mul_mod_self_left, Nat.mod_eq_of_lt (by omega)]
    rw [hagree.field (Nat.le_refl _), hfield, hmod]

end SrsLte
