import SrsLte.PerLengthAgreement
import SrsLte.PerWholeNumberRoundTrip

/-!
# When an integer survives

The decoder of an unconstrained whole number reads a length that its encoder does not write, so
the two never agree. What is left of integers is the constrained case.
-/

namespace SrsLte

open BitField BitRef

variable {t : IntType} {b c : BitRef} {n lb ub : ℤ} {val bits old nBits : ℕ} {aligned : Bool}
  {mem : Memory}

/-- A number packed successfully is unpacked from the produced bits, to the same cursor. -/
def UnconstrainedRoundTrip (t : IntType) (b : BitRef) (n : ℤ) (aligned : Bool) : Prop :=
  let r := packUnconstrainedWholeNumber t b n aligned
  ∀ old len, r.2 = true →
    unpackUnconstrainedWholeNumber t old len (b.withMem r.1.mem) aligned = ⟨n, r.1, true⟩

def UnconstrainedFits (t : IntType) (b : BitRef) (n : ℤ) (aligned : Bool) : Prop :=
  octetBits (unconstrainedWholeNumberLength t n) < 32 ∧ b.Enters aligned ∧
    (b.entry aligned).Room (octetBits (unconstrainedWholeNumberLength t n))

theorem octetBits_natCast {len : ℕ} (hlen : len < 2 ^ 29) : octetBits len = len * 8 := by
  rw [octetBits, toUint32_of_lt (by omega), Nat.mod_eq_of_lt (by omega)]

theorem octetBits_nonpos (hn : n ≤ 0) : octetBits (unconstrainedWholeNumberLength t n) = 0 := by
  rw [unconstrainedWholeNumberLength, if_pos hn]
  cases t <;> rfl

/-- The low octets of a number, read alone, are not the number when the octets before them are
neither all zeros nor all ones. -/
theorem wrap_low_ne {x hi : ℕ}
    (h : (val = 1 ∧ bits = 8 ∧ hi = 1) ∨ (val = 2 ∧ bits = 8 ∧ hi = 2) ∨
      (val = 1 ∧ bits = 16 ∧ hi = 2 ^ 15 + 1))
    (hx : x < 2 ^ (val * 8))
    (hfield : hi * 2 ^ (val * 8) + x = toUint32 (t.wrap x) % 2 ^ (bits + val * 8)) : False := by
  unfold toUint32 IntType.wrap IntType.min at hfield
  rcases h with ⟨rfl, rfl, rfl⟩ | ⟨rfl, rfl, rfl⟩ | ⟨rfl, rfl, rfl⟩ <;>
    cases t <;> simp only [IntType.width, IntType.signed] at hfield <;> simp at hfield hx <;> omega

theorem rest_ne (hne : n ≠ 0) (h : LengthAt c val bits) (hbits : nBits = bits + val * 8)
    (hlt : nBits < 32) (hfield : field c.mem c.pos nBits = toUint32 n % 2 ^ nBits) :
    t.wrap (field c.mem (c.pos + bits) (val * 8)) ≠ n := by
  intro hwrap
  have hrest := field_lt c.mem (c.pos + bits) (val * 8)
  have hpos : val ≠ 0 := by
    rintro rfl
    apply hne
    rw [← hwrap]
    exact IntType.wrap_eq ⟨t.min_nonpos, t.max_pos.le⟩
  rw [hbits, field_add, ← hwrap] at hfield
  obtain ⟨-, ⟨rfl, hval, hhigh⟩ | ⟨rfl, hval, hhigh⟩⟩ := h
  · rw [hhigh] at hfield
    exact wrap_low_ne (by omega) hrest hfield
  · rw [hhigh] at hfield
    obtain rfl : val = 1 := by omega
    exact wrap_low_ne (by omega) hrest hfield

theorem padding_entry (haligned : aligned = true) : (b.entry aligned).padding = 0 := by
  subst haligned
  exact padding_aligned

theorem lengthAt_octets (h : LengthAt c val bits) : ∃ k, bits = k * 8 := by
  obtain ⟨-, ⟨rfl, -⟩ | ⟨rfl, -⟩⟩ := h
  · exact ⟨1, rfl⟩
  · exact ⟨2, rfl⟩

theorem unpackUnconstrained_ok {len : ℕ}
    (hok : (unpackUnconstrainedWholeNumber t n len b aligned).ok = true) :
    ∃ val bits, LengthAt (b.entry aligned) val bits ∧
      unpackUnconstrainedWholeNumber t n len b aligned =
        ⟨t.wrap (field b.mem ((b.entry aligned).pos + bits) (val * 8)),
          (b.entry aligned).advance (bits + val * 8), true⟩ := by
  obtain ⟨hlength, hrest⟩ := unpacked_handleCode_ok.mp hok
  obtain ⟨-, val, bits, hat, hread⟩ := unpackLength_ok hlength
  refine ⟨val, bits, hat, ?_⟩
  have hval : octetBits val = val * 8 := by
    apply octetBits_natCast
    obtain ⟨-, ⟨-, hval, -⟩ | ⟨-, hval, -⟩⟩ := hat <;> omega
  rw [hread] at hrest
  rw [unpackUnconstrainedWholeNumber, hread, unpacked_handleCode_true]
  dsimp only at hrest
  rw [hval] at hrest ⊢
  have hmem : b.mem = (b.entry aligned).mem := mem_entry.symm
  rw [hmem]
  have hentry : aligned = true → (b.entry aligned).padding = 0 := padding_entry
  generalize b.entry aligned = c at *
  have halign : aligned = true → (c.advance bits).alignBytes = (c.advance bits, true) := by
    intro haligned
    obtain ⟨k, rfl⟩ := lengthAt_octets hat
    exact alignBytes_octets (hentry haligned) k
  have hnumber : (if aligned = true then
        (Unpacked.ofCode (c.advance bits).alignBytes).handleCode n fun _ b =>
          b.unpackInt t (val * 8)
      else (c.advance bits).unpackInt t (val * 8)) = (c.advance bits).unpackInt t (val * 8) := by
    split_ifs with haligned
    · rw [halign haligned, ofCode_eq, unpacked_handleCode_true]
    · rfl
  rw [hnumber] at hrest ⊢
  obtain ⟨hbits, hroom⟩ := unpackInt_ok.mp hrest
  rw [unpackInt_spec hbits hroom, pos_advance, mem_advance, advance_advance]

theorem packUnconstrained_ok (hok : (packUnconstrainedWholeNumber t b n aligned).2 = true) :
    let nBits := octetBits (unconstrainedWholeNumberLength t n)
    UnconstrainedFits t b n aligned ∧ ∃ mem,
      packUnconstrainedWholeNumber t b n aligned =
        (((b.entry aligned).advance nBits).withMem mem, true) ∧
      field mem (b.entry aligned).pos nBits = toUint32 n % 2 ^ nBits := by
  intro nBits
  cases aligned
  · obtain ⟨hn, hroom⟩ := pack_ok.mp hok
    obtain ⟨mem, hpack, -, hfield⟩ := pack_spec hn hroom (toUint32 n)
    exact ⟨⟨hn, fun h => absurd h Bool.false_ne_true, hroom⟩, mem, hpack, hfield⟩
  · simp only [packUnconstrainedWholeNumber, if_true] at hok ⊢
    obtain ⟨halign, hrest⟩ := handleCode_ok.mp hok
    have hpad := alignBytesZero_ok.mp halign
    obtain ⟨mem, hzero, -⟩ := alignBytesZero_spec hpad
    rw [hzero] at hrest ⊢
    obtain ⟨hn, hroom⟩ := pack_ok.mp hrest
    obtain ⟨mem', hpack, -, hfield⟩ := pack_spec hn hroom (toUint32 n)
    rw [handleCode_true, hpack]
    exact ⟨⟨hn, fun _ => hpad, hroom⟩, mem', rfl, hfield⟩

theorem packUnconstrained_fits (h : UnconstrainedFits t b n aligned) :
    (packUnconstrainedWholeNumber t b n aligned).2 = true := by
  obtain ⟨hn, henter, hroom⟩ := h
  cases aligned
  · exact pack_ok.mpr ⟨hn, hroom⟩
  · obtain ⟨mem, hzero, -⟩ := alignBytesZero_spec (henter rfl)
    simp only [packUnconstrainedWholeNumber, if_true, hzero, handleCode_true]
    exact pack_ok.mpr ⟨hn, hroom⟩

theorem unpackUnconstrained_ne (lb : ℤ) (len : ℕ)
    (hok : (packUnconstrainedWholeNumber t b n aligned).2 = true) :
    unpackUnconstrainedWholeNumber t lb len
        (b.withMem (packUnconstrainedWholeNumber t b n aligned).1.mem) aligned ≠
      ⟨n, (packUnconstrainedWholeNumber t b n aligned).1, true⟩ := by
  intro h
  obtain ⟨⟨hn, -, -⟩, mem, hpack, hfield⟩ := packUnconstrained_ok hok
  obtain ⟨val, bits, hat, hread⟩ := unpackUnconstrained_ok (congrArg Unpacked.ok h)
  rw [hread, hpack] at h
  rw [hpack] at hat
  simp only [entry_withMem, mem_withMem, pos_withMem, advance_withMem] at h hat
  have hval : t.wrap _ = n := congrArg Unpacked.val h
  have hpos := congrArg (fun r => r.cur.pos) h
  simp only [pos_withMem, pos_advance] at hpos
  have hbits : octetBits (unconstrainedWholeNumberLength t n) = bits + val * 8 := by omega
  have hne : n ≠ 0 := by
    rintro rfl
    rw [octetBits_nonpos le_rfl] at hbits
    obtain ⟨-, ⟨rfl, -⟩ | ⟨rfl, -⟩⟩ := hat <;> omega
  exact rest_ne hne hat hbits hn hfield hval

theorem unconstrainedRoundTrip_iff :
    UnconstrainedRoundTrip t b n aligned ↔ ¬UnconstrainedFits t b n aligned := by
  constructor
  · intro h hfits
    have hok := packUnconstrained_fits hfits
    exact unpackUnconstrained_ne 0 0 hok (h 0 0 hok)
  · intro hfits old len hok
    exact absurd (packUnconstrained_ok hok).1 hfits

def IntegerFits (t : IntType) (b : BitRef) (n : ℤ) (aligned : Bool) : Prop :=
  let nBits := octetBits (unconstrainedWholeNumberLength t n)
  toUint32 (unconstrainedWholeNumberLength t n) < 128 ∧ nBits < 32 ∧ b.Enters aligned ∧
    (b.entry aligned).Room (8 + nBits)

theorem numberLength_cases (hn : t.Has n) :
    toUint32 (unconstrainedWholeNumberLength t n) < 128 ∨
      65536 < toUint32 (unconstrainedWholeNumberLength t n) := by
  unfold unconstrainedWholeNumberLength
  split_ifs with hpos
  · cases t <;> decide
  · left
    have hmax := hn.2
    have hle : t.max < 2 ^ 64 := by cases t <;> decide
    have hlog : ceilLog2 n.toNat ≤ 64 := ceilLog2_le (by omega)
    have hlen : ceilFrac (ceilLog2 n.toNat + 1) 8 ≤ 9 := by
      unfold ceilFrac
      omega
    rw [toUint32_of_lt (by omega)]
    omega

theorem packLength_fail (hval : 65536 < val) : (packLength b val aligned).2 = false := by
  have h₁ : ¬val < 128 := by omega
  have h₂ : ¬val < 16384 := by omega
  have h₃ : val > 65536 := hval
  cases aligned <;> simp only [packLength, h₁, h₂, h₃, Bool.not_false, Bool.not_true,
    Bool.false_eq_true, if_true, if_false]

theorem entry_entry (b : BitRef) (aligned : Bool) (mem : Memory) (k : ℕ) :
    (((b.entry aligned).advance (k * 8)).withMem mem).entry aligned =
      ((b.entry aligned).advance (k * 8)).withMem mem := by
  cases aligned
  · rfl
  · have hpad : (((b.entry true).advance (k * 8)).withMem mem).padding = 0 := by
      rw [padding_withMem]
      exact padding_octets (padding_entry rfl) k
    exact (congrArg _ hpad).trans advance_zero

theorem packUnconstrained_extends (t : IntType) (b : BitRef) (n : ℤ) (aligned : Bool) :
    Extends b (packUnconstrainedWholeNumber t b n aligned).1 := by
  unfold packUnconstrainedWholeNumber
  dsimp only
  split_ifs
  · exact handleCode_extends (alignBytesZero_extends b) (pack_extends _ _ _)
  · exact pack_extends _ _ _

def packUnconstrainedInteger (t : IntType) (b : BitRef) (n : ℤ) (aligned : Bool) :
    BitRef × Bool :=
  handleCode (packLength b (toUint32 (unconstrainedWholeNumberLength t n)) aligned) fun b =>
    packUnconstrainedWholeNumber t b n aligned

theorem packUnconstrainedInteger_ok (hn : t.Has n)
    (hok : (packUnconstrainedInteger t b n aligned).2 = true) :
    IntegerFits t b n aligned ∧ ∃ mem,
      LengthAt ((b.entry aligned).withMem mem) (toUint32 (unconstrainedWholeNumberLength t n)) 8 ∧
      (packUnconstrainedWholeNumber t (((b.entry aligned).advance 8).withMem mem) n aligned).2 =
        true ∧
      packUnconstrainedInteger t b n aligned =
        packUnconstrainedWholeNumber t (((b.entry aligned).advance 8).withMem mem) n aligned := by
  unfold packUnconstrainedInteger at hok ⊢
  obtain ⟨hlength, hrest⟩ := handleCode_ok.mp hok
  have hshort : toUint32 (unconstrainedWholeNumberLength t n) < 128 := by
    rcases numberLength_cases hn with hshort | hlong
    · exact hshort
    · rw [packLength_fail hlong] at hlength
      exact absurd hlength Bool.false_ne_true
  obtain ⟨henter, mem, bits, hpack, hat, height⟩ := packLength_spec (by omega) hlength
  obtain rfl := height hshort
  rw [hpack] at hrest ⊢
  obtain ⟨⟨hbits, -, hroom⟩, -⟩ := packUnconstrained_ok hrest
  have hentry := entry_entry b aligned mem 1
  refine ⟨⟨hshort, hbits, henter, ?_⟩, mem, hat, hrest, rfl⟩
  apply room_append hat.1
  rw [hentry] at hroom
  exact hroom

theorem packUnconstrainedInteger_fits (h : IntegerFits t b n aligned) :
    (packUnconstrainedInteger t b n aligned).2 = true := by
  obtain ⟨hshort, hbits, henter, hroom⟩ := h
  have hsize : lengthSize (toUint32 (unconstrainedWholeNumberLength t n)) = 8 := if_pos hshort
  have hlength : (packLength b (toUint32 (unconstrainedWholeNumberLength t n)) aligned).2 =
      true := by
    apply packLength_ok (by omega) henter
    rw [hsize]
    exact room_mono hroom (Nat.le_add_right _ _)
  obtain ⟨-, mem, bits, hpack, -, height⟩ := packLength_spec (by omega) hlength
  obtain rfl := height hshort
  rw [packUnconstrainedInteger, hpack, handleCode_true]
  apply packUnconstrained_fits
  have hentry := entry_entry b aligned mem 1
  refine ⟨hbits, ?_, ?_⟩
  · rintro rfl
    left
    exact padding_octets (padding_entry rfl) 1
  · rw [hentry]
    exact room_rest hroom

theorem unpackUnconstrainedInteger_ne {len : ℕ} (hn : t.Has n)
    (hok : (packUnconstrainedInteger t b n aligned).2 = true) :
    ((unpackLength len (b.withMem (packUnconstrainedInteger t b n aligned).1.mem)
        aligned).handleCode lb fun _ b => unpackUnconstrainedWholeNumber t lb len b aligned) ≠
      ⟨n, (packUnconstrainedInteger t b n aligned).1, true⟩ := by
  obtain ⟨⟨-, -, henter, -⟩, mem, hat, hrest, hrun⟩ := packUnconstrainedInteger_ok hn hok
  rw [hrun]
  have hext := packUnconstrained_extends t (((b.entry aligned).advance 8).withMem mem) n aligned
  have hagree := hext.2.2
  rw [pos_withMem, pos_advance, mem_withMem] at hagree
  rw [unpackLength_at (enters_withMem.mpr henter) (entry_withMem.symm ▸ hat.agree hagree),
    unpacked_handleCode_true, entry_withMem, advance_withMem]
  have hne := unpackUnconstrained_ne lb len hrest
  rw [withMem_withMem] at hne
  exact hne

theorem packOctets_extends (e : ℤ) : Extends b (packOctets b e nBits).1 := by
  refine handleCode_extends (alignBytesZero_extends b) ?_
  refine handleCode_extends (pack_extends _ _ _) ?_
  refine handleCode_extends (pack_extends _ _ _) ?_
  exact alignBytesZero_extends _

theorem packIndefinite_extends (e : ℤ) : Extends b (packIndefinite b e nBits).1 := by
  refine handleCode_extends (pack_extends _ _ _) ?_
  refine handleCode_extends (alignBytesZero_extends _) ?_
  refine handleCode_extends (pack_extends _ _ _) ?_
  exact pack_extends _ _ _

theorem packConstrained_extends :
    Extends b (packConstrainedWholeNumber t b n lb ub aligned).1 := by
  unfold packConstrainedWholeNumber
  dsimp only
  split_ifs
  · exact Extends.refl b
  · exact Extends.refl b
  · exact pack_extends _ _ _
  · exact pack_extends _ _ _
  · exact packOctets_extends _
  · exact packIndefinite_extends _

theorem packLength_extends : Extends b (packLength b val aligned).1 := by
  unfold packLength
  split_ifs
  · exact pack_extends _ _ _
  · exact handleCode_extends (pack_extends _ _ _) (pack_extends _ _ _)
  · exact Extends.refl b
  · exact Extends.refl b
  · exact handleCode_extends (alignBytes_extends b) (pack_extends _ _ _)
  · refine handleCode_extends (alignBytes_extends b) ?_
    exact handleCode_extends (pack_extends _ _ _) (pack_extends _ _ _)
  · refine handleCode_extends (alignBytes_extends b) ?_
    refine handleCode_extends (pack_extends _ _ _) ?_
    exact handleCode_extends (pack_extends _ _ _) (pack_extends _ _ _)

theorem packIntegerBody_extends (t : IntType) (b : BitRef) (n lb ub : ℤ)
    (withinBounds aligned : Bool) :
    Extends b (packIntegerBody t b n lb ub withinBounds aligned).1 := by
  unfold packIntegerBody
  split_ifs
  · exact Extends.refl b
  · exact packConstrained_extends
  · exact handleCode_extends packLength_extends (packUnconstrained_extends _ _ _ _)
  · exact Extends.refl b

/-- An integer packed successfully is unpacked from the produced bits, to the same cursor. -/
def IntegerRoundTrip (t : IntType) (b : BitRef) (n lb ub : ℤ) (hasExt aligned : Bool) : Prop :=
  let r := packInteger t b n lb ub hasExt aligned
  ∀ old len, r.2 = true →
    unpackInteger t old len (b.withMem r.1.mem) lb ub hasExt aligned = ⟨n, r.1, true⟩

/-- After the extension marker: a constrained range of several values, where the constrained whole
number survives; or an unconstrained integer that cannot be packed. -/
def BodyEncodes (t : IntType) (b : BitRef) (n lb ub : ℤ) (aligned : Bool) : Prop :=
  if (lb ≤ n ∧ n ≤ ub) ∧ lowerBounded t lb ∧ upperBounded t ub then
    lb ≠ ub ∧ Encodes b n lb ub aligned
  else if ¬(lb ≤ n ∧ n ≤ ub) ∨ (¬lowerBounded t lb ∧ ¬upperBounded t ub) then
    ¬IntegerFits t b n aligned
  else False

/-- With an extension marker there may be no room for it; without one a number out of bounds is
rejected. -/
def IntegerEncodes (t : IntType) (b : BitRef) (n lb ub : ℤ) (hasExt aligned : Bool) : Prop :=
  if hasExt then ¬b.Room 1 ∨ BodyEncodes t (b.advance 1) n lb ub aligned
  else ¬(lb ≤ n ∧ n ≤ ub) ∨ BodyEncodes t b n lb ub aligned

def BodyRoundTrip (t : IntType) (b : BitRef) (n lb ub : ℤ) (aligned : Bool) : Prop :=
  let withinBounds := decide (lb ≤ n ∧ n ≤ ub)
  let r := packIntegerBody t b n lb ub withinBounds aligned
  ∀ old len, r.2 = true →
    unpackIntegerBody t old len (b.withMem r.1.mem) lb ub withinBounds aligned = ⟨n, r.1, true⟩

theorem bodyRoundTrip_iff (hn : t.Has n) (hlb : t.Has lb) (hub : t.Has ub)
    (hover : lowerBounded t lb → upperBounded t ub → NoOverflow t lb ub) :
    BodyRoundTrip t b n lb ub aligned ↔ BodyEncodes t b n lb ub aligned := by
  unfold BodyRoundTrip BodyEncodes packIntegerBody unpackIntegerBody
  simp only [decide_eq_true_eq, Bool.not_eq_true', decide_eq_false_iff_not]
  split_ifs with hconstrained hsingle hunconstrained
  · -- the output variable is not written
    refine iff_of_false ?_ (fun h => h.1 hsingle)
    intro h
    have hval : n + 1 = n := congrArg Unpacked.val (h (n + 1) 0 rfl)
    omega
  · obtain ⟨⟨hle, hle'⟩, hlower, hupper⟩ := hconstrained
    have hround : RoundTrip t b n lb ub aligned ↔ _ :=
      roundTrip_iff hlb hub hle hle' (hover hlower hupper)
    rw [and_iff_right hsingle, ← hround]
    exact ⟨fun h old => h old 0, fun h old _ => h old⟩
  · constructor
    · intro h hfits
      have hok := packUnconstrainedInteger_fits hfits
      exact unpackUnconstrainedInteger_ne hn hok (h 0 0 hok)
    · intro hfits old len hok
      exact absurd (packUnconstrainedInteger_ok hn hok).1 hfits
  · refine iff_of_false ?_ id
    intro h
    have hval : n + 1 = n := congrArg Unpacked.val (h (n + 1) 0 rfl)
    omega

theorem bodyEncodes_withMem (mem : Memory) :
    BodyEncodes t (b.withMem mem) n lb ub aligned ↔ BodyEncodes t b n lb ub aligned := by
  cases aligned <;> exact Iff.rfl

section

variable (hn : t.Has n) (hlb : t.Has lb) (hub : t.Has ub)
  (hover : lowerBounded t lb → upperBounded t ub → NoOverflow t lb ub)
include hn hlb hub hover

theorem integerRoundTrip_ext (hroom : b.Room 1) :
    IntegerRoundTrip t b n lb ub true aligned ↔
      BodyEncodes t (b.advance 1) n lb ub aligned := by
  let ext := (!decide (lb ≤ n ∧ n ≤ ub)).toNat
  have hext : ext < 2 := Bool.toNat_lt _
  obtain ⟨mem, hpack, -, hfield⟩ := pack_spec (by decide) hroom ext
  have hfield' : field mem b.pos 1 = ext := hfield.trans (Nat.mod_eq_of_lt hext)
  have hwithin : decide (ext = 0) = decide (lb ≤ n ∧ n ≤ ub) := by
    by_cases h : lb ≤ n ∧ n ≤ ub <;> simp [ext, h]
  rw [← bodyEncodes_withMem mem, ← bodyRoundTrip_iff hn hlb hub hover]
  have hrun : packInteger t b n lb ub true aligned =
      packIntegerBody t ((b.advance 1).withMem mem) n lb ub (decide (lb ≤ n ∧ n ≤ ub)) aligned := by
    simp only [packInteger, if_true]
    exact (congrArg (handleCode · _) hpack).trans (handleCode_true _ _)
  have hmarker : ∀ old len,
      unpackInteger t old len (b.withMem (packInteger t b n lb ub true aligned).1.mem) lb ub true
          aligned =
        unpackIntegerBody t old len
          ((b.advance 1).withMem (packInteger t b n lb ub true aligned).1.mem) lb ub
          (decide (lb ≤ n ∧ n ≤ ub)) aligned := by
    intro old len
    have hagree := (packIntegerBody_extends t ((b.advance 1).withMem mem) n lb ub
      (decide (lb ≤ n ∧ n ≤ ub)) aligned).2.2
    rw [← hrun, pos_withMem, pos_advance, mem_withMem] at hagree
    have hkept := (hagree.field (Nat.le_refl _)).trans hfield'
    rw [unpackInteger, if_pos rfl, unpack_spec (by decide) (room_withMem.mpr hroom),
      unpacked_handleCode_true,
      pos_withMem, mem_withMem, hkept, hwithin, advance_withMem]
  rw [hrun] at hmarker
  unfold IntegerRoundTrip BodyRoundTrip
  simp only [hrun, hmarker, withMem_withMem]

theorem integerRoundTrip_iff {hasExt : Bool} :
    IntegerRoundTrip t b n lb ub hasExt aligned ↔ IntegerEncodes t b n lb ub hasExt aligned := by
  unfold IntegerEncodes
  cases hasExt
  · simp only [Bool.false_eq_true, if_false]
    by_cases hwithin : lb ≤ n ∧ n ≤ ub
    · rw [← bodyRoundTrip_iff hn hlb hub hover]
      simp only [hwithin, not_true_eq_false, false_or, BodyRoundTrip, IntegerRoundTrip,
        packInteger, unpackInteger, decide_true, Bool.not_true, Bool.false_eq_true, if_false,
        and_self]
    · refine iff_of_true ?_ (.inl hwithin)
      intro old len hok
      simp only [packInteger, hwithin, decide_false, Bool.not_false, Bool.false_eq_true,
        if_false, if_true] at hok
  · simp only [if_true]
    by_cases hroom : b.Room 1
    · rw [integerRoundTrip_ext hn hlb hub hover hroom]
      simp only [hroom, not_true_eq_false, false_or]
    · refine iff_of_true ?_ (.inl hroom)
      intro old len hok
      simp only [packInteger, if_true] at hok
      exact absurd (pack_ok.mp (handleCode_ok.mp hok).1).2 hroom

end

end SrsLte
