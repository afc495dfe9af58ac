import SrsLte.PerWholeNumber

/-!
# When a constrained whole number survives

A packed number is unpacked as it was, and an unpacked number is between the bounds, exactly under
two conditions on the inputs.
-/

namespace SrsLte

open BitField BitRef

variable {t : IntType} {b : BitRef} {n lb ub : ℤ} {aligned : Bool} {nBits v : ℕ} {mem : Memory}

/-- What is packed successfully is unpacked from the produced bits, by a cursor that ends where
the packing cursor ended. -/
def RoundTrip (t : IntType) (b : BitRef) (n lb ub : ℤ) (aligned : Bool) : Prop :=
  let r := packConstrainedWholeNumber t b n lb ub aligned
  ∀ old, r.2 = true →
    unpackConstrainedWholeNumber t old (b.withMem r.1.mem) lb ub aligned = ⟨n, r.1, true⟩

def DecodesInRange (t : IntType) (b : BitRef) (lb ub : ℤ) (aligned : Bool) : Prop :=
  ∀ old, (unpackConstrainedWholeNumber t old b lb ub aligned).ok = true →
    lb ≤ (unpackConstrainedWholeNumber t old b lb ub aligned).val ∧
      (unpackConstrainedWholeNumber t old b lb ub aligned).val ≤ ub

def lengthBits (lb ub : ℤ) : ℕ := ceilLog2 (ceilFrac (ceilLog2 (rangeSize lb ub)) 8)

/-- One value; or the full 64-bit range and its lower bound; or a narrower range that, unaligned,
`pack` takes and has room for, and that, aligned, has no length prefix, unless the number is not
the lower bound or the prefix does not fit. -/
def Encodes (b : BitRef) (n lb ub : ℤ) (aligned : Bool) : Prop :=
  lb = ub ∨ (ub - lb + 1 = 2 ^ 64 ∧ n = lb) ∨
    (ub - lb + 1 ≠ 2 ^ 64 ∧
      if aligned then ub - lb < 65536 ∨ n ≠ lb ∨ ¬b.Room (lengthBits lb ub)
      else ub - lb < 2 ^ 31 ∧ b.Room (ceilLog2 (rangeSize lb ub)))

/-- At most one value, or the full 64-bit range, or a field that cannot be read, or one that is
within the range: aligned, within the bounds; unaligned, within the type. -/
def Decodes (t : IntType) (b : BitRef) (lb ub : ℤ) (aligned : Bool) : Prop :=
  let f := numberField b (rangeSize lb ub) aligned
  ub ≤ lb ∨ ub - lb + 1 = 2 ^ 64 ∨ ¬Reads f ∨
    if aligned then numberRead f ≤ ub - lb else numberRead f + lb ≤ t.max

theorem range_le (hlb : t.Has lb) (hub : t.Has ub) : (ub - lb).toNat + 1 ≤ 2 ^ t.width := by
  have hmin := hlb.1
  have hmax := hub.2
  have hcast : ((2 ^ t.width : ℕ) : ℤ) = 2 ^ t.width := Nat.cast_pow 2 t.width
  have hpos := t.modulus_pos
  unfold IntType.max at hmax
  omega

theorem IntType.width_le (t : IntType) : t.width ≤ 64 := by cases t <;> decide

theorem rangeSize_eq (hlb : t.Has lb) (hub : t.Has ub) (hfull : ub - lb + 1 ≠ 2 ^ 64) :
    rangeSize lb ub = (ub - lb).toNat + 1 := by
  have hrange := (range_le hlb hub).trans (Nat.pow_le_pow_right (by decide) t.width_le)
  unfold rangeSize
  omega

theorem rangeSize_full (hfull : ub - lb + 1 = 2 ^ 64) : rangeSize lb ub = 0 := by
  unfold rangeSize
  omega

theorem rangeSize_single (h : lb = ub) : rangeSize lb ub = 1 := by
  rw [rangeSize, h, Int.sub_self]
  rfl

section

variable (hlb : t.Has lb) (hub : t.Has ub)
include hlb hub

theorem lt_two_pow_ceilLog2 (hfull : ub - lb + 1 ≠ 2 ^ 64)
    (hv : lb + v ≤ ub) : v < 2 ^ ceilLog2 (rangeSize lb ub) := by
  rw [rangeSize_eq hlb hub hfull]
  apply Nat.lt_of_lt_of_le _ (Nat.le_pow_clog Nat.one_lt_two _)
  omega

theorem numberRead_lt (hfull : ub - lb + 1 ≠ 2 ^ 64)
    (h : Reads (numberField b (rangeSize lb ub) aligned)) :
    (numberRead (numberField b (rangeSize lb ub) aligned) : ℤ) < 2 ^ t.width := by
  have hsize := rangeSize_eq hlb hub hfull
  have hrange := range_le hlb hub
  rw [← hsize] at hrange
  have hlog := ceilLog2_le hrange
  have hceil := ceilFrac_lt (ceilLog2 (rangeSize lb ub))
  have hbits : (numberField b (rangeSize lb ub) aligned).2 ≤ t.width := by
    have hbound := h.1
    unfold numberField at hbound ⊢
    dsimp only at hbound ⊢
    split_ifs at hbound ⊢ with hshort hoctets
    · exact hlog
    · have hwidth : 8 ∣ t.width := by cases t <;> decide
      obtain ⟨k, hk⟩ := hwidth
      omega
    · have hwide : 32 ≤ t.width := by
        by_contra hnarrow
        have hpow : 2 ^ t.width ≤ 2 ^ 16 := by
          apply Nat.pow_le_pow_right (by decide)
          revert hnarrow
          cases t <;> decide
        omega
      exact hbound.trans hwide
  have hlt := field_lt (numberField b (rangeSize lb ub) aligned).1.mem
    (numberField b (rangeSize lb ub) aligned).1.pos (numberField b (rangeSize lb ub) aligned).2
  have hpow := hlt.trans_le (Nat.pow_le_pow_right (by decide) hbits)
  exact_mod_cast hpow

theorem decodesInRange_reads (hlt : lb < ub)
    (hfull : ub - lb + 1 ≠ 2 ^ 64) (hreads : Reads (numberField b (rangeSize lb ub) aligned)) :
    DecodesInRange t b lb ub aligned ↔
      if aligned then (numberRead (numberField b (rangeSize lb ub) aligned) : ℤ) ≤ ub - lb
      else numberRead (numberField b (rangeSize lb ub) aligned) + lb ≤ t.max := by
  have hne : rangeSize lb ub ≠ 1 := by
    rw [rangeSize_eq hlb hub hfull]
    omega
  have hbound := numberRead_lt hlb hub hfull hreads
  have hrun := fun old => unpackConstrained_reads (t := t) (n := old) (Int.not_lt.mpr hlt.le) hne
    hreads
  unfold DecodesInRange
  simp only [hrun]
  generalize numberRead (numberField b (rangeSize lb ub) aligned) = v at hbound ⊢
  cases aligned
  · simp only [Bool.false_or, decide_eq_true_eq, Bool.false_eq_true, if_false]
    constructor
    · intro h
      by_contra hover
      have hback := IntType.wrap_add_lt hlb hbound (Int.not_le.mp hover)
      exact absurd (h 0 (hback.le.trans hlt.le)).1 (Int.not_le.mpr hback)
    · intro hle old hok
      have hhas : t.Has (v + lb) := ⟨by have := hlb.1; omega, hle⟩
      refine ⟨?_, hok⟩
      rw [IntType.wrap_eq hhas]
      omega
  · simp only [Bool.true_or, forall_const, if_true]
    exact IntType.wrap_add_mem hlb hub (Int.natCast_nonneg v) hbound

theorem decodesInRange_iff :
    DecodesInRange t b lb ub aligned ↔ Decodes t b lb ub aligned := by
  unfold Decodes
  dsimp only
  rcases lt_trichotomy lb ub with hlt | rfl | hgt
  · by_cases hfull : ub - lb + 1 = 2 ^ 64
    · have hf : numberField b (rangeSize lb ub) aligned = (b, 0) := by
        rw [rangeSize_full hfull, numberField, if_pos (by simp)]
        rfl
      have hreads : Reads (numberField b (rangeSize lb ub) aligned) := by
        rw [hf]
        exact ⟨Nat.zero_le _, .inl rfl⟩
      refine iff_of_true (fun old _ => ?_) (.inr (.inl hfull))
      rw [unpackConstrained_reads (by omega) (by rw [rangeSize_full hfull]; decide) hreads, hf]
      have hzero : ((numberRead (b, 0) : ℕ) : ℤ) + lb = lb := Int.zero_add lb
      rw [hzero, IntType.wrap_eq hlb]
      exact ⟨le_rfl, hlt.le⟩
    · have hne : rangeSize lb ub ≠ 1 := by
        rw [rangeSize_eq hlb hub hfull]
        omega
      by_cases hreads : Reads (numberField b (rangeSize lb ub) aligned)
      · rw [decodesInRange_reads hlb hub hlt hfull hreads]
        simp only [hreads, not_true_eq_false, false_or, hfull, Int.not_le.mpr hlt]
      · refine iff_of_true (fun old hok => ?_) (.inr (.inr (.inl hreads)))
        exact absurd (unpackConstrained_ok (by omega) hne hok) hreads
  · refine iff_of_true (fun old _ => ?_) (.inl le_rfl)
    rw [unpackConstrainedWholeNumber, if_neg (lt_irrefl _), rangeSize_single rfl]
    exact ⟨le_rfl, le_rfl⟩
  · refine iff_of_true (fun old hok => ?_) (.inl hgt.le)
    rw [unpackConstrainedWholeNumber, if_pos hgt] at hok
    exact absurd hok Bool.false_ne_true

end

/-- The subtraction of the bounds is done in `int` at least, and does not overflow there. -/
def NoOverflow (t : IntType) (lb ub : ℤ) : Prop :=
  t.signed = true → 32 ≤ t.width → ub - lb ≤ t.max

theorem packConstrained_eq (hle : lb ≤ n) (hle' : n ≤ ub) (hra : rangeSize lb ub ≠ 1) :
    let e := t.wrap (n - lb).toNat
    let nBits := ceilLog2 (rangeSize lb ub)
    packConstrainedWholeNumber t b n lb ub aligned =
      if !aligned then ((b.pack (toUint32 e) nBits).1, true)
      else if rangeSize lb ub < 256 then b.pack (toUint32 e) nBits
      else if rangeSize lb ub ≤ 65536 then packOctets b e nBits
      else packIndefinite b e nBits := by
  intro e nBits
  have hin : ¬(ub < lb ∨ n < lb ∨ n > ub) := by omega
  have hcast : (((n - lb).toNat : ℕ) : ℤ) = n - lb := Int.toNat_of_nonneg (by omega)
  rw [packConstrainedWholeNumber, if_neg hin]
  simp only [if_neg hra, hcast, nBits, e]

theorem toUint32_wrap_eq (hlb : t.Has lb) (hub : t.Has ub) (hle : lb ≤ n) (hle' : n ≤ ub)
    (hfull : ub - lb + 1 ≠ 2 ^ 64) (hbits : ceilLog2 (rangeSize lb ub) ≤ 32) :
    toUint32 (t.wrap (n - lb).toNat) % 2 ^ ceilLog2 (rangeSize lb ub) = (n - lb).toNat := by
  have hsize := rangeSize_eq hlb hub hfull
  apply toUint32_wrap _ hbits (lt_two_pow_ceilLog2 hlb hub hfull (by omega))
  apply ceilLog2_le
  rw [hsize]
  exact range_le hlb hub

theorem wrap_eq_of_wide (hlb : t.Has lb) (hub : t.Has ub) (hle : lb ≤ n) (hle' : n ≤ ub)
    (hover : NoOverflow t lb ub) (hwide : 65536 ≤ ub - lb) :
    t.wrap (n - lb).toNat = (n - lb).toNat := by
  have hcast : (((n - lb).toNat : ℕ) : ℤ) = n - lb := Int.toNat_of_nonneg (by omega)
  rw [hcast]
  apply IntType.wrap_eq
  constructor
  · have hmin := t.min_nonpos
    omega
  · have hrange := range_le hlb hub
    have hwidth : 32 ≤ t.width := by
      by_contra hnarrow
      have hpow : 2 ^ t.width ≤ 2 ^ 16 := by
        apply Nat.pow_le_pow_right (by decide)
        revert hnarrow
        cases t <;> decide
      omega
    by_cases hsigned : t.signed = true
    · have hmax := hover hsigned hwidth
      omega
    · have hmin : t.min = 0 := if_neg hsigned
      have hlow := hlb.1
      have hhigh := hub.2
      omega

theorem roundTrip_of_wrote (hn : t.Has n) (hle : lb ≤ n) (hle' : n ≤ ub)
    (hra : rangeSize lb ub ≠ 1)
    (h : (packConstrainedWholeNumber t b n lb ub aligned).2 = true →
      Wrote b (packConstrainedWholeNumber t b n lb ub aligned) (rangeSize lb ub) aligned
        (n - lb).toNat) :
    RoundTrip t b n lb ub aligned := by
  intro old hok
  obtain ⟨hcur, hreads, hnumber⟩ := h hok
  rw [unpackConstrained_reads (Int.not_lt.mpr (hle.trans hle')) hra hreads, hnumber,
    Int.toNat_of_nonneg (by omega), Int.sub_add_cancel, IntType.wrap_eq hn]
  rw [decide_eq_true hle', Bool.or_true]
  exact congrArg (fun r : BitRef × Bool => (⟨n, r.1, true⟩ : Unpacked ℤ)) hcur.symm

theorem not_roundTrip_of_pos (hra : rangeSize lb ub ≠ 1) (hle : lb ≤ ub)
    (hok : (packConstrainedWholeNumber t b n lb ub aligned).2 = true)
    (hpos : ∀ mem, mem = (packConstrainedWholeNumber t b n lb ub aligned).1.mem →
      Reads (numberField (b.withMem mem) (rangeSize lb ub) aligned) →
      (packConstrainedWholeNumber t b n lb ub aligned).1.pos ≠
        (numberField (b.withMem mem) (rangeSize lb ub) aligned).1.pos +
          (numberField (b.withMem mem) (rangeSize lb ub) aligned).2) :
    ¬RoundTrip t b n lb ub aligned := by
  intro h
  have hrun := h 0 hok
  have hreads := unpackConstrained_ok (Int.not_lt.mpr hle) hra (congrArg Unpacked.ok hrun)
  rw [unpackConstrained_reads (Int.not_lt.mpr hle) hra hreads] at hrun
  apply hpos _ rfl hreads
  have hcur := congrArg (fun r => r.cur.pos) hrun
  exact hcur.symm.trans pos_advance

theorem lengthBits_ne (hlong : 65536 < rangeSize lb ub) : lengthBits lb ub ≠ 0 := by
  have hlog : 16 < ceilLog2 (rangeSize lb ub) := (Nat.lt_clog_iff_pow_lt Nat.one_lt_two).mpr hlong
  have hceil : 1 < ceilFrac (ceilLog2 (rangeSize lb ub)) 8 := by
    unfold ceilFrac
    omega
  exact (Nat.clog_pos Nat.one_lt_two hceil).ne'

theorem lengthBits_lt : lengthBits lb ub < 32 := by
  have hle := lengthBits_le (Nat.le_of_lt (Nat.mod_lt ((ub - lb).toNat + 1) (by decide)) :
    rangeSize lb ub ≤ 2 ^ 64)
  unfold lengthBits
  omega

section

variable (hlb : t.Has lb) (hub : t.Has ub) (hle : lb ≤ n) (hle' : n ≤ ub)
include hlb hub hle hle'

theorem roundTrip_unaligned (hlt : lb < ub) (hfull : ub - lb + 1 ≠ 2 ^ 64) :
    RoundTrip t b n lb ub false ↔
      ub - lb < 2 ^ 31 ∧ b.Room (ceilLog2 (rangeSize lb ub)) := by
  have hsize := rangeSize_eq hlb hub hfull
  have hra : rangeSize lb ub ≠ 1 := by omega
  have hwide : ceilLog2 (rangeSize lb ub) < 32 ↔ ub - lb < 2 ^ 31 := by
    have hlog : ceilLog2 (rangeSize lb ub) ≤ 31 ↔ rangeSize lb ub ≤ 2 ^ 31 :=
      Nat.clog_le_iff_le_pow Nat.one_lt_two
    omega
  have hpack : packConstrainedWholeNumber t b n lb ub false = _ := packConstrained_eq hle hle' hra
  simp only [Bool.not_false, if_true] at hpack
  rw [← hwide]
  by_cases hfits : ceilLog2 (rangeSize lb ub) < 32 ∧ b.Room (ceilLog2 (rangeSize lb ub))
  · refine iff_of_true ?_ hfits
    apply roundTrip_of_wrote ⟨hlb.1.trans hle, hle'.trans hub.2⟩ hle hle' hra
    intro _
    have hwrote : Wrote b _ (rangeSize lb ub) false _ := wrote_short rfl hfits.1 hfits.2
      (toUint32_wrap_eq hlb hub hle hle' hfull (Nat.le_of_lt hfits.1))
    generalize b.pack (toUint32 (t.wrap (n - lb).toNat)) (ceilLog2 (rangeSize lb ub)) = r
      at hpack hwrote
    obtain ⟨cur, ok⟩ := r
    obtain rfl : ok = true := congrArg Prod.snd hwrote.1
    rw [hpack]
    exact hwrote
  · refine iff_of_false ?_ hfits
    apply not_roundTrip_of_pos hra (hle.trans hle') (by rw [hpack])
    rintro mem - ⟨hbits, hroom⟩
    have hroom' : b.Room (ceilLog2 (rangeSize lb ub)) := hroom
    have hlong : 32 ≤ ceilLog2 (rangeSize lb ub) := by
      by_contra hshort
      exact hfits ⟨by omega, hroom'⟩
    have hstay : (packConstrainedWholeNumber t b n lb ub false).1.pos = b.pos := by
      rw [hpack, pack, if_pos hlong]
    have hfield : (numberField (b.withMem mem) (rangeSize lb ub) false).2 =
        ceilLog2 (rangeSize lb ub) := rfl
    have hpos : (numberField (b.withMem mem) (rangeSize lb ub) false).1.pos = b.pos := rfl
    rw [hstay, hfield, hpos]
    omega

theorem roundTrip_aligned
    (hover : NoOverflow t lb ub) (hlt : lb < ub) (hfull : ub - lb + 1 ≠ 2 ^ 64) :
    RoundTrip t b n lb ub true ↔
      ub - lb < 65536 ∨ n ≠ lb ∨ ¬b.Room (lengthBits lb ub) := by
  have hsize := rangeSize_eq hlb hub hfull
  have hra : rangeSize lb ub ≠ 1 := by omega
  have hra' : rangeSize lb ub ≤ 2 ^ 64 := Nat.le_of_lt (Nat.mod_lt _ (by decide))
  have hv : (n - lb).toNat < 2 ^ ceilLog2 (rangeSize lb ub) :=
    lt_two_pow_ceilLog2 hlb hub hfull (by omega)
  have hpack : packConstrainedWholeNumber t b n lb ub true = _ := packConstrained_eq hle hle' hra
  simp only [Bool.not_true, Bool.false_eq_true, if_false] at hpack
  by_cases hdefect : 65536 ≤ ub - lb ∧ n = lb ∧ b.Room (lengthBits lb ub)
  · obtain ⟨hwide, rfl, hroom⟩ := hdefect
    refine iff_of_false ?_ ?_
    swap
    · rintro (hnarrow | hne | hnot)
      · omega
      · exact hne rfl
      · exact hnot hroom
    have hlong : 65536 < rangeSize n ub := by omega
    rw [if_neg (by omega), if_neg (by omega), wrap_eq_of_wide hlb hub le_rfl hle' hover hwide,
      Int.sub_self, Int.toNat_zero] at hpack
    obtain ⟨mem, hrun, hfield⟩ :=
      packIndefinite_zero rfl (lengthBits_ne hlong) lengthBits_lt hroom
    apply not_roundTrip_of_pos hra hle'
    · rw [hpack, Nat.cast_zero, hrun]
    · rintro mem' - -
      rw [hpack, Nat.cast_zero, hrun]
      have hshort : ¬(!true || decide (rangeSize n ub < 256)) = true := by simp; omega
      simp only [numberField, if_neg hshort, if_neg (Nat.not_le.mpr hlong), pos_withMem,
        pos_advance, advance_withMem, padding_withMem, mem_withMem]
      omega
  · refine iff_of_true ?_ ?_
    · apply roundTrip_of_wrote ⟨hlb.1.trans hle, hle'.trans hub.2⟩ hle hle' hra
      rw [hpack]
      split_ifs with hshort hoctets
      · intro hok
        obtain ⟨hn, hroom⟩ := pack_ok.mp hok
        exact wrote_short (by simpa using hshort) hn hroom
          (toUint32_wrap_eq hlb hub hle hle' hfull hn.le)
      · intro hok
        have hbits : ceilLog2 (rangeSize lb ub) ≤ 16 := ceilLog2_le hoctets
        exact wrote_octets hshort hoctets
          (toUint32_wrap_eq hlb hub hle hle' hfull (hbits.trans (by decide))) hok
      · rw [wrap_eq_of_wide hlb hub hle hle' hover (by omega)]
        intro hok
        have hne : (n - lb).toNat ≠ 0 := by
          intro hzero
          refine hdefect ⟨by omega, by omega, ?_⟩
          exact (pack_ok.mp (handleCode_ok.mp hok).1).2
        exact wrote_indefinite hra' (by omega) hne hv hok
    · by_contra hnot
      apply hdefect
      simp only [not_or, not_not] at hnot
      exact ⟨by omega, hnot.2⟩

theorem roundTrip_iff (hover : NoOverflow t lb ub) :
    RoundTrip t b n lb ub aligned ↔ Encodes b n lb ub aligned := by
  unfold Encodes
  rcases (hle.trans hle').eq_or_lt with heq | hlt
  · refine iff_of_true ?_ (.inl heq)
    intro old _
    obtain rfl : n = lb := by omega
    have hin : ¬(ub < n ∨ n < n ∨ n > ub) := by omega
    simp only [packConstrainedWholeNumber, unpackConstrainedWholeNumber, if_neg hin,
      rangeSize_single heq, if_true, if_neg (Int.not_lt.mpr hle')]
    rfl
  by_cases hfull : ub - lb + 1 = 2 ^ 64
  · have hra : rangeSize lb ub ≠ 1 := by
      rw [rangeSize_full hfull]
      decide
    have hpack : packConstrainedWholeNumber t b n lb ub aligned = (b, true) := by
      rw [packConstrained_eq hle hle' hra, rangeSize_full hfull]
      cases aligned <;> rfl
    have hunpack : ∀ old, unpackConstrainedWholeNumber t old b lb ub aligned = ⟨lb, b, true⟩ := by
      intro old
      have hf : numberField b (rangeSize lb ub) aligned = (b, 0) := by
        rw [rangeSize_full hfull, numberField, if_pos (by simp)]
        rfl
      rw [unpackConstrained_reads (by omega) hra (by rw [hf]; exact ⟨Nat.zero_le _, .inl rfl⟩), hf]
      have hzero : ((numberRead (b, 0) : ℕ) : ℤ) + lb = lb := Int.zero_add lb
      rw [hzero, IntType.wrap_eq hlb, decide_eq_true hlt.le, Bool.or_true, advance_zero]
    have hround : RoundTrip t b n lb ub aligned ↔ n = lb := by
      simp only [RoundTrip, hpack]
      constructor
      · intro h
        have hrun := h 0 trivial
        have hval : lb = n := congrArg Unpacked.val ((hunpack 0).symm.trans hrun)
        exact hval.symm
      · intro heq old _
        rw [heq]
        exact hunpack old
    rw [hround]
    simp only [hfull, ne_eq, not_true_eq_false, false_and, or_false, true_and, hlt.ne, false_or]
  · cases aligned
    · rw [roundTrip_unaligned hlb hub hle hle' hlt hfull]
      simp only [hlt.ne, hfull, false_and, false_or, ne_eq, not_false_eq_true, true_and,
        Bool.false_eq_true, if_false]
    · rw [roundTrip_aligned hlb hub hle hle' hover hlt hfull]
      simp only [hlt.ne, hfull, false_and, false_or, ne_eq, not_false_eq_true, true_and, if_true]

end

/-- The exact conditions for the round trip and for the range of what is decoded. -/
theorem constrained_whole_number_exact (hlb : t.Has lb) (hub : t.Has ub)
    (hmax : ub - lb ≤ t.max) (b : BitRef) (aligned : Bool) :
    (∀ n, lb ≤ n → n ≤ ub → (RoundTrip t b n lb ub aligned ↔ Encodes b n lb ub aligned)) ∧
      (DecodesInRange t b lb ub aligned ↔ Decodes t b lb ub aligned) := by
  constructor
  · intro n hle hle'
    exact roundTrip_iff hlb hub hle hle' fun _ _ => hmax
  · exact decodesInRange_iff hlb hub

theorem constrained_whole_number_exact_octet :
    (∀ n : ℤ, 1 ≤ n → n ≤ 6 →
      (RoundTrip .uint8 ⟨fun _ => 0xe0, 0, 0, 4, by decide⟩ n 1 6 true ↔
        Encodes ⟨fun _ => 0xe0, 0, 0, 4, by decide⟩ n 1 6 true)) ∧
      (DecodesInRange .uint8 ⟨fun _ => 0xe0, 0, 0, 4, by decide⟩ 1 6 true ↔
        Decodes .uint8 ⟨fun _ => 0xe0, 0, 0, 4, by decide⟩ 1 6 true) :=
  constrained_whole_number_exact (by decide) (by decide) (by decide) _ _

/-- The identifier `0` of a range of 32 bits, aligned, is packed as a length of four octets and no
octet; and eight is unpacked from a range of one to six. -/
theorem constrained_whole_number_fails :
    ¬RoundTrip .uint64 ⟨fun _ => 0, 0, 0, 8, by decide⟩ 0 0 4294967295 true ∧
      ¬DecodesInRange .uint8 ⟨fun _ => 0xe0, 0, 0, 4, by decide⟩ 1 6 true := by
  constructor
  · intro h
    have hcur := congrArg (fun r => r.cur.ptr) (h 0 (by decide))
    revert hcur
    decide
  · intro h
    have hrange := (h 0 (by decide)).2
    revert hrange
    decide

end SrsLte
