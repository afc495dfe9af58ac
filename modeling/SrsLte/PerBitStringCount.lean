import Mathlib.Data.Nat.ModEq
import Mathlib.Data.Nat.Prime.Basic
import SrsLte.BitImage
import SrsLte.PerBitStringNumbers
import SrsLte.PerWholeNumberRoundTrip

/-!
# The length prefix of a bit string

What length a message carries in front of a bit string, and which octets the decoder stores.
-/

namespace SrsLte

open BitField BitRef

variable {c : BitStringClass} {b cur : BitRef} {n i nbits old : ℕ} {s s' : Asn1BitString}

namespace BitStringClass

/-- The bounds of a class are `uint32_t` values in order. -/
structure Bounds (c : BitStringClass) : Prop where
  le : c.lb ≤ c.ub
  le_max : c.ub ≤ noUpperBound

def afterExt (c : BitStringClass) (b : BitRef) : BitRef := if c.hasExt then b.advance 1 else b

def Unconstrained (c : BitStringClass) (b : BitRef) : Prop :=
  c.ub = noUpperBound ∨ c.hasExt = true ∧ field b.mem b.pos 1 = 1

instance (b : BitRef) : Decidable (c.Unconstrained b) := inferInstanceAs (Decidable (_ ∨ _))

/-- The message carries the length `n` at the cursor, in front of the cursor `cur`. -/
def Carries (c : BitStringClass) (b : BitRef) (n : ℕ) (cur : BitRef) : Prop :=
  (c.hasExt = true → b.Room 1) ∧
    if c.Unconstrained b then
      (c.afterExt b).Enters c.isAligned ∧
        ∃ bits, LengthAt ((c.afterExt b).entry c.isAligned) n bits ∧
          cur = ((c.afterExt b).entry c.isAligned).advance bits
    else if c.lb = c.ub then n = c.lb ∧ cur = c.afterExt b
    else
      let f := numberField (c.afterExt b) (c.ub - c.lb + 1) c.isAligned
      Reads f ∧ n = (numberRead f + c.lb) % 2 ^ 32 ∧ (c.isAligned = true ∨ n ≤ c.ub) ∧
        cur = f.1.advance f.2

end BitStringClass

open BitStringClass

theorem mem_afterExt : (c.afterExt b).mem = b.mem := by
  unfold afterExt
  split_ifs <;> rfl

theorem max_afterExt : (c.afterExt b).max = b.max := by
  unfold afterExt
  split_ifs <;> rfl

theorem rangeSize_class (h : c.Bounds) : rangeSize c.lb c.ub = c.ub - c.lb + 1 := by
  have hle := h.le
  have hmax := h.le_max
  unfold noUpperBound at hmax
  unfold rangeSize
  omega

theorem wrap_uint32 (x : ℕ) : (IntType.uint32.wrap x).toNat = x % 2 ^ 32 := by
  unfold IntType.wrap
  have hmin : IntType.uint32.min = 0 := rfl
  have hwidth : IntType.uint32.width = 32 := rfl
  rw [hmin, hwidth]
  omega

theorem unpackConstrained_class (old : ℕ) (h : c.Bounds) (hne : c.lb ≠ c.ub) {e : BitRef}
    (hreads : Reads (numberField e (c.ub - c.lb + 1) c.isAligned)) :
    let f := numberField e (c.ub - c.lb + 1) c.isAligned
    let r := unpackConstrainedWholeNumber .uint32 old e c.lb c.ub c.isAligned
    r.val.toNat = (numberRead f + c.lb) % 2 ^ 32 ∧ r.cur = f.1.advance f.2 ∧
      (r.ok = true ↔ c.isAligned = true ∨ (numberRead f + c.lb) % 2 ^ 32 ≤ c.ub) := by
  intro f r
  have hrange := rangeSize_class h
  have hle := h.le
  have hlt : ¬(c.ub : ℤ) < c.lb := by omega
  have hone : rangeSize c.lb c.ub ≠ 1 := by omega
  have hrun := unpackConstrained_reads (t := .uint32) (n := (old : ℤ)) hlt hone
    (by rw [hrange]; exact hreads)
  rw [hrange] at hrun
  have hwrap := wrap_uint32 (numberRead f + c.lb)
  rw [Nat.cast_add] at hwrap
  have hnonneg := (IntType.wrap_has .uint32 (numberRead f + c.lb)).1
  have hmin : IntType.uint32.min = 0 := rfl
  rw [hmin] at hnonneg
  have hr : r = _ := hrun
  rw [hr]
  refine ⟨hwrap, rfl, ?_⟩
  dsimp only
  rw [Bool.or_eq_true, decide_eq_true_iff, ← hwrap]
  refine or_congr_right ?_
  change IntType.uint32.wrap (numberRead f + c.lb) ≤ (c.ub : ℤ) ↔ _
  omega

theorem unpackConstrained_class_ok (h : c.Bounds) (hne : c.lb ≠ c.ub) {e : BitRef}
    (hok : (unpackConstrainedWholeNumber .uint32 old e c.lb c.ub c.isAligned).ok = true) :
    Reads (numberField e (c.ub - c.lb + 1) c.isAligned) := by
  have hrange := rangeSize_class h
  have hle := h.le
  have hreads := unpackConstrained_ok (by omega : ¬(c.ub : ℤ) < c.lb) (by omega) hok
  rw [hrange] at hreads
  exact hreads

theorem unpackExt (hroom : c.hasExt = true → b.Room 1) :
    (if c.hasExt then b.unpack 1 else ⟨0, b, true⟩) =
      ⟨if c.hasExt then field b.mem b.pos 1 else 0, c.afterExt b, true⟩ := by
  unfold afterExt
  split_ifs with hext
  · exact unpack_spec (by decide) (hroom hext)
  · rfl

theorem unconstrained_iff :
    (c.ub = noUpperBound ∨ (if c.hasExt then field b.mem b.pos 1 else 0) ≠ 0) ↔
      c.Unconstrained b := by
  have hlt := field_lt b.mem b.pos 1
  unfold Unconstrained
  refine or_congr_right ?_
  split_ifs with hext
  · rw [and_iff_right hext]
    omega
  · exact iff_of_false (fun h => h rfl) (fun h => hext h.1)

theorem unpackLengthPrefix_of_carries (h : c.Bounds) (hc : c.Carries b n cur) :
    c.unpackLengthPrefix old b = ⟨n, cur, true⟩ := by
  obtain ⟨hroom, hform⟩ := hc
  unfold unpackLengthPrefix
  rw [unpackExt hroom, unpacked_handleCode_true]
  simp only [unconstrained_iff]
  split_ifs at hform ⊢ with hun heq
  · obtain ⟨henter, bits, hat, rfl⟩ := hform
    exact unpackLength_at henter hat
  · rw [hform.1, hform.2]
  · obtain ⟨hreads, hn, hle, hcur⟩ := hform
    obtain ⟨hval, hcur', hok⟩ := unpackConstrained_class old h heq hreads
    rw [hval, hcur', hcur, ← hn, hok.mpr (by rw [← hn]; exact hle)]

theorem carries_of_ok (h : c.Bounds) (hok : (c.unpackLengthPrefix old b).ok = true) :
    ∃ n cur, c.Carries b n cur := by
  obtain ⟨hext, hrest⟩ := unpacked_handleCode_ok.mp hok
  have hroom : c.hasExt = true → b.Room 1 := by
    intro hhas
    rw [if_pos hhas] at hext
    exact (unpack_ok.mp hext).2
  rw [unpackExt hroom] at hrest
  simp only [unconstrained_iff] at hrest
  unfold Carries
  split_ifs at hrest ⊢ with hun heq
  · obtain ⟨henter, val, bits, hat, -⟩ := unpackLength_ok hrest
    exact ⟨val, _, hroom, henter, bits, hat, rfl⟩
  · exact ⟨_, _, hroom, rfl, rfl⟩
  · have hreads := unpackConstrained_class_ok h heq hrest
    obtain ⟨-, -, hiff⟩ := unpackConstrained_class old h heq hreads
    exact ⟨_, _, hroom, hreads, rfl, hiff.mp hrest, rfl⟩

def BitStringClass.bitsEntry (c : BitStringClass) (cur : BitRef) : BitRef :=
  if c.isAligned ∧ (c.lb ≠ c.ub ∨ c.ub > 16) then cur.alignBytes.1 else cur

theorem unpack_of_carries (h : c.Bounds) (hc : c.Carries b n cur) :
    c.unpack nbits s b =
      let r := unpackBits (s.resize n).octets (c.bitsEntry cur) (nofOctets n)
        (toUint32 (n - 1) % 8 + 1)
      ⟨⟨r.val, n⟩, r.cur, r.ok⟩ := by
  unfold BitStringClass.unpack
  rw [unpackLengthPrefix_of_carries h hc, unpacked_handleCode_true]
  rfl

/-- The octets that are stored for a length: those of the string, or, when it has none, the one
before the first, counted in `uint32_t`. -/
def Stored (n i : ℕ) : Prop := i < nofOctets n ∨ nofOctets n = 0 ∧ i = 2 ^ 32 - 1

theorem nofOctets_lt (n : ℕ) : nofOctets n < 2 ^ 29 := by
  unfold nofOctets
  omega

theorem lastIndex (n : ℕ) :
    toUint32 ((nofOctets n : ℤ) - 1) = if nofOctets n = 0 then 2 ^ 32 - 1 else nofOctets n - 1 := by
  have hlt := nofOctets_lt n
  split_ifs with hzero
  · rw [hzero]
    rfl
  · exact toUint32_pred hzero (by omega)

theorem unpackBits_unstored {buf : ℕ → UInt8} {offset : ℕ} (hi : ¬Stored n i) :
    (unpackBits buf b (nofOctets n) offset).val i = buf i := by
  unfold Stored at hi
  have hne : i ≠ toUint32 ((nofOctets n : ℤ) - 1) := by
    rw [lastIndex]
    split_ifs <;> omega
  unfold unpackBits Unpacked.handleCode
  dsimp only
  split_ifs
  · rw [unpackOctetsDown_above (by omega), Function.update_of_ne hne]
  · exact Function.update_of_ne hne _ _

theorem unpackBits_stored {buf buf' : ℕ → UInt8} {offset : ℕ}
    (hbuf : i < nofOctets n → buf i = buf' i) (hi : Stored n i) :
    (unpackBits buf b (nofOctets n) offset).val i =
      (unpackBits buf' b (nofOctets n) offset).val i := by
  have hupdate : ∀ x, Function.update buf (toUint32 ((nofOctets n : ℤ) - 1)) x i =
      Function.update buf' (toUint32 ((nofOctets n : ℤ) - 1)) x i := by
    intro x
    rcases hi with hlt | ⟨hzero, rfl⟩
    · unfold Function.update
      split_ifs
      · rfl
      · exact hbuf hlt
    · rw [lastIndex, if_pos hzero, Function.update_self, Function.update_self]
  unfold unpackBits Unpacked.handleCode
  dsimp only
  split_ifs
  · exact unpackOctetsDown_congr (hupdate _)
  · exact hupdate _

def BitStringClass.StoresInside (c : BitStringClass) (b : BitRef) : Prop :=
  ∀ nbits s i, c.storage (c.unpack nbits s b).val.nofBits ≤ i →
    (c.unpack nbits s b).val.octets i = s.octets i

theorem storage_lt (c : BitStringClass) (n : ℕ) : c.storage n < 2 ^ 29 := by
  unfold storage
  split_ifs
  · exact nofOctets_lt n
  · exact nofOctets_lt c.ub

/-- The decoder stays inside its string exactly when a length that the message carries has octets,
and no more than the class has room for. -/
theorem storesInside_iff (h : c.Bounds) :
    c.StoresInside b ↔
      ∀ n cur, c.Carries b n cur → nofOctets n ≠ 0 ∧ nofOctets n ≤ c.storage n := by
  constructor
  · intro hinside n cur hc
    have hkept : ∀ i, c.storage n ≤ i → ¬Stored n i := by
      intro i hi hstored
      -- the octet does not depend on what was there, so it may have been another one
      have hsame : ∀ s s' : Asn1BitString, (c.unpack 0 s b).val.octets i =
          (c.unpack 0 s' b).val.octets i := by
        intro s s'
        rw [unpack_of_carries h hc, unpack_of_carries h hc]
        refine unpackBits_stored (fun hlt => ?_) hstored
        unfold Asn1BitString.resize
        dsimp only
        rw [if_pos hlt, if_pos hlt]
      have hzero := hinside 0 ⟨fun _ => 0, 0⟩ i (by rw [unpack_of_carries h hc]; exact hi)
      have hone := hinside 0 ⟨fun _ => 1, 0⟩ i (by rw [unpack_of_carries h hc]; exact hi)
      rw [hsame _ ⟨fun _ => 0, 0⟩, hzero] at hone
      exact absurd hone (by change ¬(0 : UInt8) = 1; decide)
    have hlt := storage_lt c n
    constructor
    · intro hnone
      exact hkept (2 ^ 32 - 1) (by omega) (.inr ⟨hnone, rfl⟩)
    · by_contra hlong
      exact hkept (c.storage n) (Nat.le_refl _) (.inl (Nat.not_le.mp hlong))
  · intro hcond nbits s i hi
    by_cases hok : (c.unpackLengthPrefix nbits b).ok = true
    · obtain ⟨n, cur, hc⟩ := carries_of_ok h hok
      obtain ⟨hsome, hfits⟩ := hcond n cur hc
      rw [unpack_of_carries h hc] at hi ⊢
      dsimp only at hi ⊢
      rw [unpackBits_unstored (by unfold Stored; omega)]
      unfold Asn1BitString.resize
      dsimp only
      rw [if_neg (by omega)]
    · unfold BitStringClass.unpack Unpacked.handleCode
      rw [if_neg hok]

end SrsLte

/-!
The encoder of a bounded bit string packs its count in as many bits as the difference of the
bounds has, and the decoder reads a constrained whole number, which is one more. What the decoder
reads is a window of the field and of the zeros behind it.
-/

namespace SrsLte

open BitField BitRef

variable {mem : Memory} {pos n q w k z d v x : ℕ}

theorem field_window (hw : q + w ≤ n) :
    field mem (pos + q) w = field mem pos n / 2 ^ (n - q - w) % 2 ^ w := by
  have hsplit : n = q + w + (n - q - w) := by omega
  have hdiv := field_add_div mem pos (q + w) (n - q - w)
  rw [← hsplit] at hdiv
  rw [hdiv, field_add, Nat.mul_comm, Nat.mul_add_mod,
    Nat.mod_eq_of_lt (field_lt mem (pos + q) w)]

theorem window_end (hfield : field mem pos k = v) (hzero : field mem (pos + k) z = 0)
    (hend : q + w = k + z) : field mem (pos + q) w = v * 2 ^ z % 2 ^ w := by
  have hwhole : field mem pos (k + z) = v * 2 ^ z := by
    rw [field_add, hfield, hzero, Nat.add_zero]
  rw [field_window (by omega : q + w ≤ k + z), hwhole]
  have hnone : k + z - q - w = 0 := by omega
  rw [hnone, Nat.pow_zero, Nat.div_one]

theorem shifted_eq_iff (hz : z ≠ 0) (hv : v < 2 ^ w) : v * 2 ^ z % 2 ^ w = v ↔ v = 0 := by
  constructor
  · intro h
    have hmod : Nat.ModEq (2 ^ w) v (v * 2 ^ z) := by
      rw [Nat.ModEq, h, Nat.mod_eq_of_lt hv]
    have hdvd : 2 ^ w ∣ v * 2 ^ z - v :=
      (Nat.modEq_iff_dvd' (Nat.le_mul_of_pos_right v (Nat.two_pow_pos z))).mp hmod
    have hfactor : v * 2 ^ z - v = (2 ^ z - 1) * v := by
      rw [Nat.sub_mul, Nat.one_mul, Nat.mul_comm]
    have hodd : Nat.Coprime (2 ^ w) (2 ^ z - 1) := by
      refine Nat.Coprime.pow_left w (Nat.coprime_two_left.mpr (Nat.odd_iff.mpr ?_))
      obtain ⟨j, rfl⟩ := Nat.exists_eq_succ_of_ne_zero hz
      have hpos := Nat.two_pow_pos j
      rw [Nat.pow_succ]
      omega
    rw [hfactor] at hdvd
    exact Nat.eq_zero_of_dvd_of_lt (hodd.dvd_of_dvd_mul_left hdvd) hv
  · rintro rfl
    rw [Nat.zero_mul, Nat.zero_mod]

variable {L d : ℕ}

theorem ceilLog2_two_pow (j : ℕ) : ceilLog2 (2 ^ j) = j := Nat.clog_pow 2 j (by decide)

theorem le_two_pow_ceilLog2 (d : ℕ) : d ≤ 2 ^ ceilLog2 d := Nat.le_pow_clog (by decide) d

theorem ceilLog2_mono {d' : ℕ} (h : d ≤ d') : ceilLog2 d ≤ ceilLog2 d' := Nat.clog_mono_right 2 h

theorem ceilLog2_succ_cases (d : ℕ) :
    d = 2 ^ ceilLog2 d ∧ ceilLog2 (d + 1) = ceilLog2 d + 1 ∨
      (∀ j, d ≠ 2 ^ j) ∧ ceilLog2 (d + 1) = ceilLog2 d := by
  by_cases hpow : d = 2 ^ ceilLog2 d
  · left
    refine ⟨hpow, ?_⟩
    generalize ceilLog2 d = j at hpow ⊢
    subst hpow
    apply Nat.le_antisymm
    · apply ceilLog2_le
      have hpos := Nat.two_pow_pos j
      rw [Nat.pow_succ]
      omega
    · by_contra hlt
      have hle := le_two_pow_ceilLog2 (2 ^ j + 1)
      have hmono := Nat.pow_le_pow_right (by decide : 0 < 2)
        (by omega : ceilLog2 (2 ^ j + 1) ≤ j)
      omega
  · right
    constructor
    · rintro j rfl
      rw [ceilLog2_two_pow] at hpow
      exact hpow rfl
    · have hle := le_two_pow_ceilLog2 d
      exact Nat.le_antisymm (ceilLog2_le (by omega)) (ceilLog2_mono (Nat.le_succ d))

structure CountAt (mem : Memory) (x d L : ℕ) : Prop where
  count : field mem x (ceilLog2 d) = L % 2 ^ ceilLog2 d
  padding : field mem (x + ceilLog2 d) (octetEnd (x + ceilLog2 d) - (x + ceilLog2 d)) = 0

theorem short_iff (h : CountAt mem x d L) (hL : L ≤ d) :
    (field mem x (ceilLog2 (d + 1)) = L ∧
        octetEnd (x + ceilLog2 (d + 1)) = octetEnd (x + ceilLog2 d)) ↔
      (∀ j, d ≠ 2 ^ j) ∨ L = 0 ∧ (x + ceilLog2 d) % 8 ≠ 0 := by
  have hcount := h.count
  have hpadding := h.padding
  rcases ceilLog2_succ_cases d with ⟨hpow, hw⟩ | ⟨hpow, hw⟩
  · rw [hw, field, hcount]
    have hnot : ¬∀ j, d ≠ 2 ^ j := fun hall => hall _ hpow
    rw [or_iff_right hnot]
    by_cases haligned : (x + ceilLog2 d) % 8 = 0
    · refine iff_of_false ?_ (fun hright => hright.2 haligned)
      rintro ⟨-, hend⟩
      unfold octetEnd at hend
      omega
    · have hbit : bit mem (x + ceilLog2 d) = 0 := by
        have hsplit : octetEnd (x + ceilLog2 d) - (x + ceilLog2 d) =
            1 + (octetEnd (x + ceilLog2 d) - (x + ceilLog2 d) - 1) := by
          unfold octetEnd
          omega
        rw [hsplit, field_add] at hpadding
        have hfirst : field mem (x + ceilLog2 d) 1 = 0 :=
          (Nat.mul_eq_zero.mp (Nat.add_eq_zero_iff.mp hpadding).1).resolve_right
            (Nat.two_pow_pos _).ne'
        have hone : field mem (x + ceilLog2 d) 1 = 2 * 0 + bit mem (x + ceilLog2 d) := rfl
        omega
      have hend : octetEnd (x + (ceilLog2 d + 1)) = octetEnd (x + ceilLog2 d) := by
        unfold octetEnd
        omega
      rw [hbit, and_iff_left hend, and_iff_left haligned]
      generalize ceilLog2 d = k at *
      rcases Nat.lt_or_ge L (2 ^ k) with hlt | hge
      · rw [Nat.mod_eq_of_lt hlt]
        omega
      · obtain rfl : L = 2 ^ k := by omega
        rw [Nat.mod_self]
        omega
  · rw [hw, hcount]
    have hlt : L < 2 ^ ceilLog2 d := by
      have hle := le_two_pow_ceilLog2 d
      have hne := hpow (ceilLog2 d)
      omega
    exact iff_of_true ⟨Nat.mod_eq_of_lt hlt, rfl⟩ (.inl hpow)

/-- A window that ends with the zeros behind the count shows the count only when there are no such
zeros and the window is wide enough, or when the count is zero. -/
theorem window_count (h : CountAt mem x d L) (hL : L ≤ d)
    (hend : q + w = ceilLog2 d + (octetEnd (x + ceilLog2 d) - (x + ceilLog2 d))) :
    field mem (x + q) w = L ↔
      L = 0 ∨ (x + ceilLog2 d) % 8 = 0 ∧ L < 2 ^ w ∧ L < 2 ^ ceilLog2 d := by
  have hz : octetEnd (x + ceilLog2 d) - (x + ceilLog2 d) = 0 ↔ (x + ceilLog2 d) % 8 = 0 := by
    unfold octetEnd
    omega
  have hle := hL.trans (le_two_pow_ceilLog2 d)
  rw [window_end h.count h.padding hend, ← hz]
  generalize octetEnd (x + ceilLog2 d) - (x + ceilLog2 d) = z
  generalize ceilLog2 d = k at hle ⊢
  have hpos := Nat.two_pow_pos k
  rcases hle.lt_or_eq with hlt | rfl
  · rw [Nat.mod_eq_of_lt hlt]
    by_cases hwide : L < 2 ^ w
    · by_cases hzero : z = 0
      · subst hzero
        rw [Nat.pow_zero, Nat.mul_one, Nat.mod_eq_of_lt hwide]
        exact iff_of_true rfl (.inr ⟨rfl, hwide, hlt⟩)
      · rw [shifted_eq_iff hzero hwide]
        exact (or_iff_left fun hright => hzero hright.1).symm
    · have hmod := Nat.mod_lt (L * 2 ^ z) (Nat.two_pow_pos w)
      have hpos' := Nat.two_pow_pos w
      omega
  · rw [Nat.mod_self, Nat.zero_mul, Nat.zero_mod]
    omega

theorem octets_widths (hlow : 255 ≤ d) (hhigh : d < 65536) :
    d = 255 ∧ ceilLog2 d = 8 ∧ ceilFrac (ceilLog2 (d + 1)) 8 = 1 ∨
      d = 256 ∧ ceilLog2 d = 8 ∧ ceilFrac (ceilLog2 (d + 1)) 8 = 2 ∨
      257 ≤ d ∧ 9 ≤ ceilLog2 d ∧ ceilLog2 d ≤ 16 ∧ ceilFrac (ceilLog2 (d + 1)) 8 = 2 := by
  have hbelow : ∀ {m j : ℕ}, 2 ^ j < m → j < ceilLog2 m := by
    intro m j hlt
    by_contra hge
    have hle := le_two_pow_ceilLog2 m
    have hmono := Nat.pow_le_pow_right (by decide : 0 < 2) (Nat.not_lt.mp hge)
    omega
  have hk := ceilLog2_le (by omega : d ≤ 2 ^ 16)
  have hw := ceilLog2_le (by omega : d + 1 ≤ 2 ^ 16)
  have hk' := hbelow (by omega : 2 ^ 7 < d)
  have hw' := hbelow (by omega : 2 ^ 7 < d + 1)
  unfold ceilFrac
  rcases Nat.lt_trichotomy d 256 with hlt | rfl | hgt
  · have hk'' := ceilLog2_le (by omega : d ≤ 2 ^ 8)
    have hw'' := ceilLog2_le (by omega : d + 1 ≤ 2 ^ 8)
    omega
  · have hk'' := ceilLog2_le (by decide : 256 ≤ 2 ^ 8)
    have hw'' := hbelow (by decide : 2 ^ 8 < 256 + 1)
    omega
  · have hk'' := hbelow (by omega : 2 ^ 8 < d)
    have hw'' := hbelow (by omega : 2 ^ 8 < d + 1)
    omega

theorem octets_iff (h : CountAt mem x d L) (hL : L ≤ d) (hlow : 255 ≤ d) (hhigh : d < 65536) :
    (field mem (octetEnd x) (ceilFrac (ceilLog2 (d + 1)) 8 * 8) = L ∧
        octetEnd x + ceilFrac (ceilLog2 (d + 1)) 8 * 8 = octetEnd (x + ceilLog2 d)) ↔
      d ≠ 256 ∧ (L = 0 ∧ (x % 8 = 0 ∨ d = 255 ∨ 17 ≤ x % 8 + ceilLog2 d) ∨
        x % 8 = 0 ∧ ceilLog2 d % 8 = 0) := by
  have hwindow := @window_count mem (octetEnd x - x) (ceilFrac (ceilLog2 (d + 1)) 8 * 8) x L d h hL
  have hstart : x + (octetEnd x - x) = octetEnd x := Nat.add_sub_cancel' (le_octetEnd x)
  rw [hstart] at hwindow
  by_cases hend : octetEnd x + ceilFrac (ceilLog2 (d + 1)) 8 * 8 = octetEnd (x + ceilLog2 d)
  · have hle := le_octetEnd (x + ceilLog2 d)
    rw [and_iff_left hend, hwindow (by omega)]
    unfold octetEnd at hend
    rcases octets_widths hlow hhigh with ⟨hd, hk, hn⟩ | ⟨hd, hk, hn⟩ | ⟨hd, hk, hk', hn⟩
    · rw [hk, hn] at hend ⊢
      omega
    · rw [hk, hn] at hend
      omega
    · rw [hn] at hend ⊢
      have hwide : L < 2 ^ (2 * 8) := by omega
      have hfull : (x + ceilLog2 d) % 8 = 0 → L < 2 ^ ceilLog2 d := by
        intro hmod
        have hk16 : ceilLog2 d = 16 := by omega
        rw [hk16]
        exact hwide
      omega
  · refine iff_of_false (fun hleft => hend hleft.2) ?_
    unfold octetEnd at hend
    rcases octets_widths hlow hhigh with ⟨hd, hk, hn⟩ | ⟨hd, hk, hn⟩ | ⟨hd, hk, hk', hn⟩
    · rw [hk, hn] at hend
      omega
    · exact fun hright => hright.1 hd
    · rw [hn] at hend
      omega

theorem indefinite_iff (h : CountAt mem x d L) (hL : L ≤ d) (hlow : 65536 ≤ d)
    (hhigh : ceilLog2 d < 32) :
    (field mem (octetEnd (x + 2)) ((field mem x 2 + 1) * 8) = L ∧
        octetEnd (x + 2) + (field mem x 2 + 1) * 8 = octetEnd (x + ceilLog2 d)) ↔
      d = 65536 ∧ (x % 8 = 0 ∧ L < 256 ∨ x % 8 = 7 ∧ L = 0) ∨
        ceilLog2 d = 17 ∧ x % 8 = 7 ∧ L < 256 := by
  have hle := le_two_pow_ceilLog2 d
  have hk : 16 ≤ ceilLog2 d := by
    by_contra hlt
    have hmono := Nat.pow_le_pow_right (by decide : 0 < 2) (by omega : ceilLog2 d ≤ 15)
    omega
  have hk16 : ceilLog2 d = 16 ↔ d = 65536 := by
    constructor
    · intro heq
      rw [heq] at hle
      omega
    · intro heq
      rw [heq]
      exact ceilLog2_two_pow 16
  have hfirst : field mem x 2 = L % 2 ^ ceilLog2 d / 2 ^ (ceilLog2 d - 2) := by
    have hwindow := field_add_div mem x 2 (ceilLog2 d - 2)
    rw [Nat.add_sub_cancel' (by omega : 2 ≤ ceilLog2 d), h.count] at hwindow
    exact hwindow.symm
  have hsmall : L < 2 ^ (ceilLog2 d - 2) → field mem x 2 = 0 := by
    intro hlt
    have hmono := Nat.pow_le_pow_right (by decide : 0 < 2) (Nat.sub_le (ceilLog2 d) 2)
    rw [hfirst, Nat.mod_eq_of_lt (by omega), Nat.div_eq_of_lt hlt]
  have hwindow := @window_count mem (octetEnd (x + 2) - x) ((field mem x 2 + 1) * 8) x L d h hL
  have hstart : x + (octetEnd (x + 2) - x) = octetEnd (x + 2) :=
    Nat.add_sub_cancel' ((Nat.le_add_right x 2).trans (le_octetEnd (x + 2)))
  have hbelow := le_octetEnd (x + ceilLog2 d)
  rw [hstart] at hwindow
  constructor
  · rintro ⟨hvalue, hend⟩
    have hcases := (hwindow (by omega)).mp hvalue
    -- in both cases the two bits are zero, so that one octet is read
    have hone : field mem x 2 = 0 := by
      rcases hcases with hzero | ⟨haligned, hwide, -⟩
      · exact hsmall (hzero ▸ Nat.two_pow_pos _)
      · refine hsmall (hwide.trans_le (Nat.pow_le_pow_right (by decide) ?_))
        unfold octetEnd at hend
        omega
    rw [hone, Nat.zero_add, Nat.one_mul] at hend hcases
    unfold octetEnd at hend
    have hbyte : 2 ^ 8 = 256 := rfl
    rw [hbyte] at hcases
    omega
  · intro hright
    have hlt : L < 2 ^ (ceilLog2 d - 2) := by
      have hmono := Nat.pow_le_pow_right (by decide : 0 < 2) (by omega : 14 ≤ ceilLog2 d - 2)
      omega
    have hone := hsmall hlt
    rw [hone] at hwindow ⊢
    have hend : octetEnd (x + 2) + (0 + 1) * 8 = octetEnd (x + ceilLog2 d) := by
      unfold octetEnd
      omega
    refine ⟨(hwindow (by omega)).mpr ?_, hend⟩
    have hmono := Nat.pow_le_pow_right (by decide : 0 < 2) (Nat.sub_le (ceilLog2 d) 2)
    omega

end SrsLte
