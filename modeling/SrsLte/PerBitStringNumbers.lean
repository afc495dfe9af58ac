import SrsLte.IntHelpers
import SrsLte.PerLengthAgreement
import SrsLte.PerTypes

/-!
# The bits of a bit string in a message

A string stands in a message with its last octet first, of which only the bits in use are there.
-/

namespace SrsLte

open BitField BitRef

variable {b : BitRef} {buf buf' : ℕ → UInt8} {n len nOcts offset i : ℕ} {mem mem' : Memory}
  {pos : ℕ}

/-- The octets below `n` stand at the position, from the top. -/
def OctetsAt (mem : Memory) (pos : ℕ) (buf : ℕ → UInt8) (n : ℕ) : Prop :=
  ∀ j < n, field mem (pos + 8 * (n - 1 - j)) 8 = (buf j).toNat

def lastBits (len : ℕ) : ℕ := (len - 1) % 8 + 1

def StringAt (mem : Memory) (pos : ℕ) (buf : ℕ → UInt8) (len : ℕ) : Prop :=
  field mem pos (lastBits len) = (buf (ceilFrac len 8 - 1)).toNat % 2 ^ lastBits len ∧
    OctetsAt mem (pos + lastBits len) buf (ceilFrac len 8 - 1)

theorem lastBits_le (len : ℕ) : lastBits len ≤ 8 := by
  unfold lastBits
  omega

theorem lastBits_add (hlen : len ≠ 0) : lastBits len + 8 * (ceilFrac len 8 - 1) = len := by
  unfold lastBits ceilFrac
  omega

theorem octetsAt_succ :
    OctetsAt mem pos buf (n + 1) ↔
      field mem pos 8 = (buf n).toNat ∧ OctetsAt mem (pos + 8) buf n := by
  constructor
  · intro h
    constructor
    · have hlast := h n (Nat.lt_succ_self n)
      rw [Nat.add_sub_cancel, Nat.sub_self] at hlast
      exact hlast
    · intro j hj
      have hoctet := h j (Nat.lt_succ_of_lt hj)
      have hpos : pos + 8 * (n + 1 - 1 - j) = pos + 8 + 8 * (n - 1 - j) := by omega
      rw [hpos] at hoctet
      exact hoctet
  · rintro ⟨hlast, hrest⟩ j hj
    rcases Nat.lt_succ_iff_lt_or_eq.mp hj with hlt | rfl
    · have hoctet := hrest j hlt
      have hpos : pos + 8 * (n + 1 - 1 - j) = pos + 8 + 8 * (n - 1 - j) := by omega
      rw [hpos]
      exact hoctet
    · rw [Nat.add_sub_cancel, Nat.sub_self]
      exact hlast

theorem packOctetsDown_spec (buf : ℕ → UInt8) (hroom : b.Room (8 * n)) :
    ∃ mem, packOctetsDown buf n b = ((b.advance (8 * n)).withMem mem, true) ∧
      AgreeBelow b.pos b.mem mem ∧ OctetsAt mem b.pos buf n := by
  induction n generalizing b with
  | zero =>
    refine ⟨b.mem, ?_, AgreeBelow.refl _ _, fun j hj => absurd hj (Nat.not_lt_zero j)⟩
    rw [Nat.mul_zero, advance_zero]
    rfl
  | succ n ih =>
    have hsplit : 8 * (n + 1) = 8 + 8 * n := by omega
    rw [hsplit] at hroom ⊢
    obtain ⟨mem, hpack, hagree, hfield⟩ := pack_spec (by decide : 8 < 32)
      (room_mono hroom (Nat.le_add_right _ _)) (buf n).toNat
    rw [Nat.mod_eq_of_lt (buf n).toNat_lt] at hfield
    have hrest : ((b.advance 8).withMem mem).Room (8 * n) := room_rest hroom
    obtain ⟨mem', hrun, hagree', hoctets⟩ := ih hrest
    rw [pos_withMem, pos_advance] at hagree' hoctets
    rw [mem_withMem] at hagree'
    refine ⟨mem', ?_, hagree.trans (hagree'.mono (Nat.le_add_right _ _)), ?_⟩
    · rw [packOctetsDown, hpack, handleCode_true, hrun, advance_withMem, withMem_withMem,
        advance_advance]
    · refine octetsAt_succ.mpr ⟨?_, hoctets⟩
      rw [hagree'.field (Nat.le_refl _), hfield]

theorem packCommonBitstring_spec (buf : ℕ → UInt8) (hlen : len ≠ 0) (hroom : b.Room len) :
    ∃ mem, packCommonBitstring b buf len = ((b.advance len).withMem mem, true) ∧
      AgreeBelow b.pos b.mem mem ∧ StringAt mem b.pos buf len := by
  have hsum := lastBits_add hlen
  have hle := lastBits_le len
  rw [← hsum] at hroom
  obtain ⟨mem, hpack, hagree, hfield⟩ := pack_spec (by omega : lastBits len < 32)
    (room_mono hroom (Nat.le_add_right _ _)) (buf (ceilFrac len 8 - 1)).toNat
  have hrest : ((b.advance (lastBits len)).withMem mem).Room (8 * (ceilFrac len 8 - 1)) :=
    room_rest hroom
  obtain ⟨mem', hrun, hagree', hoctets⟩ := packOctetsDown_spec buf hrest
  rw [pos_withMem, pos_advance] at hagree' hoctets
  rw [mem_withMem] at hagree'
  refine ⟨mem', ?_, hagree.trans (hagree'.mono (Nat.le_add_right _ _)), ?_, hoctets⟩
  · rw [packCommonBitstring, if_neg hlen]
    change handleCode (b.pack _ (lastBits len)) _ = _
    rw [hpack, handleCode_true, hrun, advance_withMem, withMem_withMem, advance_advance, hsum]
  · rw [hagree'.field (Nat.le_refl _), hfield]

def bufferOfOctets (mem : Memory) (pos : ℕ) (buf : ℕ → UInt8) (n : ℕ) : ℕ → UInt8 := fun i =>
  if i < n then UInt8.ofNat (field mem (pos + 8 * (n - 1 - i)) 8) else buf i

theorem unpackOctetsDown_spec (hroom : b.Room (8 * n)) :
    unpackOctetsDown n buf b = ⟨bufferOfOctets b.mem b.pos buf n, b.advance (8 * n), true⟩ := by
  induction n generalizing b buf with
  | zero =>
    rw [Nat.mul_zero, advance_zero]
    rfl
  | succ n ih =>
    have hsplit : 8 * (n + 1) = 8 + 8 * n := by omega
    rw [hsplit] at hroom ⊢
    rw [unpackOctetsDown, unpack_spec (by decide : 8 ≤ 32)
      (room_mono hroom (Nat.le_add_right _ _))]
    dsimp only
    rw [unpacked_handleCode_true, ih (room_rest hroom), advance_advance]
    congr 1
    funext i
    unfold bufferOfOctets
    rw [mem_advance, pos_advance]
    rcases Nat.lt_trichotomy i n with hlt | rfl | hgt
    · rw [if_pos hlt, if_pos (by omega)]
      congr 2
      omega
    · rw [if_neg (Nat.lt_irrefl i), if_pos (Nat.lt_succ_self i), Function.update_self,
        Nat.add_sub_cancel, Nat.sub_self, Nat.mul_zero, Nat.add_zero]
    · rw [if_neg (by omega), if_neg (by omega), Function.update_of_ne (by omega)]

theorem unpackOctetsDown_ok : (unpackOctetsDown n buf b).ok = true → b.Room (8 * n) := by
  induction n generalizing b buf with
  | zero => exact fun _ => .inl rfl
  | succ n ih =>
    intro hok
    obtain ⟨hfirst, hrest⟩ := unpacked_handleCode_ok.mp hok
    obtain ⟨hn, hroom⟩ := unpack_ok.mp hfirst
    rw [unpack_spec hn hroom] at hrest
    have hsum := room_append hroom (ih hrest)
    have hsplit : 8 * (n + 1) = 8 + 8 * n := by omega
    rw [hsplit]
    exact hsum

theorem unpackOctetsDown_above (hi : n ≤ i) : (unpackOctetsDown n buf b).val i = buf i := by
  induction n generalizing b buf with
  | zero => rfl
  | succ n ih =>
    rw [unpackOctetsDown, Unpacked.handleCode]
    split_ifs
    · rw [ih (by omega), Function.update_of_ne (by omega)]
    · exact Function.update_of_ne (by omega) _ _

theorem unpackOctetsDown_congr (h : buf i = buf' i) :
    (unpackOctetsDown n buf b).val i = (unpackOctetsDown n buf' b).val i := by
  induction n generalizing b buf buf' with
  | zero => exact h
  | succ n ih =>
    have hupdate : ∀ x, Function.update buf n x i = Function.update buf' n x i := by
      intro x
      unfold Function.update
      split_ifs
      · rfl
      · exact h
    rw [unpackOctetsDown, unpackOctetsDown, Unpacked.handleCode, Unpacked.handleCode]
    split_ifs
    · exact ih (hupdate _)
    · exact hupdate _

theorem toUint32_pred (hn : n ≠ 0) (hlt : n < 2 ^ 32) : toUint32 ((n : ℤ) - 1) = n - 1 := by
  unfold toUint32
  omega

theorem unpackBits_spec (buf : ℕ → UInt8) (hn : nOcts ≠ 0) (hlt : nOcts < 2 ^ 32)
    (hoffset : offset ≤ 8)
    (hroom : b.Room (offset + 8 * (nOcts - 1))) :
    unpackBits buf b nOcts offset =
      ⟨bufferOfOctets b.mem (b.pos + offset)
          (Function.update buf (nOcts - 1) (UInt8.ofNat (field b.mem b.pos offset))) (nOcts - 1),
        b.advance (offset + 8 * (nOcts - 1)), true⟩ := by
  unfold unpackBits
  rw [unpack_spec (by omega) (room_mono hroom (Nat.le_add_right _ _))]
  dsimp only
  rw [unpacked_handleCode_true, unpackOctetsDown_spec (room_rest hroom), toUint32_pred hn hlt,
    mem_advance, pos_advance, advance_advance]

theorem unpackBits_ok (hok : (unpackBits buf b nOcts offset).ok = true) :
    b.Room (offset + 8 * (nOcts - 1)) := by
  obtain ⟨hfirst, hrest⟩ := unpacked_handleCode_ok.mp hok
  obtain ⟨hn, hroom⟩ := unpack_ok.mp hfirst
  rw [unpack_spec hn hroom] at hrest
  exact room_append hroom (unpackOctetsDown_ok hrest)

theorem get_unpackBits (buf : ℕ → UInt8) (hlen : len ≠ 0) (hlt : ceilFrac len 8 < 2 ^ 32)
    (hroom : b.Room len)
    (hstring : StringAt b.mem b.pos buf' len) (hi : i < len) :
    (⟨(unpackBits buf b (ceilFrac len 8) (lastBits len)).val, len⟩ : Asn1BitString).get i =
      (⟨buf', len⟩ : Asn1BitString).get i := by
  have hsum := lastBits_add hlen
  have hocts : ceilFrac len 8 ≠ 0 := by
    unfold ceilFrac
    omega
  rw [unpackBits_spec buf hocts hlt (lastBits_le len) (hsum.symm ▸ hroom)]
  obtain ⟨hlast, hoctets⟩ := hstring
  unfold Asn1BitString.get bufferOfOctets
  dsimp only
  split_ifs with hbelow
  · rw [hoctets _ hbelow, UInt8.ofNat_toNat]
  · have hindex : i / 8 = ceilFrac len 8 - 1 := by
      unfold ceilFrac at hbelow ⊢
      omega
    have hbit : i % 8 < lastBits len := by
      unfold ceilFrac at hindex
      unfold lastBits
      omega
    have hbyte : (buf' (ceilFrac len 8 - 1)).toNat % 2 ^ lastBits len < 256 :=
      (Nat.mod_lt _ (Nat.two_pow_pos _)).trans_le
        (Nat.pow_le_pow_right (by decide) (lastBits_le len) : 2 ^ lastBits len ≤ 2 ^ 8)
    rw [hindex, Function.update_self, hlast, UInt8.toNat_ofNat', Nat.mod_eq_of_lt hbyte,
      Nat.testBit_mod_two_pow, decide_eq_true hbit, Bool.true_and]

end SrsLte

/-!
A number is stored octet by octet, the least significant first. Read back, every octet is shifted
as an `int`: the sign bit of the fourth octet fills the upper half of the result, and the fifth
octet is shifted too far.
-/

namespace SrsLte

variable {ptr : ℕ → UInt8} {n i W val number : ℕ} {s t : Asn1BitString} {log2 : ℕ → ℕ}

def octetSum (ptr : ℕ → UInt8) : ℕ → ℕ
  | 0 => 0
  | n + 1 => octetSum ptr n + 2 ^ (8 * n) * (ptr n).toNat

theorem octetSum_lt (ptr : ℕ → UInt8) (n : ℕ) : octetSum ptr n < 2 ^ (8 * n) := by
  induction n with
  | zero => exact Nat.one_pos
  | succ n ih =>
    have hoctet := (ptr n).toNat_lt
    calc octetSum ptr n + 2 ^ (8 * n) * (ptr n).toNat
        < 2 ^ (8 * n) + 2 ^ (8 * n) * (ptr n).toNat := Nat.add_lt_add_right ih _
      _ = 2 ^ (8 * n) * ((ptr n).toNat + 1) := by rw [Nat.mul_succ, Nat.add_comm]
      _ ≤ 2 ^ (8 * n) * 256 := Nat.mul_le_mul_left _ (by omega)
      _ = 2 ^ (8 * (n + 1)) := by rw [Nat.mul_add_one 8 n, Nat.pow_add]

theorem octetSum_eq (h : ∀ i < n, (ptr i).toNat = number / 2 ^ (8 * i) % 256) :
    octetSum ptr n = number % 2 ^ (8 * n) := by
  induction n with
  | zero => exact (Nat.mod_one number).symm
  | succ n ih =>
    rw [octetSum, ih fun i hi => h i (Nat.lt_succ_of_lt hi), h n (Nat.lt_succ_self n),
      Nat.mul_succ, Nat.pow_add, Nat.mod_mul]

theorem addOctets_none (hn : 5 ≤ n) : addOctets ptr n = none := by
  induction n, hn using Nat.le_induction with
  | base =>
    have hshift : shiftedOctet (ptr 4) 4 = none := rfl
    rw [addOctets, hshift]
    cases addOctets ptr 4 with
    | none => rfl
    | some val => rfl
  | succ n hn ih =>
    rw [addOctets, ih]
    rfl

theorem int32_wrap (x : ℕ) (hx : x < 2 ^ 32) :
    IntType.int32.wrap x = if x < 2 ^ 31 then (x : ℤ) else x - 2 ^ 32 := by
  have hmin : IntType.int32.min = -2 ^ 31 := rfl
  have hwidth : IntType.int32.width = 32 := rfl
  unfold IntType.wrap
  rw [hmin, hwidth]
  split_ifs <;> omega

theorem uint64_wrap (x : ℤ) : IntType.uint64.wrap x = x % 2 ^ 64 := by
  have hmin : IntType.uint64.min = 0 := rfl
  have hwidth : IntType.uint64.width = 64 := rfl
  unfold IntType.wrap
  rw [hmin, hwidth]
  omega

theorem addOctets_small (hn : n ≤ 3) : addOctets ptr n = some (octetSum ptr n : ℤ) := by
  induction n with
  | zero => rfl
  | succ n ih =>
    have hoctet := (ptr n).toNat_lt
    have hlt := octetSum_lt ptr (n + 1)
    have hpow : 2 ^ (8 * (n + 1)) ≤ 2 ^ 24 := Nat.pow_le_pow_right (by decide) (by omega)
    have hcomm : (ptr n).toNat * 2 ^ (n * 8) = 2 ^ (8 * n) * (ptr n).toNat := by
      rw [Nat.mul_comm n 8, Nat.mul_comm]
    have hsum : octetSum ptr (n + 1) = octetSum ptr n + 2 ^ (8 * n) * (ptr n).toNat := rfl
    have hcast : ((ptr n).toNat * 2 ^ (n * 8) : ℤ) = ((2 ^ (8 * n) * (ptr n).toNat : ℕ) : ℤ) := by
      rw [← hcomm]
      push_cast
      rfl
    rw [addOctets, ih (by omega), shiftedOctet, if_neg (by omega), hcast,
      int32_wrap _ (by omega), if_pos (by omega)]
    simp only [Option.bind_some, Option.map_some, uint64_wrap]
    congr 1
    omega

theorem addOctets_four :
    addOctets ptr 4 = some (if octetSum ptr 4 < 2 ^ 31 then (octetSum ptr 4 : ℤ)
      else octetSum ptr 4 + (2 ^ 64 - 2 ^ 32)) := by
  have hoctet := (ptr 3).toNat_lt
  have hlt := octetSum_lt ptr 3
  have hsum : octetSum ptr 4 = octetSum ptr 3 + 2 ^ 24 * (ptr 3).toNat := rfl
  have hcast : ((ptr 3).toNat * 2 ^ (3 * 8) : ℤ) = ((2 ^ 24 * (ptr 3).toNat : ℕ) : ℤ) := by
    push_cast
    rw [mul_comm]
  rw [addOctets, addOctets_small le_rfl, shiftedOctet, if_neg (by decide), hcast,
    int32_wrap _ (by omega)]
  simp only [Option.bind_some, Option.map_some, uint64_wrap]
  congr 1
  split_ifs <;> omega

theorem addOctets_eq (hn : n ≤ 4) :
    addOctets ptr n = some (if octetSum ptr n < 2 ^ 31 then (octetSum ptr n : ℤ)
      else octetSum ptr n + (2 ^ 64 - 2 ^ 32)) := by
  rcases Nat.lt_or_eq_of_le hn with hlt | rfl
  · have hsum := octetSum_lt ptr n
    have hpow : 2 ^ (8 * n) ≤ 2 ^ 24 := Nat.pow_le_pow_right (by decide) (by omega)
    rw [addOctets_small (by omega), if_pos (by omega)]
  · exact addOctets_four

theorem toNat_stored (hi : i < n) :
    (storeOctets ptr number n i).toNat = number / 2 ^ (8 * i) % 256 := by
  unfold storeOctets
  rw [if_pos hi, IntHelpers.toNat_byte, Nat.mul_comm]

theorem numberToBitstring_octet (hW : W ≤ 64) (hi : i < ceilFrac W 8) :
    (numberToBitstring ptr val W i).toNat = val % 2 ^ W / 2 ^ (8 * i) % 256 := by
  have hle : 8 * i ≤ W := by
    unfold ceilFrac at hi
    omega
  have hsplit : val % 2 ^ W / 2 ^ (8 * i) = val / 2 ^ (8 * i) % 2 ^ (W - 8 * i) := by
    have hpow : 2 ^ W = 2 ^ (8 * i) * 2 ^ (W - 8 * i) := by
      rw [← Nat.pow_add, Nat.add_sub_cancel' hle]
    rw [hpow, Nat.mod_mul_right_div_self]
  have hwhole : 8 ≤ W - 8 * i →
      val / 2 ^ (8 * i) % 2 ^ (W - 8 * i) % 256 = val / 2 ^ (8 * i) % 256 := fun h8 =>
    Nat.mod_mod_of_dvd _ (Nat.pow_dvd_pow 2 h8 : 2 ^ 8 ∣ 2 ^ (W - 8 * i))
  rw [hsplit]
  unfold numberToBitstring
  rw [if_neg (by omega)]
  split_ifs with hoffset
  · by_cases htop : i = ceilFrac W 8 - 1
    · -- the last octet keeps the bits in use
      have hwidth : W - 8 * i = W % 8 := by
        unfold ceilFrac at htop
        omega
      have hlow : 2 ^ (W % 8) ≤ 2 ^ 8 := Nat.pow_le_pow_right (by decide) (by omega)
      have hmask : (UInt8.ofNat (1 <<< (W % 8) - 1)).toNat = 2 ^ (W % 8) - 1 := by
        have hpos := Nat.two_pow_pos (W % 8)
        rw [UInt8.toNat_ofNat', Nat.one_shiftLeft]
        exact Nat.mod_eq_of_lt (by omega)
      rw [← htop, Function.update_self, UInt8.toNat_and, hmask, Nat.and_two_pow_sub_one_eq_mod,
        toNat_stored hi, hwidth,
        Nat.mod_mod_of_dvd _ (Nat.pow_dvd_pow 2 (by omega : W % 8 ≤ 8) : 2 ^ (W % 8) ∣ 2 ^ 8)]
      exact (Nat.mod_eq_of_lt ((Nat.mod_lt _ (Nat.two_pow_pos _)).trans_le hlow)).symm
    · have h8 : 8 ≤ W - 8 * i := by
        unfold ceilFrac at hi htop
        omega
      rw [Function.update_of_ne htop, toNat_stored hi, hwhole h8]
  · have h8 : 8 ≤ W - 8 * i := by
      unfold ceilFrac at hi
      omega
    rw [toNat_stored hi, hwhole h8]

theorem octetSum_numberToBitstring (hW : W ≤ 64) :
    octetSum (numberToBitstring ptr val W) (ceilFrac W 8) = val % 2 ^ W := by
  rw [octetSum_eq fun i hi => numberToBitstring_octet hW hi]
  have hle : W ≤ 8 * ceilFrac W 8 := by
    unfold ceilFrac
    omega
  exact Nat.mod_eq_of_lt ((Nat.mod_lt _ (Nat.two_pow_pos W)).trans_le
    (Nat.pow_le_pow_right (by decide) hle))

/-- `ceilf(log2(n))`: rounding keeps the logarithm between the whole numbers around it. -/
def LogBounds (log2 : ℕ → ℕ) : Prop := ∀ n, Nat.log 2 n ≤ log2 n ∧ log2 n ≤ Nat.clog 2 n

theorem nofBits_fromNumber (log2 : ℕ → ℕ) (s : Asn1BitString) (val : ℕ) :
    (s.fromNumber log2 val).nofBits = max s.nofBits (log2 val) := by
  unfold Asn1BitString.fromNumber
  dsimp only
  split_ifs with hlong
  · exact (Nat.max_eq_right (Nat.le_of_lt hlong)).symm
  · exact (Nat.max_eq_left (Nat.not_lt.mp hlong)).symm

theorem octets_fromNumber (log2 : ℕ → ℕ) (s : Asn1BitString) (val : ℕ) :
    ∃ ptr, (s.fromNumber log2 val).octets =
      numberToBitstring ptr val (max s.nofBits (log2 val)) := by
  rw [← nofBits_fromNumber log2 s val]
  exact ⟨(if log2 val > s.nofBits then s.resize (log2 val) else s).octets, rfl⟩

theorem toNumber_eq (hs : s.nofBits ≤ 64) :
    s.toNumber = if s.nofBits ≤ 32 then
      some (if octetSum s.octets (ceilFrac s.nofBits 8) < 2 ^ 31 then
          (octetSum s.octets (ceilFrac s.nofBits 8) : ℤ)
        else octetSum s.octets (ceilFrac s.nofBits 8) + (2 ^ 64 - 2 ^ 32))
      else none := by
  unfold Asn1BitString.toNumber bitstringToNumber
  rw [if_neg (by omega)]
  split_ifs with hshort hsmall
  · rw [addOctets_eq (by unfold ceilFrac; omega), if_pos hsmall]
  · rw [addOctets_eq (by unfold ceilFrac; omega), if_neg hsmall]
  · exact addOctets_none (by unfold ceilFrac; omega)

theorem log2_le (hlog : LogBounds log2) {k : ℕ} (hval : val ≤ 2 ^ k) : log2 val ≤ k :=
  (hlog val).2.trans (Nat.clog_le_of_le_pow hval)

theorem le_log2 (hlog : LogBounds log2) {k : ℕ} (hval : 2 ^ k ≤ val) : k ≤ log2 val :=
  (Nat.le_log_of_pow_le (by decide) hval).trans (hlog val).1

/-- A number is read back exactly below `2 ^ 31`, from a string of at most 32 bits that is long
enough for it, before or after `from_number`. -/
theorem number_read_back_iff (hlog : LogBounds log2) (hs : s.nofBits ≤ 64) (hval : val < 2 ^ 64) :
    (s.fromNumber log2 val).toNumber = some (val : ℤ) ↔
      s.nofBits ≤ 32 ∧ val < 2 ^ 31 ∧ (val < 2 ^ s.nofBits ∨ val < 2 ^ log2 val) := by
  have hlog64 := log2_le hlog (Nat.le_of_lt hval)
  obtain ⟨ptr, hptr⟩ := octets_fromNumber log2 s val
  have hbits := nofBits_fromNumber log2 s val
  have hsum : octetSum (s.fromNumber log2 val).octets (ceilFrac (s.fromNumber log2 val).nofBits 8)
      = val % 2 ^ max s.nofBits (log2 val) := by
    rw [hptr, hbits, octetSum_numberToBitstring (Nat.max_le.mpr ⟨hs, hlog64⟩)]
  rw [toNumber_eq (by rw [hbits]; exact Nat.max_le.mpr ⟨hs, hlog64⟩), hsum, hbits]
  have hlarge : 2 ^ 63 ≤ val → 63 ≤ log2 val := le_log2 hlog
  have hsmall : val < 2 ^ 31 → log2 val ≤ 31 := fun hlt => log2_le hlog (Nat.le_of_lt hlt)
  have hmod := Nat.mod_lt val (Nat.two_pow_pos (max s.nofBits (log2 val)))
  have hle := Nat.mod_le val (2 ^ max s.nofBits (log2 val))
  have hfits : val % 2 ^ max s.nofBits (log2 val) = val ↔
      val < 2 ^ s.nofBits ∨ val < 2 ^ log2 val := by
    rw [Nat.mod_eq_iff_lt (Nat.two_pow_pos _).ne']
    rcases le_total s.nofBits (log2 val) with hmax | hmax
    · have hmono := Nat.pow_le_pow_right (by decide : 0 < 2) hmax
      rw [Nat.max_eq_right hmax]
      omega
    · have hmono := Nat.pow_le_pow_right (by decide : 0 < 2) hmax
      rw [Nat.max_eq_left hmax]
      omega
  split_ifs with hshort hpositive
  · rw [Option.some_inj, Nat.cast_inj, ← hfits]
    omega
  · rw [Option.some_inj]
    omega
  · refine iff_of_false (fun h => nomatch h) (fun hright => ?_)
    omega

theorem octetSum_octet (hi : i < n) : octetSum ptr n / 2 ^ (8 * i) % 256 = (ptr i).toNat := by
  induction n with
  | zero => omega
  | succ n ih =>
    have hlt := octetSum_lt ptr n
    rw [octetSum]
    rcases Nat.lt_succ_iff_lt_or_eq.mp hi with hlow | rfl
    · have hpow : 2 ^ (8 * n) = 2 ^ (8 * i) * (256 * 2 ^ (8 * (n - i - 1))) := by
        have hbyte : 256 = 2 ^ 8 := rfl
        rw [hbyte, ← Nat.pow_add, ← Nat.pow_add]
        congr 1
        omega
      rw [hpow, Nat.mul_assoc, Nat.mul_assoc, Nat.add_mul_div_left _ _ (Nat.two_pow_pos _),
        Nat.add_mul_mod_self_left, ih hlow]
    · rw [Nat.add_mul_div_left _ _ (Nat.two_pow_pos _), Nat.div_eq_of_lt hlt, Nat.zero_add]
      exact Nat.mod_eq_of_lt (ptr i).toNat_lt

/-- A string without stray bits is stored back from its number exactly when it has at most 32 bits
and stands for a number below `2 ^ 31`. -/
theorem string_read_back_iff (hlog : LogBounds log2) (hs : s.nofBits ≤ 64)
    (hclean : octetSum s.octets (ceilFrac s.nofBits 8) < 2 ^ s.nofBits) :
    (∃ v : ℕ, s.toNumber = some (v : ℤ) ∧ ∀ t : Asn1BitString, t.nofBits = s.nofBits →
        (t.fromNumber log2 v).nofBits = s.nofBits ∧
          ∀ i < s.nofBits, (t.fromNumber log2 v).get i = s.get i) ↔
      s.nofBits ≤ 32 ∧ octetSum s.octets (ceilFrac s.nofBits 8) < 2 ^ 31 := by
  rw [toNumber_eq hs]
  constructor
  · rintro ⟨v, hread, hstore⟩
    split_ifs at hread with hshort hpositive
    · exact ⟨hshort, hpositive⟩
    · rw [Option.some_inj] at hread
      have hbits := (hstore s rfl).1
      rw [nofBits_fromNumber] at hbits
      have hlarge := @le_log2 v log2 hlog 63 (by omega)
      omega
  · rintro ⟨hshort, hpositive⟩
    rw [if_pos hshort, if_pos hpositive]
    refine ⟨_, rfl, fun t ht => ?_⟩
    have hmax : max t.nofBits (log2 (octetSum s.octets (ceilFrac s.nofBits 8))) = s.nofBits := by
      rw [ht]
      exact Nat.max_eq_left (log2_le hlog (Nat.le_of_lt hclean))
    refine ⟨(nofBits_fromNumber _ _ _).trans hmax, fun i hi => ?_⟩
    obtain ⟨ptr, hptr⟩ := octets_fromNumber log2 t (octetSum s.octets (ceilFrac s.nofBits 8))
    have hoctet : i / 8 < ceilFrac s.nofBits 8 := by
      unfold ceilFrac
      omega
    unfold Asn1BitString.get
    rw [hptr, hmax, numberToBitstring_octet hs hoctet, Nat.mod_eq_of_lt hclean,
      octetSum_octet hoctet]

end SrsLte
