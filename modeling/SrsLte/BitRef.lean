import Mathlib.Data.Nat.Bits
import SrsLte.BitField

/-!
# The cursor of the ASN.1 packing

A `bit_ref` is a position in a buffer and the end of the buffer. Packing writes value bits most
significant bit first, and clears what is behind them in the last byte.
-/

namespace SrsLte

open BitField

structure BitRef where
  mem : Memory
  ptr : ℕ
  offset : ℕ
  max : ℕ
  offset_lt : offset < 8

/-- What an unpacking function returns: the value, the cursor, and whether it succeeded. -/
structure Unpacked (α : Type) where
  val : α
  cur : BitRef
  ok : Bool

/-- `HANDLE_CODE`: the rest runs only when this step succeeded. -/
def handleCode (r : BitRef × Bool) (rest : BitRef → BitRef × Bool) : BitRef × Bool :=
  if r.2 then rest r.1 else r

/-- `HANDLE_CODE` around a step of an unpacking function; `out` is what the output variable holds
when the step failed. -/
def Unpacked.handleCode {α β : Type} (r : Unpacked α) (out : β)
    (rest : α → BitRef → Unpacked β) : Unpacked β :=
  if r.ok then rest r.val r.cur else ⟨out, r.cur, false⟩

def Unpacked.ofCode (r : BitRef × Bool) : Unpacked Unit := ⟨(), r.1, r.2⟩

namespace BitRef

theorem zero_lt_eight : 0 < 8 := by decide

variable (b : BitRef)

def pos : ℕ := 8 * b.ptr + b.offset

def withMem (mem : Memory) : BitRef := { b with mem := mem }

def advance (nBits : ℕ) : BitRef :=
  { b with
    ptr := (b.pos + nBits) / 8
    offset := (b.pos + nBits) % 8
    offset_lt := Nat.mod_lt _ (by decide) }

/-- The loop of `pack`. -/
def packLoop : ℕ → BitRef → ℕ → ℕ → BitRef × Bool
  | 0, b, _, _ => (b, true)
  | fuel + 1, b, val, nBits =>
    if nBits = 0 then (b, true)
    else if b.ptr ≥ b.max then (b, false)
    else
      let val := val &&& (1 <<< nBits - 1)
      let keepmask := 255 - (1 <<< (8 - b.offset) - 1)
      if h : 8 - b.offset > nBits then
        let bit := (val <<< (8 - b.offset - nBits)) % 256
        let byte := UInt8.ofNat (((b.mem b.ptr).toNat &&& keepmask) + bit)
        ({ b with
          mem := Function.update b.mem b.ptr byte
          offset := b.offset + nBits
          offset_lt := by omega }, true)
      else
        let bit := (val >>> (nBits - (8 - b.offset))) % 256
        let byte := UInt8.ofNat (((b.mem b.ptr).toNat &&& keepmask) + bit)
        packLoop fuel
          { b with
            mem := Function.update b.mem b.ptr byte
            ptr := b.ptr + 1
            offset := 0
            offset_lt := by decide }
          val (nBits - (8 - b.offset))

def pack (val nBits : ℕ) : BitRef × Bool :=
  if nBits ≥ 32 then (b, false) else packLoop nBits b val nBits

/-- The loop of `unpack_bits`. -/
def unpackLoop : ℕ → BitRef → ℕ → ℕ → Unpacked ℕ
  | 0, b, val, _ => ⟨val, b, true⟩
  | fuel + 1, b, val, nBits =>
    if nBits = 0 then ⟨val, b, true⟩
    else if b.ptr ≥ b.max then ⟨val, b, false⟩
    else if h : 8 - b.offset > nBits then
      let mask := (1 <<< (8 - b.offset)) - (1 <<< (8 - b.offset - nBits))
      let val := val + (((b.mem b.ptr).toNat &&& mask) >>> (8 - b.offset - nBits))
      ⟨val, { b with offset := b.offset + nBits, offset_lt := by omega }, true⟩
    else
      let mask := 1 <<< (8 - b.offset) - 1
      let val := val + (((b.mem b.ptr).toNat &&& mask) <<< (nBits - (8 - b.offset)))
      unpackLoop fuel { b with ptr := b.ptr + 1, offset := 0, offset_lt := by decide } val
        (nBits - (8 - b.offset))

def unpack (nBits : ℕ) : Unpacked ℕ :=
  if nBits > 32 then ⟨0, b, false⟩ else unpackLoop nBits b 0 nBits

def alignBytes : BitRef × Bool :=
  if b.offset = 0 then (b, true)
  else if b.ptr ≥ b.max then (b, false)
  else ({ b with ptr := b.ptr + 1, offset := 0, offset_lt := by decide }, true)

def alignBytesZero : BitRef × Bool :=
  if b.offset = 0 then (b, true)
  else if b.ptr ≥ b.max then (b, false)
  else
    let mask := 256 - 1 <<< (8 - b.offset)
    let byte := UInt8.ofNat ((b.mem b.ptr).toNat &&& mask)
    ({ b with
      mem := Function.update b.mem b.ptr byte
      ptr := b.ptr + 1
      offset := 0
      offset_lt := by decide }, true)

@[simp] theorem handleCode_true (b : BitRef) (rest : BitRef → BitRef × Bool) :
    handleCode (b, true) rest = rest b := rfl

@[simp] theorem unpacked_handleCode_true {α β : Type} (val : α) (b : BitRef) (out : β)
    (rest : α → BitRef → Unpacked β) :
    Unpacked.handleCode ⟨val, b, true⟩ out rest = rest val b := rfl

@[simp] theorem ofCode_eq (r : BitRef × Bool) : Unpacked.ofCode r = ⟨(), r.1, r.2⟩ := rfl

theorem handleCode_pure (r : BitRef × Bool) : (handleCode r fun b => (b, true)) = r := by
  obtain ⟨b, ok⟩ := r
  cases ok <;> rfl

theorem handleCode_ok {r : BitRef × Bool} {rest : BitRef → BitRef × Bool} :
    (handleCode r rest).2 = true ↔ r.2 = true ∧ (rest r.1).2 = true := by
  unfold handleCode
  split_ifs with hr
  · rw [hr, and_iff_right rfl]
  · exact ⟨fun h => absurd h hr, fun h => absurd h.1 hr⟩

theorem unpacked_handleCode_ok {α β : Type} {r : Unpacked α} {out : β}
    {rest : α → BitRef → Unpacked β} :
    (r.handleCode out rest).ok = true ↔ r.ok = true ∧ (rest r.val r.cur).ok = true := by
  unfold Unpacked.handleCode
  split_ifs with hr
  · rw [hr, and_iff_right rfl]
  · exact ⟨fun h => (nomatch h), fun h => absurd h.1 hr⟩

def Room (nBits : ℕ) : Prop := nBits = 0 ∨ b.pos + nBits ≤ 8 * b.max

instance (nBits : ℕ) : Decidable (b.Room nBits) := inferInstanceAs (Decidable (_ ∨ _))

variable {b} {b' : BitRef} {val nBits m : ℕ} {mem : Memory}

@[ext] theorem ext_pos (hmem : b.mem = b'.mem) (hpos : b.pos = b'.pos) (hmax : b.max = b'.max) :
    b = b' := by
  obtain ⟨mem, ptr, offset, max, hlt⟩ := b
  obtain ⟨mem', ptr', offset', max', hlt'⟩ := b'
  obtain rfl : mem = mem' := hmem
  obtain rfl : max = max' := hmax
  have hpos' : 8 * ptr + offset = 8 * ptr' + offset' := hpos
  obtain rfl : ptr = ptr' := by omega
  obtain rfl : offset = offset' := by omega
  rfl

@[simp] theorem pos_withMem : (b.withMem mem).pos = b.pos := rfl

@[simp] theorem mem_withMem : (b.withMem mem).mem = mem := rfl

@[simp] theorem max_withMem : (b.withMem mem).max = b.max := rfl

@[simp] theorem withMem_withMem (mem' : Memory) : (b.withMem mem).withMem mem' = b.withMem mem' :=
  rfl

@[simp] theorem pos_advance : (b.advance nBits).pos = b.pos + nBits := Nat.div_add_mod _ 8

@[simp] theorem mem_advance : (b.advance nBits).mem = b.mem := rfl

@[simp] theorem max_advance : (b.advance nBits).max = b.max := rfl

@[simp] theorem advance_advance (m n : ℕ) : (b.advance m).advance n = b.advance (m + n) :=
  ext_pos rfl (by simp [Nat.add_assoc]) rfl

@[simp] theorem advance_withMem : (b.withMem mem).advance nBits = (b.advance nBits).withMem mem :=
  rfl

theorem advance_zero : b.advance 0 = b := ext_pos rfl pos_advance rfl

theorem room_withMem : (b.withMem mem).Room nBits ↔ b.Room nBits := Iff.rfl

end BitRef
end SrsLte

/-!
Packing writes one field at the position of the cursor and leaves every bit before it. Unpacking
reads the field at the position. Both succeed exactly when there is room.
-/

namespace SrsLte.BitRef

open BitField

variable {b : BitRef} {val nBits n fuel : ℕ} {mem : Memory}

theorem ptr_lt_of_room (hroom : b.Room nBits) (hn : nBits ≠ 0) : b.ptr < b.max := by
  have hpos := hroom.resolve_left hn
  unfold pos at hpos
  omega

theorem room_rest (hroom : b.Room (n + nBits)) : (b.advance n).Room nBits := by
  rcases hroom with hzero | hpos
  · left
    omega
  · right
    rw [pos_advance, max_advance, Nat.add_assoc]
    exact hpos

theorem room_append (hroom : b.Room n) (hrest : (b.advance n).Room nBits) :
    b.Room (n + nBits) := by
  rcases hrest with hzero | hpos
  · rw [hzero]
    exact hroom
  · right
    rw [pos_advance, max_advance] at hpos
    omega

theorem room_mono (hroom : b.Room nBits) (hn : n ≤ nBits) : b.Room n := by
  rcases hroom with hzero | hpos
  · left
    omega
  · right
    omega

theorem advance_within (hn : b.offset + n < 8) (mem : Memory) :
    ({ b with mem := mem, offset := b.offset + n, offset_lt := hn } : BitRef) =
      (b.advance n).withMem mem := by
  apply ext_pos
  · rfl
  · rw [pos_withMem, pos_advance, pos, pos, Nat.add_assoc]
  · rfl

theorem advance_byte (hlt : 0 < 8) (mem : Memory) :
    ({ b with mem := mem, ptr := b.ptr + 1, offset := 0, offset_lt := hlt } : BitRef) =
      (b.advance (8 - b.offset)).withMem mem := by
  have hoff := b.offset_lt
  apply ext_pos
  · rfl
  · rw [pos_withMem, pos_advance]
    change 8 * (b.ptr + 1) + 0 = 8 * b.ptr + b.offset + (8 - b.offset)
    omega
  · rfl

theorem keepmask_eq (x o : ℕ) (hx : x < 256) (ho : o < 8) :
    x &&& (255 - (1 <<< (8 - o) - 1)) = x / 2 ^ (8 - o) * 2 ^ (8 - o) := by
  have hpos : 1 ≤ 1 <<< (8 - o) := by
    rw [Nat.one_shiftLeft]
    exact Nat.one_le_two_pow
  have hle : 1 <<< (8 - o) ≤ 256 := by
    rw [Nat.one_shiftLeft]
    exact Nat.pow_le_pow_right (by omega) (by omega : 8 - o ≤ 8)
  have hmask : 255 - (1 <<< (8 - o) - 1) = 256 - 1 <<< (8 - o) := by omega
  rw [hmask]
  exact and_high hx (Nat.sub_le 8 o)

theorem toNat_pack_byte (b : BitRef) (bit : ℕ) {v : ℕ} (hn : b.offset + n ≤ 8) (hv : v < 2 ^ n)
    (hbit : bit = v * 2 ^ (8 - b.offset - n)) :
    (UInt8.ofNat (((b.mem b.ptr).toNat &&& (255 - (1 <<< (8 - b.offset) - 1))) +
      bit % 256)).toNat =
      (b.mem b.ptr).toNat / 2 ^ (8 - b.offset) * 2 ^ (8 - b.offset) +
        v * 2 ^ (8 - b.offset - n) := by
  have hlt := shifted_lt (n := n) (k := 8 - b.offset) (by omega) hv
  have hle : 2 ^ (8 - b.offset) ≤ 256 :=
    Nat.pow_le_pow_right (n := 2) (by omega) (Nat.sub_le 8 b.offset)
  have hbyte := write_lt (UInt8.toNat_lt (b.mem b.ptr)) (Nat.sub_le 8 b.offset)
    (by omega : n ≤ 8 - b.offset) hv
  rw [UInt8.toNat_ofNat', keepmask_eq _ _ (UInt8.toNat_lt _) b.offset_lt, hbit,
    Nat.mod_eq_of_lt (Nat.lt_of_lt_of_le hlt hle), Nat.mod_eq_of_lt hbyte]

theorem packLoop_zero (fuel : ℕ) (b : BitRef) (val : ℕ) : packLoop fuel b val 0 = (b, true) := by
  cases fuel <;> rfl

theorem high_lt (val : ℕ) (hn : n ≤ nBits) : val % 2 ^ nBits / 2 ^ (nBits - n) < 2 ^ n := by
  apply Nat.div_lt_of_lt_mul
  rw [← Nat.pow_add, Nat.sub_add_cancel hn]
  exact Nat.mod_lt _ (Nat.two_pow_pos _)

/-- One round of the loop of `pack` writes the highest bits of the rest into the byte of the
cursor, all of them or as many as fit. -/
theorem packLoop_step (fuel : ℕ) (hzero : nBits ≠ 0) (hptr : b.ptr < b.max) (val : ℕ) :
    ∃ (n : ℕ) (byte : UInt8), 0 < n ∧ n ≤ nBits ∧ b.offset + n ≤ 8 ∧
      (n < nBits → b.offset + n = 8) ∧
      byte.toNat = (b.mem b.ptr).toNat / 2 ^ (8 - b.offset) * 2 ^ (8 - b.offset) +
        val % 2 ^ nBits / 2 ^ (nBits - n) * 2 ^ (8 - b.offset - n) ∧
      packLoop (fuel + 1) b val nBits = packLoop fuel
        ((b.advance n).withMem (Function.update b.mem b.ptr byte)) (val % 2 ^ nBits)
        (nBits - n) := by
  have hoff := b.offset_lt
  rw [packLoop, if_neg hzero, if_neg (Nat.not_le.mpr hptr)]
  simp only [and_low]
  by_cases hlast : 8 - b.offset > nBits
  · refine ⟨nBits, _, Nat.pos_of_ne_zero hzero, le_rfl, by omega,
      fun h => absurd h (Nat.lt_irrefl _), toNat_pack_byte b
        ((val % 2 ^ nBits) <<< (8 - b.offset - nBits)) (by omega) (high_lt val le_rfl) ?_, ?_⟩
    · rw [Nat.shiftLeft_eq, Nat.sub_self, Nat.pow_zero, Nat.div_one]
    · rw [dif_pos hlast, advance_within, Nat.sub_self, packLoop_zero]
  · refine ⟨8 - b.offset, _, by omega, Nat.not_lt.mp hlast, by omega, fun _ => by omega,
      toNat_pack_byte b ((val % 2 ^ nBits) >>> (nBits - (8 - b.offset))) (by omega)
        (high_lt val (Nat.not_lt.mp hlast)) ?_, ?_⟩
    · rw [Nat.shiftRight_eq_div_pow, Nat.sub_self, Nat.pow_zero, Nat.mul_one]
    · rw [dif_neg hlast, advance_byte]

/-- The loop of `pack` writes the low bits of the value. The induction is on the fuel, which
covers the bits that are left. -/
theorem packLoop_spec (hfuel : nBits ≤ fuel) (hroom : b.Room nBits) :
    ∃ mem, packLoop fuel b val nBits = ((b.advance nBits).withMem mem, true) ∧
      AgreeBelow b.pos b.mem mem ∧ field mem b.pos nBits = val % 2 ^ nBits := by
  induction fuel generalizing b val nBits with
  | zero =>
    obtain rfl := Nat.le_zero.mp hfuel
    refine ⟨b.mem, ?_, AgreeBelow.refl _ _, by rw [Nat.pow_zero, Nat.mod_one]; rfl⟩
    rw [advance_zero]
    rfl
  | succ fuel ih =>
    by_cases hzero : nBits = 0
    · subst hzero
      refine ⟨b.mem, ?_, AgreeBelow.refl _ _, by rw [Nat.pow_zero, Nat.mod_one]; rfl⟩
      rw [packLoop, if_pos rfl, advance_zero]
      rfl
    obtain ⟨n, byte, hpos, hn, hin, -, hbyte, hrun⟩ :=
      packLoop_step fuel hzero (ptr_lt_of_room hroom hzero) val
    obtain ⟨hagree, hfield⟩ := field_write b.offset_lt hin (high_lt val hn) hbyte
    obtain ⟨m, rfl⟩ := Nat.exists_eq_add_of_le hn
    rw [Nat.add_sub_cancel_left] at hrun hfield
    obtain ⟨mem, hrest, hagree', hfield'⟩ := @ih
      ((b.advance n).withMem (Function.update b.mem b.ptr byte)) (val % 2 ^ (n + m)) m (by omega)
      (room_rest hroom)
    refine ⟨mem, ?_, hagree.trans (hagree'.mono ?_), ?_⟩
    · rw [hrun, hrest, advance_withMem, advance_advance, withMem_withMem]
    · rw [pos_withMem, pos_advance]
      exact Nat.le_add_right _ _
    · rw [pos_withMem, pos_advance] at hagree' hfield'
      rw [field_add, hagree'.field le_rfl, mem_withMem, pos, hfield, ← pos, hfield',
        Nat.div_add_mod']

theorem not_room_rest (hsplit : nBits = n + (nBits - n)) (hptr : b.pos + n ≤ 8 * b.max)
    (hroom : ¬b.Room nBits) : ¬(b.advance n).Room (nBits - n) := by
  rintro (hzero | hpos)
  · apply hroom
    right
    omega
  · apply hroom
    right
    rw [pos_advance, max_advance] at hpos
    omega

theorem packLoop_fail (hfuel : nBits ≤ fuel) (hroom : ¬b.Room nBits) :
    (packLoop fuel b val nBits).2 = false := by
  induction fuel generalizing b val nBits with
  | zero => exact (hroom (.inl (Nat.le_zero.mp hfuel))).elim
  | succ fuel ih =>
    have hzero : nBits ≠ 0 := fun h => hroom (.inl h)
    by_cases hptr : b.ptr ≥ b.max
    · rw [packLoop, if_neg hzero, if_pos hptr]
    obtain ⟨n, byte, hpos, hn, hin, -, -, hrun⟩ :=
      packLoop_step fuel hzero (Nat.not_le.mp hptr) val
    rw [hrun]
    exact ih (by omega) (not_room_rest (by omega) (by unfold pos; omega) hroom)

theorem pack_spec (hn : nBits < 32) (hroom : b.Room nBits) (val : ℕ) :
    ∃ mem, b.pack val nBits = ((b.advance nBits).withMem mem, true) ∧
      AgreeBelow b.pos b.mem mem ∧ field mem b.pos nBits = val % 2 ^ nBits := by
  rw [pack, if_neg (Nat.not_le.mpr hn)]
  exact packLoop_spec le_rfl hroom

theorem pack_fail (h : 32 ≤ nBits ∨ ¬b.Room nBits) : (b.pack val nBits).2 = false := by
  unfold pack
  split_ifs with hn
  · rfl
  · exact packLoop_fail le_rfl (h.resolve_left hn)

theorem pack_ok : (b.pack val nBits).2 = true ↔ nBits < 32 ∧ b.Room nBits := by
  constructor
  · intro hok
    constructor
    · by_contra hn
      rw [pack_fail (.inl (Nat.not_lt.mp hn))] at hok
      exact Bool.false_ne_true hok
    · by_contra hroom
      rw [pack_fail (.inr hroom)] at hok
      exact Bool.false_ne_true hok
  · rintro ⟨hn, hroom⟩
    obtain ⟨mem, hpack, -⟩ := pack_spec hn hroom val
    rw [hpack]

theorem unpackLoop_zero (fuel : ℕ) (b : BitRef) (val : ℕ) :
    unpackLoop fuel b val 0 = ⟨val, b, true⟩ := by
  cases fuel <;> rfl

theorem unpackLoop_step (fuel : ℕ) (hzero : nBits ≠ 0) (hptr : b.ptr < b.max) (val : ℕ) :
    ∃ n, 0 < n ∧ n ≤ nBits ∧ b.offset + n ≤ 8 ∧
      unpackLoop (fuel + 1) b val nBits = unpackLoop fuel (b.advance n)
        (val + field b.mem b.pos n * 2 ^ (nBits - n)) (nBits - n) := by
  have hoff := b.offset_lt
  rw [unpackLoop, if_neg hzero, if_neg (Nat.not_le.mpr hptr)]
  by_cases hlast : 8 - b.offset > nBits
  · have hmask : 8 - b.offset = nBits + (8 - b.offset - nBits) := by omega
    refine ⟨nBits, Nat.pos_of_ne_zero hzero, le_rfl, by omega, ?_⟩
    rw [dif_pos hlast, advance_within _ b.mem, Nat.sub_self, unpackLoop_zero, Nat.pow_zero,
      Nat.mul_one]
    simp only
    conv_lhs => rw [hmask]
    rw [Nat.add_sub_cancel_left, and_middle, pos, field_byte _ _ _ (by omega)]
    rfl
  · refine ⟨8 - b.offset, by omega, Nat.not_lt.mp hlast, by omega, ?_⟩
    rw [dif_neg hlast, advance_byte _ b.mem]
    simp only [and_low]
    rw [pos, field_byte _ _ _ (by omega), Nat.sub_self, Nat.pow_zero, Nat.div_one,
      Nat.shiftLeft_eq]
    rfl

theorem unpackLoop_spec (hfuel : nBits ≤ fuel) (hroom : b.Room nBits) :
    unpackLoop fuel b val nBits = ⟨val + field b.mem b.pos nBits, b.advance nBits, true⟩ := by
  induction fuel generalizing b val nBits with
  | zero =>
    obtain rfl := Nat.le_zero.mp hfuel
    rw [advance_zero]
    rfl
  | succ fuel ih =>
    by_cases hzero : nBits = 0
    · subst hzero
      rw [unpackLoop, if_pos rfl, advance_zero]
      rfl
    obtain ⟨n, hpos, hn, -, hrun⟩ :=
      unpackLoop_step fuel hzero (ptr_lt_of_room hroom hzero) val
    obtain ⟨m, rfl⟩ := Nat.exists_eq_add_of_le hn
    rw [hrun, Nat.add_sub_cancel_left, ih (by omega) (room_rest hroom), pos_advance, mem_advance,
      advance_advance, field_add, Nat.add_assoc]

theorem unpackLoop_fail (hfuel : nBits ≤ fuel) (hroom : ¬b.Room nBits) :
    (unpackLoop fuel b val nBits).ok = false := by
  induction fuel generalizing b val nBits with
  | zero => exact (hroom (.inl (Nat.le_zero.mp hfuel))).elim
  | succ fuel ih =>
    have hzero : nBits ≠ 0 := fun h => hroom (.inl h)
    by_cases hptr : b.ptr ≥ b.max
    · rw [unpackLoop, if_neg hzero, if_pos hptr]
    obtain ⟨n, hpos, hn, hin, hrun⟩ := unpackLoop_step fuel hzero (Nat.not_le.mp hptr) val
    rw [hrun]
    exact ih (by omega) (not_room_rest (by omega) (by unfold pos; omega) hroom)

theorem unpack_spec (hn : nBits ≤ 32) (hroom : b.Room nBits) :
    b.unpack nBits = ⟨field b.mem b.pos nBits, b.advance nBits, true⟩ := by
  rw [unpack, if_neg (Nat.not_lt.mpr hn), unpackLoop_spec le_rfl hroom, Nat.zero_add]

theorem unpack_fail (h : 32 < nBits ∨ ¬b.Room nBits) : (b.unpack nBits).ok = false := by
  unfold unpack
  split_ifs with hn
  · rfl
  · exact unpackLoop_fail le_rfl (h.resolve_left hn)

theorem unpack_ok : (b.unpack nBits).ok = true ↔ nBits ≤ 32 ∧ b.Room nBits := by
  constructor
  · intro hok
    constructor
    · by_contra hn
      rw [unpack_fail (.inl (Nat.not_le.mp hn))] at hok
      exact Bool.false_ne_true hok
    · by_contra hroom
      rw [unpack_fail (.inr hroom)] at hok
      exact Bool.false_ne_true hok
  · rintro ⟨hn, hroom⟩
    rw [unpack_spec hn hroom]

def padding (b : BitRef) : ℕ := (8 - b.offset) % 8

theorem padding_zero (h : b.offset = 0) : b.padding = 0 := by
  rw [padding, h]

theorem padding_pos (h : b.offset ≠ 0) : b.padding = 8 - b.offset :=
  Nat.mod_eq_of_lt (by omega)

theorem padding_lt : b.padding < 8 := Nat.mod_lt _ (by decide)

@[simp] theorem padding_withMem : (b.withMem mem).padding = b.padding := rfl

theorem offset_aligned : (b.advance b.padding).offset = 0 := by
  have hoff := b.offset_lt
  have hpad : b.padding = (8 - b.offset) % 8 := rfl
  have hmod : (8 * b.ptr + b.offset + b.padding) % 8 = 0 := by omega
  exact hmod

theorem padding_aligned : (b.advance b.padding).padding = 0 := padding_zero offset_aligned

theorem room_padding (h : b.offset ≠ 0) : b.Room b.padding ↔ b.ptr < b.max := by
  have hoff := b.offset_lt
  rw [Room, padding_pos h, pos]
  omega

theorem alignBytes_spec (hroom : b.Room b.padding) :
    b.alignBytes = (b.advance b.padding, true) := by
  unfold alignBytes
  split_ifs with hzero hptr
  · rw [padding_zero hzero, advance_zero]
  · exact absurd ((room_padding hzero).mp hroom) (Nat.not_lt.mpr hptr)
  · rw [advance_byte _ b.mem, padding_pos hzero]
    rfl

theorem alignBytes_ok : b.alignBytes.2 = true ↔ b.Room b.padding := by
  constructor
  · unfold alignBytes
    split_ifs with hzero hptr
    · intro _
      exact .inl (padding_zero hzero)
    · intro hok
      cases hok
    · intro _
      exact (room_padding hzero).mpr (Nat.not_le.mp hptr)
  · intro hroom
    rw [alignBytes_spec hroom]

theorem alignBytesZero_zeros (hroom : b.Room b.padding) :
    ∃ mem, b.alignBytesZero = ((b.advance b.padding).withMem mem, true) ∧
      AgreeBelow b.pos b.mem mem ∧ field mem b.pos b.padding = 0 := by
  unfold alignBytesZero
  split_ifs with hzero hptr
  · rw [padding_zero hzero, advance_zero]
    exact ⟨b.mem, rfl, AgreeBelow.refl _ _, rfl⟩
  · exact absurd ((room_padding hzero).mp hroom) (Nat.not_lt.mpr hptr)
  · have hbyte := UInt8.toNat_lt (b.mem b.ptr)
    have hoff := b.offset_lt
    rw [padding_pos hzero]
    refine ⟨_, Prod.ext (advance_byte (by decide) _) rfl, ?_⟩
    refine field_write (v := 0) (n := 8 - b.offset) hoff (by omega) (Nat.two_pow_pos _) ?_
    rw [and_high hbyte (Nat.sub_le 8 _), Nat.zero_mul, Nat.add_zero, UInt8.toNat_ofNat']
    exact Nat.mod_eq_of_lt (Nat.lt_of_le_of_lt (Nat.div_mul_le_self _ _) hbyte)

theorem alignBytesZero_spec (hroom : b.Room b.padding) :
    ∃ mem, b.alignBytesZero = ((b.advance b.padding).withMem mem, true) ∧
      AgreeBelow b.pos b.mem mem := by
  obtain ⟨mem, halign, hagree, -⟩ := alignBytesZero_zeros hroom
  exact ⟨mem, halign, hagree⟩

theorem alignBytesZero_ok : b.alignBytesZero.2 = true ↔ b.Room b.padding := by
  rw [← alignBytes_ok]
  unfold alignBytesZero alignBytes
  split_ifs <;> rfl

theorem room_padding_of_room (hroom : b.Room n) (hn : n ≠ 0) :
    (b.advance n).Room (b.advance n).padding := by
  by_cases hzero : (b.advance n).offset = 0
  · exact .inl (padding_zero hzero)
  · rw [room_padding hzero]
    have hpos := hroom.resolve_left hn
    have hptr : (b.advance n).ptr = (b.pos + n) / 8 := rfl
    have hoff : (b.advance n).offset = (b.pos + n) % 8 := rfl
    have hmax : (b.advance n).max = b.max := rfl
    omega

theorem pack_then {rest : BitRef → BitRef × Bool}
    (hok : (handleCode (b.pack val nBits) rest).2 = true) :
    ∃ mem, AgreeBelow b.pos b.mem mem ∧ field mem b.pos nBits = val % 2 ^ nBits ∧ nBits < 32 ∧
      b.Room nBits ∧
      handleCode (b.pack val nBits) rest = rest ((b.advance nBits).withMem mem) := by
  obtain ⟨hn, hroom⟩ := pack_ok.mp (handleCode_ok.mp hok).1
  obtain ⟨mem, hpack, hagree, hfield⟩ := pack_spec hn hroom val
  rw [hpack]
  exact ⟨mem, hagree, hfield, hn, hroom, rfl⟩

theorem pack_padded {z v : ℕ} {rest : BitRef → BitRef × Bool}
    (hok : (handleCode (b.pack 0 z) fun b => handleCode (b.pack v n) rest).2 = true) :
    ∃ mem, AgreeBelow b.pos b.mem mem ∧ field mem b.pos (z + n) = v % 2 ^ n ∧
      n < 32 ∧ b.Room (z + n) ∧
      (handleCode (b.pack 0 z) fun b => handleCode (b.pack v n) rest) =
        rest ((b.advance (z + n)).withMem mem) := by
  obtain ⟨mem, hagree, hfield, hz, hroom, hrun⟩ := pack_then hok
  rw [hrun] at hok ⊢
  obtain ⟨mem', hagree', hfield', hn, hroom', hrun'⟩ := pack_then hok
  rw [pos_withMem, pos_advance] at hagree' hfield'
  rw [mem_withMem] at hagree'
  refine ⟨mem', hagree.trans (hagree'.mono (Nat.le_add_right _ _)), ?_, hn,
    room_append hroom hroom', ?_⟩
  · rw [field_add, hagree'.field (Nat.le_refl _), hfield, hfield', Nat.zero_mod, Nat.zero_mul,
      Nat.zero_add]
  · rw [hrun', advance_withMem, withMem_withMem, advance_advance]

theorem pack_padded_last {z v : ℕ} (hok : (handleCode (b.pack 0 z) fun b => b.pack v n).2 = true) :
    ∃ mem, AgreeBelow b.pos b.mem mem ∧ field mem b.pos (z + n) = v % 2 ^ n ∧
      n < 32 ∧ b.Room (z + n) ∧
      (handleCode (b.pack 0 z) fun b => b.pack v n) =
        ((b.advance (z + n)).withMem mem, true) := by
  have hpure : (fun b : BitRef => b.pack v n) =
      fun b => handleCode (b.pack v n) fun b => (b, true) :=
    funext fun b => (handleCode_pure _).symm
  rw [hpure] at hok ⊢
  exact pack_padded hok

/-- The cursor did not move back and the bits before it stayed, also when a step failed. -/
def Extends (b b' : BitRef) : Prop :=
  b.pos ≤ b'.pos ∧ b.max = b'.max ∧ AgreeBelow b.pos b.mem b'.mem

variable {b' b'' : BitRef} {r : BitRef × Bool}

theorem Extends.refl (b : BitRef) : Extends b b := ⟨Nat.le_refl _, rfl, AgreeBelow.refl _ _⟩

theorem Extends.trans (h : Extends b b') (h' : Extends b' b'') : Extends b b'' :=
  ⟨h.1.trans h'.1, h.2.1.trans h'.2.1, h.2.2.trans (h'.2.2.mono h.1)⟩

theorem extends_advance (b : BitRef) (n : ℕ) : Extends b (b.advance n) :=
  ⟨(Nat.le_add_right _ _).trans_eq pos_advance.symm, rfl, AgreeBelow.refl _ _⟩

theorem extends_write (hagree : AgreeBelow b.pos b.mem mem) (n : ℕ) :
    Extends b ((b.advance n).withMem mem) :=
  ⟨(Nat.le_add_right _ _).trans_eq pos_advance.symm, rfl, hagree⟩

theorem handleCode_extends {rest : BitRef → BitRef × Bool} (h : Extends b r.1)
    (hrest : Extends r.1 (rest r.1).1) : Extends b (handleCode r rest).1 := by
  unfold handleCode
  split_ifs
  · exact h.trans hrest
  · exact h

theorem packLoop_extends (fuel : ℕ) (b : BitRef) (val nBits : ℕ) :
    Extends b (packLoop fuel b val nBits).1 := by
  induction fuel generalizing b val nBits with
  | zero => exact Extends.refl b
  | succ fuel ih =>
    by_cases hzero : nBits = 0
    · rw [packLoop, if_pos hzero]
      exact Extends.refl b
    by_cases hptr : b.ptr ≥ b.max
    · rw [packLoop, if_neg hzero, if_pos hptr]
      exact Extends.refl b
    obtain ⟨n, byte, -, hn, hin, -, hbyte, hrun⟩ :=
      packLoop_step fuel hzero (Nat.not_le.mp hptr) val
    rw [hrun]
    exact (extends_write (field_write b.offset_lt hin (high_lt val hn) hbyte).1 n).trans
      (ih _ _ _)

theorem pack_extends (b : BitRef) (val nBits : ℕ) : Extends b (b.pack val nBits).1 := by
  unfold pack
  split_ifs
  · exact Extends.refl b
  · exact packLoop_extends _ _ _ _

theorem alignBytes_extends (b : BitRef) : Extends b b.alignBytes.1 := by
  by_cases hroom : b.Room b.padding
  · rw [alignBytes_spec hroom]
    exact extends_advance b _
  · unfold alignBytes
    split_ifs with hzero hptr
    · exact Extends.refl b
    · exact Extends.refl b
    · exact absurd ((room_padding hzero).mpr (Nat.not_le.mp hptr)) hroom

theorem alignBytesZero_extends (b : BitRef) : Extends b b.alignBytesZero.1 := by
  by_cases hroom : b.Room b.padding
  · obtain ⟨mem, halign, hagree⟩ := alignBytesZero_spec hroom
    rw [halign]
    exact extends_write hagree _
  · unfold alignBytesZero
    split_ifs with hzero hptr
    · exact Extends.refl b
    · exact Extends.refl b
    · exact absurd ((room_padding hzero).mpr (Nat.not_le.mp hptr)) hroom

end SrsLte.BitRef
