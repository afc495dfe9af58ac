import SrsLte.BitImage
import SrsLte.BitRef

/-!
# Octets at the cursor

What packing leaves behind the bits that it writes, where a packing or unpacking that fails
stops, and the functions that pack and unpack octets.
-/

namespace SrsLte.BitRef

open BitField

/-- `memcpy` into the memory. -/
def copyBytes (mem : Memory) (ptr : ℕ) (buf : List UInt8) : Memory := fun p =>
  if ptr ≤ p ∧ p < ptr + buf.length then buf.getD (p - ptr) 0 else mem p

/-- The loop of `pack_bytes`; the code of `pack` is not looked at. -/
def packOctets : List UInt8 → BitRef → BitRef
  | [], b => b
  | x :: buf, b => packOctets buf (b.pack x.toNat 8).1

def packBytes (b : BitRef) (buf : List UInt8) : BitRef × Bool :=
  if buf.length = 0 then (b, true)
  else if b.ptr + buf.length ≥ b.max then (b, false)
  else if b.offset = 0 then
    ({ b with mem := copyBytes b.mem b.ptr buf, ptr := b.ptr + buf.length }, true)
  else (packOctets buf b, true)

/-- The loop of `unpack_bytes`. -/
def unpackOctets : ℕ → BitRef → List UInt8 × BitRef
  | 0, b => ([], b)
  | n + 1, b =>
    let r := b.unpack 8
    let rest := unpackOctets n r.cur
    (UInt8.ofNat r.val :: rest.1, rest.2)

/-- What stands in `buf` afterwards; nothing when it was not written. -/
def unpackBytes (b : BitRef) (nBytes : ℕ) : Unpacked (List UInt8) :=
  if nBytes = 0 then ⟨[], b, true⟩
  else if b.ptr + nBytes ≥ b.max then ⟨[], b, false⟩
  else if b.offset = 0 then
    ⟨(List.range nBytes).map (b.mem <| b.ptr + ·), { b with ptr := b.ptr + nBytes }, true⟩
  else ⟨(unpackOctets nBytes b).1, (unpackOctets nBytes b).2, true⟩

variable {b b' b'' : BitRef} {val nBits n fuel : ℕ} {mem : Memory} {s t : List Bool}

/-- The rest of the last byte is cleared, what is behind it stays. The induction is on the fuel,
as in `packLoop_spec`. -/
theorem packLoop_behind (hfuel : nBits ≤ fuel) (hroom : b.Room nBits) (hn : nBits ≠ 0) {i : ℕ}
    (hi : b.pos + nBits ≤ i) :
    image (packLoop fuel b val nBits).1.mem i =
      if i < octetEnd (b.pos + nBits) then false else image b.mem i := by
  induction fuel generalizing b val nBits with
  | zero => omega
  | succ fuel ih =>
    have hpos : b.pos = 8 * b.ptr + b.offset := rfl
    obtain ⟨n, byte, hn0, hle, hin, hmore, hbyte, hrun⟩ :=
      packLoop_step fuel hn (ptr_lt_of_room hroom hn) val
    obtain ⟨m, rfl⟩ := Nat.exists_eq_add_of_le hle
    rw [hrun, Nat.add_sub_cancel_left]
    rcases eq_or_ne m 0 with rfl | hm
    · rw [packLoop_zero]
      exact image_write hin hn0 hbyte hi
    · have hend : octetEnd (b.pos + (n + m)) ≥ 8 * b.ptr + 8 := by
        unfold octetEnd
        omega
      rw [@ih ((b.advance n).withMem (Function.update b.mem b.ptr byte)) _ m (by omega)
        (room_rest hroom) hm (by rw [pos_withMem, pos_advance]; omega), pos_withMem, pos_advance,
        Nat.add_assoc, mem_withMem]
      split_ifs with hlt
      · rfl
      · unfold image
        rw [Function.update_of_ne (by omega)]

def Inside (b : BitRef) : Prop := b.pos ≤ 8 * b.max

def Keeps (b b' : BitRef) : Prop := b'.max = b.max ∧ (b.Inside → b'.Inside)

theorem Keeps.refl (b : BitRef) : Keeps b b := ⟨rfl, id⟩

theorem Keeps.trans (h : Keeps b b') (h' : Keeps b' b'') : Keeps b b'' :=
  ⟨h'.1.trans h.1, h'.2 ∘ h.2⟩

theorem keeps_advance (hroom : b.Room n) : Keeps b ((b.advance n).withMem mem) := by
  refine ⟨rfl, fun hin => ?_⟩
  unfold Inside at hin ⊢
  rw [pos_withMem, pos_advance, max_withMem, max_advance]
  rcases hroom with rfl | hpos
  · exact hin
  · exact hpos

theorem packLoop_keeps (fuel : ℕ) (b : BitRef) (val nBits : ℕ) :
    Keeps b (packLoop fuel b val nBits).1 := by
  induction fuel generalizing b val nBits with
  | zero => exact Keeps.refl b
  | succ fuel ih =>
    by_cases hzero : nBits = 0
    · rw [packLoop, if_pos hzero]
      exact Keeps.refl b
    by_cases hptr : b.ptr ≥ b.max
    · rw [packLoop, if_neg hzero, if_pos hptr]
      exact Keeps.refl b
    obtain ⟨n, byte, -, -, hin, -, -, hrun⟩ := packLoop_step fuel hzero (Nat.not_le.mp hptr) val
    rw [hrun]
    exact (keeps_advance (.inr (by unfold pos; omega))).trans (ih _ _ _)

theorem pack_keeps (b : BitRef) (val nBits : ℕ) : Keeps b (b.pack val nBits).1 := by
  unfold pack
  split_ifs
  · exact Keeps.refl b
  · exact packLoop_keeps _ _ _ _

theorem unpackLoop_keeps (fuel : ℕ) (b : BitRef) (val nBits : ℕ) :
    Keeps b (unpackLoop fuel b val nBits).cur := by
  induction fuel generalizing b val nBits with
  | zero => exact Keeps.refl b
  | succ fuel ih =>
    by_cases hzero : nBits = 0
    · rw [unpackLoop, if_pos hzero]
      exact Keeps.refl b
    by_cases hptr : b.ptr ≥ b.max
    · rw [unpackLoop, if_neg hzero, if_pos hptr]
      exact Keeps.refl b
    obtain ⟨n, -, -, hin, hrun⟩ := unpackLoop_step fuel hzero (Nat.not_le.mp hptr) val
    rw [hrun]
    exact (keeps_advance (.inr (by unfold pos; omega))).trans (ih _ _ _)

theorem unpack_keeps (b : BitRef) (nBits : ℕ) : Keeps b (b.unpack nBits).cur := by
  unfold unpack
  split_ifs
  · exact Keeps.refl b
  · exact unpackLoop_keeps _ _ _ _

theorem packOctets_keeps (buf : List UInt8) (b : BitRef) : Keeps b (packOctets buf b) := by
  induction buf generalizing b with
  | nil => exact Keeps.refl b
  | cons x buf ih => exact (pack_keeps b _ _).trans (ih _)

theorem unpackOctets_keeps (n : ℕ) (b : BitRef) : Keeps b (unpackOctets n b).2 := by
  induction n generalizing b with
  | zero => exact Keeps.refl b
  | succ n ih => exact (unpack_keeps b 8).trans (ih _)

theorem packBytes_keeps (b : BitRef) (buf : List UInt8) : Keeps b (b.packBytes buf).1 := by
  unfold packBytes
  split_ifs with hzero hptr haligned
  · exact Keeps.refl b
  · exact Keeps.refl b
  · refine ⟨rfl, fun _ => ?_⟩
    change 8 * (b.ptr + buf.length) + b.offset ≤ 8 * b.max
    omega
  · exact packOctets_keeps buf b

theorem unpackBytes_keeps (b : BitRef) (n : ℕ) : Keeps b (b.unpackBytes n).cur := by
  unfold unpackBytes
  split_ifs with hzero hptr haligned
  · exact Keeps.refl b
  · exact Keeps.refl b
  · refine ⟨rfl, fun _ => ?_⟩
    change 8 * (b.ptr + n) + b.offset ≤ 8 * b.max
    omega
  · exact unpackOctets_keeps n b

theorem align_keeps (b : BitRef) (mem : Memory) (hlt : b.ptr < b.max) :
    Keeps b ({ b with mem := mem, ptr := b.ptr + 1, offset := 0, offset_lt := by decide } :
      BitRef) := by
  rw [advance_byte]
  have hpos : b.pos = 8 * b.ptr + b.offset := rfl
  have hoff := b.offset_lt
  exact keeps_advance (.inr (by omega))

theorem alignBytes_keeps (b : BitRef) : Keeps b b.alignBytes.1 := by
  unfold alignBytes
  split_ifs with hzero hptr
  · exact Keeps.refl b
  · exact Keeps.refl b
  · exact align_keeps b b.mem (Nat.not_le.mp hptr)

theorem alignBytesZero_keeps (b : BitRef) : Keeps b b.alignBytesZero.1 := by
  unfold alignBytesZero
  split_ifs with hzero hptr
  · exact Keeps.refl b
  · exact Keeps.refl b
  · exact align_keeps b _ (Nat.not_le.mp hptr)

def Clear (b : BitRef) : Prop := ∀ i, b.pos ≤ i → i < octetEnd b.pos → image b.mem i = false

/-- The string was written at the cursor: nothing before it changed, and nothing behind it but
the rest of the last byte. -/
structure Appended (t : List Bool) (b b' : BitRef) : Prop where
  max_eq : b'.max = b.max
  pos_eq : b'.pos = b.pos + t.length
  before : AgreeBelow b.pos b.mem b'.mem
  holds : Holds b'.mem b.pos t
  behind : ∀ i, b.pos + t.length ≤ i →
    image b'.mem i = if i < octetEnd (b.pos + t.length) then false else image b.mem i

theorem Appended.refl (hclear : Clear b) : Appended [] b b where
  max_eq := rfl
  pos_eq := rfl
  before := AgreeBelow.refl _ _
  holds := holds_nil _ _
  behind i hi := by
    split_ifs with hin
    · exact hclear i hi hin
    · rfl

theorem Appended.trans (h : Appended s b b') (h' : Appended t b' b'') :
    Appended (s ++ t) b b'' where
  max_eq := h'.max_eq.trans h.max_eq
  pos_eq := by rw [h'.pos_eq, h.pos_eq, List.length_append, Nat.add_assoc]
  before := h.before.trans (h'.before.mono (by rw [h.pos_eq]; exact Nat.le_add_right _ _))
  holds := by
    have hfirst := h.holds.agree h'.before (le_of_eq h.pos_eq.symm)
    have hrest := h'.holds
    rw [h.pos_eq] at hrest
    exact holds_append.mpr ⟨hfirst, hrest⟩
  behind i hi := by
    have hmono := octetEnd_mono (Nat.le_add_right (b.pos + s.length) t.length)
    rw [List.length_append, ← Nat.add_assoc] at hi ⊢
    rw [h'.behind i (by rw [h.pos_eq]; exact hi), h.behind i (by omega), h.pos_eq]
    split_ifs with hin hfirst
    · rfl
    · omega
    · rfl

theorem Appended.clear (h : Appended t b b') : Clear b' := by
  intro i hi hin
  rw [h.pos_eq] at hi hin
  rw [h.behind i hi, if_pos hin]

theorem clear_of_offset (h : b.offset = 0) : Clear b := by
  intro i hi hin
  have hpos : b.pos = 8 * b.ptr + b.offset := rfl
  unfold octetEnd at hin
  omega

theorem pack_appended (hn : nBits < 32) (hroom : b.Room nBits) (hclear : Clear b) (val : ℕ) :
    (b.pack val nBits).2 = true ∧
      Appended (BitString.ofNat nBits val) b (b.pack val nBits).1 := by
  by_cases hzero : nBits = 0
  · subst hzero
    exact ⟨rfl, Appended.refl hclear⟩
  have hrun : b.pack val nBits = packLoop nBits b val nBits := if_neg (Nat.not_le.mpr hn)
  obtain ⟨mem, hpack, hagree, hfield⟩ := pack_spec hn hroom val
  have hbehind : ∀ i, b.pos + nBits ≤ i → image (b.pack val nBits).1.mem i =
      if i < octetEnd (b.pos + nBits) then false else image b.mem i := by
    intro i hi
    rw [hrun]
    exact packLoop_behind le_rfl hroom hzero hi
  have hlength := BitString.length_ofNat nBits val
  rw [hpack] at hbehind ⊢
  refine ⟨rfl, rfl, ?_, hagree, holds_ofNat.mpr hfield, ?_⟩
  · rw [hlength]
    exact pos_advance
  · rw [hlength]
    exact hbehind

theorem packOctets_appended {buf : List UInt8} (hroom : b.Room (8 * buf.length))
    (hclear : Clear b) : Appended (BitString.ofBytes buf) b (packOctets buf b) := by
  induction buf generalizing b with
  | nil => exact Appended.refl hclear
  | cons x buf ih =>
    rw [List.length_cons, Nat.mul_add_one, Nat.add_comm] at hroom
    have hfirst := (pack_appended (by decide : 8 < 32) (room_mono hroom (Nat.le_add_right _ _))
      hclear x.toNat).2
    rw [ofBytes_cons_eq]
    refine hfirst.trans (ih ?_ hfirst.clear)
    have hpos := hfirst.pos_eq
    rw [BitString.length_ofNat] at hpos
    rcases hroom with hzero | hin
    · omega
    · right
      rw [hfirst.max_eq, hpos]
      omega

theorem image_copyBytes {ptr : ℕ} {buf : List UInt8} {i : ℕ}
    (hi : i < 8 * ptr ∨ 8 * ptr + 8 * buf.length ≤ i) :
    image (copyBytes mem ptr buf) i = image mem i := by
  unfold image copyBytes
  rw [if_neg (by omega)]

theorem copyBytes_appended (haligned : b.offset = 0) (buf : List UInt8) :
    Appended (BitString.ofBytes buf) b
      { b with mem := copyBytes b.mem b.ptr buf, ptr := b.ptr + buf.length } := by
  have hpos : b.pos = 8 * b.ptr := by rw [pos, haligned, Nat.add_zero]
  have hlength := BitString.length_ofBytes buf
  refine ⟨rfl, ?_, ?_, ?_, ?_⟩
  · change 8 * (b.ptr + buf.length) + b.offset = _
    rw [hpos, hlength, haligned, Nat.mul_add, Nat.add_zero]
  · refine agreeBelow_iff.mpr fun i hi => ?_
    exact image_copyBytes (.inl (hpos ▸ hi))
  · rw [hpos, holds_ofBytes]
    refine List.ext_getElem (by rw [List.length_map, List.length_range]) fun i hi hi' => ?_
    rw [List.getElem_map, List.getElem_range]
    change (if _ then _ else _) = _
    rw [if_pos ⟨Nat.le_add_right _ _, Nat.add_lt_add_left hi' _⟩, Nat.add_sub_cancel_left,
      List.getD_eq_getElem _ _ hi']
  · intro i hi
    rw [hlength, hpos] at hi
    rw [hlength, hpos, ← Nat.mul_add, octetEnd_aligned,
      if_neg (Nat.not_lt.mpr (by omega))]
    exact image_copyBytes (.inr hi)

theorem packBytes_appended {buf : List UInt8} (hclear : Clear b)
    (hroom : buf = [] ∨ b.ptr + buf.length < b.max) :
    (b.packBytes buf).2 = true ∧ Appended (BitString.ofBytes buf) b (b.packBytes buf).1 := by
  unfold packBytes
  by_cases hzero : buf.length = 0
  · rw [if_pos hzero, List.eq_nil_of_length_eq_zero hzero]
    exact ⟨rfl, Appended.refl hclear⟩
  have hlt : b.ptr + buf.length < b.max := by
    refine hroom.resolve_left fun hnil => hzero ?_
    rw [hnil, List.length_nil]
  rw [if_neg hzero, if_neg (Nat.not_le.mpr hlt)]
  split_ifs with haligned
  · exact ⟨rfl, copyBytes_appended haligned buf⟩
  · have hoff := b.offset_lt
    have hpos : b.pos = 8 * b.ptr + b.offset := rfl
    exact ⟨rfl, packOctets_appended (.inr (by omega)) hclear⟩

theorem packBytes_ok {buf : List UInt8} :
    (b.packBytes buf).2 = true ↔ buf = [] ∨ b.ptr + buf.length < b.max := by
  unfold packBytes
  split_ifs with hzero hptr haligned
  · exact iff_of_true rfl (.inl (List.eq_nil_of_length_eq_zero hzero))
  · refine iff_of_false id ?_
    rintro (rfl | hlt)
    · exact hzero rfl
    · omega
  · exact iff_of_true rfl (.inr (Nat.not_le.mp hptr))
  · exact iff_of_true rfl (.inr (Nat.not_le.mp hptr))

theorem ofNat_zero (n : ℕ) : BitString.ofNat n 0 = List.replicate n false := by
  unfold BitString.ofNat
  simp only [Nat.zero_testBit, List.map_const', List.length_range]

theorem alignBytesZero_appended (hroom : b.Room b.padding) (hclear : Clear b) :
    b.alignBytesZero.2 = true ∧
      Appended (List.replicate b.padding false) b b.alignBytesZero.1 := by
  unfold alignBytesZero
  split_ifs with hzero hptr
  · rw [padding_zero hzero]
    exact ⟨rfl, Appended.refl hclear⟩
  · exact absurd ((room_padding hzero).mp hroom) (Nat.not_lt.mpr hptr)
  · have hoff := b.offset_lt
    have hbyte := UInt8.toNat_lt (b.mem b.ptr)
    have hpos : b.pos = 8 * b.ptr + b.offset := rfl
    rw [padding_pos hzero, ← ofNat_zero]
    simp only [and_high hbyte (Nat.sub_le 8 b.offset)]
    have hlow : 8 - b.offset - (8 - b.offset) = 0 := Nat.sub_self _
    have hwritten : (UInt8.ofNat ((b.mem b.ptr).toNat / 2 ^ (8 - b.offset) *
        2 ^ (8 - b.offset))).toNat = (b.mem b.ptr).toNat / 2 ^ (8 - b.offset) *
          2 ^ (8 - b.offset) + 0 * 2 ^ (8 - b.offset - (8 - b.offset)) := by
      rw [Nat.zero_mul, Nat.add_zero, UInt8.toNat_ofNat']
      exact Nat.mod_eq_of_lt (Nat.lt_of_le_of_lt (Nat.div_mul_le_self _ _) hbyte)
    have hlength := BitString.length_ofNat (8 - b.offset) 0
    obtain ⟨hagree, hfield⟩ := field_write hoff (by omega) (Nat.two_pow_pos _) hwritten
    refine ⟨trivial, rfl, ?_, hagree, holds_ofNat.mpr (hfield.trans (Nat.zero_mod _).symm), ?_⟩
    · rw [hlength]
      change 8 * (b.ptr + 1) + 0 = _
      omega
    · rw [hlength]
      exact fun i hi => image_write (by omega) (by omega) hwritten hi

theorem unpackOctets_spec {buf : List UInt8} (hroom : b.Room (8 * buf.length))
    (hholds : Holds b.mem b.pos (BitString.ofBytes buf)) :
    unpackOctets buf.length b = (buf, b.advance (8 * buf.length)) := by
  induction buf generalizing b with
  | nil =>
    rw [List.length_nil, Nat.mul_zero, advance_zero]
    rfl
  | cons x buf ih =>
    have hsplit : 8 * (x :: buf).length = 8 + 8 * buf.length := by
      rw [List.length_cons]
      omega
    rw [hsplit] at hroom ⊢
    obtain ⟨hfield, hrest⟩ := (holds_ofBytes_cons x buf).mp hholds
    have hfirst := unpack_spec (by decide : 8 ≤ 32) (room_mono hroom (Nat.le_add_right _ _))
    rw [List.length_cons, unpackOctets, hfirst, hfield]
    simp only
    have hnext : Holds (b.advance 8).mem (b.advance 8).pos (BitString.ofBytes buf) := by
      rw [mem_advance, pos_advance]
      exact hrest
    rw [ih (room_rest hroom) hnext, advance_advance, UInt8.ofNat_toNat]

theorem unpackBytes_spec {buf : List UInt8} (hroom : buf = [] ∨ b.ptr + buf.length < b.max)
    (hholds : Holds b.mem b.pos (BitString.ofBytes buf)) :
    b.unpackBytes buf.length = ⟨buf, b.advance (8 * buf.length), true⟩ := by
  have hpos : b.pos = 8 * b.ptr + b.offset := rfl
  unfold unpackBytes
  by_cases hzero : buf.length = 0
  · rw [if_pos hzero, List.eq_nil_of_length_eq_zero hzero, List.length_nil, Nat.mul_zero,
      advance_zero]
  have hlt : b.ptr + buf.length < b.max := by
    refine hroom.resolve_left fun hnil => hzero ?_
    rw [hnil, List.length_nil]
  rw [if_neg hzero, if_neg (Nat.not_le.mpr hlt)]
  split_ifs with haligned
  · rw [hpos, haligned, Nat.add_zero, holds_ofBytes] at hholds
    rw [hholds]
    congr 1
    refine ext_pos rfl ?_ rfl
    rw [pos_advance]
    change 8 * (b.ptr + buf.length) + b.offset = _
    omega
  · have hoff := b.offset_lt
    rw [unpackOctets_spec (.inr (by omega)) hholds]

theorem unpackOctets_cur (hroom : b.Room (8 * n)) :
    (unpackOctets n b).2 = b.advance (8 * n) := by
  induction n generalizing b with
  | zero => exact advance_zero.symm
  | succ n ih =>
    have hsplit : 8 * (n + 1) = 8 + 8 * n := by omega
    rw [hsplit] at hroom ⊢
    rw [unpackOctets,
      unpack_spec (by decide : 8 ≤ 32) (room_mono hroom (Nat.le_add_right _ _))]
    simp only
    rw [ih (room_rest hroom), advance_advance]

theorem unpackBytes_cur (hroom : n = 0 ∨ b.ptr + n < b.max) :
    (b.unpackBytes n).cur = b.advance (8 * n) := by
  have hpos : b.pos = 8 * b.ptr + b.offset := rfl
  have hoff := b.offset_lt
  unfold unpackBytes
  split_ifs with hzero hptr haligned
  · rw [hzero, Nat.mul_zero, advance_zero]
  · omega
  · refine ext_pos rfl ?_ rfl
    rw [pos_advance]
    change 8 * (b.ptr + n) + b.offset = _
    omega
  · exact unpackOctets_cur (.inr (by omega))

theorem unpackBytes_ok :
    (b.unpackBytes n).ok = true ↔ n = 0 ∨ b.ptr + n < b.max := by
  unfold unpackBytes
  split_ifs with hzero hptr haligned
  · exact iff_of_true rfl (.inl hzero)
  · exact iff_of_false id (not_or_intro hzero (Nat.not_lt.mpr hptr))
  · exact iff_of_true rfl (.inr (Nat.not_le.mp hptr))
  · exact iff_of_true rfl (.inr (Nat.not_le.mp hptr))

end SrsLte.BitRef
