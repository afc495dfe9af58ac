import Mathlib.Data.List.Induction
import SrsLte.BitRefBytes

/-!
# Sequences of packing operations

The operations of a `bit_ref`, the bit string that a sequence of them stands for, and the
operations that unpack the same widths.
-/

namespace SrsLte

open BitField BitString

inductive CursorOp where
  | pack (val nBits : ℕ)
  | packBytes (buf : List UInt8)
  | align

inductive CursorRead where
  | unpack (nBits : ℕ)
  | unpackBytes (nBytes : ℕ)
  | align

inductive CursorValue where
  | number (val : ℕ)
  | bytes (buf : List UInt8)
  | nothing
  deriving DecidableEq

/-- The constructor of `bit_ref`. -/
def BitRef.ofBuffer (mem : Memory) (maxSize : ℕ) : BitRef :=
  ⟨mem, 0, 0, maxSize, BitRef.zero_lt_eight⟩

def CursorRead.run : CursorRead → BitRef → Unpacked CursorValue
  | unpack nBits, b => ⟨.number (b.unpack nBits).val, (b.unpack nBits).cur, (b.unpack nBits).ok⟩
  | unpackBytes nBytes, b =>
    ⟨.bytes (b.unpackBytes nBytes).val, (b.unpackBytes nBytes).cur, (b.unpackBytes nBytes).ok⟩
  | align, b => ⟨.nothing, b.alignBytes.1, b.alignBytes.2⟩

def runReads : List CursorRead → BitRef → Unpacked (List CursorValue)
  | [], b => ⟨[], b, true⟩
  | read :: reads, b =>
    (read.run b).handleCode [] fun val b =>
      ⟨val :: (runReads reads b).val, (runReads reads b).cur, (runReads reads b).ok⟩

namespace CursorOp

def run : CursorOp → BitRef → BitRef × Bool
  | pack val nBits, b => b.pack val nBits
  | packBytes buf, b => b.packBytes buf
  | align, b => b.alignBytesZero

def bits (pos : ℕ) : CursorOp → List Bool
  | pack val nBits => ofNat nBits val
  | packBytes buf => ofBytes buf
  | align => List.replicate ((8 - pos % 8) % 8) false

def read : CursorOp → CursorRead
  | pack _ nBits => .unpack nBits
  | packBytes buf => .unpackBytes buf.length
  | align => .align

def value : CursorOp → CursorValue
  | pack val nBits => .number (val % 2 ^ nBits)
  | packBytes buf => .bytes buf
  | align => .nothing

def Fits (op : CursorOp) (b : BitRef) : Prop := b.pos + (op.bits b.pos).length ≤ 8 * b.max

instance (op : CursorOp) (b : BitRef) : Decidable (op.Fits b) :=
  inferInstanceAs (Decidable (_ ≤ _))

/-- `pack` takes fewer than 32 bits, and `pack_bytes` at a whole byte leaves at least one byte of
the buffer. -/
def Supported (pos size : ℕ) : CursorOp → Prop
  | pack _ nBits => nBits < 32
  | packBytes buf => buf ≠ [] → pos % 8 = 0 → pos + 8 * buf.length ≠ 8 * size
  | align => True

end CursorOp

def runOps : List CursorOp → BitRef → BitRef × Bool
  | [], b => (b, true)
  | op :: ops, b => handleCode (op.run b) (runOps ops)

def bitString (pos : ℕ) : List CursorOp → List Bool
  | [] => []
  | op :: ops => op.bits pos ++ bitString (pos + (op.bits pos).length) ops

open BitRef

variable {op : CursorOp} {ops ops' : List CursorOp} {b : BitRef}

theorem padding_eq (b : BitRef) : b.padding = (8 - b.pos % 8) % 8 := by
  have hoff := b.offset_lt
  have hpos : b.pos = 8 * b.ptr + b.offset := rfl
  unfold padding
  omega

theorem room_iff {n : ℕ} (hin : b.Inside) : b.Room n ↔ b.pos + n ≤ 8 * b.max := by
  constructor
  · rintro (rfl | hpos)
    · exact hin
    · exact hpos
  · exact .inr

/-- `pack_bytes` and `unpack_bytes` ask for less than the whole rest of the buffer, which is too
much for whole bytes only. -/
theorem below_end_iff {buf : List UInt8} (hin : b.Inside) :
    (buf = [] ∨ b.ptr + buf.length < b.max) ↔
      (CursorOp.packBytes buf).Fits b ∧ (CursorOp.packBytes buf).Supported b.pos b.max := by
  have hoff := b.offset_lt
  have hpos : b.pos = 8 * b.ptr + b.offset := rfl
  unfold CursorOp.Fits CursorOp.bits CursorOp.Supported
  unfold Inside at hin
  rw [length_ofBytes]
  constructor
  · rintro (rfl | hlt)
    · exact ⟨hin, fun h => absurd rfl h⟩
    · exact ⟨by omega, fun _ _ => by omega⟩
  · rintro ⟨hfits, hsupported⟩
    by_cases hnil : buf = []
    · exact .inl hnil
    · have hne := hsupported hnil
      right
      omega

theorem run_ok (hin : b.Inside) :
    (op.run b).2 = true ↔ op.Fits b ∧ op.Supported b.pos b.max := by
  cases op with
  | pack val nBits =>
    have hfits : (CursorOp.pack val nBits).Fits b ↔ b.Room nBits := by
      rw [room_iff hin, CursorOp.Fits, CursorOp.bits, length_ofNat]
    rw [hfits]
    exact pack_ok.trans and_comm
  | packBytes buf => exact packBytes_ok.trans (below_end_iff hin)
  | align =>
    have hfits : CursorOp.align.Fits b ↔ b.Room b.padding := by
      rw [room_iff hin, CursorOp.Fits, CursorOp.bits, List.length_replicate, padding_eq]
    rw [hfits]
    exact alignBytesZero_ok.trans (and_iff_left trivial).symm

theorem run_appended (hclear : Clear b) (hok : (op.run b).2 = true) :
    Appended (op.bits b.pos) b (op.run b).1 := by
  cases op with
  | pack val nBits =>
    obtain ⟨hn, hroom⟩ := pack_ok.mp hok
    exact (pack_appended hn hroom hclear val).2
  | packBytes buf => exact (packBytes_appended hclear (packBytes_ok.mp hok)).2
  | align =>
    have happended := (alignBytesZero_appended (alignBytesZero_ok.mp hok) hclear).2
    rw [padding_eq] at happended
    exact happended

theorem run_keeps (op : CursorOp) (b : BitRef) : Keeps b (op.run b).1 := by
  cases op with
  | pack val nBits => exact pack_keeps b val nBits
  | packBytes buf => exact packBytes_keeps b buf
  | align => exact alignBytesZero_keeps b

theorem read_keeps (op : CursorOp) (b : BitRef) : Keeps b (op.read.run b).cur := by
  cases op with
  | pack val nBits => exact unpack_keeps b nBits
  | packBytes buf => exact unpackBytes_keeps b buf.length
  | align => exact alignBytes_keeps b

theorem read_ok (hin : b.Inside) :
    ((op.read.run b).ok = true → op.Fits b) ∧
      (op.Fits b → op.Supported b.pos b.max → (op.read.run b).ok = true) := by
  cases op with
  | pack val nBits =>
    have hfits : (CursorOp.pack val nBits).Fits b ↔ b.Room nBits := by
      rw [room_iff hin, CursorOp.Fits, CursorOp.bits, length_ofNat]
    rw [hfits]
    exact ⟨fun hok => (unpack_ok.mp hok).2, fun hroom hn => unpack_ok.mpr ⟨Nat.le_of_lt hn, hroom⟩⟩
  | packBytes buf =>
    have hiff : ((CursorOp.packBytes buf).read.run b).ok = true ↔
        buf = [] ∨ b.ptr + buf.length < b.max := by
      rw [← List.length_eq_zero_iff]
      exact unpackBytes_ok
    rw [hiff, below_end_iff hin]
    exact ⟨And.left, And.intro⟩
  | align =>
    have hfits : CursorOp.align.Fits b ↔ b.Room b.padding := by
      rw [room_iff hin, CursorOp.Fits, CursorOp.bits, List.length_replicate, padding_eq]
    rw [hfits]
    exact ⟨alignBytes_ok.mp, fun hroom _ => alignBytes_ok.mpr hroom⟩

theorem read_cur (hok : (op.read.run b).ok = true) :
    (op.read.run b).cur = b.advance (op.bits b.pos).length := by
  cases op with
  | pack val nBits =>
    obtain ⟨hn, hroom⟩ := unpack_ok.mp hok
    have hspec := unpack_spec hn hroom
    unfold CursorOp.bits
    rw [length_ofNat]
    exact congrArg Unpacked.cur hspec
  | packBytes buf =>
    unfold CursorOp.bits
    rw [length_ofBytes]
    exact unpackBytes_cur (unpackBytes_ok.mp hok)
  | align =>
    unfold CursorOp.bits
    rw [List.length_replicate, ← padding_eq]
    exact congrArg Prod.fst (alignBytes_spec (alignBytes_ok.mp hok))

theorem read_value (hok : (op.read.run b).ok = true) (hholds : Holds b.mem b.pos (op.bits b.pos)) :
    (op.read.run b).val = op.value := by
  cases op with
  | pack val nBits =>
    obtain ⟨hn, hroom⟩ := unpack_ok.mp hok
    have hspec := unpack_spec hn hroom
    rw [holds_ofNat.mp hholds] at hspec
    exact congrArg (CursorValue.number ·.val) hspec
  | packBytes buf =>
    have hroom := unpackBytes_ok.mp hok
    rw [List.length_eq_zero_iff] at hroom
    exact congrArg (CursorValue.bytes ·.val) (unpackBytes_spec hroom hholds)
  | align => rfl

end SrsLte

/-!
An operation that fails although its bits fit is a `pack` of 32 bits or more, or a `pack_bytes`
of whole bytes that ends with the buffer. Packing clears the rest of the last byte.
-/

namespace SrsLte

open BitField BitRef

variable {op : CursorOp} {ops ops' pre post : List CursorOp} {b : BitRef} {mem : Memory}
  {pos size : ℕ}

theorem handleCode_assoc (r : BitRef × Bool) (f g : BitRef → BitRef × Bool) :
    handleCode (handleCode r f) g = handleCode r fun b => handleCode (f b) g := by
  obtain ⟨b, ok⟩ := r
  cases ok with
  | false => rfl
  | true => rfl

theorem runOps_append (ops ops' : List CursorOp) (b : BitRef) :
    runOps (ops ++ ops') b = handleCode (runOps ops b) (runOps ops') := by
  induction ops generalizing b with
  | nil => rfl
  | cons op ops ih =>
    rw [List.cons_append, runOps, runOps, handleCode_assoc, funext ih]

theorem bitString_append (pos : ℕ) (ops ops' : List CursorOp) :
    bitString pos (ops ++ ops') =
      bitString pos ops ++ bitString (pos + (bitString pos ops).length) ops' := by
  induction ops generalizing pos with
  | nil => rfl
  | cons op ops ih =>
    rw [List.cons_append, bitString, bitString, ih, List.append_assoc, List.length_append,
      Nat.add_assoc]

theorem length_bitString_singleton (pos : ℕ) (op : CursorOp) :
    bitString pos [op] = op.bits pos := List.append_nil _

theorem runOps_appended (hclear : Clear b) (hok : (runOps ops b).2 = true) :
    Appended (bitString b.pos ops) b (runOps ops b).1 := by
  induction ops generalizing b with
  | nil => exact Appended.refl hclear
  | cons op ops ih =>
    obtain ⟨hop, hrest⟩ := handleCode_ok.mp hok
    have happended := run_appended hclear hop
    have hnext := ih happended.clear hrest
    rw [runOps, handleCode, if_pos hop, bitString]
    rw [happended.pos_eq] at hnext
    exact happended.trans hnext

theorem runOps_keeps (ops : List CursorOp) (b : BitRef) : Keeps b (runOps ops b).1 := by
  induction ops generalizing b with
  | nil => exact Keeps.refl b
  | cons op ops ih =>
    rw [runOps, handleCode]
    split_ifs
    · exact (run_keeps op b).trans (ih _)
    · exact run_keeps op b

theorem runReads_keeps (ops : List CursorOp) (b : BitRef) :
    Keeps b (runReads (ops.map CursorOp.read) b).cur := by
  induction ops generalizing b with
  | nil => exact Keeps.refl b
  | cons op ops ih =>
    rw [List.map_cons, runReads, Unpacked.handleCode]
    split_ifs
    · exact (read_keeps op b).trans (ih _)
    · exact read_keeps op b

theorem runReads_cur (hok : (runReads (ops.map CursorOp.read) b).ok = true) :
    (runReads (ops.map CursorOp.read) b).cur = b.advance (bitString b.pos ops).length := by
  induction ops generalizing b with
  | nil => exact advance_zero.symm
  | cons op ops ih =>
    rw [List.map_cons, runReads] at hok ⊢
    obtain ⟨hop, hrest⟩ := unpacked_handleCode_ok.mp hok
    have hcur := read_cur hop
    rw [Unpacked.handleCode, if_pos hop]
    rw [hcur] at hrest ⊢
    rw [ih hrest, advance_advance, pos_advance, bitString, List.length_append]

theorem runReads_val (hok : (runReads (ops.map CursorOp.read) b).ok = true)
    (hholds : Holds b.mem b.pos (bitString b.pos ops)) :
    (runReads (ops.map CursorOp.read) b).val = ops.map CursorOp.value := by
  induction ops generalizing b with
  | nil => rfl
  | cons op ops ih =>
    rw [List.map_cons, runReads] at hok ⊢
    obtain ⟨hop, hrest⟩ := unpacked_handleCode_ok.mp hok
    have hcur := read_cur hop
    obtain ⟨hfirst, hothers⟩ := holds_append.mp hholds
    rw [Unpacked.handleCode, if_pos hop, List.map_cons, read_value hop hfirst]
    rw [hcur] at hrest ⊢
    rw [ih hrest (by rw [mem_advance, pos_advance]; exact hothers)]

def FitsIn (size : ℕ) (ops : List CursorOp) : Prop := (bitString 0 ops).length ≤ 8 * size

/-- The cursor does what is expected of it on a sequence of operations. -/
structure CursorExact (mem : Memory) (size : ℕ) (ops : List CursorOp) : Prop where
  pack_ok : ∀ pre op post, ops = pre ++ op :: post → (runOps pre (ofBuffer mem size)).2 = true →
    ((op.run (runOps pre (ofBuffer mem size)).1).2 = true ↔
      op.Fits (runOps pre (ofBuffer mem size)).1)
  pack_inside : ∀ pre, pre <+: ops → (runOps pre (ofBuffer mem size)).1.Inside
  written : FitsIn size ops → ∀ i, image (runOps ops (ofBuffer mem size)).1.mem i =
    (bitString 0 ops).getD i (image mem i)
  unpack_ok : ∀ mem' pre op post, ops = pre ++ op :: post →
    (runReads (pre.map CursorOp.read) (ofBuffer mem' size)).ok = true →
    ((op.read.run (runReads (pre.map CursorOp.read) (ofBuffer mem' size)).cur).ok = true ↔
      op.Fits (runReads (pre.map CursorOp.read) (ofBuffer mem' size)).cur)
  unpack_inside : ∀ mem' pre, pre <+: ops →
    (runReads (pre.map CursorOp.read) (ofBuffer mem' size)).cur.Inside
  read_back : FitsIn size ops →
    (runReads (ops.map CursorOp.read)
      (ofBuffer (runOps ops (ofBuffer mem size)).1.mem size)).ok = true ∧
    (runReads (ops.map CursorOp.read)
      (ofBuffer (runOps ops (ofBuffer mem size)).1.mem size)).val = ops.map CursorOp.value

/-- Each operation that fits is supported where it starts, and the octet in which the string ends
has only zeros behind it. -/
def Plain (mem : Memory) (size : ℕ) (ops : List CursorOp) : Prop :=
  (∀ pre op post, ops = pre ++ op :: post → FitsIn size (pre ++ [op]) →
    op.Supported (bitString 0 pre).length size) ∧
  (FitsIn size ops → ∀ i, (bitString 0 ops).length ≤ i →
    i < octetEnd (bitString 0 ops).length → image mem i = false)

theorem clear_ofBuffer (mem : Memory) (size : ℕ) : Clear (ofBuffer mem size) :=
  clear_of_offset rfl

theorem inside_ofBuffer (mem : Memory) (size : ℕ) : (ofBuffer mem size).Inside :=
  Nat.zero_le (8 * size)

theorem fitsIn_of_append (h : FitsIn size (ops ++ ops')) : FitsIn size ops := by
  unfold FitsIn at h ⊢
  rw [bitString_append, List.length_append] at h
  omega

theorem inside_runOps (mem : Memory) (size : ℕ) (ops : List CursorOp) :
    (runOps ops (ofBuffer mem size)).1.Inside :=
  (runOps_keeps ops _).2 (inside_ofBuffer mem size)

theorem inside_runReads (mem : Memory) (size : ℕ) (ops : List CursorOp) :
    (runReads (ops.map CursorOp.read) (ofBuffer mem size)).cur.Inside :=
  (runReads_keeps ops _).2 (inside_ofBuffer mem size)

theorem runOps_state (hok : (runOps ops (ofBuffer mem size)).2 = true) :
    (runOps ops (ofBuffer mem size)).1.pos = (bitString 0 ops).length ∧
      (runOps ops (ofBuffer mem size)).1.max = size := by
  have happended := runOps_appended (clear_ofBuffer mem size) hok
  have hpos := happended.pos_eq
  rw [show (ofBuffer mem size).pos = 0 from rfl, Nat.zero_add] at hpos
  exact ⟨hpos, happended.max_eq⟩

theorem fits_iff (hpos : b.pos = (bitString 0 pre).length) (hmax : b.max = size) :
    op.Fits b ↔ FitsIn size (pre ++ [op]) := by
  unfold CursorOp.Fits FitsIn
  rw [bitString_append, List.length_append, Nat.zero_add, length_bitString_singleton, hpos, hmax]

theorem runReads_concat_ok {reads : List CursorRead} {read : CursorRead} :
    (runReads (reads ++ [read]) b).ok = true ↔
      (runReads reads b).ok = true ∧ (read.run (runReads reads b).cur).ok = true := by
  induction reads generalizing b with
  | nil =>
    rw [List.nil_append, runReads, runReads, unpacked_handleCode_ok]
    exact and_comm
  | cons first reads ih =>
    rw [List.cons_append, runReads, runReads, unpacked_handleCode_ok, unpacked_handleCode_ok, ih,
      and_assoc]
    refine and_congr_right fun hfirst => and_congr_right fun _ => ?_
    rw [Unpacked.handleCode, if_pos hfirst]

theorem runOps_concat_ok :
    (runOps (pre ++ [op]) b).2 = true ↔
      (runOps pre b).2 = true ∧ (op.run (runOps pre b).1).2 = true := by
  rw [runOps_append, handleCode_ok, runOps, handleCode_ok]
  exact and_congr_right fun _ => and_iff_left rfl

theorem runOps_ok_of_plain (hplain : Plain mem size ops) (hpre : pre <+: ops)
    (hfits : FitsIn size pre) : (runOps pre (ofBuffer mem size)).2 = true := by
  induction pre using List.reverseRecOn with
  | nil => rfl
  | append_singleton pre op ih =>
    have hok := ih ((List.prefix_append pre [op]).trans hpre) (fitsIn_of_append hfits)
    obtain ⟨hpos, hmax⟩ := runOps_state hok
    obtain ⟨post, hpost⟩ := hpre
    rw [List.append_assoc] at hpost
    refine runOps_concat_ok.mpr ⟨hok, (run_ok (inside_runOps mem size pre)).mpr ⟨?_, ?_⟩⟩
    · exact (fits_iff hpos hmax).mpr hfits
    · rw [hpos, hmax]
      exact hplain.1 pre op post hpost.symm hfits

theorem runReads_state (hok : (runReads (ops.map CursorOp.read) (ofBuffer mem size)).ok = true) :
    (runReads (ops.map CursorOp.read) (ofBuffer mem size)).cur.pos =
        (bitString 0 ops).length ∧
      (runReads (ops.map CursorOp.read) (ofBuffer mem size)).cur.max = size := by
  rw [runReads_cur hok, pos_advance, max_advance]
  exact ⟨Nat.zero_add _, rfl⟩

theorem runReads_ok_of_plain (mem' : Memory) (hplain : Plain mem size ops) (hpre : pre <+: ops)
    (hfits : FitsIn size pre) :
    (runReads (pre.map CursorOp.read) (ofBuffer mem' size)).ok = true := by
  induction pre using List.reverseRecOn with
  | nil => rfl
  | append_singleton pre op ih =>
    have hok := ih ((List.prefix_append pre [op]).trans hpre) (fitsIn_of_append hfits)
    obtain ⟨hpos, hmax⟩ := runReads_state hok
    obtain ⟨post, hpost⟩ := hpre
    rw [List.append_assoc] at hpost
    rw [List.map_append, List.map_singleton]
    refine runReads_concat_ok.mpr ⟨hok, (read_ok (inside_runReads mem' size pre)).2 ?_ ?_⟩
    · exact (fits_iff hpos hmax).mpr hfits
    · rw [hpos, hmax]
      exact hplain.1 pre op post hpost.symm hfits

theorem image_runOps (hok : (runOps ops (ofBuffer mem size)).2 = true) (i : ℕ) :
    image (runOps ops (ofBuffer mem size)).1.mem i =
      if i < (bitString 0 ops).length then (bitString 0 ops).getD i (image mem i)
      else if i < octetEnd (bitString 0 ops).length then false else image mem i := by
  have happended := runOps_appended (clear_ofBuffer mem size) hok
  have hstart : (ofBuffer mem size).pos = 0 := rfl
  have hmem : (ofBuffer mem size).mem = mem := rfl
  have hholds := happended.holds
  have hbehind := happended.behind
  simp only [hstart, hmem, Nat.zero_add] at hholds hbehind
  split_ifs with hin hend
  · have hbit := hholds i hin
    rw [Nat.zero_add] at hbit
    rw [hbit, List.getD_eq_getElem _ _ hin, List.getD_eq_getElem _ _ hin]
  · rw [hbehind i (Nat.not_lt.mp hin), if_pos hend]
  · rw [hbehind i (Nat.not_lt.mp hin), if_neg hend]

theorem plain_of_cursorExact (h : CursorExact mem size ops) : Plain mem size ops := by
  -- every prefix that fits runs through, so its last operation was supported
  have hrun : ∀ pre, pre <+: ops → FitsIn size pre → (runOps pre (ofBuffer mem size)).2 = true := by
    intro pre hpre hfits
    induction pre using List.reverseRecOn with
    | nil => rfl
    | append_singleton pre op ih =>
      have hok := ih ((List.prefix_append pre [op]).trans hpre) (fitsIn_of_append hfits)
      obtain ⟨hpos, hmax⟩ := runOps_state hok
      obtain ⟨post, hpost⟩ := hpre
      rw [List.append_assoc] at hpost
      exact runOps_concat_ok.mpr
        ⟨hok, (h.pack_ok pre op post hpost.symm hok).mpr ((fits_iff hpos hmax).mpr hfits)⟩
  constructor
  · intro pre op post hops hfits
    have hpre : pre ++ [op] <+: ops := ⟨post, by rw [hops, List.append_assoc]; rfl⟩
    obtain ⟨hok, hop⟩ := runOps_concat_ok.mp (hrun _ hpre hfits)
    obtain ⟨hpos, hmax⟩ := runOps_state hok
    have hsupported := ((run_ok (inside_runOps mem size pre)).mp hop).2
    rw [hpos, hmax] at hsupported
    exact hsupported
  · intro hfits i hi hend
    have hleft := h.written hfits i
    rw [image_runOps (hrun ops (List.prefix_refl ops) hfits), if_neg (Nat.not_lt.mpr hi),
      if_pos hend, List.getD_eq_default _ _ hi] at hleft
    exact hleft.symm

theorem cursorExact_of_plain (h : Plain mem size ops) : CursorExact mem size ops where
  pack_ok pre op post hops hok := by
    obtain ⟨hpos, hmax⟩ := runOps_state hok
    rw [run_ok (inside_runOps mem size pre)]
    refine and_iff_left_of_imp fun hfits => ?_
    rw [hpos, hmax]
    exact h.1 pre op post hops ((fits_iff hpos hmax).mp hfits)
  pack_inside pre _ := inside_runOps mem size pre
  written hfits i := by
    rw [image_runOps (runOps_ok_of_plain h (List.prefix_refl ops) hfits)]
    split_ifs with hin hend
    · rfl
    · rw [List.getD_eq_default _ _ (Nat.not_lt.mp hin)]
      exact (h.2 hfits i (Nat.not_lt.mp hin) hend).symm
    · rw [List.getD_eq_default _ _ (Nat.not_lt.mp hin)]
  unpack_ok mem' pre op post hops hok := by
    obtain ⟨hpos, hmax⟩ := runReads_state hok
    have hread := @read_ok op _ (inside_runReads mem' size pre)
    refine ⟨hread.1, fun hfits => hread.2 hfits ?_⟩
    rw [hpos, hmax]
    exact h.1 pre op post hops ((fits_iff hpos hmax).mp hfits)
  unpack_inside mem' pre _ := inside_runReads mem' size pre
  read_back hfits := by
    have hok := runOps_ok_of_plain h (List.prefix_refl ops) hfits
    have hread := runReads_ok_of_plain (runOps ops (ofBuffer mem size)).1.mem h
      (List.prefix_refl ops) hfits
    exact ⟨hread, runReads_val hread (runOps_appended (clear_ofBuffer mem size) hok).holds⟩

/-- The cursor is exact when no operation that fits is a `pack` of 32 bits or more or a
`pack_bytes` of whole bytes up to the end of the buffer, and nothing but zeros stands behind the
string in its last byte. -/
theorem cursorExact_iff (mem : Memory) (size : ℕ) (ops : List CursorOp) :
    CursorExact mem size ops ↔ Plain mem size ops :=
  ⟨plain_of_cursorExact, cursorExact_of_plain⟩

/-- One byte does not go into a buffer of one byte by `pack_bytes`, although `pack` writes it. -/
theorem last_byte_not_packed :
    ¬∀ (mem : Memory) (size : ℕ) (ops : List CursorOp), CursorExact mem size ops := by
  intro hall
  have hexact := hall (fun _ => 0) 1 [.packBytes [0xAB]]
  have hok := (hexact.pack_ok [] (.packBytes [0xAB]) [] rfl rfl).mpr (by decide)
  cases hok

end SrsLte
