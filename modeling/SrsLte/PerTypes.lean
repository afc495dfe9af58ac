import SrsLte.PerWholeNumber

/-!
# Length determinants and integers

The PER functions for unconstrained lengths, for unconstrained whole numbers, and for integers,
which choose between these and the constrained whole numbers.
-/

namespace SrsLte

open BitField

def packLength (b : BitRef) (val : ℕ) (aligned : Bool) : BitRef × Bool :=
  if !aligned then
    if val < 128 then b.pack val 8
    else if val < 16384 then handleCode (b.pack 0b10 2) fun b => b.pack val 14
    else (b, false)
  else if val > 65536 then (b, false)
  else
    handleCode b.alignBytes fun b =>
    if val < 128 then b.pack val 8
    else if val < 16384 then handleCode (b.pack 0b10 2) fun b => b.pack val 14
    else
      handleCode (b.pack 0b11 2) fun b =>
      let m := val / 16384
      handleCode (b.pack m 6) fun b =>
      b.pack (val - m * 16384) 16

/-- `val` is what the output variable holds before. -/
def unpackLength (val : ℕ) (b : BitRef) (aligned : Bool) : Unpacked ℕ :=
  if !aligned then
    (b.unpack 1).handleCode val fun ext b =>
    if ext = 0 then b.unpack 7
    else
      (b.unpack 1).handleCode val fun ext b =>
      if ext = 0 then b.unpack 14 else ⟨0, b, false⟩
  else
    (Unpacked.ofCode b.alignBytes).handleCode val fun _ b =>
    let r := b.unpack 8
    r.handleCode r.val fun val b =>
    if val < 128 then ⟨val, b, true⟩
    else
      let val := val - 128
      if val < 64 then
        (b.unpack 8).handleCode val fun valOctet2 b => ⟨val * 256 + valOctet2, b, true⟩
      else ⟨val, b, false⟩

def IntType.indefinite : IntType → ℤ
  | .int32 => -2 ^ 31
  | .int64 => -2 ^ 63
  | .uint64 => 2 ^ 63
  | _ => 0

/-- `ceilf((log2f(n) + 1) / 8.0f)`: the least number of octets that one bit more than the
logarithm fits in. -/
def unconstrainedWholeNumberLength (t : IntType) (n : ℤ) : ℤ :=
  if n ≤ 0 then t.indefinite else (ceilFrac (ceilLog2 n.toNat + 1) 8 : ℕ)

/-- The octets of a number, in bits of a `uint32_t`. -/
def octetBits (len : ℤ) : ℕ := toUint32 len * 8 % 2 ^ 32

def packUnconstrainedWholeNumber (t : IntType) (b : BitRef) (n : ℤ) (aligned : Bool) :
    BitRef × Bool :=
  let nBits := octetBits (unconstrainedWholeNumberLength t n)
  if aligned then handleCode b.alignBytesZero fun b => b.pack (toUint32 n) nBits
  else b.pack (toUint32 n) nBits

/-- `n` and `len` are what the variables hold before. -/
def unpackUnconstrainedWholeNumber (t : IntType) (n : ℤ) (len : ℕ) (b : BitRef)
    (aligned : Bool) : Unpacked ℤ :=
  (unpackLength len b aligned).handleCode n fun len b =>
  if aligned then
    (Unpacked.ofCode b.alignBytes).handleCode n fun _ b => b.unpackInt t (octetBits len)
  else b.unpackInt t (octetBits len)

def lowerBounded (t : IntType) (lb : ℤ) : Prop := lb ≠ t.min ∨ lb = 0

def upperBounded (t : IntType) (ub : ℤ) : Prop := ub ≠ t.max

instance (t : IntType) (lb : ℤ) : Decidable (lowerBounded t lb) :=
  inferInstanceAs (Decidable (_ ∨ _))

instance (t : IntType) (ub : ℤ) : Decidable (upperBounded t ub) :=
  inferInstanceAs (Decidable (_ ≠ _))

/-- `pack_integer` after the extension marker. -/
def packIntegerBody (t : IntType) (b : BitRef) (n lb ub : ℤ) (withinBounds aligned : Bool) :
    BitRef × Bool :=
  if withinBounds ∧ lowerBounded t lb ∧ upperBounded t ub then
    if lb = ub then (b, true)
    else packConstrainedWholeNumber t b n lb ub aligned
  else if !withinBounds ∨ (¬lowerBounded t lb ∧ ¬upperBounded t ub) then
    handleCode (packLength b (toUint32 (unconstrainedWholeNumberLength t n)) aligned) fun b =>
    packUnconstrainedWholeNumber t b n aligned
  else
    -- semi-constrained: nothing is packed
    (b, true)

def packInteger (t : IntType) (b : BitRef) (n lb ub : ℤ) (hasExt aligned : Bool) :
    BitRef × Bool :=
  let withinBounds := decide (lb ≤ n ∧ n ≤ ub)
  if hasExt then
    handleCode (b.pack (!withinBounds).toNat 1) fun b =>
    packIntegerBody t b n lb ub withinBounds aligned
  else if !withinBounds then (b, false)
  else packIntegerBody t b n lb ub withinBounds aligned

/-- `unpack_integer` after the extension marker. -/
def unpackIntegerBody (t : IntType) (n : ℤ) (len : ℕ) (b : BitRef) (lb ub : ℤ)
    (withinBounds aligned : Bool) : Unpacked ℤ :=
  if withinBounds ∧ lowerBounded t lb ∧ upperBounded t ub then
    if lb = ub then ⟨n, b, true⟩
    else unpackConstrainedWholeNumber t n b lb ub aligned
  else if !withinBounds ∨ (¬lowerBounded t lb ∧ ¬upperBounded t ub) then
    (unpackLength len b aligned).handleCode n fun _ b =>
    unpackUnconstrainedWholeNumber t n len b aligned
  else ⟨n, b, true⟩

/-- `n` and `len` are what the output variable and the two lengths hold before. -/
def unpackInteger (t : IntType) (n : ℤ) (len : ℕ) (b : BitRef) (lb ub : ℤ)
    (hasExt aligned : Bool) : Unpacked ℤ :=
  if hasExt then
    (b.unpack 1).handleCode n fun ext b =>
    unpackIntegerBody t n len b lb ub (ext = 0) aligned
  else unpackIntegerBody t n len b lb ub true aligned

end SrsLte

/-!
The guards around an extension addition. A group that the decoder knows is decoded inside a guard,
whose destructor skips what is left of it; the destructor of the groups skips the unknown ones.
-/

namespace SrsLte

open BitField BitRef

/-- `varlength_field_unpack_guard`: the length it read and the cursor behind the length. -/
structure VarlengthFieldUnpackGuard where
  len : ℕ
  bref0 : BitRef

/-- The constructor. The return code of `unpack_length` is not looked at. -/
def VarlengthFieldUnpackGuard.init (b : BitRef) (align : Bool) : VarlengthFieldUnpackGuard :=
  ⟨(unpackLength 0 b align).val, (unpackLength 0 b align).cur⟩

def VarlengthFieldUnpackGuard.destruct (g : VarlengthFieldUnpackGuard) (b : BitRef) : BitRef :=
  (b.unpack (toUint32 (g.len * 8 - ((b.pos : ℤ) - g.bref0.pos)))).cur

/-- `n` is what the output variable holds before. -/
def unpackNormSmallNonNegWholeNumber (n : ℕ) (b : BitRef) : Unpacked ℕ :=
  (b.unpack 1).handleCode n fun ext b =>
  if ext = 0 then b.unpack 6 else ⟨n, b, false⟩

def unpackFlags : ℕ → BitRef → Unpacked (List Bool)
  | 0, b => ⟨[], b, true⟩
  | count + 1, b =>
    (b.unpack 1).handleCode [] fun bit b =>
    let r := unpackFlags count b
    ⟨decide (bit ≠ 0) :: r.val, r.cur, r.ok⟩

/-- `ext_groups_unpacker_guard::unpack` -/
def unpackGroups (b : BitRef) : Unpacked (List Bool) :=
  (unpackNormSmallNonNegWholeNumber 0 b).handleCode [] fun nof b => unpackFlags (nof + 1) b

/-- The decoders of the known groups: how many bits each one reads at a cursor. -/
abbrev GroupDecoders := ℕ → BitRef → ℕ

def decodeGroup (nofSupported : ℕ) (used : GroupDecoders) (i : ℕ) (b : BitRef) : BitRef :=
  let g := VarlengthFieldUnpackGuard.init b false
  g.destruct (if i < nofSupported then g.bref0.advance (used i g.bref0) else g.bref0)

def decodeGroups (nofSupported : ℕ) (used : GroupDecoders) : ℕ → List Bool → BitRef → BitRef
  | _, [], b => b
  | i, present :: flags, b =>
    decodeGroups nofSupported used (i + 1) flags
      (if present then decodeGroup nofSupported used i b else b)

/-- `varlength_field_pack_guard::buffer` -/
def bufferSize : ℕ := 1024

def packBuffer (buffer : Memory) : ℕ → ℕ → BitRef → BitRef
  | 0, _, b => b
  | count + 1, i, b => packBuffer buffer count (i + 1) (b.pack (buffer i).toNat 8).1

/-- The destructor of `varlength_field_pack_guard`: `w` is the cursor that the scope left in the
buffer, and `b` the cursor before the guard. No return code is looked at. -/
def packGuardDestruct (b w : BitRef) (align : Bool) : BitRef :=
  let leftover := 7 - toUint32 ((w.pos : ℤ) - 1) % 8
  let w := (w.pack 0 leftover).1
  let nofBytes := w.pos / 8
  packBuffer w.mem nofBytes 0 (packLength b nofBytes align).1

end SrsLte

/-!
A bit string of the ASN.1 library is a number of bits in octets, the first octet the least
significant one. Packing writes it from the last bit to the first, behind a length prefix where
the size constraint leaves the length open. The division of a length by eight is exact, as are the
logarithms of the constrained whole numbers.
-/

namespace SrsLte

open BitField

/-- What stands behind `data()`, and `length()`. -/
structure Asn1BitString where
  octets : ℕ → UInt8
  nofBits : ℕ

/-- `std::numeric_limits<uint32_t>::max()`, the upper bound that stands for none. -/
def noUpperBound : ℕ := 2 ^ 32 - 1

structure BitStringClass where
  lb : ℕ
  ub : ℕ
  hasExt : Bool
  isAligned : Bool

/-- `ceil_frac(n, 8u)`, in `uint32_t`. -/
def nofOctets (n : ℕ) : ℕ := (n + 7) % 2 ^ 32 / 8

/-- `bitstring_get` -/
def Asn1BitString.get (s : Asn1BitString) (idx : ℕ) : Bool :=
  (s.octets (idx / 8)).toNat.testBit (idx % 8)

/-- `resize`, which resets the content. -/
def Asn1BitString.resize (s : Asn1BitString) (newSize : ℕ) : Asn1BitString :=
  ⟨fun i => if i < nofOctets newSize then 0 else s.octets i, newSize⟩

/-- `ptr[i] << (i * 8)` as it is added to a `uint64_t`. The octet is shifted as an `int`: nothing
where the shift is undefined. -/
def shiftedOctet (x : UInt8) (i : ℕ) : Option ℤ :=
  if 32 ≤ i * 8 then none else some (IntType.int32.wrap (x.toNat * 2 ^ (i * 8)))

/-- The loop of `bitstring_to_number`. -/
def addOctets (ptr : ℕ → UInt8) : ℕ → Option ℤ
  | 0 => some 0
  | n + 1 =>
    (addOctets ptr n).bind fun val =>
    (shiftedOctet (ptr n) n).map fun x => IntType.uint64.wrap (val + x)

/-- `bitstring_to_number`; nothing where it shifts an octet too far. -/
def bitstringToNumber (ptr : ℕ → UInt8) (nbits : ℕ) : Option ℤ :=
  if nbits > 64 then some 0 else addOctets ptr (ceilFrac nbits 8)

/-- The loop of `number_to_bitstring`. -/
def storeOctets (ptr : ℕ → UInt8) (number n : ℕ) : ℕ → UInt8 := fun i =>
  if i < n then UInt8.ofNat ((number >>> (i * 8)) &&& 0xFF) else ptr i

def numberToBitstring (ptr : ℕ → UInt8) (number nbits : ℕ) : ℕ → UInt8 :=
  if nbits > 64 then ptr
  else
    let nofBytes := ceilFrac nbits 8
    let ptr := storeOctets ptr number nofBytes
    let offset := nbits % 8
    if offset > 0 then
      Function.update ptr (nofBytes - 1) (ptr (nofBytes - 1) &&& UInt8.ofNat (1 <<< offset - 1))
    else ptr

/-- `to_number` -/
def Asn1BitString.toNumber (s : Asn1BitString) : Option ℤ := bitstringToNumber s.octets s.nofBits

/-- `from_number`; `log2` is `(uint32_t)ceilf(log2(val))`, which rounds a logarithm that is close
to a whole number. -/
def Asn1BitString.fromNumber (log2 : ℕ → ℕ) (s : Asn1BitString) (val : ℕ) : Asn1BitString :=
  let nofBits := log2 val
  let s := if nofBits > s.nofBits then s.resize nofBits else s
  { s with octets := numberToBitstring s.octets val s.nofBits }

def packOctetsDown (buf : ℕ → UInt8) : ℕ → BitRef → BitRef × Bool
  | 0, b => (b, true)
  | n + 1, b => handleCode (b.pack (buf n).toNat 8) (packOctetsDown buf n)

def packCommonBitstring (b : BitRef) (buf : ℕ → UInt8) (nbits : ℕ) : BitRef × Bool :=
  if nbits = 0 then (b, false)
  else
    let nOcts := ceilFrac nbits 8
    let offset := (nbits - 1) % 8 + 1
    handleCode (b.pack (buf (nOcts - 1)).toNat offset) (packOctetsDown buf (nOcts - 1))

/-- `bref.unpack(buf[idx], n)`: the octet is stored also when the step fails. -/
def unpackOctetsDown : ℕ → (ℕ → UInt8) → BitRef → Unpacked (ℕ → UInt8)
  | 0, buf, b => ⟨buf, b, true⟩
  | n + 1, buf, b =>
    let r := b.unpack 8
    let buf := Function.update buf n (UInt8.ofNat r.val)
    r.handleCode buf fun _ b => unpackOctetsDown n buf b

/-- The last octet and then the others; the index of an octet is a `uint32_t`. -/
def unpackBits (buf : ℕ → UInt8) (b : BitRef) (nOcts offset : ℕ) : Unpacked (ℕ → UInt8) :=
  let r := b.unpack offset
  let buf := Function.update buf (toUint32 (nOcts - 1)) (UInt8.ofNat r.val)
  r.handleCode buf fun _ b => unpackOctetsDown (nOcts - 1) buf b

def unpackCommonBitstring (buf : ℕ → UInt8) (b : BitRef) (nbits : ℕ) : Unpacked (ℕ → UInt8) :=
  if nbits = 0 then ⟨buf, b, false⟩
  else unpackBits buf b (ceilFrac nbits 8) ((nbits - 1) % 8 + 1)

namespace BitStringClass

variable (c : BitStringClass)

def packLengthPrefix (b : BitRef) (len : ℕ) : BitRef × Bool :=
  if c.hasExt ∧ c.ub = noUpperBound then (b, false)
  else
    let withinBounds : Bool := decide (c.lb ≤ len ∧ len ≤ c.ub)
    if ¬withinBounds ∧ ¬c.hasExt then (b, false)
    else
      handleCode (if c.hasExt then b.pack (!withinBounds).toNat 1 else (b, true)) fun b =>
      if c.lb = c.ub ∧ withinBounds then (b, true)
      else if c.ub = noUpperBound ∨ ¬withinBounds then packLength b len false
      else
        handleCode (b.pack (len - c.lb) (ceilLog2 (c.ub - c.lb))) fun b =>
        if c.isAligned then b.alignBytesZero else (b, true)

/-- `bitstring_utils::pack` -/
def pack (b : BitRef) (s : Asn1BitString) : BitRef × Bool :=
  if (s.nofBits < c.lb ∨ s.nofBits > c.ub) ∧ ¬c.hasExt then (b, false)
  else
    handleCode (c.packLengthPrefix b s.nofBits) fun b =>
    packCommonBitstring b s.octets s.nofBits

/-- `len` is what the output variable holds before. -/
def unpackLengthPrefix (len : ℕ) (b : BitRef) : Unpacked ℕ :=
  (if c.hasExt then b.unpack 1 else ⟨0, b, true⟩).handleCode len fun ext b =>
  if c.ub = noUpperBound ∨ ext ≠ 0 then unpackLength len b c.isAligned
  else if c.lb = c.ub then ⟨c.lb, b, true⟩
  else
    let r := unpackConstrainedWholeNumber .uint32 len b c.lb c.ub c.isAligned
    ⟨r.val.toNat, r.cur, r.ok⟩

/-- The return code of `align_bytes` is not looked at. -/
def unpackBitfield (buf : ℕ → UInt8) (b : BitRef) (n : ℕ) : Unpacked (ℕ → UInt8) :=
  let b := if c.isAligned ∧ (c.lb ≠ c.ub ∨ c.ub > 16) then b.alignBytes.1 else b
  unpackBits buf b (nofOctets n) (toUint32 (n - 1) % 8 + 1)

/-- `base_bitstring::unpack`; `nbits` is what the variable holds before. -/
def unpack (nbits : ℕ) (s : Asn1BitString) (b : BitRef) : Unpacked Asn1BitString :=
  (c.unpackLengthPrefix nbits b).handleCode s fun nbits b =>
  let s := s.resize nbits
  let r := c.unpackBitfield s.octets b nbits
  ⟨{ s with octets := r.val }, r.cur, r.ok⟩

/-- The octets that the class has: an array of fixed size for an upper bound, and as many as the
string was sized to without one. -/
def storage (nbits : ℕ) : ℕ := if c.ub = noUpperBound then nofOctets nbits else nofOctets c.ub

end BitStringClass
end SrsLte
