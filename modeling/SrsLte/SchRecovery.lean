import SrsLte.Sch

/-!
# Recovery of transport blocks

Where both sides agree on the blocks, each block that the encoder makes is a part of the transport
block with its checksum, and the decoder puts these parts together again.
-/

namespace SrsLte

open SchEnv (cbIn cbCrc encodeTbOff decodeCb)

def transportOctets (data : Bytes) : Bytes :=
  data ++ Crc.crcTb.octets (Crc.crcTb.checksumGet (data.foldl Crc.crcTb.putByte 0))

def Cbsegm.blockSize (s : Cbsegm) : ℕ := (if s.c = 1 then s.k1 else s.k1 - 24) / 8

def Cbsegm.blockOctets (s : Cbsegm) (data : Bytes) (i : ℕ) : Bytes :=
  ((transportOctets data).drop (i * s.blockSize)).take s.blockSize

theorem length_transportOctets (data : Bytes) :
    (transportOctets data).length = data.length + 3 := by
  unfold transportOctets
  rw [List.length_append, Crc.length_octets]
  rfl

theorem tcodLutTail_input (run : TcodLutRun) (second : Bytes × ℕ) (longCb : ℕ) :
    ∃ tail, (tcodLutTail run second longCb).input = run.block ++ [tail] := ⟨_, rfl⟩

section Encoder

variable {α : Type*} {s : Cbsegm} {data : Bytes} {i : ℕ}

theorem blockSize_spec (hs : s.Exact) (hc2 : s.c2 = 0) (hdata : data.length = s.tbs / 8) :
    s.c * s.blockSize = data.length + 3 ∧ s.tbs = 8 * data.length ∧ 3 ≤ s.blockSize ∧
      8 * s.blockSize = (if s.c = 1 then s.k1 else s.k1 - 24) ∧
      s.k1 = 8 * s.blockSize + (if s.c = 1 then 0 else 24) := by
  obtain ⟨hmod, hmin, -⟩ := cbsize_spec hs.size1
  have htotal := hs.total
  have hblocks := hs.blocks
  rw [hc2, Nat.zero_mul, Nat.add_zero] at htotal
  rw [hc2, Nat.add_zero] at hblocks
  rw [hblocks] at htotal
  have hk : 8 * s.blockSize = if s.c = 1 then s.k1 else s.k1 - 24 := by
    unfold Cbsegm.blockSize
    split_ifs <;> omega
  have hk1 : s.k1 = 8 * s.blockSize + (if s.c = 1 then 0 else 24) := by
    rw [hk]
    split_ifs with hc
    · rfl
    · omega
  have hcase : (if s.c = 1 then 0 else 24 * s.c) = s.c * (if s.c = 1 then 0 else 24) := by
    split_ifs with hc
    · rfl
    · exact Nat.mul_comm _ _
  have hmul : 8 * (s.c * s.blockSize) = s.tbs + 24 := by
    rw [hk1, Nat.mul_add, hcase] at htotal
    have hcomm : s.c * (8 * s.blockSize) = 8 * (s.c * s.blockSize) := by ring
    omega
  refine ⟨by omega, by omega, ?_, hk, hk1⟩
  split_ifs at hk1 with hc
  · omega
  · have hseveral := hs.several hc
    omega

variable (hs : s.Exact) (hc2 : s.c2 = 0) (hdata : data.length = s.tbs / 8) (hi : i < s.c)

include hs hc2 hdata hi

theorem cbIn_even (qm nofEBits : ℕ) (hlt : i < s.c - 1) :
    cbIn s data i (s.evenBlock qm nofEBits i) =
        (data.drop (i * s.blockSize)).take s.blockSize ∧
      (i + 1) * s.blockSize ≤ data.length := by
  obtain ⟨hfill, htbs, hthree, hsize, hk1⟩ := blockSize_spec hs hc2 hdata
  have hrp : i * (8 * s.blockSize) / 8 = i * s.blockSize := by
    rw [Nat.mul_left_comm, Nat.mul_div_cancel_left _ (by decide)]
  constructor
  · unfold cbIn Cbsegm.evenBlock
    dsimp only
    rw [if_pos hlt, ← hsize, hrp, Nat.mul_div_cancel_left _ (by decide)]
  · have hmul : (i + 1 + 1) * s.blockSize ≤ s.c * s.blockSize := Nat.mul_le_mul_right _ (by omega)
    rw [Nat.add_mul (i + 1), Nat.one_mul] at hmul
    omega

theorem cbIn_last (qm nofEBits : ℕ) (hlast : ¬ i < s.c - 1) :
    cbIn s data i (s.evenBlock qm nofEBits i) = data.drop (i * s.blockSize) ∧
      i * s.blockSize + (s.blockSize - 3) = data.length := by
  obtain ⟨hfill, htbs, hthree, hsize, hk1⟩ := blockSize_spec hs hc2 hdata
  have hrp : i * (8 * s.blockSize) / 8 = i * s.blockSize := by
    rw [Nat.mul_left_comm, Nat.mul_div_cancel_left _ (by decide)]
  have hrest : i * s.blockSize + (s.blockSize - 3) = data.length := by
    have hlen : s.c * s.blockSize = i * s.blockSize + s.blockSize := by
      rw [show s.c = i + 1 by omega, Nat.succ_mul]
    omega
  refine ⟨?_, hrest⟩
  unfold cbIn Cbsegm.evenBlock
  dsimp only
  rw [if_neg hlast, ← hsize, hrp]
  refine List.take_of_length_le ?_
  rw [List.length_drop]
  omega

/-- A block with the checksum of the transport block, where it is the last one, is a part of the
transport block with its checksum. -/
theorem cbIn_attached (qm nofEBits : ℕ) :
    cbIn s data i (s.evenBlock qm nofEBits i) ++
        tbOctets Crc.crcTb ((data.take (i * s.blockSize)).foldl Crc.crcTb.putByte 0)
          (cbIn s data i (s.evenBlock qm nofEBits i)) (decide (¬ i < s.c - 1)) =
      s.blockOctets data i := by
  obtain ⟨hfill, htbs, hthree, hsize, hk1⟩ := blockSize_spec hs hc2 hdata
  unfold Cbsegm.blockOctets transportOctets tbOctets
  by_cases hlt : i < s.c - 1
  · obtain ⟨hcb, hle⟩ := cbIn_even hs hc2 hdata hi qm nofEBits hlt
    rw [Nat.add_mul, Nat.one_mul] at hle
    rw [decide_eq_false (not_not.mpr hlt), if_neg Bool.false_ne_true, List.append_nil, hcb,
      List.drop_append_of_le_length (by omega), List.take_append_of_le_length]
    rw [List.length_drop]
    omega
  · obtain ⟨hcb, hrest⟩ := cbIn_last hs hc2 hdata hi qm nofEBits hlt
    rw [decide_eq_true hlt, if_pos rfl, hcb, ← List.foldl_append, List.take_append_drop,
      List.drop_append_of_le_length (by omega), List.take_of_length_le]
    rw [List.length_append, List.length_drop, Crc.length_octets,
      show Crc.crcTb.order / 8 = 3 from rfl]
    omega

theorem length_cbIn (qm nofEBits : ℕ) :
    (cbIn s data i (s.evenBlock qm nofEBits i)).length =
      blockSizeNoCrc Crc.crcTb (cbCrc s) s.k1 (decide (¬ i < s.c - 1)) := by
  obtain ⟨hfill, htbs, hthree, hsize, hk1⟩ := blockSize_spec hs hc2 hdata
  have hcb : (cbCrc s).elim 0 Crc.order = if s.c = 1 then 0 else 24 := by
    unfold cbCrc
    by_cases hc : s.c = 1
    · rw [if_neg (by omega), if_pos hc]
      rfl
    · rw [if_pos (by omega), if_neg hc]
      rfl
  unfold blockSizeNoCrc
  rw [hcb, hk1, Nat.add_sub_cancel]
  by_cases hlt : i < s.c - 1
  · obtain ⟨hcbIn, hle⟩ := cbIn_even hs hc2 hdata hi qm nofEBits hlt
    rw [Nat.add_mul, Nat.one_mul] at hle
    rw [decide_eq_false (not_not.mpr hlt), if_neg Bool.false_ne_true, hcbIn, List.length_take,
      List.length_drop]
    omega
  · obtain ⟨hcbIn, hrest⟩ := cbIn_last hs hc2 hdata hi qm nofEBits hlt
    rw [decide_eq_true hlt, if_pos rfl, hcbIn, List.length_drop,
      show Crc.crcTb.order = 24 from rfl]
    omega

theorem tcodEncodeLut_even (E : SchEnv α) (qm nofEBits : ℕ) : ∃ lut tail,
    tcodEncodeLut E.sse Crc.crcTb ((data.take (i * s.blockSize)).foldl Crc.crcTb.putByte 0)
        (cbCrc s) (cbIn s data i (s.evenBlock qm nofEBits i)) s.k1Idx
        (decide (¬ i < s.c - 1)) = some lut ∧
      lut.input = s.blockOctets data i ++
        cbOctets (cbCrc s) (s.blockOctets data i) ++ [tail] ∧
      (i < s.c - 1 →
        lut.crcTb = (data.take ((i + 1) * s.blockSize)).foldl Crc.crcTb.putByte 0) := by
  have hlen := length_cbIn hs hc2 hdata hi qm nofEBits
  have htake : (cbIn s data i (s.evenBlock qm nofEBits i)).take
      (blockSizeNoCrc Crc.crcTb (cbCrc s) s.k1 (decide (¬ i < s.c - 1))) =
      cbIn s data i (s.evenBlock qm nofEBits i) := List.take_of_length_le hlen.le
  have hrun := tcodEncodeLut_eq E.sse Crc.crcTb
    ((data.take (i * s.blockSize)).foldl Crc.crcTb.putByte 0) (cbCrc s)
    (cbIn s data i (s.evenBlock qm nofEBits i)) (decide (¬ i < s.c - 1)) hs.size1
  obtain ⟨tail, htail⟩ := tcodLutTail_input (tcodLutBlock Crc.crcTb
    ((data.take (i * s.blockSize)).foldl Crc.crcTb.putByte 0) (cbCrc s)
    (cbIn s data i (s.evenBlock qm nofEBits i)) s.k1 (decide (¬ i < s.c - 1))) _ s.k1
  refine ⟨_, tail, hrun, htail.trans (congrArg (· ++ [tail]) ?_), fun hlt => ?_⟩
  · rw [tcodLutBlock_block htake, cbIn_attached hs hc2 hdata hi qm nofEBits]
  · refine tcodLutBlock_crcTb.trans ?_
    rw [htake, (cbIn_even hs hc2 hdata hi qm nofEBits hlt).1, ← List.foldl_append,
      Nat.add_mul, Nat.one_mul, ← List.take_add]

theorem length_codeOctets :
    (s.blockOctets data i).length = s.blockSize ∧
      (s.blockOctets data i ++ cbOctets (cbCrc s) (s.blockOctets data i)).length =
        s.k1 / 8 := by
  obtain ⟨hfill, htbs, hthree, hsize, hk1⟩ := blockSize_spec hs hc2 hdata
  have hmul : (i + 1) * s.blockSize ≤ s.c * s.blockSize := Nat.mul_le_mul_right _ hi
  rw [Nat.add_mul, Nat.one_mul] at hmul
  have hlen : (s.blockOctets data i).length = s.blockSize := by
    unfold Cbsegm.blockOctets
    rw [List.length_take, List.length_drop, length_transportOctets]
    omega
  have hcb : (cbOctets (cbCrc s) (s.blockOctets data i)).length =
      (if s.c = 1 then 0 else 24) / 8 := by
    unfold cbCrc
    by_cases hc : s.c = 1
    · rw [if_neg (by omega), if_pos hc]
      rfl
    · rw [if_pos (by omega), if_neg hc]
      exact Crc.length_octets _ _
  refine ⟨hlen, ?_⟩
  rw [List.length_append, hlen, hcb]
  split_ifs at hk1 ⊢ <;> omega

theorem checksumByte_codeOctets :
    (if s.c > 1 then Crc.crcCb else Crc.crcTb).checksumByte
      (s.blockOctets data i ++ cbOctets (cbCrc s) (s.blockOctets data i))
      (if s.c > 1 then s.k1 else s.tbs + 24) = 0 := by
  obtain ⟨hfill, htbs, hthree, hsize, hk1⟩ := blockSize_spec hs hc2 hdata
  obtain ⟨hlen, -⟩ := length_codeOctets hs hc2 hdata hi
  unfold cbCrc
  by_cases hc : s.c > 1
  · have hcheck := Crc.crcCb.checksumByte_attached (k := 3) rfl (by decide) (s.blockOctets data i)
    rw [if_neg (by omega)] at hk1
    rw [if_pos hc, if_pos hc, if_pos hc, hk1, ← hlen]
    exact hcheck
  · have hone : s.c = 1 := by omega
    have hi0 : i = 0 := by omega
    rw [hone, Nat.one_mul] at hfill
    have hblock : s.blockOctets data i = transportOctets data := by
      unfold Cbsegm.blockOctets
      rw [hi0, Nat.zero_mul, List.drop_zero, List.take_of_length_le]
      rw [length_transportOctets, hfill]
    have hcheck := Crc.crcTb.checksumByte_attached (k := 3) rfl (by decide) data
    rw [if_neg hc, if_neg hc, if_neg hc, hblock, htbs]
    refine (congrArg (Crc.crcTb.checksumByte · _) (List.append_nil _)).trans ?_
    exact hcheck

end Encoder

/-- What the encoder makes of block `i` of one size: the octets with the tail behind them, and as
many coded bits as for every other block. -/
def EncodesBlock {α : Type*} (E : SchEnv α) (s : Cbsegm) (data : Bytes) (rv nE i : ℕ)
    (block : TcodLutEncoded × List Bool) : Prop :=
  (∃ tail, block.1.input = s.blockOctets data i ++
    cbOctets (cbCrc s) (s.blockOctets data i) ++ [tail]) ∧
  block.2 = E.rmTurboTx i s.k1Idx block.1.input block.1.parity nE rv

theorem encodeLoop_even {α : Type*} {s : Cbsegm} {data : Bytes} (hs : s.Exact) (hc2 : s.c2 = 0)
    (hdata : data.length = s.tbs / 8) (E : SchEnv α) (qm rv nofEBits : ℕ) {n i : ℕ}
    (hi : i + n = s.c) :
    ∃ blocks, E.encodeLoop s rv data ((List.range n).map fun j => s.evenBlock qm nofEBits (i + j)) i
        ((data.take (i * s.blockSize)).foldl Crc.crcTb.putByte 0) = some blocks ∧
      blocks.length = n ∧
      ∀ j block, blocks[j]? = some block →
        EncodesBlock E s data rv (qm * (nofEBits / qm / s.c)) (i + j) block := by
  induction n generalizing i with
  | zero => exact ⟨[], rfl, rfl, fun j block h => nomatch h⟩
  | succ n ih =>
    obtain ⟨lut, tail, hlut, hinput, hcrc⟩ :=
      tcodEncodeLut_even hs hc2 hdata (show i < s.c by omega) E qm nofEBits
    have hrest : ∃ blocks, E.encodeLoop s rv data
          ((List.range n).map fun j => s.evenBlock qm nofEBits (i + 1 + j)) (i + 1) lut.crcTb =
            some blocks ∧ blocks.length = n ∧
        ∀ j block, blocks[j]? = some block →
          EncodesBlock E s data rv (qm * (nofEBits / qm / s.c)) (i + 1 + j) block := by
      rcases Nat.eq_zero_or_pos n with rfl | hn
      · exact ⟨[], rfl, rfl, fun j block h => nomatch h⟩
      · rw [hcrc (by omega)]
        exact ih (by omega)
    obtain ⟨blocks, hrun, hlen, hblocks⟩ := hrest
    have hshift : ((List.range (n + 1)).map fun j => s.evenBlock qm nofEBits (i + j)) =
        s.evenBlock qm nofEBits i ::
          (List.range n).map fun j => s.evenBlock qm nofEBits (i + 1 + j) := by
      rw [List.range_succ_eq_map, List.map_cons, List.map_map]
      refine congrArg (s.evenBlock qm nofEBits i :: ·) (List.map_congr_left fun j _ => ?_)
      rw [Function.comp_apply, Nat.succ_eq_add_one, Nat.add_assoc i 1 j, Nat.add_comm 1 j]
    refine ⟨(lut, E.rmTurboTx i s.k1Idx lut.input lut.parity (qm * (nofEBits / qm / s.c)) rv) ::
      blocks, ?_, congrArg (· + 1) hlen, fun j block hj => ?_⟩
    · rw [hshift, SchEnv.encodeLoop]
      exact Option.bind_eq_some_iff.mpr ⟨lut, hlut, Option.map_eq_some_iff.mpr ⟨blocks, hrun, rfl⟩⟩
    · cases j with
      | zero =>
        obtain rfl := Option.some_injective _ hj
        exact ⟨⟨tail, hinput⟩, rfl⟩
      | succ j =>
        rw [show i + (j + 1) = i + 1 + j by omega]
        exact hblocks j block hj

theorem exists_encodeLoop {α : Type*} (E : SchEnv α) (s : Cbsegm) (rv : ℕ) (data : Bytes)
    {bs : List CodeBlock} (hbs : ∀ b ∈ bs, ∃ k, cbsegmCbsize b.cbLenIdx = some k) (i crcTb : ℕ) :
    ∃ blocks, E.encodeLoop s rv data bs i crcTb = some blocks := by
  induction bs generalizing i crcTb with
  | nil => exact ⟨[], rfl⟩
  | cons b bs ih =>
    obtain ⟨k, hk⟩ := hbs b List.mem_cons_self
    have hlut := tcodEncodeLut_eq E.sse Crc.crcTb crcTb (cbCrc s) (cbIn s data i b)
      (decide (¬ i < s.c - 1)) hk
    obtain ⟨blocks, hrun⟩ := ih (List.forall_mem_cons.mp hbs).2 (i + 1) _
    exact ⟨_, Option.bind_eq_some_iff.mpr ⟨_, hlut, Option.map_eq_some_iff.mpr ⟨blocks, hrun, rfl⟩⟩⟩

theorem exists_encodeTbOff {α : Type*} (E : SchEnv α) {s : Cbsegm} (hs : s.Exact) (hf : s.f = 0)
    (qm rv nofEBits : ℕ) {maxCb : ℕ} (hmax : s.c ≤ maxCb) (data : Bytes) :
    ∃ blocks, E.encodeTbOff s qm rv nofEBits maxCb data = some blocks := by
  unfold encodeTbOff
  rw [if_neg (not_not.mpr hf), if_neg (Nat.not_lt.mpr hmax)]
  refine exists_encodeLoop E s rv data (fun b hb => ?_) 0 0
  obtain ⟨k, hk⟩ := List.mem_iff_getElem?.mp hb
  have hlt : k < s.c := by
    rw [← Cbsegm.length_encodeBlocks (s := s) s.c 0 0 0]
    exact (List.getElem?_eq_some_iff.mp hk).1
  obtain ⟨rp, wp, hblock⟩ : ∃ rp wp, (s.encodeBlocks qm nofEBits s.c 0 0 0)[k]? =
      some (s.encodeBlock qm nofEBits (0 + k) rp wp) := Cbsegm.getElem?_encodeBlocks hlt 0 0 0
  obtain rfl := Option.some_injective _ (hk.symm.trans hblock)
  unfold Cbsegm.encodeBlock
  dsimp only
  split_ifs with hc2
  · exact ⟨_, hs.size2 (by omega)⟩
  · exact ⟨_, hs.size1⟩

theorem flatMap_slice {α β : Type*} {f : α → List β} {l : List α} {n i : ℕ} {a : α}
    (hf : ∀ b ∈ l, (f b).length = n) (hi : l[i]? = some a) :
    ((l.flatMap f).drop (i * n)).take n = f a := by
  induction l generalizing i with
  | nil => exact nomatch hi
  | cons b l ih =>
    have hb : (f b).length = n := hf b List.mem_cons_self
    rw [List.flatMap_cons]
    cases i with
    | zero =>
      obtain rfl := Option.some_injective _ hi
      rw [Nat.zero_mul, List.drop_zero, List.take_append_of_le_length hb.ge,
        List.take_of_length_le hb.le]
    | succ i =>
      rw [Nat.succ_mul, Nat.add_comm, ← List.drop_drop, ← hb, List.drop_left, hb]
      exact ih (List.forall_mem_cons.mp hf).2 hi

section Memory

variable {mem : ℕ → UInt8} {pos n : ℕ} {f g : ℕ → UInt8}

theorem readOctets_writeOctets :
    readOctets (writeOctets mem pos n f) pos n = (List.range n).map f := by
  refine List.map_congr_left fun j hj => ?_
  have hj := List.mem_range.mp hj
  unfold writeOctets
  rw [if_pos ⟨by omega, by omega⟩, Nat.add_sub_cancel_left]

theorem writeOctets_writeOctets :
    writeOctets (writeOctets mem pos n f) pos n g = writeOctets mem pos n g := by
  funext j
  unfold writeOctets
  split_ifs <;> rfl

theorem decodeIterations_spec {crc : Crc} {cbLen lenCrc left it k : ℕ} {output : ℕ → ℕ → UInt8}
    (hlen : lenCrc / 8 = cbLen / 8) (hit : it ≤ k) (hleft : k < it + left)
    (hok : crc.checksumByte ((List.range (cbLen / 8)).map (output k)) lenCrc = 0)
    (hbefore : ∀ m, it ≤ m → m < k →
      crc.checksumByte ((List.range (cbLen / 8)).map (output m)) lenCrc ≠ 0) :
    decodeIterations crc pos cbLen lenCrc output left it mem =
      (writeOctets mem pos (cbLen / 8) (output k), true) := by
  induction left generalizing it mem with
  | zero => omega
  | succ left ih =>
    rw [decodeIterations, hlen, readOctets_writeOctets]
    rcases Nat.eq_or_lt_of_le hit with rfl | hlt
    · rw [if_pos hok]
    · rw [if_neg (hbefore it (Nat.le_refl it) hlt),
        ih hlt (by omega) (fun m hm => hbefore m (by omega)), writeOctets_writeOctets]

end Memory

/-- The turbo decoder returns the encoded bits: in one of its iterations it writes the octets of the
block that the encoder made, and none before that has its checksum by chance. -/
def TurboReturns {α : Type*} (E : SchEnv α) (s : Cbsegm) (qm rv nofEBits : ℕ) (soft : Bool → α)
    (blocks : List (TcodLutEncoded × List Bool)) : Prop :=
  ∀ (i : ℕ) (b : CodeBlock) (lut : TcodLutEncoded) (bits : List Bool),
    (s.encodeBlocks qm nofEBits s.c 0 0 0)[i]? = some b → blocks[i]? = some (lut, bits) →
    ∃ k < E.maxIterations - 1 + 1,
      (∀ j < b.cbLen / 8,
        E.tdecIteration i b.cbLenIdx rv (bits.map soft) k j = lut.input.getD j 0) ∧
      ∀ m < k, (if s.c > 1 then Crc.crcCb else Crc.crcTb).checksumByte
        ((List.range (b.cbLen / 8)).map (E.tdecIteration i b.cbLenIdx rv (bits.map soft) m))
        (if s.c > 1 then b.cbLen else s.tbs + 24) ≠ 0

/-- What the buffer keeps of blocks decoded before is their part of the transport block. -/
def SoftbufferRx.Keeps (buffer : SoftbufferRx) (s : Cbsegm) (qm nofEBits : ℕ) (data : Bytes) :
    Prop :=
  ∀ i b, (s.encodeBlocks qm nofEBits s.c 0 0 0)[i]? = some b → buffer.cbCrc i = true →
    ∀ j < b.rlen / 8, buffer.data i j = (transportOctets data).getD (b.rp / 8 + j) 0

theorem crcTb_octets (checksum : ℕ) (h : checksum < 2 ^ 24) :
    ((Crc.crcTb.octets checksum).getD 0 0).toNat * 2 ^ 16 +
        ((Crc.crcTb.octets checksum).getD 1 0).toNat * 2 ^ 8 +
      ((Crc.crcTb.octets checksum).getD 2 0).toNat = checksum := by
  have hoctets : Crc.crcTb.octets checksum =
      [UInt8.ofNat (checksum / 2 ^ 16 % 2 ^ 8), UInt8.ofNat (checksum / 2 ^ 8 % 2 ^ 8),
        UInt8.ofNat (checksum / 2 ^ 0 % 2 ^ 8)] := rfl
  rw [hoctets]
  simp only [List.getD_cons_zero, List.getD_cons_succ, UInt8.toNat_ofNat', Nat.mod_mod]
  omega

section Decoder

variable {α : Type*} {E : SchEnv α} {s : Cbsegm} {qm rv nofEBits : ℕ} {soft : Bool → α}
  {data : Bytes} {blocks : List (TcodLutEncoded × List Bool)} {buffer : SoftbufferRx} {i : ℕ}
  {st : (ℕ → UInt8) × (ℕ → Bool)}

/-- The first `i` blocks are there, and the flags of the others are as they were. -/
structure DecodedTo (s : Cbsegm) (data : Bytes) (buffer : SoftbufferRx) (i : ℕ)
    (st : (ℕ → UInt8) × (ℕ → Bool)) : Prop where
  octets : ∀ j < i * s.blockSize, st.1 j = (transportOctets data).getD j 0
  done : ∀ k < i, st.2 k = true
  rest : ∀ k, i ≤ k → st.2 k = buffer.cbCrc k

theorem DecodedTo.write (h : DecodedTo s data buffer i st) {n : ℕ} {f : ℕ → UInt8}
    (hn : s.blockSize ≤ n)
    (hf : ∀ j < s.blockSize, f j = (transportOctets data).getD (i * s.blockSize + j) 0) :
    ∀ j < (i + 1) * s.blockSize,
      writeOctets st.1 (i * s.blockSize) n f j = (transportOctets data).getD j 0 := by
  intro j hj
  rw [Nat.succ_mul] at hj
  unfold writeOctets
  rcases Nat.lt_or_ge j (i * s.blockSize) with hlt | hge
  · rw [if_neg (by omega)]
    exact h.octets j hlt
  · obtain ⟨k, rfl⟩ := Nat.exists_eq_add_of_le hge
    rw [if_pos ⟨hge, by omega⟩, Nat.add_sub_cancel_left]
    exact hf k (by omega)

theorem getD_blockOctets {j : ℕ} (hj : j < s.blockSize) :
    (s.blockOctets data i).getD j 0 = (transportOctets data).getD (i * s.blockSize + j) 0 := by
  unfold Cbsegm.blockOctets
  rw [List.getD_eq_getElem?_getD, List.getElem?_take_of_lt hj, List.getElem?_drop,
    ← List.getD_eq_getElem?_getD]

variable (hs : s.Exact) (hc2 : s.c2 = 0) (hgamma : nofEBits / qm % s.c = 0)
  (hdata : data.length = s.tbs / 8)

include hs hc2 hgamma hdata

omit hs hc2 hgamma hdata in
theorem eBits_slice {nE : ℕ} {lut : TcodLutEncoded} {bits : List Bool}
    (hblocks : ∀ j block, blocks[j]? = some block → EncodesBlock E s data rv nE j block)
    (hi : blocks[i]? = some (lut, bits)) :
    (((SchEnv.eBits blocks).map soft).drop (i * nE)).take nE = bits.map soft := by
  have hlength : ∀ block ∈ blocks, block.2.length = nE := by
    intro block hblock
    obtain ⟨j, hj⟩ := List.mem_iff_getElem?.mp hblock
    rw [(hblocks j block hj).2]
    exact E.length_rmTurboTx _ _ _ _ _ _
  rw [← List.map_drop, ← List.map_take]
  exact congrArg (List.map soft) (flatMap_slice hlength hi)

omit hgamma in
theorem evenBlock_rp : (s.evenBlock qm nofEBits i).rp / 8 = i * s.blockSize := by
  obtain ⟨-, -, -, hsize, -⟩ := blockSize_spec hs hc2 hdata
  change i * (if s.c = 1 then s.k1 else s.k1 - 24) / 8 = _
  rw [← hsize, Nat.mul_left_comm, Nat.mul_div_cancel_left _ (by decide)]

theorem decodeCb_stored (hi : i < s.c) (eBits : List α) (stored : ℕ → ℕ → UInt8)
    (hflag : st.2 i = true) :
    E.decodeCb s qm rv nofEBits eBits stored st i =
      (writeOctets st.1 (i * s.blockSize) s.blockSize (stored i), st.2) := by
  have hpos : (s.evenBlock qm nofEBits i).rp / 8 = i * s.blockSize := evenBlock_rp hs hc2 hdata
  unfold decodeCb
  rw [Cbsegm.decodeBlock_even hs hc2 hgamma hi, hflag]
  exact congrArg (fun pos => (writeOctets st.1 pos s.blockSize (stored i), st.2)) hpos

theorem decodeCb_decoded (hi : i < s.c) (eBits : List α) (stored : ℕ → ℕ → UInt8)
    (hflag : st.2 i = false) {k : ℕ} {output : ℕ → ℕ → UInt8}
    (houtput : E.tdecIteration i s.k1Idx rv ((eBits.drop (i * (qm * (nofEBits / qm / s.c)))).take
      (qm * (nofEBits / qm / s.c))) = output)
    (hk : k < E.maxIterations - 1 + 1)
    (hok : (List.range (s.k1 / 8)).map (output k) = s.blockOctets data i ++
      cbOctets (cbCrc s) (s.blockOctets data i))
    (hbefore : ∀ m < k, (if s.c > 1 then Crc.crcCb else Crc.crcTb).checksumByte
      ((List.range (s.k1 / 8)).map (output m)) (if s.c > 1 then s.k1 else s.tbs + 24) ≠ 0) :
    E.decodeCb s qm rv nofEBits eBits stored st i =
      (writeOctets st.1 (i * s.blockSize) (s.k1 / 8) (output k),
        Function.update st.2 i true) := by
  obtain ⟨hfill, htbs, hthree, hsize, hk1⟩ := blockSize_spec hs hc2 hdata
  have hpos : (s.evenBlock qm nofEBits i).rp / 8 = i * s.blockSize := evenBlock_rp hs hc2 hdata
  have hcheck := checksumByte_codeOctets hs hc2 hdata hi
  rw [← hok] at hcheck
  have hlen : (if s.c > 1 then s.k1 else s.tbs + 24) / 8 = s.k1 / 8 := by
    by_cases hc : s.c > 1
    · rw [if_pos hc]
    · have hone : s.c = 1 := by
        have := hs.c_pos
        omega
      rw [if_pos hone] at hk1
      rw [hone] at hfill
      rw [if_neg hc]
      omega
  have hrun : decodeIterations (if s.c > 1 then Crc.crcCb else Crc.crcTb) (i * s.blockSize) s.k1
      (if s.c > 1 then s.k1 else s.tbs + 24) output (E.maxIterations - 1 + 1) 0 st.1 =
      (writeOctets st.1 (i * s.blockSize) (s.k1 / 8) (output k), true) :=
    decodeIterations_spec hlen (Nat.zero_le k) (by omega) hcheck fun m _ hm => hbefore m hm
  subst houtput
  rw [← hpos] at hrun ⊢
  unfold decodeCb
  rw [Cbsegm.decodeBlock_even hs hc2 hgamma hi, hflag]
  dsimp only
  rw [if_pos rfl]
  exact congrArg (fun r : (ℕ → UInt8) × Bool =>
    (r.1, if r.2 = true then Function.update st.2 i true else st.2)) hrun

variable (hblocks : ∀ j block, blocks[j]? = some block →
    EncodesBlock E s data rv (qm * (nofEBits / qm / s.c)) j block)
  (hlen : blocks.length = s.c) (hturbo : TurboReturns E s qm rv nofEBits soft blocks)
  (hbuffer : buffer.Keeps s qm nofEBits data)

include hblocks hlen hturbo hbuffer

theorem decodeCb_even (hi : i < s.c) (h : DecodedTo s data buffer i st) :
    DecodedTo s data buffer (i + 1)
      (E.decodeCb s qm rv nofEBits ((SchEnv.eBits blocks).map soft) buffer.data st i) := by
  have hblock := Cbsegm.getElem?_encodeBlocks_even hs hc2 hgamma hi
  cases hflag : st.2 i with
  | true =>
    have hkept := hbuffer i _ hblock ((h.rest i (Nat.le_refl i)).symm.trans hflag)
    have hpos : (s.evenBlock qm nofEBits i).rp / 8 = i * s.blockSize := evenBlock_rp hs hc2 hdata
    rw [hpos] at hkept
    rw [decodeCb_stored hs hc2 hgamma hdata hi _ _ hflag]
    refine ⟨h.write (Nat.le_refl _) hkept, fun k hk => ?_, fun k hk => h.rest k (by omega)⟩
    rcases Nat.lt_succ_iff_lt_or_eq.mp hk with hlt | rfl
    · exact h.done k hlt
    · exact hflag
  | false =>
    obtain ⟨⟨lut, bits⟩, hget⟩ : ∃ block, blocks[i]? = some block :=
      ⟨_, List.getElem?_eq_getElem (by rw [hlen]; exact hi)⟩
    obtain ⟨k, hk, houtput, hbefore⟩ := hturbo i _ lut bits hblock hget
    obtain ⟨⟨tail, hinput⟩, -⟩ := hblocks i _ hget
    obtain ⟨hsize, hcode⟩ := length_codeOctets hs hc2 hdata hi
    have hgetD : ∀ j < s.k1 / 8, E.tdecIteration i s.k1Idx rv (bits.map soft) k j =
        (s.blockOctets data i ++ cbOctets (cbCrc s) (s.blockOctets data i)).getD j 0 := by
      intro j hj
      refine (houtput j hj).trans ?_
      rw [hinput, List.getD_append _ _ _ _ (by rw [hcode]; exact hj)]
    have hok : (List.range (s.k1 / 8)).map (E.tdecIteration i s.k1Idx rv (bits.map soft) k) =
        s.blockOctets data i ++ cbOctets (cbCrc s) (s.blockOctets data i) := by
      refine List.ext_getElem (by rw [List.length_map, List.length_range, hcode]) ?_
      intro j hj hj'
      rw [List.getElem_map, List.getElem_range, hgetD j (by rwa [hcode] at hj'),
        List.getD_eq_getElem _ _ hj']
    rw [decodeCb_decoded hs hc2 hgamma hdata hi _ _ hflag
      (congrArg (E.tdecIteration i s.k1Idx rv) (eBits_slice hblocks hget)) hk hok hbefore]
    have hle : s.blockSize ≤ s.k1 / 8 := by
      rw [← hcode, List.length_append, hsize]
      exact Nat.le_add_right _ _
    refine ⟨h.write hle fun j hj => ?_, fun j hj => ?_, fun j hj => ?_⟩
    · rw [hgetD j (by omega), List.getD_append _ _ _ _ (by rw [hsize]; exact hj),
        getD_blockOctets hj]
    · rcases Nat.lt_succ_iff_lt_or_eq.mp hj with hlt | rfl
      · exact (Function.update_of_ne hlt.ne _ _).trans (h.done j hlt)
      · exact Function.update_self ..
    · have hne : j ≠ i := by omega
      exact (Function.update_of_ne hne _ _).trans (h.rest j (by omega))

theorem decodeLoop_even {n : ℕ} (hn : n ≤ s.c) (mem : ℕ → UInt8) :
    DecodedTo s data buffer n ((List.range n).foldl
      (E.decodeCb s qm rv nofEBits ((SchEnv.eBits blocks).map soft) buffer.data)
      (mem, buffer.cbCrc)) := by
  induction n with
  | zero =>
    refine ⟨fun j hj => ?_, fun k hk => absurd hk (Nat.not_lt_zero k), fun _ _ => rfl⟩
    rw [Nat.zero_mul] at hj
    exact absurd hj (Nat.not_lt_zero j)
  | succ n ih =>
    rw [List.range_succ, List.foldl_append]
    exact decodeCb_even hs hc2 hgamma hdata hblocks hlen hturbo hbuffer hn (ih (by omega))

theorem decodeTbCb_even (hc : s.c ≤ 32) (mem : ℕ → UInt8) :
    (E.decodeTbCb s qm rv nofEBits ((SchEnv.eBits blocks).map soft) buffer mem).2.2 = true ∧
      ∀ j < data.length + 3,
        (E.decodeTbCb s qm rv nofEBits ((SchEnv.eBits blocks).map soft) buffer mem).1 j =
          (transportOctets data).getD j 0 := by
  obtain ⟨hfill, -⟩ := blockSize_spec hs hc2 hdata
  have hloop := decodeLoop_even hs hc2 hgamma hdata hblocks hlen hturbo hbuffer (le_refl s.c) mem
  unfold SchEnv.decodeTbCb
  rw [if_neg (by omega)]
  refine ⟨?_, fun j hj => hloop.octets j (by rw [hfill]; exact hj)⟩
  exact List.all_eq_true.mpr fun k hk => hloop.done k (List.mem_range.mp hk)

theorem decodeTb_even (hf : s.f = 0) (htbs : s.tbs ≠ 0) (hc : s.c ≤ 32)
    (hmax : s.c ≤ buffer.maxCb) (mem : ℕ → UInt8) :
    ((E.decodeTb s qm rv nofEBits ((SchEnv.eBits blocks).map soft) buffer mem).1 = true ↔
        Crc.crcTb.checksumByte data s.tbs ≠ 0) ∧
      readOctets (E.decodeTb s qm rv nofEBits ((SchEnv.eBits blocks).map soft) buffer mem).2 0
        (s.tbs / 8) = data := by
  obtain ⟨hok, hmem⟩ := decodeTbCb_even hs hc2 hgamma hdata hblocks hlen hturbo hbuffer hc
    (writeOctets mem (s.tbs / 8) 3 fun _ => 0)
  have hread : readOctets (E.decodeTbCb s qm rv nofEBits ((SchEnv.eBits blocks).map soft) buffer
      (writeOctets mem (s.tbs / 8) 3 fun _ => 0)).1 0 (s.tbs / 8) = data := by
    refine List.ext_getElem (by rw [readOctets, List.length_map, List.length_range, hdata]) ?_
    intro j hj hj'
    simp only [readOctets, List.getElem_map, List.getElem_range, Nat.zero_add]
    rw [hmem j (by omega)]
    unfold transportOctets
    rw [List.getD_append _ _ _ _ hj', List.getD_eq_getElem _ _ hj']
  have hcrc : Crc.crcTb.checksumByte data s.tbs =
      Crc.crcTb.checksumGet (data.foldl Crc.crcTb.putByte 0) := by
    unfold Crc.checksumByte
    rw [List.take_of_length_le hdata.le]
  have htail : ∀ j < 3, (E.decodeTbCb s qm rv nofEBits ((SchEnv.eBits blocks).map soft) buffer
      (writeOctets mem (s.tbs / 8) 3 fun _ => 0)).1 (s.tbs / 8 + j) =
        (Crc.crcTb.octets (Crc.crcTb.checksumByte data s.tbs)).getD j 0 := by
    intro j hj
    rw [hmem _ (by omega), hcrc]
    unfold transportOctets
    rw [List.getD_append_right _ _ _ _ (by omega), ← hdata, Nat.add_sub_cancel_left]
  have hlt : Crc.crcTb.checksumByte data s.tbs < 2 ^ 24 := Nat.mod_lt _ (Nat.two_pow_pos 24)
  have hpar := crcTb_octets _ hlt
  rw [← htail 0 (by decide), ← htail 1 (by decide), ← htail 2 (by decide)] at hpar
  unfold SchEnv.decodeTb
  rw [if_neg (not_or.mpr ⟨htbs, hs.c_pos.ne'⟩), if_neg (not_not.mpr hf),
    if_neg (Nat.not_lt.mpr hmax)]
  dsimp only
  rw [if_pos hok]
  refine ⟨?_, hread⟩
  dsimp only
  rw [hread, decide_eq_true_iff]
  exact and_iff_right hpar.symm

end Decoder

/-- Both sides have every block at the same place, and the decoder finds the transport block. -/
structure SchAgrees {α : Type*} (E : SchEnv α) (s : Cbsegm) (qm rv nofEBits : ℕ) (eBits : List α)
    (buffer : SoftbufferRx) (mem : ℕ → UInt8) (data : Bytes) : Prop where
  blocks : ∀ i < s.c,
    (s.encodeBlocks qm nofEBits s.c 0 0 0)[i]? = some (s.decodeBlock qm nofEBits i)
  success : (E.decodeTb s qm rv nofEBits eBits buffer mem).1 = true
  recovered : readOctets (E.decodeTb s qm rv nofEBits eBits buffer mem).2 0 (s.tbs / 8) = data

/-- Without filler bits, encoder and decoder agree if the blocks are of one size, the symbols divide
evenly among them, and the checksum of the transport block is not zero. -/
theorem sch_agrees_iff {α : Type*} (E : SchEnv α) (soft : Bool → α) (tbs : ℕ) (s : Cbsegm)
    (qm rv nofEBits maxCb : ℕ) (buffer : SoftbufferRx) (mem : ℕ → UInt8) (data : Bytes)
    (hseg : srslteCbsegm tbs = some s) (htbs : tbs ≠ 0) (hf : s.f = 0)
    (hqm : 0 < qm) (hbits : nofEBits / qm < 2 ^ 18)
    (htx : s.c ≤ maxCb) (hrx : s.c ≤ buffer.maxCb) (hc : s.c ≤ 32)
    (hdata : data.length = tbs / 8) (hbuffer : buffer.Keeps s qm nofEBits data) :
    ∃ blocks, E.encodeTbOff s qm rv nofEBits maxCb data = some blocks ∧
      (TurboReturns E s qm rv nofEBits soft blocks →
        (SchAgrees E s qm rv nofEBits ((SchEnv.eBits blocks).map soft) buffer mem data ↔
          s.c2 = 0 ∧ nofEBits / qm % s.c = 0 ∧ Crc.crcTb.checksumByte data tbs ≠ 0)) := by
  obtain ⟨hs, rfl⟩ := cbsegm_exact hseg htbs hf
  obtain ⟨blocks, henc⟩ := exists_encodeTbOff E hs hf qm rv nofEBits htx data
  refine ⟨blocks, henc, fun hturbo => ?_⟩
  have hlayout := Cbsegm.blocks_agree_iff hs hqm hbits hc
  have hdecode : s.c2 = 0 → nofEBits / qm % s.c = 0 →
      ((E.decodeTb s qm rv nofEBits ((SchEnv.eBits blocks).map soft) buffer mem).1 = true ↔
          Crc.crcTb.checksumByte data s.tbs ≠ 0) ∧
        readOctets (E.decodeTb s qm rv nofEBits ((SchEnv.eBits blocks).map soft) buffer mem).2 0
          (s.tbs / 8) = data := by
    intro hc2 hgamma
    obtain ⟨blocks', hrun, hlen, heven⟩ :=
      encodeLoop_even hs hc2 hdata E qm rv nofEBits (Nat.zero_add s.c)
    have hblocks : s.encodeBlocks qm nofEBits s.c 0 0 0 =
        (List.range s.c).map fun j => s.evenBlock qm nofEBits (0 + j) := by
      have h := Cbsegm.encodeBlocks_even hs hc2 hgamma (Nat.zero_add s.c).le
      rwa [show (s.evenBlock qm nofEBits 0).rp = 0 from Nat.zero_mul _,
        show (s.evenBlock qm nofEBits 0).wp = 0 from Nat.zero_mul _] at h
    obtain rfl : blocks' = blocks := by
      unfold encodeTbOff at henc
      split_ifs at henc
      rw [hblocks] at henc
      rw [Nat.zero_mul] at hrun
      exact Option.some_injective _ (hrun.symm.trans henc)
    refine decodeTb_even hs hc2 hgamma hdata (fun j block hj => ?_) hlen hturbo hbuffer hf htbs
      hc hrx mem
    have heven := heven j block hj
    rwa [Nat.zero_add] at heven
  constructor
  · intro h
    obtain ⟨hc2, hgamma⟩ := hlayout.mp h.blocks
    exact ⟨hc2, hgamma, (hdecode hc2 hgamma).1.mp h.success⟩
  · rintro ⟨hc2, hgamma, hcrc⟩
    obtain ⟨hiff, hread⟩ := hdecode hc2 hgamma
    exact ⟨hlayout.mpr ⟨hc2, hgamma⟩, hiff.mpr hcrc, hread⟩

def plainSch : SchEnv Bool where
  sse := true
  rmTurboTx _ _ systematic _ nE _ := (List.range nE).map (OctetBits.bitAt systematic)
  length_rmTurboTx _ _ _ _ nE _ := by rw [List.length_map, List.length_range]
  tdecIteration _ _ _ soft _ j := OctetBits.pack fun b => soft.getD (8 * j + b) false
  maxIterations := 4

/-- Two octets in one code block. -/
theorem sch_agrees_short : ∃ blocks,
    plainSch.encodeTbOff ⟨0, 1, 40, 0, 0, 0, 1, 0, 16⟩ 2 0 80 13 [0x12, 0x34] = some blocks ∧
      SchAgrees plainSch ⟨0, 1, 40, 0, 0, 0, 1, 0, 16⟩ 2 0 80 ((SchEnv.eBits blocks).map id)
        ⟨13, fun _ => false, fun _ _ => 0⟩ (fun _ => 0xFF) [0x12, 0x34] := by
  obtain ⟨blocks, henc, hiff⟩ := sch_agrees_iff plainSch id 16 ⟨0, 1, 40, 0, 0, 0, 1, 0, 16⟩ 2 0 80
    13 ⟨13, fun _ => false, fun _ _ => 0⟩ (fun _ => 0xFF) [0x12, 0x34] (by decide +kernel)
    (by decide) rfl (by decide) (by decide) (by decide) (by decide) (by decide) rfl
    (fun _ _ _ h => nomatch h)
  refine ⟨blocks, henc, (hiff fun i b lut bits hb hget => ?_).mpr ⟨rfl, rfl, by decide +kernel⟩⟩
  have hsize : ∀ b ∈ Cbsegm.encodeBlocks ⟨0, 1, 40, 0, 0, 0, 1, 0, 16⟩ 2 80 1 0 0 0,
      b.cbLen = 40 := by
    decide
  have hread : ∀ block ∈ (plainSch.encodeTbOff ⟨0, 1, 40, 0, 0, 0, 1, 0, 16⟩ 2 0 80 13
      [0x12, 0x34]).getD [], ∀ j < 5,
        OctetBits.pack (fun b => block.2.getD (8 * j + b) false) = block.1.input.getD j 0 := by
    decide +kernel
  rw [henc] at hread
  refine ⟨0, by decide, fun j hj => ?_, fun m hm => absurd hm (Nat.not_lt_zero m)⟩
  rw [hsize b (List.mem_of_getElem? hb)] at hj
  rw [List.map_id]
  exact hread _ (List.mem_of_getElem? hget) j hj

/-- One symbol more than the blocks divide evenly: the second block of two is longer in the encoder
only. Blocks of 3072 and 3136 bits: they come in another order. Zeros: the checksum is zero. -/
theorem sch_disagrees :
    (∃ s, srslteCbsegm 6456 = some s ∧ s.f = 0 ∧
      (s.encodeBlocks 2 12002 s.c 0 0 0)[1]? ≠ some (s.decodeBlock 2 12002 1)) ∧
    (∃ s, srslteCbsegm 6136 = some s ∧ s.f = 0 ∧
      (s.encodeBlocks 2 12000 s.c 0 0 0)[0]? ≠ some (s.decodeBlock 2 12000 0)) ∧
    ∃ s blocks, srslteCbsegm 16 = some s ∧ s.f = 0 ∧
      plainSch.encodeTbOff s 2 0 80 13 [0, 0] = some blocks ∧
      (plainSch.decodeTb s 2 0 80 ((SchEnv.eBits blocks).map id)
        ⟨13, fun _ => false, fun _ _ => 0⟩ fun _ => 0).1 = false := by
  refine ⟨⟨_, rfl, by decide +kernel, by decide +kernel⟩,
    ⟨_, rfl, by decide +kernel, by decide +kernel⟩, ⟨0, 1, 40, 0, 0, 0, 1, 0, 16⟩, _,
    by decide +kernel, rfl, rfl, by decide +kernel⟩

end SrsLte
