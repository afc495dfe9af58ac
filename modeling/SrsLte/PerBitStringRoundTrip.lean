import SrsLte.PerBitStringCount
import SrsLte.PerBitStringNumbers
import SrsLte.PerIntegerRoundTrip

/-!
# When a bit string survives

A packed bit string is unpacked as it was exactly when the decoder reads the length prefix as the
encoder wrote it. Each form of the prefix has its own condition.
-/

namespace SrsLte

open BitField BitRef BitStringClass

variable {c : BitStringClass} {b p cur : BitRef} {s : Asn1BitString} {n len : ℕ} {mem : Memory}

/-- The string is packed, and what is packed is unpacked bit by bit, by a cursor that ends where
the packing cursor ended. -/
def RoundTrips (c : BitStringClass) (b : BitRef) (s : Asn1BitString) : Prop :=
  (c.pack b s).2 = true ∧ ∀ nbits s₀,
    let r := c.unpack nbits s₀ (b.withMem (c.pack b s).1.mem)
    r.ok = true ∧ r.cur = (c.pack b s).1 ∧ r.val.nofBits = s.nofBits ∧
      ∀ i < s.nofBits, r.val.get i = s.get i

theorem BitStringClass.Carries.lt (h : c.Bounds) (hc : c.Carries b n cur) : n < 2 ^ 32 := by
  have hle := h.le
  have hmax := h.le_max
  unfold noUpperBound at hmax
  obtain ⟨-, hform⟩ := hc
  split_ifs at hform
  · obtain ⟨-, bits, ⟨-, hfield⟩, -⟩ := hform
    unfold LengthField at hfield
    omega
  · omega
  · obtain ⟨-, hn, -⟩ := hform
    omega

theorem mem_numberField {e : BitRef} {ra : ℕ} {aligned : Bool} :
    (numberField e ra aligned).1.mem = e.mem := by
  unfold numberField
  dsimp only
  split_ifs <;> rfl

theorem max_numberField {e : BitRef} {ra : ℕ} {aligned : Bool} :
    (numberField e ra aligned).1.max = e.max := by
  unfold numberField
  dsimp only
  split_ifs <;> rfl

theorem max_entry {e : BitRef} {aligned : Bool} : (e.entry aligned).max = e.max := by
  cases aligned <;> rfl

theorem BitStringClass.Carries.same_buffer (hc : c.Carries b n cur) :
    cur.mem = b.mem ∧ cur.max = b.max := by
  obtain ⟨-, hform⟩ := hc
  split_ifs at hform
  · obtain ⟨-, bits, -, rfl⟩ := hform
    rw [mem_advance, max_advance, mem_entry, max_entry]
    exact ⟨mem_afterExt, max_afterExt⟩
  · rw [hform.2]
    exact ⟨mem_afterExt, max_afterExt⟩
  · obtain ⟨-, -, -, rfl⟩ := hform
    rw [mem_advance, max_advance, mem_numberField, max_numberField]
    exact ⟨mem_afterExt, max_afterExt⟩

theorem bitsEntry_same (c : BitStringClass) (cur : BitRef) :
    (c.bitsEntry cur).mem = cur.mem ∧ (c.bitsEntry cur).max = cur.max := by
  unfold bitsEntry alignBytes
  split_ifs <;> exact ⟨rfl, rfl⟩

theorem nofOctets_eq (hsome : nofOctets n ≠ 0) (hlt : n < 2 ^ 32) : nofOctets n = ceilFrac n 8 := by
  unfold nofOctets at hsome ⊢
  unfold ceilFrac
  omega

theorem offset_eq (hn : n ≠ 0) (hlt : n < 2 ^ 32) :
    toUint32 ((n : ℤ) - 1) % 8 + 1 = lastBits n := by
  rw [toUint32_pred hn hlt]
  rfl

/-- Behind a prefix that was packed, the string survives exactly when the message carries its
length and the bits begin where the encoder began them. -/
theorem roundTrips_iff_carries (h : c.Bounds)
    (hlenPrefix : c.packLengthPrefix b s.nofBits = (p, true))
    (hadmitted : (c.lb ≤ s.nofBits ∧ s.nofBits ≤ c.ub) ∨ c.hasExt = true)
    (hmax : p.max = b.max) (hroom : p.Room s.nofBits) (hlen : s.nofBits ≠ 0) :
    ∃ mem, AgreeBelow p.pos p.mem mem ∧
      (RoundTrips c b s ↔ nofOctets s.nofBits ≠ 0 ∧
        ∃ cur, c.Carries (b.withMem mem) s.nofBits cur ∧ (c.bitsEntry cur).pos = p.pos) := by
  obtain ⟨mem, hpack, hagree, hstring⟩ :=
    packCommonBitstring_spec s.octets hlen hroom
  have hrun : c.pack b s = ((p.advance s.nofBits).withMem mem, true) := by
    have hin : ¬((s.nofBits < c.lb ∨ s.nofBits > c.ub) ∧ ¬c.hasExt) := by
      rintro ⟨hout, hext⟩
      rcases hadmitted with hwithin | hhas
      · omega
      · exact hext hhas
    rw [BitStringClass.pack, if_neg hin, hlenPrefix, handleCode_true, hpack]
  refine ⟨mem, hagree, ?_⟩
  unfold RoundTrips
  rw [hrun]
  dsimp only
  rw [mem_withMem, and_iff_right rfl]
  constructor
  · intro hall
    have hround := hall 0
    have hok := (hround ⟨fun _ => 0, 0⟩).1
    obtain ⟨n, cur, hc⟩ := carries_of_ok h (unpacked_handleCode_ok.mp hok).1
    have hunpack := fun s₀ => @unpack_of_carries c _ cur n 0 s₀ h hc
    simp only [hunpack] at hround
    obtain rfl : n = s.nofBits := (hround ⟨fun _ => 0, 0⟩).2.2.1
    have hlt := hc.lt h
    have hsome : nofOctets s.nofBits ≠ 0 := by
      intro hnone
      -- without octets the first bit is what stood in the string before
      have hkept : ∀ s₀ : Asn1BitString, (⟨s₀.octets, 0⟩ : Asn1BitString).get 0 = s.get 0 := by
        intro s₀
        have hget := (hround s₀).2.2.2 0 (Nat.pos_of_ne_zero hlen)
        rw [← hget]
        unfold Asn1BitString.get
        dsimp only
        rw [unpackBits_unstored (by unfold Stored; omega)]
        unfold Asn1BitString.resize
        dsimp only
        rw [if_neg (by omega)]
      have hbits := (hkept ⟨fun _ => 0, 0⟩).trans (hkept ⟨fun _ => 1, 0⟩).symm
      exact absurd hbits (by decide)
    refine ⟨hsome, cur, hc, ?_⟩
    obtain ⟨hrok, hcur, -⟩ := hround ⟨fun _ => 0, 0⟩
    rw [nofOctets_eq hsome hlt, offset_eq hlen hlt] at hrok hcur
    have hroom' := unpackBits_ok hrok
    have hocts : ceilFrac s.nofBits 8 ≠ 0 := nofOctets_eq hsome hlt ▸ hsome
    have hsmall : ceilFrac s.nofBits 8 < 2 ^ 32 := by
      unfold ceilFrac
      omega
    rw [unpackBits_spec _ hocts hsmall (lastBits_le _) hroom', lastBits_add hlen] at hcur
    have hpos := congrArg BitRef.pos hcur
    dsimp only at hpos
    rw [pos_advance, pos_withMem, pos_advance] at hpos
    exact Nat.add_right_cancel hpos
  · rintro ⟨hsome, cur, hc, hpos⟩ nbits s₀
    have hlt := hc.lt h
    obtain ⟨hmem, hmax'⟩ := hc.same_buffer
    obtain ⟨hmem', hmax''⟩ := bitsEntry_same c cur
    have hentry : c.bitsEntry cur = p.withMem mem :=
      ext_pos (hmem'.trans hmem) hpos (hmax''.trans (hmax'.trans hmax.symm))
    rw [unpack_of_carries h hc, nofOctets_eq hsome hlt, offset_eq hlen hlt, hentry]
    dsimp only
    have hsum := lastBits_add hlen
    have hocts : ceilFrac s.nofBits 8 ≠ 0 := nofOctets_eq hsome hlt ▸ hsome
    have hsmall : ceilFrac s.nofBits 8 < 2 ^ 32 := by
      unfold ceilFrac
      omega
    have hroom' : (p.withMem mem).Room s.nofBits := hroom
    have hspec := unpackBits_spec (s₀.resize s.nofBits).octets hocts hsmall
      (lastBits_le _) (hsum.symm ▸ hroom')
    refine ⟨by rw [hspec], ?_, rfl, fun i hi => ?_⟩
    · rw [hspec, hsum]
      rfl
    · have hget := get_unpackBits (s₀.resize s.nofBits).octets hlen hsmall hroom'
        hstring hi
      exact hget

theorem afterExt_withMem : c.afterExt (b.withMem mem) = (c.afterExt b).withMem mem := by
  unfold afterExt
  split_ifs <;> rfl

theorem pos_afterExt : (c.afterExt b).pos = b.pos + c.hasExt.toNat := by
  unfold afterExt
  split_ifs with hext
  · rw [pos_advance, hext]
    rfl
  · rw [Bool.not_eq_true] at hext
    rw [hext]
    rfl

theorem packExt (hroom : b.Room 1) (v : Bool) :
    ∃ mem, (if c.hasExt then b.pack v.toNat 1 else (b, true)) =
        ((c.afterExt b).withMem mem, true) ∧
      (c.hasExt = true → field mem b.pos 1 = v.toNat) := by
  unfold afterExt
  split_ifs with hext
  · obtain ⟨mem, hpack, -, hfield⟩ := pack_spec (by decide : 1 < 32) hroom v.toNat
    refine ⟨mem, hpack, fun _ => hfield.trans ?_⟩
    cases v <;> rfl
  · exact ⟨b.mem, rfl, fun h => absurd h hext⟩

theorem unconstrained_withMem {within : Bool} (hadmitted : within = true ∨ c.hasExt = true)
    (hext : c.hasExt = true → field mem b.pos 1 = (!within).toNat) :
    c.Unconstrained (b.withMem mem) ↔ c.ub = noUpperBound ∨ within = false := by
  unfold Unconstrained
  rw [mem_withMem, pos_withMem]
  refine or_congr_right ?_
  cases within with
  | true =>
    refine iff_of_false (fun h => ?_) (fun h => nomatch h)
    rw [hext h.1] at h
    exact absurd h.2 (by decide)
  | false =>
    have hhas := hadmitted.resolve_left (fun h => nomatch h)
    exact iff_of_true ⟨hhas, hext hhas⟩ rfl

theorem pos_padded (b : BitRef) : b.pos + b.padding = octetEnd b.pos := by
  have hoff := b.offset_lt
  have hpos : b.pos = 8 * b.ptr + b.offset := rfl
  unfold padding octetEnd
  omega

theorem pos_le_bitsEntry (c : BitStringClass) (cur : BitRef) :
    cur.pos ≤ (c.bitsEntry cur).pos := by
  unfold bitsEntry
  split_ifs
  · exact (alignBytes_extends cur).1
  · exact Nat.le_refl _

theorem bitsEntry_unaligned (h : ¬(c.isAligned = true ∧ (c.lb ≠ c.ub ∨ c.ub > 16))) :
    c.bitsEntry cur = cur := if_neg h

theorem bitsEntry_pos_iff {x : ℕ} (h : c.isAligned = true ∧ (c.lb ≠ c.ub ∨ c.ub > 16))
    (hx : x % 8 = 0) (hin : x ≤ 8 * cur.max) :
    (c.bitsEntry cur).pos = x ↔ octetEnd cur.pos = x := by
  have hpad := pos_padded cur
  have hoff := cur.offset_lt
  have hpos : cur.pos = 8 * cur.ptr + cur.offset := rfl
  unfold bitsEntry
  rw [if_pos h]
  by_cases hroom : cur.Room cur.padding
  · rw [alignBytes_spec hroom, pos_advance, hpad]
  · unfold alignBytes
    have hne : cur.offset ≠ 0 := fun hzero => hroom (.inl (padding_zero hzero))
    have hptr : ¬cur.ptr < cur.max := fun hlt => hroom ((room_padding hne).mpr hlt)
    rw [if_neg hne, if_pos (by omega)]
    dsimp only
    unfold octetEnd
    omega

theorem fixed_iff (heq : c.lb = c.ub) (hlen : n = c.lb) (hpos : n ≠ 0)
    (hroom : (c.afterExt b).Room n)
    (hext : c.hasExt = true → field mem b.pos 1 = 0) (hroomExt : b.Room 1) :
    (∃ cur, c.Carries (b.withMem mem) n cur ∧
        (c.bitsEntry cur).pos = (c.afterExt b).pos) ↔
      c.ub ≠ noUpperBound ∧ (c.isAligned = true → c.ub ≤ 16 ∨ (c.afterExt b).offset = 0) := by
  have hun := @unconstrained_withMem c b mem true (.inl rfl) hext
  rw [or_iff_left (fun h => nomatch h)] at hun
  have hstart : (c.bitsEntry ((c.afterExt b).withMem mem)).pos = (c.afterExt b).pos ↔
      (c.isAligned = true → c.ub ≤ 16 ∨ (c.afterExt b).offset = 0) := by
    by_cases hal : c.isAligned = true ∧ (c.lb ≠ c.ub ∨ c.ub > 16)
    · have hpos' : (c.afterExt b).pos = 8 * (c.afterExt b).ptr + (c.afterExt b).offset := rfl
      have hoff := (c.afterExt b).offset_lt
      have hlt := ptr_lt_of_room hroom hpos
      unfold bitsEntry
      rw [if_pos hal]
      by_cases hzero : (c.afterExt b).offset = 0
      · have halign :
            ((c.afterExt b).withMem mem).alignBytes = ((c.afterExt b).withMem mem, true) :=
          if_pos hzero
        rw [halign]
        exact iff_of_true rfl fun _ => .inr hzero
      · have hpad : ((c.afterExt b).withMem mem).Room ((c.afterExt b).withMem mem).padding :=
          (room_padding hzero).mpr hlt
        rw [alignBytes_spec hpad, pos_advance, pos_padded]
        refine iff_of_false ?_ ?_
        · rw [pos_withMem]
          unfold octetEnd
          omega
        · intro h
          have hle := h hal.1
          omega
    · rw [bitsEntry_unaligned hal]
      refine iff_of_true rfl fun haligned => .inl ?_
      by_contra hgt
      exact hal ⟨haligned, .inr (Nat.not_le.mp hgt)⟩
  rw [← hstart]
  constructor
  · rintro ⟨cur, ⟨-, hform⟩, hcur⟩
    split_ifs at hform with hunc
    · obtain ⟨-, bits, ⟨-, hfield⟩, -⟩ := hform
      have hmax := hun.mp hunc
      unfold LengthField at hfield
      unfold noUpperBound at hmax
      omega
    · rw [hform.2, afterExt_withMem] at hcur
      exact ⟨fun hmax => hunc (hun.mpr hmax), hcur⟩
  · rintro ⟨hne, hcur⟩
    refine ⟨(c.afterExt b).withMem mem, ⟨fun _ => hroomExt, ?_⟩, hcur⟩
    rw [if_neg (fun hunc => hne (hun.mp hunc)), if_pos heq]
    exact ⟨hlen, afterExt_withMem.symm⟩

theorem unbounded_iff {bits : ℕ} {within : Bool} (hadmitted : within = true ∨ c.hasExt = true)
    (hform : c.ub = noUpperBound ∨ within = false)
    (hat : LengthAt ((c.afterExt b).withMem mem) n bits) (hbits : n < 128 → bits = 8)
    (hext : c.hasExt = true → field mem b.pos 1 = (!within).toNat) (hroomExt : b.Room 1) :
    (∃ cur, c.Carries (b.withMem mem) n cur ∧
        (c.bitsEntry cur).pos = (c.afterExt b).pos + bits) ↔
      (c.isAligned = true → (c.afterExt b).offset = 0) := by
  have hun := (unconstrained_withMem hadmitted hext).mpr hform
  have hoff := (c.afterExt b).offset_lt
  have hposE : (c.afterExt b).pos = 8 * (c.afterExt b).ptr + (c.afterExt b).offset := rfl
  obtain ⟨hroom, hfield⟩ := hat
  have hsize : bits % 8 = 0 := by
    unfold LengthField at hfield
    omega
  constructor
  · rintro ⟨cur, ⟨-, hcarries⟩, hcur⟩ haligned
    rw [if_pos hun, afterExt_withMem] at hcarries
    obtain ⟨-, bits', ⟨-, hfield'⟩, rfl⟩ := hcarries
    have hle := pos_le_bitsEntry c (((c.afterExt b).withMem mem).entry c.isAligned |>.advance bits')
    rw [hcur, haligned, pos_advance, BitRef.entry, if_pos rfl, pos_advance] at hle
    change (c.afterExt b).pos + (c.afterExt b).padding + bits' ≤ _ at hle
    have hpad := pos_padded (c.afterExt b)
    unfold LengthField at hfield hfield'
    unfold octetEnd at hpad
    omega
  · intro haligned
    have hentry : ((c.afterExt b).withMem mem).entry c.isAligned = (c.afterExt b).withMem mem := by
      cases hal : c.isAligned with
      | false => rfl
      | true =>
        have hzero := padding_zero (haligned hal)
        change ((c.afterExt b).withMem mem).advance (c.afterExt b).padding = _
        rw [hzero, advance_zero]
    refine ⟨((c.afterExt b).withMem mem).advance bits, ⟨fun _ => hroomExt, ?_⟩, ?_⟩
    · rw [if_pos hun, afterExt_withMem, hentry]
      exact ⟨fun hal => .inl (padding_zero (haligned hal)), bits, ⟨hroom, hfield⟩, rfl⟩
    · by_cases hal : c.isAligned = true ∧ (c.lb ≠ c.ub ∨ c.ub > 16)
      · have hzero := haligned hal.1
        rw [bitsEntry_pos_iff hal (by omega)]
        · rw [pos_advance, pos_withMem]
          unfold octetEnd
          omega
        · have hne : bits ≠ 0 := by
            unfold LengthField at hfield
            omega
          exact hroom.resolve_left hne
      · rw [bitsEntry_unaligned hal, pos_advance, pos_withMem]

section

variable (h : c.Bounds) (hne : c.lb ≠ c.ub) (hub : c.ub ≠ noUpperBound)
  (hwithin : c.lb ≤ n ∧ n ≤ c.ub) (hext : c.hasExt = true → field mem b.pos 1 = 0)
include h hne hub hwithin hext

theorem constrained_carries_iff (hroomExt : b.Room 1) :
    c.Carries (b.withMem mem) n cur ↔
      let f := numberField ((c.afterExt b).withMem mem) (c.ub - c.lb + 1) c.isAligned
      Reads f ∧ numberRead f = n - c.lb ∧ cur = f.1.advance f.2 := by
  have hmax := h.le_max
  unfold noUpperBound at hmax
  have hun : ¬c.Unconstrained (b.withMem mem) := by
    rw [@unconstrained_withMem c b mem true (.inl rfl) hext]
    rintro (hnone | hout)
    · exact hub hnone
    · cases hout
  unfold Carries
  rw [if_neg hun, if_neg hne, afterExt_withMem]
  generalize numberField ((c.afterExt b).withMem mem) (c.ub - c.lb + 1) c.isAligned = f
  dsimp only
  constructor
  · rintro ⟨-, hreads, hn, -, hcur⟩
    have hlt : numberRead f < 2 ^ 32 :=
      (field_lt _ _ _).trans_le (Nat.pow_le_pow_right (by decide) hreads.1)
    exact ⟨hreads, by omega, hcur⟩
  · rintro ⟨hreads, hn, hcur⟩
    exact ⟨fun _ => hroomExt, hreads, by omega, .inr hwithin.2, hcur⟩

theorem bounded_unaligned_iff
    (hroom : b.Room 40) (hal : c.isAligned = false) (hk : ceilLog2 (c.ub - c.lb) < 32)
    (hcount : field mem (c.afterExt b).pos (ceilLog2 (c.ub - c.lb)) =
      (n - c.lb) % 2 ^ ceilLog2 (c.ub - c.lb)) :
    (∃ cur, c.Carries (b.withMem mem) n cur ∧
        (c.bitsEntry cur).pos = (c.afterExt b).pos + ceilLog2 (c.ub - c.lb)) ↔
      ∀ j, c.ub - c.lb ≠ 2 ^ j := by
  have hentry : ∀ cur, c.bitsEntry cur = cur := fun cur =>
    bitsEntry_unaligned fun h => absurd (hal.symm.trans h.1) Bool.false_ne_true
  have hf : numberField ((c.afterExt b).withMem mem) (c.ub - c.lb + 1) c.isAligned =
      ((c.afterExt b).withMem mem, ceilLog2 (c.ub - c.lb + 1)) := by
    rw [hal]
    rfl
  have hcarries := fun cur => @constrained_carries_iff c b cur n mem h hne hub hwithin hext
    (room_mono hroom (by decide))
  simp only [hf] at hcarries
  rcases ceilLog2_succ_cases (c.ub - c.lb) with ⟨hpow, hw⟩ | ⟨hpow, hw⟩
  · refine iff_of_false ?_ (fun hall => hall _ hpow)
    rintro ⟨cur, hc, hcur⟩
    obtain ⟨-, -, rfl⟩ := (hcarries cur).mp hc
    rw [hentry, pos_advance, pos_withMem, hw] at hcur
    omega
  · refine iff_of_true ?_ hpow
    refine ⟨_, (hcarries _).mpr ⟨⟨by omega, ?_⟩, ?_, rfl⟩, ?_⟩
    · rw [hw]
      have hpos := hroom.resolve_left (by decide)
      have hposE := @pos_afterExt c b
      have hone : c.hasExt.toNat ≤ 1 := Bool.toNat_le c.hasExt
      right
      rw [pos_withMem, max_withMem, max_afterExt]
      omega
    · change field mem (c.afterExt b).pos _ = _
      rw [hw, hcount]
      have hle := le_two_pow_ceilLog2 (c.ub - c.lb)
      have hne' := hpow (ceilLog2 (c.ub - c.lb))
      exact Nat.mod_eq_of_lt (by omega)
    · rw [hentry, pos_advance, pos_withMem, hw]

end

/-- Aligned, when the count is read back by a reader that aligns: `o` is the offset of the cursor
in its octet, `d` the difference of the bounds and `L` the count. -/
def CountAgrees (o d L : ℕ) : Prop :=
  d < 255 ∧ ((∀ j, d ≠ 2 ^ j) ∨ L = 0 ∧ (o + ceilLog2 d) % 8 ≠ 0) ∨
  255 ≤ d ∧ d < 65536 ∧ d ≠ 256 ∧
    (L = 0 ∧ (o = 0 ∨ d = 255 ∨ 17 ≤ o + ceilLog2 d) ∨ o = 0 ∧ ceilLog2 d % 8 = 0) ∨
  65536 ≤ d ∧ (d = 65536 ∧ (o = 0 ∧ L < 256 ∨ o = 7 ∧ L = 0) ∨
    ceilLog2 d = 17 ∧ o = 7 ∧ L < 256)

theorem numberField_short (e : BitRef) {m : ℕ} (hm : m < 255) :
    numberField e (m + 1) true = (e, ceilLog2 (m + 1)) := by
  unfold numberField
  rw [if_pos (by simp; omega)]

theorem numberField_octets (e : BitRef) {m : ℕ} (hlow : 255 ≤ m) (hhigh : m < 65536) :
    numberField e (m + 1) true = (e.advance e.padding, ceilFrac (ceilLog2 (m + 1)) 8 * 8) := by
  unfold numberField
  rw [if_neg (by simp; omega), if_pos (by omega)]

theorem ceilLog2_octets {w : ℕ} (hlow : 17 ≤ w) (hhigh : w ≤ 32) : ceilLog2 (ceilFrac w 8) = 2 := by
  have hoct : ceilFrac w 8 = 3 ∨ ceilFrac w 8 = 4 := by
    unfold ceilFrac
    omega
  rcases hoct with hoct | hoct
  · rw [hoct]
    exact (ceilLog2_succ_cases 2).elim (fun h => h.2) (fun h => absurd rfl (h.1 1))
  · rw [hoct]
    exact ceilLog2_two_pow 2

theorem numberField_indefinite (e : BitRef) {m : ℕ} (hlow : 65536 ≤ m) (hk : ceilLog2 m < 32) :
    numberField e (m + 1) true =
      ((e.advance 2).advance (e.advance 2).padding, (field e.mem e.pos 2 + 1) * 8) := by
  have hwidth : ceilLog2 (m + 1) ≤ 32 := by
    have hcases := ceilLog2_succ_cases m
    omega
  have hwidth' : 17 ≤ ceilLog2 (m + 1) := by
    by_contra hlt
    have hle := le_two_pow_ceilLog2 (m + 1)
    have hmono := Nat.pow_le_pow_right (by decide : 0 < 2) (by omega : ceilLog2 (m + 1) ≤ 16)
    omega
  unfold numberField
  rw [if_neg (by simp; omega), if_neg (by omega), ceilLog2_octets hwidth' hwidth]

section

variable (h : c.Bounds) (hne : c.lb ≠ c.ub) (hub : c.ub ≠ noUpperBound)
  (hwithin : c.lb ≤ n ∧ n ≤ c.ub) (hext : c.hasExt = true → field mem b.pos 1 = 0)
  (hroom : b.Room 64) (hal : c.isAligned = true) (hk : ceilLog2 (c.ub - c.lb) < 32)
include h hne hub hwithin hext hroom hal hk

theorem bounded_read_iff {e : BitRef} {w : ℕ}
    (hf : numberField ((c.afterExt b).withMem mem) (c.ub - c.lb + 1) true = (e, w))
    (hmem : e.mem = mem) (hmax : e.max = b.max) (hin : e.pos + w ≤ 8 * b.max) (hw : w ≤ 32) :
    (∃ cur, c.Carries (b.withMem mem) n cur ∧
        (c.bitsEntry cur).pos = octetEnd ((c.afterExt b).pos + ceilLog2 (c.ub - c.lb))) ↔
      field mem e.pos w = n - c.lb ∧
        octetEnd (e.pos + w) = octetEnd ((c.afterExt b).pos + ceilLog2 (c.ub - c.lb)) := by
  have hpos := hroom.resolve_left (by decide)
  have hposE := @pos_afterExt c b
  have hone : c.hasExt.toNat ≤ 1 := Bool.toNat_le c.hasExt
  have hcarries := fun cur => @constrained_carries_iff c b cur n mem h hne hub hwithin hext
    (room_mono hroom (by decide))
  rw [hal, hf] at hcarries
  have hcur : (c.bitsEntry (e.advance w)).pos =
      octetEnd ((c.afterExt b).pos + ceilLog2 (c.ub - c.lb)) ↔
        octetEnd (e.advance w).pos = octetEnd ((c.afterExt b).pos + ceilLog2 (c.ub - c.lb)) := by
    refine bitsEntry_pos_iff ⟨hal, .inl hne⟩ ?_ ?_
    · unfold octetEnd
      omega
    · rw [max_advance, hmax]
      unfold octetEnd
      omega
  rw [pos_advance] at hcur
  have hnumber : numberRead (e, w) = field mem e.pos w := by rw [numberRead, hmem]
  rw [← hcur, ← hnumber]
  simp only [hcarries]
  constructor
  · rintro ⟨cur, ⟨-, hread, rfl⟩, hend⟩
    exact ⟨hread, hend⟩
  · rintro ⟨hread, hend⟩
    exact ⟨_, ⟨⟨hw, .inr (hmax.symm ▸ hin)⟩, hread, rfl⟩, hend⟩

theorem bounded_aligned_iff (hcount : CountAt mem (c.afterExt b).pos (c.ub - c.lb) (n - c.lb)) :
    (∃ cur, c.Carries (b.withMem mem) n cur ∧
        (c.bitsEntry cur).pos = octetEnd ((c.afterExt b).pos + ceilLog2 (c.ub - c.lb))) ↔
      CountAgrees (c.afterExt b).offset (c.ub - c.lb) (n - c.lb) := by
  have hpos := hroom.resolve_left (by decide)
  have hposE := @pos_afterExt c b
  have hone : c.hasExt.toNat ≤ 1 := Bool.toNat_le c.hasExt
  have hL : n - c.lb ≤ c.ub - c.lb := by omega
  have hmaxE : ((c.afterExt b).withMem mem).max = b.max := max_afterExt
  have hmod : (c.afterExt b).offset = (c.afterExt b).pos % 8 := by
    have hoff := (c.afterExt b).offset_lt
    have hposE' : (c.afterExt b).pos = 8 * (c.afterExt b).ptr + (c.afterExt b).offset := rfl
    omega
  unfold CountAgrees
  by_cases hshort : c.ub - c.lb < 255
  · have hf := numberField_short ((c.afterExt b).withMem mem) hshort
    have hw := ceilLog2_le (by omega : c.ub - c.lb + 1 ≤ 2 ^ 8)
    rw [bounded_read_iff h hne hub hwithin hext hroom hal hk hf rfl hmaxE
      (by rw [pos_withMem]; omega) (by omega), pos_withMem, short_iff hcount hL]
    have hlow : ¬255 ≤ c.ub - c.lb := by omega
    have hhigh : ¬65536 ≤ c.ub - c.lb := by omega
    have hbit : ((c.afterExt b).pos + ceilLog2 (c.ub - c.lb)) % 8 ≠ 0 ↔
        ((c.afterExt b).offset + ceilLog2 (c.ub - c.lb)) % 8 ≠ 0 := by omega
    simp only [hshort, hlow, hhigh, true_and, false_and, or_false, hbit]
  by_cases hoctets : c.ub - c.lb < 65536
  · have hf := numberField_octets ((c.afterExt b).withMem mem) (Nat.le_of_not_lt hshort) hoctets
    have hwidth := ceilLog2_le (by omega : c.ub - c.lb + 1 ≤ 2 ^ 16)
    have hceil := ceilFrac_lt (ceilLog2 (c.ub - c.lb + 1))
    have hend : octetEnd (octetEnd (c.afterExt b).pos +
        ceilFrac (ceilLog2 (c.ub - c.lb + 1)) 8 * 8) =
          octetEnd (c.afterExt b).pos + ceilFrac (ceilLog2 (c.ub - c.lb + 1)) 8 * 8 := by
      unfold octetEnd
      omega
    have hstart : (((c.afterExt b).withMem mem).advance
        ((c.afterExt b).withMem mem).padding).pos = octetEnd (c.afterExt b).pos := by
      rw [pos_advance, pos_padded, pos_withMem]
    have hbound : octetEnd (c.afterExt b).pos ≤ (c.afterExt b).pos + 7 := by
      unfold octetEnd
      omega
    rw [bounded_read_iff h hne hub hwithin hext hroom hal hk hf rfl hmaxE
      (by rw [hstart]; omega) (by omega), hstart, hend, octets_iff hcount hL (by omega) hoctets]
    have hlow : 255 ≤ c.ub - c.lb := by omega
    have hhigh : ¬65536 ≤ c.ub - c.lb := by omega
    simp only [hshort, hlow, hhigh, hoctets, true_and, false_and, or_false, false_or, hmod]
  · have hf := numberField_indefinite ((c.afterExt b).withMem mem) (Nat.le_of_not_lt hoctets) hk
    have hfirst := field_lt mem (c.afterExt b).pos 2
    have hstart : ((((c.afterExt b).withMem mem).advance 2).advance
        (((c.afterExt b).withMem mem).advance 2).padding).pos =
          octetEnd ((c.afterExt b).pos + 2) := by
      rw [pos_advance, pos_padded, pos_advance, pos_withMem]
    have hend : octetEnd (octetEnd ((c.afterExt b).pos + 2) +
        (field mem (c.afterExt b).pos 2 + 1) * 8) =
          octetEnd ((c.afterExt b).pos + 2) + (field mem (c.afterExt b).pos 2 + 1) * 8 := by
      unfold octetEnd
      omega
    have hbound : octetEnd ((c.afterExt b).pos + 2) ≤ (c.afterExt b).pos + 9 := by
      unfold octetEnd
      omega
    rw [bounded_read_iff h hne hub hwithin hext hroom hal hk hf rfl hmaxE
      (by rw [hstart]; change _ + (field mem (c.afterExt b).pos 2 + 1) * 8 ≤ _; omega)
      (by change (field mem (c.afterExt b).pos 2 + 1) * 8 ≤ 32; omega), hstart]
    change field mem _ ((field mem (c.afterExt b).pos 2 + 1) * 8) = _ ∧
      octetEnd (_ + (field mem (c.afterExt b).pos 2 + 1) * 8) = _ ↔ _
    rw [hend, indefinite_iff hcount hL (by omega) hk]
    have hlow : 65536 ≤ c.ub - c.lb := by omega
    simp only [hshort, hlow, hoctets, true_and, false_and, and_false, false_or, hmod]

end

/-- The length prefix is read as it was written: by the form that the encoder chooses. -/
def PrefixAgrees (c : BitStringClass) (b : BitRef) (n : ℕ) : Prop :=
  if c.lb = c.ub ∧ n = c.lb then
    c.ub ≠ noUpperBound ∧ (c.isAligned = true → c.ub ≤ 16 ∨ (c.afterExt b).offset = 0)
  else if c.ub = noUpperBound ∨ ¬(c.lb ≤ n ∧ n ≤ c.ub) then
    n < 16384 ∧ (c.isAligned = true → (c.afterExt b).offset = 0)
  else
    c.ub - c.lb ≤ 2 ^ 31 ∧
      if c.isAligned then CountAgrees (c.afterExt b).offset (c.ub - c.lb) (n - c.lb)
      else ∀ j, c.ub - c.lb ≠ 2 ^ j

theorem not_roundTrips (hfail : (c.packLengthPrefix b s.nofBits).2 = false) :
    ¬RoundTrips c b s := by
  rintro ⟨hok, -⟩
  unfold BitStringClass.pack at hok
  split_ifs at hok
  rw [handleCode_ok, hfail] at hok
  exact absurd hok.1 Bool.false_ne_true

theorem not_roundTrips_zero (hlen : s.nofBits = 0) : ¬RoundTrips c b s := by
  rintro ⟨hok, -⟩
  unfold BitStringClass.pack at hok
  split_ifs at hok
  rw [handleCode_ok, hlen] at hok
  exact absurd hok.2 Bool.false_ne_true

theorem packLengthPrefix_eq (hext : ¬(c.hasExt = true ∧ c.ub = noUpperBound))
    (hadmitted : (c.lb ≤ n ∧ n ≤ c.ub) ∨ c.hasExt = true) (hroom : b.Room 1) :
    ∃ mem, (c.hasExt = true → field mem b.pos 1 = (!decide (c.lb ≤ n ∧ n ≤ c.ub)).toNat) ∧
      c.packLengthPrefix b n =
        if c.lb = c.ub ∧ n = c.lb then ((c.afterExt b).withMem mem, true)
        else if c.ub = noUpperBound ∨ ¬(c.lb ≤ n ∧ n ≤ c.ub) then
          packLength ((c.afterExt b).withMem mem) n false
        else
          handleCode (((c.afterExt b).withMem mem).pack (n - c.lb) (ceilLog2 (c.ub - c.lb)))
            fun b => if c.isAligned then b.alignBytesZero else (b, true) := by
  obtain ⟨mem, hpack, hbit⟩ := packExt (c := c) hroom (!decide (c.lb ≤ n ∧ n ≤ c.ub))
  refine ⟨mem, hbit, ?_⟩
  have hin : ¬(¬decide (c.lb ≤ n ∧ n ≤ c.ub) = true ∧ ¬c.hasExt = true) := by
    rw [decide_eq_true_iff]
    exact fun hout => hadmitted.elim hout.1 hout.2
  have hfixed : (c.lb = c.ub ∧ c.lb ≤ n ∧ n ≤ c.ub) ↔ c.lb = c.ub ∧ n = c.lb := by omega
  unfold packLengthPrefix
  dsimp only
  rw [if_neg hext, if_neg hin, hpack, handleCode_true]
  simp only [decide_eq_true_iff, hfixed]

theorem ext_kept {mem' : Memory} {v x : ℕ} (hagree : AgreeBelow x mem mem')
    (hx : (c.afterExt b).pos ≤ x) (hbit : c.hasExt = true → field mem b.pos 1 = v) :
    c.hasExt = true → field mem' b.pos 1 = v := by
  intro hhas
  have hposE := @pos_afterExt c b
  rw [hhas] at hposE
  have hone : true.toNat = 1 := rfl
  rw [hagree.field (by omega)]
  exact hbit hhas

theorem room_afterExt {k : ℕ} (hroom : b.Room (k + 1)) : (c.afterExt b).Room k := by
  have hpos := hroom.resolve_left (by omega)
  have hposE := @pos_afterExt c b
  have hone : c.hasExt.toNat ≤ 1 := Bool.toNat_le c.hasExt
  right
  rw [max_afterExt]
  omega

section Forms

variable (h : c.Bounds) (hext : ¬(c.hasExt = true ∧ c.ub = noUpperBound))
  (hadmitted : (c.lb ≤ s.nofBits ∧ s.nofBits ≤ c.ub) ∨ c.hasExt = true)
  (hroom : b.Room (s.nofBits + 64)) (hlen : s.nofBits ≠ 0)

include h hext hadmitted hroom hlen

theorem roundTrips_fixed (hfixed : c.lb = c.ub ∧ s.nofBits = c.lb) :
    RoundTrips c b s ↔ nofOctets s.nofBits ≠ 0 ∧ c.ub ≠ noUpperBound ∧
      (c.isAligned = true → c.ub ≤ 16 ∨ (c.afterExt b).offset = 0) := by
  have hroomExt : b.Room 1 := room_mono hroom (by omega)
  obtain ⟨mem₁, hbit, hlenPrefix⟩ := packLengthPrefix_eq hext hadmitted hroomExt
  rw [if_pos hfixed] at hlenPrefix
  have hroomBits : (c.afterExt b).Room s.nofBits := room_afterExt (room_mono hroom (by omega))
  obtain ⟨mem, hagree, hiff⟩ :=
    roundTrips_iff_carries h hlenPrefix hadmitted max_afterExt hroomBits hlen
  have hbit' := ext_kept hagree (Nat.le_refl _) hbit
  rw [decide_eq_true (by omega : c.lb ≤ s.nofBits ∧ s.nofBits ≤ c.ub)] at hbit'
  rw [hiff, pos_withMem, fixed_iff hfixed.1 hfixed.2 hlen hroomBits hbit' hroomExt]

theorem roundTrips_unbounded (hfixed : ¬(c.lb = c.ub ∧ s.nofBits = c.lb))
    (hform : c.ub = noUpperBound ∨ ¬(c.lb ≤ s.nofBits ∧ s.nofBits ≤ c.ub)) :
    RoundTrips c b s ↔ nofOctets s.nofBits ≠ 0 ∧ s.nofBits < 16384 ∧
      (c.isAligned = true → (c.afterExt b).offset = 0) := by
  have hroomExt : b.Room 1 := room_mono hroom (by omega)
  obtain ⟨mem₁, hbit, hlenPrefix⟩ := packLengthPrefix_eq hext hadmitted hroomExt
  rw [if_neg hfixed, if_pos hform] at hlenPrefix
  by_cases hshort : s.nofBits < 16384
  · have hroomE : (c.afterExt b).Room (s.nofBits + 63) := room_afterExt (room_mono hroom (by omega))
    have hsize : lengthSize s.nofBits ≤ 16 := by
      unfold lengthSize
      split_ifs <;> omega
    have hok : (packLength ((c.afterExt b).withMem mem₁) s.nofBits false).2 = true :=
      packLength_ok hshort (fun h => nomatch h) (room_mono hroomE (by omega))
    have hextends := @packLength_extends ((c.afterExt b).withMem mem₁) s.nofBits false
    obtain ⟨-, mem₂, bits, hrun, hat, hbits⟩ := packLength_spec hshort hok
    rw [hrun] at hlenPrefix hextends
    change LengthAt ((c.afterExt b).withMem mem₂) s.nofBits bits at hat
    change _ = (((c.afterExt b).advance bits).withMem mem₂, true) at hlenPrefix
    have hle : bits ≤ 16 := by
      have hfield := hat.2
      unfold LengthField at hfield
      omega
    obtain ⟨mem, hagree, hiff⟩ := roundTrips_iff_carries h hlenPrefix hadmitted max_afterExt
      (room_rest (room_mono hroomE (by omega))) hlen
    rw [pos_withMem, pos_advance] at hagree hiff
    have hbit' := ext_kept hagree (Nat.le_add_right _ _)
      (ext_kept hextends.2.2 (Nat.le_refl _) hbit)
    have hout : c.ub = noUpperBound ∨ decide (c.lb ≤ s.nofBits ∧ s.nofBits ≤ c.ub) = false := by
      rw [decide_eq_false_iff_not]
      exact hform
    have hadmitted' : decide (c.lb ≤ s.nofBits ∧ s.nofBits ≤ c.ub) = true ∨ c.hasExt = true := by
      rw [decide_eq_true_iff]
      exact hadmitted
    rw [hiff, unbounded_iff hadmitted' hout (hat.agree hagree) hbits hbit' hroomExt,
      and_iff_right hshort]
  · refine iff_of_false (not_roundTrips ?_) (fun hright => hshort hright.2.1)
    have hlong : ¬s.nofBits < 128 := by omega
    rw [hlenPrefix]
    simp only [packLength, Bool.not_false, if_true, if_neg hlong, if_neg hshort]

theorem roundTrips_bounded (hfixed : ¬(c.lb = c.ub ∧ s.nofBits = c.lb))
    (hform : ¬(c.ub = noUpperBound ∨ ¬(c.lb ≤ s.nofBits ∧ s.nofBits ≤ c.ub))) :
    RoundTrips c b s ↔ nofOctets s.nofBits ≠ 0 ∧ c.ub - c.lb ≤ 2 ^ 31 ∧
      if c.isAligned then
        CountAgrees (c.afterExt b).offset (c.ub - c.lb) (s.nofBits - c.lb)
      else ∀ j, c.ub - c.lb ≠ 2 ^ j := by
  have hroomExt : b.Room 1 := room_mono hroom (by omega)
  obtain ⟨mem₁, hbit, hlenPrefix⟩ := packLengthPrefix_eq hext hadmitted hroomExt
  rw [if_neg hfixed, if_neg hform] at hlenPrefix
  have hub : c.ub ≠ noUpperBound := fun hmax => hform (.inl hmax)
  have hwithin : c.lb ≤ s.nofBits ∧ s.nofBits ≤ c.ub := by
    by_contra hout
    exact hform (.inr hout)
  have hne : c.lb ≠ c.ub := by omega
  rw [decide_eq_true hwithin] at hbit
  have hroomE : (c.afterExt b).Room (s.nofBits + 63) := room_afterExt (room_mono hroom (by omega))
  have hle := le_two_pow_ceilLog2 (c.ub - c.lb)
  by_cases hk : ceilLog2 (c.ub - c.lb) < 32
  · have hsmall : c.ub - c.lb ≤ 2 ^ 31 :=
      hle.trans (Nat.pow_le_pow_right (by decide) (Nat.lt_succ_iff.mp hk))
    obtain ⟨mem₂, hpack, hagree₂, hcount⟩ := pack_spec hk
      (room_mono hroomE (by omega) : ((c.afterExt b).withMem mem₁).Room _) (s.nofBits - c.lb)
    rw [hpack, handleCode_true, advance_withMem, withMem_withMem] at hlenPrefix
    have hbit₂ := ext_kept hagree₂ (Nat.le_refl _) hbit
    rw [and_iff_right hsmall]
    cases hal : c.isAligned with
    | false =>
      rw [hal, if_neg Bool.false_ne_true] at hlenPrefix
      rw [if_neg Bool.false_ne_true]
      obtain ⟨mem, hagree, hiff⟩ := roundTrips_iff_carries h hlenPrefix hadmitted max_afterExt
        (room_rest (room_mono hroomE (by omega))) hlen
      rw [pos_withMem, pos_advance] at hagree hiff
      have hcount' : field mem (c.afterExt b).pos (ceilLog2 (c.ub - c.lb)) = _ :=
        (hagree.field (Nat.le_refl _)).trans hcount
      rw [hiff, bounded_unaligned_iff h hne hub hwithin
        (ext_kept hagree (Nat.le_add_right _ _) hbit₂) (room_mono hroom (by omega)) hal hk hcount']
    | true =>
      rw [hal, if_pos rfl] at hlenPrefix
      rw [if_pos rfl]
      have hpad := pos_padded ((c.afterExt b).advance (ceilLog2 (c.ub - c.lb)))
      have hpadlt := @padding_lt ((c.afterExt b).advance (ceilLog2 (c.ub - c.lb)))
      have hroomPad : (((c.afterExt b).advance (ceilLog2 (c.ub - c.lb))).withMem mem₂).Room
          ((c.afterExt b).advance (ceilLog2 (c.ub - c.lb))).padding :=
        room_rest (room_mono hroomE (by omega))
      obtain ⟨mem₃, halign, hagree₃, hzero⟩ := alignBytesZero_zeros hroomPad
      rw [halign, padding_withMem, advance_withMem, withMem_withMem, advance_advance] at hlenPrefix
      rw [padding_withMem, pos_withMem] at hzero
      rw [pos_withMem, pos_advance] at hagree₃
      rw [pos_advance] at hpad hzero
      obtain ⟨mem, hagree, hiff⟩ := roundTrips_iff_carries h hlenPrefix hadmitted max_afterExt
        (room_rest (room_mono hroomE (by omega))) hlen
      rw [pos_withMem, pos_advance, ← Nat.add_assoc, hpad] at hagree hiff
      rw [mem_withMem] at hagree
      have hend := le_octetEnd ((c.afterExt b).pos + ceilLog2 (c.ub - c.lb))
      have hat : CountAt mem (c.afterExt b).pos (c.ub - c.lb) (s.nofBits - c.lb) := by
        constructor
        · rw [hagree.field hend, hagree₃.field (Nat.le_refl _)]
          exact hcount
        · have hwidth : octetEnd ((c.afterExt b).pos + ceilLog2 (c.ub - c.lb)) -
              ((c.afterExt b).pos + ceilLog2 (c.ub - c.lb)) =
                ((c.afterExt b).advance (ceilLog2 (c.ub - c.lb))).padding := by omega
          rw [hwidth, hagree.field (by omega)]
          exact hzero
      have hbit' := ext_kept hagree (by omega) (ext_kept hagree₃ (Nat.le_add_right _ _) hbit₂)
      rw [hiff, bounded_aligned_iff h hne hub hwithin hbit' (room_mono hroom (by omega)) hal hk hat]
  · refine iff_of_false (not_roundTrips ?_) ?_
    · rw [hlenPrefix, ← Bool.not_eq_true, handleCode_ok]
      exact fun hok => hk (pack_ok.mp hok.1).1
    · intro hright
      exact hk (Nat.lt_succ_iff.mpr (ceilLog2_le hright.2.1))

end Forms

/-- A bit string of a bounded or unbounded class survives exactly when it has octets, the class is
not an unbounded one with an extension marker, and the prefix is read as it was written. -/
theorem roundTrips_iff (h : c.Bounds)
    (hadmitted : (c.lb ≤ s.nofBits ∧ s.nofBits ≤ c.ub) ∨ c.hasExt = true)
    (hroom : b.Room (s.nofBits + 64)) :
    RoundTrips c b s ↔ nofOctets s.nofBits ≠ 0 ∧ ¬(c.hasExt = true ∧ c.ub = noUpperBound) ∧
      PrefixAgrees c b s.nofBits := by
  by_cases hext : c.hasExt = true ∧ c.ub = noUpperBound
  · refine iff_of_false (not_roundTrips ?_) (fun hright => hright.2.1 hext)
    unfold packLengthPrefix
    rw [if_pos hext]
  by_cases hlen : s.nofBits = 0
  · refine iff_of_false (not_roundTrips_zero hlen) (fun hright => hright.1 ?_)
    rw [hlen]
    rfl
  rw [and_iff_right hext]
  unfold PrefixAgrees
  split_ifs with hfixed hform hal
  · exact roundTrips_fixed h hext hadmitted hroom hlen hfixed
  · exact roundTrips_unbounded h hext hadmitted hroom hlen hfixed hform
  · have hiff := roundTrips_bounded h hext hadmitted hroom hlen hfixed hform
    rw [if_pos hal] at hiff
    exact hiff
  · have hiff := roundTrips_bounded h hext hadmitted hroom hlen hfixed hform
    rw [if_neg hal] at hiff
    exact hiff

end SrsLte

/-!
Fixed, bounded and unbounded bit strings and their numbers, each with its exact condition.
-/

namespace SrsLte

open BitField BitRef BitStringClass

variable {b : BitRef} {s : Asn1BitString}

/-- `fixed_bitstring`: packed and unpacked without a prefix, and no octet is stored outside. -/
def FixedRoundTrips (b : BitRef) (s : Asn1BitString) : Prop :=
  let r := packCommonBitstring b s.octets s.nofBits
  (r.2 = true ∧ ∀ buf,
    let r' := unpackCommonBitstring buf (b.withMem r.1.mem) s.nofBits
    r'.ok = true ∧ r'.cur = r.1 ∧
      ∀ i < s.nofBits, (⟨r'.val, s.nofBits⟩ : Asn1BitString).get i = s.get i) ∧
  ∀ buf b' j, ceilFrac s.nofBits 8 ≤ j → (unpackCommonBitstring buf b' s.nofBits).val j = buf j

theorem unpackCommonBitstring_above {buf : ℕ → UInt8} {n j : ℕ} (hn : n < 2 ^ 32)
    (hj : ceilFrac n 8 ≤ j) : (unpackCommonBitstring buf b n).val j = buf j := by
  unfold unpackCommonBitstring
  split_ifs with hzero
  · rfl
  · have hocts : ceilFrac n 8 ≠ 0 := by
      unfold ceilFrac
      omega
    have hsmall : ceilFrac n 8 < 2 ^ 32 := by
      unfold ceilFrac
      omega
    unfold unpackBits Unpacked.handleCode
    rw [toUint32_pred hocts hsmall]
    dsimp only
    split_ifs
    · rw [unpackOctetsDown_above (by omega), Function.update_of_ne (by omega)]
    · exact Function.update_of_ne (by omega) _ _

theorem fixedRoundTrips_iff (hlen : s.nofBits < 2 ^ 32) (hroom : b.Room s.nofBits) :
    FixedRoundTrips b s ↔ s.nofBits ≠ 0 := by
  constructor
  · rintro ⟨⟨hok, -⟩, -⟩ hzero
    rw [hzero] at hok
    cases hok
  · intro hne
    obtain ⟨mem, hpack, -, hstring⟩ := packCommonBitstring_spec s.octets hne hroom
    refine ⟨?_, fun buf b' j hj => unpackCommonBitstring_above hlen hj⟩
    rw [hpack]
    refine ⟨rfl, fun buf => ?_⟩
    have hsum := lastBits_add hne
    have hocts : ceilFrac s.nofBits 8 ≠ 0 := by
      unfold ceilFrac
      omega
    have hsmall : ceilFrac s.nofBits 8 < 2 ^ 32 := by
      unfold ceilFrac
      omega
    have hroom' : (b.withMem mem).Room s.nofBits := hroom
    have hrun : unpackCommonBitstring buf (b.withMem mem) s.nofBits =
        unpackBits buf (b.withMem mem) (ceilFrac s.nofBits 8) (lastBits s.nofBits) := if_neg hne
    have hspec := unpackBits_spec buf hocts hsmall (lastBits_le _)
      (hsum.symm ▸ hroom')
    dsimp only
    rw [mem_withMem, hrun]
    refine ⟨by rw [hspec], ?_, fun i hi => get_unpackBits buf hne hsmall hroom' hstring hi⟩
    rw [hspec, hsum]
    rfl

/-- `bounded_bitstring<1, 160, true, true>`, a transport layer address. -/
def transportLayerAddress : BitStringClass := ⟨1, 160, true, true⟩

def clearBuffer : BitRef := ⟨fun _ => 0, 0, 0, 64, zero_lt_eight⟩

end SrsLte
