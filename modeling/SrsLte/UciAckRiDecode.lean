import SrsLte.UciAckRi

/-!
# Decoding HARQ-ACK and RI on PUSCH

What the transmitter leaves at the positions of a field, and the sums of the receiver over it. Two
bits are added up when the symbol after a group of three comes, so that a field of one group alone
is never read.
-/

namespace SrsLte

namespace Uci

/-- The bits of RI and then those of HARQ-ACK: `field true` is RI. -/
def uciBits (g : Grant) (field : Bool → UciField g) (old : Bool → ℕ → ℕ) : List UciBit :=
  encodeAckRi g true (old true) (field true).data (field true).qPrime ++
    encodeAckRi g false (old false) (field false).data (field false).qPrime

/-- The type of bit `k` in symbol `i`. -/
def fieldType (qm : ℕ) (data : List Bool) (i k : ℕ) : UciBitType :=
  let s := (patternSymbols data).getD (i % (patternSymbols data).length) (.zero, .zero)
  (symbolBits qm s.1 s.2).getD k .zero

/-- The position of bit `k` in symbol `i`. -/
def Grant.bitPlace (g : Grant) (isRi : Bool) (i k : ℕ) : ℕ := g.symbolIndex isRi i * g.qm + k

def fieldBit (g : Grant) (isRi : Bool) (data : List Bool) (i k : ℕ) : UciBit :=
  { position := g.bitPlace isRi i k, type := fieldType g.qm data i k }

section Fields

variable {g : Grant} {isRi : Bool} {i j k l : ℕ}

theorem repeatBits_type (f : UciField g) {i k : ℕ} (hi : i < f.qPrime) (hk : k < g.qm) :
    (repeatBits (encodeRiAck g.qm f.data) (f.qPrime * g.qm) (f.qPrime * g.qm) []).getD
      (i * g.qm + k) .zero = fieldType g.qm f.data i k := by
  have hsymbols : 0 < (patternSymbols f.data).length := by
    have hempty := f.qPrime_eq_zero
    have hlen := f.length_le
    match hdata : f.data with
    | [] => exact absurd (hempty hdata) (by omega)
    | [_] | [_, _] => simp [patternSymbols]
    | _ :: _ :: _ :: _ => simp [hdata] at hlen
  have hlength : (encodeRiAck g.qm f.data).length = g.qm * (patternSymbols f.data).length := by
    rw [encodeRiAck_eq, List.length_flatMap,
      List.map_congr_left fun s _ => length_symbolBits g.two_le_qm s.1 s.2, List.map_const',
      List.sum_replicate_nat, Nat.mul_comm]
  have ht : i * g.qm + k < f.qPrime * g.qm := by
    have hrow := Nat.mul_le_mul_right g.qm (Nat.succ_le_of_lt hi)
    rw [Nat.succ_mul] at hrow
    omega
  have hplace : (i * g.qm + k) % (g.qm * (patternSymbols f.data).length) =
      i % (patternSymbols f.data).length * g.qm + k := by
    rw [Nat.mod_mul, Nat.mul_comm i, Nat.mul_add_mod, Nat.mod_eq_of_lt hk,
      Nat.mul_add_div (by omega), Nat.div_eq_of_lt hk, Nat.add_zero, Nat.add_comm, Nat.mul_comm]
  have hpos : 0 < (encodeRiAck g.qm f.data).length := by
    rw [hlength]
    exact Nat.mul_pos (by omega) hsymbols
  have hread := repeatBits_getElem? hpos ht (f.qPrime * g.qm) [] (Nat.dvd_zero _) (by simp)
    (by simp)
  have hrows : ∀ s : UciBitType × UciBitType, (symbolBits g.qm s.1 s.2).length = g.qm :=
    fun s => length_symbolBits g.two_le_qm s.1 s.2
  rw [List.getD_eq_getElem?_getD, hread, hlength, hplace, encodeRiAck_eq,
    getElem?_flatMap_rows hrows hk]
  have hmod := Nat.mod_lt i hsymbols
  simp only [fieldType, List.getD_eq_getElem?_getD, List.getElem?_eq_getElem hmod,
    Option.bind_some, Option.getD_some]

theorem encodeAckRi_eq (f : UciField g) (isRi : Bool) (old : ℕ → ℕ) :
    encodeAckRi g isRi old f.data f.qPrime =
      (List.range (f.qPrime * g.qm)).map fun t =>
        fieldBit g isRi f.data (t / g.qm) (t % g.qm) := by
  have hqm := g.two_le_qm
  unfold encodeAckRi
  apply List.map_congr_left
  intro t ht
  have hi : t / g.qm < f.qPrime := Nat.div_lt_of_lt_mul (by
    rw [Nat.mul_comm]
    exact List.mem_range.mp ht)
  have hk : t % g.qm < g.qm := Nat.mod_lt t (by omega)
  have hsplit : t = t / g.qm * g.qm + t % g.qm := (Nat.div_add_mod' t g.qm).symm
  have htype := repeatBits_type f hi hk
  have hposition : bitPosition g isRi old (t / g.qm * g.qm + t % g.qm) =
      g.bitPlace isRi (t / g.qm) (t % g.qm) :=
    bitPosition_eq (Nat.lt_of_lt_of_le hi f.qPrime_le) hk
  rw [← hsplit] at htype hposition
  rw [fieldBit, hposition, htype]

theorem mem_encodeAckRi {f : UciField g} {old : ℕ → ℕ} {b : UciBit} :
    b ∈ encodeAckRi g isRi old f.data f.qPrime ↔
      ∃ i < f.qPrime, ∃ k < g.qm, fieldBit g isRi f.data i k = b := by
  have hqm := g.two_le_qm
  rw [encodeAckRi_eq]
  simp only [List.mem_map, List.mem_range]
  constructor
  · rintro ⟨t, ht, rfl⟩
    refine ⟨t / g.qm, Nat.div_lt_of_lt_mul ?_, t % g.qm, Nat.mod_lt t (by omega), rfl⟩
    rwa [Nat.mul_comm]
  · rintro ⟨i, hi, k, hk, rfl⟩
    have hrow := Nat.mul_le_mul_right g.qm (Nat.succ_le_of_lt hi)
    rw [Nat.succ_mul] at hrow
    refine ⟨i * g.qm + k, by omega, ?_⟩
    rw [Nat.mul_comm, Nat.mul_add_div (by omega), Nat.div_eq_of_lt hk, Nat.mul_add_mod,
      Nat.mod_eq_of_lt hk, Nat.add_zero]

theorem bitPlace_injective {isRi' : Bool} (hi : i < 4 * g.rows) (hj : j < 4 * g.rows)
    (hk : k < g.qm) (hl : l < g.qm) (h : g.bitPlace isRi i k = g.bitPlace isRi' j l) :
    isRi = isRi' ∧ i = j ∧ k = l := by
  unfold Grant.bitPlace at h
  have hkl : k = l := by
    have hmod := congrArg (· % g.qm) h
    simpa only [Nat.mul_add_mod', Nat.mod_eq_of_lt hk, Nat.mod_eq_of_lt hl] using hmod
  rw [hkl] at h
  have hindex := Nat.eq_of_mul_eq_mul_right (by omega) (Nat.add_right_cancel h)
  obtain ⟨hri, hij⟩ := g.symbolIndex_injective hi hj hindex
  exact ⟨hri, hij, hkl⟩

theorem bitPlace_lt (hk : k < g.qm) : g.bitPlace isRi i k < g.nofBits := by
  have hindex := Nat.mul_le_mul_right g.qm (Nat.succ_le_of_lt (g.symbolIndex_lt isRi i))
  rw [Nat.succ_mul] at hindex
  unfold Grant.bitPlace Grant.nofBits
  omega

theorem encodeAckRi_nodup (f : UciField g) (isRi : Bool) (old : ℕ → ℕ) :
    ((encodeAckRi g isRi old f.data f.qPrime).map UciBit.position).Nodup := by
  have hqm := g.two_le_qm
  have hbound := f.qPrime_le
  rw [encodeAckRi_eq, List.map_map]
  apply List.Nodup.map_on _ List.nodup_range
  intro t ht u hu heq
  rw [List.mem_range] at ht hu
  have hrow : ∀ v < f.qPrime * g.qm, v / g.qm < 4 * g.rows := by
    intro v hv
    have hdiv : v / g.qm < f.qPrime := Nat.div_lt_of_lt_mul (by rwa [Nat.mul_comm])
    omega
  obtain ⟨-, hdiv, hmod⟩ := bitPlace_injective (hrow t ht) (hrow u hu)
    (Nat.mod_lt t (by omega)) (Nat.mod_lt u (by omega)) heq
  rw [← Nat.div_add_mod' t g.qm, ← Nat.div_add_mod' u g.qm, hdiv, hmod]

variable {field : Bool → UciField g} {old : Bool → ℕ → ℕ} {b : UciBit}

theorem mem_uciBits : b ∈ uciBits g field old ↔
    ∃ isRi, ∃ i < (field isRi).qPrime, ∃ k < g.qm, fieldBit g isRi (field isRi).data i k = b := by
  simp only [uciBits, List.mem_append, mem_encodeAckRi, Bool.exists_bool]
  exact or_comm

theorem uciBits_nodup (field : Bool → UciField g) (old : Bool → ℕ → ℕ) :
    ((uciBits g field old).map UciBit.position).Nodup := by
  rw [uciBits, List.map_append]
  apply List.Nodup.append (encodeAckRi_nodup _ _ _) (encodeAckRi_nodup _ _ _)
  intro p hri hack
  obtain ⟨b, hb, rfl⟩ := List.mem_map.mp hri
  obtain ⟨b', hb', heq⟩ := List.mem_map.mp hack
  obtain ⟨i, hi, k, hk, rfl⟩ := mem_encodeAckRi.mp hb
  obtain ⟨j, hj, l, hl, rfl⟩ := mem_encodeAckRi.mp hb'
  have hboth := bitPlace_injective (Nat.lt_of_lt_of_le hj (field false).qPrime_le)
    (Nat.lt_of_lt_of_le hi (field true).qPrime_le) hl hk heq
  exact absurd hboth.1 (by decide)

theorem uciBits_position_lt (hb : b ∈ uciBits g field old) : b.position < g.nofBits := by
  obtain ⟨isRi, i, -, k, hk, rfl⟩ := mem_uciBits.mp hb
  exact bitPlace_lt hk

end Fields

section Types

theorem fieldType_one (qm i : ℕ) (d0 : Bool) :
    fieldType qm [d0] i 0 = .ofBit d0 ∧ fieldType qm [d0] i 1 = .repetition := by
  simp [fieldType, patternSymbols, symbolBits, Nat.mod_one]

theorem fieldType_two (qm i : ℕ) (d0 d1 : Bool) :
    (i % 3 = 0 → fieldType qm [d0, d1] i 0 = .ofBit d0 ∧ fieldType qm [d0, d1] i 1 = .ofBit d1) ∧
      (i % 3 = 1 → fieldType qm [d0, d1] i 1 = .ofBit d0) ∧
        (i % 3 = 2 → fieldType qm [d0, d1] i 0 = .ofBit d1) := by
  refine ⟨?_, ?_, ?_⟩ <;>
    · intro hi
      simp [fieldType, patternSymbols, symbolBits, hi]

theorem ofBit_data (v : Bool) : UciBitType.ofBit v = .zero ∨ UciBitType.ofBit v = .one := by
  cases v <;> simp [UciBitType.ofBit]

theorem ofBit_eq_one (v : Bool) : decide (UciBitType.ofBit v = .one) = v := by
  cases v <;> rfl

end Types

section Transmitted

variable {g : Grant} {field : Bool → UciField g} {old : Bool → ℕ → ℕ} {c q : ℕ → Bool}
  {isRi : Bool} {i k : ℕ} {v : Bool}

theorem fieldBit_mem (hi : i < (field isRi).qPrime) (hk : k < g.qm) :
    fieldBit g isRi (field isRi).data i k ∈ uciBits g field old :=
  mem_uciBits.mpr ⟨isRi, i, hi, k, hk, rfl⟩

theorem type_of_position (hi : i < (field isRi).qPrime) (hk : k < g.qm)
    (htype : fieldType g.qm (field isRi).data i k = .ofBit v) :
    ∀ b ∈ uciBits g field old,
      b.position = g.bitPlace isRi i k → b.type = .zero ∨ b.type = .one := by
  intro b hb heq
  have hsame := List.inj_on_of_nodup_map (uciBits_nodup field old) hb (fieldBit_mem hi hk) heq
  rw [hsame, fieldBit, htype]
  exact ofBit_data v

theorem puschBits_data (hi : i < (field isRi).qPrime) (hk : k < g.qm)
    (htype : fieldType g.qm (field isRi).data i k = .ofBit v) :
    puschBits g (uciBits g field old) c q (g.bitPlace isRi i k) =
      (v ^^ c (g.bitPlace isRi i k)) := by
  rw [puschBits, foldl_correctBit_keeps (type_of_position hi hk htype),
    show g.bitPlace isRi i k = (fieldBit g isRi (field isRi).data i k).position from rfl,
    foldl_insertBit (uciBits_nodup field old) (fieldBit_mem hi hk) (bitPlace_lt hk)]
  congr 1
  rw [fieldBit, htype]
  exact ofBit_eq_one v

theorem puschBits_repetition (hi : i < (field isRi).qPrime)
    (hdata : fieldType g.qm (field isRi).data i 0 = .ofBit v)
    (hrep : fieldType g.qm (field isRi).data i 1 = .repetition)
    (hpos : g.symbolIndex isRi i ≠ 0) :
    puschBits g (uciBits g field old) c q (g.bitPlace isRi i 1) =
      (v ^^ c (g.bitPlace isRi i 0)) := by
  have hqm := g.two_le_qm
  have hmem : fieldBit g isRi (field isRi).data i 1 ∈ uciBits g field old :=
    fieldBit_mem hi (by omega)
  have hbefore : g.bitPlace isRi i 1 - 1 = g.bitPlace isRi i 0 := rfl
  have hlarge : 1 < g.bitPlace isRi i 1 := by
    have hindex := Nat.mul_le_mul_right g.qm (Nat.pos_of_ne_zero hpos)
    unfold Grant.bitPlace
    omega
  have hkeep : ∀ b ∈ uciBits g field old,
      b.position = g.bitPlace isRi i 1 - 1 →
        b.type = .zero ∨ b.type = .one := by
    rw [hbefore]
    exact type_of_position hi (by omega) hdata
  have hdataBit : puschBits g (uciBits g field old) c q (g.bitPlace isRi i 0) =
      (v ^^ c (g.bitPlace isRi i 0)) := puschBits_data hi (by omega) hdata
  rw [puschBits, foldl_correctBit_keeps (type_of_position hi (by omega) hdata)] at hdataBit
  have hcopy := foldl_correctBit_repetition
    (d := fun p => (uciBits g field old).foldl (insertBit g) q p ^^ c p)
    (uciBits_nodup field old) hmem hrep hlarge hkeep
  rw [puschBits]
  exact hcopy.trans hdataBit

end Transmitted

def signed (v : Bool) (x : ℤ) : ℤ := if v then x else -x

section Signed

variable {v w : Bool} {x y : ℤ}

@[simp] theorem signed_signed_self : signed v (signed v x) = x := by
  cases v <;> simp [signed]

@[simp] theorem signed_zero : signed v 0 = 0 := by
  cases v <;> rfl

theorem signed_add : signed v (x + y) = signed v x + signed v y := by
  cases v
  · exact Int.neg_add
  · rfl

theorem neg_le_signed_signed (hx : 0 ≤ x) : -x ≤ signed v (signed w x) := by
  cases v <;> cases w <;> simp only [signed, if_true, Bool.false_eq_true, if_false] <;> omega

theorem decide_pos_of_signed (h : 0 < signed v x) : decide (0 < x) = v := by
  cases v
  · simp only [signed, Bool.false_eq_true, if_false] at h
    exact decide_eq_false (by omega)
  · exact decide_eq_true h

theorem scrambleSoft_signed (level : Level) :
    scrambleSoft w (signed v level.val) = signed (v ^^ w) level.val := by
  obtain ⟨a, hpos, hlt⟩ := level
  have hbmod : a.bmod 65536 = a := Int.bmod_eq_of_le (by omega) (by omega)
  have hneg : (-a).bmod 65536 = -a := Int.bmod_eq_of_le (by omega) (by omega)
  cases v <;> cases w <;> simp [scrambleSoft, signed, hbmod, hneg]

end Signed

section Soft

variable {g : Grant} {field : Bool → UciField g} {old : Bool → ℕ → ℕ} {old' : ℕ → ℕ}
  {levels : ℕ → Level} {c q d : ℕ → Bool} {isRi : Bool} {i k : ℕ} {v : Bool}

theorem bitPlace_div (hk : k < g.qm) : g.bitPlace isRi i k / g.qm = g.symbolIndex isRi i := by
  rw [Grant.bitPlace, Nat.mul_comm, Nat.mul_add_div (by omega), Nat.div_eq_of_lt hk, Nat.add_zero]

theorem softBits_eq (hk : k < g.qm) :
    softBits g levels c d (g.bitPlace isRi i k) =
      signed (d (g.bitPlace isRi i k) ^^ c (g.bitPlace isRi i k))
        (levels (g.symbolIndex isRi i)).val := by
  rw [← scrambleSoft_signed, softBits, bitPlace_div hk]
  rfl

theorem bitPosition_symbol {m : ℕ} (hm : i + m < 4 * g.rows) (hk : k < g.qm) :
    bitPosition g isRi old' (g.qm * i + (g.qm * m + k)) = g.bitPlace isRi (i + m) k := by
  rw [← Nat.add_assoc, ← Nat.mul_add, Nat.mul_comm]
  exact bitPosition_eq hm hk

theorem softBits_data (hi : i < (field isRi).qPrime) (hk : k < g.qm)
    (htype : fieldType g.qm (field isRi).data i k = .ofBit v) :
    softBits g levels c (puschBits g (uciBits g field old) c q) (g.bitPlace isRi i k) =
      signed v (levels (g.symbolIndex isRi i)).val := by
  rw [softBits_eq hk, puschBits_data hi hk htype, Bool.xor_assoc, Bool.xor_self, Bool.xor_false]

end Soft

section Sums

variable {g : Grant} {field : Bool → UciField g} {old : Bool → ℕ → ℕ} {old' : ℕ → ℕ}
  {levels : ℕ → Level} {c q : ℕ → Bool} {isRi : Bool} {d0 d1 : Bool} {n : ℕ} {s : DecodeRun}

def uciSoft (g : Grant) (field : Bool → UciField g) (old : Bool → ℕ → ℕ) (levels : ℕ → Level)
    (c q : ℕ → Bool) : ℕ → ℤ :=
  softBits g levels c (puschBits g (uciBits g field old) c q)

/-- One bit, after `n` symbols. -/
structure OneBitRun (g : Grant) (isRi : Bool) (soft : ℕ → ℤ) (qPrime : ℕ) (d0 : Bool) (n : ℕ)
    (s : DecodeRun) : Prop where
  later : ∀ j, n ≤ j → j < qPrime → ∀ k < 2,
    s.qBits (g.bitPlace isRi j k) = soft (g.bitPlace isRi j k)
  sign : 0 ≤ signed d0 s.sum0
  strict : 0 < n → 0 < signed d0 s.sum0

theorem softBits_repetition (old : Bool → ℕ → ℕ) (levels : ℕ → Level) (c q : ℕ → Bool)
    (hdata : (field isRi).data = [d0])
    (hn : n < (field isRi).qPrime) :
    ∃ x : Bool, (g.symbolIndex isRi n ≠ 0 → x = d0) ∧
      uciSoft g field old levels c q (g.bitPlace isRi n 1) =
        signed (x ^^ c (g.bitPlace isRi n 0) ^^ c (g.bitPlace isRi n 1))
          (levels (g.symbolIndex isRi n)).val := by
  have hqm := g.two_le_qm
  obtain ⟨hfirst, hrep⟩ := fieldType_one g.qm n d0
  rw [← hdata] at hfirst hrep
  let sent := puschBits g (uciBits g field old) c q (g.bitPlace isRi n 1)
  refine ⟨sent ^^ c (g.bitPlace isRi n 0), ?_, ?_⟩
  · intro hindex
    have hsent : sent = (d0 ^^ c (g.bitPlace isRi n 0)) :=
      puschBits_repetition hn hfirst hrep hindex
    rw [hsent, Bool.xor_assoc, Bool.xor_self, Bool.xor_false]
  · rw [Bool.xor_assoc sent, Bool.xor_self, Bool.xor_false]
    exact softBits_eq (by omega)

theorem OneBitRun.step (hdata : (field isRi).data = [d0]) (hn : n < (field isRi).qPrime)
    (h : OneBitRun g isRi (uciSoft g field old levels c q) (field isRi).qPrime d0 n s) :
    OneBitRun g isRi (uciSoft g field old levels c q) (field isRi).qPrime d0 (n + 1)
      (decodeStep g isRi old' c 1 s n) := by
  have hqm := g.two_le_qm
  have hbound := (field isRi).qPrime_le
  obtain ⟨hfirst, -⟩ := fieldType_one g.qm n d0
  rw [← hdata] at hfirst
  have hp0 : bitPosition g isRi old' (g.qm * n + (g.qm * 0 + 0)) = g.bitPlace isRi n 0 :=
    bitPosition_symbol (by omega) (by omega)
  have hp1 : bitPosition g isRi old' (g.qm * n + (g.qm * 0 + 1)) = g.bitPlace isRi n 1 :=
    bitPosition_symbol (by omega) (by omega)
  rw [Nat.mul_zero, Nat.zero_add] at hp0 hp1
  have hapart : ∀ j k, j < 4 * g.rows → k < 2 → (n < j ∨ k = 0) →
      g.bitPlace isRi j k ≠ g.bitPlace isRi n 1 := by
    intro j k hj hk hne heq
    obtain ⟨-, hjn, hk1⟩ := bitPlace_injective hj (by omega) (by omega) (by omega) heq
    omega
  have hsoft0 := h.later n le_rfl hn 0 (by decide)
  have hsoft1 := h.later n le_rfl hn 1 (by decide)
  have hvalue0 : uciSoft g field old levels c q (g.bitPlace isRi n 0) =
      signed d0 (levels (g.symbolIndex isRi n)).val := softBits_data hn (by omega) hfirst
  obtain ⟨x, hx, hvalue1⟩ := softBits_repetition old levels c q hdata hn
  have hstep : decodeStep g isRi old' c 1 s n =
      { s with
        qBits := Function.update s.qBits (g.bitPlace isRi n 1)
          (signed (x ^^ c (g.bitPlace isRi n 0)) (levels (g.symbolIndex isRi n)).val)
        sum0 := s.sum0 + (signed d0 (levels (g.symbolIndex isRi n)).val +
          signed x (levels (g.symbolIndex isRi n)).val) } := by
    have hne0 := hapart n 0 (by omega) (by decide) (.inr rfl)
    simp only [decodeStep, DecodeRun.decode1bit, hp0, hp1, Function.update_self,
      Function.update_of_ne hne0, hsoft0, hsoft1, hvalue0, hvalue1, scrambleSoft_signed,
      Bool.xor_assoc, Bool.xor_self, Bool.xor_false, if_true]
    rfl
  have hlevel := (levels (g.symbolIndex isRi n)).property.1
  have hsum : signed d0 (decodeStep g isRi old' c 1 s n).sum0 =
      signed d0 s.sum0 + ((levels (g.symbolIndex isRi n)).val +
        signed d0 (signed x (levels (g.symbolIndex isRi n)).val)) := by
    rw [hstep]
    simp only [signed_add, signed_signed_self]
  have hweak := neg_le_signed_signed (v := d0) (w := x) hlevel.le
  refine ⟨?_, ?_, ?_⟩
  · intro j hj hlt k hk
    rw [hstep]
    dsimp only
    rw [Function.update_of_ne (hapart j k (by omega) hk (.inl hj))]
    exact h.later j (by omega) hlt k hk
  · have hsign := h.sign
    omega
  · intro _
    rcases Nat.eq_zero_or_pos n with hzero | hpos
    · -- the first symbol is in the last row
      have hindex : g.symbolIndex isRi n ≠ 0 := by
        have hprb := g.lPrb_pos
        rw [hzero, Grant.symbolIndex, Grant.rows]
        omega
      have hsign := h.sign
      rw [hsum, hx hindex, signed_signed_self]
      omega
    · have hstrict := h.strict hpos
      omega

theorem oneBitRun (old : Bool → ℕ → ℕ) (old' : ℕ → ℕ) (levels : ℕ → Level) (c q : ℕ → Bool)
    (hdata : (field isRi).data = [d0]) (hn : n ≤ (field isRi).qPrime) :
    OneBitRun g isRi (uciSoft g field old levels c q) (field isRi).qPrime d0 n
      ((List.range n).foldl (decodeStep g isRi old' c 1)
        ⟨uciSoft g field old levels c q, 0, 0, 0⟩) := by
  induction n with
  | zero => exact ⟨fun _ _ _ _ _ => rfl, by simp, by simp⟩
  | succ n ih =>
    rw [List.range_succ, List.foldl_append]
    exact (ih (by omega)).step hdata (by omega)

/-- Two bits, after `n` symbols: a group is added up when the next one begins. -/
structure TwoBitRun (soft : ℕ → ℤ) (d0 d1 : Bool) (n : ℕ) (s : DecodeRun) : Prop where
  qBits : s.qBits = soft
  unread : n ≤ 3 → s.sum0 = 0 ∧ s.sum1 = 0
  sign : 0 ≤ signed d0 s.sum0 ∧ 0 ≤ signed d1 s.sum1
  strict : 3 < n → 0 < signed d0 s.sum0 ∧ 0 < signed d1 s.sum1

theorem TwoBitRun.step (hdata : (field isRi).data = [d0, d1]) (hn : n < (field isRi).qPrime)
    (h : TwoBitRun (uciSoft g field old levels c q) d0 d1 n s) :
    TwoBitRun (uciSoft g field old levels c q) d0 d1 (n + 1)
      (decodeStep g isRi old' c 2 s n) := by
  have hqm := g.two_le_qm
  have hbound := (field isRi).qPrime_le
  unfold decodeStep
  split_ifs with hgroup hone
  · obtain ⟨i, rfl⟩ : ∃ i, n = i + 3 := ⟨n - 3, by omega⟩
    have hi : i % 3 = 0 := by omega
    obtain ⟨htype0, htype1⟩ := (fieldType_two g.qm i d0 d1).1 hi
    have htype3 := (fieldType_two g.qm (i + 1) d0 d1).2.1 (by omega)
    have htype4 := (fieldType_two g.qm (i + 2) d0 d1).2.2 (by omega)
    rw [← hdata] at htype0 htype1 htype3 htype4
    have hread : ∀ m < 3, ∀ k < 2, ∀ v, fieldType g.qm (field isRi).data (i + m) k = .ofBit v →
        uciSoft g field old levels c q
          (bitPosition g isRi old' (g.qm * (i + 3 - 3) + (g.qm * m + k))) =
            signed v (levels (g.symbolIndex isRi (i + m))).val := by
      intro m hm k hk v hv
      rw [Nat.add_sub_cancel, bitPosition_symbol (by omega) (by omega)]
      exact softBits_data (by omega) (by omega) hv
    have hlevel : ∀ m, 0 < (levels (g.symbolIndex isRi (i + m))).val :=
      fun m => (levels (g.symbolIndex isRi (i + m))).property.1
    have hadd0 := hread 0 (by decide) 0 (by decide) d0 htype0
    have hadd1 := hread 0 (by decide) 1 (by decide) d1 htype1
    have hadd3 := hread 1 (by decide) 1 (by decide) d0 htype3
    have hadd4 := hread 2 (by decide) 0 (by decide) d1 htype4
    have hsum0 : 0 < signed d0 (s.decode2bits g.qm
        fun t => bitPosition g isRi old' (g.qm * (i + 3 - 3) + t)).sum0 := by
      simp only [DecodeRun.decode2bits, h.qBits, hadd0, hadd3, signed_add, signed_signed_self]
      have hsign := h.sign.1
      have h0 := hlevel 0
      have h1 := hlevel 1
      omega
    have hsum1 : 0 < signed d1 (s.decode2bits g.qm
        fun t => bitPosition g isRi old' (g.qm * (i + 3 - 3) + t)).sum1 := by
      simp only [DecodeRun.decode2bits, h.qBits, hadd1, hadd4, signed_add, signed_signed_self]
      have hsign := h.sign.2
      have h0 := hlevel 0
      have h2 := hlevel 2
      omega
    exact ⟨h.qBits, by omega, ⟨hsum0.le, hsum1.le⟩, fun _ => ⟨hsum0, hsum1⟩⟩
  · exact absurd hone (by decide)
  · refine ⟨h.qBits, fun hle => h.unread (by omega), h.sign, fun hlt => h.strict ?_⟩
    -- the first group has been read at the symbol with index 3
    omega

theorem twoBitRun (old : Bool → ℕ → ℕ) (old' : ℕ → ℕ) (levels : ℕ → Level) (c q : ℕ → Bool)
    (hdata : (field isRi).data = [d0, d1]) (hn : n ≤ (field isRi).qPrime) :
    TwoBitRun (uciSoft g field old levels c q) d0 d1 n
      ((List.range n).foldl (decodeStep g isRi old' c 2)
        ⟨uciSoft g field old levels c q, 0, 0, 0⟩) := by
  induction n with
  | zero => exact ⟨rfl, fun _ => ⟨rfl, rfl⟩, by simp, by simp⟩
  | succ n ih =>
    rw [List.range_succ, List.foldl_append]
    exact (ih (by omega)).step hdata (by omega)

theorem decodeAckRi_eq (old : Bool → ℕ → ℕ) (old' : ℕ → ℕ) (levels : ℕ → Level) (c q : ℕ → Bool)
    (hdata : (field isRi).data ≠ []) (hq : 3 ≤ (field isRi).qPrime) :
    decodeAckRi g isRi old' c (field isRi).data.length (field isRi).qPrime
        (uciSoft g field old levels c q) =
      if (field isRi).data.length = 2 ∧ (field isRi).qPrime = 3 then [false, false]
      else (field isRi).data := by
  have hlen := (field isRi).length_le
  match hbits : (field isRi).data with
  | [] => exact absurd hbits hdata
  | [d0] =>
    have hrun := oneBitRun old old' levels c q hbits le_rfl
    have hvalue := decide_pos_of_signed (hrun.strict (by omega))
    simp only [decodeAckRi, List.length_singleton, hvalue]
    rfl
  | [d0, d1] =>
    have hrun := twoBitRun old old' levels c q hbits le_rfl
    simp only [decodeAckRi, List.length_cons, List.length_nil, Nat.zero_add, Nat.reduceAdd, if_true,
      true_and]
    split_ifs with hthree
    · obtain ⟨h0, h1⟩ := hrun.unread (by omega)
      rw [h0, h1]
      rfl
    · obtain ⟨h0, h1⟩ := hrun.strict (by omega)
      rw [decide_pos_of_signed h0, decide_pos_of_signed h1]
  | _ :: _ :: _ :: _ =>
    rw [hbits] at hlen
    simp at hlen

end Sums

/-- The positions of both fields are distinct and inside the matrix, and the field is received as
it was sent. -/
structure Delivered (g : Grant) (field : Bool → UciField g) (isRi : Bool) (old : Bool → ℕ → ℕ)
    (old' : ℕ → ℕ) (levels : ℕ → Level) (c q : ℕ → Bool) : Prop where
  distinct : ((uciBits g field old).map UciBit.position).Nodup
  inside : ∀ b ∈ uciBits g field old, b.position < g.nofBits
  decoded : decodeAckRi g isRi old' c (field isRi).data.length (field isRi).qPrime
    (softBits g levels c (puschBits g (uciBits g field old) c q)) = (field isRi).data

/-- HARQ-ACK and RI are received, but for two bits on three symbols that are not both zero. -/
theorem delivered_iff (g : Grant) (field : Bool → UciField g) (isRi : Bool) (old : Bool → ℕ → ℕ)
    (old' : ℕ → ℕ) (levels : ℕ → Level) (c q : ℕ → Bool) (hdata : (field isRi).data ≠ [])
    (hq : 3 ≤ (field isRi).qPrime) :
    Delivered g field isRi old old' levels c q ↔
      ((field isRi).data.length = 2 → (field isRi).qPrime = 3 →
        (field isRi).data = [false, false]) := by
  have hvalue := decodeAckRi_eq old old' levels c q hdata hq
  constructor
  · intro h hlen hthree
    have hdecoded := h.decoded
    rw [← uciSoft, hvalue, if_pos ⟨hlen, hthree⟩] at hdecoded
    exact hdecoded.symm
  · intro hcond
    refine ⟨uciBits_nodup field old, fun b hb => uciBits_position_lt hb, ?_⟩
    rw [← uciSoft, hvalue]
    split_ifs with hthree
    · exact (hcond hthree.1 hthree.2).symm
    · rfl

def oneBlock : Grant := ⟨1, by decide, true, false, 2, by decide⟩

def twoAcks (qPrime : ℕ) (hle : qPrime ≤ 4 * oneBlock.rows) (isRi : Bool) : UciField oneBlock :=
  if isRi then ⟨[], by decide, 0, by decide, fun _ => rfl⟩
  else ⟨[true, false], by decide, qPrime, hle, fun h => absurd h (by decide)⟩

/-- With four symbols the group is read. -/
theorem delivered_iff_four :
    Delivered oneBlock (twoAcks 4 (by decide)) false (fun _ => id) id (fun _ => ⟨1, by decide⟩)
        (fun p => p % 2 = 0) (fun _ => false) ↔ True := by
  have h := delivered_iff oneBlock (twoAcks 4 (by decide)) false (fun _ => id) id
    (fun _ => ⟨1, by decide⟩) (fun p => p % 2 = 0) (fun _ => false) (by decide) (by decide)
  exact h.trans ⟨fun _ => trivial, fun _ _ hthree => absurd hthree (by decide)⟩

/-- With three symbols an ACK is read as a NACK. -/
theorem ack_group_unread :
    (twoAcks 3 (by decide) false).data ≠ [] ∧ 3 ≤ (twoAcks 3 (by decide) false).qPrime ∧
      ¬ Delivered oneBlock (twoAcks 3 (by decide)) false (fun _ => id) id
        (fun _ => ⟨1, by decide⟩) (fun p => p % 2 = 0) (fun _ => false) := by
  refine ⟨by decide, by decide, fun h => ?_⟩
  have hdecoded := h.decoded
  exact absurd (congrArg List.head? hdecoded) (by decide)

end Uci

end SrsLte
