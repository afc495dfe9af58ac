import SrsLte.PerTypes
import SrsLte.PerWholeNumber

/-!
# Packing and unpacking length determinants

Both variants of the decoder read one octet that begins with a zero, or two that begin with a one
and a zero. The aligned encoder also has a third form, which the decoder rejects.
-/

namespace SrsLte

open BitField BitRef

variable {b c : BitRef} {val bits old : ℕ} {aligned : Bool} {mem : Memory}

def BitRef.entry (b : BitRef) (aligned : Bool) : BitRef :=
  if aligned then b.advance b.padding else b

def BitRef.Enters (b : BitRef) (aligned : Bool) : Prop := aligned = true → b.Room b.padding

def LengthField (mem : Memory) (pos val bits : ℕ) : Prop :=
  bits = 8 ∧ val < 128 ∧ field mem pos 8 = val ∨
    bits = 16 ∧ val < 16384 ∧ field mem pos 16 = 2 ^ 15 + val

def LengthAt (c : BitRef) (val bits : ℕ) : Prop :=
  c.Room bits ∧ LengthField c.mem c.pos val bits

theorem entry_withMem : (b.withMem mem).entry aligned = (b.entry aligned).withMem mem := by
  cases aligned <;> rfl

theorem enters_withMem : (b.withMem mem).Enters aligned ↔ b.Enters aligned := Iff.rfl

theorem mem_entry : (b.entry aligned).mem = b.mem := by cases aligned <;> rfl

theorem unpackLength_short (hroom : b.Room 8) (hval : field b.mem b.pos 8 < 128) :
    unpackLength old b false = ⟨field b.mem b.pos 8, b.advance 8, true⟩ := by
  have hsplit : field b.mem b.pos 8 = field b.mem b.pos 1 * 2 ^ 7 + field b.mem (b.pos + 1) 7 :=
    field_add _ _ 1 7
  have hzero : field b.mem b.pos 1 = 0 := by omega
  have hrest : field b.mem (b.pos + 1) 7 = field b.mem b.pos 8 := by omega
  have hroom' : (b.advance 1).Room 7 := room_rest hroom
  simp only [unpackLength, Bool.not_false, if_true, unpack_spec (by decide) (room_mono hroom
    (by decide : 1 ≤ 8)), unpacked_handleCode_true, hzero, unpack_spec (by decide) hroom',
    pos_advance, mem_advance, hrest, advance_advance]

theorem unpackLength_long (hroom : b.Room 16) (hlow : 2 ^ 15 ≤ field b.mem b.pos 16)
    (hhigh : field b.mem b.pos 16 < 2 ^ 15 + 2 ^ 14) :
    unpackLength old b false = ⟨field b.mem b.pos 16 - 2 ^ 15, b.advance 16, true⟩ := by
  have hsplit : field b.mem b.pos 16 = field b.mem b.pos 1 * 2 ^ 15 + field b.mem (b.pos + 1) 15 :=
    field_add _ _ 1 15
  have hsplit' : field b.mem (b.pos + 1) 15 =
      field b.mem (b.pos + 1) 1 * 2 ^ 14 + field b.mem (b.pos + 2) 14 := field_add _ _ 1 14
  have hfirst := field_lt b.mem b.pos 1
  have hrest := field_lt b.mem (b.pos + 1) 15
  have hone : field b.mem b.pos 1 ≠ 0 := by omega
  have hzero : field b.mem (b.pos + 1) 1 = 0 := by omega
  have hval : field b.mem (b.pos + 2) 14 = field b.mem b.pos 16 - 2 ^ 15 := by omega
  have hrest₁ : (b.advance 1).Room 15 := room_rest hroom
  have hroom₁ : (b.advance 1).Room 1 := room_mono hrest₁ (by decide)
  have hroom₂ : (b.advance 2).Room 14 := room_rest hroom
  simp only [unpackLength, Bool.not_false, if_true, unpack_spec (by decide) (room_mono hroom
    (by decide : 1 ≤ 16)), unpacked_handleCode_true, if_neg hone, unpack_spec (by decide) hroom₁,
    pos_advance, mem_advance, hzero, advance_advance, unpack_spec (by decide) hroom₂, hval]

theorem unpackLength_aligned_short (hpad : b.Room b.padding) (hroom : (b.advance b.padding).Room 8)
    (hval : field b.mem (b.advance b.padding).pos 8 < 128) :
    unpackLength old b true =
      ⟨field b.mem (b.advance b.padding).pos 8, (b.advance b.padding).advance 8, true⟩ := by
  simp only [unpackLength, Bool.not_true, Bool.false_eq_true, if_false, alignBytes_spec hpad,
    ofCode_eq, unpacked_handleCode_true, unpack_spec (by decide) hroom, mem_advance, if_pos hval]

theorem unpackLength_aligned_long (hpad : b.Room b.padding)
    (hroom : (b.advance b.padding).Room 16)
    (hlow : 2 ^ 15 ≤ field b.mem (b.advance b.padding).pos 16)
    (hhigh : field b.mem (b.advance b.padding).pos 16 < 2 ^ 15 + 2 ^ 14) :
    unpackLength old b true =
      ⟨field b.mem (b.advance b.padding).pos 16 - 2 ^ 15, (b.advance b.padding).advance 16,
        true⟩ := by
  generalize hc : b.advance b.padding = c at *
  have hmem : b.mem = c.mem := by rw [← hc, mem_advance]
  rw [hmem] at hlow hhigh ⊢
  have hsplit : field c.mem c.pos 16 = field c.mem c.pos 8 * 2 ^ 8 + field c.mem (c.pos + 8) 8 :=
    field_add _ _ 8 8
  have hoctet := field_lt c.mem (c.pos + 8) 8
  have hfirst : ¬field c.mem c.pos 8 < 128 := by omega
  have hsecond : field c.mem c.pos 8 - 128 < 64 := by omega
  have hval : (field c.mem c.pos 8 - 128) * 256 + field c.mem (c.pos + 8) 8 =
      field c.mem c.pos 16 - 2 ^ 15 := by omega
  have hroom' : (c.advance 8).Room 8 := room_rest hroom
  simp only [unpackLength, Bool.not_true, Bool.false_eq_true, if_false, alignBytes_spec hpad, hc,
    ofCode_eq, unpacked_handleCode_true, unpack_spec (by decide) (room_mono hroom
    (by decide : 8 ≤ 16)), if_neg hfirst, if_pos hsecond, unpack_spec (by decide) hroom',
    mem_advance, pos_advance, hval, advance_advance]

theorem unpackLength_at (henter : b.Enters aligned) (h : LengthAt (b.entry aligned) val bits) :
    unpackLength old b aligned = ⟨val, (b.entry aligned).advance bits, true⟩ := by
  obtain ⟨hroom, ⟨rfl, hval, hfield⟩ | ⟨rfl, hval, hfield⟩⟩ := h
  · rw [mem_entry] at hfield
    have hlt : field b.mem (b.entry aligned).pos 8 < 128 := by omega
    rw [← hfield]
    cases aligned
    · exact unpackLength_short hroom hlt
    · exact unpackLength_aligned_short (henter rfl) hroom hlt
  · rw [mem_entry] at hfield
    have hlow : 2 ^ 15 ≤ field b.mem (b.entry aligned).pos 16 := by omega
    have hhigh : field b.mem (b.entry aligned).pos 16 < 2 ^ 15 + 2 ^ 14 := by omega
    have hval' : val = field b.mem (b.entry aligned).pos 16 - 2 ^ 15 := by omega
    rw [hval']
    cases aligned
    · exact unpackLength_long hroom hlow hhigh
    · exact unpackLength_aligned_long (henter rfl) hroom hlow hhigh

theorem lengthAt_short (hroom : c.Room 8) (hval : field c.mem c.pos 8 < 128) :
    LengthAt c (field c.mem c.pos 8) 8 := ⟨hroom, .inl ⟨rfl, hval, rfl⟩⟩

theorem lengthAt_long (hroom : c.Room 16) (hlow : 2 ^ 15 ≤ field c.mem c.pos 16)
    (hhigh : field c.mem c.pos 16 < 2 ^ 15 + 2 ^ 14) :
    LengthAt c (field c.mem c.pos 16 - 2 ^ 15) 16 :=
  ⟨hroom, .inr ⟨rfl, by omega, by omega⟩⟩

theorem unpackLength_unaligned_ok (hok : (unpackLength old b false).ok = true) :
    ∃ val bits, LengthAt b val bits := by
  simp only [unpackLength, Bool.not_false, if_true] at hok
  obtain ⟨hext, hrest⟩ := unpacked_handleCode_ok.mp hok
  obtain ⟨-, hroom⟩ := unpack_ok.mp hext
  rw [unpack_spec (by decide) hroom] at hrest
  dsimp only at hrest
  split_ifs at hrest with hzero
  · obtain ⟨-, hroom'⟩ := unpack_ok.mp hrest
    have hsplit : field b.mem b.pos 8 = field b.mem b.pos 1 * 2 ^ 7 + field b.mem (b.pos + 1) 7 :=
      field_add _ _ 1 7
    have hlt := field_lt b.mem (b.pos + 1) 7
    exact ⟨_, _, lengthAt_short (room_append hroom hroom') (by omega)⟩
  · obtain ⟨hext', hrest'⟩ := unpacked_handleCode_ok.mp hrest
    obtain ⟨-, hroom'⟩ := unpack_ok.mp hext'
    rw [unpack_spec (by decide) hroom'] at hrest'
    dsimp only at hrest'
    split_ifs at hrest' with hzero'
    obtain ⟨-, hroom''⟩ := unpack_ok.mp hrest'
    have hsplit : field b.mem b.pos 16 =
        field b.mem b.pos 1 * 2 ^ 15 + field b.mem (b.pos + 1) 15 := field_add _ _ 1 15
    have hsplit' : field b.mem (b.pos + 1) 15 =
        field b.mem (b.pos + 1) 1 * 2 ^ 14 + field b.mem (b.pos + 2) 14 := field_add _ _ 1 14
    have hbit := field_lt b.mem b.pos 1
    have hlt := field_lt b.mem (b.pos + 2) 14
    rw [pos_advance, mem_advance] at hzero'
    have hroom₂ : b.Room (1 + 1) := room_append hroom hroom'
    have hroom₃ : (b.advance (1 + 1)).Room 14 := by
      rw [← advance_advance]
      exact hroom''
    exact ⟨_, _, lengthAt_long (room_append hroom₂ hroom₃) (by omega) (by omega)⟩

theorem unpackLength_aligned_ok (hok : (unpackLength old b true).ok = true) :
    b.Room b.padding ∧ ∃ val bits, LengthAt (b.advance b.padding) val bits := by
  simp only [unpackLength, Bool.not_true, Bool.false_eq_true, if_false] at hok
  obtain ⟨halign, hrest⟩ := unpacked_handleCode_ok.mp hok
  have hpad := alignBytes_ok.mp halign
  refine ⟨hpad, ?_⟩
  rw [ofCode_eq, alignBytes_spec hpad] at hrest
  generalize b.advance b.padding = c at hrest ⊢
  obtain ⟨hfirst, hrest⟩ := unpacked_handleCode_ok.mp hrest
  obtain ⟨-, hroom⟩ := unpack_ok.mp hfirst
  rw [unpack_spec (by decide) hroom] at hrest
  dsimp only at hrest
  split_ifs at hrest with hshort hlong
  · exact ⟨_, _, lengthAt_short hroom hshort⟩
  · obtain ⟨-, hroom'⟩ := unpack_ok.mp (unpacked_handleCode_ok.mp hrest).1
    have hsplit : field c.mem c.pos 16 =
        field c.mem c.pos 8 * 2 ^ 8 + field c.mem (c.pos + 8) 8 := field_add _ _ 8 8
    have hlt := field_lt c.mem (c.pos + 8) 8
    exact ⟨_, _, lengthAt_long (room_append hroom hroom') (by omega) (by omega)⟩

theorem unpackLength_ok (hok : (unpackLength old b aligned).ok = true) :
    b.Enters aligned ∧ ∃ val bits, LengthAt (b.entry aligned) val bits ∧
      unpackLength old b aligned = ⟨val, (b.entry aligned).advance bits, true⟩ := by
  have hat : b.Enters aligned ∧ ∃ val bits, LengthAt (b.entry aligned) val bits := by
    cases aligned
    · exact ⟨fun h => absurd h Bool.false_ne_true, unpackLength_unaligned_ok hok⟩
    · obtain ⟨hpad, h⟩ := unpackLength_aligned_ok hok
      exact ⟨fun _ => hpad, h⟩
  obtain ⟨henter, val, bits, h⟩ := hat
  exact ⟨henter, val, bits, h, unpackLength_at henter h⟩

theorem LengthAt.agree {mem' : Memory} (h : LengthAt (c.withMem mem) val bits)
    (hagree : AgreeBelow (c.pos + bits) mem mem') : LengthAt (c.withMem mem') val bits := by
  obtain ⟨hroom, ⟨rfl, hval, hfield⟩ | ⟨rfl, hval, hfield⟩⟩ := h
  · exact ⟨hroom, .inl ⟨rfl, hval, (hagree.field (Nat.le_refl _)).trans hfield⟩⟩
  · exact ⟨hroom, .inr ⟨rfl, hval, (hagree.field (Nat.le_refl _)).trans hfield⟩⟩

def packLengthForms (b : BitRef) (val : ℕ) : BitRef × Bool :=
  if val < 128 then b.pack val 8 else handleCode (b.pack 0b10 2) fun b => b.pack val 14

theorem packLength_eq (hval : val < 16384) :
    packLength b val aligned =
      if aligned then handleCode b.alignBytes fun b => packLengthForms b val
      else packLengthForms b val := by
  have hle : ¬val > 65536 := by omega
  cases aligned <;> simp only [packLength, packLengthForms, hval, hle, Bool.not_false,
    Bool.not_true, Bool.false_eq_true, if_true, if_false]

theorem packLengthForms_spec (hval : val < 16384) (hok : (packLengthForms b val).2 = true) :
    ∃ mem bits, packLengthForms b val = ((b.advance bits).withMem mem, true) ∧
      LengthAt (b.withMem mem) val bits ∧ (val < 128 → bits = 8) := by
  unfold packLengthForms at hok ⊢
  split_ifs at hok ⊢ with hshort
  · obtain ⟨hn, hroom⟩ := pack_ok.mp hok
    obtain ⟨mem, hpack, -, hfield⟩ := pack_spec hn hroom val
    rw [Nat.mod_eq_of_lt (by omega)] at hfield
    exact ⟨mem, 8, hpack, ⟨hroom, .inl ⟨rfl, hshort, hfield⟩⟩, fun _ => rfl⟩
  · obtain ⟨mem, -, hfield, -, hroom, hrun⟩ := pack_then hok
    rw [hrun] at hok ⊢
    obtain ⟨hn, hroom'⟩ := pack_ok.mp hok
    obtain ⟨mem', hpack, hagree', hfield'⟩ := pack_spec hn hroom' val
    rw [pos_withMem, pos_advance] at hagree' hfield'
    rw [mem_withMem] at hagree'
    rw [Nat.mod_eq_of_lt (by omega)] at hfield'
    have hsplit : field mem' b.pos 16 =
        field mem' b.pos 2 * 2 ^ 14 + field mem' (b.pos + 2) 14 := field_add _ _ 2 14
    rw [hagree'.field (Nat.le_refl _), hfield, hfield'] at hsplit
    refine ⟨mem', 16, ?_, ⟨room_append hroom hroom', .inr ⟨rfl, hval, hsplit⟩⟩,
      fun h => absurd h hshort⟩
    rw [hpack, advance_withMem, withMem_withMem, advance_advance]

theorem packLength_spec (hval : val < 16384) (hok : (packLength b val aligned).2 = true) :
    b.Enters aligned ∧ ∃ mem bits,
      packLength b val aligned = (((b.entry aligned).advance bits).withMem mem, true) ∧
      LengthAt ((b.entry aligned).withMem mem) val bits ∧ (val < 128 → bits = 8) := by
  rw [packLength_eq hval] at hok ⊢
  cases aligned
  · exact ⟨fun h => absurd h Bool.false_ne_true, packLengthForms_spec hval hok⟩
  · simp only [if_true] at hok ⊢
    obtain ⟨halign, hrest⟩ := handleCode_ok.mp hok
    have hpad := alignBytes_ok.mp halign
    rw [alignBytes_spec hpad] at hrest ⊢
    exact ⟨fun _ => hpad, packLengthForms_spec hval hrest⟩

def lengthSize (len : ℕ) : ℕ := if len < 128 then 8 else 16

theorem packLengthForms_ok (hroom : b.Room (lengthSize val)) :
    (packLengthForms b val).2 = true := by
  unfold packLengthForms
  unfold lengthSize at hroom
  split_ifs at hroom ⊢ with hshort
  · exact pack_ok.mpr ⟨by decide, hroom⟩
  · obtain ⟨mem, hpack, -⟩ := pack_spec (by decide) (room_mono hroom (by decide : 2 ≤ 16)) 0b10
    rw [hpack, handleCode_true]
    have hrest : (b.advance 2).Room 14 := room_rest hroom
    exact pack_ok.mpr ⟨by decide, hrest⟩

theorem packLength_ok (hval : val < 16384) (henter : b.Enters aligned)
    (hroom : (b.entry aligned).Room (lengthSize val)) : (packLength b val aligned).2 = true := by
  rw [packLength_eq hval]
  cases aligned
  · exact packLengthForms_ok hroom
  · simp only [if_true]
    rw [alignBytes_spec (henter rfl), handleCode_true]
    exact packLengthForms_ok hroom

theorem packLength_third (hlow : 16384 ≤ val) (hhigh : val ≤ 65536)
    (hok : (packLength b val true).2 = true) :
    (b.advance b.padding).Room 24 ∧
      field (packLength b val true).1.mem (b.advance b.padding).pos 2 = 3 := by
  have h₁ : ¬val > 65536 := by omega
  have h₂ : ¬val < 128 := by omega
  have h₃ : ¬val < 16384 := by omega
  simp only [packLength, Bool.not_true, Bool.false_eq_true, if_false, h₁, h₂, h₃] at hok ⊢
  obtain ⟨halign, hrest⟩ := handleCode_ok.mp hok
  rw [alignBytes_spec (alignBytes_ok.mp halign)] at hrest ⊢
  rw [handleCode_true]
  generalize b.advance b.padding = c at hrest ⊢
  obtain ⟨mem, hagree, hfield, -, hroom, hrun⟩ := pack_then hrest
  rw [hrun] at hrest ⊢
  obtain ⟨mem', hagree', -, -, hroom', hrun'⟩ := pack_then hrest
  rw [hrun'] at hrest ⊢
  obtain ⟨hn, hroom''⟩ := pack_ok.mp hrest
  obtain ⟨mem'', hpack, hagree'', -⟩ := pack_spec hn hroom'' (val - val / 16384 * 16384)
  rw [hpack]
  simp only [pos_withMem, pos_advance, mem_withMem] at hagree' hagree'' ⊢
  constructor
  · have hsix : c.Room (2 + 6) := room_append hroom hroom'
    have hlast : (c.advance (2 + 6)).Room 16 := by
      rw [← advance_advance]
      exact hroom''
    exact room_append hsix hlast
  · rw [hagree''.field (Nat.le_add_right _ _), hagree'.field (Nat.le_refl _), hfield]
    rfl

theorem packLength_third_ok (hlow : 16384 ≤ val) (hhigh : val ≤ 65536) (hpad : b.Room b.padding)
    (hroom : (b.advance b.padding).Room 24) : (packLength b val true).2 = true := by
  have h₁ : ¬val > 65536 := by omega
  have h₂ : ¬val < 128 := by omega
  have h₃ : ¬val < 16384 := by omega
  simp only [packLength, Bool.not_true, Bool.false_eq_true, if_false, h₁, h₂, h₃]
  rw [alignBytes_spec hpad, handleCode_true]
  generalize b.advance b.padding = c at hroom ⊢
  have hsix : (c.advance 2).Room (6 + 16) := room_rest hroom
  have hlast : ((c.advance 2).advance 6).Room 16 := room_rest hsix
  obtain ⟨mem, hrun, -⟩ := pack_spec (by decide) (room_mono hroom (by decide : 2 ≤ 24)) 0b11
  have hroom₆ : ((c.advance 2).withMem mem).Room 6 := room_mono hsix (by decide)
  obtain ⟨mem', hrun', -⟩ := pack_spec (by decide) hroom₆ (val / 16384)
  rw [hrun, handleCode_true, hrun', handleCode_true, pack_ok]
  exact ⟨by decide, hlast⟩

/-- A length packed successfully is unpacked from the produced bits, to the same cursor. -/
def LengthRoundTrip (b : BitRef) (val : ℕ) (aligned : Bool) : Prop :=
  ∀ old, (packLength b val aligned).2 = true →
    unpackLength old (b.withMem (packLength b val aligned).1.mem) aligned =
      ⟨val, (packLength b val aligned).1, true⟩

/-- The third form is not used: unaligned, or below 16K, or above 64K, or no room for it. -/
def LengthEncodes (b : BitRef) (val : ℕ) (aligned : Bool) : Prop :=
  aligned = true → val < 16384 ∨ 65536 < val ∨ ¬b.Room b.padding ∨
    ¬(b.advance b.padding).Room 24

theorem lengthRoundTrip_of_lt (hval : val < 16384) : LengthRoundTrip b val aligned := by
  intro old hok
  obtain ⟨henter, mem, bits, hpack, hat, -⟩ := packLength_spec hval hok
  rw [hpack]
  have hat' : LengthAt ((b.withMem mem).entry aligned) val bits := by
    rw [entry_withMem]
    exact hat
  rw [mem_withMem, unpackLength_at (enters_withMem.mpr henter) hat', entry_withMem,
    advance_withMem]

theorem lengthRoundTrip_iff : LengthRoundTrip b val aligned ↔ LengthEncodes b val aligned := by
  unfold LengthEncodes
  by_cases hval : val < 16384
  · exact iff_of_true (lengthRoundTrip_of_lt hval) fun _ => .inl hval
  cases aligned
  · refine iff_of_true ?_ fun h => absurd h Bool.false_ne_true
    intro old hok
    have hshort : ¬val < 128 := by omega
    simp only [packLength, Bool.not_false, if_true, if_neg hshort, if_neg hval] at hok
    exact absurd hok Bool.false_ne_true
  by_cases hlong : 65536 < val
  · refine iff_of_true ?_ fun _ => .inr (.inl hlong)
    intro old hok
    simp only [packLength, Bool.not_true, Bool.false_eq_true, if_false, if_pos hlong] at hok
  simp only [hval, hlong, false_or, true_implies]
  by_cases hroom : b.Room b.padding ∧ (b.advance b.padding).Room 24
  · refine iff_of_false ?_ (by simp only [hroom, not_true_eq_false, or_self, not_false_eq_true])
    intro h
    have hok := packLength_third_ok (Nat.not_lt.mp hval) (Nat.not_lt.mp hlong) hroom.1 hroom.2
    have hthird := (packLength_third (Nat.not_lt.mp hval) (Nat.not_lt.mp hlong) hok).2
    have hrun := h 0 hok
    obtain ⟨-, val', bits, ⟨-, hat⟩, -⟩ := unpackLength_ok (congrArg Unpacked.ok hrun)
    rw [entry_withMem, mem_withMem, pos_withMem] at hat
    change _ ∨ _ = 16 ∧ _ at hat
    generalize (packLength b val true).1.mem = mem at hat hthird
    have hentry : b.entry true = b.advance b.padding := rfl
    rw [hentry] at hat
    generalize (b.advance b.padding).pos = p at hat hthird
    have hsplit : field mem p 8 = field mem p 2 * 2 ^ 6 + field mem (p + 2) 6 := field_add _ _ 2 6
    have hsplit' : field mem p 16 = field mem p 2 * 2 ^ 14 + field mem (p + 2) 14 :=
      field_add _ _ 2 14
    omega
  · refine iff_of_true ?_ (not_and_or.mp hroom)
    intro old hok
    have hthird := (packLength_third (Nat.not_lt.mp hval) (Nat.not_lt.mp hlong) hok).1
    have h₁ : ¬val > 65536 := hlong
    simp only [packLength, Bool.not_true, Bool.false_eq_true, if_false, h₁] at hok
    exact absurd ⟨alignBytes_ok.mp (handleCode_ok.mp hok).1, hthird⟩ hroom

end SrsLte
