import SrsLte.PerTypes
import SrsLte.PerLengthAgreement

/-!
# Skipping extensions

A guard skips what is left of its extension in one call of `unpack`, which reads up to 32 bits. An
extension is left exactly behind its end when no more than that is left.
-/

namespace SrsLte

open BitField BitRef

variable {b c w : BitRef} {mem : Memory} {len bits u nofSupported : ℕ} {used : GroupDecoders}
  {align : Bool}

theorem guard_init (henter : b.Enters align) (h : LengthAt (b.entry align) len bits) :
    VarlengthFieldUnpackGuard.init b align = ⟨len, (b.entry align).advance bits⟩ := by
  rw [VarlengthFieldUnpackGuard.init, unpackLength_at henter h]

section

variable (hu : u ≤ 8 * len) (hlen : 8 * len < 2 ^ 32)
include hu hlen

theorem guard_left :
    toUint32 (len * 8 - (((c.advance u).pos : ℤ) - c.pos)) = 8 * len - u := by
  have hleft : (len : ℤ) * 8 - (((c.advance u).pos : ℤ) - c.pos) = ((8 * len - u : ℕ) : ℤ) := by
    rw [pos_advance]
    omega
  rw [hleft, toUint32_of_lt (by omega)]

theorem guard_destruct (hroom : c.Room (8 * len)) (hleft : 8 * len ≤ 32 + u) :
    VarlengthFieldUnpackGuard.destruct ⟨len, c⟩ (c.advance u) = c.advance (8 * len) := by
  have hsplit : u + (8 * len - u) = 8 * len := by omega
  have hroom' : (c.advance u).Room (8 * len - u) := room_rest (hsplit.symm ▸ hroom)
  rw [VarlengthFieldUnpackGuard.destruct, guard_left hu hlen, unpack_spec (by omega) hroom',
    advance_advance, hsplit]

theorem guard_destruct_stuck (hleft : 32 + u < 8 * len) :
    VarlengthFieldUnpackGuard.destruct ⟨len, c⟩ (c.advance u) = c.advance u := by
  rw [VarlengthFieldUnpackGuard.destruct, guard_left hu hlen, unpack, if_pos (by omega)]

theorem guard_lands (hroom : c.Room (8 * len)) :
    VarlengthFieldUnpackGuard.destruct ⟨len, c⟩ (c.advance u) = c.advance (8 * len) ↔
      8 * len ≤ 32 + u := by
  constructor
  · intro h
    by_contra hstuck
    rw [guard_destruct_stuck hu hlen (by omega)] at h
    have hpos := congrArg pos h
    rw [pos_advance, pos_advance] at hpos
    omega
  · exact guard_destruct hu hlen hroom

end

theorem guard_init_fragmented (hroom : b.Room 2) (hfield : field b.mem b.pos 2 = 3) :
    VarlengthFieldUnpackGuard.init b false = ⟨0, b.advance 2⟩ := by
  have hsplit : field b.mem b.pos 2 = field b.mem b.pos 1 * 2 ^ 1 + field b.mem (b.pos + 1) 1 :=
    field_add _ _ 1 1
  have hfirst := field_lt b.mem b.pos 1
  have hsecond := field_lt b.mem (b.pos + 1) 1
  have hone : field b.mem b.pos 1 ≠ 0 := by omega
  have hone' : field b.mem (b.pos + 1) 1 ≠ 0 := by omega
  have hrest : (b.advance 1).Room 1 := room_rest hroom
  have hread : unpackLength 0 b false = ⟨0, b.advance 2, false⟩ := by
    simp only [unpackLength, Bool.not_false, if_true, unpack_spec (by decide) (room_mono hroom
      (by decide : 1 ≤ 2)), unpacked_handleCode_true, if_neg hone, unpack_spec (by decide) hrest,
      pos_advance, mem_advance, if_neg hone', advance_advance]
  rw [VarlengthFieldUnpackGuard.init, hread]

theorem guard_destruct_fragmented (hu : u < 2 ^ 31) :
    VarlengthFieldUnpackGuard.destruct ⟨0, c⟩ (c.advance u) = c.advance u := by
  by_cases hzero : u = 0
  · subst hzero
    have hroom : (c.advance 0).Room (8 * 0 - 0) := .inl rfl
    rw [VarlengthFieldUnpackGuard.destruct, guard_left (Nat.zero_le _) (Nat.two_pow_pos 32),
      unpack_spec (by decide) hroom, advance_advance]
  · have hleft : toUint32 (((0 : ℕ) : ℤ) * 8 - (((c.advance u).pos : ℤ) - c.pos)) > 32 := by
      unfold toUint32
      rw [pos_advance]
      omega
    rw [VarlengthFieldUnpackGuard.destruct, unpack, if_pos hleft]

/-- The open type of so many octets stands at the position and ends at `stop`. From 16K octets on
it is fragmented, and its length begins with two ones. -/
def OpenTypeAt (mem : Memory) (pos len stop : ℕ) : Prop :=
  (∃ bits, LengthField mem pos len bits ∧ stop = pos + bits + 8 * len) ∨
    (16384 ≤ len ∧ field mem pos 2 = 3 ∧ pos + 16 + 8 * len ≤ stop)

/-- What the peer packed: the octets of each extension group that is present, where the presence
flags begin, and where the extension of each group begins. -/
structure ExtensionMessage where
  groups : List (Option ℕ)
  flagsAt : ℕ
  start : ℕ → ℕ

namespace ExtensionMessage

variable (m : ExtensionMessage)

def cursor (b : BitRef) (i : ℕ) : BitRef := b.advance (m.start i - b.pos)

/-- The message stands at the cursor. Up to 64 groups are counted in seven bits; the count of more
groups begins with a one. The bits of a buffer are counted in an `int`. -/
structure At (b : BitRef) : Prop where
  groups_ne : m.groups ≠ []
  count : m.groups.length ≤ 64 → field b.mem b.pos 7 = m.groups.length - 1 ∧ m.flagsAt = b.pos + 7
  count_long : 64 < m.groups.length → field b.mem b.pos 1 = 1 ∧ b.pos < m.flagsAt
  flag : ∀ i (h : i < m.groups.length),
    field b.mem (m.flagsAt + i) 1 = (m.groups[i].isSome).toNat
  start_zero : m.start 0 = m.flagsAt + m.groups.length
  absent : ∀ i, m.groups[i]? = some none → m.start (i + 1) = m.start i
  present : ∀ i len, m.groups[i]? = some (some len) →
    OpenTypeAt b.mem (m.start i) len (m.start (i + 1))
  stop_le : m.start m.groups.length ≤ 8 * b.max
  max_lt : 8 * b.max < 2 ^ 31

/-- The flags are read, and after each group the cursor is exactly behind its extension. -/
def Decoded (b : BitRef) (nofSupported : ℕ) (used : GroupDecoders) : Prop :=
  (unpackGroups b).ok = true ∧ ∀ i ≤ m.groups.length,
    decodeGroups nofSupported used 0 ((unpackGroups b).val.take i) (unpackGroups b).cur =
      m.cursor b i

/-- The bits that a known decoder leaves, or all of an unknown extension, are at most 32. -/
def Skippable (b : BitRef) (nofSupported : ℕ) (used : GroupDecoders) : Prop :=
  m.groups.length ≤ 64 ∧ ∀ i len, m.groups[i]? = some (some len) →
    len < 16384 ∧ 8 * len ≤ 32 +
      if i < nofSupported then used i (b.advance (m.start (i + 1) - 8 * len - b.pos)) else 0

end ExtensionMessage

def Within (m : ExtensionMessage) (used : GroupDecoders) : Prop :=
  ∀ i len, m.groups[i]? = some (some len) → ∀ c, used i c ≤ 8 * len

def groupUsed (nofSupported : ℕ) (used : GroupDecoders) (i : ℕ) (c : BitRef) : ℕ :=
  if i < nofSupported then used i c else 0

theorem decodeGroup_eq (i : ℕ) :
    decodeGroup nofSupported used i b =
      (VarlengthFieldUnpackGuard.init b false).destruct
        ((VarlengthFieldUnpackGuard.init b false).bref0.advance
          (groupUsed nofSupported used i (VarlengthFieldUnpackGuard.init b false).bref0)) := by
  unfold decodeGroup groupUsed
  dsimp only
  split_ifs
  · rfl
  · rw [advance_zero]

theorem decodeGroup_lands {i : ℕ} (h : LengthAt b len bits)
    (hu : groupUsed nofSupported used i (b.advance bits) ≤ 8 * len)
    (hroom : (b.advance bits).Room (8 * len)) :
    decodeGroup nofSupported used i b = b.advance (bits + 8 * len) ↔
      8 * len ≤ 32 + groupUsed nofSupported used i (b.advance bits) := by
  have hlen : 8 * len < 2 ^ 32 := by
    obtain ⟨-, ⟨-, hlen, -⟩ | ⟨-, hlen, -⟩⟩ := h <;> omega
  have hinit : VarlengthFieldUnpackGuard.init b false = ⟨len, b.advance bits⟩ :=
    guard_init (fun h => absurd h Bool.false_ne_true) h
  rw [decodeGroup_eq, hinit, ← advance_advance]
  exact guard_lands hu hlen hroom

theorem decodeGroup_fragmented {i : ℕ} (hroom : b.Room 2) (hfield : field b.mem b.pos 2 = 3)
    (hu : groupUsed nofSupported used i (b.advance 2) < 2 ^ 31) :
    decodeGroup nofSupported used i b =
      b.advance (2 + groupUsed nofSupported used i (b.advance 2)) := by
  rw [decodeGroup_eq, guard_init_fragmented hroom hfield, ← advance_advance]
  exact guard_destruct_fragmented hu

theorem openTypeAt_le {p stop : ℕ} (h : OpenTypeAt mem p len stop) : p + 8 * len ≤ stop := by
  obtain ⟨bits, -, hstop⟩ | ⟨-, -, hstop⟩ := h <;> omega

namespace ExtensionMessage

variable {m : ExtensionMessage}

theorem At.start_le_succ (hm : m.At b) {i : ℕ} (hi : i < m.groups.length) :
    m.start i ≤ m.start (i + 1) := by
  cases hg : m.groups[i] with
  | none => exact (hm.absent i (List.getElem?_eq_some_iff.mpr ⟨hi, hg⟩)).ge
  | some len =>
    have hopen := hm.present i len (List.getElem?_eq_some_iff.mpr ⟨hi, hg⟩)
    exact (Nat.le_add_right _ _).trans (openTypeAt_le hopen)

theorem At.start_mono (hm : m.At b) {i j : ℕ} (hij : i ≤ j) (hj : j ≤ m.groups.length) :
    m.start i ≤ m.start j := by
  induction hij with
  | refl => exact Nat.le_refl _
  | step _ ih => exact (ih (Nat.le_of_succ_le hj)).trans (hm.start_le_succ hj)

theorem At.pos_le_start (hm : m.At b) {i : ℕ} (hi : i ≤ m.groups.length) : b.pos ≤ m.start i := by
  have hmono := hm.start_mono (Nat.zero_le i) hi
  have hzero := hm.start_zero
  by_cases hcount : m.groups.length ≤ 64
  · have hflags := (hm.count hcount).2
    omega
  · have hflags := (hm.count_long (Nat.not_le.mp hcount)).2
    omega

theorem At.pos_cursor (hm : m.At b) {i : ℕ} (hi : i ≤ m.groups.length) :
    (m.cursor b i).pos = m.start i := by
  have hle := hm.pos_le_start hi
  rw [cursor, pos_advance]
  omega

theorem At.advance_cursor (hm : m.At b) {i n : ℕ} (hi : i ≤ m.groups.length) :
    (m.cursor b i).advance n = b.advance (m.start i + n - b.pos) := by
  have hle := hm.pos_le_start hi
  rw [cursor, advance_advance]
  congr 1
  omega

theorem At.group_step (hm : m.At b) (hw : Within m used) {i len : ℕ}
    (hg : m.groups[i]? = some (some len)) :
    decodeGroup nofSupported used i (m.cursor b i) = m.cursor b (i + 1) ↔
      len < 16384 ∧ 8 * len ≤ 32 + groupUsed nofSupported used i
        (b.advance (m.start (i + 1) - 8 * len - b.pos)) := by
  obtain ⟨hi, -⟩ := List.getElem?_eq_some_iff.mp hg
  have hused : ∀ c, groupUsed nofSupported used i c ≤ 8 * len := by
    intro c
    unfold groupUsed
    split_ifs
    · exact hw i len hg c
    · exact Nat.zero_le _
  have hpos := hm.pos_cursor (Nat.le_of_lt hi)
  have hstop : m.start (i + 1) ≤ 8 * b.max :=
    (hm.start_mono (Nat.succ_le_of_lt hi) le_rfl).trans hm.stop_le
  have hmax : (m.cursor b i).max = b.max := rfl
  have hmem : (m.cursor b i).mem = b.mem := rfl
  have hnext : (m.cursor b (i + 1)).pos = m.start (i + 1) := hm.pos_cursor hi
  rcases hm.present i len hg with ⟨bits, hfield, hend⟩ | ⟨hlong, hfield, hend⟩
  · have hlen : len < 16384 := by
      obtain ⟨-, hlen, -⟩ | ⟨-, hlen, -⟩ := hfield <;> omega
    have hat : LengthAt (m.cursor b i) len bits := by
      refine ⟨.inr ?_, ?_⟩
      · rw [hpos, hmax]
        omega
      · rw [hpos, hmem]
        exact hfield
    have hpayload : (m.cursor b i).advance bits =
        b.advance (m.start (i + 1) - 8 * len - b.pos) := by
      rw [hm.advance_cursor (Nat.le_of_lt hi)]
      congr 1
      omega
    have hroom : ((m.cursor b i).advance bits).Room (8 * len) := by
      right
      rw [pos_advance, max_advance, hpos, hmax]
      omega
    have hcursor : m.cursor b (i + 1) = (m.cursor b i).advance (bits + 8 * len) := by
      rw [hm.advance_cursor (Nat.le_of_lt hi), cursor, hend, Nat.add_assoc]
    rw [hcursor, decodeGroup_lands hat (hused _) hroom, hpayload, and_iff_right hlen]
  · refine iff_of_false ?_ (fun h => absurd h.1 (Nat.not_lt.mpr hlong))
    intro h
    have hbound := hused ((m.cursor b i).advance 2)
    have hmaxLt := hm.max_lt
    have hroom : (m.cursor b i).Room 2 := by
      right
      rw [hpos, hmax]
      omega
    rw [decodeGroup_fragmented hroom (by rw [hmem, hpos]; exact hfield) (by omega)] at h
    have heq := congrArg pos h
    rw [pos_advance, hpos, hnext] at heq
    omega

end ExtensionMessage

theorem unpackFlags_spec (flags : List Bool) (hroom : b.Room flags.length)
    (hfield : ∀ i (h : i < flags.length), field b.mem (b.pos + i) 1 = flags[i].toNat) :
    unpackFlags flags.length b = ⟨flags, b.advance flags.length, true⟩ := by
  induction flags generalizing b with
  | nil =>
    rw [List.length_nil, advance_zero]
    rfl
  | cons flag flags ih =>
    have hfirst : field b.mem b.pos 1 = flag.toNat := hfield 0 (Nat.succ_pos _)
    have hroom' : b.Room (1 + flags.length) := by
      rw [Nat.add_comm]
      exact hroom
    have hrest := ih (b := b.advance 1) (room_rest hroom') (by
      intro i hi
      have hnext := hfield (i + 1) (Nat.succ_lt_succ hi)
      rw [pos_advance, mem_advance, Nat.add_assoc, Nat.add_comm 1 i]
      exact hnext)
    have hbit : decide (flag.toNat ≠ 0) = flag := by cases flag <;> rfl
    rw [List.length_cons, unpackFlags,
      unpack_spec (by decide) (room_mono hroom' (Nat.le_add_right _ _)), unpacked_handleCode_true,
      hrest, hfirst]
    simp only [hbit, advance_advance, Nat.add_comm 1]

namespace ExtensionMessage

variable {m : ExtensionMessage}

def flags (m : ExtensionMessage) : List Bool := m.groups.map Option.isSome

theorem At.unpackGroups_eq (hm : m.At b) (hcount : m.groups.length ≤ 64) :
    unpackGroups b = ⟨m.flags, m.cursor b 0, true⟩ := by
  obtain ⟨hnof, hflags⟩ := hm.count hcount
  have hpos := List.length_pos_iff.mpr hm.groups_ne
  have hstop := (hm.start_mono (Nat.zero_le _) le_rfl).trans hm.stop_le
  have hzero := hm.start_zero
  have hsplit : field b.mem b.pos 7 = field b.mem b.pos 1 * 2 ^ 6 + field b.mem (b.pos + 1) 6 :=
    field_add _ _ 1 6
  have hlow := field_lt b.mem (b.pos + 1) 6
  have hext : field b.mem b.pos 1 = 0 := by omega
  have hval : field b.mem (b.pos + 1) 6 = m.groups.length - 1 := by omega
  have hroom : b.Room 7 := .inr (by omega)
  have hroom₁ : b.Room 1 := room_mono hroom (by decide)
  have hroom₆ : (b.advance 1).Room 6 := room_rest hroom
  have hlength : m.groups.length - 1 + 1 = m.flags.length := by
    rw [flags, List.length_map]
    omega
  have hread := unpackFlags_spec (b := b.advance 7) m.flags (by
      right
      rw [pos_advance, max_advance, ← hlength]
      omega) (by
      intro i hi
      have hi' : i < m.groups.length := by
        rw [flags, List.length_map] at hi
        exact hi
      have hflag := hm.flag i hi'
      rw [hflags] at hflag
      rw [pos_advance, mem_advance, hflag]
      simp only [flags, List.getElem_map])
  have hcursor : m.cursor b 0 = (b.advance 7).advance m.flags.length := by
    rw [cursor, advance_advance, hzero, hflags, flags, List.length_map]
    congr 1
    omega
  simp only [unpackGroups, unpackNormSmallNonNegWholeNumber, unpack_spec (by decide) hroom₁,
    unpacked_handleCode_true, hext, if_true, unpack_spec (by decide) hroom₆, pos_advance,
    mem_advance, hval, advance_advance, hlength, hread, hcursor]

theorem At.unpackGroups_fails (hm : m.At b) (hcount : 64 < m.groups.length) :
    (unpackGroups b).ok = false := by
  have hfield := (hm.count_long hcount).1
  have hpos := hm.pos_le_start (Nat.zero_le _)
  have hflags := (hm.count_long hcount).2
  have hzero := hm.start_zero
  have hstop := (hm.start_mono (Nat.zero_le _) le_rfl).trans hm.stop_le
  have hroom : b.Room 1 := .inr (by omega)
  simp only [unpackGroups, unpackNormSmallNonNegWholeNumber, unpack_spec (by decide) hroom,
    unpacked_handleCode_true, hfield, Nat.one_ne_zero, if_false]
  rfl

theorem decodeGroups_concat (flags : List Bool) (flag : Bool) (i : ℕ) (b : BitRef) :
    decodeGroups nofSupported used i (flags ++ [flag]) b =
      if flag then decodeGroup nofSupported used (i + flags.length)
        (decodeGroups nofSupported used i flags b)
      else decodeGroups nofSupported used i flags b := by
  induction flags generalizing i b with
  | nil => rfl
  | cons first flags ih =>
    rw [List.cons_append, decodeGroups, ih, decodeGroups, List.length_cons, Nat.add_assoc,
      Nat.add_comm 1]

theorem take_flags_succ {i : ℕ} {g : Option ℕ} (hg : m.groups[i]? = some g) :
    m.flags.take (i + 1) = m.flags.take i ++ [g.isSome] := by
  have hflag : m.flags[i]? = some g.isSome := by
    rw [flags, List.getElem?_map, hg]
    rfl
  rw [List.take_add_one, hflag]
  rfl

theorem decodeGroups_take_succ {i : ℕ} {g : Option ℕ} (hg : m.groups[i]? = some g) (b : BitRef) :
    decodeGroups nofSupported used 0 (m.flags.take (i + 1)) b =
      if g.isSome then decodeGroup nofSupported used i
        (decodeGroups nofSupported used 0 (m.flags.take i) b)
      else decodeGroups nofSupported used 0 (m.flags.take i) b := by
  obtain ⟨hi, -⟩ := List.getElem?_eq_some_iff.mp hg
  have hlength : (m.flags.take i).length = i := by
    rw [List.length_take, flags, List.length_map, Nat.min_eq_left (Nat.le_of_lt hi)]
  rw [take_flags_succ hg, decodeGroups_concat, hlength, Nat.zero_add]

theorem At.decoded_iff (hm : m.At b) (hw : Within m used) :
    m.Decoded b nofSupported used ↔ m.Skippable b nofSupported used := by
  by_cases hcount : m.groups.length ≤ 64
  swap
  · refine iff_of_false ?_ (fun h => hcount h.1)
    rintro ⟨hok, -⟩
    rw [hm.unpackGroups_fails (Nat.not_le.mp hcount)] at hok
    exact Bool.false_ne_true hok
  unfold Decoded Skippable
  rw [hm.unpackGroups_eq hcount, and_iff_right rfl, and_iff_right hcount]
  constructor
  · intro h i len hg
    obtain ⟨hi, -⟩ := List.getElem?_eq_some_iff.mp hg
    have hstep := h (i + 1) hi
    rw [decodeGroups_take_succ hg, h i (Nat.le_of_lt hi)] at hstep
    exact (hm.group_step hw hg).mp hstep
  · intro h i
    induction i with
    | zero =>
      intro _
      rfl
    | succ i ih =>
      intro hi
      have hbefore := ih (Nat.le_of_succ_le hi)
      cases hg : m.groups[i] with
      | none =>
        have hg' := List.getElem?_eq_some_iff.mpr ⟨hi, hg⟩
        rw [decodeGroups_take_succ hg', hbefore, cursor, cursor, hm.absent i hg']
        rfl
      | some len =>
        have hg' := List.getElem?_eq_some_iff.mpr ⟨hi, hg⟩
        rw [decodeGroups_take_succ hg', hbefore]
        exact (hm.group_step hw hg').mpr (h i len hg')

end ExtensionMessage

theorem packBuffer_spec (buffer : Memory) (count i : ℕ) (hroom : b.Room (8 * count)) :
    ∃ mem, packBuffer buffer count i b = (b.advance (8 * count)).withMem mem ∧
      AgreeBelow b.pos b.mem mem ∧
      field mem b.pos (8 * count) = field buffer (8 * i) (8 * count) := by
  induction count generalizing i b with
  | zero =>
    refine ⟨b.mem, ?_, AgreeBelow.refl _ _, rfl⟩
    rw [Nat.mul_zero, advance_zero]
    rfl
  | succ count ih =>
    have hwidth : 8 * (count + 1) = 8 + 8 * count := by omega
    rw [hwidth] at hroom ⊢
    have hroom₁ : b.Room 8 := room_mono hroom (Nat.le_add_right _ _)
    obtain ⟨mem₁, hpack, hagree₁, hfield₁⟩ := pack_spec (by decide) hroom₁ (buffer i).toNat
    obtain ⟨mem, hrun, hagree, hfield⟩ := ih (b := (b.advance 8).withMem mem₁) (i + 1)
      (room_rest hroom)
    rw [pos_withMem, pos_advance] at hagree hfield
    rw [mem_withMem] at hagree
    have hoctet : field buffer (8 * i) 8 = (buffer i).toNat % 2 ^ 8 := by
      rw [show 8 * i = 8 * i + 0 from rfl, field_byte _ _ _ (by decide), Nat.pow_zero,
        Nat.div_one]
    refine ⟨mem, ?_, hagree₁.trans (hagree.mono (Nat.le_add_right _ _)), ?_⟩
    · rw [packBuffer, hpack]
      simp only [hrun, advance_withMem, withMem_withMem, advance_advance]
    · rw [field_add, field_add, hagree.field (Nat.le_refl _), hfield₁, hfield, hoctet,
        Nat.mul_add, Nat.mul_one]

def octets (bits : ℕ) : ℕ := (bits + 7) / 8

/-- The encoder accepts: what was packed is in the buffer of the guard, and the message has room
for it. -/
structure Accepts (b w : BitRef) (align : Bool) : Prop where
  max_eq : w.max = bufferSize
  pos_le : w.pos ≤ 8 * bufferSize
  enters : b.Enters align
  room : (b.entry align).Room (lengthSize (octets w.pos) + 8 * octets w.pos)

theorem leftover_eq (w : BitRef) : 7 - toUint32 ((w.pos : ℤ) - 1) % 8 = w.padding := by
  have hoff := w.offset_lt
  unfold toUint32 padding pos
  omega

theorem packGuardDestruct_spec (h : Accepts b w align) :
    ∃ mem, packGuardDestruct b w align =
        ((b.entry align).advance (lengthSize (octets w.pos) + 8 * octets w.pos)).withMem mem ∧
      LengthAt ((b.entry align).withMem mem) (octets w.pos) (lengthSize (octets w.pos)) ∧
      field mem ((b.entry align).pos + lengthSize (octets w.pos)) w.pos =
        field w.mem 0 w.pos := by
  have hbuffer : bufferSize = 1024 := rfl
  have hmax := h.max_eq
  have hpos := h.pos_le
  have hoff := w.offset_lt
  have hpad : w.padding = (8 - w.offset) % 8 := rfl
  have hwpos : w.pos = 8 * w.ptr + w.offset := rfl
  have hoctets : w.pos + w.padding = 8 * octets w.pos := by
    unfold octets
    omega
  have hroomPad : w.Room w.padding := .inr (by omega)
  obtain ⟨buffer, hpadded, hkept, -⟩ := pack_spec (padding_lt.trans (by decide)) hroomPad 0
  have hnof : (w.pos + w.padding) / 8 = octets w.pos := by omega
  have hval : octets w.pos < 16384 := by omega
  have hlen := packLength_ok hval h.enters (room_mono h.room (Nat.le_add_right _ _))
  obtain ⟨-, mem₁, bits, hlength, hat, hshort⟩ := packLength_spec hval hlen
  have hbits : bits = lengthSize (octets w.pos) := by
    unfold lengthSize
    split_ifs with hlt
    · exact hshort hlt
    · obtain ⟨-, ⟨-, hlt', -⟩ | ⟨rfl, -⟩⟩ := hat
      · exact absurd hlt' hlt
      · rfl
  rw [hbits] at hlength hat
  have hrest : (((b.entry align).advance (lengthSize (octets w.pos))).withMem mem₁).Room
      (8 * octets w.pos) := room_rest h.room
  obtain ⟨mem, hrun, hagree, hfield⟩ := packBuffer_spec buffer (octets w.pos) 0 hrest
  rw [pos_withMem, pos_advance] at hagree hfield
  rw [mem_withMem] at hagree
  refine ⟨mem, ?_, ?_, ?_⟩
  · simp only [packGuardDestruct, leftover_eq, hpadded, pos_withMem, pos_advance, mem_withMem, hnof,
      hlength, hrun, advance_withMem, withMem_withMem, advance_advance]
  · exact ⟨hat.1, (hat.agree hagree).2⟩
  · have hpayload : field buffer 0 w.pos = field w.mem 0 w.pos := hkept.field (Nat.zero_add _).le
    rw [← hoctets] at hfield
    rw [← field_add_div mem _ w.pos w.padding, hfield, Nat.mul_zero, field_add_div, hpayload]

/-- The decoder finds the number of octets and the payload, and after reading so many bits of it
stands where the encoder stopped. -/
def OpenTypeDecoded (b w : BitRef) (align : Bool) (u : ℕ) : Prop :=
  let stop := packGuardDestruct b w align
  let g := VarlengthFieldUnpackGuard.init (b.withMem stop.mem) align
  g.len = octets w.pos ∧ field stop.mem g.bref0.pos w.pos = field w.mem 0 w.pos ∧
    g.destruct (g.bref0.advance u) = stop

theorem openTypeDecoded_iff (h : Accepts b w align) (hu : u ≤ 8 * octets w.pos) :
    OpenTypeDecoded b w align u ↔ 8 * octets w.pos ≤ 32 + u := by
  obtain ⟨mem, hrun, hat, hpayload⟩ := packGuardDestruct_spec h
  have hat' : LengthAt ((b.withMem mem).entry align) (octets w.pos)
      (lengthSize (octets w.pos)) := by
    rw [entry_withMem]
    exact hat
  have hinit := guard_init (enters_withMem.mpr h.enters) hat'
  have hlen : 8 * octets w.pos < 2 ^ 32 := by
    have hpos := h.pos_le
    have hbuffer : bufferSize = 1024 := rfl
    unfold octets
    omega
  have hroom : (((b.withMem mem).entry align).advance (lengthSize (octets w.pos))).Room
      (8 * octets w.pos) := by
    rw [entry_withMem, advance_withMem]
    exact room_rest h.room
  rw [← guard_lands hu hlen hroom]
  simp only [OpenTypeDecoded, hrun, mem_withMem, hinit, true_and, entry_withMem, advance_withMem,
    pos_withMem, pos_advance, hpayload, advance_advance]

/-- The exact conditions for skipping the extensions of a message, and for skipping what the
encoder packed. -/
theorem extension_skipping_exact (b : BitRef) :
    (∀ (m : ExtensionMessage) (nofSupported : ℕ) (used : GroupDecoders),
      m.At b → Within m used →
      (m.Decoded b nofSupported used ↔ m.Skippable b nofSupported used)) ∧
    ∀ (w : BitRef) (align : Bool) (u : ℕ), Accepts b w align → u ≤ 8 * octets w.pos →
      (OpenTypeDecoded b w align u ↔ 8 * octets w.pos ≤ 32 + u) := by
  constructor
  · intro m nofSupported used hm hw
    exact hm.decoded_iff hw
  · intro w align u h hu
    exact openTypeDecoded_iff h hu

def fiveOctets : ExtensionMessage := ⟨[some 5], 7, fun i => if i = 0 then 8 else 56⟩

def fiveOctetsCursor : BitRef := ⟨fun i => [1, 5].getD i 0, 0, 0, 8, zero_lt_eight⟩

theorem fiveOctets_at : fiveOctets.At fiveOctetsCursor where
  groups_ne := by decide
  count := by decide
  count_long := by decide
  flag i h := by
    obtain rfl : i = 0 := Nat.lt_one_iff.mp h
    have hflag : field fiveOctetsCursor.mem 7 1 = 1 := by decide
    exact hflag
  start_zero := by decide
  absent i h := by
    cases i <;> simp [fiveOctets] at h
  present i len h := by
    cases i with
    | zero =>
      obtain rfl : 5 = len := Option.some.inj (Option.some.inj h)
      exact .inl ⟨8, by unfold LengthField; decide, by decide⟩
    | succ i => simp [fiveOctets] at h
  stop_le := by decide
  max_lt := by decide

def fortyBits : BitRef := ⟨fun _ => 0, 5, 0, 1024, zero_lt_eight⟩

theorem extension_skipping_exact_octets :
    (fiveOctets.Decoded fiveOctetsCursor 1 (fun _ _ => 8) ↔
      fiveOctets.Skippable fiveOctetsCursor 1 (fun _ _ => 8)) ∧
      (OpenTypeDecoded fiveOctetsCursor fortyBits false 8 ↔ 8 * octets fortyBits.pos ≤ 32 + 8) := by
  constructor
  · apply (extension_skipping_exact fiveOctetsCursor).1 _ _ _ fiveOctets_at
    intro i len h c
    cases i with
    | zero =>
      obtain rfl : 5 = len := Option.some.inj (Option.some.inj h)
      exact Nat.le_of_ble_eq_true rfl
    | succ i => simp [fiveOctets] at h
  · exact (extension_skipping_exact fiveOctetsCursor).2 _ _ _
      ⟨rfl, by decide, fun h => absurd h Bool.false_ne_true, by decide⟩ (by decide)

/-- An unknown extension of five octets is not skipped, neither in a message nor after the
encoder. -/
theorem extension_skipping_fails :
    fiveOctets.At fiveOctetsCursor ∧ ¬fiveOctets.Decoded fiveOctetsCursor 0 (fun _ _ => 0) ∧
      ¬OpenTypeDecoded fiveOctetsCursor fortyBits false 0 := by
  refine ⟨fiveOctets_at, ?_, ?_⟩
  · intro h
    have hstop := congrArg pos (h.2 1 (by decide))
    revert hstop
    decide
  · intro h
    have hstop := congrArg pos h.2.2
    revert hstop
    decide

end SrsLte
