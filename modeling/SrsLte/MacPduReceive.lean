import SrsLte.ByteBuffer
import SrsLte.MacPduFormat

/-!
# Reception of MAC PDUs

The parser of `sch_pdu` and `mch_pdu` on memory: the received bytes are followed by other bytes,
which a subheader at the end of the PDU may reach. The subheaders are read first. The payloads
follow behind the bytes that were read, but the size of the last one is computed from the header
sizes that the lengths of the others stand for.
-/

namespace SrsLte

inductive SubhType
  | sch
  | mch
  deriving DecidableEq

namespace Lcid

def mchSchedInfo : ℕ := 0b11110

end Lcid

namespace SubhType

def isSdu (type : SubhType) (lcid : ℕ) : Bool :=
  match type with
  | sch => lcid < Lcid.phrReport
  | mch => lcid < Lcid.mchSchedInfo

def isVarLenCe (type : SubhType) (lcid : ℕ) : Bool := lcid = Lcid.mchSchedInfo ∧ type = mch

/-- `sizeof_ce` of a subheader after `init`; there is no scheduling CE in it yet. -/
def sizeofCe (type : SubhType) (lcid : ℕ) (isUl : Bool) : ℕ :=
  match type with
  | sch => SrsLte.sizeofCe lcid isUl
  | mch => 0

def hasLength (type : SubhType) (lcid : ℕ) : Bool := type.isSdu lcid || type.isVarLenCe lcid

/-- Header bytes of a subheader that is not the last one, for a payload of this size. -/
def headerSize (type : SubhType) (lcid nofBytes : ℕ) : ℕ :=
  if type.hasLength lcid then sizeHeaderSdu nofBytes else 1

end SubhType

namespace RxSubh

def sizePlusHeaderOf (type : SubhType) (s : RxSubh) : ℕ :=
  type.headerSize s.lcid s.nofBytes + s.nofBytes

/-- `read_subheader` at `ptr` of the memory: subheader, extension bit and position behind it. -/
def readSubheaderAt (type : SubhType) (isUl : Bool) (mem : ℕ → UInt8) (ptr : ℕ) :
    RxSubh × Bool × ℕ :=
  let byte := fun i => (mem i).toNat
  let eBit : Bool := byte ptr &&& 0x20 ≠ 0
  let lcid := byte ptr &&& 0x1F
  if type.hasLength lcid then
    if eBit then
      let short := byte (ptr + 1) &&& 0x7F
      if byte (ptr + 1) &&& 0x80 ≠ 0 then
        (⟨lcid, short <<< 8 ||| (byte (ptr + 2) &&& 0xFF)⟩, eBit, ptr + 3)
      else (⟨lcid, short⟩, eBit, ptr + 2)
    else (⟨lcid, 0⟩, eBit, ptr + 1)
  else (⟨lcid, type.sizeofCe lcid isUl⟩, eBit, ptr + 1)

/-- The do-while loop of `pdu::parse_packet`. -/
def parseLoopAt (type : SubhType) (isUl : Bool) (maxSubheaders pduLen : ℕ) (mem : ℕ → UInt8) :
    ℕ → List RxSubh → ℕ → Option (List RxSubh × ℕ)
  | 0, _, _ => none
  | fuel + 1, read, ptr =>
    if read.length < maxSubheaders then
      let (s, ret, ptr') := readSubheaderAt type isUl mem ptr
      -- "all bytes have been consumed" but another subheader is announced
      let read' := if ret ∧ ptr' ≥ pduLen then [] else read ++ [s]
      if ret ∧ read'.length + 1 < maxSubheaders ∧ pduLen > ptr' then
        parseLoopAt type isUl maxSubheaders pduLen mem fuel read' ptr'
      else some (read', ptr')
    else some (read, ptr)

/-- `parse_packet` after `init_rx`: the subheaders with the start of their payload. -/
def parsePacketAt (type : SubhType) (isUl : Bool) (maxSubheaders pduLen : ℕ) (mem : ℕ → UInt8) :
    Option (List (RxSubh × ℕ)) := do
  let (read, ptr) ← parseLoopAt type isUl maxSubheaders pduLen mem (maxSubheaders + 1) [] 0
  let starts := payloadStarts ptr read
  match starts.getLast? with
  | none => return []
  | some (last, start) =>
    let readLen := (read.dropLast.map (sizePlusHeaderOf type)).sum
    if readLen + 1 ≤ pduLen then
      return starts.dropLast ++ [({ last with nofBytes := pduLen - readLen - 1 }, start)]
    else return []

end RxSubh

/-- A subheader as it stands in the PDU: its own size and the payload size it announces. -/
structure WireSubh where
  lcid : ℕ
  size : ℕ
  nofBytes : ℕ
  deriving DecidableEq

namespace WireSubh

/-- The length field behind the first byte of a subheader with the extension bit: size of the
subheader, announced payload size and the bytes that follow; `none` when the bytes end in it. -/
def lengthField (type : SubhType) (isUl : Bool) (lcid : ℕ) : Bytes → Option (ℕ × ℕ × Bytes)
  | rest =>
    if type.hasLength lcid then
      match rest with
      | [] => none
      | l :: rest =>
        if l.toNat < 128 then some (2, l.toNat, rest)
        else
          match rest with
          | [] => none
          | l' :: rest => some (3, (l.toNat - 128) * 256 + l'.toNat, rest)
    else some (1, type.sizeofCe lcid isUl, rest)

/-- The subheaders up to the first without extension bit, `more + 1` at most; `none` when the
bytes end although another subheader is announced. -/
def walk (type : SubhType) (isUl : Bool) : ℕ → Bytes → Option (List WireSubh)
  | _, [] => none
  | more, b :: rest =>
    let lcid := b.toNat &&& 0x1F
    if b.toNat &&& 0x20 = 0 then
      some [⟨lcid, 1, if type.hasLength lcid then 0 else type.sizeofCe lcid isUl⟩]
    else
      match lengthField type isUl lcid rest with
      | none | some (_, _, []) => none
      | some (size, nofBytes, b' :: rest) =>
        match more with
        | 0 => some [⟨lcid, size, nofBytes⟩]
        | more + 1 => (walk type isUl more (b' :: rest)).map (⟨lcid, size, nofBytes⟩ :: ·)

def Canonical (type : SubhType) (s : WireSubh) : Prop := s.size = type.headerSize s.lcid s.nofBytes

instance (type : SubhType) : DecidablePred (Canonical type) :=
  fun _ => inferInstanceAs (Decidable (_ = _))

def toRx (s : WireSubh) : RxSubh := ⟨s.lcid, s.nofBytes⟩

section Reading

variable {type : SubhType} {isUl : Bool} {pdu rest : Bytes} {behind : ℕ → UInt8} {b : UInt8}
  {ptr : ℕ}

theorem lengthField_cases (type : SubhType) (isUl : Bool) (lcid : ℕ) (rest : Bytes) :
    (type.hasLength lcid = false ∧
      lengthField type isUl lcid rest = some (1, type.sizeofCe lcid isUl, rest)) ∨
    (type.hasLength lcid = true ∧ rest = [] ∧ lengthField type isUl lcid rest = none) ∨
    (∃ l tail, type.hasLength lcid = true ∧ rest = l :: tail ∧ l.toNat < 128 ∧
      lengthField type isUl lcid rest = some (2, l.toNat, tail)) ∨
    (∃ l, type.hasLength lcid = true ∧ rest = [l] ∧ ¬ l.toNat < 128 ∧
      lengthField type isUl lcid rest = none) ∨
    (∃ l l' tail, type.hasLength lcid = true ∧ rest = l :: l' :: tail ∧ ¬ l.toNat < 128 ∧
      lengthField type isUl lcid rest =
        some (3, (l.toNat - 128) * 256 + l'.toNat, tail)) := by
  unfold lengthField
  cases hlen : type.hasLength lcid with
  | false => exact Or.inl ⟨rfl, rfl⟩
  | true =>
    refine Or.inr ?_
    cases rest with
    | nil => exact Or.inl ⟨rfl, rfl, rfl⟩
    | cons l tail =>
      refine Or.inr ?_
      by_cases hl : l.toNat < 128
      · exact Or.inl ⟨l, tail, rfl, rfl, hl, if_pos hl⟩
      · refine Or.inr ?_
        cases tail with
        | nil => exact Or.inl ⟨l, rfl, rfl, hl, if_neg hl⟩
        | cons l' tail => exact Or.inr ⟨l, l', tail, rfl, rfl, hl, if_neg hl⟩

theorem lengthByte : ∀ n < 256, (n &&& 0x80 ≠ 0 ↔ ¬ n < 128) ∧ (n < 128 → n &&& 0x7F = n) ∧
    (¬ n < 128 → n &&& 0x7F = n - 128) ∧ n &&& 0xFF = n := by
  decide +kernel

theorem readSubheaderAt_last (hdrop : pdu.drop ptr = b :: rest) (hext : b.toNat &&& 0x20 = 0) :
    RxSubh.readSubheaderAt type isUl (memory pdu behind) ptr =
      (⟨b.toNat &&& 0x1F, if type.hasLength (b.toNat &&& 0x1F) then 0
        else type.sizeofCe (b.toNat &&& 0x1F) isUl⟩, false, ptr + 1) := by
  unfold RxSubh.readSubheaderAt
  simp only [memory_of_drop hdrop, hext]
  split_ifs <;> simp_all

/-- A subheader with extension bit is read with the length field that follows it. Where the bytes
end in the field, the position behind it is not inside the PDU. -/
theorem readSubheaderAt_more (type : SubhType) (isUl : Bool) (behind : ℕ → UInt8)
    (hdrop : pdu.drop ptr = b :: rest) (hext : b.toNat &&& 0x20 ≠ 0) :
    match lengthField type isUl (b.toNat &&& 0x1F) rest with
    | none => ∃ s ptr', pdu.length ≤ ptr' ∧
        RxSubh.readSubheaderAt type isUl (memory pdu behind) ptr = (s, true, ptr')
    | some (size, nofBytes, tail) => pdu.drop (ptr + size) = tail ∧
        RxSubh.readSubheaderAt type isUl (memory pdu behind) ptr =
          (⟨b.toNat &&& 0x1F, nofBytes⟩, true, ptr + size) := by
  have hlength := congrArg List.length hdrop
  rw [List.length_drop, List.length_cons] at hlength
  have hbit : (decide (b.toNat &&& 0x20 ≠ 0)) = true := decide_eq_true hext
  unfold RxSubh.readSubheaderAt
  simp only [memory_of_drop hdrop, hbit, if_true]
  rcases lengthField_cases type isUl (b.toNat &&& 0x1F) rest with
    ⟨hlen, hfield⟩ | ⟨hlen, rfl, hfield⟩ | ⟨l, tail, hlen, rfl, hl, hfield⟩ |
      ⟨l, hlen, rfl, hl, hfield⟩ | ⟨l, l', tail, hlen, rfl, hl, hfield⟩
  · rw [hfield, if_neg (Bool.eq_false_iff.mp hlen)]
    refine ⟨?_, rfl⟩
    rw [← List.drop_drop, hdrop]
    rfl
  · rw [hfield, if_pos hlen]
    rw [List.length_nil] at hlength
    split_ifs
    · exact ⟨_, _, by omega, rfl⟩
    · exact ⟨_, _, by omega, rfl⟩
  · have hbyte := lengthByte _ l.toNat_lt
    rw [hfield, if_pos hlen, memory_of_drop (drop_succ_of_drop hdrop), hbyte.2.1 hl,
      if_neg (fun h => hbyte.1.mp h hl)]
    refine ⟨?_, rfl⟩
    rw [← List.drop_drop, hdrop]
    rfl
  · have hbyte := lengthByte _ l.toNat_lt
    rw [hfield, if_pos hlen, memory_of_drop (drop_succ_of_drop hdrop), if_pos (hbyte.1.mpr hl)]
    rw [List.length_singleton] at hlength
    exact ⟨_, _, by omega, rfl⟩
  · have hbyte := lengthByte _ l.toNat_lt
    have hbyte' := lengthByte _ l'.toNat_lt
    have hsecond := drop_succ_of_drop (drop_succ_of_drop hdrop)
    rw [hfield, if_pos hlen, memory_of_drop (drop_succ_of_drop hdrop), if_pos (hbyte.1.mpr hl),
      memory_of_drop hsecond, hbyte.2.2.1 hl, hbyte'.2.2.2,
      ← Nat.shiftLeft_add_eq_or_of_lt (i := 8) l'.toNat_lt, Nat.shiftLeft_eq]
    refine ⟨?_, rfl⟩
    rw [← List.drop_drop, hdrop]
    rfl

theorem parseLoopAt_succ {maxSubheaders pduLen fuel ptr' : ℕ} {mem : ℕ → UInt8}
    {read : List RxSubh} {s : RxSubh} {ret : Bool} (hread : read.length < maxSubheaders)
    (h : RxSubh.readSubheaderAt type isUl mem ptr = (s, ret, ptr')) :
    RxSubh.parseLoopAt type isUl maxSubheaders pduLen mem (fuel + 1) read ptr =
      if ret ∧ pduLen ≤ ptr' then some ([], ptr')
      else if ret ∧ read.length + 2 < maxSubheaders then
        RxSubh.parseLoopAt type isUl maxSubheaders pduLen mem fuel (read ++ [s]) ptr'
      else some (read ++ [s], ptr') := by
  rw [RxSubh.parseLoopAt, if_pos hread, h]
  dsimp only
  by_cases hend : ret ∧ pduLen ≤ ptr'
  · rw [if_pos hend, if_pos hend, if_neg]
    rintro ⟨-, -, hlt⟩
    exact absurd hend.2 (Nat.not_le.mpr hlt)
  · rw [if_neg hend, if_neg hend, List.length_append, List.length_singleton]
    by_cases hmore : ret ∧ read.length + 2 < maxSubheaders
    · have hlt : ptr' < pduLen := by
        by_contra hge
        exact hend ⟨hmore.1, Nat.not_lt.mp hge⟩
      rw [if_pos ⟨hmore.1, hmore.2, hlt⟩, if_pos hmore]
    · rw [if_neg (fun h => hmore ⟨h.1, h.2.1⟩), if_neg hmore]

theorem parseLoopAt_walk {maxSubheaders more fuel : ℕ} {read : List RxSubh}
    (hdrop : pdu.drop ptr = b :: rest) (hread : read.length < maxSubheaders)
    (hmore : more = maxSubheaders - 2 - read.length) (hfuel : more < fuel) :
    match walk type isUl more (b :: rest) with
    | none => ∃ ptr', RxSubh.parseLoopAt type isUl maxSubheaders pdu.length
        (memory pdu behind) fuel read ptr = some ([], ptr')
    | some hs => RxSubh.parseLoopAt type isUl maxSubheaders pdu.length
        (memory pdu behind) fuel read ptr =
          some (read ++ hs.map toRx, ptr + (hs.map size).sum) := by
  induction fuel generalizing read ptr b rest more with
  | zero => exact absurd hfuel (Nat.not_lt_zero _)
  | succ fuel ih =>
    by_cases hext : b.toNat &&& 0x20 = 0
    · rw [parseLoopAt_succ hread (readSubheaderAt_last hdrop hext), walk, if_pos hext]
      simp only [Bool.false_eq_true, false_and, if_false]
      rfl
    have hmem := readSubheaderAt_more type isUl behind hdrop hext
    rw [walk, if_neg hext]
    generalize lengthField type isUl (b.toNat &&& 0x1F) rest = field at hmem
    rcases field with - | ⟨size, nofBytes, - | ⟨b', tail⟩⟩
    · obtain ⟨s, ptr', hend, hs⟩ := hmem
      rw [parseLoopAt_succ hread hs, if_pos ⟨rfl, hend⟩]
      exact ⟨_, rfl⟩
    · rw [parseLoopAt_succ hread hmem.2, if_pos ⟨rfl, List.drop_eq_nil_iff.mp hmem.1⟩]
      exact ⟨_, rfl⟩
    obtain ⟨hdrop', hs⟩ := hmem
    have hinside := lt_length_of_drop hdrop'
    have hend : ¬ ((true : Bool) = true ∧ pdu.length ≤ ptr + size) := by omega
    rw [parseLoopAt_succ hread hs, if_neg hend]
    cases more with
    | zero =>
      rw [if_neg (by omega)]
      rfl
    | succ more =>
      have hread' : (read ++ [(⟨b.toNat &&& 0x1F, nofBytes⟩ : RxSubh)]).length < maxSubheaders := by
        rw [List.length_append, List.length_singleton]
        omega
      have hmore' : more =
          maxSubheaders - 2 - (read ++ [(⟨b.toNat &&& 0x1F, nofBytes⟩ : RxSubh)]).length := by
        rw [List.length_append, List.length_singleton]
        omega
      have ih := ih hdrop' hread' hmore' (by omega)
      rw [if_pos ⟨rfl, by omega⟩]
      dsimp only
      generalize walk type isUl more (b' :: tail) = hs at ih
      cases hs with
      | none => exact ih
      | some hs =>
        refine ih.trans ?_
        rw [List.map_cons, List.map_cons, List.sum_cons, List.append_assoc, Nat.add_assoc]
        rfl

theorem parseLoopAt_start {maxSubheaders : ℕ} (hpdu : pdu ≠ []) (hpos : 0 < maxSubheaders) :
    match walk type isUl (maxSubheaders - 2) pdu with
    | none => ∃ ptr', RxSubh.parseLoopAt type isUl maxSubheaders pdu.length
        (memory pdu behind) (maxSubheaders + 1) [] 0 = some ([], ptr')
    | some hs => RxSubh.parseLoopAt type isUl maxSubheaders pdu.length
        (memory pdu behind) (maxSubheaders + 1) [] 0 =
          some (hs.map toRx, (hs.map size).sum) := by
  obtain ⟨b, rest, rfl⟩ := List.exists_cons_of_ne_nil hpdu
  have hdrop : (b :: rest).drop 0 = b :: rest := rfl
  have hread : ([] : List RxSubh).length < maxSubheaders := hpos
  have hfuel : maxSubheaders - 2 < maxSubheaders + 1 := by omega
  have hloop := @parseLoopAt_walk type isUl _ _ behind _ _ _ _ _ _ hdrop hread rfl hfuel
  rw [List.length_nil, Nat.sub_zero] at hloop
  generalize walk type isUl (maxSubheaders - 2) (b :: rest) = hs at hloop
  cases hs with
  | none => exact hloop
  | some hs => exact hloop.trans (by rw [List.nil_append, Nat.zero_add])

end Reading

theorem size_of_lengthField {type : SubhType} {isUl : Bool} {lcid size nofBytes : ℕ}
    {rest tail : Bytes} (h : lengthField type isUl lcid rest = some (size, nofBytes, tail)) :
    1 ≤ size ∧ type.headerSize lcid nofBytes ≤ size := by
  unfold SubhType.headerSize
  rcases lengthField_cases type isUl lcid rest with ⟨hlen, hfield⟩ | ⟨_, _, hfield⟩ |
    ⟨l, _, hlen, _, hl, hfield⟩ | ⟨_, _, _, _, hfield⟩ | ⟨l, l', _, hlen, _, _, hfield⟩
  · obtain ⟨rfl, rfl, rfl⟩ := Option.some.inj (hfield.symm.trans h)
    rw [if_neg (Bool.eq_false_iff.mp hlen)]
    exact ⟨le_rfl, le_rfl⟩
  · rw [h] at hfield
    cases hfield
  · obtain ⟨rfl, rfl, rfl⟩ := Option.some.inj (hfield.symm.trans h)
    rw [if_pos hlen, sizeHeaderSdu, if_pos hl]
    exact ⟨by decide, le_rfl⟩
  · rw [h] at hfield
    cases hfield
  · obtain ⟨rfl, rfl, rfl⟩ := Option.some.inj (hfield.symm.trans h)
    refine ⟨by decide, ?_⟩
    unfold sizeHeaderSdu
    split_ifs <;> omega

theorem walk_cases {type : SubhType} {isUl : Bool} {more : ℕ} {pdu : Bytes} {hs : List WireSubh}
    (h : walk type isUl more pdu = some hs) :
    (∃ s, hs = [s] ∧ 1 ≤ s.size) ∨
      ∃ s hs' more' pdu', hs = s :: hs' ∧ type.headerSize s.lcid s.nofBytes ≤ s.size ∧
        more = more' + 1 ∧ walk type isUl more' pdu' = some hs' := by
  cases pdu with
  | nil =>
    rw [walk] at h
    cases h
  | cons b rest =>
    rw [walk] at h
    by_cases hext : b.toNat &&& 0x20 = 0
    · rw [if_pos hext] at h
      exact Or.inl ⟨_, (Option.some.inj h).symm, le_rfl⟩
    rw [if_neg hext] at h
    rcases hfield : lengthField type isUl (b.toNat &&& 0x1F) rest with
      - | ⟨size, nofBytes, - | ⟨b', tail⟩⟩
    · rw [hfield] at h
      cases h
    · rw [hfield] at h
      cases h
    rw [hfield] at h
    obtain ⟨hpos, hsize⟩ := size_of_lengthField hfield
    cases more with
    | zero => exact Or.inl ⟨_, (Option.some.inj h).symm, hpos⟩
    | succ more =>
      obtain ⟨hs', hwalk, rfl⟩ := Option.map_eq_some_iff.mp h
      exact Or.inr ⟨_, hs', more, _, rfl, hsize, rfl, hwalk⟩

theorem size_of_walk {type : SubhType} {isUl : Bool} {more : ℕ} {pdu : Bytes} {hs : List WireSubh}
    (h : walk type isUl more pdu = some hs) :
    ∃ front last, hs = front ++ [last] ∧ 1 ≤ last.size ∧
      ∀ s ∈ front, type.headerSize s.lcid s.nofBytes ≤ s.size := by
  induction more generalizing pdu hs with
  | zero =>
    rcases walk_cases h with ⟨s, rfl, hs⟩ | ⟨_, _, more', _, _, _, hmore, _⟩
    · exact ⟨[], s, rfl, hs, List.forall_mem_nil _⟩
    · omega
  | succ more ih =>
    rcases walk_cases h with ⟨s, rfl, hs⟩ | ⟨s, hs', more', pdu', rfl, hsize, hmore, hwalk⟩
    · exact ⟨[], s, rfl, hs, List.forall_mem_nil _⟩
    · obtain rfl := Nat.succ.inj hmore
      obtain ⟨front, last, rfl, hlast, hfront⟩ := ih hwalk
      exact ⟨s :: front, last, rfl, hlast, List.forall_mem_cons.mpr ⟨hsize, hfront⟩⟩

end WireSubh
end SrsLte

/-!
The payload of the last subheader ends at the end of the PDU when the subheaders in front of it
are canonical and the last one is a single byte. Every byte that a subheader takes beyond that
moves the payloads on, but not the size of the last one.
-/

namespace SrsLte

/-- The parsed payloads lie in the received bytes, one behind the other, behind the subheaders. -/
structure PayloadsInside (pduLen : ℕ) (subhs : List (RxSubh × ℕ)) : Prop where
  inside : ∀ a ∈ subhs, a.2 + a.1.nofBytes ≤ pduLen
  inOrder : subhs.Pairwise fun a b => a.2 + a.1.nofBytes ≤ b.2
  total : ∀ a, subhs.head? = some a → a.2 + (subhs.map fun a => a.1.nofBytes).sum ≤ pduLen

theorem payloadsInside_nil (pduLen : ℕ) : PayloadsInside pduLen [] :=
  ⟨List.forall_mem_nil _, List.Pairwise.nil, fun _ h => by cases h⟩

/-- The payload sizes that the PDU announces in front of the last subheader, with canonical
subheaders and one byte for the last, do not fill more than the PDU. -/
def AnnouncedFits (type : SubhType) (pduLen : ℕ) (front : List WireSubh) : Prop :=
  (front.map fun s => type.headerSize s.lcid s.nofBytes + s.nofBytes).sum + 1 ≤ pduLen

/-- If the parser can accept the PDU, no subheader in front of the last one it reads is longer
than its length requires, and the last one is a single byte. -/
def CanonicalSubheaders (type : SubhType) (isUl : Bool) (maxSubheaders : ℕ) (pdu : Bytes) : Prop :=
  ∀ front last, 0 < maxSubheaders →
    WireSubh.walk type isUl (maxSubheaders - 2) pdu = some (front ++ [last]) →
    AnnouncedFits type pdu.length front → (∀ s ∈ front, s.Canonical type) ∧ last.size = 1

section Starts

variable {ptr : ℕ} {ss : List RxSubh}

theorem start_le {a : RxSubh × ℕ} (ha : a ∈ RxSubh.payloadStarts ptr ss) :
    ptr ≤ a.2 ∧ a.2 + a.1.nofBytes ≤ ptr + (ss.map RxSubh.nofBytes).sum := by
  induction ss generalizing ptr with
  | nil => cases ha
  | cons s ss ih =>
    rw [List.map_cons, List.sum_cons]
    rcases List.mem_cons.mp ha with rfl | ha
    · dsimp only
      omega
    · have h := ih ha
      omega

theorem pairwise_payloadStarts (ptr : ℕ) (ss : List RxSubh) :
    (RxSubh.payloadStarts ptr ss).Pairwise fun a b => a.2 + a.1.nofBytes ≤ b.2 := by
  induction ss generalizing ptr with
  | nil => exact List.Pairwise.nil
  | cons s ss ih => exact List.Pairwise.cons (fun a ha => (start_le ha).1) (ih _)

theorem payloadsInside_concat_iff {pduLen n : ℕ} {last : RxSubh} (hn : last.nofBytes = n) :
    PayloadsInside pduLen (RxSubh.payloadStarts ptr ss ++
        [(last, ptr + (ss.map RxSubh.nofBytes).sum)]) ↔
      ptr + (ss.map RxSubh.nofBytes).sum + n ≤ pduLen := by
  have hstarts : RxSubh.payloadStarts ptr ss ++ [(last, ptr + (ss.map RxSubh.nofBytes).sum)] =
      RxSubh.payloadStarts ptr (ss ++ [last]) := by
    rw [MacEntry.payloadStarts_append]
    rfl
  have hsum : ((ss ++ [last]).map RxSubh.nofBytes).sum = (ss.map RxSubh.nofBytes).sum + n := by
    rw [List.map_append, List.sum_append, List.map_singleton, List.sum_singleton, hn]
  rw [hstarts]
  constructor
  · intro h
    have hlast := h.inside (last, ptr + (ss.map RxSubh.nofBytes).sum) (by
      rw [← hstarts]
      exact List.mem_concat_self)
    rwa [hn] at hlast
  · intro h
    refine ⟨?_, pairwise_payloadStarts _ _, ?_⟩
    · intro a ha
      have hend := (start_le ha).2
      omega
    · intro a ha
      have hsizes : (RxSubh.payloadStarts ptr (ss ++ [last])).map (fun a => a.1.nofBytes) =
          (ss ++ [last]).map RxSubh.nofBytes := by
        have hmap := congrArg (List.map RxSubh.nofBytes)
          (MacEntry.payloadStarts_map_fst ptr (ss ++ [last]))
        rwa [List.map_map] at hmap
      have hstart : a.2 = ptr := by
        cases ss with
        | nil => exact (congrArg Prod.snd (Option.some.inj ha)).symm
        | cons s ss => exact (congrArg Prod.snd (Option.some.inj ha)).symm
      rw [hsizes, hsum, hstart]
      omega

end Starts

section Parse

variable {type : SubhType} {isUl : Bool} {maxSubheaders : ℕ} {pdu : Bytes} {behind : ℕ → UInt8}

theorem parsePacketAt_nil (type : SubhType) (isUl : Bool) (maxSubheaders : ℕ) (mem : ℕ → UInt8) :
    RxSubh.parsePacketAt type isUl maxSubheaders 0 mem = some [] := by
  obtain ⟨⟨read, ptr⟩, hloop⟩ : ∃ r, RxSubh.parseLoopAt type isUl maxSubheaders 0 mem
      (maxSubheaders + 1) [] 0 = some r := by
    unfold RxSubh.parseLoopAt
    split_ifs
    · dsimp only
      rw [if_neg (fun h => absurd h.2.2 (Nat.not_lt_zero _))]
      exact ⟨_, rfl⟩
    · exact ⟨_, rfl⟩
  unfold RxSubh.parsePacketAt
  rw [hloop]
  simp only [Option.bind_eq_bind, Option.bind_some]
  split
  · rfl
  · rw [if_neg (Nat.not_succ_le_zero _)]
    rfl

theorem parsePacketAt_of_walk_none (hpos : 0 < maxSubheaders)
    (h : WireSubh.walk type isUl (maxSubheaders - 2) pdu = none) :
    RxSubh.parsePacketAt type isUl maxSubheaders pdu.length (memory pdu behind) =
      some [] := by
  by_cases hpdu : pdu = []
  · rw [hpdu]
    exact parsePacketAt_nil type isUl maxSubheaders _
  · have hloop := @WireSubh.parseLoopAt_start type isUl _ behind _ hpdu hpos
    rw [h] at hloop
    obtain ⟨ptr', hloop⟩ := hloop
    unfold RxSubh.parsePacketAt
    rw [hloop]
    rfl

theorem parsePacketAt_of_walk (hpos : 0 < maxSubheaders) {front : List WireSubh} {last : WireSubh}
    (h : WireSubh.walk type isUl (maxSubheaders - 2) pdu = some (front ++ [last])) :
    RxSubh.parsePacketAt type isUl maxSubheaders pdu.length (memory pdu behind) =
      let readLen := (front.map fun s => type.headerSize s.lcid s.nofBytes + s.nofBytes).sum
      let ptr := (front.map WireSubh.size).sum + last.size
      some (if readLen + 1 ≤ pdu.length then
        RxSubh.payloadStarts ptr (front.map WireSubh.toRx) ++
          [(⟨last.lcid, pdu.length - readLen - 1⟩,
            ptr + ((front.map WireSubh.toRx).map RxSubh.nofBytes).sum)]
      else []) := by
  have hpdu : pdu ≠ [] := by
    rintro rfl
    rw [WireSubh.walk] at h
    cases h
  have hloop := @WireSubh.parseLoopAt_start type isUl _ behind _ hpdu hpos
  rw [h] at hloop
  have hsize : (((front ++ [last]).map WireSubh.size).sum) =
      (front.map WireSubh.size).sum + last.size := by
    rw [List.map_append, List.sum_append, List.map_singleton, List.sum_singleton]
  have hmap : (front ++ [last]).map WireSubh.toRx = front.map WireSubh.toRx ++ [last.toRx] := by
    rw [List.map_append, List.map_singleton]
  have hread : ((front.map WireSubh.toRx).map (RxSubh.sizePlusHeaderOf type)).sum =
      (front.map fun s => type.headerSize s.lcid s.nofBytes + s.nofBytes).sum := by
    rw [List.map_map]
    rfl
  dsimp only at hloop
  rw [hsize, hmap] at hloop
  unfold RxSubh.parsePacketAt
  rw [hloop]
  simp only [Option.bind_eq_bind, Option.bind_some, MacEntry.payloadStarts_append,
    RxSubh.payloadStarts, List.getLast?_concat, List.dropLast_concat, hread]
  split_ifs <;> rfl

end Parse

theorem sum_headerSize_le {type : SubhType} {front : List WireSubh}
    (h : ∀ s ∈ front, type.headerSize s.lcid s.nofBytes ≤ s.size) :
    (front.map fun s => type.headerSize s.lcid s.nofBytes + s.nofBytes).sum ≤
      (front.map WireSubh.size).sum + (front.map WireSubh.nofBytes).sum := by
  induction front with
  | nil => exact le_rfl
  | cons s front ih =>
    obtain ⟨hs, h⟩ := List.forall_mem_cons.mp h
    have hrest := ih h
    simp only [List.map_cons, List.sum_cons]
    omega

theorem sum_headerSize_eq_iff {type : SubhType} {front : List WireSubh}
    (h : ∀ s ∈ front, type.headerSize s.lcid s.nofBytes ≤ s.size) :
    (front.map WireSubh.size).sum + (front.map WireSubh.nofBytes).sum ≤
        (front.map fun s => type.headerSize s.lcid s.nofBytes + s.nofBytes).sum ↔
      ∀ s ∈ front, s.Canonical type := by
  induction front with
  | nil => exact ⟨fun _ _ hs => absurd hs List.not_mem_nil, fun _ => le_rfl⟩
  | cons s front ih =>
    obtain ⟨hs, hfront⟩ := List.forall_mem_cons.mp h
    have hrest := sum_headerSize_le hfront
    rw [List.forall_mem_cons, ← ih hfront]
    unfold WireSubh.Canonical
    simp only [List.map_cons, List.sum_cons]
    constructor
    · intro hle
      omega
    · rintro ⟨heq, hle⟩
      omega

/-- The payloads of an accepted PDU are inside exactly when its subheaders are canonical. -/
theorem payloadsInside_iff (type : SubhType) (isUl : Bool) (maxSubheaders : ℕ) (pdu : Bytes)
    (behind : ℕ → UInt8) :
    (∃ subhs, RxSubh.parsePacketAt type isUl maxSubheaders pdu.length
        (memory pdu behind) = some subhs ∧ PayloadsInside pdu.length subhs) ↔
      CanonicalSubheaders type isUl maxSubheaders pdu := by
  rcases Nat.eq_zero_or_pos maxSubheaders with rfl | hpos
  · refine ⟨fun _ _ _ h => absurd h (Nat.lt_irrefl 0), fun _ => ⟨[], ?_, payloadsInside_nil _⟩⟩
    unfold RxSubh.parsePacketAt RxSubh.parseLoopAt
    rfl
  cases hwalk : WireSubh.walk type isUl (maxSubheaders - 2) pdu with
  | none =>
    refine ⟨fun _ front last _ h => ?_, fun _ => ⟨[], ?_, payloadsInside_nil _⟩⟩
    · rw [hwalk] at h
      cases h
    · exact parsePacketAt_of_walk_none hpos hwalk
  | some hs =>
    obtain ⟨front, last, rfl, hlast, hfront⟩ := WireSubh.size_of_walk hwalk
    have hparse := @parsePacketAt_of_walk type isUl _ _ behind hpos _ _ hwalk
    have hunique : CanonicalSubheaders type isUl maxSubheaders pdu ↔
        (AnnouncedFits type pdu.length front →
          (∀ s ∈ front, s.Canonical type) ∧ last.size = 1) := by
      constructor
      · exact fun h => h front last hpos hwalk
      · intro h front' last' _ hwalk'
        rw [hwalk] at hwalk'
        obtain ⟨rfl, hlast'⟩ := List.append_inj' (Option.some.inj hwalk') rfl
        obtain rfl := List.singleton_inj.mp hlast'
        exact h
    rw [hunique, hparse]
    unfold AnnouncedFits
    dsimp only
    by_cases hfits : (front.map fun s => type.headerSize s.lcid s.nofBytes + s.nofBytes).sum + 1 ≤
        pdu.length
    · have hsum : ((front.map WireSubh.toRx).map RxSubh.nofBytes).sum =
          (front.map WireSubh.nofBytes).sum := by
        rw [List.map_map]
        rfl
      have hle := sum_headerSize_le hfront
      have hcanonical := sum_headerSize_eq_iff hfront
      rw [if_pos hfits]
      simp only [Option.some.injEq, exists_eq_left']
      rw [payloadsInside_concat_iff rfl, hsum, ← hcanonical]
      dsimp only
      constructor
      · intro h _
        omega
      · intro h
        have := h hfits
        omega
    · rw [if_neg hfits]
      exact ⟨fun _ h => absurd h hfits, fun _ => ⟨[], rfl, payloadsInside_nil _⟩⟩

/-- The length field of two bytes for a single byte moves the last payload out of the PDU. -/
theorem long_length_field_outside :
    ¬ ∀ (type : SubhType) (isUl : Bool) (maxSubheaders : ℕ) (pdu : Bytes) (behind : ℕ → UInt8),
      ∃ subhs, RxSubh.parsePacketAt type isUl maxSubheaders pdu.length
        (memory pdu behind) = some subhs ∧ PayloadsInside pdu.length subhs := by
  intro h
  obtain ⟨subhs, hparse, hinside⟩ := h .sch true 20 [0x21, 0x80, 0x01, 0x02, 0xAA, 0xBB] fun _ => 0
  have hrun : RxSubh.parsePacketAt .sch true 20 6
      (memory [0x21, 0x80, 0x01, 0x02, 0xAA, 0xBB] fun _ => 0) =
        some [(⟨1, 1⟩, 4), (⟨2, 2⟩, 5)] := by
    decide
  obtain rfl := Option.some.inj (hparse.symm.trans hrun)
  have hend := hinside.inside (⟨2, 2⟩, 5) (by decide)
  revert hend
  decide

end SrsLte
