import SrsLte.RlcUm
import SrsLte.Segmentation

/-!
# PDUs of the UM transmitter

A PDU carries a fragment of the SDU sequence: the framing info tells its alignment, the length
indicators the lengths of all pieces but the last. The transmitter's PDUs carry consecutive
fragments as long as no piece that gets a length indicator has more than 2047 bytes and no PDU more
than 512 indicators, the room in the header structure.
-/

namespace SrsLte

open Segmentation

namespace UmdPduHeader

theorem fixedByte5 : ∀ fi < 4, ∀ ext < 2, ∀ sn < 32,
    let x := (UInt8.ofNat ((fi &&& 0x03) <<< 6 ||| (ext &&& 0x01) <<< 5 ||| (sn &&& 0x1F))).toNat
    x >>> 6 &&& 0x03 = fi ∧ x >>> 5 &&& 0x01 = ext ∧ x &&& 0x1F = sn := by decide

theorem fixedByte10 : ∀ fi < 4, ∀ ext < 2, ∀ hi < 4,
    let x := (UInt8.ofNat ((fi &&& 0x03) <<< 3 ||| (ext &&& 0x01) <<< 2 ||| hi)).toNat
    x >>> 3 &&& 0x03 = fi ∧ x >>> 2 &&& 0x01 = ext ∧ x &&& 0x03 = hi := by decide

theorem length_write (h : UmdPduHeader) :
    h.write.length = packedLength h.snSize h.li.length := by
  unfold write packedLength fixedLength
  rw [List.length_append, LengthIndicators.length_write]
  cases h.snSize <;> rfl

theorem read_li {li : List ℕ} (hli : ∀ n ∈ li, n < 2048) {payload rest : Bytes} {ptr : ℕ}
    (hdrop : payload.drop ptr = LengthIndicators.write li ++ rest) :
    (if (if li.length > 0 then 1 else 0) = 1 then
      (LengthIndicators.read payload payload.length ptr []).1 else []) = li := by
  cases hcase : li with
  | nil => rfl
  | cons a as =>
    have hlen := congrArg List.length hdrop
    rw [List.length_drop, List.length_append, LengthIndicators.length_write,
      LengthIndicators.length] at hlen
    have hpos : 0 < li.length := by rw [hcase]; simp
    rw [← hcase, if_pos hpos, if_pos rfl,
      LengthIndicators.read_write (by rw [hcase]; simp) rfl (by omega) hdrop, List.nil_append]
    exact (List.map_congr_left fun n hn => Nat.mod_eq_of_lt (hli n hn)).trans (List.map_id' li)

theorem read_write {h : UmdPduHeader} (hfi : h.fi < 4) (hsn : h.sn < h.snSize.mod)
    (hli : ∀ n ∈ h.li, n < 2048) (data : Bytes) : read h.snSize (h.write ++ data) = h := by
  obtain ⟨fi, snSize, sn, li⟩ := h
  dsimp only at hfi hsn hli
  have hext : (if li.length > 0 then 1 else 0) < 2 := by split_ifs <;> decide
  cases snSize with
  | size5bits =>
    have hdrop : ((UmdPduHeader.mk fi .size5bits sn li).write ++ data).drop 1 =
        LengthIndicators.write li ++ data := rfl
    obtain ⟨h1, h2, h3⟩ := fixedByte5 fi hfi _ hext sn hsn
    have hread := read_li hli hdrop
    unfold read
    simp only [write, List.cons_append, List.getD_cons_zero, h1, h2, h3] at hread ⊢
    rw [hread]
  | size10bits =>
    have hdrop : ((UmdPduHeader.mk fi .size10bits sn li).write ++ data).drop 2 =
        LengthIndicators.write li ++ data := rfl
    have hhigh : (sn &&& 0x300) >>> 8 = sn / 256 := by
      have hsn' : sn < 1024 := hsn
      rw [show (sn &&& 0x300) >>> 8 = sn / 2 ^ 8 % 2 ^ 2 from
        LengthIndicators.and_mask_shift sn 2 8]
      omega
    have hlt : sn / 256 < 4 := by
      have hsn' : sn < 1024 := hsn
      omega
    obtain ⟨h1, h2, h3⟩ := fixedByte10 fi hfi _ hext (sn / 256) hlt
    have hlow : (UInt8.ofNat (sn &&& 0xFF)).toNat = sn % 256 := LengthIndicators.toNat_third sn
    have hsum : (sn / 256) <<< 8 ||| (sn % 256 &&& 0xFF) = sn := by
      rw [show sn % 256 &&& 0xFF = sn % 256 % 2 ^ 8 from LengthIndicators.and_low _ 8,
        LengthIndicators.or_high (show sn % 256 % 2 ^ 8 < 2 ^ 8 from Nat.mod_lt _ (by decide))]
      omega
    have hread := read_li hli hdrop
    unfold read
    simp only [write, List.cons_append, List.getD_cons_zero, List.getD_cons_succ, hhigh, h1, h2,
      h3, hlow, hsum] at hread ⊢
    rw [hread]

end UmdPduHeader

namespace UmdPdu

def fi (f : Fragment UInt8) : ℕ :=
  (if f.startAligned then 0 else RlcFi.notStartAligned) |||
    (if f.endAligned then 0 else RlcFi.notEndAligned)

/-- The PDU number `n`, counted without wrap, with this fragment. -/
def ofFragment (snSize : UmdSnSize) (n : ℕ) (f : Fragment UInt8) : UmdPdu where
  header := { fi := fi f, snSize := snSize, sn := n % snSize.mod, li := f.init.map List.length }
  buf := f.data

def encode (snSize : UmdSnSize) (n : ℕ) (f : Fragment UInt8) : Bytes :=
  (ofFragment snSize n f).header.write ++ f.data

theorem startAligned_fi (f : Fragment UInt8) : RlcFi.startAligned (fi f) = f.startAligned := by
  unfold fi
  cases f.startAligned <;> cases f.endAligned <;> rfl

theorem endAligned_fi (f : Fragment UInt8) : RlcFi.endAligned (fi f) = f.endAligned := by
  unfold fi
  cases f.startAligned <;> cases f.endAligned <;> rfl

theorem fi_lt (f : Fragment UInt8) : fi f < 4 := by
  unfold fi
  cases f.startAligned <;> cases f.endAligned <;> decide

def IndicatorsFit (f : Fragment UInt8) : Prop := ∀ piece ∈ f.init, piece.length < 2048

theorem read_encode (snSize : UmdSnSize) (n : ℕ) {f : Fragment UInt8} (hf : IndicatorsFit f) :
    UmdPduHeader.read snSize (encode snSize n f) = (ofFragment snSize n f).header := by
  refine UmdPduHeader.read_write (h := (ofFragment snSize n f).header) (fi_lt f) ?_ ?_ f.data
  · exact Nat.mod_lt _ (by cases snSize <;> decide)
  · intro m hm
    obtain ⟨piece, hpiece, rfl⟩ := List.mem_map.mp hm
    exact hf piece hpiece

theorem drop_encode (snSize : UmdSnSize) (n : ℕ) (f : Fragment UInt8) :
    (encode snSize n f).drop
      (UmdPduHeader.packedLength snSize (ofFragment snSize n f).header.li.length) = f.data :=
  List.drop_left' (UmdPduHeader.length_write _)

end UmdPdu

namespace RlcUmTx

def segmentLength (tx : RlcUmTx) (nofBytes : ℕ) : ℕ :=
  match tx.txSdu with
  | none => 0
  | some sdu =>
    min (min nofBytes bufferTailroom - UmdPduHeader.packedLength tx.snSize 0) sdu.length

/-- Bytes of the grant left for the header and for SDU `j` of the queue. -/
def spaceBefore (tx : RlcUmTx) (nofBytes j : ℕ) : ℕ :=
  min nofBytes bufferTailroom -
    min (tx.segmentLength nofBytes) (bufferTailroom - tx.segmentLength nofBytes) -
      ((tx.txSduQueue.take j).map List.length).sum

/-- Pieces in front of SDU `j` of the queue. -/
def piecesBefore (tx : RlcUmTx) (j : ℕ) : ℕ := j + if tx.txSdu = none then 0 else 1

/-- Length of the piece in front of SDU `j` of the queue. -/
def lengthBefore (tx : RlcUmTx) (nofBytes j : ℕ) : ℕ :=
  match j with
  | 0 => tx.segmentLength nofBytes
  | j + 1 => (tx.txSduQueue[j]?.map List.length).getD 0

/-- The grant has room to put SDU `j` of the queue behind another piece. -/
def Appends (tx : RlcUmTx) (nofBytes j : ℕ) : Prop :=
  j < tx.txSduQueue.length ∧ 0 < tx.piecesBefore j ∧
    UmdPduHeader.packedLength tx.snSize (tx.piecesBefore j - 1) + 1 < tx.spaceBefore nofBytes j

/-- Every piece that is followed by another one has at most 2047 bytes, and the header structure
holds all length indicators. -/
def IndicatorsFit (tx : RlcUmTx) (nofBytes : ℕ) : Prop :=
  ∀ j, tx.Appends nofBytes j → tx.lengthBefore nofBytes j < 2048 ∧ tx.piecesBefore j ≤ 512

/-- An SDU that is put behind another piece finds a byte behind the header that grows with it. -/
def NoEmptyPiece (tx : RlcUmTx) (nofBytes : ℕ) : Prop :=
  ∀ j, tx.Appends nofBytes j →
    UmdPduHeader.packedLength tx.snSize (tx.piecesBefore j) < tx.spaceBefore nofBytes j

instance (tx : RlcUmTx) (nofBytes j : ℕ) : Decidable (tx.Appends nofBytes j) :=
  inferInstanceAs (Decidable (_ ∧ _ ∧ _))

instance (tx : RlcUmTx) (nofBytes : ℕ) : Decidable (tx.IndicatorsFit nofBytes) :=
  decidable_of_iff (∀ j < tx.txSduQueue.length, tx.Appends nofBytes j →
      tx.lengthBefore nofBytes j < 2048 ∧ tx.piecesBefore j ≤ 512)
    ⟨fun h j hj => h j hj.1 hj, fun h j _ => h j⟩

instance (tx : RlcUmTx) (nofBytes : ℕ) : Decidable (tx.NoEmptyPiece nofBytes) :=
  decidable_of_iff (∀ j < tx.txSduQueue.length, tx.Appends nofBytes j →
      UmdPduHeader.packedLength tx.snSize (tx.piecesBefore j) < tx.spaceBefore nofBytes j)
    ⟨fun h j hj => h j hj.1 hj, fun h j _ => h j⟩

def pending (sent : Bytes) : Option Bytes → List Bytes
  | none => []
  | some rem => [sent ++ rem]

variable {sdu pre : Bytes} {toMove nofBytes j : ℕ} {f : Fragment UInt8} {b : Building}
  {units queue : List Bytes}

theorem remainder_eq_none_iff (h : toMove ≤ sdu.length) :
    remainder sdu toMove = none ↔ toMove = sdu.length := by
  unfold remainder
  rw [List.length_drop]
  split_ifs with hzero
  · exact iff_of_true rfl (by omega)
  · exact iff_of_false (by simp) (by omega)

theorem remainder_eq_some {rem : Bytes} (h : remainder sdu toMove = some rem) :
    rem = sdu.drop toMove ∧ rem ≠ [] := by
  unfold remainder at h
  split_ifs at h with hzero
  obtain rfl := Option.some.inj h
  exact ⟨rfl, fun hnil => hzero (by rw [hnil]; rfl)⟩

/-- The variables of `build_data_pdu` hold the fragment `f`, whose pieces come from `units`; of the
first unit `pre` was sent before. -/
structure Filled (snSize : UmdSnSize) (pre : Bytes) (units : List Bytes) (b : Building)
    (f : Fragment UInt8) : Prop where
  li : b.li = f.init.map List.length
  lastLi : b.lastLi = f.last.length
  data : b.data = f.data
  headLen : b.headLen = UmdPduHeader.packedLength snSize f.init.length
  endAligned : f.endAligned = decide (b.txSdu = none)
  units : units = f.completed pre ++ pending (f.rest pre) b.txSdu
  remaining : ∀ rem, b.txSdu = some rem → rem ≠ []
  last : b.txSdu = none → f.last ≠ []

/-- The fragment with the first `toMove` bytes of another SDU. -/
def extend (f : Fragment UInt8) (sdu : Bytes) (toMove : ℕ) : Fragment UInt8 where
  init := f.init ++ [f.last]
  last := sdu.take toMove
  startAligned := f.startAligned
  endAligned := decide (remainder sdu toMove = none)

def single (start : Bool) (sdu : Bytes) (toMove : ℕ) : Fragment UInt8 where
  init := []
  last := sdu.take toMove
  startAligned := start
  endAligned := decide (remainder sdu toMove = none)

theorem pending_remainder (sent sdu : Bytes) (h : toMove ≤ sdu.length) :
    (if decide (remainder sdu toMove = none) then [sent ++ sdu.take toMove] else []) ++
      pending (if decide (remainder sdu toMove = none) then [] else sent ++ sdu.take toMove)
        (remainder sdu toMove) = [sent ++ sdu] := by
  cases hrem : remainder sdu toMove with
  | none =>
    rw [(remainder_eq_none_iff h).mp hrem, List.take_length]
    rfl
  | some rem =>
    rw [(remainder_eq_some hrem).1]
    change [sent ++ sdu.take toMove ++ sdu.drop toMove] = _
    rw [List.append_assoc, List.take_append_drop]

theorem completed_extend (hend : f.endAligned = true) (pre sdu : Bytes)
    (toMove : ℕ) : (extend f sdu toMove).completed pre = f.completed pre ++
      if decide (remainder sdu toMove = none) then [sdu.take toMove] else [] := by
  unfold Fragment.completed extend
  cases hinit : f.init with
  | nil => simp [hend]
  | cons piece pieces => simp [hend]

theorem filled_single {snSize : UmdSnSize} (start : Bool)
    (hle : toMove ≤ sdu.length) (hpos : 0 < toMove) (hli : b.li = [])
    (hlast : b.lastLi = toMove) (hdata : b.data = sdu.take toMove)
    (hhead : b.headLen = UmdPduHeader.packedLength snSize 0)
    (hrem : b.txSdu = remainder sdu toMove) :
    Filled snSize pre [pre ++ sdu] b (single start sdu toMove) where
  li := hli
  lastLi := by
    rw [hlast]
    exact (List.length_take_of_le hle).symm
  data := hdata
  headLen := hhead
  endAligned := by rw [hrem]; rfl
  units := by
    rw [hrem]
    exact (pending_remainder pre sdu hle).symm
  remaining := fun rem h => (remainder_eq_some (hrem ▸ h)).2
  last := fun _ hnil => by
    have hlen := List.length_take_of_le hle
    change (sdu.take toMove) = [] at hnil
    rw [hnil] at hlen
    simp at hlen
    omega

theorem Filled.pullSdu {snSize : UmdSnSize}
    (h : Filled snSize pre units b f) (hdone : b.txSdu = none)
    (hsdu : sdu ≠ []) :
    Filled snSize pre (units ++ [sdu]) (RlcUmTx.pullSdu snSize b sdu)
      (extend f sdu (min (b.pduSpace - UmdPduHeader.packedLength snSize (f.init.length + 1))
        sdu.length)) := by
  have hpos : b.lastLi > 0 := by
    rw [h.lastLi]
    exact List.length_pos_iff.mpr (h.last hdone)
  have hli : (if b.lastLi > 0 then b.li ++ [b.lastLi] else b.li) =
      (f.init ++ [f.last]).map List.length := by
    rw [if_pos hpos, h.li, h.lastLi, List.map_append]
    rfl
  have hcount : ((f.init ++ [f.last]).map List.length).length = f.init.length + 1 := by simp
  have hend : f.endAligned = true := by
    rw [h.endAligned]
    exact decide_eq_true hdone
  have hle : min (b.pduSpace - UmdPduHeader.packedLength snSize (f.init.length + 1)) sdu.length ≤
      sdu.length := Nat.min_le_right _ _
  unfold RlcUmTx.pullSdu
  dsimp only
  rw [hli, hcount]
  generalize hmove : min (b.pduSpace - UmdPduHeader.packedLength snSize (f.init.length + 1))
    sdu.length = toMove at hle ⊢
  refine ⟨rfl, (List.length_take_of_le hle).symm, ?_, ?_, rfl, ?_,
    fun rem hrem => (remainder_eq_some hrem).2, ?_⟩
  · change b.data ++ sdu.take toMove = (f.init ++ [f.last]).flatten ++ sdu.take toMove
    rw [h.data, Fragment.data, List.flatten_append]
    simp
  · rw [show (extend f sdu toMove).init.length = f.init.length + 1 by simp [extend]]
  · have hunits := h.units
    rw [hdone] at hunits
    have hrest : (extend f sdu toMove).rest pre =
        if decide (remainder sdu toMove = none) then [] else sdu.take toMove := by
      unfold Fragment.rest extend
      simp
    rw [hunits, completed_extend hend, hrest, pending, List.append_nil, List.append_assoc]
    exact congrArg _ (pending_remainder [] sdu hle).symm
  · intro hnone hnil
    change sdu.take toMove = [] at hnil
    rw [(remainder_eq_none_iff hle).mp hnone, List.take_length] at hnil
    exact hsdu hnil

/-- The variables in front of SDU `j` of the queue. -/
structure At (tx : RlcUmTx) (nofBytes j : ℕ) (b : Building) (f : Fragment UInt8) : Prop where
  space : b.txSdu = none → b.pduSpace = tx.spaceBefore nofBytes j
  pieces : f.init.length + 1 = tx.piecesBefore j
  lastLength : b.txSdu = none → f.last.length = tx.lengthBefore nofBytes j
  indicators : UmdPdu.IndicatorsFit f

theorem length_extend (f : Fragment UInt8) (sdu : Bytes) (toMove : ℕ) :
    (extend f sdu toMove).init.length = f.init.length + 1 := by
  simp [extend]

theorem At.pullSdu {tx : RlcUmTx} (hat : At tx nofBytes j b f)
    (h : Filled tx.snSize pre units b f) (hdone : b.txSdu = none)
    (hqueue : tx.txSduQueue.drop j = sdu :: queue)
    (hlt : f.last.length < 2048) :
    At tx nofBytes (j + 1) (RlcUmTx.pullSdu tx.snSize b sdu)
      (extend f sdu (min (b.pduSpace - UmdPduHeader.packedLength tx.snSize (f.init.length + 1))
        sdu.length)) := by
  have hget : tx.txSduQueue[j]? = some sdu := by
    rw [← Nat.add_zero j, ← List.getElem?_drop, hqueue]
    rfl
  have hcount : (if b.lastLi > 0 then b.li ++ [b.lastLi] else b.li).length =
      f.init.length + 1 := by
    have hpos : b.lastLi > 0 := by
      rw [h.lastLi]
      exact List.length_pos_iff.mpr (h.last hdone)
    rw [if_pos hpos, h.li]
    simp
  have hle : min (b.pduSpace - UmdPduHeader.packedLength tx.snSize (f.init.length + 1)) sdu.length ≤
      sdu.length := Nat.min_le_right _ _
  unfold RlcUmTx.pullSdu
  dsimp only
  rw [hcount]
  generalize min (b.pduSpace - UmdPduHeader.packedLength tx.snSize (f.init.length + 1))
    sdu.length = toMove at hle ⊢
  refine ⟨?_, ?_, ?_, ?_⟩
  · intro hnone
    change b.pduSpace - toMove = _
    rw [hat.space hdone, (remainder_eq_none_iff hle).mp hnone]
    unfold spaceBefore
    rw [List.take_add_one, hget, List.map_append, List.sum_append, Nat.sub_sub]
    rfl
  · have hpieces := hat.pieces
    unfold piecesBefore at hpieces ⊢
    rw [length_extend]
    omega
  · intro hnone
    change (sdu.take toMove).length = (tx.txSduQueue[j]?.map List.length).getD 0
    rw [hget, (remainder_eq_none_iff hle).mp hnone, List.take_length]
    rfl
  · intro piece hpiece
    rcases List.mem_append.mp hpiece with hpiece | hpiece
    · exact hat.indicators piece hpiece
    · rw [List.mem_singleton.mp hpiece]
      exact hlt

theorem Filled.pullSdus {tx : RlcUmTx} (hfit : tx.IndicatorsFit nofBytes)
    (hnonempty : ∀ sdu ∈ queue, sdu ≠ [])
    (h : Filled tx.snSize pre units b f)
    (hqueue : tx.txSduQueue.drop j = queue) (hat : At tx nofBytes j b f)
    (hstop : b.txSdu ≠ none → queue ≠ [] → b.pduSpace ≤ b.headLen + 1) :
    ∃ f' units', Filled tx.snSize pre units' (RlcUmTx.pullSdus tx.snSize b queue).1 f' ∧
      units ++ queue = units' ++ (RlcUmTx.pullSdus tx.snSize b queue).2 ∧
      f'.startAligned = f.startAligned ∧ UmdPdu.IndicatorsFit f' ∧
      (tx.NoEmptyPiece nofBytes → f.last ≠ [] → f'.last ≠ []) := by
  induction queue generalizing units b f j with
  | nil => exact ⟨f, units, h, rfl, rfl, hat.indicators, fun _ hlast => hlast⟩
  | cons sdu queue ih =>
    unfold RlcUmTx.pullSdus
    by_cases hmore : b.pduSpace > b.headLen + 1
    · rw [if_pos hmore]
      have hdone : b.txSdu = none := by
        by_contra hrem
        exact absurd (hstop hrem (List.cons_ne_nil sdu queue)) (Nat.not_le.mpr hmore)
      have happends : tx.Appends nofBytes j := by
        refine ⟨?_, hat.pieces ▸ Nat.succ_pos _, ?_⟩
        · by_contra hlen
          rw [List.drop_eq_nil_of_le (Nat.le_of_not_lt hlen)] at hqueue
          exact List.cons_ne_nil _ _ hqueue.symm
        · rw [← hat.pieces, ← hat.space hdone, Nat.add_sub_cancel, ← h.headLen]
          exact hmore
      have hlt : f.last.length < 2048 := by
        rw [hat.lastLength hdone]
        exact (hfit j happends).1
      have hsdu := hnonempty sdu List.mem_cons_self
      have hfill := h.pullSdu hdone hsdu
      have hqueue' : tx.txSduQueue.drop (j + 1) = queue := by
        rw [← List.drop_drop, hqueue]
        rfl
      have hstop' : (RlcUmTx.pullSdu tx.snSize b sdu).txSdu ≠ none → queue ≠ [] →
          (RlcUmTx.pullSdu tx.snSize b sdu).pduSpace ≤
            (RlcUmTx.pullSdu tx.snSize b sdu).headLen + 1 := by
        intro hrem _
        unfold RlcUmTx.pullSdu at hrem ⊢
        dsimp only at hrem ⊢
        rw [Ne, remainder_eq_none_iff (Nat.min_le_right _ _)] at hrem
        omega
      obtain ⟨f', units', hfilled, hunits, hstart, hindicators, hlast⟩ :=
        ih (List.forall_mem_cons.mp hnonempty).2 hfill hqueue'
          (hat.pullSdu h hdone hqueue hlt) hstop'
      refine ⟨f', units', hfilled, ?_, hstart, hindicators, fun hne _ => hlast hne ?_⟩
      · rw [← hunits, List.append_assoc]
        rfl
      · have hspace := hne j happends
        rw [← hat.pieces, ← hat.space hdone] at hspace
        have hpos := List.length_pos_iff.mpr hsdu
        intro hnil
        have hlen := congrArg List.length hnil
        change (sdu.take _).length = 0 at hlen
        rw [List.length_take] at hlen
        omega
    · rw [if_neg hmore]
      exact ⟨f, units, h, rfl, rfl, hat.indicators, fun _ hlast => hlast⟩

/-- What the transmitter has accepted is what it has sent in fragments and what it still holds. -/
structure Sent (tx : RlcUmTx) (accepted : List Bytes) (fs : List (Fragment UInt8)) : Prop where
  chained : Chained true fs
  sn : tx.vtUs = fs.length % tx.snSize.mod
  aligned : Segmentation.aligned fs = decide (tx.txSdu = none)
  stream : accepted = Segmentation.completed fs ++ pending (carry fs) tx.txSdu ++ tx.txSduQueue
  remaining : ∀ rem, tx.txSdu = some rem → rem ≠ []
  queued : ∀ sdu ∈ tx.txSduQueue, sdu ≠ []

theorem sent_configure (snSize : UmdSnSize) (txQueueLength : ℕ) :
    Sent (configure snSize txQueueLength) [] [] where
  chained := trivial
  sn := (Nat.zero_mod _).symm
  aligned := rfl
  stream := rfl
  remaining := fun _ h => absurd h (by simp [configure])
  queued := List.forall_mem_nil _

variable {tx : RlcUmTx} {accepted : List Bytes} {fs : List (Fragment UInt8)}

theorem Sent.writeSdu (h : Sent tx accepted fs) (hsdu : sdu ≠ []) :
    Sent (tx.writeSdu sdu) (if tx.accepts then accepted ++ [sdu] else accepted) fs := by
  unfold RlcUmTx.writeSdu
  split_ifs with haccepts
  · refine ⟨h.chained, h.sn, h.aligned, ?_, h.remaining, ?_⟩
    · rw [h.stream, List.append_assoc]
    · intro s hs
      rcases List.mem_append.mp hs with hs | hs
      · exact h.queued s hs
      · rw [List.mem_singleton.mp hs]
        exact hsdu
  · exact h

theorem pullSdus_suffix (snSize : UmdSnSize) (b : Building) (queue : List Bytes) :
    (pullSdus snSize b queue).2 <:+ queue := by
  induction queue generalizing b with
  | nil => exact List.suffix_refl _
  | cons sdu queue ih =>
    unfold pullSdus
    split_ifs
    · exact (ih _).trans (List.suffix_cons sdu queue)
    · exact List.suffix_refl _

/-- The variables with the first piece of a PDU, `toMove` bytes of `sdu`. -/
def firstPiece (snSize : UmdSnSize) (space : ℕ) (sdu : Bytes) (toMove : ℕ) : Building where
  li := []
  lastLi := toMove
  headLen := UmdPduHeader.packedLength snSize 0
  pduSpace := space
  data := sdu.take toMove
  txSdu := remainder sdu toMove

theorem filled_firstPiece (hfit : tx.IndicatorsFit nofBytes) (start : Bool)
    (pre : Bytes) (hle : toMove ≤ sdu.length) (hpos : 0 < toMove)
    (hqueue : tx.txSduQueue.drop j = queue)
    (hnonempty : ∀ s ∈ queue, s ≠ []) (hpieces : tx.piecesBefore j = 1) {space : ℕ}
    (hspace : toMove = sdu.length → space = tx.spaceBefore nofBytes j)
    (hlength : toMove = sdu.length → tx.lengthBefore nofBytes j = toMove)
    (hstop : toMove ≠ sdu.length → queue ≠ [] →
      space ≤ UmdPduHeader.packedLength tx.snSize 0 + 1) :
    ∃ f units, Filled tx.snSize pre units
        (pullSdus tx.snSize (firstPiece tx.snSize space sdu toMove) queue).1 f ∧
      [pre ++ sdu] ++ queue =
        units ++ (pullSdus tx.snSize (firstPiece tx.snSize space sdu toMove) queue).2 ∧
      f.startAligned = start ∧ UmdPdu.IndicatorsFit f ∧
      (tx.NoEmptyPiece nofBytes → f.last ≠ []) := by
  have hfirst : Filled tx.snSize pre [pre ++ sdu] (firstPiece tx.snSize space sdu toMove)
      (single start sdu toMove) := filled_single start hle hpos rfl rfl rfl rfl rfl
  have hat : At tx nofBytes j (firstPiece tx.snSize space sdu toMove)
      (single start sdu toMove) := by
    refine ⟨fun hnone => hspace ((remainder_eq_none_iff hle).mp hnone), hpieces.symm,
      fun hnone => ?_, List.forall_mem_nil _⟩
    change (sdu.take toMove).length = _
    rw [List.length_take_of_le hle]
    exact (hlength ((remainder_eq_none_iff hle).mp hnone)).symm
  obtain ⟨f, units, hfilled, hunits, hstart, hindicators, hlast⟩ :=
    Filled.pullSdus hfit hnonempty hfirst hqueue hat
      fun hrem => hstop fun hall => hrem ((remainder_eq_none_iff hle).mpr hall)
  refine ⟨f, units, hfilled, hunits, hstart, hindicators, fun hne => hlast hne fun hnil => ?_⟩
  have hlen := congrArg List.length hnil
  change (sdu.take toMove).length = 0 at hlen
  rw [List.length_take_of_le hle] at hlen
  omega

theorem Sent.filled (h : Sent tx accepted fs) (hbuild : tx.canBuild nofBytes)
    (hfit : tx.IndicatorsFit nofBytes) :
    ∃ f units, Filled tx.snSize (carry fs) units
        (pullSdus tx.snSize (tx.startPdu nofBytes) tx.txSduQueue).1 f ∧
      pending (carry fs) tx.txSdu ++ tx.txSduQueue =
        units ++ (pullSdus tx.snSize (tx.startPdu nofBytes) tx.txSduQueue).2 ∧
      f.startAligned = decide (tx.txSdu = none) ∧ UmdPdu.IndicatorsFit f ∧
      (tx.NoEmptyPiece nofBytes → f.last ≠ []) := by
  obtain ⟨hdata, hgrant⟩ := of_decide_eq_true hbuild
  cases hsdu : tx.txSdu with
  | none =>
    -- the first SDU of the queue starts the PDU
    have hqueue : tx.txSduQueue ≠ [] := fun hnil => hdata ⟨hsdu, hnil⟩
    obtain ⟨sdu, queue, hcons⟩ := List.exists_cons_of_ne_nil hqueue
    have hlen := List.length_pos_iff.mpr (h.queued sdu (hcons ▸ List.mem_cons_self))
    have hcarry : carry fs = [] :=
      carry_eq_nil_of_aligned (h.aligned.trans (decide_eq_true hsdu))
    have hrest : ∀ s ∈ queue, s ≠ [] := fun s hs =>
      h.queued s (hcons ▸ List.mem_cons_of_mem sdu hs)
    obtain ⟨toMove, hmove⟩ : ∃ n, n =
      min (min nofBytes bufferTailroom - UmdPduHeader.packedLength tx.snSize 0) sdu.length :=
      ⟨_, rfl⟩
    have hpull : pullSdus tx.snSize (tx.startPdu nofBytes) tx.txSduQueue =
        pullSdus tx.snSize
          (firstPiece tx.snSize (min nofBytes bufferTailroom - toMove) sdu toMove) queue := by
      rw [hcons, pullSdus, startPdu, hsdu]
      dsimp only
      rw [if_pos hgrant, hmove]
      rfl
    have hspace : toMove = sdu.length →
        min nofBytes bufferTailroom - toMove = tx.spaceBefore nofBytes 1 := by
      intro hall
      unfold spaceBefore segmentLength
      rw [hsdu, hcons]
      simp [hall]
    have hlength : toMove = sdu.length → tx.lengthBefore nofBytes 1 = toMove := by
      intro hall
      unfold lengthBefore
      rw [hcons]
      exact hall.symm
    have hstop : toMove ≠ sdu.length → queue ≠ [] →
        min nofBytes bufferTailroom - toMove ≤ UmdPduHeader.packedLength tx.snSize 0 + 1 := by
      intro hpart _
      omega
    have hpieces : tx.piecesBefore 1 = 1 := by
      unfold piecesBefore
      rw [if_pos hsdu]
    rw [hpull, hcarry, hcons]
    exact filled_firstPiece hfit true [] (by omega) (by omega) (by rw [hcons]; rfl) hrest hpieces
      hspace hlength hstop
  | some rem =>
    have hlen := List.length_pos_iff.mpr (h.remaining rem hsdu)
    obtain ⟨toMove, hmove⟩ : ∃ n, n =
      min (min nofBytes bufferTailroom - UmdPduHeader.packedLength tx.snSize 0) rem.length :=
      ⟨_, rfl⟩
    have hsegment : tx.segmentLength nofBytes = toMove := by
      unfold segmentLength
      rw [hsdu, hmove]
    have hstart : tx.startPdu nofBytes =
        firstPiece tx.snSize
          (min nofBytes bufferTailroom - min toMove (bufferTailroom - toMove)) rem toMove := by
      rw [startPdu, hsdu, hmove]
      rfl
    have hspace : min nofBytes bufferTailroom - min toMove (bufferTailroom - toMove) =
        tx.spaceBefore nofBytes 0 := by
      unfold spaceBefore
      rw [hsegment]
      rfl
    have hpieces : tx.piecesBefore 0 = 1 := by
      unfold piecesBefore
      rw [if_neg (by simp [hsdu])]
    -- the space is right when another piece follows: this one has at most 2047 bytes
    have hstop : toMove ≠ rem.length → tx.txSduQueue ≠ [] →
        min nofBytes bufferTailroom - min toMove (bufferTailroom - toMove) ≤
          UmdPduHeader.packedLength tx.snSize 0 + 1 := by
      intro hpart hqueue
      by_contra hmore
      rw [hspace] at hmore
      have happends : tx.Appends nofBytes 0 := by
        refine ⟨List.length_pos_iff.mpr hqueue, hpieces ▸ Nat.one_pos, ?_⟩
        rw [hpieces]
        exact Nat.lt_of_not_le hmore
      have hlt : tx.segmentLength nofBytes < 2048 := (hfit 0 happends).1
      have hcap : bufferTailroom = 12237 := by decide
      omega
    rw [hstart]
    exact filled_firstPiece hfit false (carry fs) (by omega) (by omega) List.drop_zero h.queued
      hpieces
      (fun _ => hspace) (fun _ => hsegment) hstop

theorem Sent.buildDataPdu (h : Sent tx accepted fs) {pdu : Bytes}
    (hbuild : (tx.buildDataPdu nofBytes).2 = some pdu) (hfit : tx.IndicatorsFit nofBytes) :
    ∃ f, pdu = UmdPdu.encode tx.snSize fs.length f ∧
      Sent (tx.buildDataPdu nofBytes).1 accepted (fs ++ [f]) ∧ UmdPdu.IndicatorsFit f ∧
      (tx.NoEmptyPiece nofBytes → f.last ≠ []) := by
  unfold RlcUmTx.buildDataPdu at hbuild ⊢
  split_ifs at hbuild ⊢ with hcan
  obtain ⟨f, units, hfilled, hunits, hstart, hindicators, hlast⟩ := h.filled hcan hfit
  have hpdu := Option.some.inj hbuild
  dsimp only at hpdu ⊢
  have hfi : tx.framingInfo (pullSdus tx.snSize (tx.startPdu nofBytes) tx.txSduQueue).1 =
      UmdPdu.fi f := by
    unfold framingInfo UmdPdu.fi
    rw [hstart, hfilled.endAligned, RlcFi.startAndEndAligned, Nat.zero_or]
    simp only [decide_eq_true_eq]
  refine ⟨f, ?_, ⟨?_, ?_, ?_, ?_, hfilled.remaining, ?_⟩, hindicators, hlast⟩
  · rw [← hpdu, hfi, hfilled.li, hfilled.data, h.sn]
    rfl
  · exact (chained_concat fs f).mpr ⟨h.chained, hstart.trans h.aligned.symm⟩
  · rw [h.sn, List.length_append, List.length_singleton, Nat.mod_add_mod]
  · rw [aligned_concat]
    exact hfilled.endAligned
  · rw [h.stream, List.append_assoc, hunits, hfilled.units, completed_concat, carry_concat]
    simp only [List.append_assoc]
  · intro sdu hsdu
    exact h.queued sdu ((pullSdus_suffix _ _ _).subset hsdu)

end RlcUmTx
end SrsLte
