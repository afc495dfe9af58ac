import Mathlib.Data.Set.Insert
import Mathlib.Logic.Function.Basic
import SrsLte.RlcUmNrPdu
import SrsLte.RlcUmNrTransmission
import SrsLte.RlcUmNrWindow

/-!
# Putting an NR UM SDU together

The receiver keeps the segments of an SDU that it cannot append yet. However they arrive, what it
has appended is the beginning of the SDU, the segment that comes next is not among those it keeps,
and the SDU is complete when its last segment is appended.
-/

namespace SrsLte
namespace UmNrPduSegments

open Tiling

/-- A received PDU holds the bytes of `u` between two offsets. -/
structure Segment (u : Bytes) (start stop : ℕ) (pdu : UmNrPdu) : Prop where
  so : pdu.header.so = start
  bytes : pdu.buf.bytes = part u start stop
  first : start = 0 → pdu.buf.headerLen = 1 ∧ stop ≠ u.length
  last : pdu.header.si = .lastSegment ↔ stop = u.length

/-- The segments of `u`, which fits into a buffer behind its header. -/
structure Segments (u : Bytes) (start stop : ℕ → ℕ) (pdu : ℕ → UmNrPdu) (C : Set ℕ) : Prop where
  bounded : u.length < bufferTailroom
  apart : Apart start stop u.length C
  segment : ∀ k ∈ C, Segment u (start k) (stop k) (pdu k)

/-- What has been collected of `u` once the segments `A` have arrived. -/
structure Collects (u : Bytes) (start stop : ℕ → ℕ) (pdu : ℕ → UmNrPdu) (C A : Set ℕ)
    (p : UmNrPduSegments) : Prop where
  subset : A ⊆ C
  reaches : Reaches start stop C A p.nextExpectedSo
  lt : p.nextExpectedSo < u.length
  sdu : p.sdu = if p.nextExpectedSo = 0 then none else some ⟨1, u.take p.nextExpectedSo⟩
  total : p.totalSduLength = 0 ∨ p.totalSduLength = u.length
  last : ∀ k ∈ A, stop k = u.length → p.totalSduLength = u.length
  stored : ∀ so q, p.segments.find? so = some q → ∃ k ∈ A, start k = so ∧ q = pdu k
  kept : ∀ k ∈ A, start k < p.nextExpectedSo ∨ p.segments.find? (start k) = some (pdu k)

variable {u : Bytes} {start stop : ℕ → ℕ} {pdu : ℕ → UmNrPdu} {C A : Set ℕ} {p : UmNrPduSegments}
  {k : ℕ}

theorem collects_empty (hu : 0 < u.length) : Collects u start stop pdu C ∅ empty where
  subset := Set.empty_subset C
  reaches := reaches_zero C ∅
  lt := hu
  sdu := rfl
  total := Or.inl rfl
  last := fun _ h => absurd h (Set.notMem_empty _)
  stored := fun _ _ h => by cases h
  kept := fun _ h => absurd h (Set.notMem_empty _)

theorem Segments.length_pdu (hs : Segments u start stop pdu C) (hk : k ∈ C) :
    (pdu k).buf.bytes.length = stop k - start k := by
  rw [(hs.segment k hk).bytes, length_part (hs.apart.le k hk)]

theorem Segments.eq_of_start (hs : Segments u start stop pdu C) {l : ℕ} (hk : k ∈ C) (hl : l ∈ C)
    (h : start k = start l) : k = l :=
  hs.apart.eq k hk l hl h.le (h ▸ hs.apart.lt k hk)

theorem Collects.place (hs : Segments u start stop pdu C) (h : Collects u start stop pdu C A p)
    (hk : k ∈ C) : Collects u start stop pdu C (insert k A) (p.place (pdu k)) := by
  have hseg := hs.segment k hk
  have hlt := hs.apart.lt k hk
  have hlen := hs.length_pdu hk
  have htotal : (p.place (pdu k)).totalSduLength =
      if stop k = u.length then u.length else p.totalSduLength := by
    unfold UmNrPduSegments.place updateTotalSduLength
    by_cases hlast : stop k = u.length
    · rw [if_pos hlast, if_pos (hseg.last.mpr hlast), hseg.so, hlen]
      dsimp only
      omega
    · rw [if_neg hlast, if_neg (fun hsi => hlast (hseg.last.mp hsi))]
  have hnext : (p.place (pdu k)).nextExpectedSo = p.nextExpectedSo := by
    unfold UmNrPduSegments.place updateTotalSduLength
    split_ifs <;> rfl
  have hsdu : (p.place (pdu k)).sdu = p.sdu := by
    unfold UmNrPduSegments.place updateTotalSduLength
    split_ifs <;> rfl
  have hfind : ∀ so, (p.place (pdu k)).segments.find? so =
      if so = start k then some ((p.segments.find? (start k)).getD (pdu k))
      else p.segments.find? so := fun so => by
    have hsegments : (p.place (pdu k)).segments = p.segments.emplace (start k) (pdu k) := by
      rw [← hseg.so]
      unfold UmNrPduSegments.place updateTotalSduLength
      split_ifs <;> rfl
    rw [hsegments, OrderedMap.find?_emplace]
  constructor
  · exact Set.insert_subset hk h.subset
  · rw [hnext]
    exact h.reaches.mono (Set.subset_insert k A)
  · rw [hnext]
    exact h.lt
  · rw [hsdu, hnext]
    exact h.sdu
  · rw [htotal]
    split_ifs
    · exact Or.inr rfl
    · exact h.total
  · intro l hl hend
    rw [htotal]
    rcases Set.mem_insert_iff.mp hl with rfl | hl
    · rw [if_pos hend]
    · rw [h.last l hl hend, ite_self]
  · intro so q hq
    rw [hfind] at hq
    split_ifs at hq with hso
    · cases hold : p.segments.find? (start k) with
      | none =>
        rw [hold] at hq
        exact ⟨k, Set.mem_insert k A, hso.symm, (Option.some.inj hq).symm⟩
      | some q' =>
        rw [hold] at hq
        obtain ⟨l, hl, hstart, rfl⟩ := h.stored _ _ hold
        exact ⟨l, Set.mem_insert_of_mem k hl, hstart.trans hso.symm, (Option.some.inj hq).symm⟩
    · obtain ⟨l, hl, hstart, hq⟩ := h.stored so q hq
      exact ⟨l, Set.mem_insert_of_mem k hl, hstart, hq⟩
  · intro l hl
    rw [hnext, hfind]
    -- a segment that is there already is kept
    have hsame : p.segments.find? (start k) = none ∨ p.segments.find? (start k) = some (pdu k) := by
      cases hold : p.segments.find? (start k) with
      | none => exact Or.inl rfl
      | some q =>
        obtain ⟨m, hm, hstart, rfl⟩ := h.stored _ _ hold
        rw [hs.eq_of_start (h.subset hm) hk hstart]
        exact Or.inr rfl
    have hthere : some ((p.segments.find? (start k)).getD (pdu k)) = some (pdu k) := by
      rcases hsame with hold | hold <;> rw [hold] <;> rfl
    by_cases hstart : start l = start k
    · rw [if_pos hstart, hthere]
      have hlC : l ∈ C := (Set.insert_subset hk h.subset) hl
      rw [hs.eq_of_start hlC hk hstart]
      exact Or.inr rfl
    · rw [if_neg hstart]
      rcases Set.mem_insert_iff.mp hl with rfl | hl
      · exact absurd rfl hstart
      · exact h.kept l hl

/-- The state after the segment from `nextExpectedSo` to `stop` is appended. -/
def extendTo (p : UmNrPduSegments) (u : Bytes) (stop : ℕ) : UmNrPduSegments :=
  { p with
    sdu := some ⟨1, u.take stop⟩
    nextExpectedSo := stop
    segments := p.segments.erase p.nextExpectedSo }

section

variable (hs : Segments u start stop pdu C) (h : Collects u start stop pdu C A p) (hk : k ∈ A)
  (hstart : start k = p.nextExpectedSo)
include hs h hk hstart

theorem Collects.extendTo
    (hstop : stop k ≠ u.length) : Collects u start stop pdu C A (p.extendTo u (stop k)) where
  subset := h.subset
  reaches := h.reaches.extend hs.apart h.subset hk hstart
  lt := lt_of_le_of_ne (hs.apart.le k (h.subset hk)) hstop
  sdu := (if_neg (Nat.ne_zero_of_lt (hs.apart.lt k (h.subset hk)))).symm
  total := h.total
  last := h.last
  stored := fun so q hq => by
    change (p.segments.erase p.nextExpectedSo).find? so = some q at hq
    rw [OrderedMap.find?_erase] at hq
    split_ifs at hq
    exact h.stored so q hq
  kept := fun l hl => by
    change start l < stop k ∨ (p.segments.erase p.nextExpectedSo).find? (start l) = _
    have hlt := hs.apart.lt k (h.subset hk)
    rw [OrderedMap.find?_erase]
    by_cases hl' : start l = p.nextExpectedSo
    · exact Or.inl (by omega)
    · rw [if_neg hl']
      exact (h.kept l hl).imp_left fun hold => by omega

theorem Collects.takeFirst_eq
    (hzero : p.nextExpectedSo = 0) : p.takeFirst (pdu k) = p.extendTo u (stop k) := by
  have hseg := hs.segment k (h.subset hk)
  have hstart0 : start k = 0 := hstart.trans hzero
  have hbuf : (pdu k).buf = ⟨1, u.take (stop k)⟩ := by
    have hbytes := hseg.bytes
    rw [hstart0, part, Nat.sub_zero, List.drop_zero] at hbytes
    rw [← (hseg.first hstart0).1, ← hbytes]
  have hlen : (u.take (stop k)).length = stop k := by
    rw [List.length_take]
    exact Nat.min_eq_left (hs.apart.le k (h.subset hk))
  unfold takeFirst UmNrPduSegments.extendTo
  rw [hbuf, hseg.so, hstart]
  dsimp only
  rw [hlen]

theorem Collects.append_eq :
    p.append ⟨1, u.take p.nextExpectedSo⟩ (pdu k) = p.extendTo u (stop k) := by
  have hkC := h.subset hk
  have hlt := hs.apart.lt k hkC
  have hstop : p.nextExpectedSo + (stop k - start k) = stop k := by omega
  have hbytes : u.take p.nextExpectedSo ++ (pdu k).buf.bytes = u.take (stop k) := by
    rw [(hs.segment k hkC).bytes, hstart]
    exact take_append_part u (by omega)
  unfold append UmNrPduSegments.extendTo
  dsimp only
  rw [hbytes, hs.length_pdu hkC, hstop, (hs.segment k hkC).so, hstart]

end

def Stuck (p : UmNrPduSegments) : Prop := p.segments.find? p.nextExpectedSo = none

section

variable (hs : Segments u start stop pdu C) (h : Collects u start stop pdu C A p)
include hs h

/-- The loop over the segments: `rest` is still to come, and what is behind the iterator does not
start where the SDU has got to. -/
theorem Collects.assemble {rest : List (ℕ × UmNrPdu)} (hsorted : rest.Pairwise fun a b => a.1 < b.1)
    (hrest : ∀ e ∈ rest, p.segments.find? e.1 = some e.2)
    (hpassed : ∀ so, p.segments.find? so ≠ none →
      (∃ e ∈ rest, e.1 = so) ∨ so < p.nextExpectedSo ∨
        (p.nextExpectedSo < so ∧ ∀ e ∈ rest, so < e.1)) :
    (∃ p', assemble rest p = .waiting p' ∧ Collects u start stop pdu C A p' ∧ p'.Stuck) ∨
      (assemble rest p = .complete u ∧ C ⊆ A ∧ ∃ k ∈ A, ∃ l ∈ A, k ≠ l) := by
  induction rest generalizing p with
  | nil =>
    refine Or.inl ⟨p, rfl, h, ?_⟩
    by_contra hfind
    rcases hpassed _ hfind with ⟨e, he, -⟩ | hlt | ⟨hlt, -⟩
    · exact absurd he List.not_mem_nil
    · omega
    · omega
  | cons e rest ih =>
    obtain ⟨so, q⟩ := e
    obtain ⟨hso, hsorted'⟩ := List.pairwise_cons.mp hsorted
    obtain ⟨k, hk, rfl, rfl⟩ := h.stored so q (hrest _ List.mem_cons_self)
    have hkC := h.subset hk
    have hseg := hs.segment k hkC
    unfold UmNrPduSegments.assemble
    rw [hseg.so]
    by_cases hnext : start k = p.nextExpectedSo
    · rw [if_pos hnext]
      -- the loop goes on after the segment is appended
      have hcontinue : stop k ≠ u.length → (∃ p', UmNrPduSegments.assemble rest
          (p.extendTo u (stop k)) = .waiting p' ∧ Collects u start stop pdu C A p' ∧ p'.Stuck) ∨
          (UmNrPduSegments.assemble rest (p.extendTo u (stop k)) = .complete u ∧ C ⊆ A ∧
            ∃ k ∈ A, ∃ l ∈ A, k ≠ l) := by
        intro hstop
        have hlt := hs.apart.lt k hkC
        refine ih (h.extendTo hs hk hnext hstop) hsorted' (fun e he => ?_) (fun so hfind => ?_)
        · have hne : e.1 ≠ p.nextExpectedSo := by
            have := hso e he
            dsimp only at this
            omega
          change (p.segments.erase p.nextExpectedSo).find? e.1 = _
          rw [OrderedMap.find?_erase, if_neg hne]
          exact hrest e (List.mem_cons_of_mem _ he)
        · change (p.segments.erase p.nextExpectedSo).find? so ≠ none at hfind
          rw [OrderedMap.find?_erase] at hfind
          split_ifs at hfind with hne
          · exact absurd rfl hfind
          · rcases hpassed so hfind with ⟨e, he, heq⟩ | hold | ⟨hgt, hold⟩
            · rcases List.mem_cons.mp he with rfl | he
              · exact absurd (heq.symm.trans hnext) hne
              · exact Or.inl ⟨e, he, heq⟩
            · exact Or.inr (Or.inl (by change so < stop k; omega))
            · have := hold _ List.mem_cons_self
              dsimp only at this
              omega
      by_cases hzero : p.nextExpectedSo = 0
      · rw [h.sdu, if_pos hzero]
        dsimp only
        rw [if_pos hzero, h.takeFirst_eq hs hk hnext hzero]
        exact hcontinue (hseg.first (hnext.trans hzero)).2
      · rw [h.sdu, if_neg hzero]
        dsimp only
        have hroom : ¬ (pdu k).buf.bytes.length >
            UmNrBuffer.tailroom ⟨1, u.take p.nextExpectedSo⟩ := by
          have hle := hs.apart.le k hkC
          have hlt := hs.apart.lt k hkC
          have hbound := hs.bounded
          rw [hs.length_pdu hkC, UmNrBuffer.tailroom, List.length_take]
          dsimp only
          omega
        rw [if_neg hzero, if_neg hroom, h.append_eq hs hk hnext]
        have hbytes : u.take p.nextExpectedSo ++ (pdu k).buf.bytes = u.take (stop k) := by
          rw [hseg.bytes, hnext]
          exact take_append_part u (hnext ▸ (hs.apart.lt k hkC).le)
        by_cases hstop : stop k = u.length
        · have htotal : (p.extendTo u (stop k)).nextExpectedSo =
              (p.extendTo u (stop k)).totalSduLength := hstop.trans (h.last k hk hstop).symm
          have hall := h.reaches.extend hs.apart h.subset hk hnext
          rw [hstop] at hall
          -- the segment before it has arrived, too
          obtain ⟨l, hl, hbefore⟩ := h.reaches.boundary.resolve_left hzero
          have hne : l ≠ k := fun heq => by
            have hlt := hs.apart.lt k hkC
            rw [heq] at hbefore
            omega
          rw [if_pos htotal, hbytes, hstop, List.take_length]
          exact Or.inr ⟨rfl, hall.all hs.apart, l, hl, k, hk, hne⟩
        · have htotal : (p.extendTo u (stop k)).nextExpectedSo ≠
              (p.extendTo u (stop k)).totalSduLength := by
            change stop k ≠ p.totalSduLength
            have hlt := hs.apart.lt k hkC
            rcases h.total with h0 | hlen <;> omega
          rw [if_neg htotal]
          exact hcontinue hstop
    · rw [if_neg hnext]
      refine ih h hsorted' (List.forall_mem_cons.mp hrest).2 (fun so hfind => ?_)
      rcases hpassed so hfind with ⟨e, he, heq⟩ | hold | ⟨hgt, hold⟩
      · rcases List.mem_cons.mp he with rfl | he
        · dsimp only at heq
          rcases Nat.lt_or_gt_of_ne hnext with hlt | hgt
          · exact Or.inr (Or.inl (by omega))
          · exact Or.inr (Or.inr ⟨by omega, fun e he => heq ▸ hso e he⟩)
        · exact Or.inl ⟨e, he, heq⟩
      · exact Or.inr (Or.inl hold)
      · exact Or.inr (Or.inr ⟨hgt, (List.forall_mem_cons.mp hold).2⟩)

/-- A segment arrives: the SDU is complete, and then all its segments have arrived, or it waits for
the segment to append. -/
theorem Collects.assemble_place (hk : k ∈ C) :
    (∃ p', UmNrPduSegments.assemble (p.place (pdu k)).segments.entries (p.place (pdu k)) =
        .waiting p' ∧ Collects u start stop pdu C (insert k A) p' ∧ p'.Stuck) ∨
      (UmNrPduSegments.assemble (p.place (pdu k)).segments.entries (p.place (pdu k)) =
        .complete u ∧ C ⊆ insert k A ∧ A.Nonempty) := by
  have hmap := (p.place (pdu k)).segments.sorted
  have hassemble := (h.place hs hk).assemble hs hmap
    (fun e he => OrderedMap.find?_eq_some_iff.mpr he) (fun so hfind => by
      obtain ⟨q, hq⟩ := Option.ne_none_iff_exists'.mp hfind
      exact Or.inl ⟨(so, q), OrderedMap.find?_eq_some_iff.mp hq, rfl⟩)
  refine hassemble.imp_right fun ⟨hcomplete, hall, l, hl, m, hm, hne⟩ => ⟨hcomplete, hall, ?_⟩
  rcases Set.mem_insert_iff.mp hl with rfl | hl
  · rcases Set.mem_insert_iff.mp hm with rfl | hm
    · exact absurd rfl hne
    · exact ⟨m, hm⟩
  · exact ⟨l, hl⟩

end

theorem Collects.not_all (h : Collects u start stop pdu C A p) (hstuck : p.Stuck)
    (hcovers : Covers start stop u.length C) : ¬ C ⊆ A := by
  intro hall
  have hnone : ∀ k ∈ A, start k ≠ p.nextExpectedSo := fun k hk heq => by
    rcases h.kept k hk with hlt | hfind
    · omega
    · rw [heq, hstuck] at hfind
      cases hfind
  exact absurd (h.reaches.complete hcovers hall h.subset hnone) (not_le.mpr h.lt)

end UmNrPduSegments
end SrsLte

/-!
The state of the receiver after any arrivals, in terms of the pieces that were sent: for each
sequence number that is still considered, the segments accepted since the SDU was last delivered.
-/

namespace SrsLte

open Tiling

namespace UmNrPiece

def pdu (p : UmNrPiece) (u : Bytes) : UmNrPdu where
  header := p.header u.length
  buf := { headerLen := (p.header u.length).packedLength, bytes := part u p.start p.stop }

def nth (ps : List UmNrPiece) (k : ℕ) : UmNrPiece := ps.getD k ⟨0, none, 0, 0⟩

/-- The positions of the segments with the sequence number `a`. -/
def withSn (ps : List UmNrPiece) (a : ℕ) : Set ℕ := {k | k < ps.length ∧ (nth ps k).sn = some a}

theorem nth_mem {ps : List UmNrPiece} {k : ℕ} (hk : k < ps.length) : nth ps k ∈ ps := by
  unfold nth
  rw [List.getD_eq_getElem _ _ hk]
  exact List.getElem_mem hk

theorem exists_nth {ps : List UmNrPiece} {p : UmNrPiece} (hp : p ∈ ps) :
    ∃ k < ps.length, nth ps k = p := by
  obtain ⟨k, hk, rfl⟩ := List.getElem_of_mem hp
  exact ⟨k, hk, by rw [nth, List.getD_eq_getElem _ _ hk]⟩

theorem segment_pdu {p : UmNrPiece} {u : Bytes} (hfits : p.Fits u.length) (hsn : p.sn ≠ none) :
    UmNrPduSegments.Segment u p.start p.stop (p.pdu u) where
  so := rfl
  bytes := rfl
  first := fun hzero => by
    refine ⟨?_, (hfits.segment hsn).2 hzero⟩
    simp [pdu, header, si, hsn, hzero, UmNrPduHeader.packedLength]
  last := by
    have hlt := hfits.segment hsn
    simp only [pdu, header, si, if_neg hsn]
    split_ifs with hzero hstop
    · simpa using hlt.2 hzero
    · simpa using hstop
    · simpa using hstop

end UmNrPiece

namespace Cut

open UmNrPiece

variable {length : ℕ → ℕ} {ps : List UmNrPiece} {n S : ℕ} {cur : Option ℕ} {k l : ℕ}

section

variable (h : Cut length ps n S cur)
include h

theorem same_sdu (hkl : k < l) (hl : l < ps.length)
    (hsdu : (nth ps k).sdu = (nth ps l).sdu) :
    (nth ps k).sn = (nth ps l).sn ∧ (nth ps k).sn ≠ none ∧ (nth ps k).stop ≤ (nth ps l).start := by
  have horder := List.pairwise_iff_getElem.mp h.order k l (hkl.trans hl) hl hkl
  unfold nth at hsdu ⊢
  rw [List.getD_eq_getElem _ _ (hkl.trans hl), List.getD_eq_getElem _ _ hl] at hsdu ⊢
  rcases horder with ⟨hlt, -⟩ | ⟨-, hsn, hne, hstop⟩
  · omega
  · exact ⟨hsn, hne, hstop⟩

section

variable (hk : k < ps.length) (hl : l < ps.length) (hsdu : (nth ps k).sdu = (nth ps l).sdu)
include hk hl hsdu

theorem sn_eq_of_sdu : (nth ps k).sn = (nth ps l).sn := by
  rcases lt_trichotomy k l with hkl | rfl | hlk
  · exact (h.same_sdu hkl hl hsdu).1
  · rfl
  · exact (h.same_sdu hlk hk hsdu.symm).1.symm

theorem eq_of_full (hfull : (nth ps k).sn = none) : k = l := by
  rcases lt_trichotomy k l with hkl | rfl | hlk
  · exact absurd hfull (h.same_sdu hkl hl hsdu).2.1
  · rfl
  · obtain ⟨hsn, hne, -⟩ := h.same_sdu hlk hk hsdu.symm
    exact absurd (hsn.trans hfull) hne

end

theorem sdu_eq_of_sn {a : ℕ} (hk : k ∈ withSn ps a)
    (hl : l ∈ withSn ps a) : (nth ps k).sdu = (nth ps l).sdu := by
  have hlt : ∀ {k l : ℕ}, k < l → k ∈ withSn ps a → l ∈ withSn ps a →
      (nth ps k).sdu = (nth ps l).sdu := fun {k l} hkl hk hl => by
    have horder := List.pairwise_iff_getElem.mp h.order k l hk.1 hl.1 hkl
    have hsnk := hk.2
    have hsnl := hl.2
    unfold nth at hsnk hsnl ⊢
    rw [List.getD_eq_getElem _ _ hk.1] at hsnk ⊢
    rw [List.getD_eq_getElem _ _ hl.1] at hsnl ⊢
    rcases horder with ⟨-, hlt⟩ | ⟨hsdu, -⟩
    · exact absurd (hlt a a hsnk hsnl) (lt_irrefl a)
    · exact hsdu
  rcases lt_trichotomy k l with hkl | rfl | hlk
  · exact hlt hkl hk hl
  · rfl
  · exact (hlt hlk hl hk).symm

theorem apart {a i : ℕ} (hi : ∀ k ∈ withSn ps a, (nth ps k).sdu = i) :
    Apart (fun k => (nth ps k).start) (fun k => (nth ps k).stop) (length i) (withSn ps a) where
  lt := fun k hk => ((h.fits _ (nth_mem hk.1)).segment (by simp [hk.2])).1
  le := fun k hk => hi k hk ▸ (h.fits _ (nth_mem hk.1)).stop_le
  eq := fun k hk l hl hle hlt => by
    have hlk := ((h.fits _ (nth_mem hl.1)).segment (by simp [hl.2])).1
    rcases lt_trichotomy k l with hkl | rfl | hgt
    · have hstop := (h.same_sdu hkl hl.1 (h.sdu_eq_of_sn hk hl)).2.2
      omega
    · rfl
    · have hstop := (h.same_sdu hgt hk.1 (h.sdu_eq_of_sn hl hk)).2.2
      omega

theorem covers {a i : ℕ} (hin : i < n)
    (hi : ∀ k < ps.length, (nth ps k).sdu = i → k ∈ withSn ps a)
    (hi' : ∀ k ∈ withSn ps a, (nth ps k).sdu = i) :
    Covers (fun k => (nth ps k).start) (fun k => (nth ps k).stop) (length i) (withSn ps a) where
  first := by
    obtain ⟨p, hp, hsdu, hstart⟩ := h.first i (Or.inl hin)
    obtain ⟨k, hk, rfl⟩ := exists_nth hp
    exact ⟨k, hi k hk hsdu, hstart⟩
  next := fun k hk hlt => by
    have hsdu := hi' k hk
    rcases h.next _ (nth_mem hk.1) with hend | ⟨q, hq, hqsdu, hqstart⟩
    · rw [if_neg (by omega), hsdu] at hend
      omega
    · obtain ⟨l, hl, rfl⟩ := exists_nth hq
      exact ⟨l, hi l hl (hqsdu.trans hsdu), hqstart⟩

end

end Cut

/-- The arrivals `accepted` (positions of PDUs) and the delivered SDUs `ids` of `n` SDUs that are
sent completely, with the segments accepted `since` the SDU of a sequence number was delivered. -/
structure Ledger (ps : List UmNrPiece) (n : ℕ) (accepted : List ℕ) (since : ℕ → Set ℕ)
    (ids : List ℕ) : Prop where
  subset : ∀ a, since a ⊆ UmNrPiece.withSn ps a
  counts : ∀ k < ps.length, ids.count (UmNrPiece.nth ps k).sdu ≤ accepted.count k
  strict : ∀ a, ∀ k ∈ since a, ids.count (UmNrPiece.nth ps k).sdu < accepted.count k
  kept : ∀ k ∈ accepted, (UmNrPiece.nth ps k).sdu ∈ ids ∨
    ∃ a, (UmNrPiece.nth ps k).sn = some a ∧ k ∈ since a
  complete : ∀ i < n, (∀ k < ps.length, (UmNrPiece.nth ps k).sdu = i → k ∈ accepted) → i ∈ ids

namespace Ledger

open UmNrPiece

variable {length : ℕ → ℕ} {ps : List UmNrPiece} {n S : ℕ} {cur : Option ℕ} {accepted ids : List ℕ}
  {since : ℕ → Set ℕ} {a k : ℕ}

theorem mem_of_ne (h : Ledger ps n accepted since ids) {i : ℕ} (hi : i < n)
    (hall : ∀ l < ps.length, (nth ps l).sdu = i → l ∈ accepted ++ [k]) (hne : (nth ps k).sdu ≠ i) :
    i ∈ ids := by
  refine h.complete i hi fun l hl hsdu => ?_
  rcases List.mem_append.mp (hall l hl hsdu) with hold | hnew
  · exact hold
  · rw [List.mem_singleton.mp hnew] at hsdu
    exact absurd hsdu hne

theorem mem_concat (h : Ledger ps n accepted since ids) (i : ℕ) (hi : i < n)
    (hall : ∀ l < ps.length, (nth ps l).sdu = i → l ∈ accepted ++ [k]) :
    i ∈ ids ++ [(nth ps k).sdu] := by
  by_cases hne : (nth ps k).sdu = i
  · exact List.mem_append_right _ (List.mem_singleton.mpr hne.symm)
  · exact List.mem_append_left _ (h.mem_of_ne hi hall hne)

theorem count_append_le (accepted : List ℕ) (k l : ℕ) :
    accepted.count l ≤ (accepted ++ [k]).count l := by
  rw [List.count_append]
  exact Nat.le_add_right _ _

section

variable (hcut : Cut length ps n S cur) (h : Ledger ps n accepted since ids)
include hcut h

theorem full (hk : k < ps.length) (hfull : (nth ps k).sn = none) :
    Ledger ps n (accepted ++ [k]) since (ids ++ [(nth ps k).sdu]) where
  subset := h.subset
  counts := fun l hl => by
    rw [List.count_append, List.count_append]
    have hold := h.counts l hl
    by_cases hsdu : (nth ps k).sdu = (nth ps l).sdu
    · rw [← hcut.eq_of_full hk hl hsdu hfull] at hold ⊢
      simpa using hold
    · rw [List.count_singleton, if_neg (by simpa using hsdu)]
      omega
  strict := fun b l hl => by
    have hl' := h.subset b hl
    have hold := h.strict b l hl
    have hsdu : (nth ps k).sdu ≠ (nth ps l).sdu := fun hsdu => by
      have hsn := hcut.sn_eq_of_sdu hk hl'.1 hsdu
      rw [hfull, hl'.2] at hsn
      cases hsn
    rw [List.count_append, List.count_append, List.count_singleton,
      if_neg (by simpa using hsdu)]
    omega
  kept := fun l hl => by
    rcases List.mem_append.mp hl with hl | hl
    · exact (h.kept l hl).imp_left (List.mem_append_left _)
    · rw [List.mem_singleton.mp hl]
      exact Or.inl List.mem_concat_self
  complete := h.mem_concat

theorem deliver (hk : k ∈ withSn ps a) (hall : withSn ps a ⊆ insert k (since a)) :
    Ledger ps n (accepted ++ [k]) (Function.update since a ∅) (ids ++ [(nth ps k).sdu]) where
  subset := fun b => by
    rw [Function.update_apply]
    split_ifs
    · exact Set.empty_subset _
    · exact h.subset b
  counts := fun l hl => by
    rw [List.count_append, List.count_singleton]
    have hold := h.counts l hl
    by_cases hsdu : (nth ps k).sdu = (nth ps l).sdu
    · rw [if_pos (by simpa using hsdu)]
      have hla : l ∈ withSn ps a := ⟨hl, (hcut.sn_eq_of_sdu hk.1 hl hsdu).symm.trans hk.2⟩
      rcases Set.mem_insert_iff.mp (hall hla) with rfl | hsince
      · rw [List.count_append, List.count_singleton_self]
        omega
      · have hstrict := h.strict a l hsince
        have hle := count_append_le accepted k l
        omega
    · rw [if_neg (by simpa using hsdu)]
      exact hold.trans (count_append_le accepted k l)
  strict := fun b l hl => by
    rw [Function.update_apply] at hl
    split_ifs at hl with hba
    · exact absurd hl (Set.notMem_empty l)
    · have hl' := h.subset b hl
      have hsdu : (nth ps k).sdu ≠ (nth ps l).sdu := fun hsdu => by
        have hsn := hcut.sn_eq_of_sdu hk.1 hl'.1 hsdu
        rw [hk.2, hl'.2] at hsn
        exact hba (Option.some.inj hsn).symm
      rw [List.count_append, List.count_singleton, if_neg (by simpa using hsdu)]
      exact (h.strict b l hl).trans_le (count_append_le accepted k l)
  kept := fun l hl => by
    by_cases hsdu : (nth ps l).sdu = (nth ps k).sdu
    · exact Or.inl (List.mem_append_right _ (List.mem_singleton.mpr hsdu))
    · rcases List.mem_append.mp hl with hl | hl
      · rcases h.kept l hl with hids | ⟨b, hb, hl⟩
        · exact Or.inl (List.mem_append_left _ hids)
        · refine Or.inr ⟨b, hb, ?_⟩
          rw [Function.update_apply, if_neg]
          · exact hl
          · rintro rfl
            exact hsdu (hcut.sdu_eq_of_sn (h.subset b hl) hk)
      · exact absurd (by rw [List.mem_singleton.mp hl]) hsdu
  complete := h.mem_concat

theorem wait (hk : k ∈ withSn ps a)
    (hwait : (nth ps k).sdu < n → ¬ withSn ps a ⊆ insert k (since a)) :
    Ledger ps n (accepted ++ [k]) (Function.update since a (insert k (since a))) ids where
  subset := fun b => by
    rw [Function.update_apply]
    split_ifs with hba
    · rw [hba]
      exact Set.insert_subset hk (h.subset a)
    · exact h.subset b
  counts := fun l hl => (h.counts l hl).trans (count_append_le accepted k l)
  strict := fun b l hl => by
    have hnew : l = k → ids.count (nth ps l).sdu < (accepted ++ [k]).count l := by
      rintro rfl
      have hold := h.counts l hk.1
      rw [List.count_append, List.count_singleton_self]
      omega
    rw [Function.update_apply] at hl
    split_ifs at hl with hba
    · rcases Set.mem_insert_iff.mp hl with rfl | hl
      · exact hnew rfl
      · exact (h.strict a l hl).trans_le (count_append_le accepted k l)
    · exact (h.strict b l hl).trans_le (count_append_le accepted k l)
  kept := fun l hl => by
    have hmono : ∀ b, since b ⊆ Function.update since a (insert k (since a)) b := fun b => by
      rw [Function.update_apply]
      split_ifs with hba
      · rw [hba]
        exact Set.subset_insert k _
      · exact subset_rfl
    rcases List.mem_append.mp hl with hl | hl
    · exact (h.kept l hl).imp_right fun ⟨b, hb, hl⟩ => ⟨b, hb, hmono b hl⟩
    · rw [List.mem_singleton.mp hl]
      exact Or.inr ⟨a, hk.2, by rw [Function.update_self]; exact Set.mem_insert k _⟩
  complete := fun i hi hall => by
    by_cases hne : (nth ps k).sdu = i
    · by_contra hnot
      refine hwait (hne ▸ hi) fun l hl => ?_
      have hsdu : (nth ps l).sdu = i := (hcut.sdu_eq_of_sn hl hk).trans hne
      rcases List.mem_append.mp (hall l hl.1 hsdu) with hold | hnew
      · rcases h.kept l hold with hids | ⟨b, hb, hsince⟩
        · exact absurd (hsdu ▸ hids) hnot
        · obtain rfl : a = b := Option.some.inj (hl.2.symm.trans hb)
          exact Set.mem_insert_of_mem k hsince
      · rw [List.mem_singleton.mp hnew]
        exact Set.mem_insert k _
    · exact h.mem_of_ne hi hall hne

end

end Ledger
end SrsLte
