import SrsLte.TtiGrid

/-!
# Search of an uplink allocation

`ul_metric_rr::find_allocation` scans the PRBs of the carrier from left to right for the first run
of free ones. A run that ends in front of an occupied PRB below 3 is left out, since it lies at
the edge of the band. The length is then lowered to one that SC-FDMA allows.
-/

namespace SrsLte

/-- `valid_prb`. -/
def validPrb : List Bool :=
  [true,  true,  true,  true,  true,  true,  true,  false, true,  true,  true,  false, true,
   false, false, true,  true,  false, true,  false, true,  false, false, false, true,  true,
   false, true,  false, false, true,  false, true,  false, false, false, true,  false, false,
   false, true,  false, false, false, false, true,  false, false, true,  false, true,  false,
   false, false, true,  false, false, false, false, false, true,  false, false, false, true,
   false, false, false, false, false, false, false, true,  false, false, true,  false, false,
   false, false, true,  true,  false, false, false, false, false, false, false, false, true,
   false, false, false, false, false, true,  false, false, false, true]

def dftPrecodingValidPrb (nofPrb : ℕ) : Bool :=
  if nofPrb ≤ 100 then validPrb.getD nofPrb false else false

namespace UlMetricRr

/-- The loop of `find_allocation` from PRB `n` on, with `left` PRBs to the end of the carrier. -/
def scan (usedRb : PrbMask) (L : ℕ) : ℕ → ℕ → UlAlloc → UlAlloc
  | 0, _, alloc => alloc
  | left + 1, n, alloc =>
    if alloc.L < L then
      if n ∉ usedRb.bits then
        scan usedRb L left (n + 1)
          ⟨if alloc.L = 0 then n else alloc.rbStart, alloc.L + 1⟩
      else if alloc.L > 0 then
        -- "avoid edges"
        if n < 3 then scan usedRb L left (n + 1) ⟨0, 0⟩ else alloc
      else scan usedRb L left (n + 1) alloc
    else alloc

/-- "Make sure L is allowed by SC-FDMA modulation". -/
def lowerToValid : ℕ → ℕ
  | 0 => 0
  | L + 1 => if dftPrecodingValidPrb (L + 1) then L + 1 else lowerToValid L

def findAllocation (usedRb : PrbMask) (L : ℕ) : UlAlloc × Bool :=
  let alloc := scan usedRb L usedRb.size 0 ⟨0, 0⟩
  if alloc.L = 0 then (alloc, false)
  else
    let alloc := { alloc with L := lowerToValid alloc.L }
    (alloc, alloc.L = L)

def DftSize (n : ℕ) : Prop := ∃ a b c, n = 2 ^ a * 3 ^ b * 5 ^ c

theorem dftSize_of_valid {n : ℕ} (hpos : 0 < n) (h : dftPrecodingValidPrb n = true) :
    DftSize n := by
  have hall : ∀ n < 101, 0 < n → dftPrecodingValidPrb n = true →
      ∃ a < 7, ∃ b < 5, ∃ c < 3, n = 2 ^ a * 3 ^ b * 5 ^ c := by
    decide +kernel
  have hlt : n < 101 := by
    by_contra hge
    rw [dftPrecodingValidPrb, if_neg (by omega)] at h
    exact absurd h Bool.false_ne_true
  obtain ⟨a, -, b, -, c, -, hn⟩ := hall n hlt hpos h
  exact ⟨a, b, c, hn⟩

theorem lowerToValid_le (L : ℕ) : lowerToValid L ≤ L := by
  induction L with
  | zero => exact Nat.le_refl 0
  | succ L ih =>
    rw [lowerToValid]
    split_ifs
    · exact Nat.le_refl _
    · exact ih.trans (Nat.le_succ L)

theorem lowerToValid_spec {L : ℕ} (hpos : 0 < L) :
    0 < lowerToValid L ∧ dftPrecodingValidPrb (lowerToValid L) = true := by
  induction L with
  | zero => exact absurd hpos (Nat.lt_irrefl 0)
  | succ L ih =>
    rw [lowerToValid]
    split_ifs with hvalid
    · exact ⟨Nat.succ_pos L, hvalid⟩
    · cases L with
      | zero => exact absurd rfl hvalid
      | succ L => exact ih (Nat.succ_pos L)

def AtEdge (usedRb : PrbMask) (m : ℕ) : Prop := ∃ n ∈ usedRb.bits, m < n ∧ n < 3

/-- The PRBs of `alloc` are free, and where it is empty the free PRBs below `n` are at the edge. -/
structure Scanned (usedRb : PrbMask) (L n : ℕ) (alloc : UlAlloc) : Prop where
  le : alloc.L ≤ L
  end_le : alloc.rbStart + alloc.L ≤ n
  free : ∀ i, alloc.rbStart ≤ i → i < alloc.rbStart + alloc.L → i ∉ usedRb.bits
  edge : alloc.L = 0 → ∀ m < n, m ∉ usedRb.bits → AtEdge usedRb m

theorem scanned_scan {usedRb : PrbMask} {L : ℕ} (left n : ℕ) (alloc : UlAlloc)
    (h : Scanned usedRb L n alloc) (hrun : alloc.L = 0 ∨ alloc.rbStart + alloc.L = n) (hL : 1 ≤ L) :
    Scanned usedRb L (n + left) (scan usedRb L left n alloc) := by
  induction left generalizing n alloc with
  | zero => exact h
  | succ left ih =>
    have hnext : n + (left + 1) = n + 1 + left := by omega
    have hstop : 0 < alloc.L → Scanned usedRb L (n + 1 + left) alloc := by
      intro hpos
      refine ⟨h.le, ?_, h.free, fun hzero => absurd hzero hpos.ne'⟩
      have hend := h.end_le
      omega
    rw [hnext, scan]
    by_cases hlt : alloc.L < L
    case neg =>
      rw [if_neg hlt]
      exact hstop (by omega)
    rw [if_pos hlt]
    by_cases hfree : n ∉ usedRb.bits
    · -- the PRB is free and joins the run
      rw [if_pos hfree]
      apply ih
      · by_cases hzero : alloc.L = 0
        · rw [if_pos hzero, hzero]
          refine ⟨hL, Nat.le_refl _, ?_, fun habs => absurd habs (Nat.succ_ne_zero _)⟩
          intro i hi hi'
          have hin : i = n := by
            dsimp only at hi hi'
            omega
          exact hin ▸ hfree
        · rw [if_neg hzero]
          have hend := hrun.resolve_left hzero
          refine ⟨hlt, ?_, ?_, fun habs => absurd habs (Nat.succ_ne_zero _)⟩
          · dsimp only
            omega
          · intro i hi hi'
            dsimp only at hi hi'
            rcases Nat.lt_or_ge i n with hbefore | hafter
            · exact h.free i hi (by omega)
            · have hin : i = n := by omega
              exact hin ▸ hfree
      · right
        dsimp only
        split_ifs with hzero
        · rw [hzero]
        · have hend := hrun.resolve_left hzero
          omega
    rw [if_neg hfree]
    rw [not_not] at hfree
    by_cases hpos : alloc.L > 0
    · rw [if_pos hpos]
      split_ifs with hedge
      · -- the run in front of an occupied PRB below 3 is given up
        apply ih
        · refine ⟨Nat.zero_le L, Nat.zero_le _, fun i _ hi => absurd hi (Nat.not_lt_zero i), ?_⟩
          intro _ m hm hmfree
          have hne : m ≠ n := fun heq => hmfree (heq ▸ hfree)
          exact ⟨n, hfree, by omega, hedge⟩
        · exact Or.inl rfl
      · exact hstop hpos
    · have hzero : alloc.L = 0 := by omega
      rw [if_neg hpos]
      apply ih
      · refine ⟨h.le, h.end_le.trans (Nat.le_succ n), h.free, ?_⟩
        intro _ m hm hmfree
        have hne : m ≠ n := fun heq => hmfree (heq ▸ hfree)
        exact h.edge hzero m (by omega) hmfree
      · exact Or.inl hzero

theorem scanned_all (usedRb : PrbMask) {L : ℕ} (hL : 1 ≤ L) :
    Scanned usedRb L usedRb.size (scan usedRb L usedRb.size 0 ⟨0, 0⟩) := by
  have hstart : Scanned usedRb L 0 ⟨0, 0⟩ :=
    ⟨Nat.zero_le L, Nat.le_refl 0, fun i _ hi => absurd hi (Nat.not_lt_zero i),
      fun _ m hm => absurd hm (Nat.not_lt_zero m)⟩
  have hscan := scanned_scan usedRb.size 0 ⟨0, 0⟩ hstart (Or.inl rfl) hL
  rwa [Nat.zero_add] at hscan

/-- The result is an interval of free PRBs of the carrier, of an allowed length up to `L`; or it
is empty, and every free PRB of the carrier is at the edge that the search avoids. -/
theorem findAllocation_free_interval (usedRb : PrbMask) {L : ℕ} (hL : 1 ≤ L) :
    ((findAllocation usedRb L).1.L = 0 ∧ (findAllocation usedRb L).2 = false ∧
        ∀ m < usedRb.size, m ∉ usedRb.bits → AtEdge usedRb m) ∨
      (1 ≤ (findAllocation usedRb L).1.L ∧ (findAllocation usedRb L).1.L ≤ L ∧
        DftSize (findAllocation usedRb L).1.L ∧
        (findAllocation usedRb L).1.rbStart + (findAllocation usedRb L).1.L ≤ usedRb.size ∧
        (∀ i, (findAllocation usedRb L).1.rbStart ≤ i →
          i < (findAllocation usedRb L).1.rbStart + (findAllocation usedRb L).1.L →
          i ∉ usedRb.bits) ∧
        (findAllocation usedRb L).2 = decide ((findAllocation usedRb L).1.L = L)) := by
  have hscan := scanned_all usedRb hL
  unfold findAllocation
  dsimp only
  by_cases hzero : (scan usedRb L usedRb.size 0 ⟨0, 0⟩).L = 0
  · rw [if_pos hzero]
    exact Or.inl ⟨hzero, rfl, hscan.edge hzero⟩
  · rw [if_neg hzero]
    have hle := lowerToValid_le (scan usedRb L usedRb.size 0 ⟨0, 0⟩).L
    obtain ⟨hpos, hvalid⟩ := lowerToValid_spec (Nat.pos_of_ne_zero hzero)
    have hend := hscan.end_le
    refine Or.inr ⟨hpos, hle.trans hscan.le, dftSize_of_valid hpos hvalid, ?_, ?_, rfl⟩
    · dsimp only
      omega
    · intro i hi hi'
      dsimp only at hi hi'
      exact hscan.free i hi (by omega)

/-- Seven free PRBs from 3 on give an allocation of six. -/
theorem findAllocation_seven_free :
    (findAllocation ((BoundedBitset.empty 15 (by decide)).fill 0 3 |>.fill 10 15) 7).1 = ⟨3, 6⟩ ∧
      (findAllocation ((BoundedBitset.empty 15 (by decide)).fill 0 3 |>.fill 10 15) 7).1.L ≤ 7 := by
  rcases findAllocation_free_interval
    ((BoundedBitset.empty 15 (by decide)).fill 0 3 |>.fill 10 15) (L := 7) (by decide) with h | h
  · exact absurd h.1 (by decide)
  · exact ⟨by decide, h.2.1⟩

end UlMetricRr

end SrsLte
