import SrsLte.Harq
import SrsLte.TtiGrid
import Mathlib.Algebra.BigOperators.Group.Finset.Piecewise
import Mathlib.Algebra.Order.Interval.Finset.SuccPred
import Mathlib.Data.List.Rotate
import Mathlib.Data.Nat.SuccPred

/-!
# Retransmissions in the downlink

`dl_metric_rr::allocate_user` tries the mask of the last transmission and then another one with as
many RBGs. The last RBG of a carrier may hold fewer PRBs than the others, so two such masks may
differ in their PRBs. What the scheduler knows of the user is given by parameters.
-/

namespace SrsLte

/-- `dl_alloc_t`. -/
structure DlAlloc where
  rnti : ℕ
  userMask : RbgMask
  pid : ℕ

/-- The part of `tti_sched_result_t` that data allocations use. -/
structure DlTtiSched where
  grid : TtiGrid
  dataAllocs : List DlAlloc

namespace DlTtiSched

def isDlAlloc (s : DlTtiSched) (user : SchedUe) : Bool :=
  s.dataAllocs.any fun a => a.rnti = user.rnti

def allocDlUser (t : TtiParams) (s : DlTtiSched) (user : SchedUe) (aggrLevel : Fin 4)
    (userMask : RbgMask) (pid : ℕ) : DlTtiSched × AllocOutcome :=
  if s.isDlAlloc user then (s, .error)
  else
    let (grid, ret) := s.grid.allocDlData t user aggrLevel userMask
    if ret ≠ .success then ({ s with grid := grid }, ret)
    else (⟨grid, s.dataAllocs ++ [⟨user.rnti, userMask, pid⟩]⟩, .success)

end DlTtiSched

/-- What `allocate_user` asks the user for: its index of the carrier, the aggregation level, the
processes with a pending retransmission and without data, and the pending bytes and RBGs. -/
structure DlUserState where
  user : SchedUe
  hasCell : Bool
  aggrLevel : Fin 4
  pendingDlHarq : Option DlHarqProc
  emptyDlHarq : Option DlHarqProc
  reqBytes : ℕ
  pendingRbg : ℕ

/-- The process that `allocate_user` returns, with the mask it is given. -/
inductive DlUserAlloc
  | nullptr
  | retx (h : DlHarqProc) (mask : RbgMask)
  | newtx (h : DlHarqProc) (mask : RbgMask)

namespace DlMetricRr

/-- The loop of `find_allocation`: the position behind the last RBG looked at, and the RBGs that
are still missing. -/
def takeRbgs (rbgmask : RbgMask) : ℕ → ℕ → ℕ → ℕ × ℕ
  | 0, i, nofRbg => (i, nofRbg)
  | left + 1, i, nofRbg =>
    if nofRbg > 0 then
      takeRbgs rbgmask left (i + 1) (if i ∈ rbgmask.bits then nofRbg - 1 else nofRbg)
    else (i, nofRbg)

def findAllocation (dlMask : RbgMask) (nofRbg : ℕ) : RbgMask × Bool :=
  let rbgmask := dlMask.compl
  let (i, nofRbg) := takeRbgs rbgmask rbgmask.size 0 nofRbg
  (rbgmask.clear i rbgmask.size, nofRbg = 0)

/-- "If could not schedule the reTx, or there wasn't any pending retx, find an empty PID". -/
def allocateNewtx (t : TtiParams) (s : DlTtiSched) (u : DlUserState) : DlTtiSched × DlUserAlloc :=
  match u.emptyDlHarq with
  | none => (s, .nullptr)
  | some h =>
    if u.reqBytes > 0 then
      let newtxMask := (findAllocation s.grid.dlMask u.pendingRbg).1
      if newtxMask.any then
        match s.allocDlUser t u.user u.aggrLevel newtxMask h.id with
        | (s, .success) => (s, .newtx h newtxMask)
        | (s, _) => (s, .nullptr)
      else (s, .nullptr)
    else (s, .nullptr)

def allocateUser (t : TtiParams) (s : DlTtiSched) (u : DlUserState) : DlTtiSched × DlUserAlloc :=
  if s.isDlAlloc u.user ∨ ¬u.hasCell then (s, .nullptr)
  else
    match u.pendingDlHarq with
    | none => allocateNewtx t s u
    | some h =>
      -- "Try to reuse the same mask"
      match s.allocDlUser t u.user u.aggrLevel h.rbgmask h.id with
      | (s, .success) => (s, .retx h h.rbgmask)
      | (s, .dciCollision) => (s, .nullptr)
      | (s, _) =>
        -- "find another with exact same number of rbgs"
        match findAllocation s.grid.dlMask h.rbgmask.count with
        | (retxMask, true) =>
          match s.allocDlUser t u.user u.aggrLevel retxMask h.id with
          | (s, .success) => (s, .retx h retxMask)
          | (s, .dciCollision) => (s, .nullptr)
          | (s, _) => allocateNewtx t s u
        | (_, false) => allocateNewtx t s u

/-- `sched_users`: the users of the map in turn, from the one that has priority in this TTI. -/
def schedUsers (t : TtiParams) (s : DlTtiSched) (users : List DlUserState) (ttiTxDl : ℕ) :
    DlTtiSched :=
  (users.rotate (ttiTxDl % users.length)).foldl (fun s u => (allocateUser t s u).1) s

/-- `format1_count_prb`. -/
def countPrb (t : TtiParams) (bitmask : RbgMask) : ℕ :=
  ((List.range bitmask.size).map fun i =>
    if i ∈ bitmask.bits then min (t.nofPrb - i * raType0P t.nofPrb) (raType0P t.nofPrb)
    else 0).sum

section PrbCount

variable {t : TtiParams}

/-- What the RBG `i` misses to be a full one. -/
def missingPrbs (t : TtiParams) (i : ℕ) : ℕ :=
  raType0P t.nofPrb - min (t.nofPrb - i * raType0P t.nofPrb) (raType0P t.nofPrb)

def lastRbg (t : TtiParams) : ℕ := t.nofRbgs - 1

theorem raType0P_pos (nofPrb : ℕ) : 0 < raType0P nofPrb := by
  unfold raType0P
  split_ifs <;> decide

theorem missingPrbs_eq_zero {i : ℕ} (hi : i < lastRbg t) : missingPrbs t i = 0 := by
  have hP := raType0P_pos t.nofPrb
  unfold lastRbg TtiParams.nofRbgs ceilDiv at hi
  unfold missingPrbs
  split_ifs at hi with hprb
  · have hfull : (i + 1) * raType0P t.nofPrb ≤ t.nofPrb - 1 := by
      have hle : i + 1 ≤ (t.nofPrb - 1) / raType0P t.nofPrb := by omega
      exact (Nat.le_div_iff_mul_le hP).mp hle
    rw [Nat.succ_mul] at hfull
    have hmin : raType0P t.nofPrb ≤ t.nofPrb - i * raType0P t.nofPrb := by omega
    rw [Nat.min_eq_right hmin, Nat.sub_self]
  · exact absurd hi (Nat.not_lt_zero i)

theorem missingPrbs_last (hprb : 0 < t.nofPrb) :
    missingPrbs t (lastRbg t) = 0 ↔ t.nofPrb % raType0P t.nofPrb = 0 := by
  have hP := raType0P_pos t.nofPrb
  have hdiv := Nat.div_add_mod (t.nofPrb - 1) (raType0P t.nofPrb)
  have hmod := Nat.mod_lt (t.nofPrb - 1) hP
  unfold missingPrbs lastRbg TtiParams.nofRbgs ceilDiv
  rw [if_pos hprb, Nat.add_sub_cancel]
  set P := raType0P t.nofPrb
  set q := (t.nofPrb - 1) / P
  set r := (t.nofPrb - 1) % P
  have hrest : t.nofPrb - q * P = r + 1 := by
    rw [Nat.mul_comm]
    omega
  rw [hrest, Nat.min_eq_left hmod]
  have hprb' : t.nofPrb = P * q + (r + 1) := by omega
  rw [hprb', Nat.mul_add_mod]
  constructor
  · intro h
    have hr : r + 1 = P := by omega
    rw [hr, Nat.mod_self]
  · intro h
    by_contra hne
    have hlt : r + 1 < P := by omega
    rw [Nat.mod_eq_of_lt hlt] at h
    exact absurd h (Nat.succ_ne_zero r)

theorem sum_range_eq (f : ℕ → ℕ) (n : ℕ) :
    ((List.range n).map f).sum = ∑ i ∈ Finset.range n, f i := by
  induction n with
  | zero => rfl
  | succ n ih =>
    rw [List.range_succ, List.map_append, List.sum_append, ih, Finset.sum_range_succ]
    rfl

theorem countPrb_eq_sum (bitmask : RbgMask) :
    countPrb t bitmask = ∑ i ∈ bitmask.bits, (raType0P t.nofPrb - missingPrbs t i) := by
  have hsub : bitmask.bits ⊆ Finset.range bitmask.size := fun i hi =>
    Finset.mem_range.mpr (bitmask.lt_size i hi)
  rw [countPrb, sum_range_eq, ← Finset.sum_filter, Finset.filter_mem_eq_inter,
    Finset.inter_eq_right.mpr hsub]
  apply Finset.sum_congr rfl
  intro i _
  rw [missingPrbs, Nat.sub_sub_self (Nat.min_le_right _ _)]

theorem countPrb_add (bitmask : RbgMask) (hsize : bitmask.size = t.nofRbgs) :
    countPrb t bitmask + (if lastRbg t ∈ bitmask.bits then missingPrbs t (lastRbg t) else 0) =
      bitmask.count * raType0P t.nofPrb := by
  have hmissing : ∑ i ∈ bitmask.bits, missingPrbs t i =
      if lastRbg t ∈ bitmask.bits then missingPrbs t (lastRbg t) else 0 := by
    rw [← Finset.sum_ite_eq']
    apply Finset.sum_congr rfl
    intro i hi
    split_ifs with hlast
    · rfl
    · have hlt := bitmask.lt_size i hi
      apply missingPrbs_eq_zero
      unfold lastRbg at hlast ⊢
      omega
  rw [countPrb_eq_sum, ← hmissing, ← Finset.sum_add_distrib]
  have hfull : ∀ i ∈ bitmask.bits,
      raType0P t.nofPrb - missingPrbs t i + missingPrbs t i = raType0P t.nofPrb := by
    intro i _
    exact Nat.sub_add_cancel (Nat.sub_le _ _)
  rw [Finset.sum_congr rfl hfull, Finset.sum_const_nat fun _ _ => rfl]
  rfl

/-- Two masks with as many RBGs have as many PRBs just if the last RBG is full, or in both masks
or in none. -/
theorem countPrb_eq_iff {a b : RbgMask} (ha : a.size = t.nofRbgs) (hb : b.size = t.nofRbgs)
    (hcount : a.count = b.count) : countPrb t a = countPrb t b ↔
      t.nofPrb % raType0P t.nofPrb = 0 ∨ (lastRbg t ∈ a.bits ↔ lastRbg t ∈ b.bits) := by
  have hsumA := countPrb_add a ha
  have hsumB := countPrb_add b hb
  rw [hcount] at hsumA
  by_cases hlast : lastRbg t ∈ a.bits ↔ lastRbg t ∈ b.bits
  · refine iff_of_true ?_ (Or.inr hlast)
    rw [if_congr hlast rfl rfl] at hsumA
    omega
  · have hprb : 0 < t.nofPrb := by
      by_contra hzero
      have hnone : ∀ c : RbgMask, c.size = t.nofRbgs → lastRbg t ∉ c.bits := by
        intro c hc hmem
        have hlt := c.lt_size _ hmem
        rw [hc, TtiParams.nofRbgs, ceilDiv, if_neg hzero] at hlt
        exact absurd hlt (Nat.not_lt_zero _)
      exact hlast (iff_of_false (hnone a ha) (hnone b hb))
    rw [or_iff_left hlast, ← missingPrbs_last hprb]
    by_cases hina : lastRbg t ∈ a.bits
    · have hinb : lastRbg t ∉ b.bits := fun h => hlast (iff_of_true hina h)
      rw [if_pos hina] at hsumA
      rw [if_neg hinb] at hsumB
      omega
    · have hinb : lastRbg t ∈ b.bits := by
        by_contra h
        exact hlast (iff_of_false hina h)
      rw [if_neg hina] at hsumA
      rw [if_pos hinb] at hsumB
      omega

end PrbCount

def freeRbgs (dlMask : RbgMask) : Finset ℕ := Finset.range dlMask.size \ dlMask.bits

theorem takeRbgs_spec (rbgmask : RbgMask) {left i : ℕ} (hleft : i + left = rbgmask.size)
    (nofRbg : ℕ) :
    i ≤ (takeRbgs rbgmask left i nofRbg).1 ∧
      (takeRbgs rbgmask left i nofRbg).1 ≤ rbgmask.size ∧
      (takeRbgs rbgmask left i nofRbg).2 +
        (rbgmask.bits ∩ Finset.Ico i (takeRbgs rbgmask left i nofRbg).1).card = nofRbg ∧
      ((takeRbgs rbgmask left i nofRbg).2 = 0 ∨
        (takeRbgs rbgmask left i nofRbg).1 = rbgmask.size) := by
  induction left generalizing i nofRbg with
  | zero =>
    have hi : i = rbgmask.size := by omega
    refine ⟨le_rfl, hi.le, ?_, Or.inr hi⟩
    rw [takeRbgs, Finset.Ico_self, Finset.inter_empty, Finset.card_empty, Nat.add_zero]
  | succ left ih =>
    rw [takeRbgs]
    by_cases hmore : nofRbg > 0
    · rw [if_pos hmore]
      obtain ⟨hlow, hhigh, hsum, hend⟩ := ih (i := i + 1) (by omega)
        (if i ∈ rbgmask.bits then nofRbg - 1 else nofRbg)
      refine ⟨by omega, hhigh, ?_, hend⟩
      set result := takeRbgs rbgmask left (i + 1)
        (if i ∈ rbgmask.bits then nofRbg - 1 else nofRbg) with hresult
      have hlt : i < result.1 := hlow
      rw [← Finset.insert_Ico_add_one_left_eq_Ico hlt]
      by_cases hfree : i ∈ rbgmask.bits
      · rw [if_pos hfree] at hsum
        have hnot : i ∉ rbgmask.bits ∩ Finset.Ico (i + 1) result.1 := by
          intro hmem
          have hge := (Finset.mem_Ico.mp (Finset.mem_inter.mp hmem).2).1
          exact absurd hge (Nat.not_succ_le_self i)
        rw [Finset.inter_insert_of_mem hfree, Finset.card_insert_of_notMem hnot]
        omega
      · rw [if_neg hfree] at hsum
        rw [Finset.inter_insert_of_notMem hfree]
        exact hsum
    · rw [if_neg hmore]
      refine ⟨le_rfl, by omega, ?_, Or.inl (by omega)⟩
      rw [Finset.Ico_self, Finset.inter_empty, Finset.card_empty, Nat.add_zero]

theorem findAllocation_spec (dlMask : RbgMask) (nofRbg : ℕ) :
    ((findAllocation dlMask nofRbg).2 = true ↔ nofRbg ≤ (freeRbgs dlMask).card) ∧
      (findAllocation dlMask nofRbg).1.size = dlMask.size ∧
      (findAllocation dlMask nofRbg).1.bits ⊆ freeRbgs dlMask ∧
      ((findAllocation dlMask nofRbg).2 = true →
        (findAllocation dlMask nofRbg).1.count = nofRbg) ∧
      (dlMask.size - 1 ∈ (findAllocation dlMask nofRbg).1.bits →
        (findAllocation dlMask nofRbg).1.bits = freeRbgs dlMask) := by
  obtain ⟨-, hhigh, hsum, hend⟩ :=
    @takeRbgs_spec dlMask.compl dlMask.compl.size 0 (Nat.zero_add _) nofRbg
  unfold findAllocation
  dsimp only
  set result := takeRbgs dlMask.compl dlMask.compl.size 0 nofRbg
  have hbits : (dlMask.compl.clear result.1 dlMask.compl.size).bits =
      freeRbgs dlMask ∩ Finset.Ico 0 result.1 := by
    rw [BoundedBitset.clear, if_neg (by omega)]
    ext j
    have hlt : j ∈ freeRbgs dlMask → j < dlMask.compl.size :=
      fun hj => Finset.mem_range.mp (Finset.mem_sdiff.mp hj).1
    change j ∈ freeRbgs dlMask \ _ ↔ _
    simp only [Finset.mem_sdiff, Finset.mem_inter, Finset.mem_Ico]
    constructor
    · rintro ⟨hfree, hout⟩
      have hsize := hlt hfree
      exact ⟨hfree, by omega⟩
    · rintro ⟨hfree, hin⟩
      exact ⟨hfree, by omega⟩
  have hall : result.1 = dlMask.compl.size → freeRbgs dlMask ∩ Finset.Ico 0 result.1 =
      freeRbgs dlMask := by
    intro hsize
    rw [hsize, ← Finset.range_eq_Ico, Finset.inter_eq_left]
    exact Finset.sdiff_subset
  change result.2 + (freeRbgs dlMask ∩ Finset.Ico 0 result.1).card = nofRbg at hsum
  refine ⟨?_, ?_, ?_, ?_, ?_⟩
  · rw [decide_eq_true_iff]
    constructor
    · intro hzero
      have hle := Finset.card_le_card
        (@Finset.inter_subset_left _ _ (freeRbgs dlMask) (Finset.Ico 0 result.1))
      omega
    · intro hle
      rcases hend with hzero | hsize
      · exact hzero
      · rw [hall hsize] at hsum
        omega
  · rw [BoundedBitset.clear, if_neg (by omega)]
    rfl
  · rw [hbits]
    exact Finset.inter_subset_left
  · intro hzero
    rw [decide_eq_true_iff] at hzero
    rw [BoundedBitset.count, hbits]
    omega
  · intro hlast
    rw [hbits] at hlast ⊢
    obtain ⟨hfree, hin⟩ := Finset.mem_inter.mp hlast
    have hlt := Finset.mem_range.mp (Finset.mem_sdiff.mp hfree).1
    have hhi := (Finset.mem_Ico.mp hin).2
    apply hall
    have hsize : dlMask.compl.size = dlMask.size := rfl
    omega

section Retransmission

variable {t : TtiParams} {s : DlTtiSched} {u : DlUserState} {h : DlHarqProc}

def DciFits (t : TtiParams) (s : DlTtiSched) (u : DlUserState) : Prop :=
  (s.grid.pdcchAlloc.allocDci t.pdcch (.dlData u.user) u.aggrLevel).2 = true

instance (t : TtiParams) (s : DlTtiSched) (u : DlUserState) : Decidable (DciFits t s u) :=
  inferInstanceAs (Decidable (_ = true))

theorem allocDlUser_collision {mask : RbgMask} {pid : ℕ} (hsize : mask.size = s.grid.dlMask.size)
    (hfree : s.isDlAlloc u.user = false) (hcoll : ¬Disjoint s.grid.dlMask.bits mask.bits) :
    s.allocDlUser t u.user u.aggrLevel mask pid = (s, .rbCollision) := by
  have hany : (s.grid.dlMask.and mask).any = true := by
    rw [← Bool.not_eq_false, BoundedBitset.any_and_eq_false hsize]
    exact hcoll
  unfold DlTtiSched.allocDlUser TtiGrid.allocDlData TtiGrid.allocDl
  simp [hfree, hany]

theorem allocDlUser_disjoint {mask : RbgMask} {pid : ℕ} (hsize : mask.size = s.grid.dlMask.size)
    (hfree : s.isDlAlloc u.user = false) (hdisj : Disjoint s.grid.dlMask.bits mask.bits) :
    (s.allocDlUser t u.user u.aggrLevel mask pid).2 = .success ∧ DciFits t s u ∨
      (s.allocDlUser t u.user u.aggrLevel mask pid).2 = .dciCollision ∧ ¬DciFits t s u := by
  have hany := (BoundedBitset.any_and_eq_false hsize).mpr hdisj
  unfold DciFits DlTtiSched.allocDlUser TtiGrid.allocDlData TtiGrid.allocDl
  cases hok : (s.grid.pdcchAlloc.allocDci t.pdcch (.dlData u.user) u.aggrLevel).2 with
  | false =>
    right
    simp [hfree, hany, hok]
  | true =>
    left
    simp [hfree, hany, hok]

def RetxKeepsPrbs (t : TtiParams) (s : DlTtiSched) (u : DlUserState) : Prop :=
  ∀ h mask, (allocateUser t s u).2 = .retx h mask → u.pendingDlHarq = some h ∧
    countPrb t mask = countPrb t h.rbgmask ∧ Disjoint mask.bits s.grid.dlMask.bits

/-- The user is served, has a retransmission pending whose mask is not free, and there are enough
free RBGs and a DCI for another mask. -/
def Moves (t : TtiParams) (s : DlTtiSched) (u : DlUserState) (h : DlHarqProc) : Prop :=
  s.isDlAlloc u.user = false ∧ u.hasCell = true ∧ u.pendingDlHarq = some h ∧
    ¬Disjoint s.grid.dlMask.bits h.rbgmask.bits ∧
    h.rbgmask.count ≤ (freeRbgs s.grid.dlMask).card ∧ DciFits t s u

theorem allocateNewtx_not_retx (t : TtiParams) (s : DlTtiSched) (u : DlUserState)
    (h : DlHarqProc) (mask : RbgMask) : (allocateNewtx t s u).2 ≠ .retx h mask := by
  unfold allocateNewtx
  cases u.emptyDlHarq with
  | none => nofun
  | some h =>
    dsimp only
    split_ifs
    · split <;> nofun
    · nofun
    · nofun

theorem allocateUser_retx (hmask : s.grid.dlMask.size = t.nofRbgs)
    (hsize : ∀ h, u.pendingDlHarq = some h → h.rbgmask.size = t.nofRbgs) (h : DlHarqProc)
    (mask : RbgMask) : (allocateUser t s u).2 = .retx h mask ↔
      (s.isDlAlloc u.user = false ∧ u.hasCell = true ∧ u.pendingDlHarq = some h ∧
        Disjoint s.grid.dlMask.bits h.rbgmask.bits ∧ DciFits t s u ∧ mask = h.rbgmask) ∨
      (Moves t s u h ∧ mask = (findAllocation s.grid.dlMask h.rbgmask.count).1) := by
  unfold allocateUser
  by_cases hskip : s.isDlAlloc u.user = true ∨ ¬u.hasCell = true
  · rw [if_pos hskip]
    refine iff_of_false nofun ?_
    rintro (⟨hfree, hcell, -⟩ | ⟨⟨hfree, hcell, -⟩, -⟩) <;> simp [hfree, hcell] at hskip
  rw [if_neg hskip]
  obtain ⟨hfree, hcell⟩ := not_or.mp hskip
  rw [Bool.not_eq_true] at hfree
  rw [not_not] at hcell
  cases hpending : u.pendingDlHarq with
  | none =>
    refine iff_of_false (allocateNewtx_not_retx t s u h mask) ?_
    rintro (⟨-, -, hsome, -⟩ | ⟨⟨-, -, hsome, -⟩, -⟩) <;> simp [hpending] at hsome
  | some g =>
    have hg : g.rbgmask.size = s.grid.dlMask.size := (hsize g hpending).trans hmask.symm
    dsimp only
    by_cases hdisj : Disjoint s.grid.dlMask.bits g.rbgmask.bits
    · have halloc := @allocDlUser_disjoint t s u g.rbgmask g.id hg hfree hdisj
      generalize s.allocDlUser t u.user u.aggrLevel g.rbgmask g.id = res at halloc
      obtain ⟨s1, ret⟩ := res
      rcases halloc with ⟨rfl, hfits⟩ | ⟨rfl, hfits⟩
      · constructor
        · intro hres
          obtain ⟨rfl, rfl⟩ := DlUserAlloc.retx.inj hres
          exact Or.inl ⟨hfree, hcell, rfl, hdisj, hfits, rfl⟩
        · rintro (⟨-, -, hsome, -, -, rfl⟩ | ⟨⟨-, -, hsome, hcoll, -⟩, -⟩)
          · obtain rfl := Option.some.inj hsome
            rfl
          · obtain rfl := Option.some.inj (hpending.symm.trans hsome)
            exact absurd hdisj hcoll
      · refine iff_of_false nofun ?_
        rintro (⟨-, -, -, -, hok, -⟩ | ⟨⟨-, -, -, -, -, hok⟩, -⟩) <;> exact hfits hok
    · rw [allocDlUser_collision hg hfree hdisj]
      dsimp only
      obtain ⟨hfound, hsz, hsub, -, -⟩ := findAllocation_spec s.grid.dlMask g.rbgmask.count
      generalize hfind : findAllocation s.grid.dlMask g.rbgmask.count = found at hfound hsz hsub
      obtain ⟨mask1, ok⟩ := found
      dsimp only at hfound hsz hsub
      cases ok with
      | false =>
        refine iff_of_false (allocateNewtx_not_retx t s u h mask) ?_
        rintro (⟨-, -, hsome, hfits, -⟩ | ⟨⟨-, -, hsome, -, henough, -⟩, -⟩)
        · obtain rfl := Option.some.inj hsome
          exact hdisj hfits
        · obtain rfl := Option.some.inj (hpending.symm.trans hsome)
          exact absurd (hfound.mpr henough) Bool.false_ne_true
      | true =>
        dsimp only
        have hdisj1 : Disjoint s.grid.dlMask.bits mask1.bits :=
          (Finset.disjoint_of_subset_left hsub Finset.sdiff_disjoint).symm
        have halloc := @allocDlUser_disjoint t s u mask1 g.id hsz hfree hdisj1
        generalize s.allocDlUser t u.user u.aggrLevel mask1 g.id = res at halloc
        obtain ⟨s1, ret⟩ := res
        rcases halloc with ⟨rfl, hfits⟩ | ⟨rfl, hfits⟩
        · constructor
          · intro hres
            obtain ⟨rfl, rfl⟩ := DlUserAlloc.retx.inj hres
            exact Or.inr ⟨⟨hfree, hcell, hpending, hdisj, hfound.mp rfl, hfits⟩, by rw [hfind]⟩
          · rintro (⟨-, -, hsome, hdisj', -⟩ | ⟨⟨-, -, hsome, -⟩, rfl⟩)
            · obtain rfl := Option.some.inj hsome
              exact absurd hdisj' hdisj
            · obtain rfl := Option.some.inj (hpending.symm.trans hsome)
              rw [hfind]
        · refine iff_of_false nofun ?_
          rintro (⟨-, -, -, -, hok, -⟩ | ⟨⟨-, -, -, -, -, hok⟩, -⟩) <;> exact hfits hok

/-- A mask that has to be replaced holds the last RBG just if its replacement does, or the last
RBG is a full one. -/
theorem retx_keeps_prbs_iff (hmask : s.grid.dlMask.size = t.nofRbgs)
    (hsize : ∀ h, u.pendingDlHarq = some h → h.rbgmask.size = t.nofRbgs) :
    RetxKeepsPrbs t s u ↔ ∀ h, Moves t s u h →
      t.nofPrb % raType0P t.nofPrb = 0 ∨ (lastRbg t ∈ h.rbgmask.bits ↔
        lastRbg t ∈ freeRbgs s.grid.dlMask ∧
          (freeRbgs s.grid.dlMask).card = h.rbgmask.count) := by
  have hnew : ∀ h, Moves t s u h →
      (countPrb t (findAllocation s.grid.dlMask h.rbgmask.count).1 = countPrb t h.rbgmask ↔
        t.nofPrb % raType0P t.nofPrb = 0 ∨ (lastRbg t ∈ h.rbgmask.bits ↔
          lastRbg t ∈ freeRbgs s.grid.dlMask ∧
            (freeRbgs s.grid.dlMask).card = h.rbgmask.count)) := by
    rintro h ⟨-, -, hpending, -, henough, -⟩
    obtain ⟨hfound, hsz, hsub, hcount, hall⟩ :=
      findAllocation_spec s.grid.dlMask h.rbgmask.count
    replace hcount := hcount (hfound.mpr henough)
    have hlast : lastRbg t ∈ (findAllocation s.grid.dlMask h.rbgmask.count).1.bits ↔
        lastRbg t ∈ freeRbgs s.grid.dlMask ∧
          (freeRbgs s.grid.dlMask).card = h.rbgmask.count := by
      have hrbg : lastRbg t = s.grid.dlMask.size - 1 := by rw [hmask, lastRbg]
      constructor
      · intro hmem
        have heq := hall (hrbg ▸ hmem)
        exact ⟨hsub hmem, (congrArg Finset.card heq).symm.trans hcount⟩
      · rintro ⟨hmem, hcard⟩
        rwa [Finset.eq_of_subset_of_card_le hsub (hcard.trans hcount.symm).le]
    rw [countPrb_eq_iff (hsz.trans hmask) (hsize h hpending) hcount, hlast, Iff.comm (a := _ ∧ _)]
  constructor
  · intro hkeeps h hmoves
    exact (hnew h hmoves).mp (hkeeps h _
      ((allocateUser_retx hmask hsize h _).mpr (Or.inr ⟨hmoves, rfl⟩))).2.1
  · intro hcond h mask hretx
    rcases (allocateUser_retx hmask hsize h mask).mp hretx with
      ⟨-, -, hpending, hdisj, -, rfl⟩ | ⟨hmoves, rfl⟩
    · exact ⟨hpending, rfl, hdisj.symm⟩
    · obtain ⟨-, -, hsub, -⟩ := findAllocation_spec s.grid.dlMask h.rbgmask.count
      exact ⟨hmoves.2.2.1, (hnew h hmoves).mpr (hcond h hmoves),
        Finset.disjoint_of_subset_left hsub Finset.sdiff_disjoint⟩

end Retransmission

section Round

variable {t : TtiParams} {h : TtiGrid.History} {s : DlTtiSched}

/-- The history `h` of a TTI, followed by one data allocation for each of some users. -/
def Continues (t : TtiParams) (h : TtiGrid.History) (s : DlTtiSched) : Prop :=
  (s.dataAllocs.map DlAlloc.rnti).Nodup ∧ ∃ dcis : List (SchedUe × Fin 4),
    dcis.map (fun d => d.1.rnti) = s.dataAllocs.map DlAlloc.rnti ∧
      TtiGrid.Inv t
        { h with
          grid := s.grid
          dlAllocs := h.dlAllocs ++ s.dataAllocs.map fun a => a.userMask.bits
          dcis := h.dcis ++ dcis.map fun d => (.dlData d.1, d.2) }

theorem Continues.allocDlUser (hs : Continues t h s) {mask : RbgMask}
    (hsize : mask.size = t.nofRbgs) (user : SchedUe) (aggrLevel : Fin 4) (pid : ℕ) :
    Continues t h (s.allocDlUser t user aggrLevel mask pid).1 := by
  obtain ⟨honce, dcis, hdcis, hinv⟩ := hs
  unfold DlTtiSched.allocDlUser
  by_cases hany : s.isDlAlloc user = true
  · rw [if_pos hany]
    exact ⟨honce, dcis, hdcis, hinv⟩
  rw [if_neg hany]
  unfold TtiGrid.allocDlData
  rcases TtiGrid.allocDl_cases hinv.pdcch (hsize.trans hinv.dlSize.symm) aggrLevel
    (.dlData user) with ⟨hne, hkept⟩ | ⟨hdisj, pdcchAlloc, hpdcch, hg⟩
  · dsimp only at hne hkept ⊢
    rw [if_pos hne, hkept]
    exact ⟨honce, dcis, hdcis, hinv⟩
  · dsimp only at hg ⊢
    rw [hg, if_neg (not_not_intro rfl)]
    refine ⟨?_, dcis ++ [(user, aggrLevel)], ?_, ?_⟩
    · rw [List.map_append, List.nodup_append_comm]
      refine List.nodup_cons.mpr ⟨fun hmem => ?_, honce⟩
      obtain ⟨a, ha, hrnti⟩ := List.mem_map.mp hmem
      exact hany (List.any_eq_true.mpr ⟨a, ha, decide_eq_true hrnti⟩)
    · rw [List.map_append, List.map_append, hdcis]
      rfl
    · simp only [List.map_append, ← List.append_assoc]
      exact hinv.allocDl hsize hdisj hpdcch

theorem Continues.findAllocation_size (hs : Continues t h s) (nofRbg : ℕ) :
    (findAllocation s.grid.dlMask nofRbg).1.size = t.nofRbgs := by
  obtain ⟨-, dcis, -, hinv⟩ := hs
  exact (findAllocation_spec s.grid.dlMask nofRbg).2.1.trans hinv.dlSize

theorem Continues.allocateNewtx (hs : Continues t h s) (u : DlUserState) :
    Continues t h (allocateNewtx t s u).1 := by
  unfold DlMetricRr.allocateNewtx
  cases u.emptyDlHarq with
  | none => exact hs
  | some harq =>
    have hnext := hs.allocDlUser (hs.findAllocation_size u.pendingRbg) u.user u.aggrLevel harq.id
    dsimp only
    generalize s.allocDlUser t u.user u.aggrLevel _ harq.id = res at hnext
    obtain ⟨s', ret⟩ := res
    split_ifs
    · cases ret <;> exact hnext
    · exact hs
    · exact hs

theorem Continues.allocateUser (hs : Continues t h s) {u : DlUserState}
    (hsize : ∀ harq, u.pendingDlHarq = some harq → harq.rbgmask.size = t.nofRbgs) :
    Continues t h (allocateUser t s u).1 := by
  unfold DlMetricRr.allocateUser
  split_ifs
  · exact hs
  cases hpending : u.pendingDlHarq with
  | none => exact hs.allocateNewtx u
  | some harq =>
    have hsame := hs.allocDlUser (hsize harq hpending) u.user u.aggrLevel harq.id
    dsimp only
    generalize s.allocDlUser t u.user u.aggrLevel _ harq.id = res at hsame
    obtain ⟨s, ret⟩ := res
    have hmove := hsame.allocDlUser (hsame.findAllocation_size harq.rbgmask.count) u.user
      u.aggrLevel harq.id
    cases ret <;> dsimp only
    case success | dciCollision => exact hsame
    all_goals
      generalize findAllocation s.grid.dlMask harq.rbgmask.count = found at hmove
      obtain ⟨mask, - | -⟩ := found
      · exact hsame.allocateNewtx u
      · dsimp only at hmove ⊢
        generalize s.allocDlUser t u.user u.aggrLevel mask harq.id = res at hmove
        obtain ⟨s', ret⟩ := res
        cases ret <;> first | exact hmove | exact Continues.allocateNewtx hmove u

/-- After the allocations of a TTI for broadcast, paging and random access, a round of the users
gives each of them one allocation at most. No two allocations share an RBG, the mask is their
union with the part set aside, and the PDCCH has an assignment that serves all their DCIs. -/
theorem schedUsers_exclusive {calls : List TtiGrid.Call}
    (hadm : TtiGrid.AdmissibleRun t (TtiGrid.newHistory t) calls) {users : List DlUserState}
    (hsize : ∀ u ∈ users, ∀ harq, u.pendingDlHarq = some harq → harq.rbgmask.size = t.nofRbgs)
    (ttiTxDl : ℕ) :
    let h := TtiGrid.run t calls
    let s := schedUsers t ⟨h.grid, []⟩ users ttiTxDl
    let masks := h.dlAllocs ++ s.dataAllocs.map fun a => a.userMask.bits
    (s.dataAllocs.map DlAlloc.rnti).Nodup ∧ masks.Pairwise Disjoint ∧
      DisjointAssignment.total id masks ∪ h.dlReserved = s.grid.dlMask.bits ∧
      ∃ dcis : List (SchedUe × Fin 4),
        dcis.map (fun d => d.1.rnti) = s.dataAllocs.map DlAlloc.rnti ∧
          ∀ totMask, ∀ idx < s.grid.pdcchAlloc.nofAllocCombinations, ∃ allocs mask,
            s.grid.pdcchAlloc.getAllocs totMask idx = some (allocs, mask) ∧
              PdcchGrid.Serves t.pdcch (h.dcis ++ dcis.map fun d => (.dlData d.1, d.2)) allocs
                mask := by
  intro h s masks
  have hstart : Continues t h ⟨h.grid, []⟩ := by
    refine ⟨List.nodup_nil, [], rfl, ?_⟩
    have hinv : TtiGrid.Inv t h := (TtiGrid.inv_newHistory t).foldl_step hadm
    simpa using hinv
  have hround : Continues t h s := by
    refine List.foldlRecOn _ _ hstart fun s hs u hu => hs.allocateUser (hsize u ?_)
    exact List.mem_rotate.mp hu
  obtain ⟨honce, dcis, hdcis, hinv⟩ := hround
  exact ⟨honce, hinv.dl.disjoint, hinv.dl.total_eq, dcis, hdcis,
    fun totMask idx hidx => hinv.pdcch.getAllocs _ totMask hidx⟩

end Round

/-- The RBGs from `startpos` up to `endpos` of a cell of 25 PRBs. -/
def rbgRange (startpos endpos : ℕ) : RbgMask :=
  TtiGrid.twentyFivePrbs.emptyRbgs.fill startpos endpos

/-- A TTI in which only the RBGs from `startpos` up to `endpos` are taken. -/
def takenRange (startpos endpos : ℕ) : DlTtiSched :=
  ⟨{ TtiGrid.newTti TtiGrid.twentyFivePrbs with dlMask := rbgRange startpos endpos }, []⟩

def harqRange (startpos endpos : ℕ) : DlHarqProc :=
  DlHarqProc.newTx ⟨HarqProc.config 0 4, TtiGrid.twentyFivePrbs.emptyRbgs, 0⟩
    (rbgRange startpos endpos) 0 0 10 100 0

def pendingRange (startpos endpos : ℕ) : DlUserState :=
  ⟨{ PdcchGrid.srUser with phyConfigDedicatedEnabled := false }, true, 0,
    some (harqRange startpos endpos), none, 0, 0⟩

theorem size_pendingRange {startpos endpos : ℕ} (g : DlHarqProc)
    (hg : (pendingRange startpos endpos).pendingDlHarq = some g) :
    g.rbgmask.size = TtiGrid.twentyFivePrbs.nofRbgs := by
  obtain rfl := Option.some.inj hg
  exact BoundedBitset.size_fill _ _ _

/-- A retransmission on the first RBG moves to the second one. -/
theorem retx_of_first_rbg :
    RetxKeepsPrbs TtiGrid.twentyFivePrbs (takenRange 0 1) (pendingRange 0 1) := by
  refine (retx_keeps_prbs_iff (BoundedBitset.size_fill _ _ _) size_pendingRange).mpr ?_
  rintro g ⟨-, -, hg, -⟩
  obtain rfl := Option.some.inj hg
  exact Or.inr (by decide)

/-- A retransmission on the last RBG, which has one PRB, moves to the first one, which has two. -/
theorem retx_of_last_rbg_grows :
    ¬RetxKeepsPrbs TtiGrid.twentyFivePrbs (takenRange 12 13) (pendingRange 12 13) := by
  intro hkeeps
  have hmoves : Moves TtiGrid.twentyFivePrbs (takenRange 12 13) (pendingRange 12 13)
      (harqRange 12 13) :=
    ⟨rfl, rfl, rfl, by decide, by decide, by decide +kernel⟩
  obtain ⟨-, hcount, -⟩ := hkeeps _ _
    ((allocateUser_retx (BoundedBitset.size_fill _ _ _) size_pendingRange _ _).mpr
      (Or.inr ⟨hmoves, rfl⟩))
  revert hcount
  decide

/-- Two users whose retransmissions were on the first RBG. -/
def samePrevious : List DlUserState :=
  [pendingRange 0 1, { pendingRange 0 1 with user := PdcchGrid.twoCces }]

/-- The second user has priority and keeps its RBG; the first one moves. -/
theorem schedUsers_two :
    let s := schedUsers TtiGrid.twentyFivePrbs ⟨TtiGrid.newTti TtiGrid.twentyFivePrbs, []⟩
      samePrevious 7
    s.dataAllocs.map (fun a => (a.rnti, a.userMask.bits)) = [(71, {0}), (70, {1})] ∧
      (s.dataAllocs.map fun a => a.userMask.bits).Pairwise Disjoint :=
  ⟨by decide +kernel, (@schedUsers_exclusive TtiGrid.twentyFivePrbs [] trivial samePrevious
    (List.forall_mem_cons.mpr ⟨size_pendingRange, List.forall_mem_singleton.mpr size_pendingRange⟩)
    7).2.1⟩

end DlMetricRr

end SrsLte
