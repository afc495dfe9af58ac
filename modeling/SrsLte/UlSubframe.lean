import SrsLte.UlMetric
import SrsLte.UlSchedInvariant

/-!
# Users of the uplink

`ul_metric_rr::sched_users` gives the users with a pending retransmission their last PRBs or as many
others, and then looks for PRBs for new data. What the scheduler knows of a user beside its
processes is given by parameters.
-/

namespace SrsLte

/-- What the metric asks the user for: its index of the carrier, the aggregation level, the pending
bytes and the PRBs for them. -/
structure UlUserState where
  rnti : ℕ
  hasCell : Bool
  aggrIdx : Fin 4
  pendingData : ℕ
  pendingRb : ℕ

namespace UlMetricRr

def allocateUserRetxPrbs (s : UlSched) (u : UlUserState) : UlSched :=
  if s.isUlAlloc u.rnti ∨ ¬u.hasCell then s
  else
    let h := s.harq u.rnti
    if h.hasPendingRetx then
      -- "If can schedule the same mask, do it"
      match s.allocUlUser u.rnti u.aggrIdx h.allocation with
      | (s, .success) => s
      | (s, .dciCollision) => s
      | (s, _) =>
        match findAllocation s.ttiAlloc.ulMask h.allocation.L with
        | (alloc, true) => (s.allocUlUser u.rnti u.aggrIdx alloc).1
        | (_, false) => s
    else s

def allocateUserNewtxPrbs (s : UlSched) (u : UlUserState) : UlSched :=
  if s.isUlAlloc u.rnti ∨ ¬u.hasCell then s
  else if (s.harq u.rnti).isEmptyTb 0 ∧ u.pendingData > 0 then
    let alloc := (findAllocation s.ttiAlloc.ulMask u.pendingRb).1
    if alloc.L > 0 then (s.allocUlUser u.rnti u.aggrIdx alloc).1 else s
  else s

/-- `sched_users`: "allocate reTxs first", each time from the user that has priority in this TTI. -/
def schedUsers (s : UlSched) (users : List UlUserState) : UlSched :=
  let round := users.rotate ((s.ttiTxUl + users.length / 2) % users.length)
  round.foldl allocateUserNewtxPrbs (round.foldl allocateUserRetxPrbs s)

theorem dftSize_findAllocation {usedRb : PrbMask} {L : ℕ}
    (hfound : (findAllocation usedRb L).2 = true ∨ (findAllocation usedRb L).1.L > 0) :
    DftSize (findAllocation usedRb L).1.L := by
  unfold findAllocation at hfound ⊢
  dsimp only at hfound ⊢
  split_ifs at hfound ⊢ with hzero
  · exact absurd hzero (hfound.resolve_left not_false).ne'
  · obtain ⟨hpos, hvalid⟩ := lowerToValid_spec (Nat.pos_of_ne_zero hzero)
    exact dftSize_of_valid hpos hvalid

end UlMetricRr

open UlMetricRr
open Function (forall_update_iff)

/-- The blocks that the processes hold were sent on a number of PRBs that SC-FDMA allows. -/
def UlUser.Precoded (user : UlUser) : Prop :=
  ∀ i, (user.ulHarq i).isEmptyTb 0 = false → DftSize (user.ulHarq i).allocation.L

theorem UlUser.Precoded.keeps {user user' : UlUser} (hu : user.Precoded)
    (hk : user.Keeps user') : user'.Precoded := by
  intro i hfull
  obtain ⟨hbefore, hsame⟩ := hk i hfull
  exact hsame ▸ hu i hbefore

theorem UlUser.Precoded.setUlHarq {user : UlUser} (hu : user.Precoded) (tti : ℕ) {h : UlHarqProc}
    (hh : DftSize h.allocation.L) : (user.setUlHarq tti h).Precoded :=
  (forall_update_iff user.ulHarq fun _ h => h.isEmptyTb 0 = false → DftSize h.allocation.L).mpr
    ⟨fun _ => hh, fun i _ => hu i⟩

namespace UlSched

structure Precoded (s : UlSched) : Prop where
  allocs : ∀ a ∈ s.ulDataAllocs, DftSize a.alloc.L
  users : ∀ rnti, (s.ueDb rnti).Precoded
  pusch : ∀ data ∈ s.pusch, ∃ alloc : UlAlloc, DftSize alloc.L ∧
    data.riv = raType2ToRiv alloc.L alloc.rbStart s.params.nofPrb

namespace Precoded

variable {s : UlSched} (h : s.Precoded)
include h

theorem setUser (rnti : ℕ) {user : UlUser} (hu : user.Precoded) :
    Precoded { s with ueDb := Function.update s.ueDb rnti user } where
  allocs := h.allocs
  pusch := h.pusch
  users := (forall_update_iff s.ueDb fun _ user => user.Precoded).mpr
    ⟨hu, fun rnti _ => h.users rnti⟩

theorem allocUl (rnti : ℕ) (aggrIdx : Fin 4) {alloc : UlAlloc} (halloc : DftSize alloc.L)
    (type : UlAllocType) (mcs : ℕ) : (s.allocUl rnti aggrIdx alloc type mcs).1.Precoded := by
  unfold UlSched.allocUl
  dsimp only
  split_ifs
  · exact h
  · exact ⟨h.allocs, h.users, h.pusch⟩
  · exact ⟨List.forall_mem_append.mpr ⟨h.allocs, List.forall_mem_singleton.mpr halloc⟩, h.users,
      h.pusch⟩

theorem allocateUserRetxPrbs (u : UlUserState) : (allocateUserRetxPrbs s u).Precoded := by
  unfold UlMetricRr.allocateUserRetxPrbs
  dsimp only
  split_ifs with hskip hpending
  · exact h
  · have hsize := h.users u.rnti _ (UlHarqProc.isEmptyTb_of_hasPendingRetx hpending)
    have hsame : (s.allocUlUser u.rnti u.aggrIdx (s.harq u.rnti).allocation).1.Precoded :=
      h.allocUl _ _ hsize _ _
    generalize s.allocUlUser u.rnti u.aggrIdx (s.harq u.rnti).allocation = res at hsame
    obtain ⟨s', ret⟩ := res
    have hother : (match findAllocation s'.ttiAlloc.ulMask (s.harq u.rnti).allocation.L with
        | (alloc, true) => (s'.allocUlUser u.rnti u.aggrIdx alloc).1
        | (_, false) => s').Precoded := by
      split
      · next alloc hfound =>
        have hdft := dftSize_findAllocation (Or.inl (congrArg Prod.snd hfound))
        rw [hfound] at hdft
        exact hsame.allocUl _ _ hdft _ _
      · exact hsame
    cases ret with
    | success => exact hsame
    | dciCollision => exact hsame
    | _ => exact hother
  · exact h

theorem allocateUserNewtxPrbs (u : UlUserState) : (allocateUserNewtxPrbs s u).Precoded := by
  unfold UlMetricRr.allocateUserNewtxPrbs
  dsimp only
  split_ifs with hskip hempty hpos
  · exact h
  · exact h.allocUl _ _ (dftSize_findAllocation (Or.inr hpos)) _ _
  · exact h
  · exact h

theorem schedUsers (users : List UlUserState) : (schedUsers s users).Precoded :=
  List.foldlRecOn _ _ (List.foldlRecOn _ _ h fun _ hs u _ => hs.allocateUserRetxPrbs u)
    fun _ hs u _ => hs.allocateUserNewtxPrbs u

theorem generateDcis (tbsFromMcs : ℤ → ℕ → ℤ) (dynamic : ℕ → ℤ × ℤ) :
    (s.generateDcis tbsFromMcs dynamic).Precoded := by
  have hall := h.allocs
  unfold UlSched.generateDcis
  generalize s.ulDataAllocs = l at hall
  induction l generalizing s with
  | nil => exact h
  | cons a l ih =>
    obtain ⟨ha, hall⟩ := List.forall_mem_cons.mp hall
    refine ih ?_ hall
    have huser : (s.transmit tbsFromMcs dynamic a).1.Precoded := by
      obtain ⟨hp, hsame, heq⟩ := UlUser.generateFormat0_user tbsFromMcs
      exact heq ▸ (h.users a.rnti).setUlHarq _ (hsame.symm ▸ ha)
    have hset := h.setUser a.rnti huser
    refine ⟨hset.allocs, hset.users, ?_⟩
    have hriv := (transmit_data tbsFromMcs dynamic s a).2.2.2
    rw [pusch_setUlResult]
    split_ifs
    · exact h.pusch
    · exact List.forall_mem_append.mpr
        ⟨h.pusch, List.forall_mem_singleton.mpr ⟨a.alloc, ha, hriv⟩⟩

end Precoded
end UlSched

namespace UlHistory

/-- A call that reaches the scheduler, or the metric with the users of the carrier. -/
def subframeStep (tbsFromMcs : ℤ → ℕ → ℤ) (h : UlHistory) :
    UlEvent ⊕ List UlUserState → UlHistory
  | .inl e => h.step tbsFromMcs e
  | .inr users => { h with sched := schedUsers h.sched users }

/-- Only the metric allocates PRBs for a user, and a Msg3 has the three PRBs of its grant. -/
def OfCarrier : UlEvent ⊕ List UlUserState → Prop
  | .inl (.allocUlUser _ _ _) => False
  | .inl (.allocUlMsg3 _ alloc _) => alloc.L = 3
  | _ => True

theorem precoded_subframeStep {tbsFromMcs : ℤ → ℕ → ℤ} {h : UlHistory} (hs : h.sched.Precoded)
    {e : UlEvent ⊕ List UlUserState} (he : OfCarrier e) :
    (h.subframeStep tbsFromMcs e).sched.Precoded := by
  cases e with
  | inr users => exact hs.schedUsers users
  | inl e =>
    cases e with
    | newTti params => exact ⟨List.forall_mem_nil _, hs.users, List.forall_mem_nil _⟩
    | allocUlUser rnti aggrIdx alloc => exact he.elim
    | allocUlMsg3 rnti alloc mcs => exact hs.allocUl _ _ ⟨0, 1, 0, he⟩ _ _
    | generateDcis dynamic => exact hs.generateDcis tbsFromMcs dynamic
    | finishTti =>
      exact ⟨hs.allocs, fun rnti => (hs.users rnti).keeps UlUser.keeps_finishTti, hs.pusch⟩
    | setUlCrc tti rnti crcRes =>
      exact hs.setUser rnti ((hs.users rnti).keeps (UlUser.keeps_setUlCrc crcRes))
    | setCfg rnti cfg => exact hs.setUser rnti fun _ hfull => nomatch (hfull : (true = false))
    | _ => exact ⟨hs.allocs, hs.users, hs.pusch⟩

theorem precoded_start (params : TtiParams) (cfgs : ℕ → UlUserCfg) :
    (start params cfgs).sched.Precoded where
  allocs := List.forall_mem_nil _
  users _ _ hfull := nomatch (hfull : (true = false))
  pusch := List.forall_mem_nil _

/-- Seven PRBs are asked for beside a Msg3, and six are given. -/
def msg3AndData : List (UlEvent ⊕ List UlUserState) :=
  [.inl (.newTti TtiGrid.twentyFivePrbs), .inl (.allocUlMsg3 70 ⟨0, 3⟩ 0),
    .inr [⟨71, true, 0, 90, 7⟩], .inl (.generateDcis fun _ => (0, 0))]

end UlHistory
end SrsLte
