import SrsLte.UlSched

/-!
# The record of the uplink processes

A process that holds a block records the PRBs of its last transmission, an allocation for a
retransmission without a DCI keeps these PRBs, and every DCI of an allocation is granted in the
PDCCH. The steps of a run keep this, the calls for new allocations under a condition of their own.
-/

namespace SrsLte

open Function (update_self update_of_ne update forall_update_iff)

namespace UlUser

variable {tbsFromMcs : ℤ → ℕ → ℤ} {user : UlUser} {tti nofPrb : ℕ} {alloc : UlAlloc}
  {needsPdcch : Bool} {dciPos : DciLocation} {explicitMcs : ℤ} {dynamic : ℤ × ℤ} {i : Fin 8}

theorem getUlHarq_setUlHarq (h : UlHarqProc) : (user.setUlHarq tti h).getUlHarq tti = h :=
  update_self _ _ _

theorem ulHarq_setUlHarq_of_ne (h : UlHarqProc) (hi : i ≠ pid tti) :
    (user.setUlHarq tti h).ulHarq i = user.ulHarq i :=
  update_of_ne hi _ _

theorem allocation_transmitBlock {mcs : ℤ} :
    (user.transmitBlock tbsFromMcs tti alloc needsPdcch mcs dynamic).1.allocation = alloc := by
  unfold transmitBlock
  dsimp only
  split_ifs
  · rfl
  · rfl
  · rfl
  · rfl
  · rfl

theorem generateFormat0_user (tbsFromMcs : ℤ → ℕ → ℤ) :
    ∃ h : UlHarqProc, h.allocation = alloc ∧
      (user.generateFormat0 tbsFromMcs tti nofPrb alloc needsPdcch dciPos explicitMcs dynamic).1
        = user.setUlHarq tti h :=
  ⟨_, allocation_transmitBlock, rfl⟩

end UlUser

namespace UlHarqProc

variable {h : UlHarqProc}

theorem isEmptyTb_of_setAck {ack : Bool} (hafter : (h.setAck 0 ack).isEmptyTb 0 = false) :
    h.isEmptyTb 0 = false := by
  rw [HarqProc.isEmptyTb_eq_false_iff] at hafter ⊢
  change (if _ then false else if _ then false else (h.tb 0).active) = true at hafter
  split_ifs at hafter
  exact hafter

theorem isEmptyTb_of_resetPendingData (hafter : h.resetPendingData.isEmptyTb 0 = false) :
    h.isEmptyTb 0 = false := by
  rw [HarqProc.isEmptyTb_eq_false_iff] at hafter ⊢
  have htb := HarqProc.tb_resetPendingDataCommon h.toHarqProc 0
  change (h.toHarqProc.resetPendingDataCommon.tb 0).active = true at hafter
  rw [htb] at hafter
  dsimp only at hafter
  split_ifs at hafter
  exact hafter

theorem isEmptyTb_of_hasPendingRetx (hpending : h.hasPendingRetx = true) :
    h.isEmptyTb 0 = false := by
  rw [hasPendingRetx, HarqProc.hasPendingRetxCommon, Bool.and_eq_true] at hpending
  rw [Bool.not_eq_true'] at hpending
  exact hpending.1

end UlHarqProc

namespace UlUser

variable {user : UlUser} {tti : ℕ}

/-- The blocks in the processes of `user'` are blocks of `user`, with the PRBs recorded there. -/
def Keeps (user user' : UlUser) : Prop :=
  ∀ i, (user'.ulHarq i).isEmptyTb 0 = false →
    (user.ulHarq i).isEmptyTb 0 = false ∧ (user'.ulHarq i).allocation = (user.ulHarq i).allocation

theorem keeps_setUlHarq {h : UlHarqProc} (hnew : h.isEmptyTb 0 = false →
      (user.getUlHarq tti).isEmptyTb 0 = false ∧ h.allocation = (user.getUlHarq tti).allocation) :
    user.Keeps (user.setUlHarq tti h) :=
  (forall_update_iff user.ulHarq fun i h => h.isEmptyTb 0 = false →
    (user.ulHarq i).isEmptyTb 0 = false ∧ h.allocation = (user.ulHarq i).allocation).mpr
      ⟨hnew, fun _ _ hfull => ⟨hfull, rfl⟩⟩

theorem keeps_setUlCrc (crcRes : Bool) : user.Keeps (user.setUlCrc tti crcRes) :=
  keeps_setUlHarq fun hfull => ⟨UlHarqProc.isEmptyTb_of_setAck hfull, rfl⟩

theorem keeps_finishTti : user.Keeps (user.finishTti tti) :=
  keeps_setUlHarq fun hfull => ⟨UlHarqProc.isEmptyTb_of_resetPendingData
    (UlHarqProc.isEmptyTb_of_resetPendingData hfull), rfl⟩

end UlUser

namespace UlHistory

variable {tbsFromMcs : ℤ → ℕ → ℤ} {h : UlHistory} {rnti : ℕ} {i : Fin 8} {alloc : UlAlloc}
  {aggrIdx : Fin 4}

theorem foldl_recordSent_other (l : List UlDataAlloc) (sent : ℕ → Fin 8 → Option UlAlloc)
    (hother : rnti ∉ l.map (·.rnti)) : l.foldl (recordSent i) sent rnti = sent rnti := by
  induction l generalizing sent with
  | nil => rfl
  | cons a l ih =>
    rw [List.map_cons, List.mem_cons, not_or] at hother
    rw [List.foldl_cons, ih _ hother.2]
    exact update_of_ne hother.1 _ _

theorem foldl_recordSent_mem {l : List UlDataAlloc} (sent : ℕ → Fin 8 → Option UlAlloc)
    (hnodup : (l.map (·.rnti)).Nodup) {a : UlDataAlloc} (ha : a ∈ l) :
    l.foldl (recordSent i) sent a.rnti = update (sent a.rnti) i (some a.alloc) := by
  induction l generalizing sent with
  | nil => exact absurd ha List.not_mem_nil
  | cons b l ih =>
    rw [List.map_cons, List.nodup_cons] at hnodup
    rw [List.foldl_cons]
    rcases List.mem_cons.mp ha with rfl | hrest
    · rw [foldl_recordSent_other l _ hnodup.1]
      exact update_self a.rnti _ sent
    · have hne : a.rnti ≠ b.rnti := by
        intro heq
        exact hnodup.1 (List.mem_map.mpr ⟨a, hrest, heq⟩)
      rw [ih _ hnodup.2 hrest]
      have hsame : recordSent i sent b a.rnti = sent a.rnti := update_of_ne hne _ _
      rw [hsame]

def rntiOf (call : AllocType × Fin 4) : ℕ := (call.1.user.map SchedUe.rnti).getD 0

structure Inv (h : UlHistory) : Prop where
  rnti : ∀ rnti, (h.sched.ueDb rnti).ue.rnti = rnti
  sent : ∀ rnti i, ((h.sched.ueDb rnti).ulHarq i).isEmptyTb 0 = false →
    h.sent rnti i = some ((h.sched.ueDb rnti).ulHarq i).allocation
  nodup : (h.sched.ulDataAllocs.map (·.rnti)).Nodup
  noadapt : ∀ a ∈ h.sched.ulDataAllocs, a.type = .noadaptRetx →
    (h.sched.harq a.rnti).isEmptyTb 0 = false → (h.sched.harq a.rnti).allocation = a.alloc
  dcis : ∃ granted, PdcchGrid.Inv h.sched.params.pdcch h.sched.ttiAlloc.pdcchAlloc granted ∧
    ∀ a ∈ h.sched.ulDataAllocs, a.type.needsPdcch = true →
      (granted.map rntiOf)[a.dciIdx]? = some a.rnti

theorem inv_start (params : TtiParams) (cfgs : ℕ → UlUserCfg) : Inv (start params cfgs) where
  rnti _ := rfl
  sent _ _ hfull := nomatch (hfull : (true = false))
  nodup := List.nodup_nil
  noadapt _ ha := absurd ha List.not_mem_nil
  dcis := ⟨[], PdcchGrid.inv_init params.pdcch, List.forall_mem_nil _⟩

namespace Inv

section

variable (h' : Inv h)
include h'

theorem lastSent (hfull : (h.sched.harq rnti).isEmptyTb 0 = false) :
    h.lastSent rnti = some (h.sched.harq rnti).allocation :=
  h'.sent rnti _ hfull

theorem newTti (params : TtiParams) : Inv (step tbsFromMcs h (.newTti params)) where
  rnti := h'.rnti
  sent := h'.sent
  nodup := List.nodup_nil
  noadapt _ ha := absurd ha List.not_mem_nil
  dcis := ⟨[], PdcchGrid.inv_init params.pdcch, List.forall_mem_nil _⟩

theorem withGrid {ttiAlloc : TtiGrid}
    (hgrid : ∀ granted, PdcchGrid.Inv h.sched.params.pdcch h.sched.ttiAlloc.pdcchAlloc granted →
      ∃ more, PdcchGrid.Inv h.sched.params.pdcch ttiAlloc.pdcchAlloc (granted ++ more)) :
    Inv (h.withGrid ttiAlloc) where
  rnti := h'.rnti
  sent := h'.sent
  nodup := h'.nodup
  noadapt := h'.noadapt
  dcis := by
    obtain ⟨granted, hinv, hdcis⟩ := h'.dcis
    obtain ⟨more, hinv'⟩ := hgrid granted hinv
    refine ⟨granted ++ more, hinv', fun a ha hneeds => ?_⟩
    have hidx := hdcis a ha hneeds
    have hlt := (List.getElem?_eq_some_iff.mp hidx).1
    rw [List.map_append, List.getElem?_append_left hlt]
    exact hidx

theorem withUsers {ueDb : ℕ → UlUser}
    (hue : ∀ rnti, (ueDb rnti).ue = (h.sched.ueDb rnti).ue)
    (hproc : ∀ rnti, (h.sched.ueDb rnti).Keeps (ueDb rnti)) :
    Inv (h.withUsers ueDb) where
  rnti rnti := (congrArg SchedUe.rnti (hue rnti)).trans (h'.rnti rnti)
  sent rnti i hfull := by
    obtain ⟨hbefore, hsame⟩ := hproc rnti i hfull
    exact (h'.sent rnti i hbefore).trans (congrArg some hsame.symm)
  nodup := h'.nodup
  noadapt a ha htype hfull := by
    obtain ⟨hbefore, hsame⟩ := hproc a.rnti _ hfull
    exact hsame.trans (h'.noadapt a ha htype hbefore)
  dcis := h'.dcis

theorem setUlCrc (tti rnti : ℕ) (crcRes : Bool) :
    Inv (step tbsFromMcs h (.setUlCrc tti rnti crcRes)) := by
  apply h'.withUsers
  · exact (forall_update_iff h.sched.ueDb fun rnti user => user.ue = (h.sched.ueDb rnti).ue).mpr
      ⟨rfl, fun _ _ => rfl⟩
  · exact (forall_update_iff h.sched.ueDb fun rnti user => (h.sched.ueDb rnti).Keeps user).mpr
      ⟨UlUser.keeps_setUlCrc crcRes, fun _ _ _ hfull => ⟨hfull, rfl⟩⟩

theorem finishTti : Inv (step tbsFromMcs h .finishTti) :=
  h'.withUsers (fun _ => rfl) fun _ => UlUser.keeps_finishTti

theorem setCfg (rnti : ℕ) (cfg : UlUserCfg) :
    Inv (step tbsFromMcs h (.setCfg rnti cfg)) where
  rnti := (forall_update_iff h.sched.ueDb fun rnti user => user.ue.rnti = rnti).mpr
    ⟨rfl, fun rnti _ => h'.rnti rnti⟩
  sent rnti' i hfull := by
    change ((update h.sched.ueDb rnti (UlUser.setCfg rnti cfg) rnti').ulHarq i).isEmptyTb
      0 = false at hfull
    change update h.sent rnti (fun _ => none) rnti' i = some
      ((update h.sched.ueDb rnti (UlUser.setCfg rnti cfg) rnti').ulHarq i).allocation
    by_cases hr : rnti' = rnti
    · subst hr
      rw [update_self] at hfull
      exact nomatch (hfull : (true = false))
    · rw [update_of_ne hr] at hfull ⊢
      rw [update_of_ne hr]
      exact h'.sent rnti' i hfull
  nodup := h'.nodup
  noadapt a ha htype hfull := by
    change ((update h.sched.ueDb rnti (UlUser.setCfg rnti cfg) a.rnti).getUlHarq
      h.sched.ttiTxUl).isEmptyTb 0 = false at hfull
    change ((update h.sched.ueDb rnti (UlUser.setCfg rnti cfg) a.rnti).getUlHarq
      h.sched.ttiTxUl).allocation = a.alloc
    by_cases hr : a.rnti = rnti
    · rw [hr, update_self] at hfull
      exact nomatch (hfull : (true = false))
    · rw [update_of_ne hr] at hfull ⊢
      exact h'.noadapt a ha htype hfull
  dcis := h'.dcis

theorem allocUl {type : UlAllocType} {mcs : ℕ}
    (hkeep : type = .noadaptRetx → (h.sched.allocUl rnti aggrIdx alloc type mcs).2 = .success →
      (h.sched.harq rnti).isEmptyTb 0 = false → (h.sched.harq rnti).allocation = alloc) :
    Inv { h with sched := (h.sched.allocUl rnti aggrIdx alloc type mcs).1 } := by
  obtain ⟨granted, hinv, hdcis⟩ := h'.dcis
  rcases UlSched.allocUl_cases hinv rnti aggrIdx alloc type mcs with
    ⟨-, hkept⟩ | ⟨hfirst, -, ttiAlloc, hinv', heq⟩
  · rw [hkept]
    exact h'
  · rw [heq] at hkeep ⊢
    have hnew := UlSched.isUlAlloc_eq_false_iff.mp hfirst
    refine ⟨h'.rnti, h'.sent, ?_, ?_, _, hinv', ?_⟩
    · change ((h.sched.ulDataAllocs ++ [_]).map fun a : UlDataAlloc => a.rnti).Nodup
      rw [List.map_append]
      exact List.nodup_append_comm.mp (List.nodup_cons.mpr ⟨hnew, h'.nodup⟩)
    · intro a ha htype hfull
      rcases List.mem_append.mp ha with hold | hlast
      · exact h'.noadapt a hold htype hfull
      · rw [List.mem_singleton] at hlast
        subst hlast
        exact hkeep htype rfl hfull
    · intro a ha hneeds
      rcases List.mem_append.mp ha with hold | hlast
      · have hidx := hdcis a hold hneeds
        have hlt := (List.getElem?_eq_some_iff.mp hidx).1
        split_ifs
        · rw [List.map_append, List.getElem?_append_left hlt]
          exact hidx
        · exact hidx
      · rw [List.mem_singleton] at hlast
        subst hlast
        have hneeds' : type.needsPdcch = true := hneeds
        rw [if_pos hneeds'] at hinv' ⊢
        have hcount : ttiAlloc.pdcchAlloc.nofDciAllocs - 1 = (granted.map rntiOf).length := by
          rw [hinv'.count, List.length_append, List.length_map]
          rfl
        dsimp only
        rw [hcount, List.map_append, List.getElem?_append_right (Nat.le_refl _), Nat.sub_self]
        exact congrArg some (h'.rnti rnti)

end

variable {dynamic : ℕ → ℤ × ℤ} {a : UlDataAlloc}

theorem ueDb_generateDcis (h' : Inv h) (tbsFromMcs : ℤ → ℕ → ℤ) (dynamic : ℕ → ℤ × ℤ)
    (ha : a ∈ h.sched.ulDataAllocs) :
    ∃ hp : UlHarqProc, hp.allocation = a.alloc ∧
      (h.sched.generateDcis tbsFromMcs dynamic).ueDb a.rnti
        = (h.sched.ueDb a.rnti).setUlHarq h.sched.ttiTxUl hp := by
  obtain ⟨hp, halloc, heq⟩ := UlUser.generateFormat0_user tbsFromMcs
  exact ⟨hp, halloc, (UlSched.foldl_setUlResult_mem _ _ _ h'.nodup ha).1.trans heq⟩

theorem ttiTxUl_generateDcis :
    (h.sched.generateDcis tbsFromMcs dynamic).ttiTxUl = h.sched.ttiTxUl :=
  congrArg (fun params : TtiParams => ttiRxAck params.pdcch.ttiRx)
    (UlSched.foldl_setUlResult_frame _ _ _ _).1

theorem allocation_generateDcis (h' : Inv h) (tbsFromMcs : ℤ → ℕ → ℤ) (dynamic : ℕ → ℤ × ℤ)
    (ha : a ∈ h.sched.ulDataAllocs) :
    ((h.sched.generateDcis tbsFromMcs dynamic).harq a.rnti).allocation = a.alloc := by
  obtain ⟨hp, halloc, heq⟩ := h'.ueDb_generateDcis tbsFromMcs dynamic ha
  rw [UlSched.harq, ttiTxUl_generateDcis, heq, UlUser.getUlHarq_setUlHarq]
  exact halloc

theorem generateDcis (h' : Inv h) (dynamic : ℕ → ℤ × ℤ) :
    Inv (step tbsFromMcs h (.generateDcis dynamic)) := by
  obtain ⟨hparams, hgrid, hallocs⟩ := UlSched.foldl_setUlResult_frame tbsFromMcs
    dynamic h.sched.ulDataAllocs h.sched
  have hmem : ∀ rnti, rnti ∈ h.sched.ulDataAllocs.map (·.rnti) →
      ∃ a ∈ h.sched.ulDataAllocs, a.rnti = rnti := fun rnti hr => List.mem_map.mp hr
  refine ⟨?_, ?_, ?_, ?_, ?_⟩
  · intro rnti
    by_cases hr : rnti ∈ h.sched.ulDataAllocs.map (·.rnti)
    · obtain ⟨a, ha, rfl⟩ := hmem rnti hr
      obtain ⟨hp, -, heq⟩ := h'.ueDb_generateDcis tbsFromMcs dynamic ha
      exact (congrArg (fun user : UlUser => user.ue.rnti) heq).trans (h'.rnti a.rnti)
    · have hother := UlSched.foldl_setUlResult_other tbsFromMcs dynamic _ h.sched hr
      exact (congrArg (fun user : UlUser => user.ue.rnti) hother).trans (h'.rnti rnti)
  · intro rnti i hfull
    by_cases hr : rnti ∈ h.sched.ulDataAllocs.map (·.rnti)
    · obtain ⟨a, ha, rfl⟩ := hmem rnti hr
      obtain ⟨hp, halloc, heq⟩ := h'.ueDb_generateDcis tbsFromMcs dynamic ha
      change ((h.sched.generateDcis tbsFromMcs dynamic).ueDb a.rnti).ulHarq i |>.isEmptyTb 0
        |> (· = false) at hfull
      change h.sched.ulDataAllocs.foldl (recordSent (UlUser.pid h.sched.ttiTxUl)) h.sent a.rnti i
        = some (((h.sched.generateDcis tbsFromMcs dynamic).ueDb a.rnti).ulHarq i).allocation
      rw [heq] at hfull ⊢
      rw [foldl_recordSent_mem _ h'.nodup ha]
      by_cases hi : i = UlUser.pid h.sched.ttiTxUl
      · subst hi
        rw [update_self, ← halloc]
        exact congrArg (fun hp : UlHarqProc => some hp.allocation)
          (UlUser.getUlHarq_setUlHarq hp).symm
      · rw [UlUser.ulHarq_setUlHarq_of_ne _ hi] at hfull ⊢
        rw [update_of_ne hi]
        exact h'.sent a.rnti i hfull
    · have hother := UlSched.foldl_setUlResult_other tbsFromMcs dynamic _ h.sched hr
      change ((h.sched.generateDcis tbsFromMcs dynamic).ueDb rnti).ulHarq i |>.isEmptyTb 0
        |> (· = false) at hfull
      change h.sched.ulDataAllocs.foldl (recordSent (UlUser.pid h.sched.ttiTxUl)) h.sent rnti i
        = some (((h.sched.generateDcis tbsFromMcs dynamic).ueDb rnti).ulHarq i).allocation
      rw [UlSched.generateDcis, hother] at hfull ⊢
      rw [foldl_recordSent_other _ _ hr]
      exact h'.sent rnti i hfull
  · exact hallocs.symm ▸ h'.nodup
  · intro a ha _ _
    exact h'.allocation_generateDcis _ _ (hallocs ▸ ha)
  · change ∃ granted, PdcchGrid.Inv (h.sched.generateDcis tbsFromMcs dynamic).params.pdcch
        (h.sched.generateDcis tbsFromMcs dynamic).ttiAlloc.pdcchAlloc granted ∧
      ∀ a ∈ (h.sched.generateDcis tbsFromMcs dynamic).ulDataAllocs, _ → _
    rw [UlSched.generateDcis, hparams, hgrid, hallocs]
    exact h'.dcis

end Inv

end UlHistory

end SrsLte

/-!
In a run the retransmissions are consistent with the transmissions before them exactly when no call
of `alloc_ul_user` is misjudged.
-/

namespace SrsLte

namespace UlHistory

variable {tbsFromMcs : ℤ → ℕ → ℤ} {h : UlHistory} {rnti : ℕ} {alloc : UlAlloc} {aggrIdx : Fin 4}
  {dynamic : ℕ → ℤ × ℤ} {a : UlDataAlloc}

namespace Inv

theorem exists_dci (h' : Inv h) (ha : a ∈ h.sched.ulDataAllocs)
    (hneeds : a.type.needsPdcch = true) :
    ∃ d ∈ h.sched.dciResult[a.dciIdx]?, d.rnti = a.rnti := by
  obtain ⟨granted, hinv, hdcis⟩ := h'.dcis
  have hidx := hdcis a ha hneeds
  have hne : granted ≠ [] := by
    rintro rfl
    exact nomatch hidx
  obtain ⟨allocs, mask, heq, hserves⟩ := hinv.getAllocs _ h.sched.params.pdcch.emptyMask
    (hinv.combinations_pos _ hne)
  have hresult : h.sched.dciResult = allocs := by
    rw [UlSched.dciResult, heq]
    rfl
  have hrntis : allocs.map (·.rnti) = granted.map rntiOf := hserves.rntis
  rw [← hrntis, List.getElem?_map] at hidx
  obtain ⟨d, hd, hrnti⟩ := Option.map_eq_some_iff.mp hidx
  exact ⟨d, hresult.symm ▸ hd, hrnti⟩

theorem transmitsConsistently (h' : Inv h) (ha : a ∈ h.sched.ulDataAllocs) (htype : a.type ≠ .msg3)
    (hfull : (h.sched.harq a.rnti).isEmptyTb 0 = false) :
    h.TransmitsConsistently tbsFromMcs dynamic a := by
  have hrecorded := h'.allocation_generateDcis tbsFromMcs dynamic ha
  have hkept : a.type.needsPdcch = false → h.lastSent a.rnti = some a.alloc := by
    intro hneeds
    have hnoadapt : a.type = .noadaptRetx := by
      cases htype' : a.type with
      | noadaptRetx => rfl
      | msg3 => exact absurd htype' htype
      | newtx => rw [htype'] at hneeds; cases hneeds
      | adaptRetx => rw [htype'] at hneeds; cases hneeds
    rw [h'.lastSent hfull, h'.noadapt a ha hnoadapt hfull]
  refine ⟨hrecorded, ?_, ?_⟩
  · rw [hrecorded]
    exact hkept
  · rw [hrecorded]
    intro hdiffer
    have hneeds : a.type.needsPdcch = true := by
      by_contra hnot
      exact hdiffer (hkept (Bool.eq_false_iff.mpr hnot))
    obtain ⟨d, hd, hrnti⟩ := h'.exists_dci ha hneeds
    refine ⟨d, hd, hrnti, fun htbs => ?_⟩
    obtain ⟨hpdcch, hlocation, hue, hriv⟩ := UlSched.transmit_data tbsFromMcs dynamic h.sched a
    refine ⟨_, (UlSched.foldl_setUlResult_mem _ _ _ h'.nodup ha).2 htbs, hpdcch.trans hneeds, ?_,
      hue.trans (h'.rnti a.rnti), hriv⟩
    rw [hlocation, if_pos hneeds, Option.mem_def.mp hd]
    rfl

theorem grantsConsistently_iff (h' : Inv h) :
    h.GrantsConsistently rnti aggrIdx alloc ↔ ¬h.Misjudged rnti alloc := by
  obtain ⟨granted, hinv, -⟩ := h'.dcis
  have hcases := UlSched.allocUl_cases hinv rnti aggrIdx alloc
    (UlSched.userAllocType (h.sched.harq rnti) alloc) 0
  constructor
  · rintro hgrants ⟨hfirst, hroom, hpending, hlen, hstart, hmoved⟩
    have hlast := h'.lastSent (UlHarqProc.isEmptyTb_of_hasPendingRetx hpending)
    have hneeds := (UlSched.needsPdcch_userAllocType_iff hpending).mpr ⟨hlen, hstart⟩
    have hsuccess : (h.sched.allocUlUser rnti aggrIdx alloc).2 = .success := by
      have hul := (allocUlData_success_iff h.sched.params (h.sched.ueDb rnti).ue aggrIdx).mpr hroom
      unfold UlSched.allocUlUser UlSched.allocUl
      rw [hfirst, hneeds, if_neg Bool.false_ne_true]
      dsimp only
      rw [if_neg (not_not.mpr hul)]
    obtain ⟨a, hallocs, -, halloc, hkept⟩ := hgrants hsuccess hpending
    rcases hcases with ⟨hfail, -⟩ | ⟨-, -, ttiAlloc, -, heq⟩
    · exact hfail hsuccess
    · have hlastAlloc : h.sched.ulDataAllocs ++ [a] = h.sched.ulDataAllocs ++ [_] :=
        hallocs.symm.trans (congrArg (fun r => r.1.ulDataAllocs) heq)
      have ha := List.head_eq_of_cons_eq (List.append_cancel_left hlastAlloc)
      have hsame := hkept (by rw [ha]; exact hneeds)
      rw [hlast, Option.some.injEq] at hsame
      exact hmoved (congrArg UlAlloc.rbStart hsame).symm
  · intro hjudged hsuccess hpending
    rcases hcases with ⟨hfail, -⟩ | ⟨hfirst, hul, ttiAlloc, -, heq⟩
    · exact absurd hsuccess hfail
    · refine ⟨_, congrArg (fun r => r.1.ulDataAllocs) heq, rfl, rfl, fun hneeds => ?_⟩
      have hneeds' : (UlSched.userAllocType (h.sched.harq rnti) alloc).needsPdcch = false := hneeds
      obtain ⟨hlen, hstart⟩ := (UlSched.needsPdcch_userAllocType_iff hpending).mp hneeds'
      rw [hneeds'] at hul
      have hkept : alloc.rbStart = (h.sched.harq rnti).allocation.rbStart := by
        by_contra hmoved
        have hroom := (allocUlData_success_iff _ _ _).mp hul
        exact hjudged ⟨hfirst, hroom, hpending, hlen, hstart, hmoved⟩
      rw [h'.lastSent (UlHarqProc.isEmptyTb_of_hasPendingRetx hpending), Option.some.injEq]
      cases hprev : (h.sched.harq rnti).allocation with
      | mk rbStart L =>
        rw [hprev] at hlen hkept
        cases alloc with
        | mk rbStart' L' =>
          simp only at hlen hkept
          rw [hlen, hkept]

theorem step (h' : Inv h) {e : UlEvent} (he : h.Consistent tbsFromMcs e) :
    Inv (step tbsFromMcs h e) := by
  cases e with
  | newTti params => exact h'.newTti params
  | allocDlCtrl aggrLvl allocType =>
    exact h'.withGrid fun _ hinv => TtiGrid.allocDlCtrl_grows hinv aggrLvl allocType
  | allocDlUser user aggrLevel userMask =>
    exact h'.withGrid fun _ hinv => TtiGrid.allocDl_grows hinv aggrLevel (.dlData user) userMask
  | blockDl | reservePrach prachMask | reservePucch pucchMask =>
    exact h'.withGrid fun _ hinv => ⟨[], (List.append_nil _).symm ▸ hinv⟩
  | allocUlUser rnti aggrIdx alloc =>
    apply h'.allocUl
    intro htype hsuccess hfull
    have hpending : (h.sched.harq rnti).hasPendingRetx = true := by
      by_contra hnone
      rw [UlSched.userAllocType, if_neg hnone] at htype
      cases htype
    obtain ⟨a, hallocs, -, -, hkept⟩ := he hsuccess hpending
    have hneeds : a.type.needsPdcch = false := by
      obtain ⟨granted, hinv, -⟩ := h'.dcis
      rcases UlSched.allocUl_cases hinv rnti aggrIdx alloc
        (UlSched.userAllocType (h.sched.harq rnti) alloc) 0 with
        ⟨hfail, -⟩ | ⟨-, -, ttiAlloc, -, heq⟩
      · exact absurd hsuccess hfail
      · have hlast : h.sched.ulDataAllocs ++ [a] = h.sched.ulDataAllocs ++ [_] :=
          hallocs.symm.trans (congrArg (fun r => r.1.ulDataAllocs) heq)
        rw [List.head_eq_of_cons_eq (List.append_cancel_left hlast)]
        dsimp only
        rw [htype]
        rfl
    have hlast := hkept hneeds
    rw [h'.lastSent hfull, Option.some.injEq] at hlast
    exact hlast
  | allocUlMsg3 rnti alloc mcs => exact h'.allocUl nofun
  | generateDcis dynamic => exact h'.generateDcis dynamic
  | finishTti => exact h'.finishTti
  | setUlCrc tti rnti crcRes => exact h'.setUlCrc tti rnti crcRes
  | setCfg rnti cfg => exact h'.setCfg rnti cfg

theorem consistent_iff (h' : Inv h) (e : UlEvent) :
    h.Consistent tbsFromMcs e ↔ h.WellJudged e := by
  cases e with
  | allocUlUser rnti aggrIdx alloc => exact h'.grantsConsistently_iff
  | generateDcis dynamic =>
    exact iff_of_true (fun a ha htype hfull => h'.transmitsConsistently ha htype hfull) trivial
  | _ => exact Iff.rfl

end Inv

/-- In a run, the retransmissions without a DCI use the PRBs of the transmission before them, and
those on other PRBs have a DCI, exactly when no call of `alloc_ul_user` is misjudged. -/
theorem along_consistent_iff (tbsFromMcs : ℤ → ℕ → ℤ) (params : TtiParams) (cfgs : ℕ → UlUserCfg)
    (events : List UlEvent) :
    EventRun.Along (UlHistory.step tbsFromMcs) (Consistent tbsFromMcs) (start params cfgs) events
      ↔ EventRun.Along (UlHistory.step tbsFromMcs) WellJudged (start params cfgs) events :=
  EventRun.along_congr (fun _ _ hinv he => hinv.step he) (fun _ e hinv => hinv.consistent_iff e)
    (inv_start params cfgs)

/-- A cell with three PRBs of PUCCH has its Msg3 in the PRBs 3 to 5. It is not decoded, and eight
subframes later the PRACH covers these PRBs. -/
def msg3BehindPucch : List UlEvent :=
  [.newTti TtiGrid.twentyFivePrbs, .allocUlMsg3 70 ⟨3, 3⟩ 0, .generateDcis fun _ => (0, 0),
    .finishTti, .setUlCrc 8 70 false, .newTti TtiGrid.twentyFivePrbs,
    .reservePrach (TtiGrid.prbRange 3 9), .reservePucch (TtiGrid.prbRange 0 3)]

/-- The retransmission of the Msg3 moves to the PRBs 9 to 11 without a DCI. -/
theorem msg3_moved_without_dci :
    ¬∀ (tbsFromMcs : ℤ → ℕ → ℤ) (params : TtiParams) (cfgs : ℕ → UlUserCfg)
      (events : List UlEvent), EventRun.Along (UlHistory.step tbsFromMcs) (Consistent tbsFromMcs)
        (start params cfgs) events := by
  intro hall
  let cfg : UlUserCfg := ⟨PdcchGrid.srUser, 5, 4, -1⟩
  have hrun := hall (fun _ _ => 208) TtiGrid.twentyFivePrbs (fun _ => cfg)
    (msg3BehindPucch ++ [.allocUlUser 70 0 ⟨9, 3⟩])
  have hlast := (EventRun.along_append.mp hrun).2.1
  have hstate : ∃ h, msg3BehindPucch.foldl (UlHistory.step fun _ _ => 208)
      (start TtiGrid.twentyFivePrbs fun _ => cfg) = h ∧
      (h.sched.allocUlUser 70 0 ⟨9, 3⟩).2 = .success ∧ (h.sched.harq 70).hasPendingRetx = true ∧
      (h.sched.allocUlUser 70 0 ⟨9, 3⟩).1.ulDataAllocs.map (·.type) = [.noadaptRetx] ∧
      h.lastSent 70 = some ⟨3, 3⟩ :=
    ⟨_, rfl, by decide +kernel, by decide +kernel, by decide +kernel, by decide +kernel⟩
  obtain ⟨h, heq, hsuccess, hpending, htypes, hsent⟩ := hstate
  rw [heq] at hlast
  obtain ⟨a, hallocs, -, -, hkept⟩ := hlast hsuccess hpending
  rw [hallocs, List.map_append] at htypes
  have hmem : a.type ∈ [UlAllocType.noadaptRetx] :=
    htypes ▸ List.mem_append_right _ List.mem_cons_self
  have htype := List.mem_singleton.mp hmem
  have hsame := hkept (by rw [htype]; rfl)
  rw [hsent, Option.some.injEq] at hsame
  cases hsame

end UlHistory

end SrsLte
