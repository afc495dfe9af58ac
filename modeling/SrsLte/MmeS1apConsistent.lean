import SrsLte.EventRun
import SrsLte.KeyIndex
import SrsLte.MmeS1ap

/-!
# The UE-context maps of the MME stay consistent

The map by identifier is an exact index of the contexts and the sets of the eNBs are the image of
where the contexts are; the map by IMSI is a sound index. Several handlers break this: they set the
identifier or the IMSI of a context and leave the maps as they are.
-/

namespace SrsLte.S1ap

open KeyIndex EventRun

def imsiKey (c : NasCtx) : Option ℕ := some c.imsi

def idKey (c : NasCtx) : Option ℕ :=
  if c.ecm.mmeUeS1apId = 0 then none else some c.ecm.mmeUeS1apId

def placeKey (c : NasCtx) : Option (ℕ × ℕ) :=
  if c.ecm.mmeUeS1apId = 0 then none else some (c.ecm.enbAssoc, c.ecm.mmeUeS1apId)

def InEnbSet (s : S1ap) (place : ℕ × ℕ) : Prop :=
  ∃ ueIds, s.enbAssocToUeIds place.1 = some ueIds ∧ place.2 ∈ ueIds

def SetUp (s : S1ap) (enbAssoc : ℕ) : Prop :=
  (s.sctpToEnbId enbAssoc).isSome ∧ (s.enbAssocToUeIds enbAssoc).isSome

structure Consistent (s : S1ap) : Prop where
  idLive : ∀ id p, s.mmeUeS1apIdToNasCtx id = some p → (s.nasCtx p).isSome
  imsiLive : ∀ imsi p, s.imsiToNasCtx imsi = some p → (s.nasCtx p).isSome
  imsi : ∀ imsi p c, s.imsiToNasCtx imsi = some p → s.nasCtx p = some c → c.imsi = imsi
  stored : ∀ id p c, 0 < id → s.nasCtx p = some c →
    (s.mmeUeS1apIdToNasCtx id = some p ↔ c.ecm.mmeUeS1apId = id)
  inSet : ∀ enbAssoc ueIds id, s.enbAssocToUeIds enbAssoc = some ueIds → id ∈ ueIds →
    ∃ p c, s.mmeUeS1apIdToNasCtx id = some p ∧ s.nasCtx p = some c ∧ c.ecm.enbAssoc = enbAssoc
  ofStored : ∀ id p c, s.mmeUeS1apIdToNasCtx id = some p → s.nasCtx p = some c →
    ∃ ueIds, s.enbAssocToUeIds c.ecm.enbAssoc = some ueIds ∧ id ∈ ueIds

structure Inv (s : S1ap) : Prop where
  byId : Exact s.nasCtx idKey s.mmeUeS1apIdToNasCtx
  places : Image s.nasCtx placeKey s.InEnbSet
  byImsi : Sound s.nasCtx imsiKey s.imsiToNasCtx
  sctp : ∀ p c, s.nasCtx p = some c → c.ecm.mmeUeS1apId ≠ 0 →
    (s.sctpToEnbId c.ecm.enbAssoc).isSome
  fresh : ∀ p, s.nextNasCtx ≤ p → s.nasCtx p = none

variable {s : S1ap} {p id : ℕ} {c c' : NasCtx}

theorem idKey_eq (hid : c.ecm.mmeUeS1apId ≠ 0) : idKey c = some c.ecm.mmeUeS1apId := if_neg hid

theorem placeKey_eq (hid : c.ecm.mmeUeS1apId ≠ 0) :
    placeKey c = some (c.ecm.enbAssoc, c.ecm.mmeUeS1apId) := if_neg hid

theorem idKey_eq_none (hid : c.ecm.mmeUeS1apId = 0) : idKey c = none := if_pos hid

theorem placeKey_eq_none (hid : c.ecm.mmeUeS1apId = 0) : placeKey c = none := if_pos hid

theorem idKey_eq_some (h : idKey c = some id) : c.ecm.mmeUeS1apId = id ∧ id ≠ 0 := by
  unfold idKey at h
  split_ifs at h with hid
  obtain rfl := Option.some.inj h
  exact ⟨rfl, hid⟩

theorem Inv.idLive (h : Inv s) (hid : s.mmeUeS1apIdToNasCtx id = some p) :
    ∃ c, s.nasCtx p = some c ∧ c.ecm.mmeUeS1apId = id ∧ id ≠ 0 := by
  obtain ⟨c, hc, hkey⟩ := (h.byId id p).mp hid
  exact ⟨c, hc, idKey_eq_some hkey⟩

theorem Inv.stored (h : Inv s) (hc : s.nasCtx p = some c) (hid : c.ecm.mmeUeS1apId ≠ 0) :
    s.mmeUeS1apIdToNasCtx c.ecm.mmeUeS1apId = some p := (h.byId _ _).mpr ⟨c, hc, idKey_eq hid⟩

theorem Inv.inEnbSet (h : Inv s) (hc : s.nasCtx p = some c) (hid : c.ecm.mmeUeS1apId ≠ 0) :
    ∃ ueIds, s.enbAssocToUeIds c.ecm.enbAssoc = some ueIds ∧ c.ecm.mmeUeS1apId ∈ ueIds :=
  (h.places (c.ecm.enbAssoc, c.ecm.mmeUeS1apId)).mpr ⟨p, c, hc, placeKey_eq hid⟩

theorem Inv.consistent (h : Inv s) : Consistent s where
  idLive := fun id p hid => by
    obtain ⟨c, hc, -⟩ := h.idLive hid
    exact Option.isSome_of_mem hc
  imsiLive := fun imsi p himsi => by
    obtain ⟨c, hc, -⟩ := h.byImsi imsi p himsi
    exact Option.isSome_of_mem hc
  imsi := fun imsi p c himsi hc => by
    obtain ⟨c', hc', hkey⟩ := h.byImsi imsi p himsi
    obtain rfl : c = c' := Option.some.inj (hc.symm.trans hc')
    exact Option.some.inj hkey
  stored := fun id p c hpos hc => by
    constructor
    · intro hid
      obtain ⟨c', hc', heq, -⟩ := h.idLive hid
      obtain rfl : c = c' := Option.some.inj (hc.symm.trans hc')
      exact heq
    · rintro rfl
      exact h.stored hc (Nat.pos_iff_ne_zero.mp hpos)
  inSet := fun enbAssoc ueIds id hset hmem => by
    obtain ⟨p, c, hc, hkey⟩ := (h.places (enbAssoc, id)).mp ⟨ueIds, hset, hmem⟩
    unfold placeKey at hkey
    split_ifs at hkey with hid
    obtain ⟨rfl, rfl⟩ := Prod.mk.inj (Option.some.inj hkey)
    exact ⟨p, c, h.stored hc hid, hc, rfl⟩
  ofStored := fun id p c hid hc => by
    obtain ⟨c', hc', rfl, hne⟩ := h.idLive hid
    obtain rfl : c = c' := Option.some.inj (hc.symm.trans hc')
    exact h.inEnbSet hc hne

theorem inv_init (nextMTmsi : ℕ) : Inv (init nextMTmsi) where
  byId := fun _ _ => ⟨nofun, fun ⟨_, hc, _⟩ => absurd hc nofun⟩
  places := fun _ => ⟨fun ⟨_, hset, _⟩ => absurd hset nofun, fun ⟨_, _, hc, _⟩ => absurd hc nofun⟩
  byImsi := fun _ _ => nofun
  sctp := fun _ _ => nofun
  fresh := fun _ _ => rfl

variable {enbAssoc : ℕ} {ueIds : Finset ℕ}

theorem inEnbSet_insert (hset : s.enbAssocToUeIds enbAssoc = some ueIds) (place : ℕ × ℕ) :
    InEnbSet { s with enbAssocToUeIds :=
        Function.update s.enbAssocToUeIds enbAssoc (some (insert id ueIds)) } place ↔
      place = (enbAssoc, id) ∨ InEnbSet s place := by
  obtain ⟨a, k⟩ := place
  simp only [InEnbSet, Prod.mk.injEq]
  by_cases ha : a = enbAssoc
  · subst ha
    simp [hset]
  · simp [ha]

theorem inEnbSet_erase (hset : s.enbAssocToUeIds enbAssoc = some ueIds) (place : ℕ × ℕ) :
    InEnbSet { s with enbAssocToUeIds :=
        Function.update s.enbAssocToUeIds enbAssoc (some (ueIds.erase id)) } place ↔
      place ≠ (enbAssoc, id) ∧ InEnbSet s place := by
  obtain ⟨a, k⟩ := place
  simp only [InEnbSet, ne_eq, Prod.mk.injEq]
  by_cases ha : a = enbAssoc
  · subst ha
    simp [hset]
  · simp [ha]

theorem Inv.takeMmeUeS1apId (h : Inv s) : Inv s.takeMmeUeS1apId :=
  ⟨h.byId, h.places, h.byImsi, h.sctp, h.fresh⟩

theorem Inv.setNasCtx (h : Inv s) (hc : s.nasCtx p = some c)
    (hid : c'.ecm.mmeUeS1apId = c.ecm.mmeUeS1apId) (hassoc : c'.ecm.enbAssoc = c.ecm.enbAssoc)
    (himsi : c'.imsi = c.imsi ∨ ∀ imsi, s.imsiToNasCtx imsi ≠ some p) : Inv (s.setNasCtx p c') where
  byId := h.byId.set_keep hc (by unfold idKey; rw [hid])
  places := h.places.set_keep hc (by unfold placeKey; rw [hid, hassoc])
  byImsi := by
    rcases himsi with heq | habsent
    · exact h.byImsi.set_keep hc (congrArg some heq)
    · exact h.byImsi.set_absent habsent
  sctp := fun q d hd hne => by
    rcases update_cases hd with ⟨rfl, hcd⟩ | ⟨-, hq⟩
    · obtain rfl := Option.some.inj hcd
      exact hassoc ▸ h.sctp q c hc (hid ▸ hne)
    · exact h.sctp q d hq hne
  fresh := fun q hq => by
    have hqp : q ≠ p := fun heq => absurd ((heq ▸ h.fresh q hq).symm.trans hc) nofun
    exact (Function.update_of_ne hqp _ _).trans (h.fresh q hq)

/-- What a successful `release_ue_ecm_ctx` leaves. -/
def released (s : S1ap) (p : ℕ) (c : NasCtx) (ueIds : Finset ℕ) : S1ap :=
  { s.setNasCtx p { c with ecm := toIdle c.ecm } with
    enbAssocToUeIds :=
      Function.update s.enbAssocToUeIds c.ecm.enbAssoc (some (ueIds.erase c.ecm.mmeUeS1apId))
    mmeUeS1apIdToNasCtx := Function.update s.mmeUeS1apIdToNasCtx c.ecm.mmeUeS1apId none }

theorem Inv.releaseUeEcmCtx_eq (h : Inv s) (hc : s.nasCtx p = some c)
    (hid : c.ecm.mmeUeS1apId ≠ 0) :
    ∃ ueIds, s.enbAssocToUeIds c.ecm.enbAssoc = some ueIds ∧
      s.releaseUeEcmCtx c.ecm.mmeUeS1apId = released s p c ueIds := by
  obtain ⟨ueIds, hset, -⟩ := h.inEnbSet hc hid
  obtain ⟨enbId, hsctp⟩ := Option.isSome_iff_exists.mp (h.sctp p c hc hid)
  refine ⟨ueIds, hset, ?_⟩
  unfold releaseUeEcmCtx
  rw [h.stored hc hid]
  dsimp only
  rw [hc]
  dsimp only
  rw [hsctp, hset]
  rfl

theorem Inv.released (h : Inv s) (hc : s.nasCtx p = some c)
    (hid : c.ecm.mmeUeS1apId ≠ 0) (hset : s.enbAssocToUeIds c.ecm.enbAssoc = some ueIds) :
    Inv (released s p c ueIds) where
  byId := h.byId.leave hc (idKey_eq hid) fun t ht => by
    obtain rfl := Option.some.inj ht
    rfl
  places := by
    refine (h.places.leave ?_ hc (placeKey_eq hid) ?_).congr (inEnbSet_erase hset)
    · intro q q' d d' place hq hq' hd hd'
      have hsome : ∀ e : NasCtx, placeKey e = some place → idKey e = some place.2 := by
        intro e he
        unfold placeKey at he
        unfold idKey
        split_ifs at he ⊢
        exact Option.some.inj he ▸ rfl
      exact h.byId.injective q q' d d' place.2 hq hq' (hsome d hd) (hsome d' hd')
    · intro t ht
      obtain rfl := Option.some.inj ht
      rfl
  byImsi := h.byImsi.set_keep hc rfl
  sctp := fun q d hd hne => by
    rcases update_cases hd with ⟨-, hcd⟩ | ⟨-, hq⟩
    · obtain rfl := Option.some.inj hcd
      exact absurd rfl hne
    · exact h.sctp q d hq hne
  fresh := fun q hq => by
    have hqp : q ≠ p := fun heq => absurd ((heq ▸ h.fresh q hq).symm.trans hc) nofun
    exact (Function.update_of_ne hqp _ _).trans (h.fresh q hq)

structure Shrinks (s s' : S1ap) : Prop where
  sctp : s'.sctpToEnbId = s.sctpToEnbId
  sets : ∀ enbAssoc, (s.enbAssocToUeIds enbAssoc).isSome → (s'.enbAssocToUeIds enbAssoc).isSome
  ids : ∀ id, s.mmeUeS1apIdToNasCtx id = none → s'.mmeUeS1apIdToNasCtx id = none
  nextId : s'.nextMmeUeS1apId = s.nextMmeUeS1apId
  nextNas : s'.nextNasCtx = s.nextNasCtx

theorem Shrinks.refl (s : S1ap) : Shrinks s s := ⟨rfl, fun _ => id, fun _ => id, rfl, rfl⟩

theorem Shrinks.setUp {s' : S1ap} (h : Shrinks s s') (hset : SetUp s enbAssoc) :
    SetUp s' enbAssoc := ⟨h.sctp ▸ hset.1, h.sets enbAssoc hset.2⟩

theorem shrinks_released : Shrinks s (released s p c ueIds) where
  sctp := rfl
  sets := fun enbAssoc hset => by
    by_cases ha : enbAssoc = c.ecm.enbAssoc
    · simp [released, ha]
    · simpa [released, ha] using hset
  ids := fun id hid => by
    by_cases hk : id = c.ecm.mmeUeS1apId
    · simp [released, hk]
    · simpa [released, hk] using hid
  nextId := rfl
  nextNas := rfl

def idleCtx (c : NasCtx) : NasCtx :=
  if c.ecm.mmeUeS1apId ≠ 0 then { c with ecm := toIdle c.ecm } else c

theorem idleCtx_id (c : NasCtx) : (idleCtx c).ecm.mmeUeS1apId = 0 := by
  unfold idleCtx
  split_ifs with hid
  · rfl
  · exact not_not.mp hid

theorem idleCtx_imsi (c : NasCtx) : (idleCtx c).imsi = c.imsi := by
  unfold idleCtx
  split_ifs <;> rfl

theorem Inv.release (h : Inv s) (hc : s.nasCtx p = some c) :
    let s' := if c.ecm.mmeUeS1apId ≠ 0 then s.releaseUeEcmCtx c.ecm.mmeUeS1apId else s
    Inv s' ∧ Shrinks s s' ∧ s'.nasCtx = Function.update s.nasCtx p (some (idleCtx c)) ∧
      s'.imsiToNasCtx = s.imsiToNasCtx := by
  unfold idleCtx
  split_ifs with hid
  · obtain ⟨ueIds, hset, heq⟩ := h.releaseUeEcmCtx_eq hc hid
    dsimp only
    rw [heq]
    exact ⟨h.released hc hid hset, shrinks_released, rfl, rfl⟩
  · exact ⟨h, Shrinks.refl s, (Function.update_eq_self_iff.mpr hc.symm).symm, rfl⟩

theorem Inv.deleteUeCtx (h : Inv s) (imsi : ℕ) :
    Inv (s.deleteUeCtx imsi) ∧ Shrinks s (s.deleteUeCtx imsi) ∧
      ∀ p, s.imsiToNasCtx imsi ≠ some p → (s.deleteUeCtx imsi).nasCtx p = s.nasCtx p := by
  unfold S1ap.deleteUeCtx
  cases himsi : s.imsiToNasCtx imsi with
  | none => exact ⟨h, Shrinks.refl s, fun _ _ => rfl⟩
  | some q =>
    obtain ⟨c, hc, hkey⟩ := h.byImsi imsi q himsi
    obtain rfl : c.imsi = imsi := Option.some.inj hkey
    dsimp only
    rw [hc]
    dsimp only
    obtain ⟨hinv, hshrinks, hnas, himsis⟩ := h.release hc
    generalize (if c.ecm.mmeUeS1apId ≠ 0 then s.releaseUeEcmCtx c.ecm.mmeUeS1apId else s) = s₁
      at hinv hshrinks hnas himsis ⊢
    have hq : s₁.nasCtx q = some (idleCtx c) := by rw [hnas, Function.update_self]
    have hunkeyed : ∀ t, s₁.nasCtx q = some t → t.ecm.mmeUeS1apId = 0 := by
      intro t ht
      obtain rfl := Option.some.inj (hq.symm.trans ht)
      exact idleCtx_id c
    refine ⟨⟨?_, ?_, ?_, ?_, ?_⟩, ⟨?_, ?_, ?_, ?_, ?_⟩, ?_⟩
    · exact hinv.byId.set_unkeyed (fun t ht => idKey_eq_none (hunkeyed t ht)) nofun
    · exact hinv.places.set_unkeyed (fun t ht => placeKey_eq_none (hunkeyed t ht)) nofun
    · exact hinv.byImsi.remove hq (congrArg some (idleCtx_imsi c))
    · intro r d hd hne
      rcases update_cases hd with ⟨-, hnone⟩ | ⟨-, hd'⟩
      · exact absurd hnone nofun
      · exact hinv.sctp r d hd' hne
    · intro r hr
      by_cases hrq : r = q
      · exact hrq ▸ Function.update_self _ _ _
      · exact (Function.update_of_ne hrq _ _).trans (hinv.fresh r hr)
    · exact hshrinks.sctp
    · exact hshrinks.sets
    · exact hshrinks.ids
    · exact hshrinks.nextId
    · exact hshrinks.nextNas
    · intro r hr
      have hrq : r ≠ q := fun heq => hr (heq ▸ rfl)
      refine (Function.update_of_ne hrq _ _).trans ?_
      rw [hnas, Function.update_of_ne hrq]

theorem Inv.addNasCtxToImsiMap (h : Inv s) (hc : s.nasCtx p = some c) :
    Inv (s.addNasCtxToImsiMap p c) := by
  unfold S1ap.addNasCtxToImsiMap
  split_ifs
  · exact h
  · exact h
  · exact ⟨h.byId, h.places, h.byImsi.insert hc rfl, h.sctp, h.fresh⟩

def FreshId (s : S1ap) (id : ℕ) : Prop := id ≠ 0 ∧ s.mmeUeS1apIdToNasCtx id = none

theorem add_eq (hid : FreshId s c.ecm.mmeUeS1apId)
    (hset : s.enbAssocToUeIds c.ecm.enbAssoc = some ueIds) :
    (s.addNasCtxToMmeUeS1apIdMap p c).addUeToEnbSet c.ecm.enbAssoc c.ecm.mmeUeS1apId =
      { s with
        enbAssocToUeIds := Function.update s.enbAssocToUeIds c.ecm.enbAssoc
          (some (insert c.ecm.mmeUeS1apId ueIds))
        mmeUeS1apIdToNasCtx :=
          Function.update s.mmeUeS1apIdToNasCtx c.ecm.mmeUeS1apId (some p) } := by
  unfold addNasCtxToMmeUeS1apIdMap
  rw [if_neg hid.1, hid.2]
  dsimp only [Option.isSome_none]
  rw [if_neg Bool.false_ne_true]
  unfold addUeToEnbSet
  dsimp only
  rw [hset]

theorem Inv.storeEcmCtx (h : Inv s) (hp : ∀ t, s.nasCtx p = some t → t.ecm.mmeUeS1apId = 0)
    (himsi : Sound (Function.update s.nasCtx p (some c)) imsiKey s.imsiToNasCtx)
    (hid : FreshId s c.ecm.mmeUeS1apId) (hset : SetUp s c.ecm.enbAssoc) (hlt : p < s.nextNasCtx) :
    Inv (s.storeEcmCtx p c) := by
  obtain ⟨ueIds, hueIds⟩ := Option.isSome_iff_exists.mp hset.2
  unfold S1ap.storeEcmCtx
  rw [add_eq (s := s.setNasCtx p c) hid hueIds]
  refine ⟨?_, ?_, himsi, ?_, ?_⟩
  · exact h.byId.enter (fun t ht => idKey_eq_none (hp t ht)) (idKey_eq hid.1) hid.2
  · exact (h.places.enter (fun t ht => placeKey_eq_none (hp t ht)) (placeKey_eq hid.1)).congr
      (inEnbSet_insert hueIds)
  · intro q d hd hne
    rcases update_cases hd with ⟨-, hcd⟩ | ⟨-, hd'⟩
    · obtain rfl := Option.some.inj hcd
      exact hset.1
    · exact h.sctp q d hd' hne
  · intro q hq
    have hqp : q ≠ p := fun heq => absurd (heq ▸ hq) (Nat.not_le.mpr hlt)
    exact (Function.update_of_ne hqp _ _).trans (h.fresh q hq)

theorem Inv.lt_nextNasCtx (h : Inv s) (hc : s.nasCtx p = some c) : p < s.nextNasCtx :=
  Nat.lt_of_not_le fun hle => absurd ((h.fresh p hle).symm.trans hc) nofun

variable {m : InitialUeMessage} {attachReq : AttachRequest}

theorem Inv.storeNew (h : Inv s) (hid : FreshId s c.ecm.mmeUeS1apId)
    (hset : SetUp s c.ecm.enbAssoc) :
    Inv ({ s with nextNasCtx := s.nextNasCtx + 1 }.storeEcmCtx s.nextNasCtx c) := by
  have hnone : s.nasCtx s.nextNasCtx = none := h.fresh _ (Nat.le_refl _)
  have hinv : Inv { s with nextNasCtx := s.nextNasCtx + 1 } :=
    ⟨h.byId, h.places, h.byImsi, h.sctp, fun q hq => h.fresh q (Nat.le_of_succ_le hq)⟩
  refine hinv.storeEcmCtx (fun t ht => absurd (hnone.symm.trans ht) nofun) ?_ hid hset
    (Nat.lt_succ_self _)
  refine h.byImsi.set_absent fun imsi himsi => ?_
  obtain ⟨t, ht, -⟩ := h.byImsi imsi _ himsi
  exact absurd (hnone.symm.trans ht) nofun

theorem addNasCtxToImsiMap_eq (s : S1ap) (p : ℕ) (c : NasCtx) :
    ∃ imsis, s.addNasCtxToImsiMap p c = { s with imsiToNasCtx := imsis } ∧
      (imsis = s.imsiToNasCtx ∨ imsis = Function.update s.imsiToNasCtx c.imsi (some p)) := by
  unfold addNasCtxToImsiMap
  split_ifs
  · exact ⟨_, rfl, Or.inl rfl⟩
  · exact ⟨_, rfl, Or.inl rfl⟩
  · exact ⟨_, rfl, Or.inr rfl⟩

theorem storeEcmCtx_frame (s : S1ap) (p : ℕ) (c : NasCtx) :
    (s.storeEcmCtx p c).nasCtx = Function.update s.nasCtx p (some c) ∧
      (s.storeEcmCtx p c).imsiToNasCtx = s.imsiToNasCtx := by
  unfold storeEcmCtx addNasCtxToMmeUeS1apIdMap
  split_ifs <;>
    · unfold addUeToEnbSet
      split <;> exact ⟨rfl, rfl⟩

theorem storeEcmCtx_withImsis (imsis : ℕ → Option ℕ) :
    ({ s.setNasCtx p c with imsiToNasCtx := imsis }.addNasCtxToMmeUeS1apIdMap p c).addUeToEnbSet
        c.ecm.enbAssoc c.ecm.mmeUeS1apId =
      { s.storeEcmCtx p c with imsiToNasCtx := imsis } := by
  unfold storeEcmCtx addNasCtxToMmeUeS1apIdMap
  dsimp only
  split_ifs <;>
    · unfold addUeToEnbSet
      dsimp only
      cases (s.setNasCtx p c).enbAssocToUeIds c.ecm.enbAssoc <;> rfl

theorem Inv.addImsiFirst (h : Inv (s.storeEcmCtx p c)) :
    Inv ((((s.setNasCtx p c).addNasCtxToImsiMap p c).addNasCtxToMmeUeS1apIdMap p c).addUeToEnbSet
      c.ecm.enbAssoc c.ecm.mmeUeS1apId) := by
  obtain ⟨imsis, heq, himsis⟩ := addNasCtxToImsiMap_eq (s.setNasCtx p c) p c
  obtain ⟨hnas, himsi⟩ := storeEcmCtx_frame s p c
  rw [heq, storeEcmCtx_withImsis]
  refine ⟨h.byId, h.places, ?_, h.sctp, h.fresh⟩
  have hbyImsi := h.byImsi
  dsimp only
  rw [hnas] at hbyImsi ⊢
  rw [himsi] at hbyImsi
  rcases himsis with rfl | rfl
  · exact hbyImsi
  · exact hbyImsi.insert (Function.update_self _ _ _) rfl

section

variable (h : Inv s) (hord : m.authInfo ≠ none → SetUp s m.enbAssoc ∧ FreshId s s.nextMmeUeS1apId)
include h hord

theorem Inv.handleImsiAttachRequestUnknownUe :
    Inv (s.handleImsiAttachRequestUnknownUe m attachReq) := by
  unfold S1ap.handleImsiAttachRequestUnknownUe
  cases hauth : m.authInfo with
  | none => exact h.takeMmeUeS1apId
  | some v =>
    obtain ⟨hset, hid⟩ := hord (hauth ▸ nofun)
    exact (h.takeMmeUeS1apId.storeNew (c := NasCtx.new (imsiOfDigits attachReq.imsi)
      (ecmOf m s.nextMmeUeS1apId attachReq.esmInfoTransferFlagPresent) v) hid hset).addImsiFirst

theorem Inv.handleImsiAttachRequestKnownUe :
    Inv (s.handleImsiAttachRequestKnownUe m c attachReq) := by
  obtain ⟨hinv, hshrinks, -⟩ := h.deleteUeCtx c.imsi
  refine hinv.handleImsiAttachRequestUnknownUe fun hauth => ?_
  obtain ⟨hset, hid⟩ := hord hauth
  rw [hshrinks.nextId]
  exact ⟨hshrinks.setUp hset, hid.1, hshrinks.ids _ hid.2⟩

end

theorem Inv.handleGutiAttachRequestUnknownUe (h : Inv s) (hset : SetUp s m.enbAssoc)
    (hid : FreshId s s.nextMmeUeS1apId) :
    Inv (s.handleGutiAttachRequestUnknownUe m attachReq) :=
  h.takeMmeUeS1apId.storeNew (c := NasCtx.new 0
    (ecmOf m s.nextMmeUeS1apId attachReq.esmInfoTransferFlagPresent) NasCtx.noVector) hid hset

/-- What the attach of a known GUTI needs: a fresh identifier, and that no identifier is lost. -/
def GutiOrderly (P : NasEnv) (s : S1ap) (m : InitialUeMessage) (c : NasCtx) : Prop :=
  SetUp s m.enbAssoc ∧
    if resumes P m c then c.ecm.mmeUeS1apId = 0 ∧ FreshId s s.nextMmeUeS1apId
    else FreshId s s.takeMmeUeS1apId.nextMmeUeS1apId

theorem Inv.handleGutiAttachRequestKnownUe {P : NasEnv} (h : Inv s) (hc : s.nasCtx p = some c)
    (hord : GutiOrderly P s m c) :
    Inv (s.handleGutiAttachRequestKnownUe P m p c attachReq) := by
  obtain ⟨hset, hid⟩ := hord
  unfold S1ap.handleGutiAttachRequestKnownUe
  by_cases hres : resumes P m c = true
  · rw [if_pos hres] at hid ⊢
    refine h.takeMmeUeS1apId.storeEcmCtx ?_ (h.byImsi.set_keep hc rfl) hid.2 hset
      (h.lt_nextNasCtx hc)
    intro t ht
    obtain rfl := Option.some.inj (hc.symm.trans ht)
    exact hid.1
  · rw [if_neg hres] at hid ⊢
    dsimp only
    obtain ⟨hinv, hshrinks, hnas, himsis⟩ := h.takeMmeUeS1apId.release hc
    generalize (if c.ecm.mmeUeS1apId ≠ 0 then
      s.takeMmeUeS1apId.releaseUeEcmCtx c.ecm.mmeUeS1apId else s.takeMmeUeS1apId) = s₁
      at hinv hshrinks hnas himsis ⊢
    have hp : s₁.nasCtx p = some (idleCtx c) := by rw [hnas, Function.update_self]
    rw [hp, Option.getD_some]
    have hnext : s₁.nextMmeUeS1apId = s.takeMmeUeS1apId.nextMmeUeS1apId := hshrinks.nextId
    have hstore : ∀ c' : NasCtx, c'.imsi = (idleCtx c).imsi →
        c'.ecm.mmeUeS1apId = s₁.nextMmeUeS1apId → c'.ecm.enbAssoc = m.enbAssoc →
        Inv (s₁.takeMmeUeS1apId.storeEcmCtx p c') := by
      intro c' himsi hid' hassoc
      refine hinv.takeMmeUeS1apId.storeEcmCtx ?_ ?_ ?_ ?_ (hinv.lt_nextNasCtx hp)
      · intro t ht
        obtain rfl := Option.some.inj (hp.symm.trans ht)
        exact idleCtx_id c
      · exact hinv.byImsi.set_keep hp (congrArg some himsi)
      · rw [hid', hnext]
        exact ⟨hid.1, hshrinks.ids _ hid.2⟩
      · rw [hassoc]
        exact hshrinks.setUp hset
    cases m.authInfo <;> exact hstore _ rfl rfl rfl

/-- What an attach request needs: the association has completed its setup, and the identifiers that
are taken are fresh. -/
def AttachOrderly (P : NasEnv) (s : S1ap) (m : InitialUeMessage) (attachReq : AttachRequest) :
    Prop :=
  match attachReq.typeOfId with
  | .imsi => m.authInfo ≠ none → SetUp s m.enbAssoc ∧ FreshId s s.nextMmeUeS1apId
  | .guti =>
    match s.imsiToNasCtx (s.findImsiFromMTmsi attachReq.mTmsi) with
    | none => SetUp s m.enbAssoc ∧ FreshId s s.nextMmeUeS1apId
    | some p => ∀ c, s.nasCtx p = some c → GutiOrderly P s m c
  | .other => True

theorem Inv.handleAttachRequest {P : NasEnv} (h : Inv s)
    (hord : ∀ attachReq, P.unpackAttachRequest m.msg = some attachReq →
      AttachOrderly P s m attachReq) : Inv (s.handleAttachRequest P m) := by
  unfold S1ap.handleAttachRequest
  cases hreq : P.unpackAttachRequest m.msg with
  | none => exact h
  | some attachReq =>
    have hord := hord attachReq hreq
    unfold AttachOrderly at hord
    dsimp only
    cases htype : attachReq.typeOfId with
    | other => exact h
    | imsi =>
      rw [htype] at hord
      dsimp only at hord ⊢
      cases s.imsiToNasCtx (imsiOfDigits attachReq.imsi) with
      | none => exact h.handleImsiAttachRequestUnknownUe hord
      | some p =>
        dsimp only
        cases s.nasCtx p with
        | none => exact h
        | some c => exact h.handleImsiAttachRequestKnownUe hord
    | guti =>
      rw [htype] at hord
      dsimp only at hord ⊢
      cases hfound : s.imsiToNasCtx (s.findImsiFromMTmsi attachReq.mTmsi) with
      | none =>
        rw [hfound] at hord
        exact h.handleGutiAttachRequestUnknownUe hord.1 hord.2
      | some p =>
        rw [hfound] at hord
        dsimp only
        cases hc : s.nasCtx p with
        | none => exact h
        | some c => exact h.handleGutiAttachRequestKnownUe hc (hord c hc)

end SrsLte.S1ap
