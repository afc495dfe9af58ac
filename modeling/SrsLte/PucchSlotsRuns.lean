import Mathlib.Algebra.Order.BigOperators.Group.List
import Mathlib.Data.List.Nodup
import Mathlib.Tactic.Linarith
import SrsLte.EventRun
import SrsLte.PucchSlots

/-!
# PUCCH resources over runs

The count of a slot is the index of its next user, so that indices stay apart as long as they are
given back in the reverse order. The test of the count lets one user too many into a PRB.
-/

namespace SrsLte

open Function (update update_self update_of_ne update_apply)

namespace Pucch

inductive SlotEvent
  | allocate (rnti : ℕ)
  | free (rnti : ℕ)

/-- The table, and what each UE was given last and has not given back since: the offset of its
subframe and its index. -/
structure SlotRun where
  table : SlotTable
  holds : ℕ → Option (ℕ × ℕ)

variable (P : SlotParams) (perPrb : ℕ)

def SlotParams.rank (s : ℕ × ℕ) : ℕ := @List.idxOf _ instBEqOfDecidableEq s P.slots

def SlotTable.resource (t : SlotTable) (rnti : ℕ) : ℕ × ℕ :=
  (P.offset (t.ues rnti).slot, (t.ues rnti).nPucch)

namespace SlotRun

def init : SlotRun := ⟨.init, fun _ => none⟩

def step (r : SlotRun) : SlotEvent → SlotRun
  | .allocate rnti =>
    match allocate P r.table rnti with
    | none => r
    | some t => ⟨t, update r.holds rnti (some (t.resource P rnti))⟩
  | .free rnti => ⟨free r.table rnti, update r.holds rnti none⟩

/-- Resources are not shared, and are in the region of `nof_prb` PRBs with `perPrb` indices each,
behind the `ncs_an` shifts. -/
structure Sound (r : SlotRun) : Prop where
  unique : ∀ rnti rnti' res, r.holds rnti = some res → r.holds rnti' = some res → rnti = rnti'
  region : ∀ rnti res, r.holds rnti = some res →
    P.ncsAn ≤ res.2 ∧ res.2 < P.ncsAn + P.nofPrb * perPrb

def Reassignable (r : SlotRun) (res : ℕ × ℕ) : Prop :=
  ∃ rntis : List ℕ, rntis.Nodup ∧ (∀ rnti ∈ rntis, r.holds rnti = none) ∧
    ∃ rnti ∈ rntis, ((rntis.map .allocate).foldl (step P) r).holds rnti = some res

def Good (r : SlotRun) (e : SlotEvent) : Prop :=
  (r.step P e).Sound P perPrb ∧
    match e with
    | .allocate rnti => allocate P r.table rnti = none → (r.step P e).table = r.table
    | .free rnti => ∀ res, r.holds rnti = some res → (r.step P e).Reassignable P res

/-- The condition on an event: a slot that is given out is one of the configured ones, with room
for the user and an index in the region; and a UE gives back what it was given last, which has the
last index of its slot. -/
def Fits (r : SlotRun) : SlotEvent → Prop
  | .allocate _ =>
    P.Usable (r.table.next P) → r.table.nofUsers (r.table.next P) ≤ P.maxUsers →
      r.table.next P ∈ P.slots ∧ r.table.nofUsers (r.table.next P) < P.maxUsers ∧
        (r.table.next P).1 * P.maxUsers + r.table.nofUsers (r.table.next P) < P.nofPrb * perPrb
  | .free rnti =>
    (r.table.ues rnti).allocated →
      r.holds rnti ≠ none ∧
        (r.table.ues rnti).nPucch + 1 = r.table.nextIdx P (r.table.ues rnti).slot

structure Kept (r : SlotRun) : Prop where
  le : ∀ s, r.table.nofUsers s ≤ P.maxUsers
  used : ∀ s, 0 < r.table.nofUsers s → s ∈ P.slots ∧ P.Usable s
  earlier : ∀ s, 0 < r.table.nofUsers s → ∀ s' ∈ P.slots,
    P.rank s' < P.rank s → P.Usable s'
  all : ∀ s, 1 < r.table.nofUsers s → ∀ s' ∈ P.slots, P.Usable s'
  holds : ∀ rnti res, r.holds rnti = some res →
    res = r.table.resource P rnti ∧ (r.table.ues rnti).allocated ∧
      (r.table.ues rnti).slot ∈ P.slots ∧ ∃ k < r.table.nofUsers (r.table.ues rnti).slot,
        (r.table.ues rnti).nPucch = (r.table.ues rnti).slot.1 * P.maxUsers + k + P.ncsAn ∧
          (r.table.ues rnti).slot.1 * P.maxUsers + k < P.nofPrb * perPrb
  config : ∀ rnti, r.holds rnti ≠ none →
    P.configIdx P.period (P.offset (r.table.ues rnti).slot) = some (r.table.ues rnti).configIdx
  apart : ∀ rnti rnti', r.holds rnti ≠ none → r.holds rnti' ≠ none →
    (r.table.ues rnti).slot = (r.table.ues rnti').slot →
      (r.table.ues rnti).nPucch = (r.table.ues rnti').nPucch → rnti = rnti'
  finite : ∃ b, ∀ rnti, b ≤ rnti → r.holds rnti = none

end SlotRun

section Allocation

variable {P} {t t' : SlotTable} {rnti : ℕ}

theorem allocate_eq_some_iff : allocate P t rnti = some t' ↔
    t.nofUsers (t.next P) ≤ P.maxUsers ∧
      ∃ configIdx, P.configIdx P.period (P.offset (t.next P)) = some configIdx ∧
        t' =
          { nofUsers := update t.nofUsers (t.next P) (t.nofUsers (t.next P) + 1)
            ues := update t.ues rnti
              ⟨true, t.next P, configIdx, t.nextIdx P (t.next P)⟩ } := by
  unfold allocate
  dsimp only
  split_ifs with hfull
  · exact iff_of_false (by simp) fun h => Nat.not_le.mpr hfull h.1
  · rw [and_iff_right (Nat.not_lt.mp hfull)]
    cases P.configIdx P.period (P.offset (t.next P)) with
    | none => simp
    | some configIdx => simp [eq_comm]

theorem exists_allocate (hle : t.nofUsers (t.next P) ≤ P.maxUsers) (h : P.Usable (t.next P))
    (rnti : ℕ) : ∃ t', allocate P t rnti = some t' := by
  obtain ⟨configIdx, hidx⟩ := Option.isSome_iff_exists.mp h
  exact ⟨_, allocate_eq_some_iff.mpr ⟨hle, configIdx, hidx, rfl⟩⟩

theorem next_spec (hle : ∀ s, t.nofUsers s ≤ P.maxUsers) (hne : P.slots ≠ []) :
    t.next P ∈ P.slots ∧ (∀ s ∈ P.slots, t.nofUsers (t.next P) ≤ t.nofUsers s) ∧
      ∀ s ∈ P.slots, t.nofUsers s ≤ t.nofUsers (t.next P) →
        P.rank (t.next P) ≤ P.rank s := by
  have hlt : ∀ s, t.nofUsers s < 2 ^ 32 - 1 := fun s =>
    ((hle s).trans P.maxUsers_le).trans_lt (by decide)
  cases hmin : P.slots.argmin t.nofUsers with
  | none => exact absurd (List.argmin_eq_none.mp hmin) hne
  | some s =>
    have hnext : t.next P = s := by
      unfold SlotTable.next
      rw [leastUsed_eq hlt, hmin]
    rw [hnext]
    exact List.mem_argmin_iff.mp hmin

end Allocation

section Indices

variable {P} {perPrb} {r : SlotRun}

theorem slot_snd_lt {s : ℕ × ℕ} (h : s ∈ P.slots) : s.1 < P.nofPrb ∧ s.2 < P.sfMapping.length := by
  unfold SlotParams.slots at h
  simp only [List.product, List.mem_flatMap, List.mem_map, List.mem_range] at h
  obtain ⟨i, hi, j, hj, rfl⟩ := h
  exact ⟨hi, hj⟩

theorem slot_eq_of_offset {s s' : ℕ × ℕ} (hs : s ∈ P.slots) (hs' : s' ∈ P.slots)
    (hoffset : P.offset s = P.offset s') {k k' : ℕ} (hk : k < P.maxUsers) (hk' : k' < P.maxUsers)
    (hidx : s.1 * P.maxUsers + k = s'.1 * P.maxUsers + k') : s = s' := by
  have hprb : s.1 = s'.1 := by
    have hdiv : (s.1 * P.maxUsers + k) / P.maxUsers = (s'.1 * P.maxUsers + k') / P.maxUsers := by
      rw [hidx]
    rwa [Nat.mul_comm, Nat.mul_add_div (by omega), Nat.mul_comm, Nat.mul_add_div (by omega),
      Nat.div_eq_of_lt hk, Nat.div_eq_of_lt hk', Nat.add_zero, Nat.add_zero] at hdiv
  have hsf : s.2 = s'.2 := by
    obtain ⟨-, hlt⟩ := slot_snd_lt hs
    obtain ⟨-, hlt'⟩ := slot_snd_lt hs'
    unfold SlotParams.offset at hoffset
    rw [List.getD_eq_getElem?_getD, List.getD_eq_getElem?_getD, List.getElem?_eq_getElem hlt,
      List.getElem?_eq_getElem hlt', Option.getD_some, Option.getD_some] at hoffset
    exact (List.Nodup.getElem_inj_iff P.distinct).mp hoffset
  exact Prod.ext hprb hsf

theorem SlotRun.Kept.sound (hr : r.Kept P perPrb) : r.Sound P perPrb := by
  constructor
  · intro rnti rnti' res h h'
    obtain ⟨hres, -, hslot, k, hk, hidx, -⟩ := hr.holds rnti res h
    obtain ⟨hres', -, hslot', k', hk', hidx', -⟩ := hr.holds rnti' res h'
    have hsame : r.table.resource P rnti = r.table.resource P rnti' := hres.symm.trans hres'
    obtain ⟨hoffset, hn⟩ := Prod.mk.inj hsame
    have heq : (r.table.ues rnti).slot = (r.table.ues rnti').slot :=
      slot_eq_of_offset hslot hslot' hoffset (hk.trans_le (hr.le _)) (hk'.trans_le (hr.le _))
        (by omega)
    exact hr.apart rnti rnti' (by rw [h]; simp) (by rw [h']; simp) heq hn
  · intro rnti res h
    obtain ⟨hres, -, -, k, -, hidx, hregion⟩ := hr.holds rnti res h
    rw [hres, SlotTable.resource]
    dsimp only
    omega

end Indices

section Step

variable {P} {perPrb} {r : SlotRun}

theorem SlotRun.Kept.init : SlotRun.init.Kept P perPrb where
  le _ := Nat.zero_le _
  used _ h := absurd h (lt_irrefl 0)
  earlier _ h := absurd h (lt_irrefl 0)
  all _ h := absurd h (Nat.not_lt_zero 1)
  holds _ _ h := by simp [SlotRun.init] at h
  config _ h := absurd rfl h
  apart _ _ h := absurd rfl h
  finite := ⟨0, fun _ _ => rfl⟩

theorem SlotRun.Kept.usable_of_rank_lt (hr : r.Kept P perPrb) {s : ℕ × ℕ} (hs : s ∈ P.slots)
    (hrank : P.rank s < P.rank (r.table.next P)) : P.Usable s := by
  obtain ⟨-, -, hfirst⟩ := next_spec hr.le (List.ne_nil_of_mem hs)
  have hlt : r.table.nofUsers (r.table.next P) < r.table.nofUsers s := by
    by_contra hle
    exact absurd (hfirst s hs (Nat.not_lt.mp hle)) (Nat.not_le.mpr hrank)
  exact (hr.used s (Nat.zero_lt_of_lt hlt)).2

theorem SlotRun.Kept.allocate {t : SlotTable} {rnti : ℕ} (hr : r.Kept P perPrb)
    (hfits : r.Fits P perPrb (.allocate rnti)) (ht : allocate P r.table rnti = some t) :
    SlotRun.Kept P perPrb ⟨t, update r.holds rnti (some (t.resource P rnti))⟩ := by
  obtain ⟨hle, configIdx, hidx, rfl⟩ := allocate_eq_some_iff.mp ht
  have husable : P.Usable (r.table.next P) := Option.isSome_iff_exists.mpr ⟨_, hidx⟩
  obtain ⟨hmem, hroom, hregion⟩ := hfits husable hle
  generalize hs : r.table.next P = s at *
  constructor
  · intro s'
    dsimp only
    by_cases h : s' = s
    · rw [h, update_self]
      exact hroom
    · rw [update_of_ne h]
      exact hr.le s'
  · intro s' hpos
    by_cases h : s' = s
    · rw [h]
      exact ⟨hmem, husable⟩
    · dsimp only at hpos
      rw [update_of_ne h] at hpos
      exact hr.used s' hpos
  · intro s' hpos s'' hs'' hrank
    by_cases h : s' = s
    · rw [h, ← hs] at hrank
      exact hr.usable_of_rank_lt hs'' hrank
    · dsimp only at hpos
      rw [update_of_ne h] at hpos
      exact hr.earlier s' hpos s'' hs'' hrank
  · intro s' hpos s'' hs''
    dsimp only at hpos
    by_cases h : s' = s
    · -- the least count is positive
      rw [h, update_self] at hpos
      obtain ⟨-, hmin, -⟩ := next_spec hr.le (List.ne_nil_of_mem hmem)
      have hcount := hmin s'' hs''
      rw [hs] at hcount
      exact (hr.used s'' (by omega)).2
    · rw [update_of_ne h] at hpos
      exact hr.all s' hpos s'' hs''
  · intro rnti' res hres
    dsimp only at hres ⊢
    by_cases h : rnti' = rnti
    · rw [h, update_self] at hres
      rw [h]
      refine ⟨(Option.some.inj hres).symm, ?_⟩
      rw [update_self]
      refine ⟨rfl, hmem, r.table.nofUsers s, ?_, rfl, hregion⟩
      simp
    · rw [update_of_ne h] at hres
      obtain ⟨hresource, halloc, hslot, k, hk, hindex⟩ := hr.holds rnti' res hres
      simp only [SlotTable.resource, update_of_ne h]
      refine ⟨hresource, halloc, hslot, k, ?_, hindex⟩
      rw [update_apply]
      split_ifs with heq
      · rw [heq] at hk
        exact hk.trans (Nat.lt_succ_self _)
      · exact hk
  · intro rnti' h
    dsimp only at h ⊢
    by_cases heq : rnti' = rnti
    · rw [heq, update_self]
      exact hidx
    · rw [update_of_ne heq] at h ⊢
      exact hr.config rnti' h
  · -- the new index is above those of the slot
    have hnew : ∀ rnti', r.holds rnti' ≠ none → (r.table.ues rnti').slot = s →
        (r.table.ues rnti').nPucch ≠ r.table.nextIdx P s := by
      intro rnti' hholds hslot heq
      obtain ⟨res, hres⟩ := Option.ne_none_iff_exists'.mp hholds
      obtain ⟨-, -, -, k, hk, hindex, -⟩ := hr.holds rnti' res hres
      rw [hslot] at hk hindex
      rw [heq, SlotTable.nextIdx] at hindex
      omega
    intro rnti₁ rnti₂ h₁ h₂ hslot hn
    dsimp only at h₁ h₂ hslot hn
    by_cases heq₁ : rnti₁ = rnti <;> by_cases heq₂ : rnti₂ = rnti
    · rw [heq₁, heq₂]
    · rw [heq₁, update_self, update_of_ne heq₂] at hslot hn
      rw [update_of_ne heq₂] at h₂
      exact absurd hn.symm (hnew rnti₂ h₂ hslot.symm)
    · rw [heq₂, update_self, update_of_ne heq₁] at hslot hn
      rw [update_of_ne heq₁] at h₁
      exact absurd hn (hnew rnti₁ h₁ hslot)
    · rw [update_of_ne heq₁, update_of_ne heq₂] at hslot hn
      rw [update_of_ne heq₁] at h₁
      rw [update_of_ne heq₂] at h₂
      exact hr.apart rnti₁ rnti₂ h₁ h₂ hslot hn
  · obtain ⟨b, hb⟩ := hr.finite
    refine ⟨max b (rnti + 1), fun rnti' h => ?_⟩
    dsimp only
    rw [update_of_ne (by omega)]
    exact hb rnti' (by omega)

theorem SlotRun.Kept.free {rnti : ℕ} (hr : r.Kept P perPrb)
    (hfits : r.Fits P perPrb (.free rnti)) :
    SlotRun.Kept P perPrb ⟨free r.table rnti, update r.holds rnti none⟩ := by
  have hother : ∀ rnti', update r.holds rnti none rnti' ≠ none →
      rnti' ≠ rnti ∧ r.holds rnti' ≠ none := by
    intro rnti' h
    by_cases heq : rnti' = rnti
    · rw [heq, update_self] at h
      exact absurd rfl h
    · rw [update_of_ne heq] at h
      exact ⟨heq, h⟩
  have hues : (Pucch.free r.table rnti).ues = r.table.ues := by
    unfold Pucch.free
    dsimp only
    split_ifs <;> rfl
  have hcount : ∀ s, (Pucch.free r.table rnti).nofUsers s ≤ r.table.nofUsers s := by
    intro s
    unfold Pucch.free
    dsimp only
    split_ifs
    · dsimp only
      rw [update_apply]
      split_ifs with heq
      · rw [heq]
        exact Nat.sub_le _ _
      · exact le_rfl
    · exact le_rfl
    · exact le_rfl
  constructor
  · exact fun s => (hcount s).trans (hr.le s)
  · exact fun s hpos => hr.used s (hpos.trans_le (hcount s))
  · exact fun s hpos => hr.earlier s (hpos.trans_le (hcount s))
  · exact fun s hpos => hr.all s (hpos.trans_le (hcount s))
  · intro rnti' res hres
    obtain ⟨hne, -⟩ := hother rnti' (by dsimp only at hres; rw [hres]; simp)
    dsimp only at hres
    rw [update_of_ne hne] at hres
    obtain ⟨hresource, halloc, hslot, k, hk, hindex⟩ := hr.holds rnti' res hres
    dsimp only [SlotTable.resource]
    rw [hues]
    refine ⟨hresource, halloc, hslot, k, ?_, hindex⟩
    unfold Pucch.free
    dsimp only
    split_ifs with hallocated hpos
    · dsimp only
      rw [update_apply]
      split_ifs with hsame
      · -- the index that is given back is the last one
        obtain ⟨hholds, hlast⟩ := hfits hallocated
        have hdiff : (r.table.ues rnti').nPucch ≠ (r.table.ues rnti).nPucch := fun heq =>
          hne (hr.apart rnti' rnti (by rw [hres]; simp) hholds hsame heq)
        rw [hsame] at hk hindex
        rw [SlotTable.nextIdx] at hlast
        omega
      · exact hk
    · exact hk
    · exact hk
  · intro rnti' h
    dsimp only
    rw [hues]
    exact hr.config rnti' (hother rnti' h).2
  · intro rnti₁ rnti₂ h₁ h₂
    dsimp only
    rw [hues]
    exact hr.apart rnti₁ rnti₂ (hother rnti₁ h₁).2 (hother rnti₂ h₂).2
  · obtain ⟨b, hb⟩ := hr.finite
    refine ⟨b, fun rnti' h => ?_⟩
    by_contra hne
    exact (hother rnti' hne).2 (hb rnti' h)

theorem step_allocate_none {rnti : ℕ} (h : allocate P r.table rnti = none) :
    r.step P (.allocate rnti) = r := by
  simp [SlotRun.step, h]

theorem step_allocate_some {t : SlotTable} {rnti : ℕ} (h : allocate P r.table rnti = some t) :
    r.step P (.allocate rnti) =
      ⟨t, update r.holds rnti (some (t.resource P rnti))⟩ := by
  simp [SlotRun.step, h]

theorem SlotRun.Kept.step {e : SlotEvent} (hr : r.Kept P perPrb) (hfits : r.Fits P perPrb e) :
    (r.step P e).Kept P perPrb := by
  cases e with
  | allocate rnti =>
    cases ht : Pucch.allocate P r.table rnti with
    | none =>
      rw [step_allocate_none ht]
      exact hr
    | some t =>
      rw [step_allocate_some ht]
      exact hr.allocate hfits ht
  | free rnti => exact hr.free hfits

end Step

section Reassign

variable {P} {perPrb} {r : SlotRun}

theorem rank_inj {s s' : ℕ × ℕ} (hs : s ∈ P.slots) (h : P.rank s = P.rank s') : s = s' := by
  unfold SlotParams.rank at h
  exact (@List.idxOf_inj _ instBEqOfDecidableEq _ _ _ _ hs).mp h

/-- The allocations that a slot may have before another one with `k` users has one. -/
def SlotParams.before (k : ℕ) (t : SlotTable) : ℕ :=
  (P.slots.map fun s => k + 1 - t.nofUsers s).sum

theorem exists_reassign {s : ℕ × ℕ} {k : ℕ} (hs : s ∈ P.slots) (hk : k < P.maxUsers)
    (husable : P.Usable s) (hearlier : ∀ s' ∈ P.slots, P.rank s' < P.rank s → P.Usable s')
    (hall : 0 < k → ∀ s' ∈ P.slots, P.Usable s') {m : ℕ} :
    ∀ {r : SlotRun} {b : ℕ}, P.before k r.table ≤ m → (∀ s, r.table.nofUsers s ≤ P.maxUsers) →
      r.table.nofUsers s = k →
        ∃ n, (((List.range' b (n + 1)).map .allocate).foldl (SlotRun.step P) r).holds (b + n) =
          some (P.offset s, s.1 * P.maxUsers + k + P.ncsAn) := by
  induction m with
  | zero =>
    intro r b hm hle hcount
    have hterm : k + 1 - r.table.nofUsers s ≤ P.before k r.table :=
      List.single_le_sum (fun _ _ => Nat.zero_le _) _ (List.mem_map.mpr ⟨s, hs, rfl⟩)
    omega
  | succ m ih =>
    intro r b hm hle hcount
    obtain ⟨hmem, hmin, hfirst⟩ := next_spec hle (List.ne_nil_of_mem hs)
    have hlow : r.table.nofUsers (r.table.next P) ≤ k := hcount ▸ hmin s hs
    by_cases hnext : r.table.next P = s
    · refine ⟨0, ?_⟩
      obtain ⟨t, ht⟩ := exists_allocate (hle _) (by rw [hnext]; exact husable) b
      have hstep := step_allocate_some ht
      obtain ⟨-, configIdx, -, rfl⟩ := allocate_eq_some_iff.mp ht
      rw [List.range'_one, List.map_singleton, List.foldl_cons, List.foldl_nil, Nat.add_zero,
        hstep]
      simp only [update_self, SlotTable.resource, hnext, SlotTable.nextIdx, hcount]
    · have hnextUsable : P.Usable (r.table.next P) := by
        rcases Nat.eq_zero_or_pos k with hzero | hpos
        · have hrank := hfirst s hs (by omega)
          refine hearlier _ hmem (lt_of_le_of_ne hrank fun heq => hnext ?_)
          exact rank_inj hmem heq
        · exact hall hpos _ hmem
      obtain ⟨t, ht⟩ := exists_allocate (hle _) hnextUsable b
      have hstep := step_allocate_some ht
      obtain ⟨-, configIdx, -, ht'⟩ := allocate_eq_some_iff.mp ht
      have hnof : t.nofUsers = update r.table.nofUsers (r.table.next P)
          (r.table.nofUsers (r.table.next P) + 1) := by rw [ht']
      have hless : P.before k t < P.before k r.table := by
        refine List.sum_lt_sum _ _ (fun s' _ => ?_) ⟨r.table.next P, hmem, ?_⟩
        · rw [hnof, update_apply]
          split_ifs with heq
          · rw [heq]
            omega
          · exact le_rfl
        · rw [hnof, update_self]
          omega
      obtain ⟨n, hn⟩ := @ih (r.step P (.allocate b)) (b + 1) (by rw [hstep]; dsimp only; omega)
        (fun s' => by
          rw [hstep]
          dsimp only
          rw [hnof, update_apply]
          split_ifs with heq
          · omega
          · exact hle s')
        (by
          rw [hstep]
          dsimp only
          rw [hnof, update_of_ne (Ne.symm hnext)]
          exact hcount)
      refine ⟨n + 1, ?_⟩
      rw [List.range'_succ, List.map_cons, List.foldl_cons, ← Nat.add_assoc,
        Nat.add_right_comm b n 1]
      exact hn

theorem SlotRun.Kept.reassignable {rnti : ℕ} {res : ℕ × ℕ} (hr : r.Kept P perPrb)
    (hfits : r.Fits P perPrb (.free rnti)) (hres : r.holds rnti = some res) :
    (r.step P (.free rnti)).Reassignable P res := by
  obtain ⟨hresource, hallocated, hslot, k, hk, hindex, -⟩ := hr.holds rnti res hres
  obtain ⟨-, hlast⟩ := hfits hallocated
  obtain ⟨b, hb⟩ := (hr.free hfits).finite
  have hcount : r.table.nofUsers (r.table.ues rnti).slot = k + 1 := by
    unfold SlotTable.nextIdx at hlast
    omega
  have hpos : 0 < r.table.nofUsers (r.table.ues rnti).slot := by omega
  have hfree : (Pucch.free r.table rnti).nofUsers (r.table.ues rnti).slot = k := by
    unfold Pucch.free
    dsimp only
    rw [if_pos hallocated, if_pos hpos]
    dsimp only
    rw [update_self, hcount, Nat.add_sub_cancel]
  have hle := hr.le (r.table.ues rnti).slot
  obtain ⟨n, hn⟩ := @exists_reassign P (r.table.ues rnti).slot k hslot (by omega)
    (hr.used _ hpos).2 (hr.earlier _ hpos) (fun h => hr.all (r.table.ues rnti).slot (by omega)) _
    (r.step P (.free rnti)) b le_rfl (hr.free hfits).le hfree
  refine ⟨List.range' b (n + 1), List.nodup_range', fun rnti' h => ?_, b + n, ?_, ?_⟩
  · exact hb rnti' (List.mem_range'_1.mp h).1
  · exact List.mem_range'_1.mpr ⟨by omega, by omega⟩
  · rw [hn, hresource, SlotTable.resource, hindex]

theorem SlotRun.Kept.good {e : SlotEvent} (hr : r.Kept P perPrb) (hfits : r.Fits P perPrb e) :
    r.Good P perPrb e := by
  refine ⟨(hr.step hfits).sound, ?_⟩
  cases e with
  | allocate rnti =>
    intro hnone
    rw [step_allocate_none hnone]
  | free rnti =>
    intro res hres
    exact hr.reassignable hfits hres

end Reassign

/-- The resources for scheduling requests and those for CQI reports. -/
structure CellRun where
  sr : SlotRun
  cqi : SlotRun

inductive CellEvent
  | sr (e : SlotEvent)
  | cqi (e : SlotEvent)

namespace CellRun

variable (cell : CellPucch) (srCfg cqiCfg : SlotCfg)

def init : CellRun := ⟨.init, .init⟩

def step (r : CellRun) : CellEvent → CellRun
  | .sr e => { r with sr := r.sr.step (srParams cell srCfg) e }
  | .cqi e => { r with cqi := r.cqi.step (cqiParams cell cqiCfg) e }

def Decoded (r : CellRun) : Prop :=
  ∀ rnti res, r.cqi.holds rnti = some res →
    Cqi.cqiGetNFdd (r.cqi.table.ues rnti).configIdx = some (cqiCfg.period, res.1)

/-- A PRB has `12 * c / delta_pucch_shift` indices for scheduling requests, and 12 for CQI. -/
def Good (r : CellRun) (e : CellEvent) : Prop :=
  (r.step cell srCfg cqiCfg e).Decoded cqiCfg ∧
    match e with
    | .sr e => r.sr.Good (srParams cell srCfg) cell.maxUsers e
    | .cqi e => r.cqi.Good (cqiParams cell cqiCfg) 12 e

def Fits (r : CellRun) : CellEvent → Prop
  | .sr e => r.sr.Fits (srParams cell srCfg) cell.maxUsers e
  | .cqi e => r.cqi.Fits (cqiParams cell cqiCfg) 12 e

def Kept (r : CellRun) : Prop :=
  r.sr.Kept (srParams cell srCfg) cell.maxUsers ∧ r.cqi.Kept (cqiParams cell cqiCfg) 12

variable {cell} {srCfg cqiCfg}

theorem Kept.step {r : CellRun} {e : CellEvent} (hr : r.Kept cell srCfg cqiCfg)
    (hfits : r.Fits cell srCfg cqiCfg e) :
    (r.step cell srCfg cqiCfg e).Kept cell srCfg cqiCfg := by
  cases e with
  | sr e => exact ⟨hr.1.step hfits, hr.2⟩
  | cqi e => exact ⟨hr.1, hr.2.step hfits⟩

theorem Kept.decoded {r : CellRun} (hr : r.Kept cell srCfg cqiCfg) : r.Decoded cqiCfg := by
  intro rnti res hres
  obtain ⟨hresource, -⟩ := hr.2.holds rnti res hres
  rw [hresource]
  exact cqiGetNFdd_cqiConfigIdx (hr.2.config rnti (by rw [hres]; simp))

theorem Kept.good {r : CellRun} {e : CellEvent} (hr : r.Kept cell srCfg cqiCfg)
    (hfits : r.Fits cell srCfg cqiCfg e) : r.Good cell srCfg cqiCfg e := by
  refine ⟨(hr.step hfits).decoded, ?_⟩
  cases e with
  | sr e => exact hr.1.good hfits
  | cqi e => exact hr.2.good hfits

end CellRun

open EventRun in
/-- Where every event fits, resources are unique, in their region and can be given out again. -/
theorem resources_assigned (cell : CellPucch) (srCfg cqiCfg : SlotCfg) (events : List CellEvent)
    (hfits : Along (CellRun.step cell srCfg cqiCfg) (CellRun.Fits cell srCfg cqiCfg) .init events) :
    Along (CellRun.step cell srCfg cqiCfg) (CellRun.Good cell srCfg cqiCfg) .init events :=
  along_mono (fun _ _ => CellRun.Kept.step) (fun _ _ => CellRun.Kept.good)
    ⟨SlotRun.Kept.init, SlotRun.Kept.init⟩ hfits

def oneCell : CellPucch := ⟨true, 2, 0, by decide⟩

def oneSlot : SlotCfg := ⟨20, 1, [3], by decide⟩

/-- Two UEs come and leave in the reverse order. -/
theorem resources_assigned_two :
    EventRun.Along (CellRun.step oneCell oneSlot oneSlot) (CellRun.Good oneCell oneSlot oneSlot)
      .init [.sr (.allocate 70), .cqi (.allocate 70), .sr (.allocate 71), .sr (.free 71),
        .cqi (.free 70)] := by
  refine resources_assigned oneCell oneSlot oneSlot _ ⟨?_, ?_, ?_, ?_, ?_, trivial⟩
  · exact fun _ _ => ⟨by decide, by decide, by decide⟩
  · exact fun _ _ => ⟨by decide, by decide, by decide⟩
  · exact fun _ _ => ⟨by decide, by decide, by decide⟩
  · exact fun _ => ⟨by decide, by decide⟩
  · exact fun _ => ⟨by decide, by decide⟩

/-- The first of two UEs leaves, and a third one gets what the second one has. -/
theorem resource_shared :
    ¬ EventRun.Along (CellRun.step oneCell oneSlot oneSlot) (CellRun.Good oneCell oneSlot oneSlot)
      .init [.sr (.allocate 70), .sr (.allocate 71), .sr (.free 70), .sr (.allocate 72)] := by
  rintro ⟨-, -, -, ⟨-, hsound, -⟩, -⟩
  have hsame := hsound.unique 71 72 (3, 1) (by decide) (by decide)
  exact absurd hsame (by decide)

end Pucch

end SrsLte
