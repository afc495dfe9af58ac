import Mathlib.Data.Nat.Basic
import SrsLte.OrderedMap
import SrsLte.MeasCfg

/-!
# The difference of two measurement configurations

`var_meas_cfg_t` of the eNB: the walk over two sorted lists and the message that it fills.
-/

namespace SrsLte

open MeasObjToAddMod (measObjId)

/-- What `compute_diff_generator::next` finds before it is complete. -/
inductive DiffOutcome (α : Type)
  | sameId (src target : α)
  | idRemoved (src : α)
  | idAdded (target : α)

/-- The results of `next` until it is complete. -/
def diffOutcomes {α : Type} (getId : α → ℕ) : List α → List α → List (DiffOutcome α)
  | [], [] => []
  | s :: src, [] => .idRemoved s :: diffOutcomes getId src []
  | [], t :: target => .idAdded t :: diffOutcomes getId [] target
  | s :: src, t :: target =>
    if getId s < getId t then .idRemoved s :: diffOutcomes getId src (t :: target)
    else if getId s > getId t then .idAdded t :: diffOutcomes getId (s :: src) target
    else .sameId s t :: diffOutcomes getId src target
termination_by src target => src.length + target.length

/-- `binary_find`: the position of the lower bound, when the entry there has the identity. -/
def binaryFind {α : Type} (getId : α → ℕ) (l : List α) (id : ℕ) : Option ℕ :=
  let it := l.findIdx fun a => !(getId a < id)
  match l[it]? with
  | some a => if getId a = id then some it else none
  | none => none

/-- The loop over the outcomes that fills a list of entries to add or modify and a list of
identities to remove. -/
def emitDiff {α : Type} (getId : α → ℕ) (same : α → α → Bool) (src target : List α)
    (lists : OptList α × OptList ℕ) : OptList α × OptList ℕ :=
  (diffOutcomes getId src target).foldl
    (fun lists outcome =>
      match outcome with
      | .idRemoved s => (lists.1, lists.2.push (getId s))
      | .idAdded t => (lists.1.push t, lists.2)
      | .sameId s t => if same s t then lists else (lists.1.push t, lists.2))
    lists

/-- `meascfg_add_meas_obj`. The caller goes on to write to the object that it returns, as `fill`
does. -/
def meascfgAddMeasObj (measCfg : MeasCfg) (measObj : MeasObjToAddMod)
    (fill : MeasObjEutra → MeasObjEutra) : MeasCfg :=
  let targetEutra := measObj.measObj.withoutCells
  let l := measCfg.measObjToAddModList.items
  match binaryFind measObjId l measObj.measObjId with
  | some it =>
    { measCfg with
      measObjToAddModList := ⟨true, l.modify it fun o => { o with measObj := fill targetEutra }⟩ }
  | none =>
    { measCfg with
      measObjToAddModList := ⟨true, l ++ [⟨measObj.measObjId, fill targetEutra⟩]⟩ }

structure VarMeasCfg where
  measIdList : OptList MeasIdToAddMod := {}
  measObjList : OptList MeasObjToAddMod := {}
  reportCfgList : OptList ReportCfgToAddMod := {}
  quantCfg : Option QuantCfg := none

namespace VarMeasCfg

def addCells (targetEutra addedEutra : MeasObjEutra) : MeasObjEutra :=
  targetEutra.cellsToAddModList.items.foldl
    (fun o cell => { o with cellsToAddModList := o.cellsToAddModList.push cell }) addedEutra

def computeDiffCells (targetIt srcIt addedObj : MeasObjEutra) : MeasObjEutra :=
  let lists := emitDiff CellsToAddMod.cellIdx (fun s t => s == t) srcIt.cellsToAddModList.items
    targetIt.cellsToAddModList.items (addedObj.cellsToAddModList, addedObj.cellsToRemList)
  { addedObj with cellsToAddModList := lists.1, cellsToRemList := lists.2 }

/-- One turn of the loop of `compute_diff_meas_objs`. -/
def diffMeasObj (measCfg : MeasCfg) : DiffOutcome MeasObjToAddMod → MeasCfg
  | .idRemoved s =>
    { measCfg with measObjToRemList := measCfg.measObjToRemList.push s.measObjId }
  | .idAdded t => meascfgAddMeasObj measCfg t (addCells t.measObj)
  | .sameId s t =>
    if s == t then measCfg
    else meascfgAddMeasObj measCfg t (computeDiffCells t.measObj s.measObj)

def computeDiffMeasObjs (src target : VarMeasCfg) (measCfg : MeasCfg) : MeasCfg :=
  if !target.measObjList.present then measCfg
  else
    (diffOutcomes measObjId src.measObjList.items
      target.measObjList.items).foldl diffMeasObj measCfg

def computeDiffReportCfgs (src target : VarMeasCfg) (measCfg : MeasCfg) : MeasCfg :=
  if !target.reportCfgList.present then measCfg
  else
    let lists := emitDiff ReportCfgToAddMod.reportCfgId (fun s t => s == t)
      src.reportCfgList.items target.reportCfgList.items
      (measCfg.reportCfgToAddModList, measCfg.reportCfgToRemList)
    { measCfg with reportCfgToAddModList := lists.1, reportCfgToRemList := lists.2 }

def computeDiffMeasIds (src target : VarMeasCfg) (measCfg : MeasCfg) : MeasCfg :=
  if !target.measIdList.present then measCfg
  else
    let lists := emitDiff MeasIdToAddMod.measId (fun s t => s == t)
      src.measIdList.items target.measIdList.items
      (measCfg.measIdToAddModList, measCfg.measIdToRemList)
    { measCfg with measIdToAddModList := lists.1, measIdToRemList := lists.2 }

def computeDiffQuantCfg (src target : VarMeasCfg) (measCfg : MeasCfg) : MeasCfg :=
  match target.quantCfg with
  | some quantCfg =>
    match src.quantCfg with
    | some srcQuantCfg =>
      if !(quantCfg == srcQuantCfg) then { measCfg with quantCfg := some quantCfg } else measCfg
    | none => { measCfg with quantCfg := some quantCfg }
  | none => measCfg

def computeDiffMeasCfg (src target : VarMeasCfg) : MeasCfg × Bool :=
  let measCfg := src.computeDiffMeasObjs target {}
  let measCfg := src.computeDiffReportCfgs target measCfg
  let measCfg := src.computeDiffMeasIds target measCfg
  let measCfg := src.computeDiffQuantCfg target measCfg
  let measCfg :=
    { measCfg with
      measGapCfgPresent := false
      sMeasure := none
      preRegistInfoHrpdPresent := false
      speedStateParsPresent := false }
  (measCfg,
    measCfg.measObjToAddModList.present || measCfg.measObjToRemList.present ||
    measCfg.reportCfgToAddModList.present || measCfg.reportCfgToRemList.present ||
    measCfg.measIdToAddModList.present || measCfg.measIdToRemList.present ||
    measCfg.quantCfg.isSome || measCfg.measGapCfgPresent || measCfg.sMeasure.isSome ||
    measCfg.preRegistInfoHrpdPresent || measCfg.speedStateParsPresent)

end VarMeasCfg

open KeyedList

section Outcomes

variable {α : Type} {getId : α → ℕ} {same : α → α → Bool} {src target : List α} {k : ℕ}

namespace DiffOutcome

def key (getId : α → ℕ) : DiffOutcome α → ℕ
  | sameId _ t => getId t
  | idRemoved s => getId s
  | idAdded t => getId t

def at? : Option α → Option α → Option (DiffOutcome α)
  | some s, some t => some (sameId s t)
  | some s, none => some (idRemoved s)
  | none, some t => some (idAdded t)
  | none, none => none

def changed? (same : α → α → Bool) : DiffOutcome α → Option α
  | sameId s t => if same s t then none else some t
  | idRemoved _ => none
  | idAdded t => some t

def removed? (getId : α → ℕ) : DiffOutcome α → Option ℕ
  | sameId _ _ => none
  | idRemoved s => some (getId s)
  | idAdded _ => none

theorem key_of_changed? {o : DiffOutcome α} {t : α} (h : o.changed? same = some t) :
    getId t = o.key getId := by
  cases o with
  | sameId s t' =>
    simp only [changed?] at h
    split_ifs at h
    rw [← Option.some.inj h]
    rfl
  | idRemoved s => exact absurd h (Option.some_ne_none t).symm
  | idAdded t' =>
    rw [← Option.some.inj h]
    rfl

end DiffOutcome

theorem lt_key_of_mem_diffOutcomes (hsrc : ∀ s ∈ src, k < getId s)
    (htarget : ∀ t ∈ target, k < getId t) :
    ∀ o ∈ diffOutcomes getId src target, k < o.key getId := by
  fun_induction diffOutcomes getId src target <;> simp_all [DiffOutcome.key]

theorem forall_lt_of_lt {t : α} (hk : k < getId t) (htarget : ∀ t' ∈ target, getId t < getId t') :
    ∀ t' ∈ t :: target, k < getId t' :=
  List.forall_mem_cons.mpr ⟨hk, fun t' ht' => hk.trans (htarget t' ht')⟩

theorem sorted_diffOutcomes (hsrc : Sorted getId src) (htarget : Sorted getId target) :
    Sorted (DiffOutcome.key getId) (diffOutcomes getId src target) := by
  induction src, target using diffOutcomes.induct getId with
  | case1 =>
    rw [diffOutcomes]
    exact List.Pairwise.nil
  | case2 s src ih =>
    obtain ⟨hs, hsrc⟩ := List.pairwise_cons.mp hsrc
    rw [diffOutcomes]
    exact List.pairwise_cons.mpr
      ⟨lt_key_of_mem_diffOutcomes hs (by simp), ih hsrc htarget⟩
  | case3 t target ih =>
    obtain ⟨ht, htarget⟩ := List.pairwise_cons.mp htarget
    rw [diffOutcomes]
    exact List.pairwise_cons.mpr
      ⟨lt_key_of_mem_diffOutcomes (by simp) ht, ih hsrc htarget⟩
  | case4 s src t target hlt ih =>
    obtain ⟨hs, hsrc⟩ := List.pairwise_cons.mp hsrc
    have ht := (List.pairwise_cons.mp htarget).1
    rw [diffOutcomes, if_pos hlt]
    exact List.pairwise_cons.mpr
      ⟨lt_key_of_mem_diffOutcomes hs (forall_lt_of_lt hlt ht), ih hsrc htarget⟩
  | case5 s src t target hlt hgt ih =>
    have hs := (List.pairwise_cons.mp hsrc).1
    obtain ⟨ht, htarget⟩ := List.pairwise_cons.mp htarget
    rw [diffOutcomes, if_neg hlt, if_pos hgt]
    exact List.pairwise_cons.mpr
      ⟨lt_key_of_mem_diffOutcomes (forall_lt_of_lt hgt hs) ht, ih hsrc htarget⟩
  | case6 s src t target hlt hgt ih =>
    obtain ⟨hs, hsrc⟩ := List.pairwise_cons.mp hsrc
    obtain ⟨ht, htarget⟩ := List.pairwise_cons.mp htarget
    have hst : getId s = getId t := by omega
    rw [diffOutcomes, if_neg hlt, if_neg hgt]
    exact List.pairwise_cons.mpr
      ⟨lt_key_of_mem_diffOutcomes (fun s' hs' => hst.symm.trans_lt (hs s' hs')) ht,
        ih hsrc htarget⟩

theorem find?_diffOutcomes (hsrc : Sorted getId src) (htarget : Sorted getId target) (k : ℕ) :
    find? (DiffOutcome.key getId) k (diffOutcomes getId src target) =
      DiffOutcome.at? (find? getId k src) (find? getId k target) := by
  induction src, target using diffOutcomes.induct getId with
  | case1 =>
    rw [diffOutcomes]
    rfl
  | case2 s src ih =>
    simp only [diffOutcomes, find?_cons, DiffOutcome.key]
    by_cases hk : getId s = k
    · simp only [hk, if_true]
      rfl
    · simp only [if_neg hk, ih (List.pairwise_cons.mp hsrc).2 htarget]
  | case3 t target ih =>
    simp only [diffOutcomes, find?_cons, DiffOutcome.key]
    by_cases hk : getId t = k
    · simp only [hk, if_true]
      rfl
    · simp only [if_neg hk, ih hsrc (List.pairwise_cons.mp htarget).2]
  | case4 s src t target hlt ih =>
    rw [diffOutcomes, if_pos hlt, find?_cons, find?_cons, DiffOutcome.key]
    by_cases hk : getId s = k
    · rw [find?_of_lt (forall_lt_of_lt (hk ▸ hlt) (List.pairwise_cons.mp htarget).1)]
      simp only [hk, if_true]
      rfl
    · simp only [if_neg hk, ih (List.pairwise_cons.mp hsrc).2 htarget]
  | case5 s src t target hlt hgt ih =>
    rw [diffOutcomes, if_neg hlt, if_pos hgt, find?_cons, find?_cons (a := t), DiffOutcome.key]
    by_cases hk : getId t = k
    · rw [find?_of_lt (forall_lt_of_lt (hk ▸ hgt) (List.pairwise_cons.mp hsrc).1)]
      simp only [hk, if_true]
      rfl
    · simp only [if_neg hk, ih hsrc (List.pairwise_cons.mp htarget).2]
  | case6 s src t target hlt hgt ih =>
    have hst : getId s = getId t := by omega
    rw [diffOutcomes, if_neg hlt, if_neg hgt]
    simp only [find?_cons, DiffOutcome.key, hst]
    by_cases hk : getId t = k
    · simp only [hk, if_true]
      rfl
    · simp only [if_neg hk, ih (List.pairwise_cons.mp hsrc).2 (List.pairwise_cons.mp htarget).2]

def changes (getId : α → ℕ) (same : α → α → Bool) (src target : List α) : List α :=
  (diffOutcomes getId src target).filterMap (DiffOutcome.changed? same)

def removals (getId : α → ℕ) (src target : List α) : List ℕ :=
  (diffOutcomes getId src target).filterMap (DiffOutcome.removed? getId)

theorem emitDiff_eq (lists : OptList α × OptList ℕ) :
    emitDiff getId same src target lists =
      (lists.1.append (changes getId same src target),
        lists.2.append (removals getId src target)) := by
  unfold emitDiff changes removals
  induction diffOutcomes getId src target generalizing lists with
  | nil => simp
  | cons o os ih =>
    rw [List.foldl_cons, ih]
    cases o with
    | sameId s t =>
      rw [List.filterMap_cons_none (f := DiffOutcome.removed? getId) rfl]
      by_cases h : same s t = true
      · have hnone : (DiffOutcome.sameId s t).changed? same = none := if_pos h
        simp only [List.filterMap_cons_none hnone, h, if_true]
      · have hsome : (DiffOutcome.sameId s t).changed? same = some t := if_neg h
        simp only [List.filterMap_cons_some hsome, OptList.append_cons, h, Bool.false_eq_true,
          if_false]
    | idRemoved s =>
      rw [List.filterMap_cons_none (by rfl), List.filterMap_cons_some (by rfl),
        OptList.append_cons]
    | idAdded t =>
      rw [List.filterMap_cons_some (by rfl), List.filterMap_cons_none (by rfl),
        OptList.append_cons]

section

variable (hsrc : Sorted getId src) (htarget : Sorted getId target)
include hsrc htarget

theorem sorted_changes :
    Sorted getId (changes getId same src target) :=
  sorted_filterMap (fun _ _ => DiffOutcome.key_of_changed?) (sorted_diffOutcomes hsrc htarget)

theorem find?_changes (k : ℕ) :
    find? getId k (changes getId same src target) =
      (DiffOutcome.at? (find? getId k src) (find? getId k target)).bind
        (DiffOutcome.changed? same) := by
  rw [changes, find?_filterMap (fun _ _ => DiffOutcome.key_of_changed?)
    (sorted_diffOutcomes hsrc htarget), find?_diffOutcomes hsrc htarget]

theorem mem_removals_iff :
    k ∈ removals getId src target ↔
      (find? getId k src).isSome ∧ find? getId k target = none := by
  have hat := find?_diffOutcomes hsrc htarget k
  have hmem : k ∈ removals getId src target ↔
      ∃ s, .idRemoved s ∈ diffOutcomes getId src target ∧ getId s = k := by
    unfold removals
    rw [List.mem_filterMap]
    constructor
    · rintro ⟨o, ho, hk⟩
      cases o with
      | idRemoved s => exact ⟨s, ho, Option.some.inj hk⟩
      | sameId s t => exact absurd hk (Option.some_ne_none k).symm
      | idAdded t => exact absurd hk (Option.some_ne_none k).symm
    · rintro ⟨s, hs, rfl⟩
      exact ⟨_, hs, rfl⟩
  rw [hmem]
  constructor
  · rintro ⟨s, hs, hk⟩
    have hfound := (find?_eq_some_iff (sorted_diffOutcomes hsrc htarget)).mpr ⟨hs, hk⟩
    rw [hat] at hfound
    cases hs' : find? getId k src <;> cases ht' : find? getId k target <;>
      simp [hs', ht', DiffOutcome.at?] at hfound ⊢
  · rintro ⟨hs, ht⟩
    obtain ⟨s, hs⟩ := Option.isSome_iff_exists.mp hs
    rw [hs, ht] at hat
    obtain ⟨hmem, hkey⟩ := (find?_eq_some_iff (sorted_diffOutcomes hsrc htarget)).mp hat
    exact ⟨s, hmem, hkey⟩

theorem mem_changes_iff {t : α} :
    t ∈ changes getId same src target ↔
      t ∈ target ∧ ∀ s ∈ src, getId s = getId t → same s t = false := by
  have hmem : t ∈ changes getId same src target ↔
      find? getId (getId t) (changes getId same src target) = some t := by
    rw [find?_eq_some_iff (sorted_changes hsrc htarget), and_iff_left rfl]
  have htarget' : t ∈ target ↔ find? getId (getId t) target = some t := by
    rw [find?_eq_some_iff htarget, and_iff_left rfl]
  rw [hmem, htarget', find?_changes hsrc htarget]
  cases ht : find? getId (getId t) target with
  | none =>
    cases find? getId (getId t) src <;> simp [DiffOutcome.at?, DiffOutcome.changed?]
  | some t' =>
    cases hs : find? getId (getId t) src with
    | none =>
      simp only [DiffOutcome.at?, DiffOutcome.changed?, Option.bind_some, Option.some.injEq]
      exact ⟨fun h => ⟨h, fun s hmem hid => absurd hid (find?_eq_none_iff.mp hs s hmem)⟩, And.left⟩
    | some s =>
      simp only [DiffOutcome.at?, DiffOutcome.changed?, Option.bind_some, Option.some.injEq]
      constructor
      · intro h
        split_ifs at h with hsame
        cases Option.some.inj h
        refine ⟨rfl, fun s' hmem hid => ?_⟩
        have hs' := (find?_eq_some_iff hsrc).mpr ⟨hmem, hid⟩
        rw [hs] at hs'
        cases Option.some.inj hs'
        exact eq_false_of_ne_true hsame
      · rintro ⟨rfl, hdiffer⟩
        rw [hdiffer s (mem_of_find? hs) (key_of_find? hs), if_neg Bool.false_ne_true]

end

/-- What a receiver holds for an identity after the removals and then the changes: `old` is what it
held, `f` what it makes of a changed entry. -/
def patched {β : Type} (same : α → α → Bool) (f : α → β) (old : Option β) :
    Option α → Option α → Option β
  | none, none => old
  | some _, none => none
  | none, some t => some (f t)
  | some s, some t => if same s t then old else some (f t)

theorem elim_changes (same : α → α → Bool) {β : Type} (hsrc : Sorted getId src)
    (htarget : Sorted getId target)
    (f : α → β) (old : Option β) (k : ℕ) :
    (find? getId k (changes getId same src target)).elim
        (if k ∈ removals getId src target then none else old) (fun t => some (f t)) =
      patched same f old (find? getId k src) (find? getId k target) := by
  rw [find?_changes hsrc htarget]
  simp only [mem_removals_iff hsrc htarget]
  cases find? getId k src with
  | none => cases find? getId k target <;> rfl
  | some s =>
    cases find? getId k target with
    | none => rfl
    | some t =>
      by_cases h : same s t = true <;>
        simp [DiffOutcome.at?, DiffOutcome.changed?, patched, h]

theorem patched_eq {β : Type} {f : α → β} (hf : ∀ s t, same s t = true → f s = f t)
    (s t : Option α) : patched same f (s.map f) s t = t.map f := by
  cases s with
  | none => cases t <;> rfl
  | some s =>
    cases t with
    | none => rfl
    | some t =>
      by_cases h : same s t = true
      · simp only [patched, if_pos h, Option.map_some, hf s t h]
      · simp only [patched, if_neg h, Option.map_some]

/-- The same identities, with entries that `same` does not tell apart. -/
def SameEntries (getId : α → ℕ) (same : α → α → Bool) (src target : List α) : Prop :=
  ∀ k, Option.Rel (fun s t => same s t = true) (find? getId k src) (find? getId k target)

/-- The walk leaves both lists empty only on the same entries. The entries it adds to the message
are those that `f` makes of an outcome. -/
theorem no_outcome_iff (same : α → α → Bool) {β : Type} {getId' : β → ℕ}
    {f : DiffOutcome α → Option β}
    (hkey : ∀ o b, f o = some b → getId' b = o.key getId)
    (hf : ∀ o, f o = none ↔ o.changed? same = none)
    (hsrc : Sorted getId src) (htarget : Sorted getId target) :
    ((diffOutcomes getId src target).filterMap f = [] ∧ removals getId src target = []) ↔
      SameEntries getId same src target := by
  have hadd : (diffOutcomes getId src target).filterMap f = [] ↔ ∀ k,
      (DiffOutcome.at? (find? getId k src) (find? getId k target)).bind f = none := by
    rw [eq_nil_iff getId']
    exact forall_congr' fun k => by
      rw [find?_filterMap hkey (sorted_diffOutcomes hsrc htarget), find?_diffOutcomes hsrc htarget]
  have hrem : removals getId src target = [] ↔ ∀ k,
      ¬((find? getId k src).isSome ∧ find? getId k target = none) := by
    rw [List.eq_nil_iff_forall_not_mem]
    exact forall_congr' fun k => not_congr (mem_removals_iff hsrc htarget)
  rw [hadd, hrem, ← forall_and]
  refine forall_congr' fun k => ?_
  cases find? getId k src with
  | none =>
    cases find? getId k target with
    | none => simp [DiffOutcome.at?]
    | some t => simp [DiffOutcome.at?, hf, DiffOutcome.changed?]
  | some s =>
    cases find? getId k target with
    | none => simp [DiffOutcome.at?]
    | some t =>
      by_cases h : same s t = true <;> simp [DiffOutcome.at?, hf, DiffOutcome.changed?, h]

end Outcomes

namespace VarMeasCfg

variable {src target : VarMeasCfg} {k : ℕ}

structure Sorted (c : VarMeasCfg) : Prop where
  objects : KeyedList.Sorted measObjId c.measObjList.items
  cells : ∀ o ∈ c.measObjList.items,
    KeyedList.Sorted CellsToAddMod.cellIdx o.measObj.cellsToAddModList.items
  reports : KeyedList.Sorted ReportCfgToAddMod.reportCfgId c.reportCfgList.items
  measIds : KeyedList.Sorted MeasIdToAddMod.measId c.measIdList.items

theorem addCells_eq (target added : MeasObjEutra) :
    addCells target added =
      { added with
        cellsToAddModList := added.cellsToAddModList.append target.cellsToAddModList.items } := by
  unfold addCells
  induction target.cellsToAddModList.items generalizing added with
  | nil => simp
  | cons c cs ih => rw [List.foldl_cons, ih, OptList.append_cons]

theorem computeDiffCells_eq (target src added : MeasObjEutra) :
    computeDiffCells target src added =
      { added with
        cellsToAddModList := added.cellsToAddModList.append
          (changes CellsToAddMod.cellIdx (fun s t => s == t) src.cellsToAddModList.items
            target.cellsToAddModList.items)
        cellsToRemList := added.cellsToRemList.append
          (removals CellsToAddMod.cellIdx src.cellsToAddModList.items
            target.cellsToAddModList.items) } := by
  rw [computeDiffCells, emitDiff_eq]

def changedObject? : DiffOutcome MeasObjToAddMod → Option MeasObjToAddMod
  | .sameId s t =>
    if s == t then none
    else some ⟨t.measObjId, computeDiffCells t.measObj s.measObj t.measObj.withoutCells⟩
  | .idRemoved _ => none
  | .idAdded t => some ⟨t.measObjId, addCells t.measObj t.measObj.withoutCells⟩

theorem key_of_changedObject? (o : DiffOutcome MeasObjToAddMod) (m : MeasObjToAddMod)
    (h : changedObject? o = some m) : m.measObjId = o.key measObjId := by
  cases o with
  | sameId s t =>
    simp only [changedObject?] at h
    split_ifs at h
    rw [← Option.some.inj h]
    rfl
  | idRemoved s => exact absurd h (Option.some_ne_none m).symm
  | idAdded t =>
    rw [← Option.some.inj h]
    rfl

def objectChanges (src target : VarMeasCfg) : List MeasObjToAddMod :=
  (diffOutcomes measObjId src.measObjList.items
    target.measObjList.items).filterMap changedObject?

theorem binaryFind_of_lt {α : Type} {getId : α → ℕ} {l : List α} {id : ℕ}
    (h : ∀ a ∈ l, getId a < id) : binaryFind getId l id = none := by
  have hidx : l.findIdx (fun a => !decide (getId a < id)) = l.length := by
    rw [List.findIdx_eq_length]
    intro a ha
    simp [h a ha]
  simp only [binaryFind, hidx, List.getElem?_length]

theorem meascfgAddMeasObj_of_lt {measCfg : MeasCfg} {t : MeasObjToAddMod}
    (fill : MeasObjEutra → MeasObjEutra)
    (h : ∀ o ∈ measCfg.measObjToAddModList.items, o.measObjId < t.measObjId) :
    meascfgAddMeasObj measCfg t fill =
      { measCfg with
        measObjToAddModList :=
          measCfg.measObjToAddModList.push ⟨t.measObjId, fill t.measObj.withoutCells⟩ } := by
  simp only [meascfgAddMeasObj, binaryFind_of_lt h]
  rfl

theorem foldl_objects {os : List (DiffOutcome MeasObjToAddMod)}
    (hos : KeyedList.Sorted (DiffOutcome.key measObjId) os) (measCfg : MeasCfg)
    (hlt : ∀ m ∈ measCfg.measObjToAddModList.items, ∀ o ∈ os,
      m.measObjId < o.key measObjId) :
    os.foldl diffMeasObj measCfg =
      { measCfg with
        measObjToAddModList := measCfg.measObjToAddModList.append (os.filterMap changedObject?)
        measObjToRemList := measCfg.measObjToRemList.append
          (os.filterMap (DiffOutcome.removed? measObjId)) } := by
  induction os generalizing measCfg with
  | nil => simp
  | cons o os ih =>
    obtain ⟨ho, hrest⟩ := List.pairwise_cons.mp hos
    have hlt' : ∀ m ∈ measCfg.measObjToAddModList.items, ∀ o' ∈ os,
        m.measObjId < o'.key measObjId :=
      fun m hm o' ho' => hlt m hm o' (List.mem_cons_of_mem _ ho')
    have hself : ∀ m ∈ measCfg.measObjToAddModList.items,
        m.measObjId < o.key measObjId :=
      fun m hm => hlt m hm o List.mem_cons_self
    -- an object pushed for `o` comes before what the remaining outcomes push
    have hpush : ∀ obj : MeasObjEutra,
        ∀ m ∈ (measCfg.measObjToAddModList.push
          ⟨o.key measObjId, obj⟩).items, ∀ o' ∈ os,
        m.measObjId < o'.key measObjId := by
      intro obj m hm o' ho'
      rcases List.mem_append.mp hm with hm | hm
      · exact hlt' m hm o' ho'
      · rw [List.mem_singleton.mp hm]
        exact ho o' ho'
    rw [List.foldl_cons]
    cases o with
    | idRemoved s =>
      have hstep := ih hrest
        { measCfg with measObjToRemList := measCfg.measObjToRemList.push s.measObjId } hlt'
      rw [diffMeasObj, hstep, List.filterMap_cons_some (by rfl),
        List.filterMap_cons_none (by rfl), OptList.append_cons]
    | idAdded t =>
      have hstep := ih hrest (diffMeasObj measCfg (.idAdded t)) (by
        rw [diffMeasObj, meascfgAddMeasObj_of_lt _ hself]
        exact hpush _)
      rw [hstep, diffMeasObj, meascfgAddMeasObj_of_lt _ hself,
        List.filterMap_cons_none (by rfl), List.filterMap_cons_some (by rfl),
        OptList.append_cons]
    | sameId s t =>
      rw [diffMeasObj,
        List.filterMap_cons_none (f := DiffOutcome.removed? measObjId) (by rfl)]
      by_cases h : (s == t) = true
      · have hnone : changedObject? (.sameId s t) = none := if_pos h
        rw [if_pos h, ih hrest _ hlt', List.filterMap_cons_none hnone]
      · have hsome : changedObject? (.sameId s t) = some ⟨t.measObjId,
            computeDiffCells t.measObj s.measObj t.measObj.withoutCells⟩ := if_neg h
        have hstep := ih hrest
          (meascfgAddMeasObj measCfg t (computeDiffCells t.measObj s.measObj)) (by
            rw [meascfgAddMeasObj_of_lt _ hself]
            exact hpush _)
        rw [if_neg h, hstep, meascfgAddMeasObj_of_lt _ hself, List.filterMap_cons_some hsome,
          OptList.append_cons]

/-- The list of the message for a list of the target: nothing is written when the target has
none. -/
def emitted {α : Type} (present : Bool) (as : List α) : OptList α :=
  if present then ({} : OptList α).append as else {}

def changedQuantCfg (src target : VarMeasCfg) : Option QuantCfg :=
  match target.quantCfg, src.quantCfg with
  | some q, some p => if q == p then none else some q
  | some q, none => some q
  | none, _ => none

def objectRemovals (src target : VarMeasCfg) : List ℕ :=
  removals measObjId src.measObjList.items target.measObjList.items

def reportRemovals (src target : VarMeasCfg) : List ℕ :=
  removals ReportCfgToAddMod.reportCfgId src.reportCfgList.items target.reportCfgList.items

def reportChanges (src target : VarMeasCfg) : List ReportCfgToAddMod :=
  changes ReportCfgToAddMod.reportCfgId (fun s t => s == t) src.reportCfgList.items
    target.reportCfgList.items

def measIdRemovals (src target : VarMeasCfg) : List ℕ :=
  removals MeasIdToAddMod.measId src.measIdList.items target.measIdList.items

def measIdChanges (src target : VarMeasCfg) : List MeasIdToAddMod :=
  changes MeasIdToAddMod.measId (fun s t => s == t) src.measIdList.items target.measIdList.items

@[simp]
theorem items_emitted {α : Type} (present : Bool) (as : List α) :
    (emitted present as).items = if present then as else [] := by
  cases present with
  | false => rfl
  | true => exact List.nil_append as

theorem present_emitted_eq_false_iff {α : Type} (present : Bool) (as : List α) :
    (emitted present as).present = false ↔ (present = true → as = []) := by
  cases present <;> simp [emitted, OptList.append]

theorem computeDiffMeasObjs_eq (hsrc : src.Sorted) (htarget : target.Sorted) :
    src.computeDiffMeasObjs target {} =
      { measObjToAddModList := emitted target.measObjList.present (objectChanges src target)
        measObjToRemList := emitted target.measObjList.present (objectRemovals src target) } := by
  unfold computeDiffMeasObjs emitted
  cases target.measObjList.present with
  | false => rfl
  | true =>
    have hsorted := sorted_diffOutcomes hsrc.objects htarget.objects
    exact foldl_objects hsorted {} (List.forall_mem_nil _)

theorem computeDiffReportCfgs_eq {measCfg : MeasCfg}
    (hadd : measCfg.reportCfgToAddModList = {}) (hrem : measCfg.reportCfgToRemList = {}) :
    src.computeDiffReportCfgs target measCfg =
      { measCfg with
        reportCfgToAddModList := emitted target.reportCfgList.present (reportChanges src target)
        reportCfgToRemList :=
          emitted target.reportCfgList.present (reportRemovals src target) } := by
  unfold computeDiffReportCfgs emitted
  cases target.reportCfgList.present with
  | false =>
    cases measCfg
    cases hadd
    cases hrem
    rfl
  | true =>
    rw [Bool.not_true, if_neg Bool.false_ne_true, if_pos rfl, if_pos rfl]
    simp only [emitDiff_eq, hadd, hrem]
    rfl

theorem computeDiffMeasIds_eq {measCfg : MeasCfg}
    (hadd : measCfg.measIdToAddModList = {}) (hrem : measCfg.measIdToRemList = {}) :
    src.computeDiffMeasIds target measCfg =
      { measCfg with
        measIdToAddModList := emitted target.measIdList.present (measIdChanges src target)
        measIdToRemList := emitted target.measIdList.present (measIdRemovals src target) } := by
  unfold computeDiffMeasIds emitted
  cases target.measIdList.present with
  | false =>
    cases measCfg
    cases hadd
    cases hrem
    rfl
  | true =>
    rw [Bool.not_true, if_neg Bool.false_ne_true, if_pos rfl, if_pos rfl]
    simp only [emitDiff_eq, hadd, hrem]
    rfl

theorem computeDiffQuantCfg_eq {measCfg : MeasCfg} (hquant : measCfg.quantCfg = none) :
    src.computeDiffQuantCfg target measCfg =
      { measCfg with quantCfg := changedQuantCfg src target } := by
  unfold computeDiffQuantCfg changedQuantCfg
  cases target.quantCfg with
  | none => simp only [← hquant]
  | some q =>
    cases src.quantCfg with
    | none => rfl
    | some p =>
      by_cases hqp : (q == p) = true
      · simp only [hqp, Bool.not_true, Bool.false_eq_true, if_false, if_true, ← hquant]
      · simp only [hqp, Bool.not_false, if_true, Bool.false_eq_true, if_false]

theorem computeDiffMeasCfg_fst (hsrc : src.Sorted) (htarget : target.Sorted) :
    (src.computeDiffMeasCfg target).1 =
      { measObjToRemList := emitted target.measObjList.present (objectRemovals src target)
        measObjToAddModList := emitted target.measObjList.present (objectChanges src target)
        reportCfgToRemList := emitted target.reportCfgList.present (reportRemovals src target)
        reportCfgToAddModList := emitted target.reportCfgList.present (reportChanges src target)
        measIdToRemList := emitted target.measIdList.present (measIdRemovals src target)
        measIdToAddModList := emitted target.measIdList.present (measIdChanges src target)
        quantCfg := changedQuantCfg src target } := by
  simp only [computeDiffMeasCfg]
  rw [computeDiffMeasObjs_eq hsrc htarget, computeDiffReportCfgs_eq rfl rfl,
    computeDiffMeasIds_eq rfl rfl, computeDiffQuantCfg_eq rfl]

/-- No list of the target and no quantity configuration of it tells the source apart. -/
structure Silent (src target : VarMeasCfg) : Prop where
  objects : target.measObjList.present = true →
    SameEntries measObjId (fun s t => s == t) src.measObjList.items
      target.measObjList.items
  reports : target.reportCfgList.present = true →
    SameEntries ReportCfgToAddMod.reportCfgId (fun s t => s == t) src.reportCfgList.items
      target.reportCfgList.items
  measIds : target.measIdList.present = true →
    SameEntries MeasIdToAddMod.measId (fun s t => s == t) src.measIdList.items
      target.measIdList.items
  quantCfg : ∀ q, target.quantCfg = some q → ∃ p, src.quantCfg = some p ∧ (q == p) = true

theorem changedQuantCfg_eq_none_iff : changedQuantCfg src target = none ↔
    ∀ q, target.quantCfg = some q → ∃ p, src.quantCfg = some p ∧ (q == p) = true := by
  unfold changedQuantCfg
  cases target.quantCfg with
  | none => simp
  | some q =>
    cases src.quantCfg with
    | none => simp
    | some p => by_cases h : (q == p) = true <;> simp [h]

theorem changedObject?_eq_none_iff (o : DiffOutcome MeasObjToAddMod) :
    changedObject? o = none ↔ o.changed? (fun s t => s == t) = none := by
  cases o with
  | sameId s t => by_cases h : (s == t) = true <;> simp [changedObject?, DiffOutcome.changed?, h]
  | idRemoved s => exact ⟨fun _ => rfl, fun _ => rfl⟩
  | idAdded t => simp [changedObject?, DiffOutcome.changed?]

theorem computeDiffMeasCfg_snd (hsrc : src.Sorted) (htarget : target.Sorted) :
    (src.computeDiffMeasCfg target).2 = false ↔ src.Silent target := by
  have hobjects := no_outcome_iff (fun s t => s == t) key_of_changedObject?
    changedObject?_eq_none_iff hsrc.objects htarget.objects
  have hreports := no_outcome_iff (fun s t => s == t)
    (fun _ _ => DiffOutcome.key_of_changed?) (fun _ => Iff.rfl) hsrc.reports htarget.reports
  have hmeasIds := no_outcome_iff (fun s t => s == t)
    (fun _ _ => DiffOutcome.key_of_changed?) (fun _ => Iff.rfl) hsrc.measIds htarget.measIds
  have hsnd : (src.computeDiffMeasCfg target).2 =
      let measCfg := (src.computeDiffMeasCfg target).1
      (measCfg.measObjToAddModList.present || measCfg.measObjToRemList.present ||
      measCfg.reportCfgToAddModList.present || measCfg.reportCfgToRemList.present ||
      measCfg.measIdToAddModList.present || measCfg.measIdToRemList.present ||
      measCfg.quantCfg.isSome || measCfg.measGapCfgPresent || measCfg.sMeasure.isSome ||
      measCfg.preRegistInfoHrpdPresent || measCfg.speedStateParsPresent) := rfl
  rw [hsnd, computeDiffMeasCfg_fst hsrc htarget]
  simp only [Bool.or_eq_false_iff, present_emitted_eq_false_iff, Option.isSome_eq_false_iff,
    Option.isNone_iff_eq_none, changedQuantCfg_eq_none_iff, Option.isSome_none, and_true]
  constructor
  · rintro ⟨⟨⟨⟨⟨⟨hadd, hrem⟩, hadd'⟩, hrem'⟩, hadd''⟩, hrem''⟩, hquant⟩
    exact ⟨fun h => hobjects.mp ⟨hadd h, hrem h⟩, fun h => hreports.mp ⟨hadd' h, hrem' h⟩,
      fun h => hmeasIds.mp ⟨hadd'' h, hrem'' h⟩, hquant⟩
  · rintro ⟨hobj, hrep, hids, hquant⟩
    exact ⟨⟨⟨⟨⟨⟨fun h => (hobjects.mpr (hobj h)).1, fun h => (hobjects.mpr (hobj h)).2⟩,
      fun h => (hreports.mpr (hrep h)).1⟩, fun h => (hreports.mpr (hrep h)).2⟩,
      fun h => (hmeasIds.mpr (hids h)).1⟩, fun h => (hmeasIds.mpr (hids h)).2⟩, hquant⟩

end VarMeasCfg

end SrsLte
