import SrsLte.BsrLevels
import Mathlib.Data.List.Count

/-!
# Logical channel groups of a UE at the eNB

`set_lcg` puts a logical channel into a group, `process_ce` passes the sizes of a BSR on to the
logical channels of the groups it reports. The loop of `set_lcg` that removes the channel cleans
the new group four times, and the old one stays as it is.
-/

namespace SrsLte

/-- A control element that was received; the payload is missing where its pointer is null. -/
structure EnbCe where
  subh : SchSubh
  payload : Option Bytes

namespace EnbCe

def ceType (ce : EnbCe) : ℕ := ce.subh.lcid

def byte (ce : EnbCe) (i : ℕ) : ℕ := ((ce.payload.getD ce.subh.wPayloadCe).getD i 0).toNat

def getPhr (ce : EnbCe) : ℤ := (ce.byte 0 &&& 0x3F : ℕ) - 23

def getCRnti (ce : EnbCe) : ℕ := ce.byte 0 <<< 8 ||| ce.byte 1

/-- `get_bsr` on empty sizes, with -1 as `none`. -/
def getBsr (ce : EnbCe) : (Fin 4 → ℕ) × Option ℕ :=
  match ce.payload with
  | none => (fun _ => 0, none)
  | some payload =>
    let (buffSize, idx) := SrsLte.getBsr ce.ceType payload fun _ => 0
    (buffSize, some idx)

end EnbCe

/-- A call that `process_ce` makes on the scheduler or on RRC. -/
inductive CeCall
  | ulPhr (rnti : ℕ) (phr : ℤ)
  | updUser (newRnti oldRnti : ℕ)
  | ulBsr (rnti lcid bsr : ℕ)
  deriving DecidableEq

structure EnbUe where
  rnti : ℕ
  lcGroups : Fin 4 → List ℕ

namespace EnbUe

/-- The four turns of the loop name `lcg` and not the counter `i`. -/
def setLcg (ue : EnbUe) (lcid : ℕ) (lcg : Fin 4) : EnbUe :=
  let erased := (List.range 4).foldl
    (fun groups _i => Function.update groups lcg ((groups lcg).filter (· ≠ lcid))) ue.lcGroups
  { ue with lcGroups := Function.update erased lcg (erased lcg ++ [lcid]) }

def new (rnti : ℕ) : EnbUe := (setLcg ⟨rnti, fun _ => []⟩ 0 0).setLcg 1 0

/-- `ul_bsr` for the channels of one group. -/
def groupBsr (ue : EnbUe) (buffSize : Fin 4 → ℕ) (idx : Fin 4) : List CeCall :=
  (ue.lcGroups idx).map fun lcid => .ulBsr ue.rnti lcid (buffSize idx)

/-- `process_ce` with the users that the scheduler has: its calls, and whether it saw a BSR. -/
def processCe (ueExists : ℕ → Bool) (ue : EnbUe) (ce : EnbCe) : EnbUe × List CeCall × Bool :=
  if ce.ceType = Lcid.phrReport then (ue, [.ulPhr ue.rnti ce.getPhr], false)
  else if ce.ceType = Lcid.crnti then
    let oldRnti := ce.getCRnti
    if ueExists oldRnti then ({ ue with rnti := oldRnti }, [.updUser ue.rnti oldRnti], false)
    else (ue, [], false)
  else if ce.ceType = Lcid.truncBsr ∨ ce.ceType = Lcid.shortBsr then
    match ce.getBsr with
    | (_, none) => (ue, [], false)
    | (buffSize, some idx) => (ue, ue.groupBsr buffSize (Fin.ofNat 4 idx), true)
  else if ce.ceType = Lcid.longBsr then
    (ue, (List.finRange 4).flatMap (ue.groupBsr ce.getBsr.1), true)
  else (ue, [], false)

/-- A sequence of `set_lcg` calls. -/
def configure (ue : EnbUe) (calls : List (ℕ × Fin 4)) : EnbUe :=
  calls.foldl (fun ue call => ue.setLcg call.1 call.2) ue

theorem erased_eq (groups : Fin 4 → List ℕ) (lcid : ℕ) (lcg : Fin 4) (n : ℕ) :
    (List.range (n + 1)).foldl
        (fun groups _i => Function.update groups lcg ((groups lcg).filter (· ≠ lcid))) groups =
      Function.update groups lcg ((groups lcg).filter (· ≠ lcid)) := by
  induction n with
  | zero => rfl
  | succ n ih =>
    rw [List.range_succ, List.foldl_append, ih]
    simp only [List.foldl_cons, List.foldl_nil, Function.update_self, Function.update_idem,
      List.filter_filter, Bool.and_self]

theorem lcGroups_setLcg (ue : EnbUe) (lcid : ℕ) (lcg : Fin 4) :
    (ue.setLcg lcid lcg).lcGroups =
      Function.update ue.lcGroups lcg ((ue.lcGroups lcg).filter (· ≠ lcid) ++ [lcid]) := by
  unfold setLcg
  dsimp only
  rw [erased_eq, Function.update_idem, Function.update_self]

theorem count_setLcg (ue : EnbUe) (lcid : ℕ) (lcg : Fin 4) (l : ℕ) (g : Fin 4) :
    ((ue.setLcg lcid lcg).lcGroups g).count l =
      if l = lcid ∧ g = lcg then 1 else (ue.lcGroups g).count l := by
  rw [lcGroups_setLcg]
  by_cases hg : g = lcg
  · subst hg
    rw [Function.update_self, List.count_append]
    by_cases hl : l = lcid
    · subst hl
      have hgone : l ∉ (ue.lcGroups g).filter (· ≠ l) := by simp
      rw [if_pos ⟨rfl, rfl⟩, List.count_eq_zero_of_not_mem hgone, List.count_singleton_self]
    · have hne : lcid ≠ l := fun h => hl h.symm
      rw [if_neg fun h => hl h.1, List.count_filter (by simpa using hl), List.count_singleton,
        if_neg (by simpa using hne), Nat.add_zero]
  · rw [Function.update_of_ne hg, if_neg fun h => hg h.2]

theorem count_configure (ue : EnbUe) (calls : List (ℕ × Fin 4)) (l : ℕ) (g : Fin 4) :
    ((ue.configure calls).lcGroups g).count l =
      if (l, g) ∈ calls then 1 else (ue.lcGroups g).count l := by
  induction calls using List.reverseRecOn with
  | nil => rfl
  | append_singleton calls call ih =>
    have hlast : ue.configure (calls ++ [call]) = (ue.configure calls).setLcg call.1 call.2 := by
      rw [configure, List.foldl_append]
      rfl
    rw [hlast, count_setLcg, ih]
    by_cases hcall : (l, g) = call
    · subst hcall
      rw [if_pos ⟨rfl, rfl⟩, if_pos List.mem_concat_self]
    · have hne : ¬(l = call.1 ∧ g = call.2) := fun h => hcall (Prod.ext h.1 h.2)
      rw [if_neg hne]
      exact if_congr (by simp [hcall]) rfl rfl

def initialCalls : List (ℕ × Fin 4) := [(0, 0), (1, 0)]

def lastGroup (calls : List (ℕ × Fin 4)) (lcid : ℕ) : Option (Fin 4) :=
  (calls.reverse.find? fun call => call.1 = lcid).map Prod.snd

def NeverMoved (calls : List (ℕ × Fin 4)) : Prop :=
  ∀ lcid g g', (lcid, g) ∈ calls → (lcid, g') ∈ calls → g = g'

variable {calls : List (ℕ × Fin 4)} {lcid : ℕ} {g : Fin 4}

theorem lastGroup_mem (h : lastGroup calls lcid = some g) : (lcid, g) ∈ calls := by
  obtain ⟨⟨l, g'⟩, hfind, rfl⟩ := Option.map_eq_some_iff.mp h
  have hl : l = lcid := by simpa using List.find?_some hfind
  subst hl
  exact List.mem_reverse.mp (List.mem_of_find?_eq_some hfind)

theorem lastGroup_isSome (h : (lcid, g) ∈ calls) : ∃ g', lastGroup calls lcid = some g' := by
  have hfound : (calls.reverse.find? fun call => call.1 = lcid).isSome := by
    rw [List.find?_isSome]
    exact ⟨_, List.mem_reverse.mpr h, by simp⟩
  obtain ⟨call, hcall⟩ := Option.isSome_iff_exists.mp hfound
  exact ⟨call.2, by rw [lastGroup, hcall, Option.map_some]⟩

theorem lastGroup_eq_some_iff (h : NeverMoved calls)
    : lastGroup calls lcid = some g ↔ (lcid, g) ∈ calls := by
  refine ⟨lastGroup_mem, fun hmem => ?_⟩
  obtain ⟨g', hlast⟩ := lastGroup_isSome hmem
  rw [hlast, h lcid g' g (lastGroup_mem hlast) hmem]

def InLastGroup (ue : EnbUe) (calls : List (ℕ × Fin 4)) : Prop :=
  ∀ lcid g, (ue.lcGroups g).count lcid = if lastGroup calls lcid = some g then 1 else 0

theorem configure_append (ue : EnbUe) (calls later : List (ℕ × Fin 4)) :
    ue.configure (calls ++ later) = (ue.configure calls).configure later :=
  List.foldl_append

theorem count_new_configure (rnti : ℕ) (calls : List (ℕ × Fin 4)) (l : ℕ) (g : Fin 4) :
    (((new rnti).configure calls).lcGroups g).count l =
      if (l, g) ∈ initialCalls ++ calls then 1 else 0 := by
  have hnew : new rnti = configure ⟨rnti, fun _ => []⟩ initialCalls := rfl
  rw [hnew, ← configure_append, count_configure, List.count_nil]

theorem inLastGroup_iff (rnti : ℕ) (calls : List (ℕ × Fin 4)) :
    InLastGroup ((new rnti).configure calls) (initialCalls ++ calls) ↔
      NeverMoved (initialCalls ++ calls) := by
  constructor
  · intro h lcid g g' hg hg'
    have hlast : ∀ k, (lcid, k) ∈ initialCalls ++ calls →
        lastGroup (initialCalls ++ calls) lcid = some k := by
      intro k hk
      have hcount := h lcid k
      rw [count_new_configure, if_pos hk] at hcount
      by_contra hne
      rw [if_neg hne] at hcount
      exact absurd hcount Nat.one_ne_zero
    exact Option.some.inj ((hlast g hg).symm.trans (hlast g' hg'))
  · intro h lcid g
    rw [count_new_configure]
    exact if_congr (lastGroup_eq_some_iff h).symm rfl rfl

def IsBsr (ce : EnbCe) : Prop :=
  ce.ceType = Lcid.truncBsr ∨ ce.ceType = Lcid.shortBsr ∨ ce.ceType = Lcid.longBsr

def Reports (ce : EnbCe) (g : Fin 4) : Prop :=
  ce.ceType = Lcid.longBsr ∨ ce.getBsr.2 = some g.val

instance (ce : EnbCe) (g : Fin 4) : Decidable (Reports ce g) :=
  inferInstanceAs (Decidable (_ ∨ _))

def callsFor (calls : List CeCall) (lcid : ℕ) : List CeCall :=
  calls.filter fun
    | .ulBsr _ l _ => l = lcid
    | _ => false

/-- A BSR gives each channel of a group it reports the size of that group, once, and no other
channel anything. -/
def BsrReachesLastGroup (ue : EnbUe) (calls : List (ℕ × Fin 4)) : Prop :=
  ∀ ueExists ce, IsBsr ce → ∀ lcid,
    callsFor (ue.processCe ueExists ce).2.1 lcid =
      ((lastGroup calls lcid).toList.filter (Reports ce ·)).map fun g =>
        .ulBsr ue.rnti lcid (ce.getBsr.1 g)

theorem getBsr_idx_lt {ce : EnbCe} {buffSize : Fin 4 → ℕ} {idx : ℕ}
    (h : ce.getBsr = (buffSize, some idx)) : idx < 4 := by
  unfold EnbCe.getBsr at h
  cases hp : ce.payload with
  | none =>
    rw [hp] at h
    simp at h
  | some payload =>
    rw [hp] at h
    obtain ⟨-, hidx⟩ := Prod.mk.inj h
    rw [← Option.some.inj hidx]
    change (bsrValues ce.ceType payload fun _ => 0).2 < 4
    unfold bsrValues
    dsimp only
    split_ifs
    · exact Nat.zero_lt_succ 3
    · have hmask : (payload.getD 0 0).toNat &&& 0xC0 ≤ 0xC0 := Nat.and_le_right
      rw [Nat.shiftRight_eq_div_pow]
      omega

theorem filter_finRange_val {idx : ℕ} (h : idx < 4) :
    (List.finRange 4).filter (fun g => some idx = some g.val) = [Fin.ofNat 4 idx] := by
  match idx, h with
  | 0, _ => rfl
  | 1, _ => rfl
  | 2, _ => rfl
  | 3, _ => rfl

theorem processCe_bsr (ueExists : ℕ → Bool) (ue : EnbUe) {ce : EnbCe} (h : IsBsr ce) :
    (ue.processCe ueExists ce).2.1 =
      ((List.finRange 4).filter (Reports ce ·)).flatMap (ue.groupBsr ce.getBsr.1) := by
  have hphr : ce.ceType ≠ Lcid.phrReport := by
    rcases h with h | h | h <;> rw [h] <;> decide
  have hcrnti : ce.ceType ≠ Lcid.crnti := by
    rcases h with h | h | h <;> rw [h] <;> decide
  unfold processCe
  rw [if_neg hphr, if_neg hcrnti]
  by_cases hlong : ce.ceType = Lcid.longBsr
  · have hshort : ¬(ce.ceType = Lcid.truncBsr ∨ ce.ceType = Lcid.shortBsr) := by
      rw [hlong]
      decide
    rw [if_neg hshort, if_pos hlong]
    have hall : (List.finRange 4).filter (Reports ce ·) = List.finRange 4 :=
      List.filter_eq_self.mpr fun g _ => decide_eq_true (Or.inl hlong)
    rw [hall]
  · have hshort : ce.ceType = Lcid.truncBsr ∨ ce.ceType = Lcid.shortBsr :=
      h.elim Or.inl fun h => h.elim Or.inr fun h => absurd h hlong
    rw [if_pos hshort]
    have hreports : ∀ g : Fin 4, Reports ce g ↔ ce.getBsr.2 = some g.val := fun g =>
      ⟨fun hg => hg.resolve_left hlong, Or.inr⟩
    simp only [hreports]
    match hget : ce.getBsr with
    | (buffSize, none) => simp
    | (buffSize, some idx) =>
      dsimp only
      rw [filter_finRange_val (getBsr_idx_lt hget), List.flatMap_singleton]

theorem callsFor_groupBsr (ue : EnbUe) (buffSize : Fin 4 → ℕ) (lcid : ℕ) (g : Fin 4) :
    callsFor (ue.groupBsr buffSize g) lcid =
      List.replicate ((ue.lcGroups g).count lcid) (.ulBsr ue.rnti lcid (buffSize g)) := by
  unfold callsFor groupBsr
  induction ue.lcGroups g with
  | nil => rfl
  | cons l rest ih =>
    rw [List.map_cons]
    by_cases hl : l = lcid
    · subst hl
      rw [List.filter_cons_of_pos (by simp), ih, List.count_cons_self, List.replicate_succ]
    · rw [List.filter_cons_of_neg (by simpa using hl), ih, List.count_cons_of_ne hl]

theorem flatMap_single {ι β : Type*} [DecidableEq ι] {l : List ι} (hnodup : l.Nodup) (k : ι)
    (f : ι → List β) :
    (l.flatMap fun g => if k = g then f g else []) = if k ∈ l then f k else [] := by
  induction l with
  | nil => rfl
  | cons g l ih =>
    obtain ⟨hg, hl⟩ := List.nodup_cons.mp hnodup
    rw [List.flatMap_cons, ih hl]
    by_cases hk : k = g
    · subst hk
      rw [if_pos rfl, if_neg hg, if_pos List.mem_cons_self, List.append_nil]
    · rw [if_neg hk, List.nil_append]
      exact if_congr (by simp [hk]) rfl rfl

theorem InLastGroup.bsrReaches {ue : EnbUe}
    (h : InLastGroup ue calls) : BsrReachesLastGroup ue calls := by
  intro ueExists ce hbsr lcid
  rw [processCe_bsr ueExists ue hbsr, callsFor, List.filter_flatMap]
  change (List.filter (Reports ce ·) (List.finRange 4)).flatMap
    (fun g => callsFor (ue.groupBsr ce.getBsr.1 g) lcid) = _
  have hone : ∀ g, callsFor (ue.groupBsr ce.getBsr.1 g) lcid =
      if lastGroup calls lcid = some g then [.ulBsr ue.rnti lcid (ce.getBsr.1 g)] else [] := by
    intro g
    rw [callsFor_groupBsr, h]
    split_ifs <;> rfl
  simp only [hone]
  cases lastGroup calls lcid with
  | none => simp
  | some k =>
    simp only [Option.some.injEq]
    rw [flatMap_single ((List.nodup_finRange 4).filter _) k]
    by_cases hk : Reports ce k <;> simp [hk]

/-- The groups follow the `set_lcg` calls, and the BSRs follow the groups. -/
def FollowsCalls (ue : EnbUe) (calls : List (ℕ × Fin 4)) : Prop :=
  InLastGroup ue calls ∧ BsrReachesLastGroup ue calls

theorem lcGroups_follow_iff_never_moved (rnti : ℕ) (calls : List (ℕ × Fin 4)) :
    FollowsCalls ((new rnti).configure calls) (initialCalls ++ calls) ↔
      NeverMoved (initialCalls ++ calls) := by
  rw [← inLastGroup_iff rnti]
  exact ⟨And.left, fun h => ⟨h, h.bsrReaches⟩⟩

/-- Channel 3 is moved from group 1 to group 2 and stays in both. -/
theorem moved_channel_keeps_group :
    ¬FollowsCalls ((new 70).configure [(3, 1), (3, 2)]) (initialCalls ++ [(3, 1), (3, 2)]) := by
  intro h
  have hcount := h.1 3 1
  revert hcount
  decide

end EnbUe

end SrsLte
