import Mathlib.Data.List.FinRange
import SrsLte.BoundedBitset
import SrsLte.DisjointAssignment

/-!
# PDCCH grid

`pdcch_grid_t` keeps all alternatives for the DCIs of a subframe in a flat tree: a node is an
allocation with the index of its parent, and the nodes from `prev_start` to `prev_end` are the
alternatives for the DCIs granted so far. The allocation types for user data carry their user,
the others use the common and the RAR tables.
-/

namespace SrsLte

def maxCce : ℕ := 128

abbrev PdcchMask := BoundedBitset maxCce

structure DciLocation where
  L : ℕ
  ncce : ℕ
  deriving DecidableEq

structure SchedDciCce where
  cceStart : Fin 4 → Fin 6 → ℕ
  nofLoc : Fin 4 → Fin 7

/-- The first `nof_loc` entries of `cce_start`. -/
def SchedDciCce.locations (t : SchedDciCce) (aggrIdx : Fin 4) : List ℕ :=
  ((List.finRange 6).take (t.nofLoc aggrIdx)).map (t.cceStart aggrIdx)

structure PucchCfg where
  nPucch1 : ℕ
  iSr : ℕ
  srConfigured : Bool
  nPucchSr : ℕ

/-- Periodicity and offset of the SR for `I_sr`. -/
def srPeriodicityOffset (iSr : ℕ) : Option (ℕ × ℕ) :=
  if iSr < 5 then some (5, iSr)
  else if iSr < 15 then some (10, iSr - 5)
  else if iSr < 35 then some (20, iSr - 15)
  else if iSr < 75 then some (40, iSr - 35)
  else if iSr < 155 then some (80, iSr - 75)
  else if iSr < 157 then some (2, iSr - 155)
  else if iSr = 157 then some (1, iSr - 157)
  else none

/-- `srslte_ue_ul_sr_send_tti`; an invalid `I_sr` gives `SRSLTE_ERROR`. -/
def ueUlSrSendTti (cfg : PucchCfg) (currentTti : ℕ) : ℤ :=
  if cfg.srConfigured then
    match srPeriodicityOffset cfg.iSr with
    | none => -1
    | some (periodicity, offset) =>
      if currentTti ≥ offset ∧ (currentTti - offset) % periodicity = 0 then 1 else 0
  else 0

structure SchedUe where
  rnti : ℕ
  dciLocations : Fin 3 → Fin 10 → SchedDciCce
  phyConfigDedicatedEnabled : Bool
  pucchCfg : PucchCfg

def SchedUe.pucchSrCollision (user : SchedUe) (currentTti nCce : ℕ) : Bool :=
  user.phyConfigDedicatedEnabled && user.pucchCfg.srConfigured &&
    ueUlSrSendTti user.pucchCfg currentTti ≠ 0 &&
      (nCce + user.pucchCfg.nPucch1) % 2 ^ 32 = user.pucchCfg.nPucchSr

structure SchedParams where
  commonLocations : Fin 3 → SchedDciCce
  rarLocations : Fin 3 → Fin 10 → SchedDciCce
  nofCceTable : Fin 3 → Fin (maxCce + 1)

inductive AllocType
  | dlBc
  | dlPcch
  | dlRar
  | dlData (user : SchedUe)
  | ulData (user : SchedUe)

def AllocType.user : AllocType → Option SchedUe
  | dlData user | ulData user => some user
  | _ => none

structure Alloc where
  rnti : ℕ
  dciPos : DciLocation
  currentMask : PdcchMask
  totalMask : PdcchMask
  deriving DecidableEq

/-- What does not change while the DCIs of a subframe are allocated. -/
structure PdcchTti where
  params : SchedParams
  ttiRx : ℕ
  currentCfix : Fin 3

namespace PdcchTti

variable (t : PdcchTti)

/-- `TTI_TX(tti_rx)`. -/
def ttiTxDl : ℕ := (t.ttiRx + 4) % 10240

def sfIdx : Fin 10 := ⟨t.ttiTxDl % 10, Nat.mod_lt _ (by decide)⟩

def nofCces : ℕ := t.params.nofCceTable t.currentCfix

theorem nofCces_le : t.nofCces ≤ maxCce := Nat.le_of_lt_succ (t.params.nofCceTable t.currentCfix).2

def emptyMask : PdcchMask := BoundedBitset.empty t.nofCces t.nofCces_le

def getCceLocTable : AllocType → SchedDciCce
  | .dlBc | .dlPcch => t.params.commonLocations t.currentCfix
  | .dlRar => t.params.rarLocations t.currentCfix t.sfIdx
  | .dlData user | .ulData user => user.dciLocations t.currentCfix t.sfIdx

/-- `alloc_type == DL_DATA and user->pucch_sr_collision(tti_tx_dl, startpos)`. -/
def srCollision (startpos : ℕ) : AllocType → Bool
  | .dlData user => user.pucchSrCollision t.ttiTxDl startpos
  | _ => false

def allocMask (aggrIdx : Fin 4) (startpos : ℕ) : PdcchMask :=
  t.emptyMask.fill startpos (startpos + 1 <<< aggrIdx.val)

end PdcchTti

abbrev TreeNode := Option ℕ × Alloc

structure PdcchGrid where
  prevStart : ℕ
  prevEnd : ℕ
  dciAllocTree : List TreeNode
  nofDciAllocs : ℕ
  deriving DecidableEq

namespace PdcchGrid

variable (t : PdcchTti)

/-- The grid after `reset`. -/
def init : PdcchGrid where
  prevStart := 0
  prevEnd := 0
  dciAllocTree := []
  nofDciAllocs := 0

/-- Cumulative mask of a parent node, `none` for the root. -/
def cumMask (tree : List TreeNode) : Option ℕ → PdcchMask
  | none => t.emptyMask
  | some j => (tree[j]?.map fun node => node.2.totalMask).getD t.emptyMask

/-- One pass of the loop of `update_alloc_tree`. -/
def tryLocation (prevEnd : ℕ) (parent : Option ℕ) (aggrIdx : Fin 4) (allocType : AllocType)
    (cum : PdcchMask) (tree : List TreeNode) (startpos : ℕ) : List TreeNode :=
  if t.srCollision startpos allocType then tree
  else
    let mask := t.allocMask aggrIdx startpos
    if (cum.and mask).any then tree
    else
      let alloc : Alloc :=
        { rnti := (allocType.user.map SchedUe.rnti).getD 0
          dciPos := ⟨aggrIdx, startpos⟩
          currentMask := mask
          totalMask := cum.or mask }
      if (tree.drop prevEnd).any fun node => node.2.totalMask = alloc.totalMask then tree
      else tree ++ [(parent, alloc)]

def updateAllocTree (prevEnd : ℕ) (aggrIdx : Fin 4) (allocType : AllocType)
    (tree : List TreeNode) (parent : Option ℕ) : List TreeNode :=
  ((t.getCceLocTable allocType).locations aggrIdx).foldl
    (tryLocation t prevEnd parent aggrIdx allocType (cumMask t tree parent)) tree

def parents (g : PdcchGrid) : List (Option ℕ) :=
  if g.prevEnd > 0 then (List.range' g.prevStart (g.prevEnd - g.prevStart)).map some else [none]

def allocDci (g : PdcchGrid) (allocType : AllocType) (aggrIdx : Fin 4) : PdcchGrid × Bool :=
  let tree := g.parents.foldl (updateAllocTree t g.prevEnd aggrIdx allocType) g.dciAllocTree
  if tree.length = g.prevEnd then ({ g with dciAllocTree := tree }, false)
  else
    ({ prevStart := g.prevEnd
       prevEnd := tree.length
       dciAllocTree := tree
       nofDciAllocs := g.nofDciAllocs + 1 }, true)

/-- The loop of `get_allocs`: the allocations from node `i` up to its root. Every round of the
loop uses one unit of `fuel`; running out of it, or out of the tree, gives `none`. -/
def walkUp (tree : List TreeNode) : ℕ → ℕ → Option (List Alloc)
  | 0, _ => none
  | fuel + 1, i =>
    match tree[i]? with
    | none => none
    | some (none, alloc) => some [alloc]
    | some (some parent, alloc) => (walkUp tree fuel parent).map (alloc :: ·)

/-- `get_allocs` on alternative `idx`; `totMask` is the mask to be overwritten. -/
def getAllocs (g : PdcchGrid) (totMask : PdcchMask) (idx : ℕ) : Option (List Alloc × PdcchMask) :=
  if g.prevStart = g.prevEnd then some ([], totMask.reset)
  else do
    let vec ← walkUp g.dciAllocTree (g.prevStart + idx + 1) (g.prevStart + idx)
    let node ← g.dciAllocTree[g.prevStart + idx]?
    return (vec.reverse, node.2.totalMask)

def nofAllocCombinations (g : PdcchGrid) : ℕ := g.prevEnd - g.prevStart

/-- A sequence of `alloc_dci` calls: the grid and the calls that succeeded, in order. -/
def allocAll (g : PdcchGrid) (granted : List (AllocType × Fin 4)) :
    List (AllocType × Fin 4) → PdcchGrid × List (AllocType × Fin 4)
  | [] => (g, granted)
  | call :: calls =>
    let (g', ok) := g.allocDci t call.1 call.2
    allocAll g' (if ok then granted ++ [call] else granted) calls

end PdcchGrid
end SrsLte

/-!
The alternatives kept by the grid are assignments of one candidate position to each granted DCI
with pairwise disjoint CCE masks, and every total mask such an assignment can have is kept. A
candidate of user data on the downlink is one that does not collide with the SR of the user.
-/

namespace SrsLte

open DisjointAssignment

namespace PdcchTti

variable (t : PdcchTti)

def locMask (pos : DciLocation) : PdcchMask :=
  t.emptyMask.fill pos.ncce (pos.ncce + 1 <<< pos.L)

/-- `pos` is a candidate in the table of the call. -/
def TableCandidate (call : AllocType × Fin 4) (pos : DciLocation) : Prop :=
  pos.L = call.2 ∧ pos.ncce ∈ (t.getCceLocTable call.1).locations call.2

/-- `pos` is a candidate in the table of the call that does not collide with the SR of its user. -/
def Candidate (call : AllocType × Fin 4) (pos : DciLocation) : Prop :=
  t.TableCandidate call pos ∧ t.srCollision pos.ncce call.1 = false

theorem size_locMask (pos : DciLocation) : (t.locMask pos).size = t.nofCces :=
  BoundedBitset.size_fill _ _ _

/-- One position for each of the DCIs, with pairwise disjoint CCEs. -/
abbrev IsDciAssignment (calls : List (AllocType × Fin 4)) (ps : List DciLocation) : Prop :=
  IsAssignment t.Candidate (fun pos => (t.locMask pos).bits) calls ps

end PdcchTti

/-- A loop that appends to a list: what is appended comes from some pass, and what a pass has
established about the appended part stays true. -/
theorem foldl_grows {σ α : Type*} (f : List α → σ → List α) (old : List α) (Made : σ → α → Prop)
    (Q : σ → List α → Prop) (hmono : ∀ x l l', Q x l → Q x (l ++ l')) (xs : List σ)
    (hstep : ∀ new, ∀ x ∈ xs, ∃ added, f (old ++ new) x = old ++ (new ++ added) ∧
      (∀ a ∈ added, Made x a) ∧ Q x (new ++ added)) (new : List α) :
    ∃ added, xs.foldl f (old ++ new) = old ++ (new ++ added) ∧
      (∀ a ∈ added, ∃ x ∈ xs, Made x a) ∧ ∀ x ∈ xs, Q x (new ++ added) := by
  induction xs generalizing new with
  | nil => exact ⟨[], by simp, by simp, by simp⟩
  | cons x xs ih =>
    obtain ⟨added, hf, hmade, hq⟩ := hstep new x List.mem_cons_self
    obtain ⟨added', hf', hmade', hq'⟩ :=
      ih (fun new y hy => hstep new y (List.mem_cons_of_mem x hy)) (new ++ added)
    refine ⟨added ++ added', ?_, ?_, ?_⟩
    · rw [List.foldl_cons, hf, hf', List.append_assoc]
    · intro a ha
      rcases List.mem_append.mp ha with ha | ha
      · exact ⟨x, List.mem_cons_self, hmade a ha⟩
      · obtain ⟨y, hy, hya⟩ := hmade' a ha
        exact ⟨y, List.mem_cons_of_mem x hy, hya⟩
    · intro y hy
      rw [← List.append_assoc]
      rcases List.mem_cons.mp hy with rfl | hy
      · exact hmono _ _ _ hq
      · exact hq' y hy

namespace PdcchGrid

variable (t : PdcchTti)

def allocAt (call : AllocType × Fin 4) (cum : PdcchMask) (pos : DciLocation) : Alloc where
  rnti := (call.1.user.map SchedUe.rnti).getD 0
  dciPos := pos
  currentMask := t.locMask pos
  totalMask := cum.or (t.locMask pos)

/-- `node` extends the branch of `parent` by a candidate of the call. -/
def Extends (call : AllocType × Fin 4) (parent : Option ℕ) (cum : PdcchMask) (node : TreeNode) :
    Prop :=
  ∃ pos, t.Candidate call pos ∧ Disjoint cum.bits (t.locMask pos).bits ∧
    node = (parent, allocAt t call cum pos)

/-- Every candidate that fits below `cum` has its total mask among `nodes`. -/
def Covered (call : AllocType × Fin 4) (cum : PdcchMask) (nodes : List TreeNode) : Prop :=
  ∀ pos, t.Candidate call pos → Disjoint cum.bits (t.locMask pos).bits →
    ∃ node ∈ nodes, node.2.totalMask = cum.or (t.locMask pos)

theorem tryLocation_spec (old new : List TreeNode) (parent : Option ℕ) (call : AllocType × Fin 4)
    {cum : PdcchMask} (hsize : cum.size = t.nofCces) {startpos : ℕ}
    (hloc : startpos ∈ (t.getCceLocTable call.1).locations call.2) :
    ∃ added, tryLocation t old.length parent call.2 call.1 cum (old ++ new) startpos =
        old ++ (new ++ added) ∧
      (∀ node ∈ added, Extends t call parent cum node) ∧
      (t.srCollision startpos call.1 = false →
        Disjoint cum.bits (t.locMask ⟨call.2, startpos⟩).bits →
        ∃ node ∈ new ++ added, node.2.totalMask = cum.or (t.locMask ⟨call.2, startpos⟩)) := by
  have hfits := BoundedBitset.any_and_eq_false
    ((t.size_locMask ⟨call.2, startpos⟩).trans hsize.symm)
  unfold tryLocation
  by_cases hsr : t.srCollision startpos call.1 = true
  · rw [if_pos hsr]
    exact ⟨[], by simp, by simp, fun h => absurd (hsr.symm.trans h) (by simp)⟩
  rw [if_neg hsr]
  change ∃ added, (if (cum.and (t.locMask ⟨call.2, startpos⟩)).any then _ else _) = _ ∧ _
  by_cases hany : (cum.and (t.locMask ⟨call.2, startpos⟩)).any = true
  · rw [if_pos hany]
    exact ⟨[], by simp, by simp, fun _ h => absurd (hany.symm.trans (hfits.mpr h)) (by simp)⟩
  rw [if_neg hany]
  have hdisj := hfits.mp (Bool.eq_false_iff.mpr hany)
  change ∃ added, (if ((old ++ new).drop old.length).any
    (fun node => node.2.totalMask = cum.or (t.locMask ⟨call.2, startpos⟩)) then old ++ new
    else old ++ new ++ [(parent, allocAt t call cum ⟨call.2, startpos⟩)]) = _ ∧ _
  rw [List.drop_left]
  by_cases hrep : new.any
      (fun node => node.2.totalMask = cum.or (t.locMask ⟨call.2, startpos⟩)) = true
  · rw [if_pos hrep]
    refine ⟨[], by simp, by simp, fun _ _ => ?_⟩
    obtain ⟨node, hmem, heq⟩ := List.any_eq_true.mp hrep
    exact ⟨node, List.mem_append_left _ hmem, by simpa using heq⟩
  · rw [if_neg hrep]
    refine ⟨_, List.append_assoc _ _ _, fun node hnode => ?_, fun _ _ => ?_⟩
    · rw [List.mem_singleton.mp hnode]
      exact ⟨⟨call.2, startpos⟩, ⟨⟨rfl, hloc⟩, Bool.eq_false_iff.mpr hsr⟩, hdisj, rfl⟩
    · exact ⟨_, List.mem_concat_self, rfl⟩

theorem updateAllocTree_spec (old new : List TreeNode) (parent : Option ℕ)
    (call : AllocType × Fin 4) (hsize : (cumMask t (old ++ new) parent).size = t.nofCces) :
    ∃ added, updateAllocTree t old.length call.2 call.1 (old ++ new) parent =
        old ++ (new ++ added) ∧
      (∀ node ∈ added, Extends t call parent (cumMask t (old ++ new) parent) node) ∧
      Covered t call (cumMask t (old ++ new) parent) (new ++ added) := by
  unfold updateAllocTree
  generalize cumMask t (old ++ new) parent = cum at hsize ⊢
  obtain ⟨added, hf, hmade, hq⟩ := foldl_grows
    (tryLocation t old.length parent call.2 call.1 cum) old
    (fun _ node => Extends t call parent cum node)
    (fun startpos nodes => t.srCollision startpos call.1 = false →
        Disjoint cum.bits (t.locMask ⟨call.2, startpos⟩).bits →
        ∃ node ∈ nodes, node.2.totalMask = cum.or (t.locMask ⟨call.2, startpos⟩))
    (fun _ l l' h hsr hd => (h hsr hd).imp fun _ hn => ⟨List.mem_append_left l' hn.1, hn.2⟩)
    ((t.getCceLocTable call.1).locations call.2)
    (fun new startpos hloc => tryLocation_spec t old new parent call hsize hloc) new
  refine ⟨added, hf, fun node hnode => (hmade node hnode).elim fun _ h => h.2, ?_⟩
  rintro ⟨L, startpos⟩ ⟨⟨hL, hloc⟩, hsr⟩ hdisj
  simp only at hL
  subst hL
  exact hq startpos hloc hsr hdisj

theorem cumMask_append {old : List TreeNode} (new : List TreeNode) {j : ℕ} (hj : j < old.length) :
    cumMask t (old ++ new) (some j) = cumMask t old (some j) := by
  change (((old ++ new)[j]?).map _).getD _ = _
  rw [List.getElem?_append_left hj]
  rfl

theorem foldl_updateAllocTree_spec (old : List TreeNode) (call : AllocType × Fin 4)
    (ps : List (Option ℕ)) (hps : ∀ j, some j ∈ ps → j < old.length)
    (hsize : ∀ p ∈ ps, (cumMask t old p).size = t.nofCces) :
    ∃ added, ps.foldl (updateAllocTree t old.length call.2 call.1) old = old ++ added ∧
      (∀ node ∈ added, ∃ p ∈ ps, Extends t call p (cumMask t old p) node) ∧
      ∀ p ∈ ps, Covered t call (cumMask t old p) added := by
  -- nodes added meanwhile do not change the masks of the parents
  have hcum (new : List TreeNode) : ∀ p ∈ ps, cumMask t (old ++ new) p = cumMask t old p := by
    intro p hp
    cases p with
    | none => rfl
    | some j => exact cumMask_append t new (hps j hp)
  have hgrow := foldl_grows (updateAllocTree t old.length call.2 call.1) old
    (fun p node => Extends t call p (cumMask t old p) node)
    (fun p nodes => Covered t call (cumMask t old p) nodes)
    (fun _ l l' h pos hc hd =>
      (h pos hc hd).imp fun _ hn => ⟨List.mem_append_left l' hn.1, hn.2⟩)
    ps (fun new p hp => by
      have h := updateAllocTree_spec t old new p call (by rw [hcum new p hp]; exact hsize p hp)
      rw [hcum new p hp] at h
      exact h) []
  rw [List.append_nil] at hgrow
  exact hgrow

theorem walkUp_mono {tree : List TreeNode} {fuel i : ℕ} {vec : List Alloc}
    (h : walkUp tree fuel i = some vec) (new : List TreeNode) {fuel' : ℕ} (hle : fuel ≤ fuel') :
    walkUp (tree ++ new) fuel' i = some vec := by
  induction fuel generalizing i vec fuel' with
  | zero => exact absurd h (by simp [walkUp])
  | succ fuel ih =>
    obtain ⟨fuel', rfl⟩ : ∃ k, fuel' = k + 1 := ⟨fuel' - 1, by omega⟩
    unfold walkUp at h ⊢
    cases hnode : tree[i]? with
    | none => rw [hnode] at h; exact absurd h (by simp)
    | some node =>
      have hlt : i < tree.length := (List.getElem?_eq_some_iff.mp hnode).1
      rw [List.getElem?_append_left hlt, hnode]
      rw [hnode] at h
      obtain ⟨parent, alloc⟩ := node
      cases parent with
      | none => exact h
      | some parent =>
        obtain ⟨vec', hvec', rfl⟩ := Option.map_eq_some_iff.mp h
        exact Option.map_eq_some_iff.mpr ⟨vec', ih hvec' (by omega), rfl⟩

def Branch (tree : List TreeNode) : Option ℕ → List Alloc → Prop
  | none, allocs => allocs = []
  | some i, allocs => walkUp tree (i + 1) i = some allocs.reverse

theorem branch_concat {old added : List TreeNode} {parent : Option ℕ} {alloc : Alloc}
    {allocs : List Alloc} (hbranch : Branch old parent allocs)
    (hparent : ∀ j, parent = some j → j < old.length) {k : ℕ}
    (hk : added[k]? = some (parent, alloc)) :
    Branch (old ++ added) (some (old.length + k)) (allocs ++ [alloc]) := by
  have hnode : (old ++ added)[old.length + k]? = some (parent, alloc) := by
    rw [List.getElem?_append_right (Nat.le_add_right _ _), Nat.add_sub_cancel_left, hk]
  change walkUp (old ++ added) (old.length + k + 1) (old.length + k) = _
  rw [List.reverse_concat]
  unfold walkUp
  rw [hnode]
  cases parent with
  | none =>
    rw [show allocs = [] from hbranch]
    rfl
  | some j =>
    have hj := hparent j rfl
    exact Option.map_eq_some_iff.mpr ⟨_, walkUp_mono hbranch added (by omega), rfl⟩

/-- `allocs` serves the granted DCIs: one allocation each, at positions that form an assignment,
with the RNTIs of the users, and `totalMask` is the union of their masks. -/
structure Serves (granted : List (AllocType × Fin 4)) (allocs : List Alloc)
    (totalMask : PdcchMask) : Prop where
  assignment : t.IsDciAssignment granted (allocs.map (·.dciPos))
  masks : ∀ a ∈ allocs, a.currentMask = t.locMask a.dciPos
  rntis : allocs.map (·.rnti) = granted.map fun call => (call.1.user.map SchedUe.rnti).getD 0
  size : totalMask.size = t.nofCces
  union : totalMask.bits = total (fun pos => (t.locMask pos).bits) (allocs.map (·.dciPos))

theorem serves_nil : Serves t [] [] t.emptyMask where
  assignment := isAssignment_nil
  masks := List.forall_mem_nil _
  rntis := rfl
  size := rfl
  union := rfl

theorem Serves.concat {granted : List (AllocType × Fin 4)} {allocs : List Alloc} {cum : PdcchMask}
    (h : Serves t granted allocs cum) {call : AllocType × Fin 4} {pos : DciLocation}
    (hcand : t.Candidate call pos) (hdisj : Disjoint cum.bits (t.locMask pos).bits) :
    Serves t (granted ++ [call]) (allocs ++ [allocAt t call cum pos])
      (cum.or (t.locMask pos)) where
  assignment := by
    rw [List.map_append]
    exact isAssignment_concat.mpr ⟨h.assignment, hcand, h.union ▸ hdisj⟩
  masks := by
    intro a ha
    rcases List.mem_append.mp ha with ha | ha
    · exact h.masks a ha
    · rw [List.mem_singleton.mp ha]
      rfl
  rntis := by
    rw [List.map_append, h.rntis, List.map_append]
    rfl
  size := (BoundedBitset.size_or _ _).trans h.size
  union := by
    rw [BoundedBitset.bits_or ((t.size_locMask pos).trans h.size.symm), List.map_append, h.union]
    exact (total_concat _ _ _).symm

/-- The grid after the calls `granted` have succeeded. -/
structure Inv (g : PdcchGrid) (granted : List (AllocType × Fin 4)) : Prop where
  length : g.dciAllocTree.length = g.prevEnd
  level : granted = [] ∧ g.prevStart = 0 ∧ g.prevEnd = 0 ∨
    granted ≠ [] ∧ g.prevStart < g.prevEnd
  count : g.nofDciAllocs = granted.length
  sound : ∀ p ∈ g.parents, ∃ allocs, Branch g.dciAllocTree p allocs ∧
    Serves t granted allocs (cumMask t g.dciAllocTree p)
  complete : ∀ m, Reaches t.Candidate (fun pos => (t.locMask pos).bits) granted m →
    ∃ p ∈ g.parents, (cumMask t g.dciAllocTree p).bits = m

theorem inv_init : Inv t init [] where
  length := rfl
  level := Or.inl ⟨rfl, rfl, rfl⟩
  count := rfl
  sound p hp := by
    rw [List.mem_singleton.mp hp]
    exact ⟨[], rfl, serves_nil t⟩
  complete m hm := by
    refine ⟨none, List.mem_singleton_self _, ?_⟩
    rw [eq_bot_of_reaches_nil hm]
    rfl

variable {g : PdcchGrid}

theorem some_mem_parents {j : ℕ} (h : some j ∈ g.parents) :
    g.prevStart ≤ j ∧ j < g.prevEnd := by
  unfold parents at h
  split_ifs at h
  · obtain ⟨k, hk, heq⟩ := List.mem_map.mp h
    rw [Option.some.inj heq] at hk
    have := List.mem_range'_1.mp hk
    omega
  · exact absurd (List.mem_singleton.mp h) (by simp)

theorem Inv.grown {granted : List (AllocType × Fin 4)} (h : Inv t g granted)
    (call : AllocType × Fin 4) :
    ∃ added, g.parents.foldl (updateAllocTree t g.prevEnd call.2 call.1) g.dciAllocTree =
        g.dciAllocTree ++ added ∧
      (∀ node ∈ added, ∃ p ∈ g.parents, Extends t call p (cumMask t g.dciAllocTree p) node) ∧
      ∀ p ∈ g.parents, Covered t call (cumMask t g.dciAllocTree p) added := by
  have hgrow := foldl_updateAllocTree_spec t g.dciAllocTree call g.parents
    (fun j hj => h.length ▸ (some_mem_parents hj).2)
    (fun p hp => (h.sound p hp).elim fun _ hs => hs.2.size)
  rwa [h.length] at hgrow

theorem allocDci_eq {call : AllocType × Fin 4} {added : List TreeNode}
    (hlen : g.dciAllocTree.length = g.prevEnd)
    (hgrown : g.parents.foldl (updateAllocTree t g.prevEnd call.2 call.1) g.dciAllocTree =
      g.dciAllocTree ++ added) :
    g.allocDci t call.1 call.2 =
      if added = [] then (g, false)
      else (⟨g.prevEnd, g.prevEnd + added.length, g.dciAllocTree ++ added, g.nofDciAllocs + 1⟩,
        true) := by
  unfold allocDci
  rw [hgrown]
  simp only [List.length_append, hlen]
  cases added with
  | nil => simp
  | cons node added => simp

theorem Inv.allocDci_iff {granted : List (AllocType × Fin 4)}
    (h : Inv t g granted) (call : AllocType × Fin 4) :
    (g.allocDci t call.1 call.2).2 = true ↔ ∃ ps, t.IsDciAssignment (granted ++ [call]) ps := by
  obtain ⟨added, hgrown, hmade, hcovered⟩ := h.grown t call
  rw [allocDci_eq t h.length hgrown]
  constructor
  · intro hok
    cases added with
    | nil => exact absurd hok (by simp)
    | cons node added =>
      obtain ⟨p, hp, pos, hcand, hdisj, -⟩ := hmade node List.mem_cons_self
      obtain ⟨allocs, -, hserves⟩ := h.sound p hp
      exact ⟨_, (hserves.concat t hcand hdisj).assignment⟩
  · intro hex
    obtain ⟨m, hm, pos, hcand, hdisj⟩ := exists_isAssignment_concat.mp hex
    obtain ⟨p, hp, hbits⟩ := h.complete m hm
    obtain ⟨node, hnode, -⟩ := hcovered p hp pos hcand (hbits ▸ hdisj)
    rw [if_neg (List.ne_nil_of_mem hnode)]

theorem Inv.allocDci_failed {granted : List (AllocType × Fin 4)}
    (h : Inv t g granted) (call : AllocType × Fin 4)
    (hfail : (g.allocDci t call.1 call.2).2 = false) : (g.allocDci t call.1 call.2).1 = g := by
  obtain ⟨added, hgrown, -, -⟩ := h.grown t call
  rw [allocDci_eq t h.length hgrown] at hfail ⊢
  split_ifs at hfail ⊢
  rfl

theorem Inv.allocDci_granted {granted : List (AllocType × Fin 4)}
    (h : Inv t g granted) (call : AllocType × Fin 4)
    (hok : (g.allocDci t call.1 call.2).2 = true) :
    Inv t (g.allocDci t call.1 call.2).1 (granted ++ [call]) := by
  obtain ⟨added, hgrown, hmade, hcovered⟩ := h.grown t call
  rw [allocDci_eq t h.length hgrown] at hok ⊢
  have hne : added ≠ [] := by
    rintro rfl
    exact absurd hok (by simp)
  rw [if_neg hne]
  have hpos := List.length_pos_iff.mpr hne
  have hparents : (⟨g.prevEnd, g.prevEnd + added.length, g.dciAllocTree ++ added,
      g.nofDciAllocs + 1⟩ : PdcchGrid).parents =
        (List.range' g.prevEnd added.length).map some := by
    unfold parents
    simp only [Nat.add_sub_cancel_left]
    rw [if_pos (by omega)]
  have hmask {k : ℕ} {node : TreeNode} (hk : added[k]? = some node) :
      cumMask t (g.dciAllocTree ++ added) (some (g.prevEnd + k)) = node.2.totalMask := by
    change (((g.dciAllocTree ++ added)[g.prevEnd + k]?).map _).getD _ = _
    rw [List.getElem?_append_right (by rw [h.length]; exact Nat.le_add_right _ _), h.length,
      Nat.add_sub_cancel_left, hk]
    rfl
  constructor
  · rw [List.length_append, h.length]
  · exact Or.inr ⟨by simp, by simp only; omega⟩
  · rw [List.length_append, h.count]
    rfl
  · intro p hp
    rw [hparents] at hp
    obtain ⟨i, hi, rfl⟩ := List.mem_map.mp hp
    obtain ⟨k, hk, rfl⟩ : ∃ k, k < added.length ∧ i = g.prevEnd + k := by
      have := List.mem_range'_1.mp hi
      exact ⟨i - g.prevEnd, by omega, by omega⟩
    have hget : added[k]? = some added[k] := List.getElem?_eq_getElem hk
    obtain ⟨p, hp, pos, hcand, hdisj, heq⟩ := hmade added[k] (List.getElem_mem hk)
    obtain ⟨allocs, hbranch, hserves⟩ := h.sound p hp
    refine ⟨allocs ++ [allocAt t call (cumMask t g.dciAllocTree p) pos], ?_, ?_⟩
    · have hlt : ∀ j, p = some j → j < g.dciAllocTree.length := by
        rintro j rfl
        exact h.length ▸ (some_mem_parents hp).2
      have hb := branch_concat hbranch hlt (hget.trans (congrArg some heq))
      rwa [h.length] at hb
    · rw [hmask hget, heq]
      exact hserves.concat t hcand hdisj
  · intro m hm
    obtain ⟨m', hm', pos, hcand, hdisj, rfl⟩ := reaches_concat.mp hm
    obtain ⟨p, hp, rfl⟩ := h.complete m' hm'
    obtain ⟨node, hnode, htotal⟩ := hcovered p hp pos hcand hdisj
    obtain ⟨k, hk, hget⟩ := List.mem_iff_getElem.mp hnode
    refine ⟨some (g.prevEnd + k), ?_, ?_⟩
    · rw [hparents]
      exact List.mem_map.mpr ⟨_, List.mem_range'_1.mpr ⟨Nat.le_add_right _ _, by omega⟩, rfl⟩
    · have hsize := (h.sound p hp).elim fun _ hs => hs.2.size
      rw [hmask (List.getElem?_eq_getElem hk), hget, htotal]
      exact BoundedBitset.bits_or ((t.size_locMask pos).trans hsize.symm)

theorem allocAll_cons (g : PdcchGrid) (granted : List (AllocType × Fin 4))
    (call : AllocType × Fin 4) (calls : List (AllocType × Fin 4)) :
    allocAll t g granted (call :: calls) = allocAll t (g.allocDci t call.1 call.2).1
      (if (g.allocDci t call.1 call.2).2 then granted ++ [call] else granted) calls := rfl

theorem Inv.allocAll {granted : List (AllocType × Fin 4)} (h : Inv t g granted)
    (calls : List (AllocType × Fin 4)) :
    Inv t (allocAll t g granted calls).1 (allocAll t g granted calls).2 := by
  induction calls generalizing g granted with
  | nil => exact h
  | cons call calls ih =>
    rw [allocAll_cons]
    by_cases hok : (g.allocDci t call.1 call.2).2 = true
    · rw [if_pos hok]
      exact ih (h.allocDci_granted t _ hok)
    · rw [if_neg hok, h.allocDci_failed t _ (Bool.eq_false_iff.mpr hok)]
      exact ih h

theorem Inv.combinations_pos {granted : List (AllocType × Fin 4)}
    (h : Inv t g granted) (hne : granted ≠ []) : 0 < g.nofAllocCombinations := by
  rcases h.level with ⟨hnil, -, -⟩ | ⟨-, hlt⟩
  · exact absurd hnil hne
  · exact Nat.sub_pos_of_lt hlt

theorem Inv.getAllocs {granted : List (AllocType × Fin 4)} (h : Inv t g granted)
    (totMask : PdcchMask) {idx : ℕ} (hidx : idx < g.nofAllocCombinations) :
    ∃ allocs mask, g.getAllocs totMask idx = some (allocs, mask) ∧
      Serves t granted allocs mask := by
  unfold nofAllocCombinations at hidx
  have hp : some (g.prevStart + idx) ∈ g.parents := by
    unfold parents
    rw [if_pos (by omega)]
    exact List.mem_map.mpr ⟨_, List.mem_range'_1.mpr ⟨Nat.le_add_right _ _, by omega⟩, rfl⟩
  obtain ⟨allocs, hbranch, hserves⟩ := h.sound _ hp
  have hlt : g.prevStart + idx < g.dciAllocTree.length := by
    rw [h.length]
    omega
  have hnode := List.getElem?_eq_getElem hlt
  refine ⟨allocs, _, ?_, hserves⟩
  unfold PdcchGrid.getAllocs
  rw [if_neg (by omega), show walkUp _ _ _ = _ from hbranch, hnode]
  change some (allocs.reverse.reverse, _) = some (allocs, (g.dciAllocTree[_]?.map _).getD _)
  rw [List.reverse_reverse, hnode]
  rfl

/-- For every sequence of `alloc_dci` calls in a subframe: the next call succeeds iff there is a
disjoint assignment of candidates that do not collide with the SR of their user; each alternative
stored serves the DCIs granted so far; a failed call changes nothing. -/
theorem allocDci_sound_complete (calls : List (AllocType × Fin 4)) :
    let (g, granted) := allocAll t init [] calls
    (∀ call, (g.allocDci t call.1 call.2).2 = true ↔
        ∃ ps, t.IsDciAssignment (granted ++ [call]) ps) ∧
      (granted ≠ [] → 0 < g.nofAllocCombinations) ∧
      (∀ totMask, ∀ idx < g.nofAllocCombinations, ∃ allocs mask,
        g.getAllocs totMask idx = some (allocs, mask) ∧ Serves t granted allocs mask) ∧
      ∀ call : AllocType × Fin 4, (g.allocDci t call.1 call.2).2 = false →
        (g.allocDci t call.1 call.2).1 = g := by
  have h := (inv_init t).allocAll t calls
  exact ⟨h.allocDci_iff t, h.combinations_pos t, fun totMask idx hidx => h.getAllocs t totMask hidx,
    fun call hfail => h.allocDci_failed t call hfail⟩

theorem Inv.exists_assignment {granted : List (AllocType × Fin 4)} (h : Inv t g granted) :
    ∃ ps, t.IsDciAssignment granted ps := by
  rcases h.level with ⟨rfl, -, -⟩ | ⟨-, hlt⟩
  · exact ⟨[], isAssignment_nil⟩
  · obtain ⟨_, _, -, hserves⟩ := h.getAllocs t t.emptyMask (Nat.sub_pos_of_lt hlt)
    exact ⟨_, hserves.assignment⟩

theorem Inv.allocAll_granted {granted calls : List (AllocType × Fin 4)} (h : Inv t g granted)
    {ps : List DciLocation} (hps : t.IsDciAssignment (granted ++ calls) ps) :
    (PdcchGrid.allocAll t g granted calls).2 = granted ++ calls := by
  induction calls generalizing g granted with
  | nil => exact (List.append_nil _).symm
  | cons call calls ih =>
    rw [List.append_cons] at hps ⊢
    have hok := (h.allocDci_iff t call).mpr
      (hps.subperm (List.sublist_append_left _ _).subperm)
    rw [allocAll_cons, if_pos hok]
    exact ih (h.allocDci_granted t call hok) hps

/-- The order of the calls does not matter, nor do calls that are left out: if all of `calls` are
granted in a subframe, so are those among them in any order. -/
theorem allocAll_of_subperm {calls calls' : List (AllocType × Fin 4)} (hsub : calls'.Subperm calls)
    (hall : (allocAll t init [] calls).2 = calls) : (allocAll t init [] calls').2 = calls' := by
  obtain ⟨ps, hps⟩ := ((inv_init t).allocAll t calls).exists_assignment
  rw [hall] at hps
  obtain ⟨ps', hps'⟩ := hps.subperm hsub
  exact (inv_init t).allocAll_granted t hps'

def firstCce : SchedDciCce where
  cceStart := fun _ _ => 0
  nofLoc := fun l => if l = 0 then 1 else 0

def srUser : SchedUe where
  rnti := 70
  dciLocations := fun _ _ => firstCce
  phyConfigDedicatedEnabled := true
  pucchCfg := { nPucch1 := 12, iSr := 157, srConfigured := true, nPucchSr := 12 }

def eightCces : PdcchTti where
  params := { commonLocations := fun _ => firstCce, rarLocations := fun _ _ => firstCce,
              nofCceTable := fun _ => 8 }
  ttiRx := 0
  currentCfix := 0

/-- A user whose candidates are the first two CCEs. -/
def twoCces : SchedUe where
  rnti := 71
  dciLocations := fun _ _ => ⟨fun _ i => i, fun l => if l = 0 then 2 else 0⟩
  phyConfigDedicatedEnabled := false
  pucchCfg := ⟨0, 0, false, 0⟩

/-- The user gets the second CCE in either order. -/
theorem allocAll_reversed :
    (allocAll eightCces init [] [(.dlPcch, 0), (.ulData twoCces, 0)]).2 =
      [(.dlPcch, 0), (.ulData twoCces, 0)] :=
  allocAll_of_subperm eightCces (List.Perm.swap (AllocType.ulData twoCces, 0) _ []).subperm rfl

/-- Downlink data for this user is refused although its table holds a free candidate. -/
theorem srUser_refused :
    (init.allocDci eightCces (.dlData srUser) 0).2 = false ∧
      IsAssignment eightCces.TableCandidate (fun pos => (eightCces.locMask pos).bits)
        [(.dlData srUser, 0)] [⟨0, 0⟩] := by
  refine ⟨by decide +kernel, List.Forall₂.cons ⟨rfl, ?_⟩ List.Forall₂.nil,
    List.pairwise_singleton _ _⟩
  exact List.mem_singleton_self 0

end PdcchGrid
end SrsLte
