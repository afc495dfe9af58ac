import Mathlib.Data.Set.Insert
import Mathlib.Tactic.IntervalCases
import SrsLte.EventRun
import SrsLte.OrderedMap

/-!
# Paging

`add_paging_id` keeps the identities that the MME pages under their identity index values. In every
TTI `is_paging_opportunity` assembles those that have a paging occasion and removes them; whether
the message is sent is up to the allocation that comes after it.
-/

namespace SrsLte

open EventRun (Along along_congr)

/-- `defaultPagingCycle` is `32 * 2 ^ cycle` radio frames, and `nB` is that many times `2 ^ nb / 32`
for `nb` from `oneThirtySecondT` to `fourT`. -/
structure PcchCfg where
  cycle : Fin 4
  nb : Fin 8

namespace PcchCfg

variable (cfg : PcchCfg)

def T : ℕ := 32 * 2 ^ (cfg.cycle : ℕ)

def Nb : ℕ := cfg.T * 2 ^ (cfg.nb : ℕ) / 32

def N : ℕ := if cfg.T < cfg.Nb then cfg.T else cfg.Nb

def Ns : ℕ := if cfg.Nb / cfg.T > 1 then cfg.Nb / cfg.T else 1

def sfPattern (i j : ℕ) : ℤ :=
  ([[9, 4, -1, 0], [-1, 9, -1, 4], [-1, -1, -1, 5], [-1, -1, -1, 9]].getD i []).getD j (-1)

/-- What the loop of `is_paging_opportunity` checks of an entry. -/
def isDue (tti ueid : ℕ) : Bool :=
  let iS := ueid / cfg.N % cfg.Ns
  let sfIdx := sfPattern (iS % 4) ((cfg.Ns - 1) % 4)
  decide (tti / 10 % cfg.T = cfg.T / cfg.N * (ueid % cfg.N)) && decide (0 ≤ sfIdx) &&
    decide (sfIdx.toNat = tti % 10)

/-- The table of TS 36.304, section 7.2. -/
def poSubframe : ℕ → ℕ → Option ℕ
  | 1, 0 => some 9
  | 2, 0 => some 4
  | 2, 1 => some 9
  | 4, 0 => some 0
  | 4, 1 => some 4
  | 4, 2 => some 5
  | 4, 3 => some 9
  | _, _ => none

/-- TS 36.304, section 7.1. -/
def Occasion (tti ueid : ℕ) : Prop :=
  let n := min cfg.T cfg.Nb
  let ns := max 1 (cfg.Nb / cfg.T)
  tti / 10 % cfg.T = cfg.T / n * (ueid % n) ∧ poSubframe ns (ueid / n % ns) = some (tti % 10)

theorem sfPattern_iff {ns i sf : ℕ} (hns : ns = 1 ∨ ns = 2 ∨ ns = 4) (hi : i < ns) :
    0 ≤ sfPattern (i % 4) ((ns - 1) % 4) ∧ (sfPattern (i % 4) ((ns - 1) % 4)).toNat = sf ↔
      poSubframe ns i = some sf := by
  rcases hns with rfl | rfl | rfl <;> interval_cases i <;> simp [sfPattern, poSubframe]

theorem isDue_iff (tti ueid : ℕ) : cfg.isDue tti ueid = true ↔ cfg.Occasion tti ueid := by
  have hN : cfg.N = min cfg.T cfg.Nb := by
    unfold N
    split_ifs <;> omega
  have hNs : cfg.Ns = max 1 (cfg.Nb / cfg.T) := by
    unfold Ns
    split_ifs <;> omega
  have hcases : cfg.Ns = 1 ∨ cfg.Ns = 2 ∨ cfg.Ns = 4 := by
    have : ∀ cycle nb, Ns ⟨cycle, nb⟩ = 1 ∨ Ns ⟨cycle, nb⟩ = 2 ∨ Ns ⟨cycle, nb⟩ = 4 := by decide
    exact this cfg.cycle cfg.nb
  have hi : ueid / cfg.N % cfg.Ns < cfg.Ns := Nat.mod_lt _ (by omega)
  unfold isDue Occasion
  dsimp only
  rw [Bool.and_eq_true, Bool.and_eq_true, decide_eq_true_iff, decide_eq_true_iff,
    decide_eq_true_iff, and_assoc, sfPattern_iff hcases hi, hN, hNs]

end PcchCfg

/-- The identity in a paging request, the octets of the M-TMSI as a number. -/
inductive UePagingId
  | imsi (octets : List ℕ)
  | sTmsi (mmec mTmsi : ℕ)

/-- The identity in a record of a PCCH message. -/
inductive PagingUeId
  | imsi (digits : List ℕ)
  | sTmsi (mmec mTmsi : ℕ)

namespace UePagingId

def pagingElem : UePagingId → PagingUeId
  | imsi octets => .imsi octets
  | sTmsi mmec mTmsi => .sTmsi mmec mTmsi

/-- The identity that is meant. An octet of an IMSI has two digits, or one and a filler. -/
def ueId : UePagingId → PagingUeId
  | imsi octets => .imsi (octets.flatMap fun o => [o % 16, o / 16].filter (· ≠ 15))
  | sTmsi mmec mTmsi => .sTmsi mmec mTmsi

end UePagingId

/-- `waiting` are the identities that were requested and not sent since. -/
structure PagingRun where
  pendingPaging : OrderedMap ℕ UePagingId := .empty
  waiting : Set (ℕ × PagingUeId) := ∅

/-- Whether the allocation of a message succeeds, if there is one. -/
inductive PagingEvent
  | request (ueid : Fin 1024) (id : UePagingId)
  | tti (tti : Fin 10240) (allocated : Bool)

namespace PagingRun

open PcchCfg OrderedMap

/-- The loop of `is_paging_opportunity` after `n` records. -/
def assemble {β : Type} (due : ℕ → Bool) : ℕ → List (ℕ × β) → List (ℕ × β)
  | _, [] => []
  | n, item :: items =>
    if n ≥ 16 then []
    else if due item.1 then item :: assemble due (n + 1) items
    else assemble due n items

def isPagingOpportunity (cfg : PcchCfg) (pending : OrderedMap ℕ UePagingId) (tti : ℕ) :
    List (ℕ × UePagingId) × OrderedMap ℕ UePagingId :=
  let records := assemble (cfg.isDue tti) 0 pending.entries
  (records, (records.map Prod.fst).foldl OrderedMap.erase pending)

def addPagingId (pending : OrderedMap ℕ UePagingId) (ueid : ℕ) (id : UePagingId) :
    OrderedMap ℕ UePagingId :=
  pending.emplace ueid id

/-- What a message says. -/
def sent (records : List (ℕ × UePagingId)) : Set (ℕ × PagingUeId) :=
  {x | ∃ id, (x.1, id) ∈ records ∧ id.pagingElem = x.2}

def step (cfg : PcchCfg) (r : PagingRun) : PagingEvent → PagingRun
  | .request ueid id => ⟨addPagingId r.pendingPaging ueid id, insert (↑ueid, id.ueId) r.waiting⟩
  | .tti tti allocated =>
    let (records, pending) := isPagingOpportunity cfg r.pendingPaging tti
    ⟨pending, if allocated then r.waiting \ sent records else r.waiting⟩

/-- The identities that RRC will page are those that wait. -/
def Faithful (r : PagingRun) : Prop :=
  ∀ ueid id, (ueid, id) ∈ r.waiting ↔
    ∃ u, r.pendingPaging.find? ueid = some u ∧ u.pagingElem = id

/-- Nobody is forgotten or paged again. A message has at most 16 records of different UEs, at their
occasions, and leaves nobody else with an occasion unless it is full. -/
def Pages (cfg : PcchCfg) (r : PagingRun) (e : PagingEvent) : Prop :=
  (step cfg r e).Faithful ∧ match e with
    | .request .. => True
    | .tti tti _ =>
      let (records, pending) := isPagingOpportunity cfg r.pendingPaging tti
      (records.length ≤ 16 ∧ (records.map Prod.fst).Nodup ∧
        ∀ x ∈ records, cfg.Occasion tti x.1 ∧ (x.1, x.2.pagingElem) ∈ r.waiting) ∧
      (records.length < 16 → ∀ x ∈ pending.entries, ¬ cfg.Occasion tti x.1)

/-- What is kept for the index pages this UE, and nobody is due without an allocation. -/
def Fits (cfg : PcchCfg) (r : PagingRun) : PagingEvent → Prop
  | .request ueid id => ((r.pendingPaging.find? ueid).getD id).pagingElem = id.ueId
  | .tti tti allocated => allocated = true ∨
      ∀ ueid id, r.pendingPaging.find? ueid = some id → ¬ cfg.Occasion tti ueid

variable {cfg : PcchCfg} {r : PagingRun} {tti : ℕ}

theorem assemble_eq {β : Type} (due : ℕ → Bool) (n : ℕ) (items : List (ℕ × β)) :
    assemble due n items = (items.filter fun x => due x.1).take (16 - n) := by
  induction items generalizing n with
  | nil => rw [assemble, List.filter_nil, List.take_nil]
  | cons item items ih =>
    rw [assemble]
    split_ifs with hn hdue
    · rw [Nat.sub_eq_zero_of_le hn, List.take_zero]
    · rw [ih, List.filter_cons, if_pos hdue, show 16 - n = 16 - (n + 1) + 1 by omega,
        List.take_succ_cons]
    · rw [ih, List.filter_cons, if_neg hdue]

theorem find?_foldl_erase {β : Type} (keys : List ℕ) (m : OrderedMap ℕ β) (k : ℕ) :
    (keys.foldl OrderedMap.erase m).find? k = if k ∈ keys then none else m.find? k := by
  induction keys generalizing m with
  | nil => simp
  | cons key keys ih =>
    rw [List.foldl_cons, ih, find?_erase]
    by_cases hk : k = key <;> simp [hk]

theorem mem_records {x : ℕ × UePagingId}
    (hx : x ∈ (isPagingOpportunity cfg r.pendingPaging tti).1) :
    r.pendingPaging.find? x.1 = some x.2 ∧ cfg.Occasion tti x.1 := by
  unfold isPagingOpportunity at hx
  rw [assemble_eq] at hx
  obtain ⟨hmem, hdue⟩ := List.mem_filter.mp (List.mem_of_mem_take hx)
  exact ⟨find?_eq_some_iff.mpr hmem, (cfg.isDue_iff _ _).mp hdue⟩

theorem nodup_records :
    ((isPagingOpportunity cfg r.pendingPaging tti).1.map Prod.fst).Nodup := by
  unfold isPagingOpportunity
  rw [assemble_eq]
  refine List.Pairwise.imp (fun h => Nat.ne_of_lt h) (List.pairwise_map.mpr ?_)
  exact r.pendingPaging.sorted.sublist ((List.take_sublist _ _).trans List.filter_sublist)

theorem mem_keys_iff {ueid : ℕ} {id : UePagingId} (h : r.pendingPaging.find? ueid = some id) :
    ueid ∈ (isPagingOpportunity cfg r.pendingPaging tti).1.map Prod.fst ↔
      (ueid, id) ∈ (isPagingOpportunity cfg r.pendingPaging tti).1 := by
  refine ⟨fun hmem => ?_, fun hmem => List.mem_map.mpr ⟨_, hmem, rfl⟩⟩
  obtain ⟨⟨ueid', id'⟩, hx, rfl⟩ := List.mem_map.mp hmem
  obtain rfl := Option.some.inj ((mem_records hx).1.symm.trans h)
  exact hx

/-- A message that is not full has everybody with an occasion. -/
theorem mem_records_of_occasion {ueid : ℕ} {id : UePagingId}
    (hlen : (isPagingOpportunity cfg r.pendingPaging tti).1.length < 16)
    (h : r.pendingPaging.find? ueid = some id) (hdue : cfg.Occasion tti ueid) :
    (ueid, id) ∈ (isPagingOpportunity cfg r.pendingPaging tti).1 := by
  unfold isPagingOpportunity at hlen ⊢
  rw [assemble_eq, List.length_take] at hlen
  rw [assemble_eq, List.take_of_length_le (by omega)]
  exact List.mem_filter.mpr ⟨find?_eq_some_iff.mp h, (cfg.isDue_iff _ _).mpr hdue⟩

theorem find?_opportunity (ueid : ℕ) :
    (isPagingOpportunity cfg r.pendingPaging tti).2.find? ueid =
      if ueid ∈ (isPagingOpportunity cfg r.pendingPaging tti).1.map Prod.fst then none
      else r.pendingPaging.find? ueid :=
  find?_foldl_erase _ _ _

theorem find?_opportunity_eq_some {ueid : ℕ} {id : UePagingId} :
    (isPagingOpportunity cfg r.pendingPaging tti).2.find? ueid = some id ↔
      r.pendingPaging.find? ueid = some id ∧
        (ueid, id) ∉ (isPagingOpportunity cfg r.pendingPaging tti).1 := by
  rw [find?_opportunity]
  constructor
  · intro h
    split_ifs at h with hmem
    exact ⟨h, mt (mem_keys_iff h).mpr hmem⟩
  · rintro ⟨h, hmem⟩
    rwa [if_neg (mt (mem_keys_iff h).mp hmem)]

theorem faithful_request_iff (h : r.Faithful) (ueid : Fin 1024) (id : UePagingId) :
    (step cfg r (.request ueid id)).Faithful ↔ Fits cfg r (.request ueid id) := by
  have hfind (i : ℕ) : (addPagingId r.pendingPaging ueid id).find? i =
      if i = ueid then some ((r.pendingPaging.find? ueid).getD id)
      else r.pendingPaging.find? i := find?_emplace _ _ _ _
  constructor
  · intro hstep
    obtain ⟨u, hu, hid⟩ := (hstep ueid id.ueId).mp (Set.mem_insert _ _)
    rw [show (step cfg r (.request ueid id)).pendingPaging =
      addPagingId r.pendingPaging ueid id from rfl, hfind, if_pos rfl] at hu
    show ((r.pendingPaging.find? ueid).getD id).pagingElem = id.ueId
    rw [Option.some.inj hu, hid]
  · intro hfits i v
    show (i, v) ∈ insert (↑ueid, id.ueId) r.waiting ↔
      ∃ u, (addPagingId r.pendingPaging ueid id).find? i = some u ∧ _
    change ((r.pendingPaging.find? ueid).getD id).pagingElem = id.ueId at hfits
    rw [Set.mem_insert_iff, h i v, Prod.mk.injEq, hfind]
    by_cases hi : i = ueid
    · subst hi
      cases hold : r.pendingPaging.find? ↑ueid with
      | none =>
        rw [hold, Option.getD_none] at hfits
        simp [hfits, eq_comm]
      | some u =>
        rw [hold, Option.getD_some] at hfits
        simp [hfits, eq_comm]
    · simp [hi]

theorem faithful_tti_iff (h : r.Faithful) (tti : Fin 10240) (allocated : Bool) :
    (step cfg r (.tti tti allocated)).Faithful ↔ Fits cfg r (.tti tti allocated) := by
  cases allocated with
  | true =>
    refine iff_of_true (fun ueid id => ?_) (Or.inl rfl)
    show (ueid, id) ∈ r.waiting \ sent (isPagingOpportunity cfg r.pendingPaging tti).1 ↔
      ∃ u, (isPagingOpportunity cfg r.pendingPaging tti).2.find? ueid = some u ∧ _
    rw [Set.mem_sdiff, h ueid id]
    simp only [find?_opportunity_eq_some]
    constructor
    · rintro ⟨⟨u, hu, rfl⟩, hsent⟩
      exact ⟨u, ⟨hu, fun hmem => hsent ⟨u, hmem, rfl⟩⟩, rfl⟩
    · rintro ⟨u, ⟨hu, hmem⟩, rfl⟩
      refine ⟨⟨u, hu, rfl⟩, fun ⟨u', hmem', _⟩ => hmem ?_⟩
      have hsame := Option.some.inj ((mem_records hmem').1.symm.trans hu)
      exact hsame ▸ hmem'
  | false =>
    have hwaiting : (step cfg r (.tti tti false)).waiting = r.waiting := rfl
    have hpending : (step cfg r (.tti tti false)).pendingPaging =
        (isPagingOpportunity cfg r.pendingPaging tti).2 := rfl
    have hfits : Fits cfg r (.tti tti false) ↔
        ∀ ueid id, r.pendingPaging.find? ueid = some id → ¬ cfg.Occasion tti ueid :=
      or_iff_right Bool.false_ne_true
    unfold Faithful
    rw [hwaiting, hpending, hfits]
    simp only [find?_opportunity_eq_some]
    constructor
    · intro hstep ueid id hid hdue
      have hkept : ∀ x ∈ (isPagingOpportunity cfg r.pendingPaging tti).1, False := by
        rintro ⟨i, u⟩ hx
        obtain ⟨u', ⟨hu', hmem⟩, -⟩ :=
          (hstep i u.pagingElem).mp ((h i _).mpr ⟨u, (mem_records hx).1, rfl⟩)
        obtain rfl := Option.some.inj ((mem_records hx).1.symm.trans hu')
        exact hmem hx
      refine hkept _ (mem_records_of_occasion ?_ hid hdue)
      rw [List.eq_nil_iff_forall_not_mem.mpr hkept]
      exact Nat.zero_lt_succ 15
    · intro hnone ueid id
      rw [h ueid id]
      refine exists_congr fun u => and_congr_left fun _ => ?_
      refine (and_iff_left_of_imp fun hu hmem => ?_).symm
      exact hnone ueid u hu (mem_records hmem).2

theorem pages_iff_fits (r : PagingRun) (e : PagingEvent) (h : r.Faithful) :
    Pages cfg r e ↔ Fits cfg r e := by
  unfold Pages
  cases e with
  | request ueid id => rw [and_iff_left trivial, faithful_request_iff h]
  | tti tti allocated =>
    rw [faithful_tti_iff h]
    refine and_iff_left_of_imp fun _ => ⟨⟨?_, nodup_records, fun x hx => ?_⟩, ?_⟩
    · rw [assemble_eq, List.length_take]
      exact Nat.min_le_left _ _
    · obtain ⟨hfind, hdue⟩ := mem_records hx
      exact ⟨hdue, (h _ _).mpr ⟨_, hfind, rfl⟩⟩
    · intro hlen x hx hdue
      obtain ⟨hfind, hmem⟩ := find?_opportunity_eq_some.mp (find?_eq_some_iff.mpr hx)
      exact hmem (mem_records_of_occasion hlen hfind hdue)

/-- Everybody is paged once and at the right time exactly when every event of the run fits. -/
theorem pages_all_iff (cfg : PcchCfg) (events : List PagingEvent) :
    Along (step cfg) (Pages cfg) {} events ↔ Along (step cfg) (Fits cfg) {} events := by
  refine along_congr (fun _ _ _ hpages => hpages.1) pages_iff_fits fun ueid id => ?_
  exact iff_of_false (Set.notMem_empty _) fun ⟨_, hfind, _⟩ => nomatch hfind

/-- Two UEs with the same index. -/
theorem page_lost :
    ¬ ∀ (cfg : PcchCfg) (events : List PagingEvent), Along (step cfg) (Pages cfg) {} events := by
  intro h
  obtain ⟨-, ⟨hfaithful, -⟩, -⟩ := h ⟨2, 5⟩ [.request 7 (.sTmsi 1 100), .request 7 (.sTmsi 1 200)]
  obtain ⟨u, hu, hid⟩ := (hfaithful 7 (.sTmsi 1 200)).mp (Set.mem_insert _ _)
  obtain rfl := Option.some.inj hu
  exact nomatch hid

end PagingRun

end SrsLte
