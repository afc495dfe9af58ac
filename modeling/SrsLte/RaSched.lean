import SrsLte.EventRun
import Mathlib.Logic.Function.Basic
import Mathlib.Tactic.Common

/-!
# Scheduling of RARs and Msg3

`ra_sched` queues a RAR for each PRACH detected, sends the oldest one in its window, and keeps the
Msg3 that each RAR promises in a ring of `TTIMOD_SZ` slots. Here TTIs are counted on where the
counter of the source wraps at 10240. In each TTI `dl_sched` runs unless the downlink is masked,
and then `ul_sched`.
-/

namespace SrsLte

/-- The part of `cell_cfg_t` that is read; RRC configures windows of at most ten subframes. -/
structure RaSchedCfg where
  prachRarWindow : ℕ
  nrbPucch : ℕ
  nofPrb : ℕ
  window_pos : 0 < prachRarWindow
  window_lt : prachRarWindow < 10240

/-- `dl_sched_rar_info_t`; `prach` is the TTI of the PRACH. -/
structure DlSchedRarInfo where
  preambleIdx : ℕ
  tempCrnti : ℕ
  taCmd : ℕ
  msg3Size : ℕ
  prach : ℕ
  deriving DecidableEq

/-- `prach_tti`. -/
def DlSchedRarInfo.prachTti (rar : DlSchedRarInfo) : ℕ := rar.prach % 10240

/-- The grant of a RAR, with its `data`. -/
structure DlSchedRarGrant where
  tpcPusch : ℕ
  truncMcs : ℕ
  rba : ℕ
  data : DlSchedRarInfo
  deriving DecidableEq

/-- An enabled `pending_msg3_t`, and the PUSCH that is allocated for it. -/
structure PendingMsg3 where
  rnti : ℕ
  L : ℕ
  nPrb : ℕ
  mcs : ℕ
  deriving DecidableEq

/-- `pendingMsg3` has the slots that are enabled. -/
structure RaSched where
  pendingRars : List DlSchedRarInfo
  pendingMsg3 : ℕ → Option PendingMsg3

/-- A detected PRACH, which is at most as old as the number of TTIs, or the next TTI: whether its
downlink may be used, whether `alloc_rar` would succeed, the RNTIs of the users, and whether
`alloc_ul_msg3` would succeed. -/
inductive RaSchedEvent
  | rach (preambleIdx tempCrnti taCmd msg3Size age : ℕ)
  | tti (dlAllowed rarAlloc : Bool) (users : List ℕ) (msg3Alloc : Bool)
  deriving DecidableEq

namespace RaSched

def ttimodSz : ℕ := 20

def txDelay : ℕ := 4

def msg3DelayMs : ℕ := 2

def fddHarqDelayMs : ℕ := 4

/-- `sched_utils::is_in_tti_interval`. -/
def isInTtiInterval (tti tti1 tti2 : ℕ) : Prop :=
  if tti1 % 10240 ≤ tti2 % 10240 then
    tti1 % 10240 ≤ tti % 10240 ∧ tti % 10240 ≤ tti2 % 10240
  else tti1 % 10240 ≤ tti % 10240 ∨ tti % 10240 ≤ tti2 % 10240

instance (tti tti1 tti2 : ℕ) : Decidable (isInTtiInterval tti tti1 tti2) := by
  unfold isInTtiInterval
  infer_instance

/-- `srslte_ra_type2_to_riv`. -/
def type2ToRiv (lCrb rbStart nofPrb : ℕ) : ℕ :=
  if lCrb - 1 ≤ nofPrb / 2 then nofPrb * (lCrb - 1) + rbStart
  else nofPrb * (nofPrb - lCrb + 1) + nofPrb - 1 - rbStart

def msg3LPrb : ℕ := 3

def msg3NPrb (cfg : RaSchedCfg) : ℕ := if cfg.nrbPucch > 0 then cfg.nrbPucch else 2

def rarGrant (cfg : RaSchedCfg) (rar : DlSchedRarInfo) : DlSchedRarGrant where
  tpcPusch := 3
  truncMcs := 0
  rba := type2ToRiv msg3LPrb (msg3NPrb cfg) cfg.nofPrb
  data := rar

/-- "Discard all RARs out of the window. The first one inside the window is scheduled, if we can't
we exit": the RARs left and the one that is sent. -/
def nextRar (cfg : RaSchedCfg) (ttiTxDl : ℕ) (rarAlloc : Bool) :
    List DlSchedRarInfo → List DlSchedRarInfo × Option DlSchedRarInfo
  | [] => ([], none)
  | rar :: rars =>
    if ¬isInTtiInterval ttiTxDl (rar.prachTti + 3) (rar.prachTti + 3 + cfg.prachRarWindow) then
      if ttiTxDl ≥ rar.prachTti + 3 + cfg.prachRarWindow then nextRar cfg ttiTxDl rarAlloc rars
      else (rar :: rars, none)
    else if rarAlloc then (rars, some rar)
    else (rar :: rars, none)

/-- `dl_sched`: the grant of the RAR that is sent. -/
def dlSched (s : RaSched) (cfg : RaSchedCfg) (ttiTxDl : ℕ) (rarAlloc : Bool) :
    RaSched × Option DlSchedRarGrant :=
  match nextRar cfg ttiTxDl rarAlloc s.pendingRars with
  | (rars, none) => ({ s with pendingRars := rars }, none)
  | (rars, some rar) =>
    let grant := rarGrant cfg rar
    ({ pendingRars := rars
       pendingMsg3 := Function.update s.pendingMsg3 ((ttiTxDl + msg3DelayMs + txDelay) % ttimodSz)
        (some ⟨rar.tempCrnti, msg3LPrb, msg3NPrb cfg, grant.truncMcs⟩) }, some grant)

/-- `ul_sched`: the Msg3 that is allocated. -/
def ulSched (s : RaSched) (ttiTxUl : ℕ) (users : List ℕ) (msg3Alloc : Bool) :
    RaSched × Option PendingMsg3 :=
  match s.pendingMsg3 (ttiTxUl % ttimodSz) with
  | none => (s, none)
  | some msg3 =>
    if msg3.rnti ∉ users then (s, none)
    else if ¬msg3Alloc then (s, none)
    else
      ({ s with pendingMsg3 := Function.update s.pendingMsg3 (ttiTxUl % ttimodSz) none }, some msg3)

def dlRachInfo (s : RaSched) (rar : DlSchedRarInfo) : RaSched :=
  { s with pendingRars := s.pendingRars ++ [rar] }

def init : RaSched := ⟨[], fun _ => none⟩

/-- The part of `generate_tti_result` that concerns random access: the RAR that is sent and the Msg3
that is allocated. -/
def ttiResult (s : RaSched) (cfg : RaSchedCfg) (ttiRx : ℕ) (dlAllowed rarAlloc : Bool)
    (users : List ℕ) (msg3Alloc : Bool) : RaSched × Option DlSchedRarGrant × Option PendingMsg3 :=
  let (s, grant) := if dlAllowed then s.dlSched cfg ((ttiRx + txDelay) % 10240) rarAlloc
    else (s, none)
  let (s, msg3) := s.ulSched ((ttiRx + (fddHarqDelayMs + txDelay)) % 10240) users msg3Alloc
  (s, grant, msg3)

end RaSched

/-- A scheduler before the TTI `now`, with the RARs sent so far and the Msg3 allocated so far, each
with the TTI of its transmission. -/
structure RaSchedRun where
  sched : RaSched
  now : ℕ
  rars : List (ℕ × DlSchedRarGrant)
  msg3s : List (ℕ × PendingMsg3)

/-- The window of the RAR has passed: it has that many subframes from the third after the PRACH. -/
def DlSchedRarInfo.Passed (cfg : RaSchedCfg) (tti : ℕ) (rar : DlSchedRarInfo) : Prop :=
  rar.prach + 3 + cfg.prachRarWindow ≤ tti

instance (cfg : RaSchedCfg) (tti : ℕ) : DecidablePred (DlSchedRarInfo.Passed cfg tti) :=
  fun _ => inferInstanceAs (Decidable (_ ≤ _))

def DlSchedRarInfo.InWindow (cfg : RaSchedCfg) (tti : ℕ) (rar : DlSchedRarInfo) : Prop :=
  rar.prach + 3 ≤ tti ∧ tti < rar.prach + 3 + cfg.prachRarWindow

structure DlSchedRarGrant.Promises (cfg : RaSchedCfg) (grant : DlSchedRarGrant)
    (msg3 : PendingMsg3) : Prop where
  prbs : grant.rba = RaSched.type2ToRiv msg3.L msg3.nPrb cfg.nofPrb
  mcs : grant.truncMcs = msg3.mcs
  rnti : grant.data.tempCrnti = msg3.rnti

namespace RaSchedRun

def init (now : ℕ) : RaSchedRun := ⟨.init, now, [], []⟩

def result (s : RaSchedRun) (cfg : RaSchedCfg) (dlAllowed rarAlloc : Bool) (users : List ℕ)
    (msg3Alloc : Bool) : RaSched × Option DlSchedRarGrant × Option PendingMsg3 :=
  s.sched.ttiResult cfg (s.now % 10240) dlAllowed rarAlloc users msg3Alloc

def step (cfg : RaSchedCfg) (s : RaSchedRun) : RaSchedEvent → RaSchedRun
  | .rach preambleIdx tempCrnti taCmd msg3Size age =>
    { s with sched := s.sched.dlRachInfo ⟨preambleIdx, tempCrnti, taCmd, msg3Size, s.now - age⟩ }
  | .tti dlAllowed rarAlloc users msg3Alloc =>
    let (sched, grant, msg3) := s.result cfg dlAllowed rarAlloc users msg3Alloc
    { sched := sched
      now := s.now + 1
      rars := s.rars ++ grant.toList.map fun g => (s.now + RaSched.txDelay, g)
      msg3s := s.msg3s ++
        msg3.toList.map fun m => (s.now + (RaSched.fddHarqDelayMs + RaSched.txDelay), m) }

def Promised (cfg : RaSchedCfg) (s : RaSchedRun) (msg3 : PendingMsg3) : Prop :=
  (∃ x ∈ s.rars, x.1 + RaSched.msg3DelayMs + RaSched.txDelay =
      s.now + (RaSched.fddHarqDelayMs + RaSched.txDelay) ∧ x.2.Promises cfg msg3) ∧
  ∀ x ∈ s.msg3s, x.1 ≠ s.now + (RaSched.fddHarqDelayMs + RaSched.txDelay)

/-- The RARs at the front of the queue whose window has passed are removed, and only these; the one
behind them may be sent, in its window. -/
structure QueueServed (cfg : RaSchedCfg) (s : RaSchedRun) (rars : List DlSchedRarInfo)
    (grant : Option DlSchedRarGrant) : Prop where
  queue : s.sched.pendingRars =
    s.sched.pendingRars.takeWhile (DlSchedRarInfo.Passed cfg (s.now + RaSched.txDelay)) ++
      grant.toList.map DlSchedRarGrant.data ++ rars
  window : ∀ g ∈ grant, g.data.InWindow cfg (s.now + RaSched.txDelay)

def StepSound (cfg : RaSchedCfg) (s : RaSchedRun) : RaSchedEvent → Prop
  | .rach _ _ _ _ _ => True
  | .tti dlAllowed rarAlloc users msg3Alloc =>
    (∀ msg3 ∈ (s.result cfg dlAllowed rarAlloc users msg3Alloc).2.2, s.Promised cfg msg3) ∧
      (dlAllowed = true → QueueServed cfg s
        (s.result cfg dlAllowed rarAlloc users msg3Alloc).1.pendingRars
        (s.result cfg dlAllowed rarAlloc users msg3Alloc).2.1)

/-- No Msg3 left from an earlier TTI finds its user and the resources; and where the window of a RAR
has passed, it did so before this TTI and the TTI counter has not wrapped since the PRACH. -/
def Meets (cfg : RaSchedCfg) (s : RaSchedRun) : RaSchedEvent → Prop
  | .rach _ _ _ _ _ => True
  | .tti dlAllowed _ users msg3Alloc =>
    (∀ msg3, s.sched.pendingMsg3 ((s.now + (RaSched.fddHarqDelayMs + RaSched.txDelay)) %
        RaSched.ttimodSz) = some msg3 →
      msg3.rnti ∈ users → msg3Alloc = true →
      ∃ x ∈ s.rars, x.1 + RaSched.msg3DelayMs + RaSched.txDelay =
        s.now + (RaSched.fddHarqDelayMs + RaSched.txDelay)) ∧
    (dlAllowed = true → ∀ rar ∈ s.sched.pendingRars.takeWhile
        (DlSchedRarInfo.Passed cfg (s.now + RaSched.txDelay)),
      rar.prachTti + 3 + cfg.prachRarWindow < (s.now + RaSched.txDelay) % 10240)

variable {cfg : RaSchedCfg} {tti : ℕ}

theorem isInTtiInterval_of_window {rar : DlSchedRarInfo} (hafter : rar.prach + 3 ≤ tti)
    (hbefore : tti < rar.prach + 3 + cfg.prachRarWindow) :
    RaSched.isInTtiInterval (tti % 10240) (rar.prachTti + 3)
      (rar.prachTti + 3 + cfg.prachRarWindow) := by
  have hlt := cfg.window_lt
  unfold RaSched.isInTtiInterval DlSchedRarInfo.prachTti
  split_ifs <;> omega

theorem discarded_iff {rar : DlSchedRarInfo} :
    (¬RaSched.isInTtiInterval (tti % 10240) (rar.prachTti + 3)
        (rar.prachTti + 3 + cfg.prachRarWindow) ∧
      tti % 10240 ≥ rar.prachTti + 3 + cfg.prachRarWindow) ↔
      rar.prachTti + 3 + cfg.prachRarWindow < tti % 10240 := by
  have hlt := cfg.window_lt
  unfold RaSched.isInTtiInterval DlSchedRarInfo.prachTti
  split_ifs <;> omega

theorem nextRar_iff (rarAlloc : Bool) (queue : List DlSchedRarInfo)
    (hqueue : ∀ rar ∈ queue, rar.prach + 3 ≤ tti) :
    (queue = queue.takeWhile (DlSchedRarInfo.Passed cfg tti) ++
          (RaSched.nextRar cfg (tti % 10240) rarAlloc queue).2.toList ++
          (RaSched.nextRar cfg (tti % 10240) rarAlloc queue).1 ∧
        ∀ rar ∈ (RaSched.nextRar cfg (tti % 10240) rarAlloc queue).2, rar.InWindow cfg tti) ↔
      ∀ rar ∈ queue.takeWhile (DlSchedRarInfo.Passed cfg tti),
        rar.prachTti + 3 + cfg.prachRarWindow < tti % 10240 := by
  induction queue with
  | nil => exact iff_of_true ⟨rfl, nofun⟩ nofun
  | cons rar rars ih =>
    obtain ⟨hafter, hqueue⟩ := List.forall_mem_cons.mp hqueue
    have hrest := ih hqueue
    rw [RaSched.nextRar]
    by_cases hpassed : rar.Passed cfg tti
    · rw [List.takeWhile_cons_of_pos (by simpa using hpassed)]
      by_cases hbehind : rar.prachTti + 3 + cfg.prachRarWindow < tti % 10240
      · obtain ⟨hout, hge⟩ := discarded_iff.2 hbehind
        rw [if_pos hout, if_pos hge, List.forall_mem_cons, and_iff_right hbehind, ← hrest,
          List.cons_append, List.cons_append, List.cons.injEq, and_iff_right rfl]
      · -- the RAR stays in the queue, or it is sent behind its window
        refine iff_of_false (fun h => ?_) fun h => hbehind (h rar List.mem_cons_self)
        have hlength := congrArg List.length h.1
        by_cases hin : RaSched.isInTtiInterval (tti % 10240) (rar.prachTti + 3)
            (rar.prachTti + 3 + cfg.prachRarWindow)
        · rw [if_neg (not_not.2 hin)] at hlength
          cases rarAlloc <;> simp at hlength <;> omega
        · rw [if_pos hin, if_neg fun hge => hbehind (discarded_iff.1 ⟨hin, hge⟩)] at hlength
          simp at hlength
          omega
    · rw [List.takeWhile_cons_of_neg (by simpa using hpassed)]
      have hwindow : rar.InWindow cfg tti := ⟨hafter, Nat.not_le.1 hpassed⟩
      rw [if_neg (not_not.2 (isInTtiInterval_of_window hafter (Nat.not_le.1 hpassed)))]
      cases rarAlloc with
      | true => exact iff_of_true ⟨rfl, fun r hr => by cases hr; exact hwindow⟩ nofun
      | false => exact iff_of_true ⟨rfl, nofun⟩ nofun

structure Consistent (cfg : RaSchedCfg) (s : RaSchedRun) : Prop where
  prach_le : ∀ rar ∈ s.sched.pendingRars, rar.prach ≤ s.now
  rars_lt : ∀ x ∈ s.rars, x.1 < s.now + RaSched.txDelay
  msg3s_lt : ∀ x ∈ s.msg3s, x.1 < s.now + (RaSched.fddHarqDelayMs + RaSched.txDelay)
  promised : ∀ x ∈ s.rars,
    s.now + (RaSched.fddHarqDelayMs + RaSched.txDelay) ≤
        x.1 + RaSched.msg3DelayMs + RaSched.txDelay →
      ∃ msg3, s.sched.pendingMsg3
          ((x.1 + RaSched.msg3DelayMs + RaSched.txDelay) % RaSched.ttimodSz) = some msg3 ∧
        x.2.Promises cfg msg3

theorem consistent_init (cfg : RaSchedCfg) (now : ℕ) : Consistent cfg (init now) :=
  ⟨nofun, nofun, nofun, nofun⟩

theorem nextRar_subset (ttiTxDl : ℕ) (rarAlloc : Bool) (queue : List DlSchedRarInfo) :
    (RaSched.nextRar cfg ttiTxDl rarAlloc queue).1 ⊆ queue := by
  induction queue with
  | nil => exact List.Subset.refl _
  | cons rar rars ih =>
    rw [RaSched.nextRar]
    split_ifs
    · exact List.subset_cons_self rar rars
    · exact List.Subset.refl _
    · exact List.subset_cons_of_subset rar ih
    · exact List.Subset.refl _

variable {s : RaSchedRun}

theorem dlSched_cases (sched : RaSched) (ttiTxDl : ℕ) (rarAlloc : Bool) :
    (sched.dlSched cfg ttiTxDl rarAlloc).1.pendingRars =
        (RaSched.nextRar cfg ttiTxDl rarAlloc sched.pendingRars).1 ∧
      (sched.dlSched cfg ttiTxDl rarAlloc).2 =
        (RaSched.nextRar cfg ttiTxDl rarAlloc sched.pendingRars).2.map (RaSched.rarGrant cfg) ∧
      (sched.dlSched cfg ttiTxDl rarAlloc).1.pendingMsg3 =
        match (sched.dlSched cfg ttiTxDl rarAlloc).2 with
        | none => sched.pendingMsg3
        | some grant => Function.update sched.pendingMsg3
            ((ttiTxDl + RaSched.msg3DelayMs + RaSched.txDelay) % RaSched.ttimodSz)
            (some ⟨grant.data.tempCrnti, RaSched.msg3LPrb, RaSched.msg3NPrb cfg,
              grant.truncMcs⟩) := by
  unfold RaSched.dlSched
  generalize RaSched.nextRar cfg ttiTxDl rarAlloc sched.pendingRars = next
  obtain ⟨rars, _ | rar⟩ := next
  · exact ⟨rfl, rfl, rfl⟩
  · exact ⟨rfl, rfl, rfl⟩

theorem ulSched_cases (sched : RaSched) (ttiTxUl : ℕ) (users : List ℕ) (msg3Alloc : Bool) :
    (sched.ulSched ttiTxUl users msg3Alloc).1.pendingRars = sched.pendingRars ∧
      (∀ i, i ≠ ttiTxUl % RaSched.ttimodSz →
        (sched.ulSched ttiTxUl users msg3Alloc).1.pendingMsg3 i = sched.pendingMsg3 i) ∧
      ∀ msg3, (sched.ulSched ttiTxUl users msg3Alloc).2 = some msg3 ↔
        sched.pendingMsg3 (ttiTxUl % RaSched.ttimodSz) = some msg3 ∧ msg3.rnti ∈ users ∧
          msg3Alloc = true := by
  unfold RaSched.ulSched
  cases hslot : sched.pendingMsg3 (ttiTxUl % RaSched.ttimodSz) with
  | none => exact ⟨rfl, fun _ _ => rfl, fun _ => iff_of_false nofun fun h => by cases h.1⟩
  | some msg3 =>
    dsimp only
    by_cases huser : msg3.rnti ∈ users
    · rw [if_neg (not_not.2 huser)]
      cases msg3Alloc with
      | true =>
        rw [if_neg (not_not.2 rfl)]
        refine ⟨rfl, fun i hi => Function.update_of_ne hi _ _, fun m => ?_⟩
        constructor
        · intro h
          cases h
          exact ⟨rfl, huser, rfl⟩
        · exact fun h => h.1
      | false =>
        rw [if_pos Bool.false_ne_true]
        exact ⟨rfl, fun _ _ => rfl, fun _ => iff_of_false nofun fun h => by cases h.2.2⟩
    · rw [if_pos huser]
      refine ⟨rfl, fun _ _ => rfl, fun m => iff_of_false nofun fun h => ?_⟩
      cases h.1
      exact huser h.2.1

def downlink (s : RaSchedRun) (cfg : RaSchedCfg) (dlAllowed rarAlloc : Bool) :
    RaSched × Option DlSchedRarGrant :=
  if dlAllowed then
    s.sched.dlSched cfg ((s.now % 10240 + RaSched.txDelay) % 10240) rarAlloc
  else (s.sched, none)

theorem result_eq (s : RaSchedRun) (cfg : RaSchedCfg) (dlAllowed rarAlloc : Bool) (users : List ℕ)
    (msg3Alloc : Bool) :
    s.result cfg dlAllowed rarAlloc users msg3Alloc =
      (((s.downlink cfg dlAllowed rarAlloc).1.ulSched
          ((s.now % 10240 + (RaSched.fddHarqDelayMs + RaSched.txDelay)) % 10240) users msg3Alloc).1,
        (s.downlink cfg dlAllowed rarAlloc).2,
        ((s.downlink cfg dlAllowed rarAlloc).1.ulSched
          ((s.now % 10240 + (RaSched.fddHarqDelayMs + RaSched.txDelay)) % 10240) users
          msg3Alloc).2) := rfl

theorem downlink_slots (s : RaSchedRun) (cfg : RaSchedCfg) (dlAllowed rarAlloc : Bool) :
    (∀ grant, (s.downlink cfg dlAllowed rarAlloc).2 = some grant →
      ∃ msg3, (s.downlink cfg dlAllowed rarAlloc).1.pendingMsg3 ((s.now + 10) % 20) = some msg3 ∧
        grant.Promises cfg msg3) ∧
      ∀ i, i ≠ (s.now + 10) % 20 →
        (s.downlink cfg dlAllowed rarAlloc).1.pendingMsg3 i = s.sched.pendingMsg3 i := by
  unfold downlink
  cases dlAllowed with
  | false => exact ⟨nofun, fun _ _ => rfl⟩
  | true =>
    rw [if_pos rfl]
    obtain ⟨-, hgrant, hslots⟩ := @dlSched_cases cfg s.sched
      ((s.now % 10240 + RaSched.txDelay) % 10240) rarAlloc
    have hslot : ((s.now % 10240 + RaSched.txDelay) % 10240 + RaSched.msg3DelayMs +
        RaSched.txDelay) % RaSched.ttimodSz = (s.now + 10) % 20 := by
      unfold RaSched.txDelay RaSched.msg3DelayMs RaSched.ttimodSz
      omega
    rw [hslot] at hslots
    rw [hslots]
    constructor
    · intro grant hsome
      rw [hsome] at hgrant
      obtain ⟨rar, -, rfl⟩ := Option.map_eq_some_iff.1 hgrant.symm
      rw [hsome]
      exact ⟨_, Function.update_self _ _ _, ⟨rfl, rfl, rfl⟩⟩
    · intro i hi
      cases (s.sched.dlSched cfg ((s.now % 10240 + RaSched.txDelay) % 10240) rarAlloc).2 with
      | none => rfl
      | some grant => exact Function.update_of_ne hi _ _

variable {dlAllowed rarAlloc msg3Alloc : Bool} {users : List ℕ}

theorem msg3_iff (msg3 : PendingMsg3) :
    (s.result cfg dlAllowed rarAlloc users msg3Alloc).2.2 = some msg3 ↔
      s.sched.pendingMsg3 ((s.now + (RaSched.fddHarqDelayMs + RaSched.txDelay)) %
          RaSched.ttimodSz) = some msg3 ∧ msg3.rnti ∈ users ∧ msg3Alloc = true := by
  have hslot : (s.now % 10240 + (RaSched.fddHarqDelayMs + RaSched.txDelay)) % 10240 %
      RaSched.ttimodSz = (s.now + (RaSched.fddHarqDelayMs + RaSched.txDelay)) %
        RaSched.ttimodSz := by
    unfold RaSched.fddHarqDelayMs RaSched.txDelay RaSched.ttimodSz
    omega
  have hother : (s.now + (RaSched.fddHarqDelayMs + RaSched.txDelay)) % RaSched.ttimodSz ≠
      (s.now + 10) % 20 := by
    unfold RaSched.fddHarqDelayMs RaSched.txDelay RaSched.ttimodSz
    omega
  rw [result_eq]
  dsimp only
  rw [(ulSched_cases _ _ users msg3Alloc).2.2 msg3, hslot,
    (downlink_slots s cfg dlAllowed rarAlloc).2 _ hother]

theorem promised_iff (hcons : s.Consistent cfg) :
    (∀ msg3 ∈ (s.result cfg dlAllowed rarAlloc users msg3Alloc).2.2, s.Promised cfg msg3) ↔
      ∀ msg3, s.sched.pendingMsg3 ((s.now + (RaSched.fddHarqDelayMs + RaSched.txDelay)) %
          RaSched.ttimodSz) = some msg3 → msg3.rnti ∈ users → msg3Alloc = true →
        ∃ x ∈ s.rars, x.1 + RaSched.msg3DelayMs + RaSched.txDelay =
          s.now + (RaSched.fddHarqDelayMs + RaSched.txDelay) := by
  constructor
  · intro h msg3 hslot huser halloc
    obtain ⟨⟨x, hx, htti, -⟩, -⟩ := h msg3 ((msg3_iff msg3).2 ⟨hslot, huser, halloc⟩)
    exact ⟨x, hx, htti⟩
  · intro h msg3 hmsg3
    obtain ⟨hslot, huser, halloc⟩ := (msg3_iff msg3).1 hmsg3
    obtain ⟨x, hx, htti⟩ := h msg3 hslot huser halloc
    obtain ⟨m, hm, hpromises⟩ := hcons.promised x hx (Nat.le_of_eq htti.symm)
    rw [htti, hslot] at hm
    cases hm
    exact ⟨⟨x, hx, htti, hpromises⟩, fun y hy => Nat.ne_of_lt (hcons.msg3s_lt y hy)⟩

theorem queueServed_iff (hcons : s.Consistent cfg) (hdl : dlAllowed = true) :
    QueueServed cfg s (s.result cfg dlAllowed rarAlloc users msg3Alloc).1.pendingRars
        (s.result cfg dlAllowed rarAlloc users msg3Alloc).2.1 ↔
      ∀ rar ∈ s.sched.pendingRars.takeWhile
          (DlSchedRarInfo.Passed cfg (s.now + RaSched.txDelay)),
        rar.prachTti + 3 + cfg.prachRarWindow < (s.now + RaSched.txDelay) % 10240 := by
  have hafter : ∀ rar ∈ s.sched.pendingRars, rar.prach + 3 ≤ s.now + RaSched.txDelay := by
    intro rar hrar
    have hle := hcons.prach_le rar hrar
    unfold RaSched.txDelay
    omega
  have htti : (s.now % 10240 + RaSched.txDelay) % 10240 = (s.now + RaSched.txDelay) % 10240 :=
    Nat.mod_add_mod s.now 10240 RaSched.txDelay
  obtain ⟨hrars, hgrant, -⟩ := @dlSched_cases cfg s.sched
    ((s.now + RaSched.txDelay) % 10240) rarAlloc
  rw [← nextRar_iff rarAlloc s.sched.pendingRars hafter, result_eq]
  dsimp only
  rw [(ulSched_cases _ _ users msg3Alloc).1, downlink, hdl, if_pos rfl, htti, hrars, hgrant]
  generalize RaSched.nextRar cfg ((s.now + RaSched.txDelay) % 10240) rarAlloc
    s.sched.pendingRars = next
  obtain ⟨rars, _ | rar⟩ := next
  · exact ⟨fun h => ⟨h.queue, nofun⟩, fun h => ⟨h.1, nofun⟩⟩
  · exact ⟨fun h => ⟨h.queue, fun r hr => by cases hr; exact h.window _ rfl⟩,
      fun h => ⟨h.1, fun g hg => by cases hg; exact h.2 rar rfl⟩⟩

theorem stepSound_iff (hcons : s.Consistent cfg) (e : RaSchedEvent) :
    s.StepSound cfg e ↔ s.Meets cfg e := by
  cases e with
  | rach preambleIdx tempCrnti taCmd msg3Size age => exact Iff.rfl
  | tti dlAllowed rarAlloc users msg3Alloc =>
    exact and_congr (promised_iff hcons) (forall_congr' fun hdl => queueServed_iff hcons hdl)

theorem downlink_subset (s : RaSchedRun) (cfg : RaSchedCfg) (dlAllowed rarAlloc : Bool) :
    (s.downlink cfg dlAllowed rarAlloc).1.pendingRars ⊆ s.sched.pendingRars := by
  unfold downlink
  cases dlAllowed with
  | false => exact List.Subset.refl _
  | true =>
    rw [if_pos rfl, (dlSched_cases _ _ rarAlloc).1]
    exact nextRar_subset _ _ _

theorem result_slot {i : ℕ} (hi : i ≠ (s.now + 8) % 20) :
    (s.result cfg dlAllowed rarAlloc users msg3Alloc).1.pendingMsg3 i =
      (s.downlink cfg dlAllowed rarAlloc).1.pendingMsg3 i := by
  have hslot : (s.now % 10240 + (RaSched.fddHarqDelayMs + RaSched.txDelay)) % 10240 %
      RaSched.ttimodSz = (s.now + 8) % 20 := by
    unfold RaSched.fddHarqDelayMs RaSched.txDelay RaSched.ttimodSz
    omega
  rw [result_eq]
  exact (ulSched_cases _ _ users msg3Alloc).2.1 i (by rw [hslot]; exact hi)

theorem Consistent.step_tti (hcons : s.Consistent cfg) :
    (s.step cfg (.tti dlAllowed rarAlloc users msg3Alloc)).Consistent cfg where
  prach_le := by
    intro rar hrar
    have hsub := downlink_subset s cfg dlAllowed rarAlloc
    rw [← (ulSched_cases _ _ users msg3Alloc).1] at hsub
    exact Nat.le_succ_of_le (hcons.prach_le rar (hsub hrar))
  rars_lt := by
    intro x hx
    rcases List.mem_append.1 hx with hx | hx
    · exact Nat.lt_of_lt_of_le (hcons.rars_lt x hx) (Nat.add_le_add_right (Nat.le_succ _) _)
    · obtain ⟨g, -, rfl⟩ := List.mem_map.1 hx
      exact Nat.add_lt_add_right (Nat.lt_succ_self _) _
  msg3s_lt := by
    intro x hx
    rcases List.mem_append.1 hx with hx | hx
    · exact Nat.lt_of_lt_of_le (hcons.msg3s_lt x hx) (Nat.add_le_add_right (Nat.le_succ _) _)
    · obtain ⟨g, -, rfl⟩ := List.mem_map.1 hx
      exact Nat.add_lt_add_right (Nat.lt_succ_self _) _
  promised := by
    intro x hx hdue
    change s.now + 1 + 8 ≤ x.1 + 2 + 4 at hdue
    obtain ⟨hnew, hold⟩ := downlink_slots s cfg dlAllowed rarAlloc
    change ∃ msg3, (s.result cfg dlAllowed rarAlloc users msg3Alloc).1.pendingMsg3
      ((x.1 + 2 + 4) % 20) = some msg3 ∧ x.2.Promises cfg msg3
    rcases List.mem_append.1 hx with hx | hx
    · -- a RAR of the TTI before
      have hlt : x.1 < s.now + 4 := hcons.rars_lt x hx
      rw [result_slot (by omega), hold _ (by omega)]
      refine hcons.promised x hx ?_
      change s.now + 8 ≤ x.1 + 2 + 4
      omega
    · obtain ⟨g, hg, rfl⟩ := List.mem_map.1 hx
      have hsome : (s.downlink cfg dlAllowed rarAlloc).2 = some g := Option.mem_toList.1 hg
      obtain ⟨msg3, hslot, hpromises⟩ := hnew g hsome
      refine ⟨msg3, ?_, hpromises⟩
      change (s.result cfg dlAllowed rarAlloc users msg3Alloc).1.pendingMsg3
        ((s.now + 4 + 2 + 4) % 20) = some msg3
      rw [result_slot (by omega)]
      exact hslot

theorem Consistent.step (hcons : s.Consistent cfg) (e : RaSchedEvent) :
    (s.step cfg e).Consistent cfg := by
  cases e with
  | rach preambleIdx tempCrnti taCmd msg3Size age =>
    refine ⟨fun rar hrar => ?_, hcons.rars_lt, hcons.msg3s_lt, hcons.promised⟩
    rcases List.mem_append.1 hrar with hrar | hrar
    · exact hcons.prach_le rar hrar
    · rw [List.mem_singleton.1 hrar]
      exact Nat.sub_le _ _
  | tti dlAllowed rarAlloc users msg3Alloc => exact hcons.step_tti

/-- Every TTI of a run is as expected exactly where every TTI meets the condition. -/
theorem random_access_sound_iff (cfg : RaSchedCfg) (now : ℕ) (events : List RaSchedEvent) :
    EventRun.Along (step cfg) (StepSound cfg) (init now) events ↔
      EventRun.Along (step cfg) (Meets cfg) (init now) events :=
  EventRun.along_congr (fun _ e hcons _ => hcons.step e) (fun _ e hcons => stepSound_iff hcons e)
    (consistent_init cfg now)

def tenSubframes : RaSchedCfg := ⟨10, 2, 50, by decide, by decide⟩

def tti70 (rarAlloc msg3Alloc : Bool) : RaSchedEvent := .tti true rarAlloc [70] msg3Alloc

/-- A Msg3 that was not allocated in its TTI is allocated 20 TTIs later; where the TTI counter wraps
behind the PRACH, a RAR stays at the front of the queue; and a RAR is sent in the first TTI behind
its window. -/
theorem msg3_resurfaces :
    ¬EventRun.Along (step tenSubframes) (StepSound tenSubframes) (init 0)
        ((.rach 1 70 0 7 0 :: tti70 true false :: List.replicate 21 (tti70 false false)) ++
          [tti70 false true]) ∧
      ¬EventRun.Along (step tenSubframes) (StepSound tenSubframes) (init 10235)
        ((.rach 1 70 0 7 0 :: List.replicate 10 (tti70 false false)) ++ [tti70 false false]) ∧
      ¬EventRun.Along (step tenSubframes) (StepSound tenSubframes) (init 100)
        ((.rach 1 70 0 7 0 :: List.replicate 9 (tti70 false false)) ++ [tti70 true false]) := by
  refine ⟨fun h => ?_, fun h => ?_, fun h => ?_⟩
  · obtain ⟨hmsg3, -⟩ := (EventRun.along_append.1 h).2.1
    obtain ⟨⟨x, hx, htti, -⟩, -⟩ := hmsg3 ⟨70, 3, 2, 0⟩ (by rfl)
    cases hx with
    | head => exact absurd htti (by decide)
    | tail _ hx => cases hx
  · obtain ⟨-, hqueue⟩ := (EventRun.along_append.1 h).2.1
    exact absurd (hqueue rfl).queue (by decide)
  · obtain ⟨-, hqueue⟩ := (EventRun.along_append.1 h).2.1
    exact absurd (hqueue rfl).queue (by decide)

end RaSchedRun

end SrsLte
