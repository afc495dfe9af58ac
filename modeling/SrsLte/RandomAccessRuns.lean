import SrsLte.RandomAccess

/-!
# Runs of the random access procedure

The history of a run has one entry for each procedure that was started: what it held, what answered
its preamble, what it sent and how it ended. The handlers do not check the state; where events
come in the state that waits for them, each procedure ends once and with the right C-RNTI.
-/

namespace SrsLte

inductive RaOutcome
  | completed (crnti : ℕ)
  | problem
  deriving DecidableEq

def RaOutput.outcome : RaOutput → Option RaOutcome
  | .complete _ crnti => some (.completed crnti)
  | .raProblem => some .problem
  | _ => none

/-- The state in which `response_error` or `complete` is taken. -/
def RaOutput.takenIn : RaOutput → Option RaState
  | .responseError state => some state
  | .complete state _ => some state
  | _ => none

def RaOutput.isTransmission : RaOutput → Bool
  | .prachSend _ _ _ => true
  | _ => false

/-- A started procedure: the C-RNTI the UE held and the limit of transmissions at its start, the
temporary C-RNTI of the RAR that answered its preamble, its transmissions and outcomes. -/
structure RaProcedure where
  held : ℕ
  transMax : ℕ
  answer : Option ℕ
  sent : ℕ
  outcomes : List RaOutcome

namespace RaProcedure

def start (held transMax : ℕ) : RaProcedure := ⟨held, transMax, none, 0, []⟩

def record (p : RaProcedure) (out : List RaOutput) : RaProcedure :=
  { p with
    sent := p.sent + (out.filter RaOutput.isTransmission).length
    outcomes := p.outcomes ++ out.filterMap RaOutput.outcome }

def answered (p : RaProcedure) (answer : Option ℕ) : RaProcedure :=
  { p with answer := answer.or p.answer }

def GivesCrnti (p : RaProcedure) (crnti : ℕ) : Prop :=
  (p.held ≠ 0 → crnti = p.held) ∧ (p.held = 0 → p.answer = some crnti)

structure Finished (p : RaProcedure) : Prop where
  one : p.outcomes.length = 1
  sent : p.sent ≤ p.transMax
  crnti : ∀ crnti, .completed crnti ∈ p.outcomes → p.GivesCrnti crnti

end RaProcedure

namespace RaState

def Ended (state : RaState) : Prop :=
  state = .idle ∨ state = .startWaitCompletion ∨ state = .waitingCompletion

instance (state : RaState) : Decidable state.Ended := inferInstanceAs (Decidable (_ ∨ _))

end RaState

namespace RarPdu

def replies (rar : RarPdu) (preamble : ℕ) : List RarSubh :=
  rar.subheaders.filter fun sub => sub.rapid = some preamble

end RarPdu

structure RaRun where
  proc : RaProc
  history : List RaProcedure

namespace RaRun

def begun (s : RaProc) (h : List RaProcedure) : RaEvent → List RaProcedure
  | .startMacOrder .. | .startNoncont .. | .startPdcchOrder .. =>
    if s.state = .idle then .start s.rntis.crnti s.newCfg.preambleTransMax :: h else h
  | .tbDecodedOk rar =>
    -- a preamble that was transmitted is answered
    if s.state = .responseReception ∨ s.state = .contentionResolution then
      h.modifyHead fun p =>
        p.answered ((rar.replies s.selPreamble).getLast?.map RarSubh.tempCrnti)
    else h
  | _ => h

def step (run : RaRun) (e : RaEvent) : RaRun where
  proc := (run.proc.handle e).1
  history := (begun run.proc run.history e).modifyHead fun p => p.record (run.proc.handle e).2

def init : RaRun := ⟨RaProc.init, []⟩

def awaiting : RaEvent → RaState
  | .step _ _ _ | .tbDecodedOk _ => .responseReception
  | _ => .contentionResolution

/-- `response_error` and `complete` take effect only in the state that waits for the event. -/
def InTime (run : RaRun) (e : RaEvent) : Prop :=
  ∀ o ∈ (run.proc.handle e).2, ∀ state, o.takenIn = some state → state = awaiting e

/-- Procedures that have ended have one outcome, the one going on has none. -/
structure Sound (run : RaRun) : Prop where
  past : ∀ p ∈ run.history.tail, p.outcomes.length = 1
  ended : run.proc.state.Ended → ∀ p ∈ run.history, p.outcomes.length = 1
  active : ¬ run.proc.state.Ended → ∃ p, run.history.head? = some p ∧ p.outcomes = []
  sent : ∀ p ∈ run.history, p.sent ≤ p.transMax
  timer : run.proc.timer.running = true → run.proc.state = .contentionResolution
  crnti : ∀ p ∈ run.history, ∀ crnti, .completed crnti ∈ p.outcomes → p.GivesCrnti crnti

def Configured (cfg : RachCfg) (preambleIdx : ℕ) : Prop :=
  1 ≤ cfg.preambleTransMax ∧
    (0 < preambleIdx ∨ cfg.nofGroupAPreambles ≠ 0 ∨ cfg.nofPreambles ≠ 0)

/-- The C-RNTI that `complete` leaves to a procedure with a preamble of the network. -/
def KeepsCrnti (s : RaProc) (tempCrnti : ℕ) : Prop :=
  if s.rntis.crnti = 0 then s.transmittedCrnti = 0 ∧ tempCrnti = 0 else s.transmittedCrnti ≠ 0

/-- Replies to the preamble come behind its transmission and, for a preamble of the network, only
one. -/
def RarInPlace (s : RaProc) (rar : RarPdu) : Prop :=
  rar.replies s.selPreamble ≠ [] →
    (s.state = .responseReception ∨ s.state = .contentionResolution) ∧
      (0 < s.preambleIndex →
        ∃ sub, rar.replies s.selPreamble = [sub] ∧ KeepsCrnti s sub.tempCrnti)

def OneId (s : RaProc) (ids : List (ℕ × Draws)) : Prop :=
  ids.length ≤ 1 ∨ ∃ draws, ids.head? = some (s.transmittedContentionId, draws)

def InPlace (run : RaRun) : RaEvent → Prop
  | .setHoRnti _ | .notifyRaCompleted => run.proc.state.Ended
  | .startMacOrder _ _ _ _ | .startPdcchOrder _ _ => run.proc.state = .idle →
    Configured run.proc.newCfg
      (if run.proc.noncontentionEnabled then run.proc.nextPreambleIdx else 0)
  | .startNoncont preambleIdx _ _ _ => run.proc.state = .idle →
    Configured run.proc.newCfg preambleIdx
  | .tbDecodedOk rar => RarInPlace run.proc rar
  | .tempCrntiPdu rnti ids =>
    rnti ≠ 0 ∧ (rnti = run.proc.rntis.tempRnti → OneId run.proc ids)
  | .harqRetx rnti => rnti ≠ 0
  | .harqMaxRetx rnti _ =>
    rnti ≠ 0 ∧ (rnti = run.proc.rntis.tempRnti → run.proc.timer.running = false)
  | _ => True

/-- What holds of a procedure when it chooses its first preamble. -/
structure Begun (s : RaProc) (p : RaProcedure) : Prop where
  outcomes : p.outcomes = []
  held : s.rntis.crnti = p.held
  transMax : s.rachCfg.preambleTransMax = p.transMax
  le : s.preambleTransmissionCounter ≤ p.transMax
  msg3 : s.msg3.pending = true ∨ s.msg3.empty = false → s.transmittedCrnti = p.held
  groupA : s.preambleIndex = 0 → s.rachCfg.nofGroupAPreambles ≠ 0

structure Live (s : RaProc) (p : RaProcedure) : Prop extends Begun s p where
  groupB : s.preambleIndex = 0 → s.lastMsg3Group = .groupB → s.nofGroupBPreambles ≠ 0

structure Active (s : RaProc) (p : RaProcedure) : Prop extends Live s p where
  notEnded : ¬ s.state.Ended
  sent : p.sent + (if s.state = .backoffWait then 1 else 0) = s.preambleTransmissionCounter
  resolution : s.state = .contentionResolution →
    s.preambleIndex = 0 ∧ s.transmittedCrnti = p.held ∧ p.answer = some s.rntis.tempRnti

structure Inv (run : RaRun) : Prop where
  timer : run.proc.timer.running = true → run.proc.state = .contentionResolution
  temp : run.proc.state ≠ .contentionResolution → run.proc.rntis.tempRnti = 0
  shape : (run.proc.state.Ended ∧ ∀ p ∈ run.history, p.Finished) ∨
    ∃ p ps, run.history = p :: ps ∧ Active run.proc p ∧ ∀ q ∈ ps, q.Finished

variable {run : RaRun} {s q : RaProc} {p : RaProcedure} {r : RaProc × List RaOutput} {o : RaOutput}
  {out : List RaOutput} {history ps : List RaProcedure} {e : RaEvent} {subs : List RarSubh}
  {sub : RarSubh}

theorem Inv.sound (h : Inv run) : Sound run := by
  rcases h.shape with ⟨hended, hall⟩ | ⟨p, ps, hhist, hactive, hall⟩
  · exact
      { past := fun p hp => (hall p (List.mem_of_mem_tail hp)).one
        ended := fun _ p hp => (hall p hp).one
        active := fun hnot => absurd hended hnot
        sent := fun p hp => (hall p hp).sent
        timer := h.timer
        crnti := fun p hp => (hall p hp).crnti }
  · have hsent := hactive.sent
    have hle := hactive.le
    rw [← hsent] at hle
    exact
      { past := by
          rw [hhist]
          exact fun q hq => (hall q hq).one
        ended := fun hended => absurd hended hactive.notEnded
        active := fun _ => ⟨p, by rw [hhist]; rfl, hactive.outcomes⟩
        sent := by
          rw [hhist]
          intro q hq
          rcases List.mem_cons.mp hq with rfl | hq
          · omega
          · exact (hall q hq).sent
        timer := h.timer
        crnti := by
          rw [hhist]
          intro q hq crnti hmem
          rcases List.mem_cons.mp hq with rfl | hq
          · rw [hactive.outcomes] at hmem
            exact absurd hmem List.not_mem_nil
          · exact (hall q hq).crnti crnti hmem }

structure Transmits (s : RaProc) (r : RaProc × List RaOutput) : Prop where
  out : ∃ preamble mask power, r.2 = [.prachSend preamble mask power]
  state : r.1.state = .pdcchSetup
  cfg : r.1.rachCfg = s.rachCfg
  counter : r.1.preambleTransmissionCounter = s.preambleTransmissionCounter
  preambleIndex : r.1.preambleIndex = s.preambleIndex
  transmittedCrnti : r.1.transmittedCrnti = s.transmittedCrnti
  crnti : r.1.rntis.crnti = s.rntis.crnti
  tempRnti : r.1.rntis.tempRnti = s.rntis.tempRnti
  msg3 : r.1.msg3 = s.msg3
  timer : r.1.timer = s.timer
  group : s.preambleIndex = 0 → r.1.lastMsg3Group = .groupB → s.nofGroupBPreambles ≠ 0

theorem selGroup_groupB (h : s.selGroup = .groupB) :
    s.msg3.transmitted = true ∧ s.lastMsg3Group = .groupB ∨ s.nofGroupBPreambles ≠ 0 := by
  unfold RaProc.selGroup at h
  split_ifs at h with htransmitted hB
  · exact Or.inl ⟨htransmitted, h⟩
  · exact Or.inr hB.1

theorem resourceSelection_transmits (rand : ℕ)
    (hA : s.preambleIndex = 0 → s.rachCfg.nofGroupAPreambles ≠ 0)
    (hB : s.preambleIndex = 0 → s.msg3.transmitted = true → s.lastMsg3Group = .groupB →
      s.nofGroupBPreambles ≠ 0) : Transmits s (s.resourceSelection rand) := by
  unfold RaProc.resourceSelection
  split_ifs with hindex
  · exact ⟨⟨_, _, _, rfl⟩, rfl, rfl, rfl, rfl, rfl, rfl, rfl, rfl, rfl,
      fun hzero => absurd hzero (Nat.ne_of_gt hindex)⟩
  · have hzero : s.preambleIndex = 0 := Nat.eq_zero_of_not_pos hindex
    have hsome : s.selGroup = .groupB → s.nofGroupBPreambles ≠ 0 := fun hgroup =>
      (selGroup_groupB hgroup).elim (fun h => hB hzero h.1 h.2) id
    cases hgroup : s.selGroup with
    | groupA =>
      dsimp only
      rw [if_pos (hA hzero)]
      exact ⟨⟨_, _, _, rfl⟩, rfl, rfl, rfl, rfl, rfl, rfl, rfl, rfl, rfl,
        fun _ hB => RaGroup.noConfusion hB⟩
    | groupB =>
      dsimp only
      rw [if_pos (show RaProc.nofGroupBPreambles { s with lastMsg3Group := .groupB } ≠ 0 from
        hsome hgroup)]
      exact ⟨⟨_, _, _, rfl⟩, rfl, rfl, rfl, rfl, rfl, rfl, rfl, rfl, rfl, fun _ _ => hsome hgroup⟩

theorem record_prachSend (p : RaProcedure) (preamble : ℕ) (mask power : ℤ) :
    p.record [.prachSend preamble mask power] = { p with sent := p.sent + 1 } := by
  change { p with sent := p.sent + 1, outcomes := p.outcomes ++ [] } = _
  rw [List.append_nil]

theorem Begun.transmits (h : Begun s p) (hsent : p.sent + 1 = s.preambleTransmissionCounter)
    (hr : Transmits s r) : Active r.1 (p.record r.2) := by
  obtain ⟨preamble, mask, power, hout⟩ := hr.out
  rw [hout, record_prachSend]
  exact
    { outcomes := h.outcomes
      held := hr.crnti.trans h.held
      transMax := (congrArg _ hr.cfg).trans h.transMax
      le := hr.counter ▸ h.le
      msg3 := by
        rw [hr.msg3, hr.transmittedCrnti]
        exact h.msg3
      groupA := by
        rw [hr.cfg, hr.preambleIndex]
        exact h.groupA
      groupB := by
        unfold RaProc.nofGroupBPreambles
        rw [hr.cfg, hr.preambleIndex]
        exact hr.group
      notEnded := by
        rw [hr.state]
        decide
      sent := by
        rw [hr.state, hr.counter]
        exact hsent
      resolution := fun hstate => by
        rw [hr.state] at hstate
        exact RaState.noConfusion hstate }

theorem transmits_live (h : Live s p) (rand : ℕ) :
    Transmits s (s.resourceSelection rand) :=
  resourceSelection_transmits rand h.groupA fun hzero _ hgroup => h.groupB hzero hgroup

def Quiet (o : RaOutput) : Prop := o.outcome = none ∧ o.isTransmission = false

theorem record_cons (p : RaProcedure) (h : Quiet o) (out : List RaOutput) :
    p.record (o :: out) = p.record out := by
  unfold RaProcedure.record
  rw [List.filterMap_cons_none h.1, List.filter_cons_of_neg (by rw [h.2]; exact Bool.false_ne_true)]

theorem record_nil (p : RaProcedure) : p.record [] = p := by
  change { p with sent := p.sent + 0, outcomes := p.outcomes ++ [] } = p
  rw [List.append_nil]
  rfl

theorem record_quiet (p : RaProcedure) (h : ∀ o ∈ out, Quiet o) :
    p.record out = p := by
  induction out with
  | nil => exact record_nil p
  | cons o out ih =>
    rw [record_cons p (h o List.mem_cons_self)]
    exact ih (List.forall_mem_cons.mp h).2

/-- The outputs of a handler that takes its step in `state`. -/
def TakenIn (state : RaState) (out : List RaOutput) : Prop :=
  ∀ o ∈ out, ∀ taken, o.takenIn = some taken → taken = state

theorem takenIn_cons {state : RaState} :
    TakenIn state (o :: out) ↔
      (∀ taken, o.takenIn = some taken → taken = state) ∧ TakenIn state out :=
  List.forall_mem_cons

theorem takenIn_quiet {state : RaState} (h : ∀ o ∈ out, o.takenIn = none) :
    TakenIn state out := by
  intro o ho taken htaken
  rw [h o ho] at htaken
  exact absurd htaken (Option.some_ne_none taken).symm

def Continues (s : RaProc) (p : RaProcedure) : Prop :=
  s.state.Ended ∧ p.Finished ∨ Active s p

/-- What `response_error` and `complete` leave, with the timer as it was. -/
structure Leaves (s : RaProc) (p : RaProcedure) (r : RaProc × List RaOutput) : Prop where
  continues : Continues r.1 (p.record r.2)
  timer : r.1.timer = s.timer
  temp : r.1.rntis.tempRnti = 0
  state : r.1.state ≠ .contentionResolution
  taken : TakenIn s.state r.2

theorem finished_of_outcome (hnone : p.outcomes = [])
    (hsent : p.sent ≤ p.transMax) {outcome : RaOutcome}
    (ho : o.outcome = some outcome)
    (htransmission : o.isTransmission = false)
    (hcrnti : ∀ crnti, outcome = .completed crnti → p.GivesCrnti crnti)
    (hout : ∀ o ∈ out, Quiet o) : (p.record (o :: out)).Finished := by
  have hquiet := record_quiet p hout
  have hrecord : p.record (o :: out) = { p with outcomes := [outcome] } := by
    have hmap : out.filterMap RaOutput.outcome = [] :=
      List.filterMap_eq_nil_iff.mpr fun o ho => (hout o ho).1
    have hfilter : out.filter RaOutput.isTransmission = [] :=
      List.filter_eq_nil_iff.mpr fun o ho => by
        rw [(hout o ho).2]
        exact Bool.false_ne_true
    unfold RaProcedure.record
    rw [List.filterMap_cons_some ho, List.filter_cons_of_neg
      (by rw [htransmission]; exact Bool.false_ne_true), hmap, hfilter, hnone]
    rfl
  rw [hrecord]
  exact ⟨rfl, hsent, fun crnti hmem => hcrnti crnti (List.mem_singleton.mp hmem).symm⟩

theorem quiet_ho (isHo success : Bool) :
    ∀ o ∈ (if isHo then [RaOutput.hoRaCompleted success] else []), Quiet o := by
  cases isHo with
  | false => exact List.forall_mem_nil _
  | true =>
    intro o ho
    rw [List.mem_singleton.mp ho]
    exact ⟨rfl, rfl⟩

theorem not_taken_ho (isHo success : Bool) :
    ∀ o ∈ (if isHo then [RaOutput.hoRaCompleted success] else []), o.takenIn = none := by
  cases isHo with
  | false => exact List.forall_mem_nil _
  | true =>
    intro o ho
    rw [List.mem_singleton.mp ho]
    rfl

theorem Active.sent_eq (h : Active s p)
    (hstate : s.state ≠ .backoffWait) : p.sent = s.preambleTransmissionCounter := by
  have hsent := h.sent
  rwa [if_neg hstate, Nat.add_zero] at hsent

def core (s : RaProc) : RaState × RachCfg × ℕ × ℕ × ℕ × ℕ × ℕ × Msg3 × RaGroup × Bool :=
  (s.state, s.rachCfg, s.preambleTransmissionCounter, s.preambleIndex, s.transmittedCrnti,
    s.rntis.crnti, s.rntis.tempRnti, s.msg3, s.lastMsg3Group, s.timer.running)

def liveCore (s : RaProc) : RachCfg × ℕ × ℕ × ℕ × Msg3 × RaGroup :=
  (s.rachCfg, s.preambleIndex, s.transmittedCrnti, s.rntis.crnti, s.msg3, s.lastMsg3Group)

theorem Live.of_core (h : Live s p) (hcore : liveCore q = liveCore s)
    (hle : q.preambleTransmissionCounter ≤ p.transMax) : Live q p := by
  simp only [liveCore, Prod.mk.injEq] at hcore
  obtain ⟨hcfg, hindex, htransmitted, hcrnti, hmsg3, hgroup⟩ := hcore
  exact
    { outcomes := h.outcomes
      held := hcrnti.trans h.held
      transMax := (congrArg _ hcfg).trans h.transMax
      le := hle
      msg3 := by
        rw [hmsg3, htransmitted]
        exact h.msg3
      groupA := by
        rw [hindex, hcfg]
        exact h.groupA
      groupB := by
        unfold RaProc.nofGroupBPreambles
        rw [hindex, hcfg, hgroup]
        exact h.groupB }

theorem Active.of_core (h : Active s p) (hcore : core { q with timer := s.timer } = core s) :
    Active q p := by
  simp only [core, Prod.mk.injEq] at hcore
  obtain ⟨hstate, hcfg, hcounter, hindex, htransmitted, hcrnti, htemp, hmsg3, hgroup, -⟩ := hcore
  exact
    { toLive := h.toLive.of_core
        (by simp only [liveCore, hcfg, hindex, htransmitted, hcrnti, hmsg3, hgroup])
        (hcounter ▸ h.le)
      notEnded := hstate ▸ h.notEnded
      sent := by
        rw [hstate, hcounter]
        exact h.sent
      resolution := by
        rw [hstate, hindex, htransmitted, htemp]
        exact h.resolution }

theorem Active.responseError (h : Active s p)
    (hstate : s.state ≠ .backoffWait) (draws : Draws) : Leaves s p (s.responseError draws) := by
  have hsent := h.sent_eq hstate
  have htransMax := h.transMax
  unfold RaProc.responseError
  dsimp only
  generalize (if s.backoffParamMs ≠ 0 then draws.backoff % s.backoffParamMs else 0) = interval
  by_cases hmax : s.preambleTransmissionCounter + 1 ≥ s.rachCfg.preambleTransMax + 1
  · rw [if_pos hmax]
    exact
      { continues := Or.inl ⟨Or.inl rfl, by
          rw [record_cons p ⟨rfl, rfl⟩]
          exact finished_of_outcome h.outcomes (hsent ▸ h.le) rfl rfl
            (fun _ hproblem => RaOutcome.noConfusion hproblem) (quiet_ho _ _)⟩
        timer := rfl
        temp := rfl
        state := fun hcr => RaState.noConfusion hcr
        taken := takenIn_cons.mpr ⟨fun _ htaken => (Option.some.inj htaken).symm,
          takenIn_cons.mpr ⟨fun _ htaken => absurd htaken (Option.some_ne_none _).symm,
            takenIn_quiet (not_taken_ho _ _)⟩⟩ }
  · rw [if_neg hmax]
    have hle : s.preambleTransmissionCounter + 1 ≤ p.transMax := by omega
    by_cases hinterval : interval ≠ 0
    · rw [if_pos hinterval]
      exact
        { continues := Or.inr (by
            rw [record_cons p ⟨rfl, rfl⟩, record_nil]
            exact
              { toLive := h.toLive.of_core rfl hle
                notEnded := show ¬ RaState.backoffWait.Ended by decide
                sent := congrArg (· + 1) hsent
                resolution := fun hcr => RaState.noConfusion hcr })
          timer := rfl
          temp := rfl
          state := fun hcr => RaState.noConfusion hcr
          taken := takenIn_cons.mpr ⟨fun _ htaken => (Option.some.inj htaken).symm,
            List.forall_mem_nil _⟩ }
    · rw [if_neg hinterval]
      have hnext := h.toLive.of_core (q :=
        { s with
          rntis := { s.rntis with tempRnti := 0 }
          preambleTransmissionCounter := s.preambleTransmissionCounter + 1
          backoffIntervalStart := none
          backoffInterval := interval }) rfl hle
      have htransmits := transmits_live hnext draws.preamble
      have hactive := hnext.transmits (congrArg (· + 1) hsent) htransmits
      exact
        { continues := Or.inr (by
            rw [record_cons p ⟨rfl, rfl⟩]
            exact hactive)
          timer := htransmits.timer
          temp := htransmits.tempRnti
          state := fun hcr => RaState.noConfusion (htransmits.state.symm.trans hcr)
          taken := takenIn_cons.mpr ⟨fun _ htaken => (Option.some.inj htaken).symm, by
            obtain ⟨preamble, mask, power, hout⟩ := htransmits.out
            rw [hout]
            exact takenIn_quiet fun o ho => by rw [List.mem_singleton.mp ho]; rfl⟩ }

theorem Live.complete (h : Live s p) (hsent : p.sent ≤ p.transMax) (hcrnti : p.GivesCrnti
      (if s.transmittedCrnti = 0 then s.rntis.tempRnti else s.rntis.crnti)) :
    Leaves s p s.complete where
  continues := Or.inl ⟨Or.inr (Or.inl rfl), finished_of_outcome h.outcomes hsent rfl rfl
    (fun _ heq => RaOutcome.completed.inj heq ▸ hcrnti) (quiet_ho _ _)⟩
  timer := rfl
  temp := rfl
  state := fun hcr => RaState.noConfusion hcr
  taken := takenIn_cons.mpr ⟨fun _ htaken => (Option.some.inj htaken).symm,
    takenIn_quiet (not_taken_ho _ _)⟩

theorem Inv.of_core (h : Inv ⟨s, history⟩) (hcore : core q = core s) : Inv ⟨q, history⟩ := by
  simp only [core, Prod.mk.injEq] at hcore
  exact
    { timer := fun hrun => hcore.1.trans (h.timer (hcore.2.2.2.2.2.2.2.2.2.symm.trans hrun))
      temp := fun hne => hcore.2.2.2.2.2.2.1.trans (h.temp (hcore.1 ▸ hne))
      shape := by
        rcases h.shape with ⟨hended, hall⟩ | ⟨p, ps, hhist, hactive, hall⟩
        · exact Or.inl ⟨hcore.1.symm ▸ hended, hall⟩
        · refine Or.inr ⟨p, ps, hhist, hactive.of_core ?_, hall⟩
          simp only [core, Prod.mk.injEq]
          simp only [hcore, and_self] }

theorem record_head (history : List RaProcedure) (h : ∀ o ∈ out, Quiet o) :
    history.modifyHead (fun p => p.record out) = history := by
  cases history with
  | nil => rfl
  | cons p ps => exact congrArg (· :: ps) (record_quiet p h)

theorem Continues.inv (h : Continues s p) (hall : ∀ q ∈ ps, q.Finished)
    (htimer : s.timer.running = true → s.state = .contentionResolution)
    (htemp : s.state ≠ .contentionResolution → s.rntis.tempRnti = 0) : Inv ⟨s, p :: ps⟩ where
  timer := htimer
  temp := htemp
  shape := by
    rcases h with ⟨hended, hfinished⟩ | hactive
    · refine Or.inl ⟨hended, fun q hq => ?_⟩
      rcases List.mem_cons.mp hq with rfl | hq
      · exact hfinished
      · exact hall q hq
    · exact Or.inr ⟨p, ps, rfl, hactive, hall⟩

theorem Leaves.inv (h : Leaves s p r) (hall : ∀ q ∈ ps, q.Finished)
    (htimer : s.timer.running = false) : Inv ⟨r.1, p.record r.2 :: ps⟩ :=
  h.continues.inv hall (fun hrun => by rw [h.timer, htimer] at hrun; exact absurd hrun (by simp))
    fun _ => h.temp

theorem Inv.active (h : Inv run) (hstate : ¬ run.proc.state.Ended) :
    ∃ p ps, run.history = p :: ps ∧ Active run.proc p ∧ ∀ q ∈ ps, q.Finished :=
  h.shape.resolve_left fun hended => hstate hended.1

theorem Inv.ended (h : Inv run) (hstate : run.proc.state.Ended) :
    ∀ p ∈ run.history, p.Finished := by
  rcases h.shape with ⟨-, hall⟩ | ⟨p, ps, -, hactive, -⟩
  · exact hall
  · exact absurd hstate hactive.notEnded

theorem Inv.not_running (h : Inv run)
    (hstate : run.proc.state ≠ .contentionResolution) : run.proc.timer.running = false := by
  by_contra hrun
  exact hstate (h.timer (Bool.not_eq_false _ ▸ hrun))

theorem not_taken_transmits (h : Transmits s r) :
    ∀ o ∈ r.2, o.takenIn = none := by
  obtain ⟨preamble, mask, power, hout⟩ := h.out
  rw [hout]
  exact fun o ho => by rw [List.mem_singleton.mp ho]; rfl

theorem inv_initialization {held transMax : ℕ}
    (hall : ∀ p ∈ history, p.Finished) (hrunning : s.timer.running = false)
    (htemp : s.rntis.tempRnti = 0) (hheld : s.rntis.crnti = held)
    (hmax : s.newCfg.preambleTransMax = transMax)
    (hcfg : Configured s.newCfg (if s.noncontentionEnabled then s.nextPreambleIdx else 0))
    (preambleFormat rand : ℕ) :
    Inv ⟨(s.initialization preambleFormat rand).1,
      (RaProcedure.start held transMax).record (s.initialization preambleFormat rand).2 ::
        history⟩ ∧ ∀ o ∈ (s.initialization preambleFormat rand).2, o.takenIn = none := by
  let s₀ : RaProc := { s.readParams preambleFormat with
    transmittedContentionId := 0
    preambleTransmissionCounter := 1
    msg3 := Msg3.flush
    backoffParamMs := 0 }
  have hbegun : Begun s₀ (.start held transMax) :=
    { outcomes := rfl
      held := hheld
      transMax := hmax
      le := hmax ▸ hcfg.1
      msg3 := fun h => absurd h (by simp [s₀, Msg3.flush])
      groupA := by
        intro hzero
        change (if s.newCfg.nofGroupAPreambles = 0 then s.newCfg.nofPreambles
          else s.newCfg.nofGroupAPreambles) ≠ 0
        have hpreamble := hcfg.2.resolve_left (Nat.not_lt.mpr (Nat.le_of_eq hzero))
        split_ifs with hA
        · exact hpreamble.resolve_left (not_not.mpr hA)
        · exact hA }
  have htransmits := resourceSelection_transmits rand hbegun.groupA
    fun _ htransmitted => absurd htransmitted (by simp [s₀, Msg3.flush])
  have hactive : Active (s₀.resourceSelection rand).1 _ := hbegun.transmits rfl htransmits
  have hrunning₀ : (s₀.resourceSelection rand).1.timer.running = false := by
    rw [htransmits.timer]
    change (if _ then _ else _ : ContentionTimer).running = false
    split_ifs
    · exact hrunning
    · exact hrunning
  refine ⟨Continues.inv (Or.inr hactive) hall ?_ fun _ => htransmits.tempRnti.trans htemp,
    not_taken_transmits htransmits⟩
  exact fun hrun => absurd (hrunning₀.symm.trans hrun) (by simp)

structure Keeps (run : RaRun) (e : RaEvent) : Prop where
  inTime : InTime run e
  inv : Inv (run.step e)

variable {run : RaRun}

theorem keeps_of_core (h : Inv run)
    (hhandle : run.proc.handle e = (q, [])) (hcore : core q = core run.proc)
    (hbegun : begun run.proc run.history e = run.history) :
    Keeps run e where
  inTime := by
    unfold InTime
    rw [hhandle]
    exact List.forall_mem_nil _
  inv := by
    unfold step
    rw [hhandle, hbegun, record_head _ (List.forall_mem_nil _)]
    exact h.of_core hcore

theorem keeps_initialization (h : Inv run) {preambleFormat rand : ℕ}
    (hidle : run.proc.state = .idle)
    (hhandle : run.proc.handle e = s.initialization preambleFormat rand)
    (hbegun : begun run.proc run.history e =
      .start run.proc.rntis.crnti run.proc.newCfg.preambleTransMax :: run.history)
    (hrunning : s.timer = run.proc.timer) (hrntis : s.rntis = run.proc.rntis)
    (hnew : s.newCfg = run.proc.newCfg)
    (hcfg : Configured s.newCfg (if s.noncontentionEnabled then s.nextPreambleIdx else 0)) :
    Keeps run e := by
  have hne : run.proc.state ≠ .contentionResolution := by simp [hidle]
  obtain ⟨hinv, htaken⟩ := inv_initialization (h.ended (Or.inl hidle))
    (hrunning ▸ h.not_running hne) (hrntis ▸ h.temp hne) (congrArg _ hrntis) (congrArg _ hnew) hcfg
    preambleFormat rand
  constructor
  · unfold InTime
    rw [hhandle]
    exact takenIn_quiet htaken
  · unfold step
    rw [hhandle, hbegun]
    exact hinv

theorem keeps_of_leaves (s : RaProc) (hhandle : run.proc.handle e = r)
    (hbegun : begun run.proc run.history e = p :: ps) (hstate : s.state = awaiting e)
    (htimer : s.timer.running = false) (hall : ∀ q ∈ ps, q.Finished) (hleaves : Leaves s p r) :
    Keeps run e where
  inTime := by
    unfold InTime
    rw [hhandle, ← hstate]
    exact hleaves.taken
  inv := by
    unfold step
    rw [hhandle, hbegun]
    exact hleaves.inv hall htimer

theorem keeps_of_active (hhandle : run.proc.handle e = r)
    (hbegun : begun run.proc run.history e = p :: ps)
    (htaken : ∀ o ∈ r.2, o.takenIn = none) (hall : ∀ q ∈ ps, q.Finished)
    (hactive : Active r.1 (p.record r.2))
    (htimer : r.1.timer.running = true → r.1.state = .contentionResolution)
    (htemp : r.1.state ≠ .contentionResolution → r.1.rntis.tempRnti = 0) : Keeps run e where
  inTime := by
    unfold InTime
    rw [hhandle]
    exact takenIn_quiet htaken
  inv := by
    unfold step
    rw [hhandle, hbegun]
    exact Continues.inv (Or.inr hactive) hall htimer htemp

theorem keeps_backoff (h : Inv run) (hstate : run.proc.state = .backoffWait) {tti : ℕ}
    {prach : PrachInfo} {draws : Draws} (hcore : core q = core run.proc)
    (hhandle : run.proc.handle (.step tti prach draws) = q.resourceSelection draws.preamble) :
    Keeps run (.step tti prach draws) := by
  have hq : Inv ⟨q, run.history⟩ := h.of_core hcore
  have hstateq : q.state = .backoffWait := (congrArg Prod.fst hcore).trans hstate
  have hne : q.state ≠ .contentionResolution := by simp [hstateq]
  obtain ⟨p, ps, hhist, hactive, hall⟩ := hq.active (by rw [hstateq]; decide)
  have htransmits := transmits_live hactive.toLive draws.preamble
  have hsent := hactive.sent
  rw [if_pos hstateq] at hsent
  refine keeps_of_active hhandle hhist (not_taken_transmits htransmits) hall
    (hactive.toBegun.transmits hsent htransmits) ?_ fun _ => htransmits.tempRnti.trans (hq.temp hne)
  intro hrun
  rw [htransmits.timer, hq.not_running hne] at hrun
  exact absurd hrun (by simp)

theorem keeps_step (h : Inv run) (tti : ℕ) (prach : PrachInfo) (draws : Draws) :
    Keeps run (.step tti prach draws) := by
  have hhandle : run.proc.handle (.step tti prach draws) = run.proc.step tti prach draws := rfl
  unfold RaProc.step at hhandle
  cases hstate : run.proc.state with
  | idle =>
    rw [hstate] at hhandle
    exact keeps_of_core h hhandle rfl rfl
  | pdcchSetup =>
    rw [hstate] at hhandle
    dsimp only at hhandle
    split_ifs at hhandle with hsent
    · obtain ⟨p, ps, hhist, hactive, hall⟩ := h.active (by rw [hstate]; decide)
      have hne : run.proc.state ≠ .contentionResolution := by simp [hstate]
      refine keeps_of_active hhandle hhist (List.forall_mem_nil _) hall ?_ ?_ ?_
      · rw [record_nil]
        have hcount := hactive.sent
        rw [hstate] at hcount
        exact
          { toLive := hactive.toLive.of_core rfl hactive.le
            notEnded := show ¬ RaState.responseReception.Ended by decide
            sent := hcount
            resolution := fun hcr => RaState.noConfusion hcr }
      · exact fun hrun => absurd ((h.not_running hne).symm.trans hrun) (by simp)
      · exact fun _ => h.temp hne
    · exact keeps_of_core h hhandle rfl rfl
  | responseReception =>
    rw [hstate] at hhandle
    dsimp only at hhandle
    split_ifs at hhandle with hlate
    · obtain ⟨p, ps, hhist, hactive, hall⟩ := h.active (by rw [hstate]; decide)
      exact keeps_of_leaves run.proc hhandle hhist hstate (h.not_running (by simp [hstate]))
        hall (hactive.responseError (by simp [hstate]) draws)
    · exact keeps_of_core h hhandle rfl rfl
  | backoffWait =>
    rw [hstate] at hhandle
    dsimp only at hhandle
    split_ifs at hhandle with hwait hone hfirst helapsed helapsed
    · exact keeps_backoff h hstate rfl hhandle
    · exact keeps_backoff h hstate (by unfold core; rw [hstate]) hhandle
    · exact keeps_of_core h hhandle (by unfold core; rw [hstate]) rfl
    · exact keeps_backoff h hstate (by unfold core; rw [hstate]) hhandle
    · exact keeps_of_core h hhandle rfl rfl
    · exact keeps_of_core h hhandle rfl rfl
  | contentionResolution =>
    rw [hstate] at hhandle
    dsimp only at hhandle
    split_ifs at hhandle with hmsg3
    · obtain ⟨p, ps, hhist, hactive, hall⟩ := h.active (by rw [hstate]; decide)
      refine keeps_of_active hhandle hhist (List.forall_mem_nil _) hall ?_
        (fun _ => rfl) fun hne => absurd rfl hne
      rw [record_nil]
      exact hactive.of_core (by simp only [core, hstate])
    · exact keeps_of_core h hhandle rfl rfl
  | startWaitCompletion =>
    rw [hstate] at hhandle
    have hended : run.proc.state.Ended := Or.inr (Or.inl hstate)
    have hne : run.proc.state ≠ .contentionResolution := by simp [hstate]
    have hquiet : ∀ o ∈ (run.proc.handle (.step tti prach draws)).2,
        Quiet o ∧ o.takenIn = none := by
      rw [hhandle]
      exact fun o ho => by
        rw [List.mem_singleton.mp ho]
        exact ⟨⟨rfl, rfl⟩, rfl⟩
    constructor
    · exact takenIn_quiet fun o ho => (hquiet o ho).2
    · unfold RaRun.step
      rw [show begun run.proc run.history (.step tti prach draws) = run.history from rfl,
        record_head _ fun o ho => (hquiet o ho).1, hhandle]
      exact
        { timer := fun hrun => absurd ((h.not_running hne).symm.trans hrun) (by simp)
          temp := fun _ => h.temp hne
          shape := Or.inl ⟨Or.inr (Or.inr rfl), h.ended hended⟩ }
  | waitingCompletion =>
    rw [hstate] at hhandle
    exact keeps_of_core h hhandle rfl rfl

theorem rarSubheaders_none (h : subs.filter (fun sub => sub.rapid = some s.selPreamble) = []) :
    s.rarSubheaders subs = (s, []) := by
  induction subs with
  | nil => rfl
  | cons sub subs ih =>
    have hnot := List.filter_eq_nil_iff.mp h
    have hsub : ¬ sub.rapid = some s.selPreamble := by
      simpa using hnot sub List.mem_cons_self
    unfold RaProc.rarSubheaders RaProc.rarSubheader
    rw [if_neg hsub]
    dsimp only
    rw [ih (List.filter_eq_nil_iff.mpr (List.forall_mem_cons.mp hnot).2)]
    rfl

structure Accepts (s : RaProc) (p : RaProcedure) (tempCrnti : ℕ) (r : RaProc × List RaOutput) :
    Prop where
  active : Active r.1 (p.answered (some tempCrnti))
  state : r.1.state = .contentionResolution
  timer : r.1.timer = s.timer
  selPreamble : r.1.selPreamble = s.selPreamble
  quiet : ∀ o ∈ r.2, Quiet o ∧ o.takenIn = none

section

variable (hindex : s.preambleIndex = 0) (hlive : Live s p)
  (hsent : p.sent = s.preambleTransmissionCounter)
include hindex hlive hsent

theorem rarSubheader_accepts (hsub : sub.rapid = some s.selPreamble) :
    Accepts s p sub.tempCrnti (s.rarSubheader sub) := by
  have htransmitted : (if s.msg3.empty then s.rntis.crnti else s.transmittedCrnti) = p.held := by
    split_ifs with hempty
    · exact hlive.held
    · exact hlive.msg3 (Or.inr (Bool.not_eq_true _ ▸ hempty))
  unfold RaProc.rarSubheader
  rw [if_pos hsub]
  dsimp only
  rw [if_neg (by rw [hindex]; exact Nat.lt_irrefl 0)]
  exact
    { active :=
        { outcomes := hlive.outcomes
          held := hlive.held
          transMax := hlive.transMax
          le := hlive.le
          msg3 := fun _ => htransmitted
          groupA := hlive.groupA
          groupB := hlive.groupB
          notEnded := show ¬ RaState.contentionResolution.Ended by decide
          sent := hsent
          resolution := fun _ => ⟨hindex, htransmitted, rfl⟩ }
      state := rfl
      timer := rfl
      selPreamble := rfl
      quiet := by
        intro o ho
        rcases List.mem_cons.mp ho with rfl | ho
        · exact ⟨⟨rfl, rfl⟩, rfl⟩
        · generalize (if s.msg3.empty = true then s.rntis.crnti else s.transmittedCrnti) =
            crnti at ho
          split_ifs at ho with happend
          · rw [List.mem_singleton.mp ho]
            exact ⟨⟨rfl, rfl⟩, rfl⟩
          · exact absurd ho List.not_mem_nil }

theorem rarSubheaders_accepts
    {last : RarSubh} (hlast : (subs.filter fun sub => sub.rapid = some s.selPreamble).getLast? =
      some last) : Accepts s p last.tempCrnti (s.rarSubheaders subs) := by
  induction subs generalizing s p with
  | nil => exact absurd hlast (Option.some_ne_none last).symm
  | cons sub subs ih =>
    unfold RaProc.rarSubheaders
    dsimp only
    by_cases hsub : sub.rapid = some s.selPreamble
    · have haccepts := rarSubheader_accepts hindex hlive hsent hsub
      rw [List.filter_cons_of_pos (by simpa using hsub)] at hlast
      rw [← haccepts.selPreamble] at hlast
      have hresolution := haccepts.active.resolution haccepts.state
      have hcount := haccepts.active.sent_eq (by simp [haccepts.state])
      cases hrest : subs.filter fun x => x.rapid = some (s.rarSubheader sub).1.selPreamble with
      | nil =>
        rw [hrest] at hlast
        obtain rfl := Option.some.inj hlast
        rw [rarSubheaders_none hrest]
        exact
          { active := haccepts.active
            state := haccepts.state
            timer := haccepts.timer
            selPreamble := haccepts.selPreamble
            quiet := by
              rw [List.append_nil]
              exact haccepts.quiet }
      | cons x xs =>
        rw [hrest, List.getLast?_cons_cons, ← hrest] at hlast
        have hlater := ih hresolution.1 haccepts.active.toLive hcount hlast
        exact
          { active := hlater.active
            state := hlater.state
            timer := hlater.timer.trans haccepts.timer
            selPreamble := hlater.selPreamble.trans haccepts.selPreamble
            quiet := fun o ho => (List.mem_append.mp ho).elim (haccepts.quiet o) (hlater.quiet o) }
    · rw [List.filter_cons_of_neg (by simpa using hsub)] at hlast
      have hsame : s.rarSubheader sub = (s, []) := if_neg hsub
      rw [hsame]
      exact ih hindex hlive hsent hlast

end

theorem rarSubheaders_one (hindex : 0 < s.preambleIndex)
    (hone : subs.filter (fun sub => sub.rapid = some s.selPreamble) = [sub]) :
    s.rarSubheaders subs = s.rarSubheader sub := by
  induction subs with
  | nil => exact absurd hone (List.cons_ne_nil _ _).symm
  | cons x xs ih =>
    unfold RaProc.rarSubheaders
    dsimp only
    by_cases hx : x.rapid = some s.selPreamble
    · rw [List.filter_cons_of_pos (by simpa using hx)] at hone
      obtain ⟨rfl, hnil⟩ := List.cons.inj hone
      have hsel : (s.rarSubheader x).1.selPreamble = s.selPreamble := by
        unfold RaProc.rarSubheader
        rw [if_pos hx]
        dsimp only
        rw [if_pos hindex]
        rfl
      rw [rarSubheaders_none (hsel.symm ▸ hnil), List.append_nil]
    · rw [List.filter_cons_of_neg (by simpa using hx)] at hone
      have hsame : s.rarSubheader x = (s, []) := if_neg hx
      rw [hsame]
      exact ih hone

theorem rarSubheader_leaves (hlive : Live s p)
    (hsent : p.sent ≤ p.transMax) (htemp : s.rntis.tempRnti = 0) (hindex : 0 < s.preambleIndex)
    (hsub : sub.rapid = some s.selPreamble) (hkeeps : KeepsCrnti s sub.tempCrnti) :
    Leaves s (p.answered (some sub.tempCrnti)) (s.rarSubheader sub) := by
  let q := { s with rarReceived := true, rntis := { s.rntis with rarRnti := 0 } }
  have hq : Live q (p.answered (some sub.tempCrnti)) :=
    { hlive.of_core (q := q) rfl hlive.le with outcomes := hlive.outcomes }
  have hheld := hlive.held
  have hgives : (p.answered (some sub.tempCrnti)).GivesCrnti
      (if q.transmittedCrnti = 0 then q.rntis.tempRnti else q.rntis.crnti) := by
    unfold KeepsCrnti at hkeeps
    split_ifs at hkeeps with hnone
    · have hzero : (if q.transmittedCrnti = 0 then q.rntis.tempRnti else q.rntis.crnti) = 0 :=
        (if_pos hkeeps.1).trans htemp
      rw [hzero]
      exact ⟨fun hne => absurd (hheld.symm.trans hnone) hne, fun _ => congrArg some hkeeps.2⟩
    · have hcrnti : (if q.transmittedCrnti = 0 then q.rntis.tempRnti else q.rntis.crnti) = p.held :=
        (if_neg hkeeps).trans hheld
      rw [hcrnti]
      exact ⟨fun _ => rfl, fun hzero => absurd (hheld.trans hzero) hnone⟩
  have hleaves := hq.complete hsent hgives
  have hcomplete : s.rarSubheader sub =
      (q.complete.1, .setRarGrant sub.schedGrant sub.tempCrnti :: q.complete.2) := by
    unfold RaProc.rarSubheader
    rw [if_pos hsub]
    exact if_pos hindex
  rw [hcomplete]
  exact
    { continues := by
        rw [record_cons _ ⟨rfl, rfl⟩]
        exact hleaves.continues
      timer := hleaves.timer
      temp := hleaves.temp
      state := hleaves.state
      taken := takenIn_cons.mpr ⟨fun _ htaken => absurd htaken (Option.some_ne_none _).symm,
        hleaves.taken⟩ }

theorem answered_none (history : List RaProcedure) :
    history.modifyHead (fun p => p.answered none) = history := by
  cases history with
  | nil => rfl
  | cons p ps => rfl

theorem begun_tbDecodedOk {rar : RarPdu}
    (hstate : s.state = .responseReception ∨ s.state = .contentionResolution) {last : RarSubh}
    (hlast : (rar.replies s.selPreamble).getLast? = some last)
    (hhist : history = p :: ps) :
    begun s history (.tbDecodedOk rar) = p.answered (some last.tempCrnti) :: ps := by
  unfold begun
  dsimp only
  rw [if_pos hstate, hlast, hhist]
  rfl

theorem keeps_tbDecodedOk (h : Inv run) (rar : RarPdu) (hplace : InPlace run (.tbDecodedOk rar)) :
    Keeps run (.tbDecodedOk rar) := by
  obtain ⟨backoff, hhandle⟩ : ∃ backoff, run.proc.handle (.tbDecodedOk rar) =
      ({ run.proc with backoffParamMs := backoff } : RaProc).rarSubheaders rar.subheaders :=
    ⟨_, rfl⟩
  let s : RaProc := { run.proc with backoffParamMs := backoff }
  have hs : Inv ⟨s, run.history⟩ := h.of_core rfl
  cases hlast : (rar.replies run.proc.selPreamble).getLast? with
  | none =>
    have hnil := List.getLast?_eq_none_iff.mp hlast
    refine keeps_of_core h (hhandle.trans (rarSubheaders_none hnil)) rfl ?_
    unfold begun
    dsimp only
    rw [hlast]
    split_ifs
    · exact answered_none run.history
    · rfl
  | some last =>
    have hne : rar.replies run.proc.selPreamble ≠ [] := by
      intro hnil
      rw [hnil] at hlast
      exact absurd hlast (Option.some_ne_none last).symm
    obtain ⟨hstate, hone⟩ := hplace hne
    have hnotEnded : ¬ run.proc.state.Ended := by rcases hstate with h | h <;> rw [h] <;> decide
    have hnotBackoff : run.proc.state ≠ .backoffWait := by rcases hstate with h | h <;> simp [h]
    obtain ⟨p, ps, hhist, hactive, hall⟩ := hs.active hnotEnded
    have hsent : p.sent = s.preambleTransmissionCounter := hactive.sent_eq hnotBackoff
    have hbegun := begun_tbDecodedOk hstate hlast hhist
    by_cases hindex : run.proc.preambleIndex = 0
    · have haccepts : Accepts s p last.tempCrnti (s.rarSubheaders rar.subheaders) :=
        rarSubheaders_accepts (show s.preambleIndex = 0 from hindex) hactive.toLive hsent hlast
      refine keeps_of_active hhandle hbegun (fun o ho => (haccepts.quiet o ho).2) hall ?_
        (fun _ => haccepts.state) fun hcr => absurd haccepts.state hcr
      rw [record_quiet _ fun o ho => (haccepts.quiet o ho).1]
      exact haccepts.active
    · have hpos := Nat.pos_of_ne_zero hindex
      obtain ⟨sub, hreplies, hkeeps⟩ := hone hpos
      rw [hreplies] at hlast
      have heq : sub = last := Option.some.inj hlast
      subst heq
      have hrr : run.proc.state = .responseReception :=
        hstate.resolve_right fun hcr => hindex (hactive.resolution hcr).1
      have hcr : run.proc.state ≠ .contentionResolution := by simp [hrr]
      have hsub : sub.rapid = some s.selPreamble := by
        have hmem : sub ∈ rar.replies run.proc.selPreamble := by
          rw [hreplies]
          exact List.mem_cons_self
        simpa using (List.mem_filter.mp hmem).2
      have hone : s.rarSubheaders rar.subheaders = s.rarSubheader sub :=
        rarSubheaders_one (show 0 < s.preambleIndex from hpos) hreplies
      have hleaves : Leaves s (p.answered (some sub.tempCrnti)) (s.rarSubheader sub) :=
        rarSubheader_leaves hactive.toLive (hsent ▸ hactive.le) (hs.temp hcr) hpos hsub hkeeps
      exact keeps_of_leaves s (hhandle.trans hone) hbegun hrr (hs.not_running hcr) hall hleaves

theorem Active.stopTimer (h : Active s p) : Active s.stopTimer p :=
  h.of_core rfl

theorem Active.complete (h : Active s p)
    (hstate : s.state = .contentionResolution) : Leaves s p s.complete := by
  obtain ⟨-, htransmitted, hanswer⟩ := h.resolution hstate
  have hsent := h.sent_eq (by simp [hstate])
  refine h.toLive.complete (hsent ▸ h.le) ?_
  rw [htransmitted, h.held]
  split_ifs with hzero
  · exact ⟨fun hne => absurd hzero hne, fun _ => hanswer⟩
  · exact ⟨fun _ => rfl, fun hheld => absurd hheld hzero⟩

theorem Inv.resolving (h : Inv run) {rnti : ℕ} (hrnti : rnti ≠ 0)
    (htemp : rnti = run.proc.rntis.tempRnti) : run.proc.state = .contentionResolution := by
  by_contra hstate
  exact hrnti (htemp.trans (h.temp hstate))

theorem Inv.active_resolving (h : Inv run) (hstate : run.proc.state = .contentionResolution) :
    ∃ p ps, run.history = p :: ps ∧ Active run.proc p ∧ ∀ q ∈ ps, q.Finished :=
  h.active (by rw [hstate]; decide)

theorem contentionResolutionId_leaves (h : Active s p)
    (hstate : s.state = .contentionResolution) (id : ℕ) (draws : Draws) :
    Leaves s.stopTimer p (s.contentionResolutionIdReceived id draws) := by
  unfold RaProc.contentionResolutionIdReceived
  split_ifs with hid
  · exact h.stopTimer.complete hstate
  · exact h.stopTimer.responseError (by
      rw [show s.stopTimer.state = _ from hstate]
      exact RaState.noConfusion) draws

theorem tempCrntiPdu_one {id : ℕ} {draws : Draws} {ids : List (ℕ × Draws)}
    (h : OneId s ((id, draws) :: ids)) :
    s.tempCrntiPdu ((id, draws) :: ids) = s.contentionResolutionIdReceived id draws := by
  unfold RaProc.tempCrntiPdu
  dsimp only
  by_cases hid : s.transmittedContentionId = id
  · rw [if_pos (decide_eq_true hid)]
  · rw [if_neg (by simpa using hid)]
    rcases h with hlen | ⟨draws', hhead⟩
    · obtain rfl : ids = [] := List.length_eq_zero_iff.mp (by simpa using hlen)
      unfold RaProc.tempCrntiPdu
      rw [List.append_nil]
    · exact absurd (congrArg Prod.fst (Option.some.inj hhead)).symm hid

section

variable (h : Inv run)
include h

theorem keeps_tempCrntiPdu (rnti : ℕ) (ids : List (ℕ × Draws))
    (hplace : InPlace run (.tempCrntiPdu rnti ids)) : Keeps run (.tempCrntiPdu rnti ids) := by
  by_cases htemp : rnti = run.proc.rntis.tempRnti
  · have hhandle : run.proc.handle (.tempCrntiPdu rnti ids) = run.proc.tempCrntiPdu ids :=
      if_pos htemp
    have hstate := h.resolving hplace.1 htemp
    cases ids with
    | nil => exact keeps_of_core h hhandle rfl rfl
    | cons e ids =>
      obtain ⟨id, draws⟩ := e
      obtain ⟨p, ps, hhist, hactive, hall⟩ := h.active_resolving hstate
      exact keeps_of_leaves run.proc.stopTimer (hhandle.trans (tempCrntiPdu_one (hplace.2 htemp)))
        hhist hstate rfl hall
        (contentionResolutionId_leaves hactive hstate id draws)
  · exact keeps_of_core h (if_neg htemp) rfl rfl

theorem keeps_pdcchToCrnti (rnti : ℕ) (isNewUplinkTransmission : Bool) :
    Keeps run (.pdcchToCrnti rnti isNewUplinkTransmission) := by
  by_cases hpdcch : rnti = run.proc.rntis.crnti ∧ run.proc.state = .contentionResolution ∧
      (isNewUplinkTransmission ∨ run.proc.startedByPdcch)
  · obtain ⟨p, ps, hhist, hactive, hall⟩ := h.active_resolving hpdcch.2.1
    exact keeps_of_leaves run.proc.stopTimer (if_pos hpdcch) hhist hpdcch.2.1 rfl hall
      (hactive.stopTimer.complete hpdcch.2.1)
  · exact keeps_of_core h (if_neg hpdcch) rfl rfl

theorem keeps_timerExpired (draws : Draws) : Keeps run (.timerExpired draws) := by
  have hhandle : run.proc.handle (.timerExpired draws) = run.proc.timerExpired draws := rfl
  unfold RaProc.timerExpired at hhandle
  split_ifs at hhandle with hrun hcallback
  · have hstate := h.timer hrun
    obtain ⟨p, ps, hhist, hactive, hall⟩ := h.active_resolving hstate
    have hleaves := hactive.stopTimer.responseError (by
      rw [show run.proc.stopTimer.state = _ from hstate]
      exact RaState.noConfusion) draws
    exact keeps_of_leaves run.proc.stopTimer hhandle hhist hstate rfl hall hleaves
  · have hstate := h.timer hrun
    obtain ⟨p, ps, hhist, hactive, hall⟩ := h.active_resolving hstate
    refine keeps_of_active hhandle hhist (List.forall_mem_nil _) hall ?_
      (fun hrun' => absurd hrun' (by simp [RaProc.stopTimer])) fun hne => absurd hstate hne
    rw [record_nil]
    exact hactive.stopTimer
  · exact keeps_of_core h hhandle rfl rfl

theorem keeps_harqRetx (rnti : ℕ) (hplace : InPlace run (.harqRetx rnti)) :
    Keeps run (.harqRetx rnti) := by
  by_cases htemp : rnti = run.proc.rntis.tempRnti
  · have hstate := h.resolving hplace htemp
    obtain ⟨p, ps, hhist, hactive, hall⟩ := h.active_resolving hstate
    refine keeps_of_active (if_pos htemp) hhist (List.forall_mem_nil _) hall ?_
      (fun _ => hstate) fun hne => absurd hstate hne
    rw [record_nil]
    exact hactive.of_core rfl
  · exact keeps_of_core h (if_neg htemp) rfl rfl

theorem keeps_harqMaxRetx (rnti : ℕ) (draws : Draws)
    (hplace : InPlace run (.harqMaxRetx rnti draws)) : Keeps run (.harqMaxRetx rnti draws) := by
  by_cases htemp : rnti = run.proc.rntis.tempRnti
  · have hstate := h.resolving hplace.1 htemp
    obtain ⟨p, ps, hhist, hactive, hall⟩ := h.active_resolving hstate
    exact keeps_of_leaves run.proc (if_pos htemp) hhist hstate (hplace.2 htemp) hall
      (hactive.responseError (by simp [hstate]) draws)
  · exact keeps_of_core h (if_neg htemp) rfl rfl

theorem keeps_msg3Get (written left : Bool) : Keeps run (.msg3Get written left) := by
  by_cases hpending : run.proc.msg3.pending = true
  · have hhandle : run.proc.handle (.msg3Get written left) =
        ({ run.proc with msg3 := run.proc.msg3.get written left }, []) := if_pos hpending
    constructor
    · unfold InTime
      rw [hhandle]
      exact List.forall_mem_nil _
    · unfold RaRun.step
      rw [hhandle, show begun run.proc run.history (.msg3Get written left) = run.history from rfl,
        record_head _ (List.forall_mem_nil _)]
      refine ⟨h.timer, h.temp, ?_⟩
      rcases h.shape with ⟨hended, hall⟩ | ⟨p, ps, hhist, hactive, hall⟩
      · exact Or.inl ⟨hended, hall⟩
      · exact Or.inr ⟨p, ps, hhist,
          { outcomes := hactive.outcomes
            held := hactive.held
            transMax := hactive.transMax
            le := hactive.le
            msg3 := fun _ => hactive.msg3 (Or.inl hpending)
            groupA := hactive.groupA
            groupB := hactive.groupB
            notEnded := hactive.notEnded
            sent := hactive.sent
            resolution := hactive.resolution }, hall⟩
  · exact keeps_of_core h (if_neg hpending) rfl rfl

theorem keeps_of_ended (hended : run.proc.state.Ended)
    (hhandle : run.proc.handle e = (q, [])) (hbegun : begun run.proc run.history e = run.history)
    (hq : q.state.Ended) (htimer : q.timer = run.proc.timer)
    (htemp : q.rntis.tempRnti = run.proc.rntis.tempRnti) : Keeps run e := by
  have hne : ∀ state : RaState, state.Ended → state ≠ .contentionResolution := by
    rintro state (rfl | rfl | rfl)
    · exact RaState.noConfusion
    · exact RaState.noConfusion
    · exact RaState.noConfusion
  constructor
  · unfold InTime
    rw [hhandle]
    exact List.forall_mem_nil _
  · unfold RaRun.step
    rw [hhandle, hbegun, record_head _ (List.forall_mem_nil _)]
    exact
      { timer := fun hrun => by
          rw [htimer, h.not_running (hne _ hended)] at hrun
          exact absurd hrun (by simp)
        temp := fun _ => htemp.trans (h.temp (hne _ hended))
        shape := Or.inl ⟨hq, h.ended hended⟩ }

theorem keeps_event (hplace : InPlace run e) : Keeps run e := by
  cases e with
  | setConfig cfg => exact keeps_of_core h rfl rfl rfl
  | setHoRnti crnti => exact keeps_of_ended h hplace rfl rfl hplace rfl rfl
  | setContentionId uecri => exact keeps_of_core h rfl rfl rfl
  | startMacOrder _ _ _ _ | startNoncont _ _ _ _ | startPdcchOrder _ _ =>
    by_cases hidle : run.proc.state = .idle
    · exact keeps_initialization h hidle (if_pos hidle) (if_pos hidle) rfl rfl rfl (hplace hidle)
    · exact keeps_of_core h (if_neg hidle) rfl (if_neg hidle)
  | step tti prach draws => exact keeps_step h tti prach draws
  | tbDecodedOk rar => exact keeps_tbDecodedOk h rar hplace
  | tempCrntiPdu rnti ids => exact keeps_tempCrntiPdu h rnti ids hplace
  | pdcchToCrnti rnti isNewUplinkTransmission =>
    exact keeps_pdcchToCrnti h rnti isNewUplinkTransmission
  | msg3Get written left => exact keeps_msg3Get h written left
  | harqRetx rnti => exact keeps_harqRetx h rnti hplace
  | harqMaxRetx rnti draws => exact keeps_harqMaxRetx h rnti draws hplace
  | timerExpired draws => exact keeps_timerExpired h draws
  | notifyRaCompleted => exact keeps_of_ended h hplace rfl rfl (Or.inl rfl) rfl rfl

end

theorem inv_init : Inv init where
  timer := fun hrun => Bool.noConfusion hrun
  temp := fun _ => rfl
  shape := Or.inl ⟨Or.inl rfl, List.forall_mem_nil _⟩

/-- In every run whose events come in their place, they take effect in time and the history stays
sound. -/
theorem runs_sound (events : List RaEvent) (h : EventRun.Along RaRun.step InPlace init events) :
    EventRun.Along RaRun.step (fun run e => InTime run e ∧ Sound (run.step e)) init events :=
  EventRun.along_mono (fun _ _ hinv hplace => (keeps_event hinv hplace).inv)
    (fun _ _ hinv hplace => ⟨(keeps_event hinv hplace).inTime, (keeps_event hinv hplace).inv.sound⟩)
    inv_init h

def threeAttempts : RachCfg where
  nofPreambles := 52
  nofGroupAPreambles := 0
  messageSizeGroupA := 56
  responseWindowSize := 10
  powerRampingStep := 2
  preambleTransMax := 3
  iniReceivedTargetPower := -104
  contentionResolutionTimer := 64

def transmittedPrach : PrachInfo := ⟨true, 1, 0, 0⟩

def untilMsg3 : List RaEvent :=
  [.setConfig threeAttempts, .setContentionId 5, .startMacOrder 56 false 0 7,
    .step 1 transmittedPrach ⟨0, 0⟩, .tbDecodedOk ⟨none, [⟨some 7, [], 70⟩]⟩, .msg3Get true false,
    .step 6 transmittedPrach ⟨0, 0⟩]

theorem runs_sound_resolved :
    EventRun.Along RaRun.step InPlace init (untilMsg3 ++ [.tempCrntiPdu 70 [(5, ⟨0, 0⟩)]]) ∧
      EventRun.Along RaRun.step (fun run e => InTime run e ∧ Sound (run.step e)) init
        (untilMsg3 ++ [.tempCrntiPdu 70 [(5, ⟨0, 0⟩)]]) := by
  have hplace : EventRun.Along RaRun.step InPlace init
      (untilMsg3 ++ [.tempCrntiPdu 70 [(5, ⟨0, 0⟩)]]) :=
    ⟨trivial, trivial, fun _ => ⟨by decide, by decide⟩, trivial,
      fun _ => ⟨Or.inl (by decide), fun hindex => absurd hindex (by decide)⟩, trivial, trivial,
      ⟨by decide, fun _ => Or.inl (by decide)⟩, trivial⟩
  exact ⟨hplace, runs_sound _ hplace⟩

/-- After the last retransmission of Msg3 the next preamble is sent with the timer running. -/
theorem timer_outlives_resolution : ¬ EventRun.Along RaRun.step
    (fun run e => InTime run e ∧ Sound (run.step e)) init
      (untilMsg3 ++ [.harqMaxRetx 70 ⟨0, 9⟩]) := by
  rintro ⟨-, -, -, -, -, -, -, ⟨-, hsound⟩, -⟩
  exact absurd (hsound.timer (by decide)) (by decide)

end RaRun
end SrsLte
