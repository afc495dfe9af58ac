import SrsLte.Timers

/-!
# The timer service fires each run once, when it is due

The invariant ties the timer records and the queue entries to the ledger. All entries lie in a
window from the time at which timeouts are compared next, so that the order of the queue is the
order of their timeouts there.
-/

namespace SrsLte

theorem TimerRun.lt_iff {a b : TimerRun} {lo : ℕ}
    (ha : lo ≤ a.timeout ∧ a.timeout < lo + maxTimerDuration)
    (hb : lo ≤ b.timeout ∧ b.timeout < lo + maxTimerDuration) :
    TimerRun.lt a b = true ↔ b.timeout < a.timeout := by
  unfold maxTimerDuration at ha hb
  unfold lt maxTimerValue
  split_ifs with hgt
  · rw [decide_eq_true_iff]
    omega
  · rw [decide_eq_true_iff]
    omega

theorem TimerRun.rankedOn {q : List TimerRun} {lo : ℕ}
    (hq : ∀ e ∈ q, lo ≤ e.timeout ∧ e.timeout < lo + maxTimerDuration) :
    RankedOn TimerRun.lt q := by
  refine ⟨fun e => lo + maxTimerDuration - e.timeout, fun a ha b hb => ?_⟩
  have hla := hq a ha
  have hlb := hq b hb
  rw [lt_iff hla hlb]
  change b.timeout < a.timeout ↔
    lo + maxTimerDuration - a.timeout < lo + maxTimerDuration - b.timeout
  omega

namespace TimerHandler

variable {Q : TimerQueue} {g : TimerHandler} {c : TimerCommand} {i duration : ℕ}

def started (Q : TimerQueue) (g : TimerHandler) (i duration : ℕ) (callback : Option ℕ) :
    TimerHandler :=
  { g.update i
      { g.timerList i with
        duration := duration
        timeout := (g.curTime + duration) % 2 ^ 32
        running := true
        callback := callback } with
    runningTimers := Q.push ⟨i, (g.curTime + duration) % 2 ^ 32⟩ g.runningTimers }

theorem set_of_running (hduration : duration ≤ maxTimerDuration)
    (hrunning : (g.timerList i).isRunning = true) :
    g.set Q i duration = (g.started Q i duration (g.timerList i).callback, true) := by
  have hactive : (g.timerList i).active = true := by
    simp only [TimerImpl.isRunning, Bool.and_eq_true] at hrunning
    exact hrunning.1.1
  unfold set run started update
  simp [Nat.not_lt.mpr hduration, hactive, hrunning]

theorem exec_of_runOf (hrun : TimerHistory.runOf g c = some (i, duration))
    (hmax : ∀ i, (g.timerList i).duration ≤ maxTimerDuration) :
    (g.timerList i).active = true ∧ duration ≤ maxTimerDuration ∧
      ∃ callback, g.exec Q c = g.started Q i duration callback := by
  have hset : ∀ {timerId d : ℕ},
      (if d ≤ maxTimerDuration ∧ (g.timerList timerId).isRunning = true then some (timerId, d)
        else none) = some (i, duration) →
      timerId = i ∧ d = duration ∧ duration ≤ maxTimerDuration ∧
        (g.timerList i).isRunning = true := by
    intro timerId d h
    split_ifs at h with hcond
    cases h
    exact ⟨rfl, rfl, hcond.1, hcond.2⟩
  have hactive : (g.timerList i).isRunning = true → (g.timerList i).active = true := by
    intro hrunning
    simp only [TimerImpl.isRunning, Bool.and_eq_true] at hrunning
    exact hrunning.1.1
  cases c with
  | run timerId =>
    simp only [TimerHistory.runOf] at hrun
    split_ifs at hrun with ha
    cases hrun
    refine ⟨ha, hmax i, (g.timerList i).callback, ?_⟩
    simp [exec, run, started, ha]
  | set timerId d =>
    obtain ⟨rfl, rfl, hd, hrunning⟩ := hset hrun
    exact ⟨hactive hrunning, hd, _, congrArg Prod.fst (set_of_running hd hrunning)⟩
  | setCallback timerId d callback =>
    obtain ⟨rfl, rfl, hd, hrunning⟩ := hset hrun
    refine ⟨hactive hrunning, hd, some callback, ?_⟩
    simp [exec, setCallback, set_of_running hd hrunning, started, update]
  | getUniqueTimer => exact absurd hrun nofun
  | stop timerId => exact absurd hrun nofun
  | release timerId => exact absurd hrun nofun

/-- What a call leaves of a timer that it neither runs nor stops. -/
structure Kept (t t' : TimerImpl) : Prop where
  running : t'.running = t.running
  timeout : t'.timeout = t.timeout
  active : t.active = true → t'.active = true
  duration : t.duration ≤ maxTimerDuration → t'.duration ≤ maxTimerDuration

theorem Kept.refl (t : TimerImpl) : Kept t t := ⟨rfl, rfl, id, id⟩

theorem Kept.update {t' : TimerImpl} (h : Kept (g.timerList i) t') (j : ℕ) :
    Kept (g.timerList j) ((g.update i t').timerList j) := by
  rcases eq_or_ne j i with rfl | hne
  · rw [timerList_update_self]
    exact h
  · rw [timerList_update_of_ne _ hne]
    exact Kept.refl _

theorem set_of_not_running
    (hrun : ¬ (duration ≤ maxTimerDuration ∧ (g.timerList i).isRunning = true)) :
    g.set Q i duration = (g, false) ∨
      g.set Q i duration = (g.update i { g.timerList i with duration := duration }, true) ∧
        duration ≤ maxTimerDuration := by
  unfold set
  dsimp only
  by_cases hmax : duration > maxTimerDuration
  · exact Or.inl (if_pos hmax)
  rw [if_neg hmax]
  by_cases hactive : (g.timerList i).active = true
  · rw [if_neg (not_not.mpr hactive)]
    have hidle : ¬ (g.timerList i).isRunning = true := fun hr => hrun ⟨Nat.not_lt.mp hmax, hr⟩
    exact Or.inr ⟨by rw [if_neg hidle], Nat.not_lt.mp hmax⟩
  · exact Or.inl (if_pos hactive)

theorem exec_of_runOf_eq_none (hrun : TimerHistory.runOf g c = none)
    (hstop : TimerHistory.stopOf c = none) :
    (g.exec Q c).runningTimers = g.runningTimers ∧ (g.exec Q c).curTime = g.curTime ∧
      ∀ j, Kept (g.timerList j) ((g.exec Q c).timerList j) := by
  cases c with
  | getUniqueTimer =>
    exact ⟨rfl, rfl, Kept.update ⟨rfl, rfl, fun _ => rfl, id⟩⟩
  | run timerId =>
    simp only [TimerHistory.runOf, ite_eq_right_iff] at hrun
    have hactive : ¬ (g.timerList timerId).active = true := fun ha => absurd (hrun ha) nofun
    rw [exec, run, if_pos hactive]
    exact ⟨rfl, rfl, fun _ => Kept.refl _⟩
  | set timerId d =>
    have hcond : ¬ (d ≤ maxTimerDuration ∧ (g.timerList timerId).isRunning = true) := by
      intro hc
      simp [TimerHistory.runOf, hc] at hrun
    rw [exec]
    rcases set_of_not_running (Q := Q) hcond with h | ⟨h, hd⟩
    · rw [h]
      exact ⟨rfl, rfl, fun _ => Kept.refl _⟩
    · rw [h]
      exact ⟨rfl, rfl, Kept.update ⟨rfl, rfl, id, fun _ => hd⟩⟩
  | setCallback timerId d callback =>
    have hcond : ¬ (d ≤ maxTimerDuration ∧ (g.timerList timerId).isRunning = true) := by
      intro hc
      simp [TimerHistory.runOf, hc] at hrun
    rw [exec, setCallback]
    rcases set_of_not_running (Q := Q) hcond with h | ⟨h, hd⟩
    · rw [h]
      exact ⟨rfl, rfl, fun _ => Kept.refl _⟩
    · rw [h]
      refine ⟨rfl, rfl, fun j => ?_⟩
      rcases eq_or_ne j timerId with rfl | hne
      · simp only [if_true, timerList_update_self]
        exact ⟨rfl, rfl, id, fun _ => hd⟩
      · simp only [if_true, timerList_update_of_ne _ hne]
        exact Kept.refl _
  | stop timerId => exact absurd hstop nofun
  | release timerId => exact absurd hstop nofun

end TimerHandler

namespace TimerHistory

open TimerHandler

/-- A timer record agrees with the ledger, where timeouts are compared next at `base`. -/
structure Tracks (base curTime : ℕ) (queue : List TimerRun) (L : TimerLedger)
    (expired : Finset ℕ) (i : ℕ) (t : TimerImpl) : Prop where
  duration : t.duration ≤ maxTimerDuration
  idle : L.pending i = none → t.running = false
  pending : ∀ due, L.Due i due → base ≤ due ∧ t.active = true ∧ t.running = true ∧
    t.timeout = base % 2 ^ 32 + (due - base) ∧ 0 < t.timeout ∧ ⟨i, t.timeout⟩ ∈ queue
  expired : i ∈ expired → t.isExpired curTime = true

structure Inv (Q : TimerQueue) (h : TimerHistory) : Prop where
  clock : h.handler.curTime = h.now % 2 ^ 32
  ledger : h.ledger.Inv
  valid : Q.Valid h.handler.runningTimers
  window : ∀ e ∈ h.handler.runningTimers, (h.nextCheck % 2 ^ 32 ≤ e.timeout ∧
    e.timeout < h.nextCheck % 2 ^ 32 + maxTimerDuration) ∧ e.timeout < 2 ^ 32
  timers : ∀ i, Tracks h.nextCheck h.handler.curTime h.handler.runningTimers h.ledger h.expired i
    (h.handler.timerList i)

variable {Q : TimerQueue} {h : TimerHistory} {c : TimerCommand} {i : ℕ}

theorem Tracks.mono {base curTime : ℕ} {queue queue' : List TimerRun} {L L' : TimerLedger}
    {expired expired' : Finset ℕ} {t t' : TimerImpl}
    (h : Tracks base curTime queue L expired i t) (hkept : Kept t t') (hqueue : queue ⊆ queue')
    (hpending : L'.pending i = L.pending i) (hdue : ∀ due, L'.Due i due → L.Due i due)
    (hexpired : i ∈ expired' → i ∈ expired) : Tracks base curTime queue' L' expired' i t' where
  duration := hkept.duration h.duration
  idle := fun hnone => hkept.running.trans (h.idle (hpending ▸ hnone))
  pending := by
    intro due hd
    obtain ⟨hbase, hactive, hrunning, htimeout, hpos, hmem⟩ := h.pending due (hdue due hd)
    rw [hkept.timeout]
    exact ⟨hbase, hkept.active hactive, hkept.running.trans hrunning, htimeout, hpos, hqueue hmem⟩
  expired := by
    intro hmem
    have hexp := h.expired (hexpired hmem)
    simp only [TimerImpl.isExpired, Bool.and_eq_true] at hexp ⊢
    rw [hkept.running, hkept.timeout]
    exact ⟨⟨⟨hkept.active hexp.1.1.1, hexp.1.1.2⟩, hexp.1.2⟩, hexp.2⟩

theorem Inv.rankedOn (hinv : Inv Q h) : RankedOn TimerRun.lt h.handler.runningTimers :=
  TimerRun.rankedOn fun e he => (hinv.window e he).1

variable {duration : ℕ} {cs : List TimerCommand} {scripts : List (List TimerCommand)}

theorem runOk_iff (hok : h.runOk duration = true) :
    1 ≤ duration ∧ h.nextCheck ≤ h.now + duration ∧
      h.now + duration - h.nextCheck < maxTimerDuration ∧
      0 < h.nextCheck % 2 ^ 32 + (h.now + duration - h.nextCheck) ∧
      h.nextCheck % 2 ^ 32 + (h.now + duration - h.nextCheck) < 2 ^ 32 := by
  simp only [runOk, Bool.and_eq_true, decide_eq_true_eq] at hok
  obtain ⟨⟨⟨hpos, hahead⟩, hnonzero⟩, hwrap⟩ := hok
  refine ⟨hpos, ?_, hahead, hnonzero, hwrap⟩
  unfold nextCheck
  split_ifs <;> omega

theorem timeout_of_runOk (hclock : h.handler.curTime = h.now % 2 ^ 32)
    (hok : h.runOk duration = true) : (h.handler.curTime + duration) % 2 ^ 32 =
      h.nextCheck % 2 ^ 32 + (h.now + duration - h.nextCheck) := by
  obtain ⟨-, hle, -, -, hwrap⟩ := runOk_iff hok
  omega

theorem exec_eq_started (hinv : Inv Q h) (hrun : runOf h.handler c = some (i, duration)) :
    (h.handler.timerList i).active = true ∧ duration ≤ maxTimerDuration ∧
      ∃ callback, h.exec Q c =
        { h with
          handler := h.handler.started Q i duration callback
          ledger := h.ledger.start i (h.now + duration)
          expired := h.expired.erase i
          wellTimed := h.wellTimed && h.runOk duration } := by
  obtain ⟨hactive, hmax, callback, hexec⟩ :=
    exec_of_runOf (Q := Q) hrun fun j => (hinv.timers j).duration
  refine ⟨hactive, hmax, callback, ?_⟩
  rw [exec, hrun, hexec]

theorem Inv.started (hinv : Inv Q h)
    (hactive : (h.handler.timerList i).active = true) (hmax : duration ≤ maxTimerDuration)
    (hok : h.runOk duration = true) (callback : Option ℕ) (wellTimed : Bool) :
    Inv Q
      { h with
        handler := h.handler.started Q i duration callback
        ledger := h.ledger.start i (h.now + duration)
        expired := h.expired.erase i
        wellTimed := wellTimed } := by
  have htimeout := timeout_of_runOk hinv.clock hok
  obtain ⟨-, hle, hahead, hnonzero, hwrap⟩ := runOk_iff hok
  have hwindow : ∀ e ∈ ⟨i, (h.handler.curTime + duration) % 2 ^ 32⟩ :: h.handler.runningTimers,
      (h.nextCheck % 2 ^ 32 ≤ e.timeout ∧
        e.timeout < h.nextCheck % 2 ^ 32 + maxTimerDuration) ∧ e.timeout < 2 ^ 32 := by
    intro e he
    rcases List.mem_cons.mp he with rfl | he
    · change (_ ≤ (h.handler.curTime + duration) % 2 ^ 32 ∧ _ < _) ∧ _ < _
      rw [htimeout]
      exact ⟨⟨Nat.le_add_right _ _, Nat.add_lt_add_left hahead _⟩, hwrap⟩
    · exact hinv.window e he
  refine ⟨hinv.clock, hinv.ledger.start i _, ?_, ?_, ?_⟩
  · exact Q.valid_push _ _ (TimerRun.rankedOn fun e he => (hwindow e he).1) hinv.valid
  · exact fun e he => hwindow e ((Q.push_perm _ _).mem_iff.mp he)
  · intro j
    change Tracks h.nextCheck h.handler.curTime
      (Q.push ⟨i, (h.handler.curTime + duration) % 2 ^ 32⟩ h.handler.runningTimers) _ _ j
      ((h.handler.update i _).timerList j)
    rcases eq_or_ne j i with rfl | hne
    · rw [timerList_update_self]
      refine ⟨hmax, fun hnone => ?_, fun due hdue => ?_, fun hmem => ?_⟩
      · exact absurd ((h.ledger.pending_start_self j _).symm.trans hnone) nofun
      · rw [TimerLedger.Due.of_start_self hdue]
        refine ⟨hle, hactive, rfl, htimeout, ?_, Q.mem_push.mpr (Or.inl rfl)⟩
        exact htimeout.symm ▸ hnonzero
      · exact absurd hmem (Finset.notMem_erase j _)
    · rw [timerList_update_of_ne _ hne]
      refine (hinv.timers j).mono (Kept.refl _) (fun e he => Q.mem_push.mpr (Or.inr he))
        (TimerLedger.pending_start_of_ne hne) (fun due hdue => hinv.ledger.due_of_start hne hdue)
        Finset.mem_of_mem_erase

theorem Inv.stopped (hinv : Inv Q h) (t' : TimerImpl) (expired : Finset ℕ)
    (hduration : t'.duration ≤ maxTimerDuration) (hrunning : t'.running = false)
    (hsub : expired ⊆ h.expired)
    (hexpired : i ∈ expired → t'.isExpired h.handler.curTime = true) :
    Inv Q
      { h with
        handler := h.handler.update i t'
        ledger := h.ledger.cancel i
        expired := expired } := by
  refine ⟨hinv.clock, hinv.ledger.cancel i, hinv.valid, hinv.window, fun j => ?_⟩
  rcases eq_or_ne j i with rfl | hne
  · rw [timerList_update_self]
    exact ⟨hduration, fun _ => hrunning,
      fun due hdue => absurd rfl (TimerLedger.Due.of_cancel hdue).1, hexpired⟩
  · rw [timerList_update_of_ne _ hne]
    exact (hinv.timers j).mono (Kept.refl _) (fun e he => he)
      (TimerLedger.pending_cancel_of_ne hne)
      (fun due hdue => (TimerLedger.Due.of_cancel hdue).2) (fun hmem => hsub hmem)

theorem running_stop (t : TimerImpl) (curTime : ℕ) : (t.stop curTime).running = false := by
  unfold TimerImpl.stop
  dsimp only
  split_ifs <;> rfl

theorem duration_stop (t : TimerImpl) (curTime : ℕ) : (t.stop curTime).duration = t.duration := by
  unfold TimerImpl.stop
  dsimp only
  split_ifs <;> rfl

theorem isExpired_stop {t : TimerImpl} {curTime : ℕ} (hexp : t.isExpired curTime = true) :
    (t.stop curTime).isExpired curTime = true := by
  have hstill : TimerImpl.isExpired { t with running := false } curTime = true := by
    simp only [TimerImpl.isExpired, Bool.and_eq_true] at hexp ⊢
    exact ⟨⟨⟨hexp.1.1.1, rfl⟩, hexp.1.2⟩, hexp.2⟩
  unfold TimerImpl.stop
  dsimp only
  rw [if_pos hstill]
  exact hstill

theorem wellTimed_of_exec (hw : (h.exec Q c).wellTimed = true) : h.wellTimed = true := by
  unfold exec at hw
  split at hw
  · exact (Bool.and_eq_true_iff.mp hw).1
  · split at hw <;> exact hw

theorem Inv.exec (hinv : Inv Q h) (hw : (h.exec Q c).wellTimed = true) : Inv Q (h.exec Q c) := by
  cases hrun : runOf h.handler c with
  | some run =>
    obtain ⟨hactive, hmax, callback, hexec⟩ := exec_eq_started hinv hrun
    rw [hexec] at hw ⊢
    exact hinv.started hactive hmax (Bool.and_eq_true_iff.mp hw).2 callback _
  | none =>
    cases hstop : stopOf c with
    | some timerId =>
      cases c with
      | stop j =>
        have hexec : h.exec Q (.stop j) =
            { h with handler := h.handler.stop j, ledger := h.ledger.cancel j } := rfl
        rw [hexec]
        exact hinv.stopped _ h.expired ((duration_stop _ _).trans_le (hinv.timers j).duration)
          (running_stop _ _) (fun _ hmem => hmem)
          (fun hmem => isExpired_stop ((hinv.timers j).expired hmem))
      | release j =>
        have hexec : h.exec Q (.release j) =
            { h with
              handler := h.handler.clear j
              ledger := h.ledger.cancel j
              expired := h.expired.erase j } := by
          rw [TimerHistory.exec, hrun]
          simp [stopOf, TimerHandler.exec]
        rw [hexec]
        exact hinv.stopped _ (h.expired.erase j) (Nat.zero_le _) (running_stop _ _)
          (Finset.erase_subset _ _) (fun hmem => absurd hmem (Finset.notMem_erase j _))
      | _ => exact absurd hstop nofun
    | none =>
      have hexec : h.exec Q c = { h with handler := h.handler.exec Q c } := by
        rw [TimerHistory.exec, hrun, hstop]
      obtain ⟨hqueue, hcur, hkept⟩ := exec_of_runOf_eq_none (Q := Q) hrun hstop
      rw [hexec]
      refine ⟨hcur.trans hinv.clock, hinv.ledger, hqueue.symm ▸ hinv.valid,
        hqueue.symm ▸ hinv.window, fun j => ?_⟩
      change Tracks h.nextCheck (h.handler.exec Q c).curTime (h.handler.exec Q c).runningTimers
        h.ledger h.expired j ((h.handler.exec Q c).timerList j)
      rw [hqueue, hcur]
      exact (hinv.timers j).mono (hkept j) (fun e he => he) rfl (fun _ hdue => hdue) id

/-- Within a step, the entry at the top is due and its timer has no run that is due now. -/
structure AtTop (Q : TimerQueue) (h : TimerHistory) (top : TimerRun) : Prop where
  inv : Inv Q h
  inStep : h.inStep = true
  head : h.handler.runningTimers.head? = some top
  timeout : top.timeout = h.now % 2 ^ 32
  served : ¬ h.ledger.Due top.timerId h.now

theorem nextCheck_of_inStep (hstep : h.inStep = true) : h.nextCheck = h.now := if_pos hstep

theorem inStep_exec : (h.exec Q c).inStep = h.inStep := by
  unfold exec
  split
  · rfl
  · split <;> rfl

theorem now_exec : (h.exec Q c).now = h.now := by
  unfold exec
  split
  · rfl
  · split <;> rfl

theorem queue_and_due_exec (hrun : runOf h.handler c = none) :
    (h.exec Q c).handler.runningTimers = h.handler.runningTimers ∧
      ∀ j due, (h.exec Q c).ledger.Due j due → h.ledger.Due j due := by
  rw [handler_exec]
  cases hstop : stopOf c with
  | some timerId =>
    have hledger : (h.exec Q c).ledger = h.ledger.cancel timerId := by
      rw [exec, hrun, hstop]
    refine ⟨?_, fun j due hdue => ?_⟩
    · cases c with
      | stop j => rfl
      | release j => rfl
      | _ => exact absurd hstop nofun
    · rw [hledger] at hdue
      exact hdue.of_cancel.2
  | none =>
    have hledger : (h.exec Q c).ledger = h.ledger := by
      rw [exec, hrun, hstop]
    exact ⟨(exec_of_runOf_eq_none hrun hstop).1, fun j due hdue => hledger ▸ hdue⟩

variable {top : TimerRun}

theorem AtTop.exec (hat : AtTop Q h top) (hw : (h.exec Q c).wellTimed = true) :
    AtTop Q (h.exec Q c) top := by
  refine ⟨hat.inv.exec hw, inStep_exec.trans hat.inStep, ?_, now_exec.symm ▸ hat.timeout, ?_⟩
  · cases hrun : runOf h.handler c with
    | none => rw [(queue_and_due_exec hrun).1, hat.head]
    | some run =>
      obtain ⟨-, -, callback, hexec⟩ := exec_eq_started hat.inv hrun
      rw [hexec] at hw ⊢
      have hok := (Bool.and_eq_true_iff.mp hw).2
      obtain ⟨-, -, hahead, -, -⟩ := runOk_iff hok
      obtain ⟨rest, hqueue⟩ := List.head?_eq_some_iff.mp hat.head
      change (Q.push ⟨run.1, (h.handler.curTime + run.2) % 2 ^ 32⟩
        h.handler.runningTimers).head? = some top
      rw [hqueue]
      refine Q.head_push _ _ _ (Bool.eq_false_iff.mpr fun hlt => ?_)
      have htop := hat.inv.window top (hqueue ▸ List.mem_cons_self)
      have htimeout := timeout_of_runOk hat.inv.clock hok
      rw [htimeout, TimerRun.lt_iff htop.1 ⟨Nat.le_add_right _ _, Nat.add_lt_add_left hahead _⟩,
        hat.timeout, nextCheck_of_inStep hat.inStep] at hlt
      exact absurd hlt (Nat.not_lt.mpr (Nat.le_add_right _ _))
  · rw [now_exec]
    intro hdue
    cases hrun : runOf h.handler c with
    | none => exact hat.served ((queue_and_due_exec hrun).2 _ _ hdue)
    | some run =>
      obtain ⟨-, -, callback, hexec⟩ := exec_eq_started hat.inv hrun
      rw [hexec] at hw hdue
      have hpos := (runOk_iff (Bool.and_eq_true_iff.mp hw).2).1
      rcases eq_or_ne top.timerId run.1 with heq | hne
      · have hnow := TimerLedger.Due.of_start_self (heq ▸ hdue)
        omega
      · exact hat.served (hat.inv.ledger.due_of_start hne hdue)

theorem wellTimed_of_foldl_exec
    (hw : (cs.foldl (TimerHistory.exec Q) h).wellTimed = true) : h.wellTimed = true := by
  induction cs generalizing h with
  | nil => exact hw
  | cons c cs ih => exact wellTimed_of_exec (ih hw)

theorem now_foldl_exec : (cs.foldl (TimerHistory.exec Q) h).now = h.now := by
  induction cs generalizing h with
  | nil => rfl
  | cons c cs ih => exact ih.trans now_exec

theorem AtTop.foldl_exec (hat : AtTop Q h top)
    (hw : (cs.foldl (TimerHistory.exec Q) h).wellTimed = true) :
    AtTop Q (cs.foldl (TimerHistory.exec Q) h) top := by
  induction cs generalizing h with
  | nil => exact hat
  | cons c cs ih => exact ih (hat.exec (wellTimed_of_foldl_exec hw)) hw

theorem AtTop.pop (hat : AtTop Q h top) : Inv Q (h.pop Q) := by
  obtain ⟨rest, hqueue⟩ := List.head?_eq_some_iff.mp hat.head
  have hmem : ∀ {e : TimerRun}, e ∈ Q.pop h.handler.runningTimers ↔ e ∈ rest := by
    rw [hqueue]
    exact Q.mem_pop
  have hranked := hat.inv.rankedOn
  have hvalid := hat.inv.valid
  rw [hqueue] at hranked hvalid
  refine ⟨hat.inv.clock, hat.inv.ledger, ?_, fun e he => ?_, fun i => ?_⟩
  · change Q.Valid (Q.pop h.handler.runningTimers)
    rw [hqueue]
    exact Q.valid_pop _ _ hranked hvalid
  · exact hat.inv.window e (hqueue ▸ List.mem_cons_of_mem _ (hmem.mp he))
  · have htracks := hat.inv.timers i
    refine ⟨htracks.duration, htracks.idle, fun due hdue => ?_, htracks.expired⟩
    obtain ⟨hbase, hactive, hrunning, htimeout, hpos, hentry⟩ := htracks.pending due hdue
    refine ⟨hbase, hactive, hrunning, htimeout, hpos, hmem.mpr ?_⟩
    rw [hqueue] at hentry
    rcases List.mem_cons.mp hentry with rfl | hrest
    · have hlo := hat.timeout
      have hnext := nextCheck_of_inStep hat.inStep
      have hnow : due = h.now := by
        change (h.handler.timerList i).timeout = _ at hlo
        omega
      exact absurd (hnow ▸ hdue) hat.served
    · exact hrest

section

variable (hinv : Inv Q h) (hstep : h.inStep = true)
include hinv hstep

section

variable (hhead : h.handler.runningTimers.head? = some top) (hcur : h.handler.curTime ≥ top.timeout)
include hhead hcur

theorem Inv.timeout_top :
    top.timeout = h.now % 2 ^ 32 := by
  have hlo := (hinv.window top (List.mem_of_head? hhead)).1.1
  rw [nextCheck_of_inStep hstep] at hlo
  exact Nat.le_antisymm (hinv.clock ▸ hcur) hlo

theorem Inv.atTop (hnot : h.handler.triggers top = false) : AtTop Q h top := by
  have htop := hinv.timeout_top hstep hhead hcur
  refine ⟨hinv, hstep, hhead, htop, fun hdue => ?_⟩
  obtain ⟨-, hactive, hrunning, htimeout, hpos, -⟩ := (hinv.timers top.timerId).pending _ hdue
  rw [nextCheck_of_inStep hstep, Nat.sub_self, Nat.add_zero, ← htop] at htimeout
  have htriggers : h.handler.triggers top = true := by
    simp only [triggers, TimerImpl.isRunning, Bool.and_eq_true, decide_eq_true_eq]
    exact ⟨htimeout, ⟨hactive, hrunning⟩, hpos⟩
  exact absurd (htriggers.symm.trans hnot) nofun

end

theorem Inv.due_of_triggers
    (htop : top.timeout = h.now % 2 ^ 32) (htriggers : h.handler.triggers top = true) :
    h.ledger.Due top.timerId h.now := by
  simp only [triggers, TimerImpl.isRunning, Bool.and_eq_true, decide_eq_true_eq] at htriggers
  obtain ⟨htimeout, ⟨-, hrunning⟩, -⟩ := htriggers
  have htracks := hinv.timers top.timerId
  cases hpending : h.ledger.pending top.timerId with
  | none => exact absurd ((htracks.idle hpending).symm.trans hrunning) nofun
  | some k =>
    obtain ⟨due, hdue⟩ := hinv.ledger.exists_due hpending
    obtain ⟨hbase, -, -, hdist, -⟩ := htracks.pending due hdue
    rw [nextCheck_of_inStep hstep] at hbase hdist
    have hnow : due = h.now := by omega
    exact hnow ▸ hdue

theorem Inv.fire
    (hhead : h.handler.runningTimers.head? = some top) (hcur : h.handler.curTime ≥ top.timeout)
    (htriggers : h.handler.triggers top = true) : AtTop Q (h.fire top.timerId) top := by
  have htop := hinv.timeout_top hstep hhead hcur
  have hdue := hinv.due_of_triggers hstep htop htriggers
  obtain ⟨-, hactive, -, -, hpos, -⟩ := (hinv.timers top.timerId).pending _ hdue
  have htimeout : (h.handler.timerList top.timerId).timeout = top.timeout := by
    simp only [triggers, Bool.and_eq_true, decide_eq_true_eq] at htriggers
    exact htriggers.1
  refine ⟨⟨hinv.clock, hinv.ledger.fire hdue, hinv.valid, hinv.window, fun j => ?_⟩, hstep, hhead,
    htop, fun hd => hd.of_fire.1 rfl⟩
  change Tracks h.nextCheck h.handler.curTime h.handler.runningTimers
    (h.ledger.fire top.timerId h.now) (insert top.timerId h.expired) j
    ((h.handler.update top.timerId _).timerList j)
  rcases eq_or_ne j top.timerId with rfl | hne
  · rw [timerList_update_self]
    refine ⟨(hinv.timers _).duration, fun _ => rfl, fun due hd => absurd rfl hd.of_fire.1,
      fun _ => ?_⟩
    simp only [TimerImpl.isExpired, Bool.and_eq_true, decide_eq_true_eq]
    exact ⟨⟨⟨hactive, rfl⟩, hpos⟩, htimeout.symm ▸ hcur⟩
  · rw [timerList_update_of_ne _ hne]
    exact (hinv.timers j).mono (Kept.refl _) (fun e he => he) (Function.update_of_ne hne _ _)
      (fun due hd => hd.of_fire.2) (fun hmem => Finset.mem_of_mem_insert_of_ne hmem hne)

end

theorem wellTimed_of_stepLoop {fuel : ℕ}
    (hw : (stepLoop Q fuel h scripts).wellTimed = true) : h.wellTimed = true := by
  induction fuel generalizing h scripts with
  | zero => exact hw
  | succ fuel ih =>
    unfold stepLoop at hw
    cases hqueue : h.handler.runningTimers with
    | nil =>
      rw [hqueue] at hw
      exact hw
    | cons top rest =>
      rw [hqueue] at hw
      dsimp only at hw
      split_ifs at hw
      · have hpop := ih hw
        exact wellTimed_of_foldl_exec (h := h.fire top.timerId) hpop
      · have hpop := ih hw
        exact hpop
      · have hpop := ih hw
        exact hpop
      · exact hw

theorem Inv.stepLoop {fuel : ℕ} (hinv : Inv Q h)
    (hstep : h.inStep = true) (hw : (stepLoop Q fuel h scripts).wellTimed = true) :
    Inv Q (stepLoop Q fuel h scripts) ∧ (stepLoop Q fuel h scripts).inStep = true ∧
      (stepLoop Q fuel h scripts).now = h.now := by
  induction fuel generalizing h scripts with
  | zero => exact ⟨hinv, hstep, rfl⟩
  | succ fuel ih =>
    unfold TimerHistory.stepLoop at hw ⊢
    cases hqueue : h.handler.runningTimers with
    | nil => exact ⟨hinv, hstep, rfl⟩
    | cons top rest =>
      rw [hqueue] at hw
      dsimp only at hw ⊢
      have hhead : h.handler.runningTimers.head? = some top := hqueue ▸ rfl
      split_ifs at hw ⊢ with hcur htriggers hcallback
      · have hwell := wellTimed_of_stepLoop hw
        have hat := (hinv.fire hstep hhead hcur htriggers).foldl_exec hwell
        obtain ⟨hinv', hstep', hnow⟩ := ih hat.pop hat.inStep hw
        exact ⟨hinv', hstep', hnow.trans now_foldl_exec⟩
      · have hat := hinv.fire hstep hhead hcur htriggers
        exact ih hat.pop hat.inStep hw
      · have hat := hinv.atTop hstep hhead hcur (Bool.eq_false_iff.mpr htriggers)
        exact ih hat.pop hat.inStep hw
      · exact ⟨hinv, hstep, rfl⟩

def AddsAtMost (n : ℕ) (g g' : TimerHandler) : Prop :=
  g.runningTimers.length ≤ g'.runningTimers.length ∧
    g'.runningTimers.length ≤ g.runningTimers.length + n

theorem addsAtMost_of_eq {g g' : TimerHandler} (h : g'.runningTimers = g.runningTimers) (n : ℕ) :
    AddsAtMost n g g' := by
  rw [AddsAtMost, h]
  exact ⟨Nat.le_refl _, Nat.le_add_right _ _⟩

theorem addsAtMost_run (g : TimerHandler) (i : ℕ) : AddsAtMost 1 g (g.run Q i) := by
  unfold TimerHandler.run
  dsimp only
  split_ifs
  · have hlength := (Q.push_perm ⟨i, (g.curTime + (g.timerList i).duration) % 2 ^ 32⟩
      g.runningTimers).length_eq
    exact ⟨hlength ▸ Nat.le_succ _, hlength.le⟩
  · exact addsAtMost_of_eq rfl 1

theorem addsAtMost_set (g : TimerHandler) (i duration : ℕ) :
    AddsAtMost 1 g (g.set Q i duration).1 := by
  unfold TimerHandler.set
  dsimp only
  split_ifs
  · exact addsAtMost_of_eq rfl 1
  · exact addsAtMost_run (g.update i _) i
  · exact addsAtMost_of_eq rfl 1
  · exact addsAtMost_of_eq rfl 1

theorem addsAtMost_exec (g : TimerHandler) (c : TimerCommand) : AddsAtMost 1 g (g.exec Q c) := by
  cases c with
  | getUniqueTimer => exact addsAtMost_of_eq rfl 1
  | set timerId duration => exact addsAtMost_set g timerId duration
  | setCallback timerId duration callback =>
    have hset := addsAtMost_set (Q := Q) g timerId duration
    simp only [TimerHandler.exec, TimerHandler.setCallback]
    split_ifs
    · exact hset
    · exact hset
  | run timerId => exact addsAtMost_run g timerId
  | stop timerId => exact addsAtMost_of_eq rfl 1
  | release timerId => exact addsAtMost_of_eq rfl 1

theorem addsAtMost_foldl_exec (g : TimerHandler) (cs : List TimerCommand) :
    AddsAtMost cs.length g (cs.foldl (TimerHandler.exec Q) g) := by
  induction cs generalizing g with
  | nil => exact addsAtMost_of_eq rfl 0
  | cons c cs ih =>
    have hstep := addsAtMost_exec (Q := Q) g c
    have hrest := ih (g.exec Q c)
    unfold AddsAtMost at hstep hrest ⊢
    rw [List.foldl_cons, List.length_cons]
    omega

theorem length_pop {g : TimerHandler} (hpos : 0 < g.runningTimers.length) :
    (g.pop Q).runningTimers.length + 1 = g.runningTimers.length := by
  unfold TimerHandler.pop
  cases hqueue : g.runningTimers with
  | nil => exact absurd hpos (by simp [hqueue])
  | cons x q => exact congrArg (· + 1) (Q.pop_perm x q).length_eq

theorem length_headD_add (scripts : List (List TimerCommand)) :
    (scripts.headD []).length + (scripts.tail.map List.length).sum =
      (scripts.map List.length).sum := by
  cases scripts with
  | nil => rfl
  | cons script scripts => exact (List.sum_cons ..).symm

theorem stepLoop_done (fuel : ℕ) (g : TimerHandler) (scripts : List (List TimerCommand))
    (hfuel : g.stepFuel scripts ≤ fuel) :
    ∀ top, (TimerHandler.stepLoop Q fuel g scripts).runningTimers.head? = some top →
      (TimerHandler.stepLoop Q fuel g scripts).curTime < top.timeout := by
  induction fuel generalizing g scripts with
  | zero =>
    intro top htop
    have hnil : g.runningTimers = [] :=
      List.length_eq_zero_iff.mp (by unfold stepFuel at hfuel; omega)
    exact absurd htop (by simp [TimerHandler.stepLoop, hnil])
  | succ fuel ih =>
    unfold TimerHandler.stepLoop
    cases hqueue : g.runningTimers with
    | nil =>
      intro top htop
      rw [hqueue] at htop
      exact absurd htop nofun
    | cons first rest =>
      have hpos : 0 < g.runningTimers.length := hqueue ▸ Nat.succ_pos _
      unfold stepFuel at ih hfuel
      dsimp only
      split_ifs with hcur htriggers hcallback
      · refine ih _ _ ?_
        have hadds := addsAtMost_foldl_exec (Q := Q) (g.fire first.timerId) (scripts.headD [])
        have hpop := length_pop (Q := Q) (hpos.trans_le hadds.1)
        have hscripts := length_headD_add scripts
        have hupper : _ ≤ g.runningTimers.length + _ := hadds.2
        omega
      · refine ih _ _ ?_
        have hpop := length_pop (Q := Q) (g := g.fire first.timerId) hpos
        change _ = g.runningTimers.length at hpop
        omega
      · refine ih _ _ ?_
        have hpop := length_pop (Q := Q) hpos
        omega
      · intro top htop
        rw [hqueue] at htop
        exact Option.some.inj htop ▸ Nat.not_le.mp hcur

theorem Inv.endStep (hinv : Inv Q h) (hstep : h.inStep = true)
    (hdone : ∀ top, h.handler.runningTimers.head? = some top → h.handler.curTime < top.timeout) :
    Inv Q { h with inStep := false } := by
  have hnext := nextCheck_of_inStep hstep
  have hlater : ∀ e ∈ h.handler.runningTimers, h.now % 2 ^ 32 < e.timeout := by
    cases hqueue : h.handler.runningTimers with
    | nil => exact List.forall_mem_nil _
    | cons top rest =>
      have htop : h.now % 2 ^ 32 < top.timeout := hinv.clock ▸ hdone top (hqueue ▸ rfl)
      intro e he
      rcases List.mem_cons.mp he with rfl | hrest
      · exact htop
      · have hgreatest := Q.greatest top rest (hqueue ▸ hinv.rankedOn) (hqueue ▸ hinv.valid) e hrest
        have hwindow := hinv.window
        rw [hqueue] at hwindow
        refine htop.trans_le (Nat.not_lt.mp fun hlt => ?_)
        exact Bool.false_ne_true (hgreatest.symm.trans
          ((TimerRun.lt_iff (hwindow top List.mem_cons_self).1 (hwindow e he).1).mpr hlt))
  refine ⟨hinv.clock, hinv.ledger, hinv.valid, fun e he => ?_, fun i => ?_⟩
  · have hwindow := hinv.window e he
    have hlt := hlater e he
    rw [hnext] at hwindow
    change ((h.now + 1) % 2 ^ 32 ≤ e.timeout ∧
      e.timeout < (h.now + 1) % 2 ^ 32 + maxTimerDuration) ∧ e.timeout < 2 ^ 32
    omega
  · have htracks := hinv.timers i
    refine ⟨htracks.duration, htracks.idle, fun due hdue => ?_, htracks.expired⟩
    obtain ⟨hbase, hactive, hrunning, htimeout, hpos, hentry⟩ := htracks.pending due hdue
    have hlt := hlater _ hentry
    have hwrap := (hinv.window _ hentry).2
    rw [hnext] at hbase htimeout
    change h.now % 2 ^ 32 < (h.handler.timerList i).timeout at hlt
    change (h.handler.timerList i).timeout < 2 ^ 32 at hwrap
    refine ⟨?_, hactive, hrunning, ?_, hpos, hentry⟩
    · change h.now + 1 ≤ due
      omega
    · change (h.handler.timerList i).timeout = (h.now + 1) % 2 ^ 32 + (due - (h.now + 1))
      omega

theorem Inv.beginStep (hinv : Inv Q h) (hstep : h.inStep = false) (wellTimed : Bool)
    (hwrap : (h.handler.curTime + 1) % 2 ^ 32 ≠ 0 ∨ h.expired = ∅) :
    Inv Q
      { h with
        handler := { h.handler with curTime := (h.handler.curTime + 1) % 2 ^ 32 }
        now := h.now + 1
        inStep := true
        wellTimed := wellTimed } := by
  have hnext : h.nextCheck = h.now + 1 := by
    rw [nextCheck, hstep]
    rfl
  have hclock := hinv.clock
  have hwindow := hinv.window
  have htimers := hinv.timers
  rw [hnext] at hwindow htimers
  refine ⟨?_, hinv.ledger, hinv.valid, hwindow, fun i => ?_⟩
  · change (h.handler.curTime + 1) % 2 ^ 32 = (h.now + 1) % 2 ^ 32
    omega
  · refine ⟨(htimers i).duration, (htimers i).idle, (htimers i).pending, fun hmem => ?_⟩
    have hexp := (htimers i).expired hmem
    rcases hwrap with hwrap | hempty
    · simp only [TimerImpl.isExpired, Bool.and_eq_true, decide_eq_true_eq] at hexp ⊢
      exact ⟨hexp.1, by omega⟩
    · exact absurd (hempty ▸ hmem) (Finset.notMem_empty i)

theorem Inv.stepAll (hinv : Inv Q h)
    (hstep : h.inStep = false) (hw : (h.stepAll Q scripts).wellTimed = true) :
    Inv Q (h.stepAll Q scripts) := by
  have hbegin := Bool.and_eq_true_iff.mp (wellTimed_of_stepLoop (Q := Q) hw)
  have hwrap := hbegin.2
  simp only [Bool.or_eq_true, decide_eq_true_eq] at hwrap
  obtain ⟨hloop, hstep', -⟩ := (hinv.beginStep hstep _ hwrap).stepLoop rfl hw
  refine hloop.endStep hstep' ?_
  rw [handler_stepLoop]
  exact stepLoop_done _ _ _ (Nat.le_refl _)

theorem inv_init : Inv Q init where
  clock := rfl
  ledger := TimerLedger.inv_empty
  valid := Q.valid_nil
  window := List.forall_mem_nil _
  timers := fun _ =>
    ⟨Nat.zero_le _, fun _ => rfl, fun _ ⟨_, hk, _⟩ => absurd hk nofun,
      fun hmem => absurd hmem (Finset.notMem_empty _)⟩

theorem wellTimed_of_step {e : Event} (hw : (h.step Q e).wellTimed = true) :
    h.wellTimed = true := by
  cases e with
  | call c => exact wellTimed_of_exec hw
  | stepAll scripts => exact (Bool.and_eq_true_iff.mp (wellTimed_of_stepLoop (Q := Q) hw)).1

theorem wellTimed_of_foldl_step {events : List Event}
    (hw : (events.foldl (step Q) h).wellTimed = true) : h.wellTimed = true := by
  induction events generalizing h with
  | nil => exact hw
  | cons e events ih => exact wellTimed_of_step (ih hw)

theorem Inv.foldl_step (events : List Event) (hinv : Inv Q h) (hstep : h.inStep = false)
    (hw : (events.foldl (step Q) h).wellTimed = true) :
    Inv Q (events.foldl (step Q) h) ∧ (events.foldl (step Q) h).inStep = false := by
  induction events generalizing h with
  | nil => exact ⟨hinv, hstep⟩
  | cons e events ih =>
    have hwell : (h.step Q e).wellTimed = true := wellTimed_of_foldl_step hw
    cases e with
    | call c => exact ih (hinv.exec hwell) (inStep_exec.trans hstep) hw
    | stepAll scripts => exact ih (hinv.stepAll hstep hwell) rfl hw

/-- In every run of the timer service whose runs are well timed: each firing is for a run of its
timer that was not stopped or superseded, at the time that run was due, and no run fires twice;
each run that was due until now and was not stopped or superseded has fired; and the timers that
have fired and were not run since are expired and do not run. -/
theorem fires_once_when_due (Q : TimerQueue) (events : List Event)
    (hw : (events.foldl (step Q) init).wellTimed = true) :
    let h := events.foldl (step Q) init
    h.ledger.Timely ∧ h.ledger.CompleteAt h.now ∧
      ∀ i ∈ h.expired, (h.handler.timerList i).isExpired h.handler.curTime = true ∧
        (h.handler.timerList i).isRunning = false := by
  obtain ⟨hinv, hstep⟩ := (inv_init (Q := Q)).foldl_step events rfl hw
  refine ⟨hinv.ledger.timely, hinv.ledger.completeAt fun i due hdue => ?_, fun i hi => ?_⟩
  · have hbase := ((hinv.timers i).pending due hdue).1
    rw [nextCheck, hstep] at hbase
    exact hbase
  · have hexp := (hinv.timers i).expired hi
    refine ⟨hexp, ?_⟩
    simp only [TimerImpl.isExpired, Bool.and_eq_true] at hexp
    have hrunning := (Bool.not_eq_true' _).mp hexp.1.1.2
    rw [TimerImpl.isRunning, hrunning, Bool.and_false, Bool.false_and]

/-- Timer 0 runs for two steps. Its callback runs it again, starts timer 1 and stops it, and starts
timer 1 once more. -/
def rerunFromCallback : List Event :=
  [.call .getUniqueTimer, .call .getUniqueTimer, .call (.setCallback 0 2 7),
    .call (.setCallback 1 1 8), .call (.run 0), .stepAll [],
    .stepAll [[.run 0, .run 1, .stop 1, .run 1]], .stepAll [], .stepAll []]

theorem fires_once_when_due_rerun :
    let h := rerunFromCallback.foldl (step (PriorityQueue.sorted _)) init
    h.ledger.firings = [(some 0, 0, 2), (some 3, 1, 3), (some 1, 0, 4)] ∧
      h.ledger.Timely ∧ h.ledger.CompleteAt h.now := by
  have hfires := fires_once_when_due (PriorityQueue.sorted _) rerunFromCallback
    (by decide +kernel)
  exact ⟨by decide +kernel, hfires.1, hfires.2.1⟩

/-- The history with one timer of duration 3, after `n` steps. -/
def idle (n : ℕ) : TimerHistory :=
  { [Event.call .getUniqueTimer, .call (.setCallback 0 3 7)].foldl
      (step (PriorityQueue.sorted _)) init with
    handler :=
      { ([Event.call .getUniqueTimer, .call (.setCallback 0 3 7)].foldl
          (step (PriorityQueue.sorted _)) init).handler with
        curTime := n % 2 ^ 32 }
    now := n }

theorem stepAll_of_empty (hqueue : h.handler.runningTimers = []) (hstep : h.inStep = false)
    (hexpired : h.expired = ∅) :
    h.stepAll Q [] =
      { h with
        handler := { h.handler with curTime := (h.handler.curTime + 1) % 2 ^ 32 }
        now := h.now + 1 } := by
  obtain ⟨⟨timerList, size, queue, curTime⟩, now, inStep, ledger, expired, wellTimed⟩ := h
  obtain rfl : queue = [] := hqueue
  obtain rfl : inStep = false := hstep
  obtain rfl : expired = ∅ := hexpired
  simp [TimerHistory.stepAll, stepFuel, TimerHistory.stepLoop]

theorem step_idle (n : ℕ) :
    (idle n).step (PriorityQueue.sorted _) (.stepAll []) = idle (n + 1) := by
  have hmod : (n % 2 ^ 32 + 1) % 2 ^ 32 = (n + 1) % 2 ^ 32 := by omega
  refine (stepAll_of_empty (h := idle n) rfl rfl rfl).trans ?_
  change { idle n with
      handler := { (idle n).handler with curTime := (n % 2 ^ 32 + 1) % 2 ^ 32 }, now := n + 1 } = _
  rw [hmod]
  rfl

theorem foldl_step_idle (n : ℕ) :
    (List.replicate n (Event.stepAll [])).foldl (step (PriorityQueue.sorted _)) (idle 0) =
      idle n := by
  induction n with
  | zero => rfl
  | succ n ih => rw [List.replicate_succ', List.foldl_concat, ih, step_idle]

def wrappedRun : List Event :=
  [.call .getUniqueTimer, .call (.setCallback 0 3 7)] ++
    List.replicate (2 ^ 32 - 2) (.stepAll []) ++ [.call (.run 0), .stepAll []]

/-- A timeout that wraps is due at once. -/
theorem wrappedRun_fires_early :
    let h := wrappedRun.foldl (step (PriorityQueue.sorted _)) init
    h.ledger.runs = [(0, 2 ^ 32 + 1)] ∧ h.ledger.firings = [(some 0, 0, 2 ^ 32 - 1)] ∧
      ¬ h.ledger.Timely := by
  have hidle : wrappedRun.foldl (step (PriorityQueue.sorted _)) init =
      [Event.call (.run 0), .stepAll []].foldl (step (PriorityQueue.sorted _))
        (idle (2 ^ 32 - 2)) := by
    rw [wrappedRun, List.foldl_append, List.foldl_append, ← foldl_step_idle]
    rfl
  have hdue : (wrappedRun.foldl (step (PriorityQueue.sorted _)) init).ledger.runs =
      [(0, 2 ^ 32 + 1)] := by
    rw [hidle]
    decide +kernel
  have hfired : (wrappedRun.foldl (step (PriorityQueue.sorted _)) init).ledger.firings =
      [(some 0, 0, 2 ^ 32 - 1)] := by
    rw [hidle]
    decide +kernel
  refine ⟨hdue, hfired, fun htimely => ?_⟩
  obtain ⟨k, hk, hrun, -⟩ := htimely.1 _ (hfired ▸ List.mem_singleton_self _)
  obtain rfl := Option.some.inj hk
  rw [hdue] at hrun
  exact absurd hrun (by decide)

end TimerHistory
end SrsLte
