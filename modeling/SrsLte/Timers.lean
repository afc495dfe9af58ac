import Mathlib.Algebra.Order.Ring.Nat
import Mathlib.Data.Finset.Basic
import Mathlib.Data.List.Nodup
import Mathlib.Logic.Function.Basic
import Mathlib.Tactic.Common
import SrsLte.PriorityQueue

/-!
# Timers

`timer_handler` keeps its timers in `timer_list` and an entry for each `run()` in a priority queue.
A timer that is stopped or run again leaves its entry in the queue, where it is recognised by its
timeout. All values have 32 bits. A callback is arbitrary code: what it calls on the handler is a
list of commands given from outside, one list for each callback that a step calls.
-/

namespace SrsLte

def maxTimerDuration : ℕ := (2 ^ 32 - 1) / 4

def maxTimerValue : ℕ := (2 ^ 32 - 1) / 2

structure TimerImpl where
  duration : ℕ
  timeout : ℕ
  running : Bool
  active : Bool
  callback : Option ℕ
  deriving DecidableEq

namespace TimerImpl

def isRunning (t : TimerImpl) : Bool := t.active && t.running && t.timeout > 0

def isExpired (t : TimerImpl) (curTime : ℕ) : Bool :=
  t.active && !t.running && t.timeout > 0 && t.timeout ≤ curTime

def stop (t : TimerImpl) (curTime : ℕ) : TimerImpl :=
  let t' := { t with running := false }
  if t'.isExpired curTime then t' else { t' with timeout := 0 }

def clear (t : TimerImpl) (curTime : ℕ) : TimerImpl :=
  { t.stop curTime with duration := 0, active := false, callback := none }

end TimerImpl

structure TimerRun where
  timerId : ℕ
  timeout : ℕ
  deriving DecidableEq

/-- `operator<`: the other timeout comes first, up to wrap around. -/
def TimerRun.lt (a b : TimerRun) : Bool :=
  if a.timeout > b.timeout then a.timeout - b.timeout < maxTimerValue / 2
  else b.timeout - a.timeout > maxTimerValue / 2

abbrev TimerQueue := PriorityQueue TimerRun TimerRun.lt

structure TimerHandler where
  timerList : ℕ → TimerImpl
  size : ℕ
  runningTimers : List TimerRun
  curTime : ℕ

inductive TimerCommand
  | getUniqueTimer
  | set (timerId duration : ℕ)
  | setCallback (timerId duration callback : ℕ)
  | run (timerId : ℕ)
  | stop (timerId : ℕ)
  | release (timerId : ℕ)
  deriving DecidableEq

namespace TimerHandler

def init : TimerHandler where
  timerList := fun _ =>
    { duration := 0, timeout := 0, running := false, active := false, callback := none }
  size := 0
  runningTimers := []
  curTime := 0

variable (Q : TimerQueue) (h : TimerHandler)

def update (timerId : ℕ) (t : TimerImpl) : TimerHandler :=
  { h with timerList := Function.update h.timerList timerId t }

@[simp] theorem timerList_update_self (i : ℕ) (t : TimerImpl) :
    (h.update i t).timerList i = t :=
  Function.update_self _ _ _

@[simp] theorem timerList_update_of_ne {i j : ℕ} (hne : j ≠ i) (t : TimerImpl) :
    (h.update i t).timerList j = h.timerList j :=
  Function.update_of_ne hne _ _

def run (timerId : ℕ) : TimerHandler :=
  let t := h.timerList timerId
  if ¬ t.active then h
  else
    let timeout := (h.curTime + t.duration) % 2 ^ 32
    { h.update timerId { t with timeout := timeout, running := true } with
      runningTimers := Q.push ⟨timerId, timeout⟩ h.runningTimers }

def set (timerId duration : ℕ) : TimerHandler × Bool :=
  let t := h.timerList timerId
  if duration > maxTimerDuration then (h, false)
  else if ¬ t.active then (h, false)
  else
    let h' := h.update timerId { t with duration := duration }
    (if t.isRunning then h'.run Q timerId else h', true)

def setCallback (timerId duration callback : ℕ) : TimerHandler × Bool :=
  let (h', ok) := h.set Q timerId duration
  if ok then (h'.update timerId { h'.timerList timerId with callback := some callback }, true)
  else (h', false)

def stop (timerId : ℕ) : TimerHandler :=
  h.update timerId ((h.timerList timerId).stop h.curTime)

def clear (timerId : ℕ) : TimerHandler :=
  h.update timerId ((h.timerList timerId).clear h.curTime)

def getUniqueTimer : TimerHandler × ℕ :=
  let i := ((List.range h.size).find? fun i => ¬ (h.timerList i).active).getD h.size
  ({ h.update i { h.timerList i with active := true } with size := max h.size (i + 1) }, i)

def exec : TimerCommand → TimerHandler
  | .getUniqueTimer => h.getUniqueTimer.1
  | .set timerId duration => (h.set Q timerId duration).1
  | .setCallback timerId duration callback => (h.setCallback Q timerId duration callback).1
  | .run timerId => h.run Q timerId
  | .stop timerId => h.stop timerId
  | .release timerId => h.clear timerId

/-- The part of `trigger()` before the callback. -/
def fire (timerId : ℕ) : TimerHandler :=
  h.update timerId { h.timerList timerId with running := false }

def pop : TimerHandler := { h with runningTimers := Q.pop h.runningTimers }

/-- Whether `trigger()` of the timer of this entry does anything. -/
def triggers (top : TimerRun) : Bool :=
  (h.timerList top.timerId).timeout = top.timeout && (h.timerList top.timerId).isRunning

/-- The loop of `step_all`. Each callback that is called takes the next list of commands. -/
def stepLoop : ℕ → TimerHandler → List (List TimerCommand) → TimerHandler
  | 0, h, _ => h
  | fuel + 1, h, scripts =>
    match h.runningTimers with
    | [] => h
    | top :: _ =>
      if h.curTime ≥ top.timeout then
        if h.triggers top then
          if (h.timerList top.timerId).callback.isSome then
            stepLoop fuel (((scripts.headD []).foldl (exec Q) (h.fire top.timerId)).pop Q)
              scripts.tail
          else stepLoop fuel ((h.fire top.timerId).pop Q) scripts
        else stepLoop fuel (h.pop Q) scripts
      else h

/-- Passes that the loop can make: one for each entry of the queue, now or pushed later. -/
def stepFuel (scripts : List (List TimerCommand)) : ℕ :=
  h.runningTimers.length + (scripts.map List.length).sum

end TimerHandler
end SrsLte

/-!
What a timer service is for, on a clock that does not wrap: each run of a timer has a time at which
it is due. It is pending until it fires or is cancelled, and a new run of the timer cancels the one
that is pending.
-/

structure TimerLedger where
  runs : List (ℕ × ℕ)
  pending : ℕ → Option ℕ
  cancelled : List ℕ
  firings : List (Option ℕ × ℕ × ℕ)

namespace TimerLedger

variable (L : TimerLedger)

def empty : TimerLedger where
  runs := []
  pending := fun _ => none
  cancelled := []
  firings := []

def cancel (timer : ℕ) : TimerLedger :=
  { L with
    pending := Function.update L.pending timer none
    cancelled := L.cancelled ++ (L.pending timer).toList }

def start (timer due : ℕ) : TimerLedger :=
  { L.cancel timer with
    runs := L.runs ++ [(timer, due)]
    pending := Function.update L.pending timer (some L.runs.length) }

def fire (timer now : ℕ) : TimerLedger :=
  { L with
    pending := Function.update L.pending timer none
    firings := L.firings ++ [(L.pending timer, timer, now)] }

/-- The pending run of the timer is due at `due`. -/
def Due (timer due : ℕ) : Prop := ∃ k, L.pending timer = some k ∧ L.runs[k]? = some (timer, due)

/-- Each firing is for one run of its timer, not cancelled, at the time the run is due. -/
def Timely : Prop :=
  (∀ f ∈ L.firings, ∃ k, f.1 = some k ∧ L.runs[k]? = some f.2 ∧ k ∉ L.cancelled) ∧
    (L.firings.map Prod.fst).Nodup

/-- The runs that were due until `now` were cancelled or have fired. -/
def CompleteAt (now : ℕ) : Prop :=
  ∀ k timer due, L.runs[k]? = some (timer, due) → due ≤ now → k ∉ L.cancelled →
    ∃ f ∈ L.firings, f.1 = some k

structure Inv : Prop where
  pending : ∀ timer k, L.pending timer = some k →
    (∃ due, L.runs[k]? = some (timer, due)) ∧ k ∉ L.cancelled ∧ ∀ f ∈ L.firings, f.1 ≠ some k
  timely : L.Timely
  cancelled : ∀ k ∈ L.cancelled, k < L.runs.length
  settled : ∀ k < L.runs.length,
    k ∈ L.cancelled ∨ (∃ f ∈ L.firings, f.1 = some k) ∨ ∃ timer, L.pending timer = some k

theorem inv_empty : empty.Inv where
  pending := nofun
  timely := ⟨List.forall_mem_nil _, List.nodup_nil⟩
  cancelled := List.forall_mem_nil _
  settled := fun _ hk => absurd hk (Nat.not_lt_zero _)

variable {L} {timer : ℕ}

variable {k other due now : ℕ}

theorem Inv.exists_due (h : L.Inv) (hk : L.pending timer = some k) :
    ∃ due, L.Due timer due :=
  let ⟨due, hdue⟩ := (h.pending timer k hk).1
  ⟨due, k, hk, hdue⟩

theorem Inv.pending_unique (h : L.Inv) (hk : L.pending timer = some k)
    (hk' : L.pending other = some k) : timer = other := by
  obtain ⟨due, hdue⟩ := (h.pending timer k hk).1
  obtain ⟨due', hdue'⟩ := (h.pending other k hk').1
  exact congrArg Prod.fst (Option.some.inj (hdue.symm.trans hdue'))

theorem Inv.cancel (h : L.Inv) (timer : ℕ) : (L.cancel timer).Inv where
  pending := by
    intro other k hk
    rcases eq_or_ne other timer with rfl | hne
    · simp [TimerLedger.cancel] at hk
    · have hk' : L.pending other = some k := by simpa [TimerLedger.cancel, hne] using hk
      obtain ⟨hrun, hcancelled, hfirings⟩ := h.pending other k hk'
      refine ⟨hrun, fun hmem => ?_, hfirings⟩
      rcases List.mem_append.mp hmem with hmem | hmem
      · exact hcancelled hmem
      · exact hne (h.pending_unique hk' (Option.mem_toList.mp hmem))
  timely := by
    refine ⟨fun f hf => ?_, h.timely.2⟩
    obtain ⟨k, hk, hrun, hcancelled⟩ := h.timely.1 f hf
    refine ⟨k, hk, hrun, fun hmem => ?_⟩
    rcases List.mem_append.mp hmem with hmem | hmem
    · exact hcancelled hmem
    · exact (h.pending timer k (Option.mem_toList.mp hmem)).2.2 f hf hk
  cancelled := by
    intro k hmem
    rcases List.mem_append.mp hmem with hmem | hmem
    · exact h.cancelled k hmem
    · obtain ⟨due, hdue⟩ := (h.pending timer k (Option.mem_toList.mp hmem)).1
      exact (List.getElem?_eq_some_iff.mp hdue).1
  settled := by
    intro k hk
    rcases h.settled k hk with hmem | hfired | ⟨other, hother⟩
    · exact Or.inl (List.mem_append_left _ hmem)
    · exact Or.inr (Or.inl hfired)
    · rcases eq_or_ne other timer with rfl | hne
      · exact Or.inl (List.mem_append_right _ (Option.mem_toList.mpr hother))
      · exact Or.inr (Or.inr ⟨other, by simpa [TimerLedger.cancel, hne] using hother⟩)

theorem pending_cancel_of_ne (hne : other ≠ timer) :
    (L.cancel timer).pending other = L.pending other :=
  Function.update_of_ne hne _ _

theorem pending_start_of_ne (hne : other ≠ timer) :
    (L.start timer due).pending other = L.pending other :=
  Function.update_of_ne hne _ _

theorem pending_start_self (L : TimerLedger) (timer due : ℕ) :
    (L.start timer due).pending timer = some L.runs.length :=
  Function.update_self _ _ _

theorem getElem?_runs_start {r : ℕ × ℕ} (hr : L.runs[k]? = some r) (timer due : ℕ) :
    (L.start timer due).runs[k]? = some r :=
  (List.getElem?_append_left (List.getElem?_eq_some_iff.mp hr).1).trans hr

theorem Inv.start (h : L.Inv) (timer due : ℕ) : (L.start timer due).Inv where
  pending := by
    intro other k hk
    rcases eq_or_ne other timer with rfl | hne
    · obtain rfl := Option.some.inj ((L.pending_start_self other due).symm.trans hk)
      refine ⟨⟨due, List.getElem?_concat_length⟩, fun hmem => ?_, fun f hf hrun => ?_⟩
      · exact absurd ((h.cancel other).cancelled _ hmem) (Nat.lt_irrefl _)
      · obtain ⟨k, hk', hr, -⟩ := h.timely.1 f hf
        obtain rfl := Option.some.inj (hk'.symm.trans hrun)
        exact absurd (List.getElem?_eq_some_iff.mp hr).1 (Nat.lt_irrefl _)
    · have hk' : (L.cancel timer).pending other = some k := by
        rw [pending_cancel_of_ne hne, ← pending_start_of_ne hne]
        exact hk
      obtain ⟨⟨due', hrun⟩, hrest⟩ := (h.cancel timer).pending other k hk'
      exact ⟨⟨due', getElem?_runs_start hrun timer due⟩, hrest⟩
  timely := by
    refine ⟨fun f hf => ?_, h.timely.2⟩
    obtain ⟨k, hk, hrun, hcancelled⟩ := (h.cancel timer).timely.1 f hf
    exact ⟨k, hk, getElem?_runs_start hrun timer due, hcancelled⟩
  cancelled := by
    intro k hmem
    have hlt := (h.cancel timer).cancelled k hmem
    exact Nat.lt_of_lt_of_le hlt (List.length_append ▸ Nat.le_add_right _ _)
  settled := by
    intro k hk
    have hle : k < L.runs.length + 1 := by
      simpa [TimerLedger.start] using hk
    rcases Nat.lt_succ_iff_lt_or_eq.mp hle with hlt | rfl
    · rcases (h.cancel timer).settled k hlt with hmem | hfired | ⟨other, hother⟩
      · exact Or.inl hmem
      · exact Or.inr (Or.inl hfired)
      · rcases eq_or_ne other timer with rfl | hne
        · exact absurd ((Function.update_self _ _ _).symm.trans hother) nofun
        · refine Or.inr (Or.inr ⟨other, ?_⟩)
          rw [pending_start_of_ne hne, ← pending_cancel_of_ne hne]
          exact hother
    · exact Or.inr (Or.inr ⟨timer, L.pending_start_self timer due⟩)

theorem Due.of_start_self {due' : ℕ} (h : (L.start timer due).Due timer due') : due' = due := by
  obtain ⟨k, hk, hrun⟩ := h
  obtain rfl := Option.some.inj ((L.pending_start_self timer due).symm.trans hk)
  exact congrArg Prod.snd (Option.some.inj (hrun.symm.trans List.getElem?_concat_length))

theorem Inv.due_of_start (h : L.Inv) {due' : ℕ} (hne : other ≠ timer)
    (hd : (L.start timer due).Due other due') : L.Due other due' := by
  obtain ⟨k, hk, hrun⟩ := hd
  rw [pending_start_of_ne hne] at hk
  obtain ⟨⟨due'', hrun'⟩, -⟩ := h.pending other k hk
  exact ⟨k, hk, hrun'.trans ((getElem?_runs_start hrun' timer due).symm.trans hrun)⟩

theorem Due.of_update (L' : TimerLedger)
    (hL' : L'.pending = Function.update L.pending timer none) (hruns : L'.runs = L.runs)
    (hd : L'.Due other due) : other ≠ timer ∧ L.Due other due := by
  obtain ⟨k, hk, hrun⟩ := hd
  rw [hL'] at hk
  have hne : other ≠ timer := by
    rintro rfl
    exact absurd ((Function.update_self _ _ _).symm.trans hk) nofun
  exact ⟨hne, k, (Function.update_of_ne hne _ _).symm.trans hk, hruns ▸ hrun⟩

theorem Due.of_cancel (hd : (L.cancel timer).Due other due) :
    other ≠ timer ∧ L.Due other due :=
  Due.of_update (L.cancel timer) rfl rfl hd

theorem Due.of_fire (hd : (L.fire timer now).Due other due) :
    other ≠ timer ∧ L.Due other due :=
  Due.of_update (L.fire timer now) rfl rfl hd

theorem Inv.fire (h : L.Inv) (hdue : L.Due timer now) : (L.fire timer now).Inv := by
  obtain ⟨k, hk, hrun⟩ := hdue
  obtain ⟨-, hcancelled, hfirings⟩ := h.pending timer k hk
  have hfired : ∀ f ∈ (L.fire timer now).firings, f ∈ L.firings ∨ f = (some k, timer, now) := by
    intro f hf
    rcases List.mem_append.mp hf with hf | hf
    · exact Or.inl hf
    · exact Or.inr ((List.mem_singleton.mp hf).trans (by rw [hk]))
  refine ⟨fun other j hj => ?_, ⟨fun f hf => ?_, ?_⟩, h.cancelled, fun j hj => ?_⟩
  · rcases eq_or_ne other timer with rfl | hne
    · exact absurd ((Function.update_self _ _ _).symm.trans hj) nofun
    · have hj' : L.pending other = some j := (Function.update_of_ne hne _ _).symm.trans hj
      obtain ⟨hrun', hcancelled', hfirings'⟩ := h.pending other j hj'
      refine ⟨hrun', hcancelled', fun f hf hfj => ?_⟩
      rcases hfired f hf with hf | rfl
      · exact hfirings' f hf hfj
      · obtain rfl := Option.some.inj hfj
        exact hne (h.pending_unique hj' hk)
  · rcases hfired f hf with hf | rfl
    · exact h.timely.1 f hf
    · exact ⟨k, rfl, hrun, hcancelled⟩
  · change ((L.firings ++ [(L.pending timer, timer, now)]).map Prod.fst).Nodup
    rw [List.map_append, List.nodup_append]
    refine ⟨h.timely.2, List.nodup_singleton _, fun a ha b hb => ?_⟩
    obtain ⟨f, hf, rfl⟩ := List.mem_map.mp ha
    rw [List.mem_singleton.mp hb]
    exact hk ▸ hfirings f hf
  · rcases h.settled j hj with hmem | ⟨f, hf, hfj⟩ | ⟨other, hother⟩
    · exact Or.inl hmem
    · exact Or.inr (Or.inl ⟨f, List.mem_append_left _ hf, hfj⟩)
    · rcases eq_or_ne other timer with rfl | hne
      · exact Or.inr (Or.inl ⟨_, List.mem_concat_self, hother⟩)
      · exact Or.inr (Or.inr ⟨other, (Function.update_of_ne hne _ _).trans hother⟩)

theorem Inv.completeAt (h : L.Inv) (hlate : ∀ timer due, L.Due timer due → now < due) :
    L.CompleteAt now := by
  intro k timer due hrun hle hcancelled
  rcases h.settled k (List.getElem?_eq_some_iff.mp hrun).1 with hmem | hfired | ⟨other, hother⟩
  · exact absurd hmem hcancelled
  · exact hfired
  · obtain ⟨⟨due', hrun'⟩, -⟩ := h.pending other k hother
    have hdue : due = due' := congrArg Prod.snd (Option.some.inj (hrun.symm.trans hrun'))
    exact absurd (hlate other due' ⟨k, hother, hrun'⟩) (hdue ▸ Nat.not_lt.mpr hle)

end TimerLedger

/-!
The handler is compared with the ledger of its runs. The comparison of a timeout with the current
time does not take wrap around into account, so a timeout that wraps is due at once. The order of
the queue does, but it takes two timeouts that are `MAX_TIMER_DURATION` apart for equal, which only
a run from a callback can bring about. `wellTimed` records that neither has happened.
-/

namespace SrsLte

/-- The handler with the time that does not wrap, whether a step is under way, the ledger of the
runs, and the timers that have fired and not been run since. -/
structure TimerHistory where
  handler : TimerHandler
  now : ℕ
  inStep : Bool
  ledger : TimerLedger
  expired : Finset ℕ
  wellTimed : Bool

namespace TimerHistory

def init : TimerHistory where
  handler := TimerHandler.init
  now := 0
  inStep := false
  ledger := TimerLedger.empty
  expired := ∅
  wellTimed := true

variable (Q : TimerQueue) (h : TimerHistory)

def nextCheck : ℕ := if h.inStep then h.now else h.now + 1

/-- A run with this duration: counted from the time at which timeouts are compared next, the timeout
does not wrap, is not zero, and lies less than `MAX_TIMER_DURATION` ahead. -/
def runOk (duration : ℕ) : Bool :=
  let ahead := h.now + duration - h.nextCheck
  1 ≤ duration && ahead < maxTimerDuration && 0 < h.nextCheck % 2 ^ 32 + ahead &&
    h.nextCheck % 2 ^ 32 + ahead < 2 ^ 32

def runOf (handler : TimerHandler) : TimerCommand → Option (ℕ × ℕ)
  | .run timerId =>
    let t := handler.timerList timerId
    if t.active then some (timerId, t.duration) else none
  | .set timerId duration | .setCallback timerId duration _ =>
    let t := handler.timerList timerId
    if duration ≤ maxTimerDuration ∧ t.isRunning then some (timerId, duration) else none
  | _ => none

def stopOf : TimerCommand → Option ℕ
  | .stop timerId | .release timerId => some timerId
  | _ => none

def exec (c : TimerCommand) : TimerHistory :=
  let h' := { h with handler := h.handler.exec Q c }
  match runOf h.handler c with
  | some (timerId, duration) =>
    { h' with
      ledger := h.ledger.start timerId (h.now + duration)
      expired := h.expired.erase timerId
      wellTimed := h.wellTimed && h.runOk duration }
  | none =>
    match stopOf c with
    | some timerId =>
      { h' with
        ledger := h.ledger.cancel timerId
        expired := if c = .release timerId then h.expired.erase timerId else h.expired }
    | none => h'

def fire (timerId : ℕ) : TimerHistory :=
  { h with
    handler := h.handler.fire timerId
    ledger := h.ledger.fire timerId h.now
    expired := insert timerId h.expired }

def pop : TimerHistory := { h with handler := h.handler.pop Q }

/-- `TimerHandler.stepLoop` with the records. -/
def stepLoop : ℕ → TimerHistory → List (List TimerCommand) → TimerHistory
  | 0, h, _ => h
  | fuel + 1, h, scripts =>
    match h.handler.runningTimers with
    | [] => h
    | top :: _ =>
      if h.handler.curTime ≥ top.timeout then
        if h.handler.triggers top then
          if (h.handler.timerList top.timerId).callback.isSome then
            stepLoop fuel (((scripts.headD []).foldl (exec Q) (h.fire top.timerId)).pop Q)
              scripts.tail
          else stepLoop fuel ((h.fire top.timerId).pop Q) scripts
        else stepLoop fuel (h.pop Q) scripts
      else h

/-- A step. No timer may have expired when the current time wraps, for `is_expired` compares its
timeout with the current time. -/
def stepAll (scripts : List (List TimerCommand)) : TimerHistory :=
  let h' :=
    { h with
      handler := { h.handler with curTime := (h.handler.curTime + 1) % 2 ^ 32 }
      now := h.now + 1
      inStep := true
      wellTimed := h.wellTimed && ((h.handler.curTime + 1) % 2 ^ 32 ≠ 0 || h.expired = ∅) }
  { stepLoop Q (h'.handler.stepFuel scripts) h' scripts with inStep := false }

inductive Event
  | call (c : TimerCommand)
  | stepAll (scripts : List (List TimerCommand))

def step : Event → TimerHistory
  | .call c => h.exec Q c
  | .stepAll scripts => h.stepAll Q scripts

theorem handler_exec (c : TimerCommand) : (h.exec Q c).handler = h.handler.exec Q c := by
  unfold exec
  split
  · rfl
  · split <;> rfl

theorem handler_foldl_exec (cs : List TimerCommand) :
    (cs.foldl (exec Q) h).handler = cs.foldl (TimerHandler.exec Q) h.handler := by
  induction cs generalizing h with
  | nil => rfl
  | cons c cs ih => rw [List.foldl_cons, List.foldl_cons, ih, handler_exec]

theorem handler_stepLoop (fuel : ℕ) (scripts : List (List TimerCommand)) :
    (stepLoop Q fuel h scripts).handler = TimerHandler.stepLoop Q fuel h.handler scripts := by
  induction fuel generalizing h scripts with
  | zero => rfl
  | succ fuel ih =>
    unfold stepLoop TimerHandler.stepLoop
    cases h.handler.runningTimers with
    | nil => rfl
    | cons top rest =>
      dsimp only
      split_ifs
      · rw [ih]
        exact congrArg (fun g => TimerHandler.stepLoop Q fuel (TimerHandler.pop Q g) scripts.tail)
          (handler_foldl_exec Q (h.fire top.timerId) _)
      · exact ih _ _
      · exact ih _ _
      · rfl

end TimerHistory
end SrsLte
