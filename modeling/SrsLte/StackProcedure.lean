import Mathlib.Data.List.Range
import Mathlib.Tactic.Common

/-!
# Resumable procedures

`proc_t<T>` runs a procedure `T` in steps: `launch` calls `T::init`, `run` calls `T::step` and
`trigger` calls `T::react`, and an outcome `success` or `error` completes the run. All of these, and
`T::then`, `T::clear` and the continuations, may call the same `proc_t` again. The machine below has
a stack of the calls of `T` and of continuations that have not returned; an event is what the
innermost of them, or the user at the bottom, does next.
-/

namespace SrsLte

/-- `proc_outcome_t`. A success carries what `T::get_result` then returns. -/
inductive ProcOutcome (α : Type*)
  | repeated
  | yield
  | success (value : α)
  | error
  deriving DecidableEq

inductive ProcResult (α : Type*)
  | value (t : α)
  | error
  deriving DecidableEq

def ProcOutcome.result {α : Type*} : ProcOutcome α → Option (ProcResult α)
  | .success value => some (.value value)
  | .error => some .error
  | _ => none

/-- `call_item_t`. The function is the number of its registration. -/
structure CallItem where
  active : Bool
  func : ℕ
  callAlways : Bool
  deriving DecidableEq

/-- A continuation with the number of completions that had begun when it was registered, and the
completions that have called it. -/
structure Registration where
  always : Bool
  registeredAt : ℕ
  calls : List ℕ
  deriving DecidableEq

namespace StackProcedure

/-- Who called `run`. -/
inductive Caller
  | user
  | launch (run : ℕ)
  | trigger
  deriving DecidableEq

/-- Where `handle_outcome` was called. -/
inductive Source
  | init (run : ℕ) (failed : Bool)
  | step (caller : Caller)
  | react
  deriving DecidableEq

/-- A call that has not returned. The last three belong to `run_then`. -/
inductive Frame (α : Type*)
  | init (run : ℕ)
  | step (caller : Caller)
  | react
  | onThen (src : Source) (result : ProcResult α)
  | continuation (src : Source) (result : ProcResult α) (i stop : ℕ)
  | clear (src : Source)
  deriving DecidableEq

/-- What a call on the procedure returned. A `launch` that was accepted names its run. -/
inductive Reply
  | launch (run : Option ℕ) (value : Bool)
  | run (busy : Bool)
  | callbackId (id : ℕ)
  | future (ptr : ℕ)
  | done
  deriving DecidableEq

inductive Event (α : Type*)
  | launch
  | run
  | trigger
  | andThen (always : Bool)
  | getFuture
  | ret (outcome : ProcOutcome α)

end StackProcedure

open StackProcedure

/-- `proc_t` with what is recorded of its history: the accepted launches, the completions with
their runs, the completions that called `T::then`, the continuations and the futures. -/
structure StackProcedure (α : Type*) where
  busy : Bool
  futureResult : Option ℕ
  results : List (Option (ProcResult α))
  funcList : List CallItem
  capacity : ℕ
  stack : List (Frame α)
  dangling : Bool
  launches : ℕ
  completions : List (ℕ × ProcResult α)
  thenCalls : List ℕ
  registrations : List Registration
  futures : List (ℕ × ℕ)
  reply : Option Reply

namespace StackProcedure

variable {α : Type*}

def Frame.completes : Frame α → Bool
  | .onThen .. => true
  | .continuation .. => true
  | .clear _ => true
  | _ => false

def Frame.calls : Frame α → Bool
  | .continuation .. => true
  | _ => false

def start : StackProcedure α where
  busy := false
  futureResult := none
  results := []
  funcList := []
  capacity := 0
  stack := []
  dangling := false
  launches := 0
  completions := []
  thenCalls := []
  registrations := []
  futures := []
  reply := none

variable (p : StackProcedure α)

def answer (reply : Reply) : StackProcedure α := { p with reply := some reply }

/-- Control goes to a method of `T` or to a continuation. -/
def push (f : Frame α) : StackProcedure α := { p with stack := f :: p.stack, reply := none }

/-- Behind the loop of `run`. -/
def loopDone : Caller → StackProcedure α
  | .user => p.answer (.run p.busy)
  | .launch run => p.answer (.launch (some run) true)
  | .trigger => p.answer .done

/-- `run` up to the next call of `T::step`. -/
def runLoop (caller : Caller) : StackProcedure α :=
  if p.busy then p.push (.step caller) else p.loopDone caller

/-- Behind `handle_outcome` with a final outcome. -/
def finish : Source → StackProcedure α
  | .init run failed => p.answer (.launch (some run) (!failed))
  | .step caller => p.loopDone caller
  | .react => p.answer .done

/-- The next active item before `stop`. -/
def nextActive (items : List CallItem) (i stop : ℕ) : Option ℕ :=
  (List.range' i (stop - i)).find? fun j => (items[j]?).any CallItem.active

def recordCall (func completion : ℕ) (registrations : List Registration) : List Registration :=
  registrations.modify func fun r => { r with calls := r.calls ++ [completion] }

/-- The loop over the continuations, from item `i` on. The end of the loop is that of the list when
it started. -/
def signal (src : Source) (result : ProcResult α) (i stop : ℕ) : StackProcedure α :=
  match nextActive p.funcList i stop with
  | some j =>
    push { p with
      registrations := match p.funcList[j]? with
        | some item => recordCall item.func (p.completions.length - 1) p.registrations
        | none => p.registrations } (.continuation src result j stop)
  | none => p.push (.clear src)

/-- `run_then` up to the call of `T::then`. -/
def runThen (src : Source) (result : ProcResult α) : StackProcedure α :=
  push { p with
    results := match p.futureResult with
      | some ptr => p.results.set ptr (some result)
      | none => p.results
    futureResult := none
    completions := p.completions ++ [(p.launches - 1, result)]
    thenCalls := p.thenCalls ++ [p.completions.length] } (.onThen src result)

def deactivate (i : ℕ) : StackProcedure α :=
  { p with funcList := p.funcList.modify i fun f => { f with active := f.callAlways } }

/-- `get_new_callback` looks for the first item that is not active. -/
def newCallback : ℕ := p.funcList.findIdx fun f => !f.active

/-- A new item at the end. When the vector grows, the item whose function is being called moves. -/
def emplaceBack (grow : ℕ → ℕ) (item : CallItem) : StackProcedure α :=
  if p.funcList.length < p.capacity then { p with funcList := p.funcList ++ [item] }
  else
    { p with
      funcList := p.funcList ++ [item]
      capacity := max (p.funcList.length + 1) (grow p.capacity)
      dangling := p.dangling || p.stack.any Frame.calls }

/-- `on_next_call` and `on_every_call`. -/
def register (grow : ℕ → ℕ) (always : Bool) : StackProcedure α :=
  let i := p.newCallback
  let item : CallItem :=
    { active := true, func := p.registrations.length, callAlways := always }
  let p' :=
    if i < p.funcList.length then { p with funcList := p.funcList.set i item }
    else p.emplaceBack grow item
  { p' with
    registrations := p.registrations ++
      [{ always := always, registeredAt := p.completions.length, calls := [] }]
    reply := some (.callbackId i) }

def getFuture : StackProcedure α :=
  match p.futureResult with
  | some ptr =>
    { p with
      futures := p.futures ++ [(ptr, p.completions.length)]
      reply := some (.future ptr) }
  | none =>
    { p with
      futureResult := some p.results.length
      results := p.results ++ [none]
      futures := p.futures ++ [(p.results.length, p.completions.length)]
      reply := some (.future p.results.length) }

def launch : StackProcedure α :=
  if p.busy then p.answer (.launch none false)
  else push { p with busy := true, launches := p.launches + 1 } (.init p.launches)

def trigger : StackProcedure α :=
  if p.busy then p.push .react else p.answer .done

/-- The innermost call returns. `T::then`, `T::clear` and a continuation have no outcome. -/
def returnFrom (outcome : ProcOutcome α) : Frame α → StackProcedure α
  | .init run =>
    match outcome.result with
    | some result => p.runThen (.init run (outcome matches .error)) result
    | none =>
      if outcome matches .repeated then p.runLoop (.launch run)
      else p.answer (.launch (some run) true)
  | .step caller =>
    match outcome.result with
    | some result => p.runThen (.step caller) result
    | none => if outcome matches .repeated then p.runLoop caller else p.loopDone caller
  | .react =>
    match outcome.result with
    | some result => p.runThen .react result
    | none => if outcome matches .repeated then p.runLoop .trigger else p.answer .done
  | .onThen src result => p.signal src result 0 p.funcList.length
  | .continuation src result i stop => (p.deactivate i).signal src result (i + 1) stop
  | .clear src => finish { p with busy := false } src

def step (grow : ℕ → ℕ) (p : StackProcedure α) : Event α → StackProcedure α
  | .launch => p.launch
  | .run => p.runLoop .user
  | .trigger => p.trigger
  | .andThen always => p.register grow always
  | .getFuture => p.getFuture
  | .ret outcome =>
    match p.stack with
    | [] => { p with reply := none }
    | f :: rest => returnFrom { p with stack := rest } outcome f

end StackProcedure
end SrsLte

/-!
A completion calls the continuations of the active items in order. What an item says about its
continuation depends on how far the completion in progress has come: it has been called by all the
completions that began, or by all but this one.
-/

namespace SrsLte

/-- The completions that are to call a continuation when `n` have begun. -/
def Registration.due (r : Registration) (n : ℕ) : List ℕ :=
  if r.always then List.range' r.registeredAt (n - r.registeredAt)
  else if r.registeredAt < n then [r.registeredAt] else []

/-- All of the first `m` completions have called the continuation where they had to, and it has a
further call before it. -/
structure Registration.Waits (r : Registration) (m : ℕ) : Prop where
  calls : r.calls = r.due m
  registeredAt : r.registeredAt ≤ m
  next : r.always = false → r.registeredAt = m

theorem Registration.Waits.due_succ {r : Registration} {m : ℕ} (h : r.Waits m) :
    r.calls ++ [m] = r.due (m + 1) := by
  rw [h.calls, due, due]
  cases halways : r.always with
  | true =>
    rw [if_pos rfl, if_pos rfl, Nat.succ_sub h.registeredAt, List.range'_1_concat,
      Nat.add_sub_cancel' h.registeredAt]
  | false =>
    have heq := h.next halways
    rw [if_neg Bool.false_ne_true, if_neg Bool.false_ne_true, heq, if_neg (Nat.lt_irrefl m),
      if_pos m.lt_succ_self]
    rfl

theorem Registration.Waits.prefix_due {r : Registration} {m : ℕ} (h : r.Waits m) :
    r.calls <+: r.due (m + 1) := by
  rw [← h.due_succ]
  exact List.prefix_append _ _

namespace StackProcedure

inductive Phase
  | settled
  | before
  | between (i stop : ℕ)
  | during (i stop : ℕ)

/-- What the item at place `j` says about its continuation, `n` completions having begun. -/
def SlotOk (phase : Phase) (n j : ℕ) (r : Registration) : Prop :=
  match phase with
  | .settled => r.Waits n
  | .before => r.Waits (n - 1)
  | .between i stop => if j < i ∨ stop ≤ j then r.Waits n else r.Waits (n - 1)
  | .during i stop =>
    if j < i ∨ stop ≤ j then r.Waits n
    else if j = i then r.calls = r.due n ∧ r.registeredAt < n
    else r.Waits (n - 1)

def Phase.Free (j : ℕ) : Phase → Prop
  | .settled => True
  | .before => False
  | .between i stop => j < i ∨ stop ≤ j
  | .during i stop => j < i ∨ stop ≤ j

/-- Every continuation waits in an item of its own, or has been called once and for all. -/
structure Slots (items : List CallItem) (registrations : List Registration) (n : ℕ)
    (phase : Phase) : Prop where
  slot : ∀ (j : ℕ) (item : CallItem), items[j]? = some item → item.active = true →
    ∃ r, registrations[item.func]? = some r ∧ r.always = item.callAlways ∧ SlotOk phase n j r
  distinct : ∀ (j k : ℕ) (item item' : CallItem), items[j]? = some item → items[k]? = some item' →
    item.active = true → item'.active = true → item.func = item'.func → j = k
  rest : ∀ (k : ℕ) (r : Registration), registrations[k]? = some r →
    (∃ (j : ℕ) (item : CallItem), items[j]? = some item ∧ item.active = true ∧ item.func = k) ∨
      r.always = false ∧ r.calls = [r.registeredAt] ∧ r.registeredAt < n
  begun : phase ≠ .settled → 0 < n
  bound : ∀ i stop, phase = .during i stop ∨ phase = .between i stop → stop ≤ items.length
  current : ∀ i stop, phase = .during i stop →
    i < stop ∧ ∃ item, items[i]? = some item ∧ item.active = true

variable {items items' : List CallItem} {registrations : List Registration} {n i j stop : ℕ}
  {phase : Phase}

theorem Slots.register (h : Slots items registrations n phase) (always : Bool)
    (hfree : phase.Free j) (hold : ∀ item, items[j]? = some item → item.active = false)
    (hnew : items'[j]? = some
      { active := true, func := registrations.length, callAlways := always })
    (hsame : ∀ k, k ≠ j → items'[k]? = items[k]?) (hlength : items.length ≤ items'.length) :
    Slots items' (registrations ++ [{ always := always, registeredAt := n, calls := [] }]) n
      phase where
  slot k item hitem hactive := by
    by_cases hk : k = j
    · rw [hk, hnew] at hitem
      obtain rfl := Option.some.inj hitem
      refine ⟨_, List.getElem?_concat_length, rfl, ?_⟩
      have hwaits : Registration.Waits { always := always, registeredAt := n, calls := [] } n := by
        refine ⟨?_, Nat.le_refl n, fun _ => rfl⟩
        unfold Registration.due
        simp
      rw [hk]
      cases phase with
      | settled => exact hwaits
      | before => exact absurd hfree id
      | between i stop => exact (if_pos hfree).mpr hwaits
      | during i stop => exact (if_pos hfree).mpr hwaits
    · rw [hsame k hk] at hitem
      obtain ⟨r, hr, halways, hok⟩ := h.slot k item hitem hactive
      have hlt := (List.getElem?_eq_some_iff.mp hr).1
      exact ⟨r, by rw [List.getElem?_append_left hlt, hr], halways, hok⟩
  distinct k l item item' hitem hitem' hactive hactive' hfunc := by
    have hold_lt : ∀ k item, k ≠ j → items'[k]? = some item → item.active = true →
        item.func < registrations.length := by
      intro k item hk hitem hactive
      rw [hsame k hk] at hitem
      obtain ⟨r, hr, -⟩ := h.slot k item hitem hactive
      exact (List.getElem?_eq_some_iff.mp hr).1
    by_cases hk : k = j
    · by_cases hl : l = j
      · rw [hk, hl]
      · have hlt := hold_lt l item' hl hitem' hactive'
        rw [hk, hnew] at hitem
        obtain rfl := Option.some.inj hitem
        exact absurd hfunc hlt.ne'
    · by_cases hl : l = j
      · have hlt := hold_lt k item hk hitem hactive
        rw [hl, hnew] at hitem'
        obtain rfl := Option.some.inj hitem'
        exact absurd hfunc hlt.ne
      · rw [hsame k hk] at hitem
        rw [hsame l hl] at hitem'
        exact h.distinct k l item item' hitem hitem' hactive hactive' hfunc
  rest k r hr := by
    rcases Nat.lt_or_ge k registrations.length with hlt | hge
    · rw [List.getElem?_append_left hlt] at hr
      rcases h.rest k r hr with ⟨l, item, hitem, hactive, hfunc⟩ | hdone
      · have hl : l ≠ j := by
          rintro rfl
          rw [hold item hitem] at hactive
          exact absurd hactive (by decide)
        exact Or.inl ⟨l, item, by rw [hsame l hl, hitem], hactive, hfunc⟩
      · exact Or.inr hdone
    · have hk : k = registrations.length := by
        have hlt := (List.getElem?_eq_some_iff.mp hr).1
        rw [List.length_append, List.length_singleton] at hlt
        omega
      exact Or.inl ⟨j, _, hnew, rfl, hk.symm⟩
  begun := h.begun
  bound i stop hphase := (h.bound i stop hphase).trans hlength
  current i stop hphase := by
    obtain ⟨hlt, item, hitem, hactive⟩ := h.current i stop hphase
    have hi : i ≠ j := by
      rintro rfl
      rw [hold item hitem] at hactive
      exact absurd hactive (by decide)
    exact ⟨hlt, item, by rw [hsame i hi, hitem], hactive⟩

theorem Slots.begin (h : Slots items registrations n .settled) :
    Slots items registrations (n + 1) .before where
  slot := h.slot
  distinct := h.distinct
  rest k r hr := (h.rest k r hr).imp_right fun hdone => ⟨hdone.1, hdone.2.1, by omega⟩
  begun _ := n.succ_pos
  bound i stop hphase := by rcases hphase with hphase | hphase <;> cases hphase
  current i stop hphase := by cases hphase

theorem Slots.loop (h : Slots items registrations n .before) :
    Slots items registrations n (.between 0 items.length) where
  slot j item hitem hactive := by
    obtain ⟨r, hr, halways, hok⟩ := h.slot j item hitem hactive
    have hlt := (List.getElem?_eq_some_iff.mp hitem).1
    exact ⟨r, hr, halways, (if_neg (by omega)).mpr hok⟩
  distinct := h.distinct
  rest := h.rest
  begun _ := h.begun (by simp)
  bound i stop hphase := by
    rcases hphase with hphase | hphase
    · cases hphase
    · cases hphase
      exact Nat.le_refl _
  current i stop hphase := by cases hphase

theorem Slots.returned (h : Slots items registrations n (.during i stop)) :
    Slots (items.modify i fun f => { f with active := f.callAlways }) registrations n
      (.between (i + 1) stop) := by
  obtain ⟨hi, called, hcalled, hcalledActive⟩ := h.current i stop rfl
  have hget : ∀ {j item'}, (items.modify i fun f => { f with active := f.callAlways })[j]? =
      some item' → item'.active = true → ∃ item, items[j]? = some item ∧ item.active = true ∧
        item'.func = item.func ∧ item'.callAlways = item.callAlways ∧
          (j = i → item.callAlways = true) := by
    intro j item' hitem' hactive'
    rw [List.getElem?_modify] at hitem'
    obtain ⟨item, hitem, rfl⟩ := Option.map_eq_some_iff.mp hitem'
    refine ⟨item, hitem, ?_⟩
    split_ifs at hactive' ⊢ with hij
    · rw [← hij, hcalled] at hitem
      obtain rfl := Option.some.inj hitem
      exact ⟨hcalledActive, rfl, rfl, fun _ => hactive'⟩
    · exact ⟨hactive', rfl, rfl, fun hj => absurd hj.symm hij⟩
  constructor
  case slot =>
    intro j item' hitem' hactive'
    obtain ⟨item, hitem, hactive, hfunc, hcallAlways, hat⟩ := hget hitem' hactive'
    obtain ⟨r, hr, halways, hok⟩ := h.slot j item hitem hactive
    refine ⟨r, by rw [hfunc, hr], by rw [halways, hcallAlways], ?_⟩
    unfold SlotOk at hok ⊢
    dsimp only at hok ⊢
    by_cases hj : j = i
    · rw [if_neg (by omega), if_pos hj] at hok
      rw [if_pos (by omega)]
      refine ⟨hok.1, Nat.le_of_lt hok.2, fun hnot => ?_⟩
      rw [halways, hat hj] at hnot
      exact absurd hnot (by decide)
    · by_cases hout : j < i ∨ stop ≤ j
      · rw [if_pos hout] at hok
        rw [if_pos (by omega)]
        exact hok
      · rw [if_neg hout, if_neg hj] at hok
        rw [if_neg (by omega)]
        exact hok
  case distinct =>
    intro j k item item' hitem hitem' hactive hactive' hsame
    obtain ⟨old, hold, holdActive, hfunc, -⟩ := hget hitem hactive
    obtain ⟨old', hold', holdActive', hfunc', -⟩ := hget hitem' hactive'
    exact h.distinct j k old old' hold hold' holdActive holdActive'
      (by rw [← hfunc, ← hfunc', hsame])
  case rest =>
    intro k r hr
    rcases h.rest k r hr with ⟨j, item, hitem, hactive, hfunc⟩ | hdone
    · by_cases hj : j = i
      · obtain ⟨r', hr', halways, hok⟩ := h.slot j item hitem hactive
        rw [hfunc, hr] at hr'
        obtain rfl := Option.some.inj hr'
        unfold SlotOk at hok
        dsimp only at hok
        rw [if_neg (by omega), if_pos hj] at hok
        cases hcallAlways : item.callAlways with
        | true =>
          refine Or.inl ⟨j, { item with active := item.callAlways }, ?_, hcallAlways, hfunc⟩
          rw [List.getElem?_modify, hitem, hj]
          simp
        | false =>
          rw [hcallAlways] at halways
          refine Or.inr ⟨halways, ?_, hok.2⟩
          rw [hok.1, Registration.due, halways, if_neg Bool.false_ne_true, if_pos hok.2]
      · refine Or.inl ⟨j, item, ?_, hactive, hfunc⟩
        rw [List.getElem?_modify, hitem]
        simp [Ne.symm hj]
    · exact Or.inr hdone
  case begun => exact fun _ => h.begun (by simp)
  case bound =>
    intro k stop' hphase
    rw [List.length_modify]
    rcases hphase with hphase | hphase
    · cases hphase
    · cases hphase
      exact h.bound i stop (Or.inl rfl)
  case current =>
    intro k stop' hphase
    cases hphase

theorem nextActive_eq_some (h : nextActive items i stop = some j) :
    i ≤ j ∧ j < stop ∧ (∃ item, items[j]? = some item ∧ item.active = true) ∧
      ∀ k item, i ≤ k → k < j → items[k]? = some item → item.active = false := by
  obtain ⟨hactive, hmem, hbefore⟩ := List.find?_range'_eq_some.mp h
  have hrange := List.mem_range'_1.mp hmem
  refine ⟨hrange.1, by omega, (Option.any_eq_true _ _).mp hactive, fun k item hik hkj hitem => ?_⟩
  have hnot := hbefore k hik hkj
  rw [hitem] at hnot
  simpa using hnot

theorem nextActive_eq_none (h : nextActive items i stop = none) {k : ℕ} {item : CallItem}
    (hik : i ≤ k) (hk : k < stop) (hitem : items[k]? = some item) : item.active = false := by
  have hnot := List.find?_range'_eq_none.mp h k hik (by omega)
  rw [hitem] at hnot
  simpa using hnot

theorem Slots.call (h : Slots items registrations n (.between i stop))
    (hnext : nextActive items i stop = some j) {item : CallItem} (hitem : items[j]? = some item) :
    Slots items (recordCall item.func (n - 1) registrations) n (.during j stop) := by
  obtain ⟨hij, hjstop, ⟨item', hitem', hactive⟩, hbefore⟩ := nextActive_eq_some hnext
  rw [hitem] at hitem'
  obtain rfl := Option.some.inj hitem'
  have hpos : 0 < n := h.begun (by simp)
  have hget : ∀ k, (recordCall item.func (n - 1) registrations)[k]? =
      (registrations[k]?).map fun r =>
        if item.func = k then { r with calls := r.calls ++ [n - 1] } else r := by
    intro k
    rw [recordCall, List.getElem?_modify]
    rfl
  constructor
  case slot =>
    intro k other hother hotherActive
    obtain ⟨r, hr, halways, hok⟩ := h.slot k other hother hotherActive
    rw [hget, hr, Option.map_some]
    unfold SlotOk at hok ⊢
    dsimp only at hok ⊢
    by_cases hk : k = j
    · rw [hk, hitem] at hother
      obtain rfl := Option.some.inj hother
      rw [if_neg (by omega)] at hok
      refine ⟨_, rfl, by rw [if_pos rfl]; exact halways, ?_⟩
      rw [if_pos rfl, if_neg (by omega), if_pos hk]
      have hdue := hok.due_succ
      rw [Nat.sub_add_cancel hpos] at hdue
      exact ⟨hdue, hok.registeredAt.trans_lt (Nat.sub_lt hpos Nat.one_pos)⟩
    · have hfunc : item.func ≠ other.func := fun heq =>
        hk (h.distinct k j other item hother hitem hotherActive hactive heq.symm)
      refine ⟨_, rfl, by rw [if_neg hfunc]; exact halways, ?_⟩
      rw [if_neg hfunc, if_neg hk]
      by_cases hfree : k < i ∨ stop ≤ k
      · rw [if_pos hfree] at hok
        rw [if_pos (by omega)]
        exact hok
      · have hkj : ¬ k < j := by
          intro hkj
          rw [hbefore k other (by omega) hkj hother] at hotherActive
          exact absurd hotherActive (by decide)
        rw [if_neg hfree] at hok
        rw [if_neg (by omega)]
        exact hok
  case distinct => exact h.distinct
  case rest =>
    intro k r hr
    rw [hget] at hr
    obtain ⟨old, hold, rfl⟩ := Option.map_eq_some_iff.mp hr
    by_cases hk : item.func = k
    · exact Or.inl ⟨j, item, hitem, hactive, hk⟩
    · rw [if_neg hk]
      exact h.rest k old hold
  case begun => exact fun _ => hpos
  case bound =>
    intro k stop' hphase
    rcases hphase with hphase | hphase
    · cases hphase
      exact h.bound i stop (Or.inr rfl)
    · cases hphase
  case current =>
    intro k stop' hphase
    cases hphase
    exact ⟨hjstop, item, hitem, hactive⟩

theorem Slots.settle (h : Slots items registrations n (.between i stop))
    (hnext : nextActive items i stop = none) : Slots items registrations n .settled where
  slot k item hitem hactive := by
    obtain ⟨r, hr, halways, hok⟩ := h.slot k item hitem hactive
    refine ⟨r, hr, halways, ?_⟩
    unfold SlotOk at hok ⊢
    dsimp only at hok ⊢
    split_ifs at hok with hfree
    · exact hok
    · rw [nextActive_eq_none hnext (by omega) (by omega) hitem] at hactive
      exact absurd hactive (by decide)
  distinct := h.distinct
  rest := h.rest
  begun hphase := absurd rfl hphase
  bound k stop' hphase := by rcases hphase with hphase | hphase <;> cases hphase
  current k stop' hphase := by cases hphase

theorem Slots.calls_prefix (h : Slots items registrations n phase) {r : Registration}
    (hr : r ∈ registrations) : r.calls <+: r.due n := by
  obtain ⟨k, hk⟩ := List.mem_iff_getElem?.mp hr
  rcases h.rest k r hk with ⟨j, item, hitem, hactive, hfunc⟩ | ⟨halways, hcalls, hlt⟩
  · obtain ⟨r', hr', -, hok⟩ := h.slot j item hitem hactive
    rw [hfunc, hk] at hr'
    obtain rfl := Option.some.inj hr'
    have hwaits : r.Waits n → r.calls <+: r.due n := fun hwaits =>
      hwaits.calls ▸ List.prefix_rfl
    have hearlier : phase ≠ .settled → r.Waits (n - 1) → r.calls <+: r.due n := by
      intro hphase hwaits
      have hprefix := hwaits.prefix_due
      rwa [Nat.sub_add_cancel (h.begun hphase)] at hprefix
    unfold SlotOk at hok
    cases phase with
    | settled => exact hwaits hok
    | before => exact hearlier (by simp) hok
    | between i stop =>
      dsimp only at hok
      split_ifs at hok
      · exact hwaits hok
      · exact hearlier (by simp) hok
    | during i stop =>
      dsimp only at hok
      split_ifs at hok
      · exact hwaits hok
      · exact hok.1 ▸ List.prefix_rfl
      · exact hearlier (by simp) hok
  · have hdue : r.due n = [r.registeredAt] := by
      rw [Registration.due, halways, if_neg Bool.false_ne_true, if_pos hlt]
    exact (hcalls.trans hdue.symm) ▸ List.prefix_rfl

theorem Slots.calls_eq (h : Slots items registrations n .settled) {r : Registration}
    (hr : r ∈ registrations) : r.calls = r.due n := by
  obtain ⟨k, hk⟩ := List.mem_iff_getElem?.mp hr
  rcases h.rest k r hk with ⟨j, item, hitem, hactive, hfunc⟩ | ⟨halways, hcalls, hlt⟩
  · obtain ⟨r', hr', -, hok⟩ := h.slot j item hitem hactive
    rw [hfunc, hk] at hr'
    obtain rfl := Option.some.inj hr'
    exact hok.calls
  · rw [hcalls, Registration.due, halways, if_neg Bool.false_ne_true, if_pos hlt]

end StackProcedure
end SrsLte
