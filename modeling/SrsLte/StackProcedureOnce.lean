import SrsLte.EventRun
import SrsLte.StackProcedure

/-!
# Exactly-once completion of a procedure

A run is completed once, with every future and every continuation that was waiting for it, as long
as the calls that the procedure makes on itself keep to an order: no outcome completes a run that is
completed or being completed, `launch` is not in progress when a step fails, and a continuation that
is registered during a completion gets a place that this completion does not come to.
-/

namespace SrsLte
namespace StackProcedure

variable {α : Type*}

def completing (p : StackProcedure α) : Bool := p.stack.any Frame.completes

structure Kept (p : StackProcedure α) : Prop where
  once : p.completions.map Prod.fst = List.range p.completions.length
  idle : p.completing = false →
    p.launches = p.completions.length + if p.busy = true then 1 else 0
  busy : p.completing = true → p.busy = true ∧ p.launches = p.completions.length
  onThen : p.thenCalls = List.range p.completions.length
  futures : ∀ f ∈ p.futures, p.results[f.1]? = some ((p.completions[f.2]?).map Prod.snd)
  early : ∀ r ∈ p.registrations, r.calls <+: r.due p.completions.length
  called : p.completing = false → ∀ r ∈ p.registrations, r.calls = r.due p.completions.length
  defined : p.dangling = false

/-- A launch while busy changes nothing, and a launch answers `false` exactly when it was refused or
its run has ended in an error. -/
def Truthful (grow : ℕ → ℕ) (p : StackProcedure α) (e : Event α) : Prop :=
  (p.busy = true → p.step grow .launch = p.answer (.launch none false)) ∧
    ∀ run value, (p.step grow e).reply = some (.launch run value) →
      (value = false ↔ run = none ∨ ∃ r, run = some r ∧ (r, .error) ∈ (p.step grow e).completions)

def Frame.phase : Frame α → Phase
  | .onThen .. => .before
  | .continuation _ _ i stop => .during i stop
  | _ => .settled

def phase (p : StackProcedure α) : Phase :=
  ((p.stack.find? Frame.completes).map Frame.phase).getD .settled

def Source.waiting : Source → Option ℕ
  | .init run false => some run
  | .step (.launch run) => some run
  | _ => none

def Source.failing : Source → Option ℕ
  | .init run true => some run
  | _ => none

/-- The run whose `launch` is in progress in this frame and will answer `true`. -/
def Frame.waiting : Frame α → Option ℕ
  | .init run => some run
  | .step caller => (Source.step caller).waiting
  | .react => none
  | .onThen src _ => src.waiting
  | .continuation src _ _ _ => src.waiting
  | .clear src => src.waiting

def Frame.failing : Frame α → Option ℕ
  | .onThen src _ => src.failing
  | .continuation src _ _ _ => src.failing
  | .clear src => src.failing
  | _ => none

/-- The frame may fail run `r`: `init` its own, a step any but the one whose `launch` waits for
it. -/
def Frame.MayFail (r : ℕ) : Frame α → Prop
  | .init run => run = r
  | .step (.launch run) => run ≠ r
  | _ => True

/-- What the procedure has to keep to. A final outcome of `init`, `step` and `react` is returned
while a run is in progress and not being completed, and when it is an error, no `launch` of this run
is waiting for it. A continuation is not registered where the completion in progress still gets to,
and no vector grows under a continuation that runs. -/
def Disciplined (p : StackProcedure α) : Event α → Prop
  | .ret outcome => ∀ f rest result, p.stack = f :: rest → outcome.result = some result →
      f.completes = false → p.busy = true ∧ p.completing = false ∧
        (result = .error →
          (∀ g ∈ rest, g.waiting ≠ some (p.launches - 1)) ∧ f.MayFail (p.launches - 1))
  | .andThen _ => p.phase.Free p.newCallback ∧
      (p.newCallback < p.funcList.length ∨ p.funcList.length < p.capacity ∨
        p.stack.any Frame.calls = false)
  | _ => True

/-- The state apart from the stack, in a given phase of a completion. -/
structure Core (p : StackProcedure α) (phase : Phase) (completing : Bool) : Prop where
  once : p.completions.map Prod.fst = List.range p.completions.length
  launches : p.launches =
    p.completions.length + if p.busy = true ∧ completing = false then 1 else 0
  busy : completing = true → p.busy = true
  settled : completing = false → phase = .settled
  onThen : p.thenCalls = List.range p.completions.length
  futures : ∀ f ∈ p.futures, p.results[f.1]? = some ((p.completions[f.2]?).map Prod.snd)
  waiting : ∀ f ∈ p.futures,
    f.2 ≤ p.completions.length ∧ (f.2 = p.completions.length ↔ p.futureResult = some f.1)
  pending : ∀ ptr, p.futureResult = some ptr → p.results[ptr]? = some none
  slots : Slots p.funcList p.registrations p.completions.length phase
  defined : p.dangling = false

/-- The `launch` of the frame will answer what the completions say. -/
structure Frame.Ok (completions : List (ℕ × ProcResult α)) (f : Frame α) : Prop where
  waiting : ∀ r, f.waiting = some r → (r, .error) ∉ completions
  failing : ∀ r, f.failing = some r → (r, .error) ∈ completions

structure Inv (p : StackProcedure α) : Prop where
  core : p.Core p.phase p.completing
  single : (p.stack.filter Frame.completes).length ≤ 1
  frames : ∀ f ∈ p.stack, f.Ok p.completions

/-- A launch has answered `false` exactly when it was refused or its run has ended in an error. -/
def Answered (p : StackProcedure α) : Prop :=
  ∀ run value, p.reply = some (.launch run value) →
    (value = false ↔ run = none ∨ ∃ r, run = some r ∧ (r, .error) ∈ p.completions)

theorem inv_start : (start : StackProcedure α).Inv where
  core :=
    { once := rfl
      launches := rfl
      busy := fun h => absurd h (by simp [start, StackProcedure.completing])
      settled := fun _ => rfl
      onThen := rfl
      futures := List.forall_mem_nil _
      waiting := List.forall_mem_nil _
      pending := fun ptr h => absurd h (by simp [start])
      slots :=
        { slot := fun j item h => absurd h (by simp [start])
          distinct := fun j k item item' h => absurd h (by simp [start])
          rest := fun k r h => absurd h (by simp [start])
          begun := fun h => absurd rfl h
          bound := fun i stop h => by rcases h with h | h <;> cases h
          current := fun i stop h => by cases h }
      defined := rfl }
  single := Nat.zero_le 1
  frames f hf := absurd hf List.not_mem_nil

theorem Inv.kept {p : StackProcedure α} (h : p.Inv) : p.Kept where
  once := h.core.once
  idle hcompleting := by
    have hlaunches := h.core.launches
    simpa [hcompleting] using hlaunches
  busy hcompleting := by
    have hlaunches := h.core.launches
    rw [hcompleting] at hlaunches
    exact ⟨h.core.busy hcompleting, by simpa using hlaunches⟩
  onThen := h.core.onThen
  futures := h.core.futures
  early r hr := h.core.slots.calls_prefix hr
  called hcompleting r hr := by
    have hslots := h.core.slots
    rw [h.core.settled hcompleting] at hslots
    exact hslots.calls_eq hr
  defined := h.core.defined

variable {p : StackProcedure α} {f : Frame α} {rest : List (Frame α)}

theorem completing_cons (hstack : p.stack = f :: rest) :
    p.completing = (f.completes || rest.any Frame.completes) := by
  rw [completing, hstack, List.any_cons]

theorem phase_cons_of_not (hstack : p.stack = f :: rest) (hf : f.completes = false) :
    p.phase = phase { p with stack := rest } := by
  rw [phase, hstack, List.find?_cons_of_neg (by rw [hf]; decide)]
  rfl

theorem phase_cons (hstack : p.stack = f :: rest) (hf : f.completes = true) :
    p.phase = f.phase := by
  rw [phase, hstack, List.find?_cons_of_pos hf]
  rfl

section

variable (h : p.Inv) (hstack : p.stack = f :: rest)
include h hstack

theorem Inv.core_cons (hf : f.completes = true) :
    p.Core f.phase true := by
  have hcore := h.core
  rwa [phase_cons hstack hf, completing_cons hstack, hf, Bool.true_or] at hcore

theorem Inv.ok_cons : f.Ok p.completions :=
  h.frames f (by rw [hstack]; exact List.mem_cons_self)

theorem Inv.rest_not_completes (hf : f.completes = true) : rest.any Frame.completes = false := by
  have hsingle := h.single
  rw [hstack, List.filter_cons_of_pos hf, List.length_cons] at hsingle
  rw [List.any_eq_false]
  intro g hg hcompletes
  have hpos := List.length_pos_of_mem (List.mem_filter.mpr ⟨hg, hcompletes⟩)
  omega

end

theorem Core.frame {phase : Phase} {completing : Bool} (h : p.Core phase completing)
    (stack : List (Frame α)) (reply : Option Reply) :
    Core { p with stack := stack, reply := reply } phase completing :=
  { h with }

theorem Inv.answer (h : p.Inv) (reply : Reply) : (p.answer reply).Inv :=
  ⟨h.core.frame p.stack (some reply), h.single, h.frames⟩

structure Sound (p : StackProcedure α) : Prop where
  inv : p.Inv
  answered : p.Answered

theorem answered_of_none (h : p.reply = none) : p.Answered := by
  intro run value hreply
  rw [h] at hreply
  cases hreply

theorem answered_push (f : Frame α) : (p.push f).Answered := answered_of_none rfl

theorem answered_answer {reply : Reply} (h : ∀ run value, reply ≠ .launch run value) :
    (p.answer reply).Answered := by
  intro run value hreply
  exact absurd (Option.some.inj hreply) (h run value)

variable {run : ℕ} {grow : ℕ → ℕ} {result : ProcResult α} {src : Source} {outcome : ProcOutcome α}

theorem answered_true (h : (run, .error) ∉ p.completions) :
    (p.answer (.launch (some run) true)).Answered := by
  intro run' value hreply
  obtain ⟨rfl, rfl⟩ := Reply.launch.inj (Option.some.inj hreply)
  constructor
  · intro hfalse
    cases hfalse
  · rintro (hnone | ⟨r, hr, herror⟩)
    · cases hnone
    · cases hr
      exact absurd herror h

section

variable (h : p.Inv)
include h

theorem Inv.push (hf : f.completes = false) (hok : f.Ok p.completions) :
    (p.push f).Inv where
  core := by
    have hphase : (p.push f).phase = p.phase := phase_cons_of_not rfl hf
    have hcompleting : (p.push f).completing = p.completing := by
      rw [completing_cons rfl, hf, Bool.false_or]
      rfl
    rw [hphase, hcompleting]
    exact h.core.frame (f :: p.stack) none
  single := by
    change ((f :: p.stack).filter Frame.completes).length ≤ 1
    rw [List.filter_cons_of_neg (by rw [hf]; decide)]
    exact h.single
  frames g hg := by
    rcases List.mem_cons.mp hg with rfl | hg
    · exact hok
    · exact h.frames g hg

theorem Inv.pop (hstack : p.stack = f :: rest) (hf : f.completes = false) :
    Inv { p with stack := rest } where
  core := by
    have hcore := h.core
    rw [phase_cons_of_not hstack hf, completing_cons hstack, hf, Bool.false_or] at hcore
    exact hcore.frame rest p.reply
  single := by
    have hsingle := h.single
    rw [hstack, List.filter_cons_of_neg (by rw [hf]; decide)] at hsingle
    exact hsingle
  frames g hg := h.frames g (by rw [hstack]; exact List.mem_cons_of_mem f hg)

theorem Inv.launch : p.launch.Sound := by
  unfold StackProcedure.launch
  cases hbusy : p.busy with
  | true =>
    rw [if_pos rfl]
    refine ⟨h.answer _, fun run value hreply => ?_⟩
    obtain ⟨rfl, rfl⟩ := Reply.launch.inj (Option.some.inj hreply)
    exact ⟨fun _ => Or.inl rfl, fun _ => rfl⟩
  | false =>
    rw [if_neg Bool.false_ne_true]
    have hcompleting : p.completing = false := by
      cases hc : p.completing with
      | false => rfl
      | true =>
        have hb := h.core.busy hc
        rw [hbusy] at hb
        exact absurd hb (by decide)
    have hlaunches := h.core.launches
    rw [hbusy, if_neg (by simp)] at hlaunches
    have hinv : Inv { p with busy := true, launches := p.launches + 1 } := by
      refine ⟨?_, h.single, h.frames⟩
      have hcore := h.core
      refine { hcore with launches := ?_, busy := fun _ => rfl }
      change p.launches + 1 = p.completions.length + _
      rw [if_pos ⟨rfl, hcompleting⟩, hlaunches]
    refine ⟨hinv.push rfl ⟨fun r hr herror => ?_, fun r hr => by cases hr⟩, answered_push _⟩
    -- The new run is none of those that have been completed.
    cases hr
    have hmem := List.mem_map_of_mem (f := Prod.fst) herror
    change p.launches ∈ p.completions.map Prod.fst at hmem
    rw [h.core.once, List.mem_range] at hmem
    omega

theorem Inv.loopDone (caller : Caller)
    (hok : ∀ r, (Source.step caller).waiting = some r → (r, .error) ∉ p.completions) :
    (p.loopDone caller).Sound := by
  cases caller with
  | user => exact ⟨h.answer _, answered_answer (by simp)⟩
  | launch run => exact ⟨h.answer _, answered_true (hok run rfl)⟩
  | trigger => exact ⟨h.answer _, answered_answer (by simp)⟩

theorem Inv.runLoop (caller : Caller)
    (hok : ∀ r, (Source.step caller).waiting = some r → (r, .error) ∉ p.completions) :
    (p.runLoop caller).Sound := by
  unfold StackProcedure.runLoop
  split_ifs
  · exact ⟨h.push rfl ⟨hok, fun r hr => by cases hr⟩, answered_push _⟩
  · exact h.loopDone caller hok

theorem Inv.trigger : p.trigger.Sound := by
  unfold StackProcedure.trigger
  split_ifs
  · exact ⟨h.push rfl ⟨fun _ hr => (nomatch hr), fun _ hr => (nomatch hr)⟩, answered_push _⟩
  · exact ⟨h.answer _, answered_answer (by simp)⟩

theorem Inv.getFuture : p.getFuture.Sound := by
  have hcore := h.core
  unfold StackProcedure.getFuture
  split
  · rename_i ptr hresult
    refine ⟨⟨{ hcore with futures := ?_, waiting := ?_ }, h.single, h.frames⟩,
      fun run value hreply => by cases hreply⟩
    · intro f hf
      rcases List.mem_append.mp hf with hf | hf
      · exact hcore.futures f hf
      · rw [List.mem_singleton.mp hf]
        dsimp only
        rw [hcore.pending ptr hresult, List.getElem?_eq_none (Nat.le_refl _)]
        rfl
    · intro f hf
      rcases List.mem_append.mp hf with hf | hf
      · exact hcore.waiting f hf
      · rw [List.mem_singleton.mp hf]
        exact ⟨Nat.le_refl _, fun _ => hresult, fun _ => rfl⟩
  · rename_i hresult
    have hold : ∀ f ∈ p.futures, f.1 < p.results.length := fun f hf =>
      (List.getElem?_eq_some_iff.mp (hcore.futures f hf)).1
    refine ⟨⟨{ hcore with futures := ?_, waiting := ?_, pending := ?_ }, h.single, h.frames⟩,
      fun run value hreply => by cases hreply⟩
    · intro f hf
      rcases List.mem_append.mp hf with hf | hf
      · dsimp only
        rw [List.getElem?_append_left (hold f hf)]
        exact hcore.futures f hf
      · rw [List.mem_singleton.mp hf]
        dsimp only
        rw [List.getElem?_concat_length, List.getElem?_eq_none (Nat.le_refl _)]
        rfl
    · intro f hf
      rcases List.mem_append.mp hf with hf | hf
      · obtain ⟨hle, hiff⟩ := hcore.waiting f hf
        have hlt := hold f hf
        refine ⟨hle, fun heq => ?_, fun heq => ?_⟩
        · have hsome := hiff.mp heq
          rw [hresult] at hsome
          cases hsome
        · exact absurd (Option.some.inj heq) hlt.ne'
      · rw [List.mem_singleton.mp hf]
        exact ⟨Nat.le_refl _, fun _ => rfl, fun _ => rfl⟩
    · intro ptr hptr
      obtain rfl := Option.some.inj hptr
      exact List.getElem?_concat_length

end

theorem newCallback_le : p.newCallback ≤ p.funcList.length := List.findIdx_le_length

theorem active_newCallback {item : CallItem} (h : p.funcList[p.newCallback]? = some item) :
    item.active = false := by
  obtain ⟨hlt, hitem⟩ := List.getElem?_eq_some_iff.mp h
  have hinactive := List.findIdx_getElem (w := hlt)
  unfold newCallback at hitem
  rw [hitem] at hinactive
  simpa using hinactive

theorem Inv.register {always : Bool} (h : p.Inv) (hfree : p.phase.Free p.newCallback)
    (hroom : p.newCallback < p.funcList.length ∨ p.funcList.length < p.capacity ∨
      p.stack.any Frame.calls = false) :
    (p.register grow always).Sound := by
  have hcore := h.core
  set item : CallItem :=
    { active := true, func := p.registrations.length, callAlways := always } with hitem
  have hslots : ∀ items, items[p.newCallback]? = some item →
      (∀ k, k ≠ p.newCallback → items[k]? = p.funcList[k]?) → p.funcList.length ≤ items.length →
        Slots items (p.registrations ++
          [{ always := always, registeredAt := p.completions.length, calls := [] }])
          p.completions.length p.phase := fun items hnew hsame hlength =>
    hcore.slots.register always hfree (fun _ hold => active_newCallback hold) hnew hsame hlength
  have happend : p.newCallback = p.funcList.length →
      Slots (p.funcList ++ [item]) (p.registrations ++
        [{ always := always, registeredAt := p.completions.length, calls := [] }])
        p.completions.length p.phase := by
    intro heq
    refine hslots _ ?_ (fun k hk => ?_) ?_
    · rw [heq, List.getElem?_concat_length]
    · rw [heq] at hk
      rcases Nat.lt_or_gt_of_ne hk with hlt | hgt
      · exact List.getElem?_append_left hlt
      · rw [List.getElem?_eq_none (by rw [List.length_append, List.length_singleton]; omega),
          List.getElem?_eq_none (by omega)]
    · rw [List.length_append]
      omega
  refine ⟨?_, fun run value hreply => by cases hreply⟩
  unfold StackProcedure.register
  dsimp only
  rw [← hitem]
  by_cases hlt : p.newCallback < p.funcList.length
  · rw [if_pos hlt]
    refine ⟨{ hcore with slots := hslots _ ?_ (fun k hk => ?_) ?_ }, h.single, h.frames⟩
    · exact List.getElem?_set_self hlt
    · exact List.getElem?_set_ne (Ne.symm hk)
    · rw [List.length_set]
  · have heq : p.newCallback = p.funcList.length := by
      have hle := newCallback_le (p := p)
      omega
    rw [if_neg hlt]
    unfold emplaceBack
    split_ifs with hcapacity
    · exact ⟨{ hcore with slots := happend heq }, h.single, h.frames⟩
    · have hstill : (p.dangling || p.stack.any Frame.calls) = false := by
        rcases hroom with hroom | hroom | hroom
        · exact absurd hroom hlt
        · exact absurd hroom hcapacity
        · rw [hcore.defined, hroom]
          rfl
      exact ⟨{ hcore with slots := happend heq, defined := hstill }, h.single, h.frames⟩

theorem not_failed_append {completions : List (ℕ × ProcResult α)} {r : ℕ}
    (hr : (r, .error) ∉ completions) (hne : result = .error → r ≠ run) :
    (r, .error) ∉ completions ++ [(run, result)] := by
  intro hmem
  rcases List.mem_append.mp hmem with hmem | hmem
  · exact hr hmem
  · obtain ⟨hrun, hresult⟩ := Prod.mk.inj (List.mem_singleton.mp hmem)
    exact hne hresult.symm hrun

theorem Inv.runThen (h : p.Inv) (hbusy : p.busy = true) (hcompleting : p.completing = false)
    (hframes : result = .error → ∀ g ∈ p.stack, g.waiting ≠ some (p.launches - 1))
    (hsrc : Frame.Ok (p.completions ++ [(p.launches - 1, result)]) (.onThen src result)) :
    (p.runThen src result).Sound := by
  have hcore := h.core
  have hlaunches := hcore.launches
  rw [if_pos ⟨hbusy, hcompleting⟩] at hlaunches
  have hrun : p.launches - 1 = p.completions.length := by omega
  have hlength :
      (p.completions ++ [(p.launches - 1, result)]).length = p.completions.length + 1 := by
    rw [List.length_append, List.length_singleton]
  have hfilter : p.stack.filter Frame.completes = [] :=
    List.filter_eq_nil_iff.mpr fun g hg => by
      have hnone := List.any_eq_false.mp hcompleting g hg
      simpa using hnone
  refine ⟨⟨?_, ?_, ?_⟩, answered_push _⟩
  · have hphase : (p.runThen src result).phase = .before :=
      phase_cons (f := .onThen src result) rfl rfl
    have htrue : (p.runThen src result).completing = true := by
      rw [completing_cons rfl]
      rfl
    rw [hphase, htrue]
    have hslots := hcore.slots
    rw [hcore.settled hcompleting] at hslots
    constructor
    case once =>
      change (p.completions ++ [(p.launches - 1, result)]).map Prod.fst =
        List.range (p.completions ++ [(p.launches - 1, result)]).length
      rw [hlength, List.range_succ, List.map_append, hcore.once, hrun]
      rfl
    case launches =>
      change p.launches = (p.completions ++ [(p.launches - 1, result)]).length + _
      rw [hlength, if_neg (by simp), hlaunches]
    case busy => exact fun _ => hbusy
    case settled => exact fun hfalse => absurd hfalse (by decide)
    case onThen =>
      change p.thenCalls ++ [p.completions.length] =
        List.range (p.completions ++ [(p.launches - 1, result)]).length
      rw [hlength, List.range_succ, hcore.onThen]
    case futures =>
      intro f hf
      obtain ⟨hle, hiff⟩ := hcore.waiting f hf
      have hold := hcore.futures f hf
      rcases Nat.lt_or_eq_of_le hle with hlt | heq
      · change (p.runThen src result).results[f.1]? = some
            (((p.completions ++ [(p.launches - 1, result)])[f.2]?).map Prod.snd)
        rw [List.getElem?_append_left hlt, ← hold, StackProcedure.runThen]
        cases hptr : p.futureResult with
        | none => rfl
        | some ptr =>
          have hne : ptr ≠ f.1 := by
            rintro rfl
            exact hlt.ne (hiff.mpr hptr)
          exact List.getElem?_set_ne hne
      · have hptr := hiff.mp heq
        change (p.runThen src result).results[f.1]? = some
          (((p.completions ++ [(p.launches - 1, result)])[f.2]?).map Prod.snd)
        rw [heq, List.getElem?_concat_length, StackProcedure.runThen, hptr]
        exact List.getElem?_set_self (List.getElem?_eq_some_iff.mp hold).1
    case waiting =>
      intro f hf
      obtain ⟨hle, -⟩ := hcore.waiting f hf
      change f.2 ≤ (p.completions ++ [(p.launches - 1, result)]).length ∧
        (f.2 = (p.completions ++ [(p.launches - 1, result)]).length ↔ none = some f.1)
      rw [hlength]
      exact ⟨by omega, fun heq => by omega, fun hnone => by cases hnone⟩
    case pending => exact fun ptr hptr => by cases hptr
    case slots =>
      change Slots p.funcList p.registrations
        (p.completions ++ [(p.launches - 1, result)]).length .before
      rw [hlength]
      exact hslots.begin
    case defined => exact hcore.defined
  · change ((Frame.onThen src result :: p.stack).filter Frame.completes).length ≤ 1
    rw [List.filter_cons_of_pos rfl, hfilter]
    exact Nat.le_refl 1
  · intro g hg
    rcases List.mem_cons.mp hg with rfl | hg
    · exact hsrc
    · have hok := h.frames g hg
      refine ⟨fun r hr => not_failed_append (hok.waiting r hr) ?_,
        fun r hr => List.mem_append_left _ (hok.failing r hr)⟩
      rintro heq rfl
      exact hframes heq g hg hr

theorem signal_inv {i stop : ℕ}
    (hcore : p.Core (.between i stop) true) (hstack : p.stack.any Frame.completes = false)
    (hframes : ∀ f ∈ p.stack, f.Ok p.completions)
    (hsrc : Frame.Ok p.completions (.clear src : Frame α)) :
    (p.signal src result i stop).Sound := by
  have hfilter : p.stack.filter Frame.completes = [] :=
    List.filter_eq_nil_iff.mpr fun g hg => by
      have hnone := List.any_eq_false.mp hstack g hg
      simpa using hnone
  have hsingle : ∀ f : Frame α, f.completes = true →
      ((f :: p.stack).filter Frame.completes).length ≤ 1 := by
    intro f hf
    rw [List.filter_cons_of_pos hf, hfilter]
    exact Nat.le_refl 1
  unfold StackProcedure.signal
  cases hnext : nextActive p.funcList i stop with
  | none =>
    dsimp only
    refine ⟨⟨?_, hsingle _ rfl, fun g hg => ?_⟩, answered_push _⟩
    · have hphase : (p.push (.clear src)).phase = .settled :=
        phase_cons (f := .clear src) rfl rfl
      have htrue : (p.push (.clear src)).completing = true := by
        rw [completing_cons rfl]
        rfl
      rw [hphase, htrue]
      exact { hcore with settled := fun _ => rfl, slots := hcore.slots.settle hnext }
    · rcases List.mem_cons.mp hg with rfl | hg
      · exact hsrc
      · exact hframes g hg
  | some j =>
    dsimp only
    obtain ⟨-, -, ⟨item, hitem, -⟩, -⟩ := nextActive_eq_some hnext
    rw [hitem]
    dsimp only
    refine ⟨⟨?_, hsingle _ rfl, fun g hg => ?_⟩, answered_push _⟩
    · rw [phase_cons (f := .continuation src result j stop) rfl rfl, completing_cons rfl]
      exact { hcore with
        settled := fun hfalse => absurd hfalse (by simp [Frame.completes])
        slots := hcore.slots.call hnext hitem }
    · rcases List.mem_cons.mp hg with rfl | hg
      · exact ⟨hsrc.waiting, hsrc.failing⟩
      · exact hframes g hg

section

variable (h : p.Inv)
include h

theorem Inv.clear (hstack : p.stack = .clear src :: rest) :
    (finish { p with busy := false, stack := rest } src).Sound := by
  have hrest := h.rest_not_completes hstack rfl
  have hok : Frame.Ok p.completions (.clear src : Frame α) := h.ok_cons hstack
  have hinv : Inv { p with busy := false, stack := rest } := by
    have hcore := h.core_cons hstack rfl
    have hfilter : rest.filter Frame.completes = [] :=
      List.filter_eq_nil_iff.mpr fun g hg => by
        have hnone := List.any_eq_false.mp hrest g hg
        simpa using hnone
    have hphase : phase { p with busy := false, stack := rest } = .settled := by
      rw [phase, List.find?_eq_none.mpr fun g hg => List.any_eq_false.mp hrest g hg]
      rfl
    have hnot : completing { p with busy := false, stack := rest } = false := hrest
    refine ⟨?_, ?_, fun g hg => h.frames g (by rw [hstack]; exact List.mem_cons_of_mem _ hg)⟩
    · rw [hphase, hnot]
      have hlaunches := hcore.launches
      rw [if_neg (by simp)] at hlaunches
      refine { hcore with
        launches := ?_
        busy := fun htrue => absurd htrue (by decide)
        settled := fun _ => rfl }
      change p.launches = p.completions.length + _
      rw [if_neg (by simp), hlaunches]
    · change (rest.filter Frame.completes).length ≤ 1
      rw [hfilter]
      exact Nat.zero_le 1
  cases src with
  | init run failed =>
    refine ⟨hinv.answer _, ?_⟩
    cases failed with
    | false =>
      exact answered_true (p := { p with busy := false, stack := rest }) (hok.waiting run rfl)
    | true =>
      intro run' value hreply
      obtain ⟨rfl, rfl⟩ := Reply.launch.inj (Option.some.inj hreply)
      exact ⟨fun _ => Or.inr ⟨run, rfl, hok.failing run rfl⟩, fun _ => rfl⟩
  | step caller => exact hinv.loopDone caller hok.waiting
  | react => exact ⟨hinv.answer _, answered_answer (by simp)⟩

theorem Inv.completes (hstack : p.stack = f :: rest) (hdisciplined : p.Disciplined (.ret outcome))
    (hresult : outcome.result = some result) (hf : f.completes = false)
    (hsrc : Frame.Ok (p.completions ++ [(p.launches - 1, result)]) (.onThen src result)) :
    (StackProcedure.runThen { p with stack := rest } src result).Sound := by
  obtain ⟨hbusy, hcompleting, herror⟩ := hdisciplined f rest result hstack hresult hf
  rw [completing_cons hstack, hf, Bool.false_or] at hcompleting
  exact (h.pop hstack hf).runThen hbusy hcompleting (fun heq => (herror heq).1) hsrc

theorem Inv.ret_init
    (hstack : p.stack = .init run :: rest) (hdisciplined : p.Disciplined (.ret outcome)) :
    (returnFrom { p with stack := rest } outcome (.init run)).Sound := by
  have hok := h.ok_cons hstack
  have hinv := h.pop hstack rfl
  unfold returnFrom
  cases hresult : outcome.result with
  | none =>
    dsimp only
    split_ifs
    · exact hinv.runLoop (.launch run) hok.waiting
    · exact ⟨hinv.answer _, answered_true (p := { p with stack := rest }) (hok.waiting run rfl)⟩
  | some result =>
    have hdis := hdisciplined _ rest result hstack hresult rfl
    refine h.completes hstack hdisciplined hresult rfl ?_
    cases outcome with
    | success value =>
      cases hresult
      refine ⟨fun r hr => ?_, fun r hr => (by cases hr)⟩
      cases hr
      exact not_failed_append (hok.waiting run rfl) (fun heq => by cases heq)
    | error =>
      cases hresult
      refine ⟨fun r hr => (by cases hr), fun r hr => ?_⟩
      cases hr
      rw [show run = p.launches - 1 from (hdis.2.2 rfl).2]
      exact List.mem_append_right _ List.mem_cons_self
    | repeated => cases hresult
    | yield => cases hresult

theorem Inv.ret_step {caller : Caller}
    (hstack : p.stack = .step caller :: rest) (hdisciplined : p.Disciplined (.ret outcome)) :
    (returnFrom { p with stack := rest } outcome (.step caller)).Sound := by
  have hok := h.ok_cons hstack
  have hinv := h.pop hstack rfl
  unfold returnFrom
  cases hresult : outcome.result with
  | none =>
    dsimp only
    split_ifs
    · exact hinv.runLoop caller hok.waiting
    · exact hinv.loopDone caller hok.waiting
  | some result =>
    have hdis := hdisciplined _ rest result hstack hresult rfl
    refine h.completes hstack hdisciplined hresult rfl ⟨fun r hr => ?_, fun r hr => (by cases hr)⟩
    refine not_failed_append (hok.waiting r hr) fun heq => ?_
    have hmay := (hdis.2.2 heq).2
    cases caller with
    | launch run =>
      cases hr
      exact hmay
    | user => cases hr
    | trigger => cases hr

theorem Inv.ret_react (hstack : p.stack = .react :: rest)
    (hdisciplined : p.Disciplined (.ret outcome)) :
    (returnFrom { p with stack := rest } outcome .react).Sound := by
  have hinv := h.pop hstack rfl
  unfold returnFrom
  cases hresult : outcome.result with
  | none =>
    dsimp only
    split_ifs
    · exact hinv.runLoop .trigger fun r hr => by cases hr
    · exact ⟨hinv.answer _, answered_answer (by simp)⟩
  | some result =>
    exact h.completes hstack hdisciplined hresult rfl
      ⟨fun r hr => (by cases hr), fun r hr => (by cases hr)⟩

theorem Inv.ret (hstack : p.stack = f :: rest)
    (hdisciplined : p.Disciplined (.ret outcome)) :
    (returnFrom { p with stack := rest } outcome f).Sound := by
  have hok := h.ok_cons hstack
  have hframes : ∀ g ∈ rest, g.Ok p.completions := fun g hg =>
    h.frames g (by rw [hstack]; exact List.mem_cons_of_mem f hg)
  cases f with
  | init run => exact h.ret_init hstack hdisciplined
  | step caller => exact h.ret_step hstack hdisciplined
  | react => exact h.ret_react hstack hdisciplined
  | onThen src result =>
    have hcore := h.core_cons hstack rfl
    refine signal_inv ?_ (h.rest_not_completes hstack rfl) hframes ⟨hok.waiting, hok.failing⟩
    exact { hcore with settled := fun hfalse => absurd hfalse nofun, slots := hcore.slots.loop }
  | continuation src result i stop =>
    have hcore := h.core_cons hstack rfl
    refine signal_inv ?_ (h.rest_not_completes hstack rfl) hframes ⟨hok.waiting, hok.failing⟩
    exact { hcore with settled := fun hfalse => absurd hfalse nofun, slots := hcore.slots.returned }
  | clear src => exact h.clear hstack

theorem Inv.step {e : Event α} (he : p.Disciplined e) :
    (p.step grow e).Sound := by
  cases e with
  | launch => exact h.launch
  | run =>
    exact h.runLoop .user fun r hr => by cases hr
  | trigger => exact h.trigger
  | andThen always => exact h.register he.1 he.2
  | getFuture => exact h.getFuture
  | ret outcome =>
    unfold StackProcedure.step
    dsimp only
    cases hstack : p.stack with
    | nil =>
      dsimp only
      rw [← hstack]
      exact ⟨⟨h.core.frame p.stack none, h.single, h.frames⟩, answered_of_none rfl⟩
    | cons f rest => exact h.ret hstack he

theorem Inv.truthful {e : Event α} (he : p.Disciplined e) :
    p.Truthful grow e :=
  ⟨fun hbusy => if_pos hbusy, (h.step he).2⟩

end

/-- A procedure that keeps to the order completes every run exactly once, and its launches answer
the truth. -/
theorem kept_of_disciplined (grow : ℕ → ℕ) (events : List (Event α))
    (h : EventRun.Along (StackProcedure.step grow) Disciplined start events) :
    EventRun.Along (StackProcedure.step grow) (Truthful grow) start events ∧
      Kept (events.foldl (StackProcedure.step grow) start) := by
  have hstep : ∀ (s : StackProcedure α) (e : Event α), s.Inv → s.Disciplined e →
      (s.step grow e).Inv := fun s e hs he => (hs.step he).1
  have hinv : Inv (events.foldl (StackProcedure.step grow) start) := h.invariant hstep inv_start
  exact ⟨EventRun.along_mono hstep (fun _ _ hs he => hs.truthful he) inv_start h, hinv.kept⟩

/-- A launch that yields, a step that succeeds, and a continuation for every completion. -/
theorem kept_of_disciplined_once :
    EventRun.Along (StackProcedure.step fun n => 2 * n) (Truthful fun n => 2 * n) start
        ([.andThen true, .launch, .ret .yield, .run, .ret (.success ()), .ret .yield] :
          List (Event Unit)) ∧
      Kept (([.andThen true, .launch, .ret .yield, .run, .ret (.success ()), .ret .yield] :
        List (Event Unit)).foldl (StackProcedure.step fun n => 2 * n) start) :=
  kept_of_disciplined (fun n => 2 * n) _
    ⟨⟨trivial, Or.inr (Or.inr rfl)⟩, trivial, fun _ _ _ _ hresult => (by cases hresult), trivial,
      fun _ _ _ _ hresult _ => ⟨rfl, rfl, fun herror => (by cases hresult; cases herror)⟩,
      fun _ _ _ _ hresult => (by cases hresult), trivial⟩

/-- The step that `launch` runs right away fails, and `launch` answers `true`. -/
theorem launch_of_failed_run : ¬ ∀ (grow : ℕ → ℕ) (events : List (Event Unit)),
    EventRun.Along (StackProcedure.step grow) (Truthful grow) start events ∧
      Kept (events.foldl (StackProcedure.step grow) start) := by
  intro h
  obtain ⟨⟨-, -, -, -, htruthful, -⟩, -⟩ := h (fun n => 2 * n)
    [.launch, .ret .repeated, .ret .error, .ret .yield, .ret .yield]
  have hfalse := (htruthful.2 (some 0) true rfl).mpr (Or.inr ⟨0, rfl, List.mem_cons_self⟩)
  exact absurd hfalse (by decide)

end StackProcedure
end SrsLte
