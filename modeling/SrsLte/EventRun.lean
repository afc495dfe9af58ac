import Mathlib.Data.List.Basic
import Mathlib.Tactic.Common

/-!
# Properties of the steps of a run

A machine takes one step for each event of a list. `Along step P s events` says that `P` holds at
every step, of the state before it and of its event.
-/

namespace EventRun

variable {σ σ' ε ε' : Type*} {step : σ → ε → σ} {step' : σ' → ε' → σ'}

def Along (step : σ → ε → σ) (P : σ → ε → Prop) : σ → List ε → Prop
  | _, [] => True
  | s, e :: events => P s e ∧ Along step P (step s e) events

variable {P Q : σ → ε → Prop} {I : σ → Prop} {s : σ} {events : List ε}

theorem along_append {later : List ε} :
    Along step P s (events ++ later) ↔
      Along step P s events ∧ Along step P (events.foldl step s) later := by
  induction events generalizing s with
  | nil => exact (and_iff_right trivial).symm
  | cons e events ih =>
    rw [List.cons_append, Along, ih, Along, List.foldl_cons, and_assoc]

theorem along_iff_split :
    Along step P s events ↔
      ∀ before e after, events = before ++ e :: after → P (before.foldl step s) e := by
  constructor
  · rintro h before e after rfl
    exact (along_append.mp h).2.1
  · intro h
    induction events generalizing s with
    | nil => trivial
    | cons e events ih =>
      refine ⟨h [] e events rfl, ih fun before e' after heq => ?_⟩
      exact h (e :: before) e' after (congrArg (e :: ·) heq)

theorem along_of_forall (h : ∀ s e, P s e) : Along step P s events :=
  along_iff_split.mpr fun _ _ _ _ => h _ _

theorem along_forall {ι : Sort*} {P : ι → σ → ε → Prop} :
    Along step (fun s e => ∀ i, P i s e) s events ↔ ∀ i, Along step (P i) s events := by
  simp only [along_iff_split]
  exact ⟨fun h i _ _ _ heq => h _ _ _ heq i, fun h _ _ _ heq i => h i _ _ _ heq⟩

theorem along_and :
    Along step (fun s e => P s e ∧ Q s e) s events ↔
      Along step P s events ∧ Along step Q s events := by
  simp only [along_iff_split, ← forall_and]

theorem forall_prefix_iff {P : σ → Prop} :
    (∀ pre, pre <+: events → P (pre.foldl step s)) ↔
      P s ∧ Along step (fun s e => P (step s e)) s events := by
  rw [along_iff_split]
  constructor
  · refine fun h => ⟨h [] List.nil_prefix, fun before e after heq => ?_⟩
    have hpre := h (before ++ [e]) ⟨after, by simp [heq]⟩
    rwa [List.foldl_concat] at hpre
  · rintro ⟨hs, hstep⟩ pre ⟨after, rfl⟩
    rcases List.eq_nil_or_concat pre with rfl | ⟨before, e, rfl⟩
    · exact hs
    · rw [List.concat_eq_append, List.foldl_concat]
      exact hstep before e after (by simp)

section

variable (hstep : ∀ s e, I s → P s e → I (step s e))
include hstep

theorem Along.invariant (hI : I s)
    (h : Along step P s events) : I (events.foldl step s) := by
  induction events generalizing s with
  | nil => exact hI
  | cons e events ih => exact ih (hstep s e hI h.1) h.2

theorem along_congr (hiff : ∀ s e, I s → (P s e ↔ Q s e))
    (hI : I s) : Along step P s events ↔ Along step Q s events := by
  induction events generalizing s with
  | nil => exact Iff.rfl
  | cons e events ih =>
    rw [Along, Along, ← hiff s e hI]
    exact and_congr_right fun hP => ih (hstep s e hI hP)

theorem along_mono (himp : ∀ s e, I s → P s e → Q s e)
    (hI : I s) (h : Along step P s events) : Along step Q s events := by
  induction events generalizing s with
  | nil => trivial
  | cons e events ih => exact ⟨himp s e hI h.1, ih (hstep s e hI h.1) h.2⟩

end

theorem along_map {P' : σ' → ε' → Prop} (view : σ → σ') (event : ε → ε')
    (hstep : ∀ s e, view (step s e) = step' (view s) (event e))
    (hP : ∀ s e, P s e ↔ P' (view s) (event e)) :
    Along step P s events ↔ Along step' P' (view s) (events.map event) := by
  induction events generalizing s with
  | nil => exact Iff.rfl
  | cons e events ih => rw [List.map_cons, Along, Along, hP, ih, hstep]

end EventRun
