import Mathlib.Data.List.Induction

/-!
# Segmentation of a sequence of units

A transmitter cuts units (lists over any type) into fragments, each with pieces of consecutive
units. All pieces of a fragment but the last end their unit, and all but the first start one; two
flags tell whether the first piece starts a unit and whether the last one ends it. A reassembler
that keeps the unit under way delivers the units that end in each fragment.
-/

namespace Segmentation

variable {α : Type*}

structure Fragment (α : Type*) where
  init : List (List α)
  last : List α
  startAligned : Bool
  endAligned : Bool

namespace Fragment

/-- The units that end in the fragment when `pre` is what came before of its first unit. -/
def completed (pre : List α) (f : Fragment α) : List (List α) :=
  match f.init with
  | [] => if f.endAligned then [pre ++ f.last] else []
  | piece :: pieces => (pre ++ piece) :: (pieces ++ if f.endAligned then [f.last] else [])

def rest (pre : List α) (f : Fragment α) : List α :=
  if f.endAligned then [] else if f.init = [] then pre ++ f.last else f.last

def data (f : Fragment α) : List α := f.init.flatten ++ f.last

theorem of_nil (f : Fragment α) (h : f.init = []) (pre : List α) :
    f.completed pre = (if f.endAligned then [pre ++ f.last] else []) ∧
      f.rest pre = (if f.endAligned then [] else pre ++ f.last) ∧ f.data = f.last := by
  unfold completed rest data
  rw [h]
  exact ⟨rfl, rfl, rfl⟩

theorem of_cons (f : Fragment α) {piece : List α} {pieces : List (List α)}
    (h : f.init = piece :: pieces) (pre : List α) :
    f.completed pre = (pre ++ piece) :: (pieces ++ if f.endAligned then [f.last] else []) ∧
      f.rest pre = if f.endAligned then [] else f.last := by
  unfold completed rest
  rw [h]
  exact ⟨rfl, rfl⟩

theorem data_cons (f : Fragment α) {piece : List α} {pieces : List (List α)}
    (h : f.init = piece :: pieces) : f.data = piece ++ (pieces.flatten ++ f.last) := by
  rw [data, h, List.flatten_cons, List.append_assoc]

end Fragment

def carry (fs : List (Fragment α)) : List α := fs.foldl Fragment.rest []

def completed (fs : List (Fragment α)) : List (List α) :=
  (fs.zipIdx.map fun a => a.1.completed (carry (fs.take a.2))).flatten

def Chained : Bool → List (Fragment α) → Prop
  | _, [] => True
  | aligned, f :: fs => f.startAligned = aligned ∧ Chained f.endAligned fs

def aligned (fs : List (Fragment α)) : Bool := (fs.getLast?.map Fragment.endAligned).getD true

theorem carry_concat (fs : List (Fragment α)) (f : Fragment α) :
    carry (fs ++ [f]) = f.rest (carry fs) := by
  unfold carry
  rw [List.foldl_append]
  rfl

theorem completed_concat (fs : List (Fragment α)) (f : Fragment α) :
    completed (fs ++ [f]) = completed fs ++ f.completed (carry fs) := by
  unfold completed
  rw [List.zipIdx_append, List.map_append, List.flatten_append]
  congr 1
  · congr 1
    refine List.map_congr_left fun a ha => ?_
    have hlt := List.snd_lt_of_mem_zipIdx ha
    rw [List.take_append_of_le_length (by omega)]
  · simp

variable {fs : List (Fragment α)} {n : ℕ} {f : Fragment α}

theorem carry_eq_nil_of_aligned (h : aligned fs = true) :
    carry fs = [] := by
  induction fs using List.reverseRecOn with
  | nil => rfl
  | append_singleton fs f =>
    rw [carry_concat, Fragment.rest]
    rw [aligned, List.getLast?_concat] at h
    exact if_pos h

theorem aligned_concat (fs : List (Fragment α)) (f : Fragment α) :
    aligned (fs ++ [f]) = f.endAligned := by
  rw [aligned, List.getLast?_concat]
  rfl

theorem chained_append (a : Bool) (fs gs : List (Fragment α)) :
    Chained a (fs ++ gs) ↔
      Chained a fs ∧ Chained ((fs.getLast?.map Fragment.endAligned).getD a) gs := by
  induction fs generalizing a with
  | nil => exact (and_iff_right trivial).symm
  | cons f fs ih =>
    rw [List.cons_append, Chained, Chained, ih, and_assoc]
    cases fs with
    | nil => rfl
    | cons f' fs =>
      obtain ⟨g, hg⟩ : ∃ g, (f' :: fs).getLast? = some g :=
        ⟨_, List.getLast?_eq_some_getLast (List.cons_ne_nil f' fs)⟩
      rw [List.getLast?_cons_cons, hg]
      rfl

theorem chained_concat (fs : List (Fragment α)) (f : Fragment α) :
    Chained true (fs ++ [f]) ↔ Chained true fs ∧ f.startAligned = aligned fs := by
  rw [chained_append]
  exact and_congr_right fun _ => and_iff_left trivial

theorem Chained.carry_take (h : Chained true fs)
    (hf : fs[n]? = some f) (hstart : f.startAligned = true) :
    carry (fs.take n) = [] := by
  obtain ⟨hn, hget⟩ := List.getElem?_eq_some_iff.mp hf
  have hsplit : fs = (fs.take n ++ [f]) ++ fs.drop (n + 1) := by
    rw [← hget, List.append_assoc, List.singleton_append, List.getElem_cons_drop,
      List.take_append_drop]
  rw [hsplit, chained_append, chained_concat] at h
  exact carry_eq_nil_of_aligned (h.1.2.symm.trans hstart)

theorem Chained.carry_take_ne_nil (h : Chained true fs)
    (hlast : ∀ g ∈ fs, g.last ≠ []) (hf : fs[n]? = some f)
    (hstart : f.startAligned = false) : carry (fs.take n) ≠ [] := by
  obtain ⟨hn, hget⟩ := List.getElem?_eq_some_iff.mp hf
  have hsplit : fs = (fs.take n ++ [f]) ++ fs.drop (n + 1) := by
    rw [← hget, List.append_assoc, List.singleton_append, List.getElem_cons_drop,
      List.take_append_drop]
  have hchain := h
  rw [hsplit, chained_append, chained_concat] at hchain
  have hunaligned : aligned (fs.take n) = false := hchain.1.2.symm.trans hstart
  rcases List.eq_nil_or_concat (fs.take n) with hnil | ⟨gs, g, hconcat⟩
  · rw [hnil] at hunaligned
    exact absurd hunaligned (by simp [aligned])
  · rw [List.concat_eq_append] at hconcat
    rw [hconcat, aligned_concat] at hunaligned
    have hmem : g ∈ fs :=
      List.mem_of_mem_take (hconcat ▸ List.mem_append_right gs List.mem_cons_self)
    rw [hconcat, carry_concat, Fragment.rest, hunaligned]
    by_cases hinit : g.init = []
    · rw [if_neg Bool.false_ne_true, if_pos hinit]
      exact List.append_ne_nil_of_right_ne_nil _ (hlast g hmem)
    · rw [if_neg Bool.false_ne_true, if_neg hinit]
      exact hlast g hmem

theorem carry_take_succ
    (hf : fs[n]? = some f) : carry (fs.take (n + 1)) = f.rest (carry (fs.take n)) := by
  rw [List.take_add_one, hf]
  exact carry_concat _ f

theorem completed_take_succ (hf : fs[n]? = some f) :
    completed (fs.take (n + 1)) = completed (fs.take n) ++ f.completed (carry (fs.take n)) := by
  rw [List.take_add_one, hf]
  exact completed_concat _ f

theorem completed_take_sublist (fs : List (Fragment α)) (n : ℕ) :
    (completed (fs.take n)).Sublist (completed fs) := by
  induction fs using List.reverseRecOn with
  | nil => exact List.take_nil.symm ▸ List.Sublist.refl _
  | append_singleton fs f ih =>
    by_cases h : n ≤ fs.length
    · rw [List.take_append_of_le_length h, completed_concat]
      exact ih.trans (List.sublist_append_left _ _)
    · have hall : (fs ++ [f]).take n = fs ++ [f] := List.take_of_length_le (by simp; omega)
      exact hall.symm ▸ List.Sublist.refl _

theorem Fragment.length_le {B : ℕ} {pre : List α}
    (hcompleted : ∀ u ∈ f.completed pre, u.length ≤ B) (hrest : (f.rest pre).length ≤ B) :
    pre.length ≤ B := by
  unfold Fragment.completed at hcompleted
  unfold Fragment.rest at hrest
  cases hinit : f.init with
  | nil =>
    rw [hinit] at hcompleted hrest
    by_cases hend : f.endAligned = true
    · have hle := hcompleted (pre ++ f.last) (by simp [hend])
      rw [List.length_append] at hle
      omega
    · rw [if_neg hend, if_pos rfl, List.length_append] at hrest
      omega
  | cons piece pieces =>
    rw [hinit] at hcompleted
    have hle := hcompleted (pre ++ piece) List.mem_cons_self
    rw [List.length_append] at hle
    omega

theorem length_carry_take_le {B : ℕ}
    (hcompleted : ∀ u ∈ completed fs, u.length ≤ B) (hcarry : (carry fs).length ≤ B) (n : ℕ) :
    (carry (fs.take n)).length ≤ B := by
  induction fs using List.reverseRecOn generalizing n with
  | nil => rwa [List.take_nil]
  | append_singleton fs f ih =>
    rw [completed_concat] at hcompleted
    rw [carry_concat] at hcarry
    by_cases h : n ≤ fs.length
    · rw [List.take_append_of_le_length h]
      exact ih (fun u hu => hcompleted u (List.mem_append_left _ hu))
        (Fragment.length_le (fun u hu => hcompleted u (List.mem_append_right _ hu)) hcarry) n
    · rwa [List.take_of_length_le (by simp; omega), carry_concat]

end Segmentation
