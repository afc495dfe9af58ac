import Mathlib.Data.List.Basic
import Mathlib.Algebra.Order.Ring.Nat
import Mathlib.Tactic.Common

/-!
# Ordered maps

A finite map is the list of its entries with strictly increasing keys, in the order in which it is
iterated. What an operation does is stated by what it lets `find?` return.
-/

structure OrderedMap (κ β : Type*) [LinearOrder κ] where
  entries : List (κ × β)
  sorted : entries.Pairwise fun a b => a.1 < b.1

namespace OrderedMap

variable {κ β : Type*} [LinearOrder κ]

def lookup (k : κ) : List (κ × β) → Option β
  | [] => none
  | (l, b) :: es => if l = k then some b else lookup k es

/-- The entry of `k` becomes `f` of the old value, if there is one. -/
def upsert (k : κ) (f : Option β → β) : List (κ × β) → List (κ × β)
  | [] => [(k, f none)]
  | (l, b) :: es =>
    if k < l then (k, f none) :: (l, b) :: es
    else if k = l then (k, f (some b)) :: es
    else (l, b) :: upsert k f es

theorem lookup_eq_none {k : κ} {es : List (κ × β)} (h : ∀ e ∈ es, e.1 ≠ k) :
    lookup k es = none := by
  induction es with
  | nil => rfl
  | cons e es ih =>
    rw [lookup, if_neg (h e List.mem_cons_self)]
    exact ih (List.forall_mem_cons.mp h).2

theorem lookup_eq_some_iff {k : κ} {b : β} {es : List (κ × β)}
    (hs : es.Pairwise fun a b => a.1 < b.1) : lookup k es = some b ↔ (k, b) ∈ es := by
  induction es with
  | nil => simp [lookup]
  | cons e es ih =>
    obtain ⟨l, c⟩ := e
    obtain ⟨hl, hes⟩ := List.pairwise_cons.mp hs
    rw [lookup, List.mem_cons, Prod.mk.injEq]
    split_ifs with hlk
    · have hnot : (k, b) ∉ es := fun h => (hl _ h).ne hlk
      constructor
      · intro h
        exact Or.inl ⟨hlk.symm, (Option.some.inj h).symm⟩
      · rintro (⟨-, hb⟩ | h)
        · rw [hb]
        · exact absurd h hnot
    · rw [ih hes]
      exact ⟨Or.inr, fun h => h.resolve_left fun h => hlk h.1.symm⟩

theorem mem_upsert {k : κ} {f : Option β → β} {es : List (κ × β)} {e : κ × β}
    (he : e ∈ upsert k f es) : e.1 = k ∨ e ∈ es := by
  induction es with
  | nil => exact Or.inl (by rw [List.mem_singleton.mp he])
  | cons d es ih =>
    obtain ⟨l, b⟩ := d
    unfold upsert at he
    split_ifs at he with hlt heq
    · rcases List.mem_cons.mp he with rfl | he
      · exact Or.inl rfl
      · exact Or.inr he
    · rcases List.mem_cons.mp he with rfl | he
      · exact Or.inl rfl
      · exact Or.inr (List.mem_cons_of_mem _ he)
    · rcases List.mem_cons.mp he with rfl | he
      · exact Or.inr List.mem_cons_self
      · exact (ih he).imp_right (List.mem_cons_of_mem _)

theorem sorted_upsert (k : κ) (f : Option β → β) {es : List (κ × β)}
    (hs : es.Pairwise fun a b => a.1 < b.1) : (upsert k f es).Pairwise fun a b => a.1 < b.1 := by
  induction es with
  | nil => exact List.pairwise_singleton _ _
  | cons e es ih =>
    obtain ⟨l, b⟩ := e
    obtain ⟨hl, hes⟩ := List.pairwise_cons.mp hs
    unfold upsert
    split_ifs with hlt heq
    · refine List.pairwise_cons.mpr ⟨fun e he => ?_, hs⟩
      rcases List.mem_cons.mp he with rfl | he
      · exact hlt
      · exact hlt.trans (hl e he)
    · subst heq
      exact List.pairwise_cons.mpr ⟨hl, hes⟩
    · refine List.pairwise_cons.mpr ⟨fun e he => ?_, ih hes⟩
      rcases mem_upsert he with hk | he
      · rw [hk]
        exact lt_of_le_of_ne (not_lt.mp hlt) (Ne.symm heq)
      · exact hl e he

theorem lookup_upsert (k l : κ) (f : Option β → β) {es : List (κ × β)}
    (hs : es.Pairwise fun a b => a.1 < b.1) :
    lookup l (upsert k f es) = if l = k then some (f (lookup k es)) else lookup l es := by
  induction es with
  | nil =>
    unfold upsert lookup lookup
    simp only [eq_comm]
  | cons e es ih =>
    obtain ⟨m, b⟩ := e
    obtain ⟨hm, hes⟩ := List.pairwise_cons.mp hs
    rcases lt_trichotomy k m with hlt | rfl | hgt
    · have hnone : lookup k ((m, b) :: es) = none := by
        refine lookup_eq_none fun e he => ?_
        rcases List.mem_cons.mp he with rfl | he
        · exact hlt.ne'
        · exact (hlt.trans (hm e he)).ne'
      rw [upsert, if_pos hlt, lookup, hnone]
      simp only [eq_comm]
    · rw [upsert, if_neg (lt_irrefl k), if_pos rfl]
      by_cases hlk : l = k
      · rw [lookup, if_pos hlk.symm, if_pos hlk, lookup, if_pos rfl]
      · rw [lookup, if_neg (Ne.symm hlk), if_neg hlk, lookup, if_neg (Ne.symm hlk)]
    · rw [upsert, if_neg hgt.not_gt, if_neg hgt.ne', lookup, ih hes, lookup, if_neg hgt.ne, lookup]
      by_cases hlk : l = k
      · rw [if_pos hlk, if_pos hlk, if_neg (hlk ▸ hgt.ne)]
      · rw [if_neg hlk, if_neg hlk]

theorem length_upsert (k : κ) (f : Option β → β) (es : List (κ × β))
    (hs : es.Pairwise fun a b => a.1 < b.1) :
    (upsert k f es).length = es.length + if (lookup k es).isSome then 0 else 1 := by
  induction es with
  | nil => rfl
  | cons e es ih =>
    obtain ⟨l, b⟩ := e
    obtain ⟨hl, hes⟩ := List.pairwise_cons.mp hs
    rw [upsert, lookup]
    by_cases hlt : k < l
    · have hnone : lookup k es = none := lookup_eq_none fun e he => (hlt.trans (hl e he)).ne'
      rw [if_pos hlt, if_neg hlt.ne', hnone]
      rfl
    · rw [if_neg hlt]
      by_cases heq : k = l
      · rw [if_pos heq, if_pos heq.symm]
        rfl
      · rw [if_neg heq, if_neg (Ne.symm heq), List.length_cons, ih hes, List.length_cons,
          Nat.add_right_comm]

theorem length_filter_ne {k : κ} {b : β} {es : List (κ × β)}
    (hs : es.Pairwise fun a b => a.1 < b.1) (h : (k, b) ∈ es) :
    (es.filter fun e => e.1 ≠ k).length + 1 = es.length := by
  induction es with
  | nil => exact absurd h List.not_mem_nil
  | cons e es ih =>
    obtain ⟨hl, hes⟩ := List.pairwise_cons.mp hs
    rcases List.mem_cons.mp h with rfl | hmem
    · have hall : es.filter (fun e => decide (e.1 ≠ k)) = es :=
        List.filter_eq_self.mpr fun e he => decide_eq_true (hl e he).ne'
      rw [List.filter_cons_of_neg (by simp), hall, List.length_cons]
    · have hne : e.1 ≠ k := (hl _ hmem).ne
      rw [List.filter_cons_of_pos (by simpa using hne), List.length_cons, ih hes hmem,
        List.length_cons]

theorem lookup_filter (p : κ → Bool) (k : κ) (es : List (κ × β)) :
    lookup k (es.filter fun e => p e.1) = if p k then lookup k es else none := by
  induction es with
  | nil => simp [lookup]
  | cons e es ih =>
    obtain ⟨l, b⟩ := e
    by_cases hl : p l
    · rw [List.filter_cons_of_pos (by exact hl), lookup, lookup, ih]
      by_cases hlk : l = k
      · subst hlk
        rw [if_pos rfl, if_pos rfl, if_pos hl]
      · rw [if_neg hlk, if_neg hlk]
    · rw [List.filter_cons_of_neg (by exact hl), ih, lookup]
      by_cases hlk : l = k
      · subst hlk
        rw [if_neg hl, if_neg hl]
      · rw [if_neg hlk]

theorem lookup_filter_values (p : κ → β → Bool) (k : κ) {es : List (κ × β)}
    (hs : es.Pairwise fun a b => a.1 < b.1) :
    lookup k (es.filter fun e => p e.1 e.2) = (lookup k es).filter (p k) := by
  induction es with
  | nil => rfl
  | cons e es ih =>
    obtain ⟨l, b⟩ := e
    obtain ⟨hl, hes⟩ := List.pairwise_cons.mp hs
    have hrest : l = k → lookup k es = none := by
      rintro rfl
      exact lookup_eq_none fun e he => (hl e he).ne'
    by_cases hp : p l b
    · rw [List.filter_cons_of_pos (by exact hp), lookup, lookup, ih hes]
      by_cases hlk : l = k
      · subst hlk
        rw [if_pos rfl, if_pos rfl, Option.filter_some, if_pos hp]
      · rw [if_neg hlk, if_neg hlk]
    · rw [List.filter_cons_of_neg (by exact hp), ih hes, lookup]
      by_cases hlk : l = k
      · rw [if_pos hlk, hrest hlk]
        subst hlk
        rw [Option.filter_some, if_neg hp]
        rfl
      · rw [if_neg hlk]

theorem lookup_map_values (f : κ → β → β) (k : κ) (es : List (κ × β)) :
    lookup k (es.map fun e => (e.1, f e.1 e.2)) = (lookup k es).map (f k) := by
  induction es with
  | nil => rfl
  | cons e es ih =>
    obtain ⟨l, b⟩ := e
    rw [List.map_cons, lookup, lookup, ih]
    by_cases hlk : l = k
    · subst hlk
      rw [if_pos rfl, if_pos rfl, Option.map_some]
    · rw [if_neg hlk, if_neg hlk]

def empty : OrderedMap κ β := ⟨[], List.Pairwise.nil⟩

def find? (m : OrderedMap κ β) (k : κ) : Option β := lookup k m.entries

/-- Assigns a value to `k`. -/
def insert (m : OrderedMap κ β) (k : κ) (b : β) : OrderedMap κ β :=
  ⟨upsert k (fun _ => b) m.entries, sorted_upsert k _ m.sorted⟩

/-- Enters a value for `k` unless there is one. -/
def emplace (m : OrderedMap κ β) (k : κ) (b : β) : OrderedMap κ β :=
  ⟨upsert k (fun o => o.getD b) m.entries, sorted_upsert k _ m.sorted⟩

/-- The entry of `k` becomes `f` of the value found there. -/
def alter (m : OrderedMap κ β) (k : κ) (f : Option β → β) : OrderedMap κ β :=
  ⟨upsert k f m.entries, sorted_upsert k f m.sorted⟩

def filterKeys (m : OrderedMap κ β) (p : κ → Bool) : OrderedMap κ β :=
  ⟨m.entries.filter fun e => p e.1, m.sorted.filter _⟩

def erase (m : OrderedMap κ β) (k : κ) : OrderedMap κ β := m.filterKeys fun l => l ≠ k

/-- Keeps the entries that satisfy `p`. -/
def filter (m : OrderedMap κ β) (p : κ → β → Bool) : OrderedMap κ β :=
  ⟨m.entries.filter fun e => p e.1 e.2, m.sorted.filter _⟩

def mapValues (m : OrderedMap κ β) (f : κ → β → β) : OrderedMap κ β :=
  ⟨m.entries.map fun e => (e.1, f e.1 e.2), List.pairwise_map.mpr m.sorted⟩

variable (m : OrderedMap κ β) (k l : κ) (b : β)

theorem find?_eq_some_iff {m : OrderedMap κ β} {k : κ} {b : β} :
    m.find? k = some b ↔ (k, b) ∈ m.entries :=
  lookup_eq_some_iff m.sorted

@[simp]
theorem find?_empty : (empty : OrderedMap κ β).find? k = none := rfl

theorem find?_insert : (m.insert k b).find? l = if l = k then some b else m.find? l :=
  lookup_upsert k l _ m.sorted

theorem find?_emplace :
    (m.emplace k b).find? l = if l = k then some ((m.find? k).getD b) else m.find? l :=
  lookup_upsert k l _ m.sorted

theorem find?_alter (f : Option β → β) :
    (m.alter k f).find? l = if l = k then some (f (m.find? k)) else m.find? l :=
  lookup_upsert k l f m.sorted

theorem find?_filter (p : κ → β → Bool) : (m.filter p).find? k = (m.find? k).filter (p k) :=
  lookup_filter_values p k m.sorted

theorem find?_mapValues (f : κ → β → β) : (m.mapValues f).find? k = (m.find? k).map (f k) :=
  lookup_map_values f k m.entries

theorem find?_filterKeys (p : κ → Bool) :
    (m.filterKeys p).find? l = if p l then m.find? l else none :=
  lookup_filter p l m.entries

theorem find?_erase : (m.erase k).find? l = if l = k then none else m.find? l := by
  rw [erase, find?_filterKeys]
  by_cases h : l = k <;> simp [h]

theorem find?_of_entries_nil {m : OrderedMap κ β} (h : m.entries = []) : m.find? k = none := by
  cases hfind : m.find? k with
  | none => rfl
  | some b =>
    have hmem := find?_eq_some_iff.mp hfind
    rw [h] at hmem
    exact absurd hmem List.not_mem_nil

theorem length_insert :
    (m.insert k b).entries.length = m.entries.length + if (m.find? k).isSome then 0 else 1 :=
  length_upsert k _ m.entries m.sorted

theorem length_erase {m : OrderedMap κ β} {k : κ} {b : β} (h : m.find? k = some b) :
    (m.erase k).entries.length + 1 = m.entries.length :=
  length_filter_ne m.sorted (find?_eq_some_iff.mp h)

end OrderedMap

/-!
A list with strictly increasing keys stands for the finite map from keys to entries. What a pass
over such a list does to an ordered map is stated by what can be found afterwards.
-/

namespace KeyedList

variable {α β κ : Type*} [LinearOrder κ] {key : α → κ} {k : κ} {a : α} {l : List α}

def Sorted (key : α → κ) (l : List α) : Prop := l.Pairwise fun a b => key a < key b

def find? (key : α → κ) (k : κ) (l : List α) : Option α := l.find? fun a => key a = k

@[simp]
theorem find?_nil : find? key k [] = none := rfl

theorem find?_cons : find? key k (a :: l) = if key a = k then some a else find? key k l := by
  unfold find?
  rw [List.find?_cons]
  by_cases h : key a = k <;> simp [h]

theorem find?_cons_of_eq (h : key a = k) : find? key k (a :: l) = some a := by
  rw [find?_cons, if_pos h]

theorem find?_cons_of_ne (h : key a ≠ k) : find? key k (a :: l) = find? key k l := by
  rw [find?_cons, if_neg h]

theorem mem_of_find? (h : find? key k l = some a) : a ∈ l :=
  List.mem_of_find?_eq_some h

theorem key_of_find? (h : find? key k l = some a) : key a = k := by
  simpa using List.find?_some h

theorem find?_eq_none_iff : find? key k l = none ↔ ∀ a ∈ l, key a ≠ k := by
  simp [find?, List.find?_eq_none]

theorem find?_of_lt (h : ∀ a ∈ l, k < key a) : find? key k l = none :=
  find?_eq_none_iff.mpr fun a ha => (h a ha).ne'

theorem find?_eq_some_iff (hs : Sorted key l) :
    find? key k l = some a ↔ a ∈ l ∧ key a = k := by
  refine ⟨fun h => ⟨mem_of_find? h, key_of_find? h⟩, ?_⟩
  rintro ⟨ha, rfl⟩
  induction l with
  | nil => exact absurd ha List.not_mem_nil
  | cons b l ih =>
    obtain ⟨hb, hl⟩ := List.pairwise_cons.mp hs
    rw [find?_cons]
    rcases List.mem_cons.mp ha with rfl | ha
    · rw [if_pos rfl]
    · rw [if_neg (hb a ha).ne]
      exact ih hl ha

theorem find?_of_mem (hs : Sorted key l) (ha : a ∈ l) : find? key (key a) l = some a :=
  (find?_eq_some_iff hs).mpr ⟨ha, rfl⟩

theorem eq_nil_iff (key : α → κ) : l = [] ↔ ∀ k, find? key k l = none := by
  refine ⟨fun h k => by rw [h, find?_nil], fun h => ?_⟩
  refine List.eq_nil_iff_forall_not_mem.mpr fun a ha => ?_
  exact find?_eq_none_iff.mp (h (key a)) a ha rfl

theorem sorted_filterMap {key' : β → κ} {f : α → Option β}
    (hf : ∀ a b, f a = some b → key' b = key a) (hs : Sorted key l) :
    Sorted key' (l.filterMap f) := by
  refine List.Pairwise.filterMap f ?_ hs
  intro a a' haa' b hb b' hb'
  rw [hf a b hb, hf a' b' hb']
  exact haa'

theorem find?_filterMap {key' : β → κ} {f : α → Option β}
    (hf : ∀ a b, f a = some b → key' b = key a) (hs : Sorted key l) :
    find? key' k (l.filterMap f) = (find? key k l).bind f := by
  induction l with
  | nil => rfl
  | cons a l ih =>
    obtain ⟨ha, hl⟩ := List.pairwise_cons.mp hs
    rw [find?_cons]
    cases hfa : f a with
    | none =>
      rw [List.filterMap_cons_none hfa, ih hl]
      by_cases hk : key a = k
      · rw [if_pos hk, Option.bind_some, hfa, find?_of_lt (hk ▸ ha)]
        rfl
      · rw [if_neg hk]
    | some b =>
      rw [List.filterMap_cons_some hfa, find?_cons, hf a b hfa, ih hl]
      by_cases hk : key a = k
      · rw [if_pos hk, if_pos hk, Option.bind_some, hfa]
      · rw [if_neg hk, if_neg hk]

theorem find?_foldl_alter (f : α → Option β → β) (hs : Sorted key l) (m : OrderedMap κ β) :
    (l.foldl (fun m a => m.alter (key a) (f a)) m).find? k =
      (find? key k l).elim (m.find? k) fun a => some (f a (m.find? k)) := by
  induction l generalizing m with
  | nil => rfl
  | cons a l ih =>
    obtain ⟨ha, hl⟩ := List.pairwise_cons.mp hs
    rw [List.foldl_cons, ih hl, find?_cons, OrderedMap.find?_alter]
    by_cases hk : key a = k
    · rw [if_pos hk, if_pos hk.symm, find?_of_lt (hk ▸ ha), hk]
      rfl
    · rw [if_neg hk, if_neg (Ne.symm hk)]

theorem find?_foldl_erase (ks : List κ) (m : OrderedMap κ β) :
    (ks.foldl (fun m j => m.erase j) m).find? k = if k ∈ ks then none else m.find? k := by
  induction ks generalizing m with
  | nil => simp
  | cons j ks ih =>
    rw [List.foldl_cons, ih, OrderedMap.find?_erase]
    by_cases hj : k = j <;> by_cases hks : k ∈ ks <;> simp [hj, hks]

end KeyedList
