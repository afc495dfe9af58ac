import Mathlib.Logic.Function.Basic
import Mathlib.Tactic.Common

/-!
# Indices over a collection of objects

Objects are found by their handle, and some of them have a key. An index over the collection takes
keys to handles. It is sound when each entry leads to an object that has the entry's key, and exact
when the objects that have a key are all entered. A set of keys is the image of the collection when
it holds the keys of the objects and no others.
-/

namespace KeyIndex

variable {H R K : Type*} {objs : H → Option R} {key : R → Option K}
  {index : K → Option H} {keys : K → Prop}

def Sound (objs : H → Option R) (key : R → Option K) (index : K → Option H) : Prop :=
  ∀ k p, index k = some p → ∃ r, objs p = some r ∧ key r = some k

def Exact (objs : H → Option R) (key : R → Option K) (index : K → Option H) : Prop :=
  ∀ k p, index k = some p ↔ ∃ r, objs p = some r ∧ key r = some k

def Image (objs : H → Option R) (key : R → Option K) (keys : K → Prop) : Prop :=
  ∀ k, keys k ↔ ∃ p r, objs p = some r ∧ key r = some k

def Unkeyed (objs : H → Option R) (key : R → Option K) (p : H) : Prop :=
  ∀ r, objs p = some r → key r = none

def Injective (objs : H → Option R) (key : R → Option K) : Prop :=
  ∀ p q r r' k, objs p = some r → objs q = some r' → key r = some k → key r' = some k → p = q

variable {p : H} {r r' : R} {k : K} {o : Option R}

theorem update_cases {A B : Type*} [DecidableEq A] {f : A → Option B} {a x : A} {b : B}
    {v : Option B} (h : Function.update f a v x = some b) :
    x = a ∧ v = some b ∨ x ≠ a ∧ f x = some b := by
  by_cases hx : x = a
  · subst hx
    rw [Function.update_self] at h
    exact Or.inl ⟨rfl, h⟩
  · rw [Function.update_of_ne hx] at h
    exact Or.inr ⟨hx, h⟩

theorem Exact.sound (h : Exact objs key index) : Sound objs key index := fun k p => (h k p).mp

theorem Exact.injective (h : Exact objs key index) : Injective objs key := by
  intro p q r r' k hp hq hr hr'
  exact Option.some.inj (((h k p).mpr ⟨r, hp, hr⟩).symm.trans ((h k q).mpr ⟨r', hq, hr'⟩))

theorem Image.congr {keys' : K → Prop} (h : Image objs key keys) (hiff : ∀ k, keys' k ↔ keys k) :
    Image objs key keys' := fun k => (hiff k).trans (h k)

theorem Sound.insert [DecidableEq K] (h : Sound objs key index) (hp : objs p = some r)
    (hkey : key r = some k) : Sound objs key (Function.update index k (some p)) := by
  intro l q hq
  rcases update_cases hq with ⟨rfl, hpq⟩ | ⟨-, hlq⟩
  · obtain rfl : p = q := Option.some.inj hpq
    exact ⟨r, hp, hkey⟩
  · exact h l q hlq

variable [DecidableEq H]

theorem Sound.set_keep (h : Sound objs key index) (hp : objs p = some r) (hkey : key r' = key r) :
    Sound (Function.update objs p (some r')) key index := by
  intro k q hq
  obtain ⟨t, ht, htk⟩ := h k q hq
  by_cases hqp : q = p
  · subst hqp
    obtain rfl : r = t := Option.some.inj (hp.symm.trans ht)
    exact ⟨r', Function.update_self _ _ _, hkey.trans htk⟩
  · exact ⟨t, (Function.update_of_ne hqp _ _).trans ht, htk⟩

theorem Sound.set_absent (h : Sound objs key index) (hp : ∀ k, index k ≠ some p) :
    Sound (Function.update objs p o) key index := by
  intro k q hq
  have hqp : q ≠ p := fun heq => hp k (heq ▸ hq)
  obtain ⟨t, ht, htk⟩ := h k q hq
  exact ⟨t, (Function.update_of_ne hqp _ _).trans ht, htk⟩

theorem Exact.set_keep (h : Exact objs key index) (hp : objs p = some r) (hkey : key r' = key r) :
    Exact (Function.update objs p (some r')) key index := by
  intro k q
  refine ⟨h.sound.set_keep hp hkey k q, fun ⟨t, ht, htk⟩ => ?_⟩
  rcases update_cases ht with ⟨rfl, hr⟩ | ⟨-, hq⟩
  · obtain rfl : r' = t := Option.some.inj hr
    exact (h k q).mpr ⟨r, hp, hkey.symm.trans htk⟩
  · exact (h k q).mpr ⟨t, hq, htk⟩

theorem Exact.set_unkeyed (h : Exact objs key index) (hp : Unkeyed objs key p)
    (ho : ∀ t, o = some t → key t = none) : Exact (Function.update objs p o) key index := by
  intro l q
  constructor
  · intro hq
    obtain ⟨t, ht, htl⟩ := (h l q).mp hq
    have hqp : q ≠ p := fun heq => absurd ((hp t (heq ▸ ht)).symm.trans htl) nofun
    exact ⟨t, (Function.update_of_ne hqp _ _).trans ht, htl⟩
  · rintro ⟨t, ht, htl⟩
    rcases update_cases ht with ⟨-, hot⟩ | ⟨-, hq⟩
    · exact absurd ((ho t hot).symm.trans htl) nofun
    · exact (h l q).mpr ⟨t, hq, htl⟩

section

variable (h : Image objs key keys)
include h

theorem Image.set_keep (hp : objs p = some r) (hkey : key r' = key r) :
    Image (Function.update objs p (some r')) key keys := by
  intro k
  refine (h k).trans ⟨fun ⟨q, t, hq, ht⟩ => ?_, fun ⟨q, t, hq, ht⟩ => ?_⟩
  · by_cases hqp : q = p
    · subst hqp
      obtain rfl : r = t := Option.some.inj (hp.symm.trans hq)
      exact ⟨q, r', Function.update_self _ _ _, hkey.trans ht⟩
    · exact ⟨q, t, (Function.update_of_ne hqp _ _).trans hq, ht⟩
  · rcases update_cases hq with ⟨rfl, hr⟩ | ⟨-, hq'⟩
    · obtain rfl : r' = t := Option.some.inj hr
      exact ⟨q, r, hp, hkey.symm.trans ht⟩
    · exact ⟨q, t, hq', ht⟩

theorem Image.set_unkeyed (hp : Unkeyed objs key p)
    (ho : ∀ t, o = some t → key t = none) : Image (Function.update objs p o) key keys := by
  intro k
  refine (h k).trans ⟨fun ⟨q, t, hq, ht⟩ => ?_, fun ⟨q, t, hq, ht⟩ => ?_⟩
  · have hqp : q ≠ p := fun heq => absurd ((hp t (heq ▸ hq)).symm.trans ht) nofun
    exact ⟨q, t, (Function.update_of_ne hqp _ _).trans hq, ht⟩
  · rcases update_cases hq with ⟨-, hot⟩ | ⟨-, hq'⟩
    · exact absurd ((ho t hot).symm.trans ht) nofun
    · exact ⟨q, t, hq', ht⟩

theorem Image.enter (hp : Unkeyed objs key p) (hkey : key r' = some k) :
    Image (Function.update objs p (some r')) key fun l => l = k ∨ keys l := by
  intro l
  constructor
  · rintro (rfl | hl)
    · exact ⟨p, r', Function.update_self _ _ _, hkey⟩
    · obtain ⟨q, t, hq, ht⟩ := (h l).mp hl
      have hqp : q ≠ p := fun heq => absurd ((hp t (heq ▸ hq)).symm.trans ht) nofun
      exact ⟨q, t, (Function.update_of_ne hqp _ _).trans hq, ht⟩
  · rintro ⟨q, t, hq, ht⟩
    rcases update_cases hq with ⟨-, hr⟩ | ⟨-, hq'⟩
    · obtain rfl : r' = t := Option.some.inj hr
      exact Or.inl (Option.some.inj (ht.symm.trans hkey))
    · exact Or.inr ((h l).mpr ⟨q, t, hq', ht⟩)

theorem Image.leave (hinj : Injective objs key) (hp : objs p = some r)
    (hr : key r = some k) (ho : ∀ t, o = some t → key t = none) :
    Image (Function.update objs p o) key fun l => l ≠ k ∧ keys l := by
  intro l
  constructor
  · rintro ⟨hlk, hl⟩
    obtain ⟨q, t, hq, ht⟩ := (h l).mp hl
    have hqp : q ≠ p := by
      rintro rfl
      obtain rfl : r = t := Option.some.inj (hp.symm.trans hq)
      exact hlk (Option.some.inj (ht.symm.trans hr))
    exact ⟨q, t, (Function.update_of_ne hqp _ _).trans hq, ht⟩
  · rintro ⟨q, t, hq, ht⟩
    rcases update_cases hq with ⟨-, hot⟩ | ⟨hqp, hq'⟩
    · exact absurd ((ho t hot).symm.trans ht) nofun
    · refine ⟨?_, (h l).mpr ⟨q, t, hq', ht⟩⟩
      rintro rfl
      exact hqp (hinj q p t r l hq' hp ht hr)

end

variable [DecidableEq K]

theorem Sound.remove (h : Sound objs key index) (hp : objs p = some r) (hkey : key r = some k) :
    Sound (Function.update objs p none) key (Function.update index k none) := by
  intro l q hq
  rcases update_cases hq with ⟨-, hnone⟩ | ⟨hlk, hlq⟩
  · exact absurd hnone nofun
  · obtain ⟨t, ht, htl⟩ := h l q hlq
    have hqp : q ≠ p := by
      rintro rfl
      obtain rfl : r = t := Option.some.inj (hp.symm.trans ht)
      exact hlk (Option.some.inj (htl.symm.trans hkey))
    exact ⟨t, (Function.update_of_ne hqp _ _).trans ht, htl⟩

theorem Exact.enter (h : Exact objs key index) (hp : Unkeyed objs key p) (hkey : key r' = some k)
    (hfree : index k = none) :
    Exact (Function.update objs p (some r')) key (Function.update index k (some p)) := by
  intro l q
  constructor
  · intro hq
    rcases update_cases hq with ⟨rfl, hpq⟩ | ⟨-, hlq⟩
    · obtain rfl : p = q := Option.some.inj hpq
      exact ⟨r', Function.update_self _ _ _, hkey⟩
    · obtain ⟨t, ht, htl⟩ := (h l q).mp hlq
      have hqp : q ≠ p := fun heq => absurd ((hp t (heq ▸ ht)).symm.trans htl) nofun
      exact ⟨t, (Function.update_of_ne hqp _ _).trans ht, htl⟩
  · rintro ⟨t, ht, htl⟩
    rcases update_cases ht with ⟨rfl, hr⟩ | ⟨-, hq⟩
    · obtain rfl : r' = t := Option.some.inj hr
      obtain rfl : k = l := Option.some.inj (hkey.symm.trans htl)
      exact Function.update_self _ _ _
    · have hlq := (h l q).mpr ⟨t, hq, htl⟩
      have hlk : l ≠ k := fun heq => absurd ((heq ▸ hfree).symm.trans hlq) nofun
      exact (Function.update_of_ne hlk _ _).trans hlq

theorem Exact.leave (h : Exact objs key index) (hp : objs p = some r) (hr : key r = some k)
    (ho : ∀ t, o = some t → key t = none) :
    Exact (Function.update objs p o) key (Function.update index k none) := by
  intro l q
  constructor
  · intro hq
    rcases update_cases hq with ⟨-, hnone⟩ | ⟨hlk, hlq⟩
    · exact absurd hnone nofun
    · obtain ⟨t, ht, htl⟩ := (h l q).mp hlq
      have hqp : q ≠ p := by
        rintro rfl
        obtain rfl : r = t := Option.some.inj (hp.symm.trans ht)
        exact hlk (Option.some.inj (htl.symm.trans hr))
      exact ⟨t, (Function.update_of_ne hqp _ _).trans ht, htl⟩
  · rintro ⟨t, ht, htl⟩
    rcases update_cases ht with ⟨rfl, hot⟩ | ⟨hqp, hq⟩
    · exact absurd ((ho t hot).symm.trans htl) nofun
    · have hlk : l ≠ k := by
        rintro rfl
        exact hqp (h.injective q p t r l hq hp htl hr)
      exact (Function.update_of_ne hlk _ _).trans ((h l q).mpr ⟨t, hq, htl⟩)

end KeyIndex
