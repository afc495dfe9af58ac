import Mathlib.Data.List.Perm.Basic
import Mathlib.Order.Disjoint
import Mathlib.Data.List.Induction

/-!
# Disjoint assignments

Each request of a list is given one of its candidates so that the masks of the candidates chosen
are pairwise disjoint in a distributive lattice. Whether a further request can be served depends
on the earlier choices only through the total of their masks, so the totals that can be reached
are computed request by request.

`Occupies` describes a resource that is handed out grant by grant, where part of it may be set
aside.
-/

namespace DisjointAssignment

variable {ρ β μ : Type*} [DistribLattice μ] [OrderBot μ]

def IsAssignment (cand : ρ → β → Prop) (mask : β → μ) (rs : List ρ) (bs : List β) : Prop :=
  List.Forall₂ cand rs bs ∧ bs.Pairwise fun b c => Disjoint (mask b) (mask c)

def total (mask : β → μ) (bs : List β) : μ := bs.foldl (fun m b => m ⊔ mask b) ⊥

/-- The total `m` belongs to some assignment. -/
def Reaches (cand : ρ → β → Prop) (mask : β → μ) (rs : List ρ) (m : μ) : Prop :=
  ∃ bs, IsAssignment cand mask rs bs ∧ total mask bs = m

variable {cand : ρ → β → Prop} {mask : β → μ} {rs : List ρ} {r : ρ}

theorem total_concat (mask : β → μ) (bs : List β) (b : β) :
    total mask (bs ++ [b]) = total mask bs ⊔ mask b :=
  List.foldl_concat _ _ _ _

theorem disjoint_total_iff (bs : List β) (m : μ) :
    Disjoint (total mask bs) m ↔ ∀ b ∈ bs, Disjoint (mask b) m := by
  induction bs using List.reverseRecOn with
  | nil => simp [total]
  | append_singleton bs b ih =>
    rw [total_concat, disjoint_sup_left, ih]
    simp [or_imp, forall_and]

theorem isAssignment_nil : IsAssignment cand mask [] [] :=
  ⟨List.Forall₂.nil, List.Pairwise.nil⟩

theorem isAssignment_concat {bs : List β} {b : β} :
    IsAssignment cand mask (rs ++ [r]) (bs ++ [b]) ↔
      IsAssignment cand mask rs bs ∧ cand r b ∧ Disjoint (total mask bs) (mask b) := by
  have hlast : List.Forall₂ cand (rs ++ [r]) (bs ++ [b]) ↔ List.Forall₂ cand rs bs ∧ cand r b := by
    rw [← List.forall₂_reverse_iff, List.reverse_append, List.reverse_append]
    change List.Forall₂ cand (r :: rs.reverse) (b :: bs.reverse) ↔ _
    rw [List.forall₂_cons, List.forall₂_reverse_iff, and_comm]
  unfold IsAssignment
  rw [hlast, List.pairwise_append, disjoint_total_iff]
  simp only [List.mem_singleton, forall_eq, List.pairwise_singleton, true_and]
  tauto

theorem exists_isAssignment_concat :
    (∃ bs, IsAssignment cand mask (rs ++ [r]) bs) ↔
      ∃ m, Reaches cand mask rs m ∧ ∃ b, cand r b ∧ Disjoint m (mask b) := by
  constructor
  · rintro ⟨bs, hbs⟩
    rcases List.eq_nil_or_concat' bs with rfl | ⟨bs', b, rfl⟩
    · exact absurd hbs.1.length_eq (by simp)
    · obtain ⟨hbs', hb, hdisj⟩ := isAssignment_concat.mp hbs
      exact ⟨total mask bs', ⟨bs', hbs', rfl⟩, b, hb, hdisj⟩
  · rintro ⟨_, ⟨bs, hbs, rfl⟩, b, hb, hdisj⟩
    exact ⟨bs ++ [b], isAssignment_concat.mpr ⟨hbs, hb, hdisj⟩⟩

theorem eq_bot_of_reaches_nil {m : μ} (h : Reaches cand mask [] m) : m = ⊥ := by
  obtain ⟨bs, ⟨hbs, -⟩, rfl⟩ := h
  rw [List.forall₂_nil_left_iff.mp hbs]
  rfl

theorem reaches_concat {m : μ} :
    Reaches cand mask (rs ++ [r]) m ↔
      ∃ m', Reaches cand mask rs m' ∧ ∃ b, cand r b ∧ Disjoint m' (mask b) ∧ m' ⊔ mask b = m := by
  constructor
  · rintro ⟨bs, hbs, rfl⟩
    rcases List.eq_nil_or_concat' bs with rfl | ⟨bs', b, rfl⟩
    · exact absurd hbs.1.length_eq (by simp)
    · obtain ⟨hbs', hb, hdisj⟩ := isAssignment_concat.mp hbs
      exact ⟨total mask bs', ⟨bs', hbs', rfl⟩, b, hb, hdisj, (total_concat mask bs' b).symm⟩
  · rintro ⟨_, ⟨bs, hbs, rfl⟩, b, hb, hdisj, rfl⟩
    exact ⟨bs ++ [b], isAssignment_concat.mpr ⟨hbs, hb, hdisj⟩, total_concat mask bs b⟩

theorem IsAssignment.subperm {rs' : List ρ} {bs : List β} (h : IsAssignment cand mask rs bs)
    (hsub : rs'.Subperm rs) : ∃ bs', IsAssignment cand mask rs' bs' := by
  have hsublist : ∀ {l rs : List ρ}, l.Sublist rs → ∀ {bs : List β}, List.Forall₂ cand rs bs →
      ∃ bs' : List β, bs'.Sublist bs ∧ List.Forall₂ cand l bs' := by
    intro l rs hl
    induction hl with
    | slnil => exact fun _ => ⟨[], List.nil_sublist _, .nil⟩
    | cons r _ ih =>
      rintro _ (_ | ⟨-, hrest⟩)
      obtain ⟨bs', hbs', hl⟩ := ih hrest
      exact ⟨bs', hbs'.cons _, hl⟩
    | cons_cons r _ ih =>
      rintro _ (_ | ⟨hr, hrest⟩)
      obtain ⟨bs', hbs', hl⟩ := ih hrest
      exact ⟨_ :: bs', hbs'.cons_cons _, .cons hr hl⟩
  obtain ⟨l, hperm, hl⟩ := hsub
  obtain ⟨bs', hbs', hcand⟩ := hsublist hl h.1
  obtain ⟨bs'', hcand', hperm'⟩ := List.perm_comp_forall₂ hperm.symm hcand
  exact ⟨bs'', hcand', (hperm'.pairwise_iff fun h => h.symm).mpr (h.2.sublist hbs')⟩

/-- What is occupied is the join of the pairwise disjoint grants and of what was set aside. -/
structure Occupies (grants : List μ) (reserved occupied : μ) : Prop where
  disjoint : grants.Pairwise Disjoint
  total_eq : total id grants ⊔ reserved = occupied

theorem occupies_bot : Occupies ([] : List μ) ⊥ ⊥ := ⟨List.Pairwise.nil, sup_bot_eq ⊥⟩

variable {grants : List μ} {reserved occupied m : μ}

theorem Occupies.grant (h : Occupies grants reserved occupied) (hm : Disjoint occupied m) :
    Occupies (grants ++ [m]) reserved (occupied ⊔ m) where
  disjoint := by
    have hgrants : Disjoint (total id grants) m :=
      hm.mono_left (h.total_eq ▸ le_sup_left)
    refine List.pairwise_append.mpr ⟨h.disjoint, List.pairwise_singleton _ _, fun a ha b hb => ?_⟩
    rw [List.mem_singleton.mp hb]
    exact (disjoint_total_iff grants m).mp hgrants a ha
  total_eq := by
    rw [total_concat, id, sup_right_comm, h.total_eq]

theorem Occupies.reserve (h : Occupies grants reserved occupied) (m : μ) :
    Occupies grants (reserved ⊔ m) (occupied ⊔ m) where
  disjoint := h.disjoint
  total_eq := by rw [← sup_assoc, h.total_eq]

end DisjointAssignment
