import Mathlib.Data.List.Induction
import Mathlib.Data.Nat.Basic
import Mathlib.Logic.Function.Basic
import SrsLte.EventRun

/-!
# Temporary C-RNTIs

`rach_detected` hands out the RNTIs from 70 to 59999 in a circle. A UE has an object in the MAC, one
in the scheduler and a context in RRC, of which only the first and the last are looked for before a
UE is added.
-/

namespace SrsLte

open EventRun (Along along_iff_split)
open Function (update update_self update_of_ne)

variable {α β γ : Type}

/-- How the objects of a UE are built; `set_cfg` resets an object that can be in use. -/
structure UeObjects (α β γ : Type) where
  newUe : ℕ → α
  schedUe : β
  setCfg : ℕ → β → β
  newUser : ℕ → γ

structure EnbUes (α β γ : Type) where
  lastRnti : ℕ := 70
  ueDb : ℕ → Option α := fun _ => none
  schedDb : ℕ → Option β := fun _ => none
  users : ℕ → Option γ := fun _ => none

/-- `dl_sched_rar_info_t`. -/
structure RarInfo where
  preambleIdx : ℕ
  taCmd : ℕ
  tempCrnti : ℕ
  msg3Size : ℕ := 7
  prachTti : ℕ

/-- `updUser` is a C-RNTI control element. The removal that it asks for is a later `remUser`. -/
inductive UeEvent (α β γ : Type)
  | rachDetected (tti preambleIdx timeAdv : ℕ)
  | remUser (rnti : ℕ)
  | updUser (rnti oldRnti : ℕ) (setRnti : α → α) (send : γ → γ)
  | work (rnti : ℕ) (f : α → α) (g : β → β) (h : γ → γ)

namespace EnbUes

variable (c : UeObjects α β γ)

def insertNew {δ : Type} (db : ℕ → Option δ) (rnti : ℕ) (new : δ) : ℕ → Option δ :=
  if (db rnti).isSome then db else update db rnti (some new)

def modify {δ : Type} (db : ℕ → Option δ) (rnti : ℕ) (f : δ → δ) : ℕ → Option δ :=
  update db rnti ((db rnti).map f)

def rachDetected (s : EnbUes α β γ) (tti preambleIdx timeAdv : ℕ) : EnbUes α β γ × RarInfo :=
  let rnti := s.lastRnti
  ({ lastRnti := if rnti + 1 ≥ 60000 then 70 else rnti + 1
     ueDb := insertNew s.ueDb rnti (c.newUe rnti)
     schedDb := update s.schedDb rnti (some (c.setCfg rnti ((s.schedDb rnti).getD c.schedUe)))
     users := insertNew s.users rnti (c.newUser rnti) },
    { preambleIdx, taCmd := timeAdv, tempCrnti := rnti, prachTti := tti })

/-- `mac::ue_rem`. -/
def ueRem (s : EnbUes α β γ) (rnti : ℕ) : EnbUes α β γ :=
  if (s.ueDb rnti).isSome then
    { s with schedDb := update s.schedDb rnti none, ueDb := update s.ueDb rnti none }
  else s

/-- `rrc::rem_user`. -/
def remUser (s : EnbUes α β γ) (rnti : ℕ) : EnbUes α β γ :=
  if (s.users rnti).isSome then { s.ueRem rnti with users := update s.users rnti none } else s

def updUser (s : EnbUes α β γ) (rnti oldRnti : ℕ) (setRnti : α → α) (send : γ → γ) :
    EnbUes α β γ :=
  if (s.schedDb oldRnti).isSome then
    { s with users := modify s.users oldRnti send, ueDb := modify s.ueDb rnti setRnti }
  else s

def step (s : EnbUes α β γ) : UeEvent α β γ → EnbUes α β γ
  | .rachDetected tti preambleIdx timeAdv => (rachDetected c s tti preambleIdx timeAdv).1
  | .remUser rnti => s.remUser rnti
  | .updUser rnti oldRnti setRnti send => s.updUser rnti oldRnti setRnti send
  | .work rnti f g h =>
    { s with ueDb := modify s.ueDb rnti f
             schedDb := modify s.schedDb rnti g
             users := modify s.users rnti h }

def Present (s : EnbUes α β γ) (rnti : ℕ) : Prop :=
  (s.ueDb rnti).isSome ∨ (s.schedDb rnti).isSome ∨ (s.users rnti).isSome

/-- A random access gets an RNTI that no UE has, and changes nothing of the UEs that there are. -/
def Fresh (s : EnbUes α β γ) : UeEvent α β γ → Prop
  | .rachDetected tti preambleIdx timeAdv =>
    let after := rachDetected c s tti preambleIdx timeAdv
    ¬ s.Present after.2.tempCrnti ∧
      ∀ rnti, s.Present rnti → after.1.ueDb rnti = s.ueDb rnti ∧
        after.1.schedDb rnti = s.schedDb rnti ∧ after.1.users rnti = s.users rnti
  | _ => True

def isAccess : UeEvent α β γ → Bool
  | .rachDetected .. => true
  | _ => false

def accesses (events : List (UeEvent α β γ)) : ℕ := events.countP isAccess

/-- The RNTI of the next access. -/
def nextRnti (events : List (UeEvent α β γ)) : ℕ := 70 + accesses events % 59930

def run (events : List (UeEvent α β γ)) : EnbUes α β γ := events.foldl (step c) {}

variable {c} {s : EnbUes α β γ} {events : List (UeEvent α β γ)}

section Maps

variable {δ : Type} {db : ℕ → Option δ} {rnti r : ℕ}

theorem isSome_insertNew (new : δ) :
    (insertNew db rnti new r).isSome ↔ r = rnti ∨ (db r).isSome := by
  unfold insertNew
  by_cases hr : r = rnti
  · subst hr
    split_ifs with h
    · simp [h]
    · simp
  · split_ifs with h
    · simp [hr]
    · rw [update_of_ne hr, or_iff_right hr]

theorem insertNew_of_ne (new : δ) (hr : r ≠ rnti) : insertNew db rnti new r = db r := by
  unfold insertNew
  split_ifs
  · rfl
  · exact update_of_ne hr _ _

theorem isSome_modify (f : δ → δ) : (modify db rnti f r).isSome = (db r).isSome := by
  unfold modify
  by_cases hr : r = rnti
  · rw [hr, update_self, Option.isSome_map]
  · rw [update_of_ne hr]

theorem isSome_update_none : (update db rnti none r).isSome ↔ r ≠ rnti ∧ (db r).isSome := by
  by_cases hr : r = rnti
  · simp [hr]
  · rw [update_of_ne hr, and_iff_right hr]

end Maps

/-- The MAC, the scheduler and RRC have the same UEs. -/
def Aligned (s : EnbUes α β γ) : Prop :=
  ∀ r, ((s.ueDb r).isSome ↔ (s.users r).isSome) ∧ ((s.schedDb r).isSome ↔ (s.users r).isSome)

theorem present_iff (h : s.Aligned) (r : ℕ) : s.Present r ↔ (s.users r).isSome := by
  unfold Present
  rw [(h r).1, (h r).2, or_self, or_self]

/-- The UEs after a step. -/
def PresentAfter (s : EnbUes α β γ) (r : ℕ) : UeEvent α β γ → Prop
  | .rachDetected .. => r = s.lastRnti ∨ (s.users r).isSome
  | .remUser rnti => r ≠ rnti ∧ (s.users r).isSome
  | _ => (s.users r).isSome

theorem isSome_step (h : s.Aligned) (e : UeEvent α β γ) (r : ℕ) :
    (((step c s e).ueDb r).isSome ↔ PresentAfter s r e) ∧
      (((step c s e).schedDb r).isSome ↔ PresentAfter s r e) ∧
      (((step c s e).users r).isSome ↔ PresentAfter s r e) := by
  obtain ⟨hueDb, hsched⟩ := h r
  cases e with
  | rachDetected tti preambleIdx timeAdv =>
    refine ⟨(isSome_insertNew _).trans (or_congr_right hueDb), ?_, isSome_insertNew _⟩
    show (update s.schedDb s.lastRnti _ r).isSome ↔ r = s.lastRnti ∨ _
    by_cases hr : r = s.lastRnti
    · rw [hr, update_self]
      exact iff_of_true rfl (Or.inl rfl)
    · rw [update_of_ne hr, hsched, or_iff_right hr]
  | remUser rnti =>
    show (((s.remUser rnti).ueDb r).isSome ↔ _) ∧ (((s.remUser rnti).schedDb r).isSome ↔ _) ∧
      (((s.remUser rnti).users r).isSome ↔ _)
    unfold remUser ueRem PresentAfter
    by_cases husers : (s.users rnti).isSome = true
    · rw [if_pos husers, if_pos ((h rnti).1.mpr husers)]
      dsimp only
      rw [isSome_update_none, isSome_update_none, isSome_update_none, hueDb, hsched]
      exact ⟨Iff.rfl, Iff.rfl, Iff.rfl⟩
    · rw [if_neg husers, hueDb, hsched]
      have hne : (s.users r).isSome ↔ r ≠ rnti ∧ (s.users r).isSome :=
        ⟨fun hr => ⟨fun heq => husers (heq ▸ hr), hr⟩, And.right⟩
      exact ⟨hne, hne, hne⟩
  | updUser rnti oldRnti setRnti send =>
    show (((s.updUser rnti oldRnti setRnti send).ueDb r).isSome ↔ _) ∧
      (((s.updUser rnti oldRnti setRnti send).schedDb r).isSome ↔ _) ∧
      (((s.updUser rnti oldRnti setRnti send).users r).isSome ↔ _)
    unfold updUser PresentAfter
    split_ifs
    · dsimp only
      rw [isSome_modify, isSome_modify]
      exact ⟨hueDb, hsched, Iff.rfl⟩
    · exact ⟨hueDb, hsched, Iff.rfl⟩
  | work rnti f g h =>
    show ((modify s.ueDb rnti f r).isSome ↔ _) ∧ ((modify s.schedDb rnti g r).isSome ↔ _) ∧
      ((modify s.users rnti h r).isSome ↔ _)
    rw [isSome_modify, isSome_modify, isSome_modify]
    exact ⟨hueDb, hsched, Iff.rfl⟩

theorem run_append (e : UeEvent α β γ) : run c (events ++ [e]) = step c (run c events) e := by
  rw [run, List.foldl_append, List.foldl_cons, List.foldl_nil, run]

theorem aligned_run : (run c events).Aligned := by
  induction events using List.reverseRecOn with
  | nil => exact fun r => ⟨Iff.rfl, Iff.rfl⟩
  | append_singleton events e ih =>
    intro r
    obtain ⟨hueDb, hsched, husers⟩ := isSome_step ih e r
    rw [run_append]
    exact ⟨hueDb.trans husers.symm, hsched.trans husers.symm⟩

theorem lastRnti_step (e : UeEvent α β γ) :
    (step c s e).lastRnti =
      if isAccess e then if s.lastRnti + 1 ≥ 60000 then 70 else s.lastRnti + 1
      else s.lastRnti := by
  cases e with
  | rachDetected tti preambleIdx timeAdv => rfl
  | remUser rnti =>
    show (s.remUser rnti).lastRnti = s.lastRnti
    unfold remUser ueRem
    split_ifs <;> rfl
  | updUser rnti oldRnti setRnti send =>
    show (s.updUser rnti oldRnti setRnti send).lastRnti = s.lastRnti
    unfold updUser
    split_ifs <;> rfl
  | work rnti f g h => rfl

theorem lastRnti_run : (run c events).lastRnti = nextRnti events := by
  induction events using List.reverseRecOn with
  | nil => rfl
  | append_singleton events e ih =>
    rw [run_append, lastRnti_step, ih]
    unfold nextRnti accesses
    rw [List.countP_append, List.countP_singleton]
    split_ifs <;> omega

/-- Since the last access with its RNTI a UE has not been removed. -/
def Kept (events : List (UeEvent α β γ)) (r : ℕ) : Prop :=
  ∃ before e later, events = before ++ e :: later ∧
    isAccess e = true ∧ nextRnti before = r ∧ .remUser r ∉ later

theorem kept_append (e : UeEvent α β γ) (r : ℕ) :
    Kept (events ++ [e]) r ↔
      isAccess e = true ∧ nextRnti events = r ∨ Kept events r ∧ e ≠ .remUser r := by
  constructor
  · rintro ⟨before, e', later, heq, haccess, hr, hlater⟩
    induction later using List.reverseRecOn with
    | nil =>
      obtain ⟨rfl, he⟩ := List.append_inj' heq rfl
      obtain rfl := List.singleton_inj.mp he
      exact Or.inl ⟨haccess, hr⟩
    | append_singleton later last _ =>
      rw [← List.cons_append, ← List.append_assoc] at heq
      obtain ⟨rfl, he⟩ := List.append_inj' heq rfl
      obtain rfl := List.singleton_inj.mp he
      rw [List.mem_append, List.mem_singleton, not_or] at hlater
      exact Or.inr ⟨⟨before, e', later, rfl, haccess, hr, hlater.1⟩, Ne.symm hlater.2⟩
  · rintro (⟨haccess, hr⟩ | ⟨⟨before, e', later, rfl, haccess, hr, hlater⟩, hne⟩)
    · exact ⟨events, e, [], rfl, haccess, hr, List.not_mem_nil⟩
    · refine ⟨before, e', later ++ [e], ?_, haccess, hr, ?_⟩
      · rw [List.append_assoc, List.cons_append]
      · rw [List.mem_append, List.mem_singleton, not_or]
        exact ⟨hlater, Ne.symm hne⟩

theorem isSome_users_run (r : ℕ) : ((run c events).users r).isSome ↔ Kept events r := by
  induction events using List.reverseRecOn with
  | nil =>
    refine iff_of_false Bool.false_ne_true ?_
    rintro ⟨before, e, later, heq, -⟩
    exact List.append_ne_nil_of_right_ne_nil _ (List.cons_ne_nil _ _) heq.symm
  | append_singleton events e ih =>
    rw [run_append, (isSome_step aligned_run e r).2.2, kept_append]
    unfold PresentAfter
    cases e with
    | rachDetected tti preambleIdx timeAdv => simp [isAccess, lastRnti_run, ih, eq_comm]
    | remUser rnti => simp [isAccess, ih, and_comm, eq_comm]
    | updUser rnti oldRnti setRnti send => simp [isAccess, ih]
    | work rnti f g h => simp [isAccess, ih]

theorem nextRnti_eq_iff {before later : List (UeEvent α β γ)} {e : UeEvent α β γ}
    (he : isAccess e = true) :
    nextRnti before = nextRnti (before ++ e :: later) ↔ 59930 ∣ accesses later + 1 := by
  unfold nextRnti accesses
  rw [List.countP_append, List.countP_cons, if_pos he]
  omega

theorem fresh_run_iff {e : UeEvent α β γ} :
    Fresh c (run c events) e ↔ isAccess e = true → ¬ Kept events (nextRnti events) := by
  cases e with
  | rachDetected tti preambleIdx timeAdv =>
    have hnext : (run c events).Present (run c events).lastRnti ↔
        Kept events (nextRnti events) := by
      rw [present_iff aligned_run, isSome_users_run, lastRnti_run]
    unfold Fresh
    rw [← hnext]
    refine Iff.trans ?_ (forall_prop_of_true rfl).symm
    refine and_iff_left_of_imp fun hnew rnti hrnti => ?_
    have hne : rnti ≠ (run c events).lastRnti := by
      rintro rfl
      exact hnew hrnti
    exact ⟨insertNew_of_ne _ hne, update_of_ne hne _ _, insertNew_of_ne _ hne⟩
  | _ => exact iff_of_true trivial fun he => nomatch he

/-- Every random access is fresh exactly when the user of each RNTI is removed before its turn. -/
theorem temp_crnti_fresh_iff (c : UeObjects α β γ) (events : List (UeEvent α β γ)) :
    Along (step c) (Fresh c) {} events ↔
      ∀ before first between second after,
        events = (before ++ first :: between) ++ second :: after →
          isAccess first = true → isAccess second = true → 59930 ∣ accesses between + 1 →
            .remUser (nextRnti before) ∈ between := by
  rw [along_iff_split]
  constructor
  · intro h before first between second after heq hfirst hsecond hturn
    have hnew := fresh_run_iff.mp (h _ second after heq) hsecond
    by_contra hmem
    rw [← (@nextRnti_eq_iff _ _ _ before _ _ hfirst).mpr hturn] at hnew
    exact hnew ⟨before, first, between, rfl, hfirst, rfl, hmem⟩
  · intro h pre second after heq
    refine fresh_run_iff.mpr ?_
    rintro hsecond ⟨before, first, between, rfl, hfirst, hr, hmem⟩
    rw [← hr] at hmem
    exact hmem (h before first between second after heq hfirst hsecond
      ((nextRnti_eq_iff hfirst).mp hr))

/-- The first UE stays for as long as it takes the counter to come round. -/
theorem temp_crnti_reused :
    ¬ ∀ events : List (UeEvent ℕ ℕ ℕ), Along (step ⟨id, 0, fun _ => id, id⟩)
      (Fresh ⟨id, 0, fun _ => id, id⟩) {} events := by
  let access : UeEvent ℕ ℕ ℕ := .rachDetected 0 0 0
  intro h
  have hnew := fresh_run_iff.mp
    (along_iff_split.mp (h _) (List.replicate (59929 + 1) access) access [] List.replicate_succ')
  refine hnew rfl ⟨[], access, List.replicate 59929 access, List.replicate_succ, rfl, ?_, ?_⟩
  · unfold nextRnti accesses
    rw [List.countP_replicate, if_pos (show isAccess access = true from rfl)]
    rfl
  · exact fun hmem => nomatch List.eq_of_mem_replicate hmem

end EnbUes

end SrsLte
