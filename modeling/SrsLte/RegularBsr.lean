import SrsLte.UlMux
import Mathlib.Data.List.Induction

/-!
# The Regular BSR trigger

What `bsr_proc::step` sets off for the channels that `setup_lcid` configured, given the buffers at
the step before and those at the step. A lower number is a higher priority; the loop of
`check_highest_channel` compares the other way round.
-/

namespace SrsLte

structure BsrChannel where
  lcg : Fin 4
  lcid : ℕ
  priority : ℕ

/-- The buffers of the channels at the step before and at the step. -/
structure BsrBuffers where
  prev : ℕ → ℕ
  now : ℕ → ℕ

namespace BsrBuffers

variable (buffers : BsrBuffers) (channels : List BsrChannel)

def Arrived (c : BsrChannel) : Prop := buffers.prev c.lcid < buffers.now c.lcid

def HadNone (lcg : Fin 4) : Prop := ∀ d ∈ channels, d.lcg = lcg → buffers.prev d.lcid = 0

/-- `c` has a higher priority than every channel that had data. -/
def Above (c : BsrChannel) : Prop :=
  ∀ d ∈ channels, buffers.prev d.lcid ≠ 0 → c.priority < d.priority

/-- No channel that had data has a lower priority than `c`. -/
def Lowest (c : BsrChannel) : Prop :=
  ∀ d ∈ channels, buffers.prev d.lcid ≠ 0 → d.priority ≤ c.priority

def ArrivedInEmpty : Prop :=
  ∃ c ∈ channels, buffers.Arrived c ∧ buffers.HadNone channels c.lcg

def RegularDue : Prop :=
  ∃ c ∈ channels, buffers.Arrived c ∧
    (buffers.HadNone channels c.lcg ∨ buffers.Above channels c)

/-- Data has come into an empty group; or data has come for a channel above all that had data
just if data has come for one that none of these is below. -/
def DirectionAgrees : Prop :=
  buffers.ArrivedInEmpty channels ∨
    ((∃ c ∈ channels, buffers.Arrived c ∧ buffers.Above channels c) ↔
      ∃ c ∈ channels, buffers.Arrived c ∧ buffers.Lowest channels c)

theorem regularDue_iff : buffers.RegularDue channels ↔
    buffers.ArrivedInEmpty channels ∨
      ∃ c ∈ channels, buffers.Arrived c ∧ buffers.Above channels c := by
  constructor
  · rintro ⟨c, hc, harr, hnone | habove⟩
    · exact Or.inl ⟨c, hc, harr, hnone⟩
    · exact Or.inr ⟨c, hc, harr, habove⟩
  · rintro (⟨c, hc, harr, hnone⟩ | ⟨c, hc, harr, habove⟩)
    · exact ⟨c, hc, harr, Or.inl hnone⟩
    · exact ⟨c, hc, harr, Or.inr habove⟩

end BsrBuffers

namespace BsrProc

variable {ρ : Type*} {rlc : RlcMac ρ} {b : BsrProc}

/-- `step` sets the trigger, whatever it was before. -/
def SetsRegular (rlc : RlcMac ρ) (r : ρ) (b : BsrProc) : Prop :=
  ∀ t, ((b.setTrigger t).step rlc r).triggeredBsrType = .regular

/-- The channels that `b` serves. -/
def channels (b : BsrProc) : List BsrChannel :=
  (List.finRange 4).flatMap fun lcg => (b.lcgs lcg).entries.map fun e => ⟨lcg, e.1, e.2.priority⟩

theorem mem_channels {c : BsrChannel} : c ∈ b.channels ↔
    ∃ x, (c.lcid, x) ∈ (b.lcgs c.lcg).entries ∧ x.priority = c.priority := by
  unfold channels
  constructor
  · intro h
    obtain ⟨lcg, -, hmem⟩ := List.mem_flatMap.mp h
    obtain ⟨⟨lcid, x⟩, hx, rfl⟩ := List.mem_map.mp hmem
    exact ⟨x, hx, rfl⟩
  · rintro ⟨x, hx, hprio⟩
    obtain ⟨lcg, lcid, priority⟩ := c
    subst hprio
    exact List.mem_flatMap.mpr ⟨lcg, List.mem_finRange lcg, List.mem_map.mpr ⟨_, hx, rfl⟩⟩

def Holds (b : BsrProc) (prev : ℕ → ℕ) : Prop :=
  ∀ lcg, ∀ e ∈ (b.lcgs lcg).entries, e.2.oldBuffer = prev e.1

variable {r : ρ} {prev : ℕ → ℕ}

theorem mem_updateNewData {lcg : Fin 4} {lcid : ℕ} {y : BsrLcid} :
    (lcid, y) ∈ ((b.updateNewData rlc r).lcgs lcg).entries ↔
      ∃ x, (lcid, x) ∈ (b.lcgs lcg).entries ∧
        y = ⟨x.priority, x.oldBuffer, rlc.getBufferState r lcid⟩ := by
  unfold updateNewData OrderedMap.mapValues
  dsimp only
  rw [List.mem_map]
  constructor
  · rintro ⟨⟨l, x⟩, hx, he⟩
    obtain ⟨rfl, rfl⟩ := Prod.mk.inj he
    exact ⟨x, hx, rfl⟩
  · rintro ⟨x, hx, rfl⟩
    exact ⟨_, hx, rfl⟩

theorem getBufferStateLcg_eq_zero (h : b.Holds prev) (lcg : Fin 4) :
    b.getBufferStateLcg lcg = 0 ↔ ∀ d ∈ b.channels, d.lcg = lcg → prev d.lcid = 0 := by
  unfold getBufferStateLcg
  rw [List.sum_eq_zero_iff]
  constructor
  · intro hzero d hd hlcg
    obtain ⟨x, hx, -⟩ := mem_channels.mp hd
    subst hlcg
    rw [← h d.lcg _ hx]
    exact hzero _ (List.mem_map.mpr ⟨_, hx, rfl⟩)
  · intro hzero n hn
    obtain ⟨e, he, rfl⟩ := List.mem_map.mp hn
    rw [h lcg e he]
    exact hzero ⟨lcg, e.1, e.2.priority⟩ (mem_channels.mpr ⟨e.2, he, rfl⟩) rfl

theorem channels_congr {b' : BsrProc} {f : Fin 4 → ℕ → BsrLcid → BsrLcid}
    (hf : ∀ lcg lcid x, (f lcg lcid x).priority = x.priority)
    (h : ∀ lcg, b'.lcgs lcg = (b.lcgs lcg).mapValues (f lcg)) : b'.channels = b.channels := by
  unfold channels
  simp only [h, OrderedMap.mapValues, List.map_map, Function.comp_def, hf]

theorem channels_updateNewData : (b.updateNewData rlc r).channels = b.channels :=
  channels_congr (f := fun _ lcid c => { c with newBuffer := rlc.getBufferState r lcid })
    (fun _ _ _ => rfl) fun _ => rfl

theorem Holds.updateNewData (h : b.Holds prev) : (b.updateNewData rlc r).Holds prev := by
  rintro lcg ⟨lcid, y⟩ he
  obtain ⟨x, hx, rfl⟩ := mem_updateNewData.mp he
  exact h lcg (lcid, x) hx

def buffersAt (rlc : RlcMac ρ) (prev : ℕ → ℕ) (r : ρ) : BsrBuffers := ⟨prev, rlc.getBufferState r⟩

theorem checkNewData_iff (h : b.Holds prev) : (b.updateNewData rlc r).checkNewData = true ↔
      (buffersAt rlc prev r).ArrivedInEmpty b.channels := by
  unfold checkNewData
  rw [List.any_eq_true]
  simp only [decide_eq_true_eq, List.any_eq_true, List.mem_finRange, true_and,
    getBufferStateLcg_eq_zero h.updateNewData, channels_updateNewData]
  constructor
  · rintro ⟨lcg, hnone, ⟨lcid, y⟩, he, hnew⟩
    obtain ⟨x, hx, rfl⟩ := mem_updateNewData.mp he
    have hmem : (⟨lcg, lcid, x.priority⟩ : BsrChannel) ∈ b.channels :=
      mem_channels.mpr ⟨x, hx, rfl⟩
    refine ⟨_, hmem, ?_, hnone⟩
    change prev lcid < rlc.getBufferState r lcid
    rw [hnone _ hmem rfl]
    exact hnew
  · rintro ⟨c, hc, harr, hnone⟩
    obtain ⟨x, hx, -⟩ := mem_channels.mp hc
    refine ⟨c.lcg, hnone, (c.lcid, _), mem_updateNewData.mpr ⟨x, hx, rfl⟩, ?_⟩
    exact Nat.zero_lt_of_lt harr

theorem mem_lcids {x : BsrLcid} :
    x ∈ b.lcids ↔ ∃ lcg lcid, (lcid, x) ∈ (b.lcgs lcg).entries := by
  unfold lcids
  simp only [List.mem_flatMap, List.mem_finRange, true_and, List.mem_map, Prod.exists,
    exists_eq_right]

theorem checkHighestChannel_iff (h : b.Holds prev) :
    (b.updateNewData rlc r).checkHighestChannel = true ↔
      ∃ c ∈ b.channels, (buffersAt rlc prev r).Arrived c ∧
        (buffersAt rlc prev r).Lowest b.channels c := by
  have hlower : ∀ p, ((b.updateNewData rlc r).lcids.any fun d =>
      d.priority > p ∧ d.oldBuffer ≠ 0) = true ↔
        ∃ d ∈ b.channels, p < d.priority ∧ prev d.lcid ≠ 0 := by
    intro p
    rw [List.any_eq_true]
    constructor
    · rintro ⟨y, hy, hlt⟩
      obtain ⟨lcg, lcid, hmem⟩ := mem_lcids.mp hy
      obtain ⟨x, hx, rfl⟩ := mem_updateNewData.mp hmem
      obtain ⟨hlt, hold⟩ := of_decide_eq_true hlt
      exact ⟨⟨lcg, lcid, x.priority⟩, mem_channels.mpr ⟨x, hx, rfl⟩, hlt, h lcg _ hx ▸ hold⟩
    · rintro ⟨d, hd, hlt, hold⟩
      obtain ⟨x, hx, hprio⟩ := mem_channels.mp hd
      refine ⟨_, mem_lcids.mpr ⟨d.lcg, d.lcid, mem_updateNewData.mpr ⟨x, hx, rfl⟩⟩, ?_⟩
      rw [← h d.lcg _ hx] at hold
      exact decide_eq_true ⟨hprio ▸ hlt, hold⟩
  have hlowest : ∀ c, (buffersAt rlc prev r).Lowest b.channels c ↔
      ¬∃ d ∈ b.channels, c.priority < d.priority ∧ prev d.lcid ≠ 0 := by
    intro c
    constructor
    · rintro hall ⟨d, hd, hlt, hold⟩
      exact Nat.not_lt.mpr (hall d hd hold) hlt
    · intro hnone d hd hold
      exact Nat.not_lt.mp fun hlt => hnone ⟨d, hd, hlt, hold⟩
  unfold checkHighestChannel
  rw [List.any_eq_true]
  constructor
  · rintro ⟨y, hy, hcheck⟩
    obtain ⟨lcg, lcid, hmem⟩ := mem_lcids.mp hy
    obtain ⟨x, hx, rfl⟩ := mem_updateNewData.mp hmem
    obtain ⟨hnew, hmax⟩ := of_decide_eq_true hcheck
    refine ⟨⟨lcg, lcid, x.priority⟩, mem_channels.mpr ⟨x, hx, rfl⟩, ?_, ?_⟩
    · change prev lcid < rlc.getBufferState r lcid
      rw [← h lcg _ hx]
      exact hnew
    · rw [hlowest, ← hlower]
      simpa using hmax
  · rintro ⟨c, hc, harr, hlow⟩
    obtain ⟨x, hx, hprio⟩ := mem_channels.mp hc
    refine ⟨_, mem_lcids.mpr ⟨c.lcg, c.lcid, mem_updateNewData.mpr ⟨x, hx, rfl⟩⟩, ?_⟩
    rw [hlowest, ← hlower] at hlow
    refine decide_eq_true ⟨?_, ?_⟩
    · change x.oldBuffer < rlc.getBufferState r c.lcid
      rw [h c.lcg _ hx]
      exact harr
    · rw [hprio]
      simpa using hlow

theorem setsRegular_iff (h : b.Holds prev) :
    SetsRegular rlc r b ↔ (buffersAt rlc prev r).ArrivedInEmpty b.channels ∨
      ∃ c ∈ b.channels, (buffersAt rlc prev r).Arrived c ∧
        (buffersAt rlc prev r).Lowest b.channels c := by
  have hstep : ∀ t, ((b.setTrigger t).step rlc r).triggeredBsrType =
      if (b.updateNewData rlc r).checkNewData ∨ (b.updateNewData rlc r).checkHighestChannel
        then .regular else t := by
    intro t
    unfold step
    exact apply_ite triggeredBsrType _ _ _
  rw [← checkNewData_iff h, ← checkHighestChannel_iff h]
  unfold SetsRegular
  simp only [hstep]
  constructor
  · intro hall
    by_contra hne
    have hnone := hall .none
    rw [if_neg hne] at hnone
    exact absurd hnone (by decide)
  · intro hsome t
    rw [if_pos hsome]

/-- The calls of `setup_lcid`, each with the LCID, its group and its priority. -/
def configure (calls : List (ℕ × ℕ × ℕ)) : BsrProc :=
  calls.foldl (fun b call => b.setupLcid call.1 call.2.1 call.2.2)
    ⟨fun _ => OrderedMap.empty, .none⟩

def run (rlc : RlcMac ρ) (b : BsrProc) (rs : List ρ) : BsrProc :=
  rs.foldl (fun b r => b.step rlc r) b

def heldAfter (rlc : RlcMac ρ) (rs : List ρ) (lcid : ℕ) : ℕ :=
  (rs.getLast?.map fun r => rlc.getBufferState r lcid).getD 0

theorem lcgs_step (r : ρ) (lcg : Fin 4) : ((b.step rlc r).lcgs lcg) =
    ((b.updateNewData rlc r).lcgs lcg).mapValues fun _ c =>
      { c with oldBuffer := c.newBuffer } := by
  unfold step
  dsimp only
  split_ifs <;> rfl

theorem channels_step : (b.step rlc r).channels = b.channels :=
  (channels_congr (f := fun _ _ c => { c with oldBuffer := c.newBuffer }) (fun _ _ _ => rfl)
    (lcgs_step r)).trans channels_updateNewData

theorem holds_step (r : ρ) : (b.step rlc r).Holds (rlc.getBufferState r) := by
  intro lcg e he
  rw [lcgs_step] at he
  obtain ⟨⟨lcid, y⟩, hy, rfl⟩ := List.mem_map.mp he
  obtain ⟨x, -, rfl⟩ := mem_updateNewData.mp hy
  rfl

theorem channels_run (rs : List ρ) : (b.run rlc rs).channels = b.channels := by
  induction rs generalizing b with
  | nil => rfl
  | cons r rs ih => exact ih.trans channels_step

theorem holds_run (h : b.Holds fun _ => 0) (rs : List ρ) :
    (b.run rlc rs).Holds (heldAfter rlc rs) := by
  induction rs using List.reverseRecOn with
  | nil => exact h
  | append_singleton rs r _ =>
    have hlast : heldAfter rlc (rs ++ [r]) = rlc.getBufferState r := by
      funext lcid
      rw [heldAfter, List.getLast?_concat]
      rfl
    rw [hlast, run, List.foldl_append]
    exact holds_step r

theorem holds_setupLcid (h : b.Holds fun _ => 0) (lcid newLcg priority : ℕ) :
    (b.setupLcid lcid newLcg priority).Holds fun _ => 0 := by
  have herase : ∀ lcg, ∀ e ∈ ((b.lcgs lcg).erase lcid).entries, e.2.oldBuffer = 0 :=
    fun lcg e he => h lcg e (List.mem_of_mem_filter he)
  unfold setupLcid
  split_ifs with hlcg
  · rintro lcg ⟨l, x⟩ he
    dsimp only at he ⊢
    split_ifs at he with hnew
    · rw [← OrderedMap.find?_eq_some_iff, OrderedMap.find?_insert] at he
      split_ifs at he
      · rw [← Option.some.inj he]
      · exact herase lcg (l, x) (OrderedMap.find?_eq_some_iff.mp he)
    · exact herase lcg (l, x) he
  · exact h

theorem holds_configure (calls : List (ℕ × ℕ × ℕ)) : (configure calls).Holds fun _ => 0 := by
  induction calls using List.reverseRecOn with
  | nil =>
    intro lcg e he
    exact absurd he List.not_mem_nil
  | append_singleton calls call ih =>
    rw [configure, List.foldl_append]
    exact holds_setupLcid ih _ _ _

def TriggersWhenDue (rlc : RlcMac ρ) (calls : List (ℕ × ℕ × ℕ)) (rs : List ρ) : Prop :=
  ∀ pre r, pre ++ [r] <+: rs →
    (SetsRegular rlc r ((configure calls).run rlc pre) ↔
      (buffersAt rlc (heldAfter rlc pre) r).RegularDue (configure calls).channels)

theorem triggers_when_due_iff (rlc : RlcMac ρ) (calls : List (ℕ × ℕ × ℕ)) (rs : List ρ) :
    TriggersWhenDue rlc calls rs ↔ ∀ pre r, pre ++ [r] <+: rs →
      (buffersAt rlc (heldAfter rlc pre) r).DirectionAgrees (configure calls).channels := by
  have hstep : ∀ pre r, (SetsRegular rlc r ((configure calls).run rlc pre) ↔
      (buffersAt rlc (heldAfter rlc pre) r).RegularDue (configure calls).channels) ↔
        (buffersAt rlc (heldAfter rlc pre) r).DirectionAgrees (configure calls).channels := by
    intro pre r
    rw [setsRegular_iff (holds_run (holds_configure calls) pre), channels_run,
      BsrBuffers.regularDue_iff, BsrBuffers.DirectionAgrees]
    by_cases hempty :
      (buffersAt rlc (heldAfter rlc pre) r).ArrivedInEmpty (configure calls).channels
    · simp only [hempty, true_or]
    · simp only [hempty, false_or]
      exact Iff.comm
  unfold TriggersWhenDue
  simp only [hstep]

def idleRlc : RlcMac (ℕ → ℕ) where
  getBufferState r lcid := r lcid
  readPdu r _ _ := (none, r)
  readPdu_le _ _ _ _ h := by cases h

/-- Channel 4 gets data while channel 3, of the same group and of lower priority, has some. -/
theorem higher_priority_not_triggered :
    ¬TriggersWhenDue idleRlc [(3, 1, 9), (4, 1, 5)]
      [fun lcid => if lcid = 3 then 100 else 0, fun _ => 100] := by
  intro h
  have hlast := (h [fun lcid => if lcid = 3 then 100 else 0] (fun _ => 100)
    (List.prefix_refl _)).mpr
  have hdue : (buffersAt idleRlc (heldAfter idleRlc [fun lcid => if lcid = 3 then 100 else 0])
      fun _ => 100).RegularDue (configure [(3, 1, 9), (4, 1, 5)]).channels := by
    refine ⟨⟨1, 4, 5⟩, ?_, ?_, Or.inr ?_⟩
    · exact List.mem_cons_of_mem _ (List.mem_singleton_self _)
    · change 0 < 100
      decide
    · intro d hd hold
      have hprio : ∀ d ∈ (configure [(3, 1, 9), (4, 1, 5)]).channels,
          d.lcid = 3 ∧ d.priority = 9 ∨ d.lcid = 4 := by decide
      rcases hprio d hd with ⟨-, hlow⟩ | hnew
      · rw [hlow]
        decide
      · rw [hnew] at hold
        exact absurd rfl hold
  exact absurd (hlast hdue .none) (by decide)

end BsrProc

end SrsLte
