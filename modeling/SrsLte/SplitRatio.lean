import SrsLte.EnbRlc
import SrsLte.EventRun
import SrsLte.PeriodicWindow

/-!
# The split ratio of the master eNB

The SDUs of LCID 3 are dealt out in cycles by a counter. It is an octet, so that a cycle cannot be
longer than 256 SDUs, whereas two ratios can add up to 510.
-/

namespace SrsLte

namespace EnbRlc

inductive SplitEvent
  | setSplitMode
  | setDuplicationMode
  | setSplitRatio (ratioMeNB ratioSeNB : UInt8)
  | writeSdu (rnti lcid : ℕ) (sdu : Bytes) (rollSeNB rollMeNB : ℕ) (sent : Bool)

/-- The paths of the SDUs of LCID 3 written since the ratio was last set or the mode last
changed. -/
structure SplitRun where
  rlc : EnbRlc
  since : List Path

def SplitRun.step (r : SplitRun) : SplitEvent → SplitRun
  | .setSplitMode => ⟨r.rlc.setSplitMode, []⟩
  | .setDuplicationMode => ⟨r.rlc.setDuplicationMode, []⟩
  | .setSplitRatio ratioMeNB ratioSeNB =>
    ⟨r.rlc.setSplitRatio ratioMeNB.toNat ratioSeNB.toNat, []⟩
  | .writeSdu rnti lcid sdu rollSeNB rollMeNB sent =>
    { rlc := (r.rlc.writeSdu rnti lcid sdu rollSeNB rollMeNB sent).1
      since := if lcid = 3 then r.since ++ [(r.rlc.decidePath lcid).2] else r.since }

def Splits (n : EnbRlc) : Prop := n.duplicationMode = false ∧ n.splitMode = true

/-- What the path decision makes of an SDU: it goes to the bearers of this eNB, is offered to the
socket, or both. -/
structure Dealt (n : EnbRlc) (rnti lcid : ℕ) (sdu : Bytes) (rollSeNB rollMeNB : ℕ) (sent : Bool) :
    Prop where
  other : lcid ≠ 3 ∨ n.duplicationMode = false ∧ n.splitMode = false →
    (n.writeSdu rnti lcid sdu rollSeNB rollMeNB sent).1.users = (n.writeLocal rnti lcid sdu).users ∧
      (n.writeSdu rnti lcid sdu rollSeNB rollMeNB sent).2 = none
  duplicated : lcid = 3 → n.duplicationMode = true →
    (n.writeSdu rnti lcid sdu rollSeNB rollMeNB sent).1.users = (n.writeLocal rnti lcid sdu).users ∧
      (n.writeSdu rnti lcid sdu rollSeNB rollMeNB sent).2 = if sent then some sdu else none
  split : lcid = 3 → n.Splits →
    (n.decidePath lcid).2 = .menb ∧
      (n.writeSdu rnti lcid sdu rollSeNB rollMeNB sent).1.users =
        (n.writeLocal rnti lcid sdu).users ∧
      (n.writeSdu rnti lcid sdu rollSeNB rollMeNB sent).2 = none ∨
    (n.decidePath lcid).2 = .senb ∧
      (n.writeSdu rnti lcid sdu rollSeNB rollMeNB sent).1.users = n.users ∧
      (n.writeSdu rnti lcid sdu rollSeNB rollMeNB sent).2 = if sent then some sdu else none

namespace SplitRun

def Fair (r : SplitRun) : Prop :=
  r.rlc.Splits → ∀ w, w <:+: r.since → w.length = r.rlc.ratioMeNB + r.rlc.ratioSeNB →
    w.count .menb = r.rlc.ratioMeNB ∧ w.count .senb = r.rlc.ratioSeNB

def Good (r : SplitRun) (e : SplitEvent) : Prop :=
  (match e with
    | .writeSdu rnti lcid sdu rollSeNB rollMeNB sent =>
      r.rlc.Dealt rnti lcid sdu rollSeNB rollMeNB sent
    | _ => True) ∧ (r.step e).Fair

/-- The condition on an SDU in split mode: a cycle fits into the counter, or no cycle is complete
yet, or the counter is far enough behind the places of this eNB. -/
def Countable (r : SplitRun) : SplitEvent → Prop
  | .writeSdu _ lcid _ _ _ _ => lcid = 3 → r.rlc.Splits →
      r.rlc.ratioMeNB + r.rlc.ratioSeNB ≤ 256 ∨
      r.since.length + 1 < r.rlc.ratioMeNB + r.rlc.ratioSeNB ∨
      2 * r.rlc.ratioMeNB + r.rlc.ratioSeNB ≤ r.rlc.splitCount + 257
  | _ => True

end SplitRun

def period (m s : ℕ) : ℕ := min (m + s) 256

/-- The path of SDU `i` when the counter was at `a` before. -/
def slot (m s a i : ℕ) : Path := if (a + i) % period m s < m then .menb else .senb

section Windows

variable {m s a n : ℕ}

theorem count_slot (m s a b len : ℕ) :
    ((List.range len).map fun i => slot m s a (b + i)).count .menb =
      Nat.count (fun k => (a + b + k) % period m s < m) len ∧
    ((List.range len).map fun i => slot m s a (b + i)).count .menb +
      ((List.range len).map fun i => slot m s a (b + i)).count .senb = len := by
  constructor
  · have hslot : ∀ k, slot m s a (b + k) = .menb ↔ (a + b + k) % period m s < m := by
      intro k
      unfold slot
      rw [Nat.add_assoc]
      split_ifs with h
      · exact iff_of_true rfl h
      · exact iff_of_false (by simp) h
    rw [PeriodicWindow.count_map_range]
    simp only [hslot]
  · induction len with
    | zero => rfl
    | succ len ih =>
      rw [List.range_succ, List.map_append, List.count_append, List.count_append]
      have hlast : [slot m s a (b + len)].count .menb + [slot m s a (b + len)].count .senb = 1 := by
        unfold slot
        split_ifs <;> rfl
      rw [List.map_singleton]
      omega

theorem fair_map_iff :
    (∀ w, w <:+: (List.range n).map (slot m s a) → w.length = m + s →
      w.count .menb = m ∧ w.count .senb = s) ↔
    ∀ b, b + (m + s) ≤ n →
      Nat.count (fun k => (a + b + k) % period m s < m) (m + s) = m := by
  constructor
  · intro h b hb
    have hw := h ((List.range (m + s)).map fun i => slot m s a (b + i))
      (PeriodicWindow.isInfix_map_range_iff.mpr ⟨b, by simpa using hb, by simp⟩) (by simp)
    rw [← (count_slot m s a b (m + s)).1]
    exact hw.1
  · intro h w hw hlen
    obtain ⟨b, hb, hwindow⟩ := PeriodicWindow.isInfix_map_range_iff.mp hw
    rw [hlen] at hb hwindow
    obtain ⟨hmenb, hboth⟩ := count_slot m s a b (m + s)
    rw [h b hb] at hmenb
    rw [hwindow]
    exact ⟨hmenb, by omega⟩

theorem count_cycle (h : m + s ≤ 256) (b : ℕ) :
    Nat.count (fun k => (a + b + k) % period m s < m) (m + s) = m := by
  unfold period
  rw [min_eq_left h]
  exact PeriodicWindow.count_period (Nat.le_add_right m s) (a + b)

/-- A longer window has no more than the places of one round of the counter exactly when the
counter is far enough behind these at its end. -/
theorem count_long_iff {b c : ℕ} (hlong : 256 < m + s) (hm : m ≤ 255) (hs : s ≤ 255)
    (hlast : b + (m + s) = n + 1) (hc : c < 256) (hcount : (a + n) % 256 = c) :
    Nat.count (fun k => (a + b + k) % period m s < m) (m + s) = m ↔ 2 * m + s ≤ c + 257 := by
  obtain ⟨e, he⟩ := Nat.exists_eq_add_of_le hlong.le
  have hperiod : period m s = 256 := min_eq_right hlong.le
  rw [hperiod, he, PeriodicWindow.count_period_add (by omega)]
  constructor
  · intro h
    by_contra hnear
    by_cases hcm : c < m
    · have hbad := h (e - 1) (by omega)
      omega
    · have hbad := h (e - 1 - (c - m + 1)) (by omega)
      omega
  · intro h k hk
    omega

end Windows

section Decision

variable {n : EnbRlc} {rnti lcid : ℕ} {sdu : Bytes} {rollSeNB rollMeNB : ℕ} {sent : Bool}

theorem decidePath_state (n : EnbRlc) (lcid : ℕ) :
    ∃ c, (n.decidePath lcid).1 = { n with splitCount := c } := by
  unfold decidePath
  dsimp only
  split_ifs <;> exact ⟨_, rfl⟩

def sendAlong (n : EnbRlc) (rnti lcid : ℕ) (sdu : Bytes) (sent : Bool) :
    Path → EnbRlc × Option Bytes
  | .duplication => (n.writeLocal rnti lcid sdu, if sent then some sdu else none)
  | .senb => (n, if sent then some sdu else none)
  | .menb => (n.writeLocal rnti lcid sdu, none)
  | .unknown => (n, none)

theorem writeSdu_eq (hloss : n.lossMeNB = 0 ∧ n.lossSeNB = 0) (rnti lcid : ℕ) (sdu : Bytes)
    (rollSeNB rollMeNB : ℕ) (sent : Bool) :
    n.writeSdu rnti lcid sdu rollSeNB rollMeNB sent =
      (n.decidePath lcid).1.sendAlong rnti lcid sdu sent (n.decidePath lcid).2 := by
  obtain ⟨c, hc⟩ := decidePath_state n lcid
  have hkeep : ∀ roll, decideLoss 0 roll = false := fun roll =>
    decide_eq_false (Nat.not_lt_zero (roll % 100))
  unfold writeSdu
  simp only [hc, hloss.1, hloss.2, hkeep, Bool.false_eq_true, if_false, true_and]
  cases (n.decidePath lcid).2 <;> rfl

theorem decidePath_of_splits (h : n.Splits) :
    (n.ratioMeNB = 0 → n.ratioSeNB ≠ 0 → n.decidePath 3 = (n, .senb)) ∧
      (n.ratioSeNB = 0 → n.ratioMeNB ≠ 0 → n.decidePath 3 = (n, .menb)) ∧
        (n.ratioMeNB ≠ 0 → n.ratioSeNB ≠ 0 →
          ∀ count, count = (if n.splitCount ≥ n.ratioMeNB + n.ratioSeNB then 0 else n.splitCount) →
            n.decidePath 3 = ({ n with splitCount := (count + 1) % 2 ^ 8 },
              if count < n.ratioMeNB then .menb else .senb)) := by
  have hmode : n.duplicationMode = false ∧ ¬ n.splitMode = false :=
    ⟨h.1, by rw [h.2]; exact Bool.noConfusion⟩
  unfold decidePath
  rw [if_neg (not_not.mpr rfl), if_neg (by rw [hmode.1]; exact Bool.false_ne_true),
    if_neg hmode.2]
  refine ⟨fun hm hs => if_pos ⟨hm, hs⟩, fun hs hm => ?_, fun hm hs count hcount => ?_⟩
  · rw [if_neg fun h => hm h.1, if_pos ⟨hs, hm⟩]
  · rw [if_neg fun h => hm h.1, if_neg fun h => hs h.1, if_neg fun h => hm h.1, hcount]

theorem decidePath_splits (hsplits : n.Splits) (hratio : n.ratioMeNB ≠ 0 ∨ n.ratioSeNB ≠ 0)
    {a k : ℕ} (hcount : n.splitCount < 256 ∧
      (n.ratioMeNB ≠ 0 → n.ratioSeNB ≠ 0 → n.splitCount ≤ n.ratioMeNB + n.ratioSeNB))
    (hlarge : n.ratioMeNB ≤ 255 ∧ n.ratioSeNB ≤ 255)
    (hplace : n.ratioMeNB ≠ 0 → n.ratioSeNB ≠ 0 →
      n.splitCount % period n.ratioMeNB n.ratioSeNB = (a + k) % period n.ratioMeNB n.ratioSeNB) :
    (n.decidePath 3).2 = slot n.ratioMeNB n.ratioSeNB a k ∧
      (n.decidePath 3).1.splitCount < 256 ∧
      (n.ratioMeNB ≠ 0 → n.ratioSeNB ≠ 0 →
        (n.decidePath 3).1.splitCount ≤ n.ratioMeNB + n.ratioSeNB ∧
          (n.decidePath 3).1.splitCount % period n.ratioMeNB n.ratioSeNB =
            (a + (k + 1)) % period n.ratioMeNB n.ratioSeNB) := by
  obtain ⟨honlySeNB, honlyMeNB, hcycle⟩ := decidePath_of_splits hsplits
  by_cases hm : n.ratioMeNB = 0
  · rw [honlySeNB hm (hratio.resolve_left (not_not.mpr hm)), slot, if_neg (by omega)]
    exact ⟨rfl, hcount.1, fun h => absurd hm h⟩
  by_cases hs : n.ratioSeNB = 0
  · have hall : period n.ratioMeNB n.ratioSeNB = n.ratioMeNB := by
      unfold period
      omega
    rw [honlyMeNB hs hm, slot, hall, if_pos (Nat.mod_lt _ (by omega))]
    exact ⟨rfl, hcount.1, fun _ h => absurd hs h⟩
  have hpos : 0 < period n.ratioMeNB n.ratioSeNB := by
    unfold period
    omega
  have hle := hcount.2 hm hs
  have hnow := hplace hm hs
  -- the counter at this SDU, started again where a cycle is over
  have hreset : (a + k) % period n.ratioMeNB n.ratioSeNB =
      if n.splitCount ≥ n.ratioMeNB + n.ratioSeNB then 0 else n.splitCount := by
    rw [← hnow]
    split_ifs with hfull
    · have hend : n.splitCount = period n.ratioMeNB n.ratioSeNB := by
        unfold period
        omega
      rw [hend, Nat.mod_self]
    · rw [Nat.mod_eq_of_lt]
      unfold period
      omega
  rw [hcycle hm hs _ hreset]
  have hlt := Nat.mod_lt (a + k) hpos
  have hnext : (a + (k + 1)) % period n.ratioMeNB n.ratioSeNB =
      ((a + k) % period n.ratioMeNB n.ratioSeNB + 1) % period n.ratioMeNB n.ratioSeNB := by
    rw [← Nat.add_assoc, Nat.mod_add_mod]
  refine ⟨rfl, Nat.mod_lt _ (by decide), fun _ _ => ⟨?_, ?_⟩⟩
  · dsimp only
    unfold period at hlt ⊢
    omega
  · rw [hnext]
    generalize (a + k) % period n.ratioMeNB n.ratioSeNB = c at hlt
    dsimp only
    rcases Nat.lt_or_ge (c + 1) (2 ^ 8) with hsmall | hwrap
    · rw [Nat.mod_eq_of_lt hsmall]
    · have hround : period n.ratioMeNB n.ratioSeNB = 2 ^ 8 := by
        unfold period at hlt ⊢
        omega
      rw [hround, Nat.mod_mod]

theorem dealt (hloss : n.lossMeNB = 0 ∧ n.lossSeNB = 0)
    (hratio : n.ratioMeNB ≠ 0 ∨ n.ratioSeNB ≠ 0) :
    n.Dealt rnti lcid sdu rollSeNB rollMeNB sent := by
  obtain ⟨c, hc⟩ := decidePath_state n lcid
  have hwrite := writeSdu_eq hloss rnti lcid sdu rollSeNB rollMeNB sent
  constructor
  · intro h
    have hpath : (n.decidePath lcid).2 = .menb := by
      unfold decidePath
      by_cases hlcid : lcid = 3
      · obtain ⟨hdup, hsplit⟩ := h.resolve_left (not_not.mpr hlcid)
        rw [if_neg (not_not.mpr hlcid), hdup, hsplit, if_neg Bool.false_ne_true, if_pos rfl]
      · rw [if_pos hlcid]
    rw [hwrite, hpath, hc]
    exact ⟨rfl, rfl⟩
  · intro hlcid hdup
    have hpath : (n.decidePath lcid).2 = .duplication := by
      unfold decidePath
      rw [if_neg (not_not.mpr hlcid), if_pos hdup]
    rw [hwrite, hpath, hc]
    exact ⟨rfl, rfl⟩
  · rintro rfl hsplits
    obtain ⟨honlySeNB, honlyMeNB, hcycle⟩ := decidePath_of_splits hsplits
    have hpath : (n.decidePath 3).2 = .menb ∨ (n.decidePath 3).2 = .senb := by
      by_cases hm : n.ratioMeNB = 0
      · rw [honlySeNB hm (hratio.resolve_left (not_not.mpr hm))]
        exact .inr rfl
      · by_cases hs : n.ratioSeNB = 0
        · rw [honlyMeNB hs hm]
          exact .inl rfl
        · rw [hcycle hm hs _ rfl]
          exact ite_eq_or_eq _ _ _
    rcases hpath with hpath | hpath
    · rw [hwrite, hpath, hc]
      exact .inl ⟨rfl, rfl, rfl⟩
    · rw [hwrite, hpath, hc]
      exact .inr ⟨rfl, rfl, rfl⟩

end Decision

namespace SplitRun

/-- What holds in every state: the paths since the last change are places of one cycle. -/
structure Tracked (r : SplitRun) : Prop where
  loss : r.rlc.lossMeNB = 0 ∧ r.rlc.lossSeNB = 0
  large : r.rlc.ratioMeNB ≤ 255 ∧ r.rlc.ratioSeNB ≤ 255
  ratio : r.rlc.ratioMeNB ≠ 0 ∨ r.rlc.ratioSeNB ≠ 0
  count : r.rlc.splitCount < 256 ∧ (r.rlc.ratioMeNB ≠ 0 → r.rlc.ratioSeNB ≠ 0 →
    r.rlc.splitCount ≤ r.rlc.ratioMeNB + r.rlc.ratioSeNB)
  places : r.rlc.Splits → ∃ a,
    r.since = (List.range r.since.length).map (slot r.rlc.ratioMeNB r.rlc.ratioSeNB a) ∧
      (r.rlc.ratioMeNB ≠ 0 → r.rlc.ratioSeNB ≠ 0 →
        r.rlc.splitCount % period r.rlc.ratioMeNB r.rlc.ratioSeNB =
          (a + r.since.length) % period r.rlc.ratioMeNB r.rlc.ratioSeNB)
  fair : r.Fair

def init (users : OrderedMap ℕ RlcBearers) (cpRnti cpLcid : ℕ) : SplitRun :=
  ⟨{ EnbRlc.init cpRnti cpLcid with users := users }, []⟩

variable {r : SplitRun}

theorem fair_nil {n : EnbRlc} (hratio : n.ratioMeNB ≠ 0 ∨ n.ratioSeNB ≠ 0) : Fair ⟨n, []⟩ := by
  intro _ w hw hlen
  rw [List.infix_nil.mp hw, List.length_nil] at hlen
  dsimp only at hlen
  omega

theorem tracked_nil {n : EnbRlc} (hloss : n.lossMeNB = 0 ∧ n.lossSeNB = 0)
    (hlarge : n.ratioMeNB ≤ 255 ∧ n.ratioSeNB ≤ 255) (hratio : n.ratioMeNB ≠ 0 ∨ n.ratioSeNB ≠ 0)
    (hcount : n.splitCount < 256 ∧ (n.ratioMeNB ≠ 0 → n.ratioSeNB ≠ 0 →
      n.splitCount ≤ n.ratioMeNB + n.ratioSeNB)) : Tracked ⟨n, []⟩ :=
  ⟨hloss, hlarge, hratio, hcount, fun _ => ⟨n.splitCount, rfl, fun _ _ => rfl⟩, fair_nil hratio⟩

theorem tracked_init (users : OrderedMap ℕ RlcBearers) (cpRnti cpLcid : ℕ) :
    (init users cpRnti cpLcid).Tracked :=
  tracked_nil ⟨rfl, rfl⟩ (show 1 ≤ 255 ∧ 0 ≤ 255 by decide) (.inl Nat.one_ne_zero)
    ⟨show 0 < 256 by decide, fun _ h => absurd rfl h⟩

theorem tracked_setSplitRatio {n : EnbRlc} (hloss : n.lossMeNB = 0 ∧ n.lossSeNB = 0)
    (hcount : n.splitCount < 256) {ratioMeNB ratioSeNB : ℕ} (hm : ratioMeNB ≤ 255)
    (hs : ratioSeNB ≤ 255) : Tracked ⟨n.setSplitRatio ratioMeNB ratioSeNB, []⟩ := by
  unfold setSplitRatio
  split_ifs with hzero
  · exact tracked_nil hloss (show 1 ≤ 255 ∧ 0 ≤ 255 by decide) (.inl Nat.one_ne_zero)
      ⟨hcount, fun _ h => absurd rfl h⟩
  · exact tracked_nil hloss ⟨hm, hs⟩ (not_and_or.mp hzero)
      ⟨show 0 < 256 by decide, fun _ _ => Nat.zero_le _⟩

theorem tracked_set {e : SplitEvent} (hr : r.Tracked)
    (he : ∀ rnti lcid sdu rollSeNB rollMeNB sent,
      e ≠ .writeSdu rnti lcid sdu rollSeNB rollMeNB sent) : (r.step e).Tracked := by
  cases e with
  | writeSdu rnti lcid sdu rollSeNB rollMeNB sent => exact absurd rfl (he _ _ _ _ _ _)
  | setDuplicationMode => exact tracked_nil hr.loss hr.large hr.ratio hr.count
  | setSplitRatio ratioMeNB ratioSeNB =>
    exact tracked_setSplitRatio hr.loss hr.count.1 (Nat.le_of_lt_succ ratioMeNB.toNat_lt)
      (Nat.le_of_lt_succ ratioSeNB.toNat_lt)
  | setSplitMode =>
    unfold step setSplitMode
    dsimp only
    split_ifs
    · exact tracked_nil hr.loss hr.large hr.ratio hr.count
    · exact tracked_setSplitRatio
        (n := { r.rlc with splitMode := true, duplicationMode := false, splitCount := 0 })
        hr.loss (show 0 < 256 by decide) (show 1 ≤ 255 by decide) (show 0 ≤ 255 by decide)

section Write

variable {rnti lcid : ℕ} {sdu : Bytes} {rollSeNB rollMeNB : ℕ} {sent : Bool}

theorem writeSdu_settings {n : EnbRlc} (hloss : n.lossMeNB = 0 ∧ n.lossSeNB = 0) (rnti lcid : ℕ)
    (sdu : Bytes) (rollSeNB rollMeNB : ℕ) (sent : Bool) :
    ∃ users, (n.writeSdu rnti lcid sdu rollSeNB rollMeNB sent).1 =
      { n with users := users, splitCount := (n.decidePath lcid).1.splitCount } := by
  obtain ⟨c, hc⟩ := decidePath_state n lcid
  rw [writeSdu_eq hloss, hc]
  cases (n.decidePath lcid).2 <;> exact ⟨_, rfl⟩

theorem decidePath_not_splits {n : EnbRlc} (h : lcid ≠ 3 ∨ ¬ n.Splits) :
    (n.decidePath lcid).1 = n := by
  unfold decidePath
  by_cases hlcid : lcid = 3
  · have hsplits := h.resolve_left (not_not.mpr hlcid)
    rw [if_neg (not_not.mpr hlcid)]
    by_cases hdup : n.duplicationMode = true
    · rw [if_pos hdup]
    · rw [if_neg hdup]
      rw [Bool.not_eq_true] at hdup
      rw [if_pos (Bool.eq_false_iff.mpr fun hsplit => hsplits ⟨hdup, hsplit⟩)]
  · rw [if_pos hlcid]

theorem write_splits (hr : r.Tracked) (hsplits : r.rlc.Splits) :
    ((r.step (.writeSdu rnti 3 sdu rollSeNB rollMeNB sent)).Fair ↔
      r.Countable (.writeSdu rnti 3 sdu rollSeNB rollMeNB sent)) ∧
    ((r.step (.writeSdu rnti 3 sdu rollSeNB rollMeNB sent)).Fair →
      (r.step (.writeSdu rnti 3 sdu rollSeNB rollMeNB sent)).Tracked) := by
  obtain ⟨users, hrlc⟩ := writeSdu_settings hr.loss rnti 3 sdu rollSeNB rollMeNB sent
  obtain ⟨a, hsince, hplace⟩ := hr.places hsplits
  obtain ⟨hpath, hcount, hnext⟩ :=
    decidePath_splits hsplits hr.ratio hr.count hr.large hplace
  have hstep : r.step (.writeSdu rnti 3 sdu rollSeNB rollMeNB sent) =
      ⟨{ r.rlc with users := users, splitCount := (r.rlc.decidePath 3).1.splitCount },
        (List.range (r.since.length + 1)).map (slot r.rlc.ratioMeNB r.rlc.ratioSeNB a)⟩ := by
    rw [step, hrlc, if_pos rfl, hpath, List.range_succ, List.map_append, ← hsince]
    rfl
  have hold := hr.fair hsplits
  rw [hsince, fair_map_iff] at hold
  have hlarge := hr.large
  constructor
  · rw [hstep]
    constructor
    · intro h _ _
      have hall := fair_map_iff.mp (h hsplits)
      by_contra hnot
      rw [not_or, not_or, Nat.not_le, Nat.not_lt, Nat.not_le] at hnot
      obtain ⟨hlong, hlen, hnear⟩ := hnot
      have hplace' := hplace (by omega) (by omega)
      have hperiod : period r.rlc.ratioMeNB r.rlc.ratioSeNB = 256 := min_eq_right hlong.le
      rw [hperiod, Nat.mod_eq_of_lt hr.count.1] at hplace'
      have hlast := (count_long_iff hlong hlarge.1 hlarge.2 (Nat.sub_add_cancel hlen) hr.count.1
        hplace'.symm).mp (hall _ (by omega))
      omega
    · intro h _
      refine fair_map_iff.mpr fun b hb => ?_
      rcases Nat.lt_or_ge r.since.length (b + (r.rlc.ratioMeNB + r.rlc.ratioSeNB)) with hlast | hle
      · rcases h rfl hsplits with hshort | hfew | hfar
        · exact count_cycle hshort b
        · omega
        · rcases Nat.lt_or_ge 256 (r.rlc.ratioMeNB + r.rlc.ratioSeNB) with hlong | hshort
          · have hplace' := hplace (by omega) (by omega)
            have hperiod : period r.rlc.ratioMeNB r.rlc.ratioSeNB = 256 := min_eq_right hlong.le
            rw [hperiod, Nat.mod_eq_of_lt hr.count.1] at hplace'
            exact (count_long_iff hlong hlarge.1 hlarge.2 (by omega) hr.count.1 hplace'.symm).mpr
              hfar
          · exact count_cycle hshort b
      · exact hold b hle
  · intro hfair
    rw [hstep] at hfair ⊢
    refine ⟨hr.loss, hr.large, hr.ratio, ⟨hcount, fun hm hs => (hnext hm hs).1⟩, fun _ => ?_, hfair⟩
    refine ⟨a, by simp, fun hm hs => ?_⟩
    rw [List.length_map, List.length_range]
    exact (hnext hm hs).2

theorem write_other (hr : r.Tracked) (hother : lcid ≠ 3 ∨ ¬ r.rlc.Splits) :
    (r.step (.writeSdu rnti lcid sdu rollSeNB rollMeNB sent)).Tracked := by
  obtain ⟨users, hrlc⟩ := writeSdu_settings hr.loss rnti lcid sdu rollSeNB rollMeNB sent
  rw [decidePath_not_splits hother] at hrlc
  rw [step, hrlc]
  have hsame : r.rlc.Splits →
      (if lcid = 3 then r.since ++ [(r.rlc.decidePath lcid).2] else r.since) = r.since := by
    intro hsplits
    rw [if_neg (hother.resolve_right (not_not.mpr hsplits))]
  constructor
  · exact hr.loss
  · exact hr.large
  · exact hr.ratio
  · exact hr.count
  · intro hsplits
    rw [hsame hsplits]
    exact hr.places hsplits
  · intro hsplits
    rw [hsame hsplits]
    exact hr.fair hsplits

end Write

theorem good_iff (r : SplitRun) (e : SplitEvent) (hr : r.Tracked) : r.Good e ↔ r.Countable e := by
  cases e with
  | setSplitMode | setDuplicationMode | setSplitRatio =>
    exact iff_of_true ⟨trivial, (tracked_set hr (by simp)).fair⟩ trivial
  | writeSdu rnti lcid sdu rollSeNB rollMeNB sent =>
    unfold Good
    rw [and_iff_right (dealt hr.loss hr.ratio)]
    by_cases hsplit : lcid = 3 ∧ r.rlc.Splits
    · obtain ⟨rfl, hsplits⟩ := hsplit
      exact (write_splits hr hsplits).1
    · have hother := not_and_or.mp hsplit
      refine iff_of_true (write_other hr hother).fair fun hlcid hsplits => ?_
      exact absurd ⟨hlcid, hsplits⟩ hsplit

theorem tracked_step (r : SplitRun) (e : SplitEvent) (hr : r.Tracked) (h : r.Good e) :
    (r.step e).Tracked := by
  cases e with
  | setSplitMode | setDuplicationMode | setSplitRatio => exact tracked_set hr (by simp)
  | writeSdu rnti lcid sdu rollSeNB rollMeNB sent =>
    by_cases hsplit : lcid = 3 ∧ r.rlc.Splits
    · obtain ⟨rfl, hsplits⟩ := hsplit
      exact (write_splits hr hsplits).2 h.2
    · exact write_other hr (not_and_or.mp hsplit)

end SplitRun

namespace SplitRun

theorem count_replicate (r : SplitRun) (hloss : r.rlc.lossMeNB = 0 ∧ r.rlc.lossSeNB = 0)
    (hsplits : r.rlc.Splits) (hm : r.rlc.ratioMeNB ≠ 0) (hs : r.rlc.ratioSeNB ≠ 0)
    (hlong : 256 ≤ r.rlc.ratioMeNB + r.rlc.ratioSeNB) (hcount : r.rlc.splitCount < 256)
    (rnti : ℕ) (sdu : Bytes) (sent : Bool) (k : ℕ) :
    ∃ users since, since.length = r.since.length + k ∧
      (List.replicate k (SplitEvent.writeSdu rnti 3 sdu 0 0 sent)).foldl step r =
        ⟨{ r.rlc with users := users, splitCount := (r.rlc.splitCount + k) % 2 ^ 8 }, since⟩ := by
  induction k with
  | zero =>
    refine ⟨r.rlc.users, r.since, rfl, ?_⟩
    rw [Nat.add_zero, Nat.mod_eq_of_lt (show _ < 2 ^ 8 from hcount)]
    rfl
  | succ k ih =>
    obtain ⟨users, since, hlen, hfold⟩ := ih
    rw [List.replicate_succ', List.foldl_append, hfold, List.foldl_cons, List.foldl_nil, step]
    obtain ⟨users', hrlc⟩ := writeSdu_settings
      (n := { r.rlc with users := users, splitCount := (r.rlc.splitCount + k) % 2 ^ 8 })
      hloss rnti 3 sdu 0 0 sent
    have hsmall := Nat.mod_lt (r.rlc.splitCount + k) (Nat.two_pow_pos 8)
    have hkeep : (r.rlc.splitCount + k) % 2 ^ 8 =
        if (r.rlc.splitCount + k) % 2 ^ 8 ≥ r.rlc.ratioMeNB + r.rlc.ratioSeNB then 0
        else (r.rlc.splitCount + k) % 2 ^ 8 := by
      rw [if_neg (by omega)]
    have hdecide := (decidePath_of_splits
      (n := { r.rlc with users := users, splitCount := (r.rlc.splitCount + k) % 2 ^ 8 })
      hsplits).2.2 hm hs _ hkeep
    rw [hrlc, hdecide, if_pos rfl]
    refine ⟨users', since ++ [if (r.rlc.splitCount + k) % 2 ^ 8 < r.rlc.ratioMeNB then .menb
      else .senb], ?_, ?_⟩
    · rw [List.length_append, List.length_singleton, hlen, Nat.add_assoc]
    · rw [Nat.mod_add_mod, Nat.add_assoc]

end SplitRun

/-- SDUs are dealt out as the modes and the ratio say exactly in runs where the counter can count
the cycles. -/
theorem split_ratio_iff (users : OrderedMap ℕ RlcBearers) (cpRnti cpLcid : ℕ)
    (events : List SplitEvent) :
    EventRun.Along SplitRun.step SplitRun.Good (SplitRun.init users cpRnti cpLcid) events ↔
      EventRun.Along SplitRun.step SplitRun.Countable (SplitRun.init users cpRnti cpLcid) events :=
  EventRun.along_congr SplitRun.tracked_step SplitRun.good_iff
    (SplitRun.tracked_init users cpRnti cpLcid)

/-- A cycle of 255 and 2 SDUs: the SDU 257 stays here, as the counter has started again. -/
theorem cycle_of_257 :
    ¬ EventRun.Along SplitRun.step SplitRun.Good (SplitRun.init .empty 0 0)
      ([.setSplitMode, .setSplitRatio 255 2] ++
        List.replicate 257 (.writeSdu 70 3 [] 0 0 true)) := by
  rw [EventRun.along_congr SplitRun.tracked_step SplitRun.good_iff
    (SplitRun.tracked_init .empty 0 0), EventRun.along_append, List.replicate_succ',
    EventRun.along_append]
  rintro ⟨-, -, hlast, -⟩
  obtain ⟨users, since, hlen, hstate⟩ := SplitRun.count_replicate
    ([SplitEvent.setSplitMode, .setSplitRatio 255 2].foldl SplitRun.step
      (SplitRun.init .empty 0 0))
    ⟨rfl, rfl⟩ ⟨rfl, rfl⟩ (show 255 ≠ 0 by decide) (show 2 ≠ 0 by decide)
    (show 256 ≤ 255 + 2 by decide) (show 0 < 256 by decide) 70 [] true 256
  rw [hstate] at hlast
  rcases hlast rfl ⟨rfl, rfl⟩ with hshort | hfew | hfar
  · exact absurd hshort (show ¬ 255 + 2 ≤ 256 by decide)
  · rw [hlen] at hfew
    exact absurd hfew (show ¬ 0 + 256 + 1 < 255 + 2 by decide)
  · exact absurd hfar (show ¬ 2 * 255 + 2 ≤ (0 + 256) % 2 ^ 8 + 257 by decide)

end EnbRlc

end SrsLte
