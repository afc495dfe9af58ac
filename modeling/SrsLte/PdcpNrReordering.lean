import SrsLte.PdcpNr
import SrsLte.PdcpLte
import SrsLte.IntHelpers
import Mathlib.Data.List.TakeWhile

/-!
# Reordering in the NR PDCP entity

The reorder queue is sorted and never holds a COUNT below RX_DELIV, and RCVD_COUNT is the COUNT of
the sender for every PDU within the window. The expiry of t-Reordering delivers everything below
RX_REORD but leaves RX_DELIV where it was, so the order of delivery is that of the COUNTs as long
as no PDU arrives in the gap between RX_DELIV and the RX_REORD of an earlier expiry.
-/

namespace SrsLte
namespace PdcpEntityNr

open Word IntHelpers

variable (sec : SecurityLib)

/-- `pdu` is a data PDU of entity `b` with COUNT `count`. -/
def Carries (b : PdcpEntityBase) (count : ℕ) (pdu : Bytes) : Prop :=
  ∃ payload, pdu = dataHeader b count ++ payload

variable {b : PdcpEntityBase} {count lo floor : ℕ} {pdu sdu : Bytes} {e e' : PdcpEntityNr}
  {q : List (ℕ × Bytes)}

section

variable (hsn : b.cfg.snLen = 12 ∨ b.cfg.snLen = 18)
include hsn

theorem sn_eq_mod (count : ℕ) :
    b.sn count = count % 2 ^ b.cfg.snLen := by
  unfold PdcpEntityBase.sn
  rcases hsn with h | h
  · rw [h]
    exact Nat.and_two_pow_sub_one_eq_mod count 12
  · rw [h]
    exact Nat.and_two_pow_sub_one_eq_mod count 18

theorem length_dataHeader (count : ℕ) : (dataHeader b count).length = b.cfg.hdrLenBytes := by
  unfold dataHeader PdcpConfig.hdrLenBytes
  rcases hsn with h | h
  · rw [h]
    cases b.isDrb <;> rfl
  · rw [h]
    rfl

theorem carries_packDataPdu
    (stack : Mac) (count : ℕ) (sdu : ByteBuffer) (hroom : b.cfg.hdrLenBytes ≤ sdu.headroom) :
    Carries b count (packDataPdu sec b stack count sdu).msg := by
  have hlen := length_dataHeader hsn count
  unfold packDataPdu
  simp only [writeDataHeader]
  rw [dif_pos (show (dataHeader b count).length ≤ _ from hlen ▸ hroom)]
  unfold appendMac
  split_ifs
  · exact ⟨_, List.append_assoc _ _ _⟩
  · exact ⟨_, rfl⟩

end

theorem uint8ToUint16_cons (x y : UInt8) (rest : Bytes) :
    uint8ToUint16 (x :: y :: rest) = x.toNat * 2 ^ 8 + y.toNat := by
  change x.toNat <<< 8 ||| y.toNat = _
  rw [← Nat.shiftLeft_add_eq_or_of_lt y.toNat_lt, Nat.shiftLeft_eq]

theorem uint8ToUint24_cons (x y z : UInt8) (rest : Bytes) :
    uint8ToUint24 (x :: y :: z :: rest) = x.toNat * 2 ^ 16 + y.toNat * 2 ^ 8 + z.toNat := by
  have hy : y.toNat <<< 8 < 2 ^ 16 := by
    have := y.toNat_lt
    rw [Nat.shiftLeft_eq]
    omega
  change x.toNat <<< 16 ||| y.toNat <<< 8 ||| z.toNat = _
  rw [← Nat.shiftLeft_add_eq_or_of_lt hy, ← Nat.shiftLeft_eq, ← Nat.shiftLeft_eq]
  have hsum : x.toNat <<< 16 + y.toNat <<< 8 = (x.toNat * 2 ^ 8 + y.toNat) <<< 8 := by
    simp only [Nat.shiftLeft_eq]
    omega
  rw [hsum, ← Nat.shiftLeft_add_eq_or_of_lt z.toNat_lt]

theorem readDataHeader_eq {b' : PdcpEntityBase} (hsn : b.cfg.snLen = 12 ∨ b.cfg.snLen = 18)
    (hlen : b'.cfg.snLen = b.cfg.snLen) (hpdu : Carries b count pdu) :
    readDataHeader b' pdu = count % 2 ^ b.cfg.snLen := by
  obtain ⟨payload, rfl⟩ := hpdu
  have hsn' : b'.cfg.snLen = 12 ∨ b'.cfg.snLen = 18 := hlen ▸ hsn
  have hflag : ∀ x : UInt8, x.toNat < 128 → (x ||| 0x80).toNat = x.toNat + 128 := by
    intro x hx
    rw [UInt8.toNat_or, Nat.or_comm]
    exact (Nat.two_pow_add_eq_or_of_lt (i := 7) hx 1).symm.trans (Nat.add_comm _ _)
  unfold readDataHeader dataHeader
  rw [hlen, sn_eq_mod hsn]
  rcases hsn with h | h
  · rw [h]
    simp only [↓reduceIte, sn_eq_mod hsn', hlen, h]
    have hhi := toNat_byte (count % 2 ^ 12) 8
    have hlo := toNat_lowByte (count % 2 ^ 12)
    cases b.isDrb
    · simp only [uint16ToUint8, Bool.false_eq_true, if_false, List.cons_append, List.nil_append,
        uint8ToUint16_cons]
      rw [hlo, hhi]
      omega
    · simp only [uint16ToUint8, if_true, setDFlag, List.cons_append, List.nil_append,
        uint8ToUint16_cons]
      rw [hlo, hflag _ (by omega), hhi]
      omega
  · rw [h]
    have hhi := toNat_byte (count % 2 ^ 18) 16
    have hmid := toNat_byte (count % 2 ^ 18) 8
    have hlo := toNat_lowByte (count % 2 ^ 18)
    simp only [show ¬ 18 = 12 by decide, ↓reduceIte, sn_eq_mod hsn', hlen, h, uint24ToUint8,
      setDFlag, List.cons_append, List.nil_append, uint8ToUint24_cons]
    rw [hlo, hmid, hflag _ (by omega), hhi]
    omega

structure Configured (e : PdcpEntityNr) : Prop where
  snLen : e.cfg.snLen = 12 ∨ e.cfg.snLen = 18
  windowSize : e.windowSize = 2 ^ (e.cfg.snLen - 1)

theorem rcvdCount_eq (hcfg : Configured e) (hcount : count < 2 ^ 32)
    (hlo : e.rxDeliv ≤ count + 2 ^ (e.cfg.snLen - 1))
    (hhi : count < e.rxDeliv + 2 ^ (e.cfg.snLen - 1)) :
    e.rcvdCount (count % 2 ^ e.cfg.snLen) = count := by
  obtain ⟨hsn, hwin⟩ := hcfg
  have hcountOf (hfn : ℕ) : e.countOf hfn (count % 2 ^ e.cfg.snLen) =
      (hfn * 2 ^ e.cfg.snLen + count % 2 ^ e.cfg.snLen) % 2 ^ 32 :=
    PdcpEntityLte.countOf_of_snLen rfl (by omega) (Nat.mod_lt _ (Nat.two_pow_pos _)) hfn
  unfold rcvdCount
  simp only [hcountOf]
  rw [sn_eq_mod hsn, hwin, PdcpEntityBase.hfn, Nat.shiftRight_eq_div_pow]
  unfold sub32
  rcases hsn with h | h
  · rw [h] at hlo hhi ⊢
    split_ifs <;> omega
  · rw [h] at hlo hhi ⊢
    split_ifs <;> omega

/-- A queue sorted by COUNT whose COUNTs are 32-bit values not below `lo`. -/
def SortedFrom (lo : ℕ) (q : List (ℕ × Bytes)) : Prop :=
  q.Pairwise (fun p p' => p.1 < p'.1) ∧ ∀ p ∈ q, lo ≤ p.1 ∧ p.1 < 2 ^ 32

theorem sortedFrom_nil (lo : ℕ) : SortedFrom lo [] :=
  ⟨List.Pairwise.nil, List.forall_mem_nil _⟩

theorem SortedFrom.sublist {q' : List (ℕ × Bytes)} (h : SortedFrom lo q)
    (hsub : q'.Sublist q) : SortedFrom lo q' :=
  ⟨h.1.sublist hsub, fun _ hp => h.2 _ (hsub.subset hp)⟩

theorem SortedFrom.of_cons {p : ℕ × Bytes}
    (h : SortedFrom lo (p :: q)) : SortedFrom (p.1 + 1) q := by
  obtain ⟨hhead, htail⟩ := List.pairwise_cons.mp h.1
  exact ⟨htail, fun p' hp' => ⟨hhead p' hp', (h.2 p' (List.mem_cons_of_mem _ hp')).2⟩⟩

theorem mem_storePdu {p : ℕ × Bytes} :
    p ∈ storePdu count sdu q ↔ p = (count, sdu) ∨ p ∈ q := by
  induction q with
  | nil => simp [storePdu]
  | cons p' q ih =>
    unfold storePdu
    split_ifs
    · exact List.mem_cons
    · rw [List.mem_cons, ih, List.mem_cons]
      exact or_left_comm

theorem sortedFrom_storePdu (h : SortedFrom lo q) (hlo : lo ≤ count) (hcount : count < 2 ^ 32)
    (hnew : ∀ p ∈ q, p.1 ≠ count) : SortedFrom lo (storePdu count sdu q) := by
  refine ⟨?_, fun p hp => ?_⟩
  · obtain ⟨hsorted, -⟩ := h
    induction q with
    | nil => exact List.pairwise_singleton _ _
    | cons p q ih =>
      obtain ⟨hhead, htail⟩ := List.pairwise_cons.mp hsorted
      unfold storePdu
      split_ifs with hlt
      · refine List.pairwise_cons.mpr ⟨fun p' hp' => ?_, hsorted⟩
        rcases List.mem_cons.mp hp' with rfl | hp'
        · exact hlt
        · exact hlt.trans (hhead p' hp')
      · have hp := hnew p List.mem_cons_self
        refine List.pairwise_cons.mpr ⟨fun p' hp' => ?_,
          ih (List.forall_mem_cons.mp hnew).2 htail⟩
        rcases mem_storePdu.mp hp' with rfl | hp'
        · exact lt_of_le_of_ne (Nat.le_of_not_lt hlt) hp
        · exact hhead p' hp'
  · rcases mem_storePdu.mp hp with rfl | hp
    · exact ⟨hlo, hcount⟩
    · exact h.2 p hp

/-- What the delivery loop does: it takes a prefix off the queue, moves RX_DELIV past it and
leaves the COUNTs not below RX_DELIV; it overflows only with an empty queue. -/
theorem deliverConsecutive_spec {d : ℕ} {o : Bool} (hd : d < 2 ^ 32) (hq : SortedFrom d q) :
    let r := deliverConsecutive d o q
    q = r.2.2.2 ++ r.2.2.1 ∧ r.1 < 2 ^ 32 ∧ SortedFrom r.1 r.2.2.1 ∧
      (r.2.1 = true → o = true ∨ r.2.2.1 = []) ∧ (r.2.1 = false → d ≤ r.1) ∧
      (∀ p ∈ r.2.2.2, r.2.1 = false → p.1 < r.1) ∧ (o = true → r.2.1 = true) := by
  induction q generalizing d o with
  | nil =>
    exact ⟨rfl, hd, hq, fun _ => Or.inr rfl, fun _ => Nat.le_refl d,
      List.forall_mem_nil _, id⟩
  | cons p q ih =>
    unfold deliverConsecutive
    by_cases hp : p.1 = d
    · cases o with
      | true =>
        simp only [hp, if_true]
        exact ⟨rfl, hd, hq, fun _ => Or.inl trivial, fun _ => Nat.le_refl d,
          List.forall_mem_nil _, id⟩
      | false =>
        have hq' := hq.of_cons
        rw [hp] at hq'
        simp only [hp, if_true, Bool.false_eq_true, if_false]
        by_cases hwrap : d + 1 = 2 ^ 32
        · -- nothing lies above the last COUNT
          have hnil : q = [] := by
            cases q with
            | nil => rfl
            | cons p' q => have := hq'.2 p' List.mem_cons_self; omega
          subst hnil
          simp only [hwrap, deliverConsecutive]
          exact ⟨rfl, by decide, sortedFrom_nil _, fun _ => Or.inr trivial, by simp, by simp,
            fun _ => rfl⟩
        · have hnext : (d + 1) % 2 ^ 32 = d + 1 := Nat.mod_eq_of_lt (by omega)
          have hne : decide (d + 1 = 0) = false := by simp
          rw [hnext, hne]
          obtain ⟨hsplit, hlt, hrest, hover, hle, hout, -⟩ := ih (o := false) (by omega) hq'
          refine ⟨by rw [List.cons_append, ← hsplit], hlt, hrest,
            fun h => (hover h).imp Bool.false_ne_true id,
            fun h => (Nat.le_succ d).trans (hle h), fun p' hp' h => ?_, fun h => h.elim⟩
          rcases List.mem_cons.mp hp' with rfl | hp'
          · rw [hp]
            exact hle h
          · exact hout p' hp' h
    · simp only [hp, if_false]
      exact ⟨rfl, hd, hq, fun h => Or.inl h, fun _ => Nat.le_refl d,
        List.forall_mem_nil _, id⟩

structure QueueInv (e : PdcpEntityNr) : Prop where
  deliv_lt : e.rxDeliv < 2 ^ 32
  queue : SortedFrom e.rxDeliv e.reorderQueue

/-- Everything still to be delivered lies at or above `floor` and RX_DELIV. -/
structure InOrder (floor : ℕ) (e : PdcpEntityNr) : Prop where
  overflowed : e.rxOverflow = true → e.reorderQueue = []
  queue : ∀ p ∈ e.reorderQueue, floor ≤ p.1

/-- A step from `e` to `e'` delivers `out` in order, all of it between what was delivered before
and what is still to come. -/
structure DeliversInOrder (floor : ℕ) (e : PdcpEntityNr) (floor' : ℕ) (e' : PdcpEntityNr)
    (out : List (ℕ × Bytes)) : Prop where
  sorted : out.Pairwise fun p p' => p.1 < p'.1
  above : ∀ p ∈ out, e.rxOverflow = false ∧ floor ≤ p.1 ∧ e.rxDeliv ≤ p.1
  below : ∀ p ∈ out, e'.rxOverflow = false → p.1 < max floor' e'.rxDeliv
  overflow : e.rxOverflow = true → e'.rxOverflow = true
  mono : e'.rxOverflow = false → max floor e.rxDeliv ≤ max floor' e'.rxDeliv

theorem deliverAllConsecutiveCounts_spec (hq : QueueInv e) :
    let r := e.deliverAllConsecutiveCounts
    QueueInv r.1 ∧ e.reorderQueue = r.2 ++ r.1.reorderQueue ∧
      (r.1.rxOverflow = true → e.rxOverflow = true ∨ r.1.reorderQueue = []) ∧
      (r.1.rxOverflow = false → e.rxDeliv ≤ r.1.rxDeliv) ∧
      (∀ p ∈ r.2, r.1.rxOverflow = false → p.1 < r.1.rxDeliv) ∧
      (e.rxOverflow = true → r.1.rxOverflow = true) := by
  obtain ⟨hsplit, hlt, hrest, hover, hle, hout, hstay⟩ :=
    deliverConsecutive_spec (o := e.rxOverflow) hq.deliv_lt hq.queue
  exact ⟨⟨hlt, hrest⟩, hsplit, hover, hle, hout, hstay⟩

theorem deliversInOrder_of_split {floor' : ℕ} {out : List (ℕ × Bytes)}
    (hq : SortedFrom e.rxDeliv q) (hfloor : ∀ p ∈ q, floor ≤ p.1)
    (hsplit : q = out ++ e'.reorderQueue) (hno : e.rxOverflow = true → q = [])
    (hover : e.rxOverflow = true → e'.rxOverflow = true)
    (hmono : e'.rxOverflow = false → max floor e.rxDeliv ≤ max floor' e'.rxDeliv)
    (hbelow : ∀ p ∈ out, e'.rxOverflow = false → p.1 < max floor' e'.rxDeliv) :
    DeliversInOrder floor e floor' e' out := by
  subst hsplit
  refine ⟨(List.pairwise_append.mp hq.1).1, fun p hp => ?_, hbelow, hover, hmono⟩
  have hp' := List.mem_append_left e'.reorderQueue hp
  refine ⟨?_, hfloor p hp', (hq.2 p hp').1⟩
  cases ho : e.rxOverflow with
  | false => rfl
  | true => exact absurd (hno ho ▸ hp') List.not_mem_nil

theorem handleReorderingTimer_eq (e : PdcpEntityNr) : ∃ reord running,
    e.handleReorderingTimer = { e with rxReord := reord, reorderingTimerRunning := running } := by
  unfold handleReorderingTimer
  dsimp only
  split_ifs <;> exact ⟨_, _, rfl⟩

/-- The entity after `reorder_queue[count] = pdu` and the update of RX_NEXT. -/
def stored (e : PdcpEntityNr) (count : ℕ) (sdu : Bytes) : PdcpEntityNr :=
  { e with
    reorderQueue := storePdu count sdu e.reorderQueue
    rxNext := if count ≥ e.rxNext then (count + 1) % 2 ^ 32 else e.rxNext }

theorem stored_eq (e : PdcpEntityNr) (count : ℕ) (sdu : Bytes) :
    (if count ≥ e.rxNext then
      { e with reorderQueue := storePdu count sdu e.reorderQueue, rxNext := (count + 1) % 2 ^ 32 }
      else { e with reorderQueue := storePdu count sdu e.reorderQueue }) = e.stored count sdu := by
  unfold stored
  split_ifs <;> rfl

theorem acceptPdu_cases (e : PdcpEntityNr) (count : ℕ) (sdu : Bytes) :
    e.acceptPdu count sdu = (e, []) ∨
      e.rxDeliv ≤ count ∧ (∀ p ∈ e.reorderQueue, p.1 ≠ count) ∧
        (count ≠ e.rxDeliv ∧
            e.acceptPdu count sdu = ((e.stored count sdu).handleReorderingTimer, []) ∨
          count = e.rxDeliv ∧ e.acceptPdu count sdu =
            ((e.stored count sdu).deliverAllConsecutiveCounts.1.handleReorderingTimer,
              (e.stored count sdu).deliverAllConsecutiveCounts.2)) := by
  by_cases hlt : count < e.rxDeliv
  · left
    rw [acceptPdu, if_pos hlt]
  by_cases hany : e.reorderQueue.any (·.1 = count)
  · left
    rw [acceptPdu, if_neg hlt, if_pos hany]
  right
  have hnew : ∀ p ∈ e.reorderQueue, p.1 ≠ count := fun p hp h =>
    hany (List.any_eq_true.mpr ⟨p, hp, decide_eq_true h⟩)
  refine ⟨Nat.le_of_not_lt hlt, hnew, ?_⟩
  by_cases heq : count = e.rxDeliv
  · right
    refine ⟨heq, ?_⟩
    rw [acceptPdu, if_neg hlt, if_neg hany]
    simp only [stored_eq]
    rw [if_pos (show count = (e.stored count sdu).rxDeliv from heq)]
  · left
    refine ⟨heq, ?_⟩
    rw [acceptPdu, if_neg hlt, if_neg hany]
    simp only [stored_eq]
    rw [if_neg (show ¬ count = (e.stored count sdu).rxDeliv from heq)]

theorem queueInv_handleReorderingTimer (h : QueueInv e) :
    QueueInv e.handleReorderingTimer := by
  obtain ⟨reord, running, heq⟩ := e.handleReorderingTimer_eq
  rw [heq]
  exact ⟨h.deliv_lt, h.queue⟩

theorem queueInv_stored (h : QueueInv e) (sdu : Bytes)
    (hcount : count < 2 ^ 32) (hle : e.rxDeliv ≤ count) (hnew : ∀ p ∈ e.reorderQueue, p.1 ≠ count) :
    QueueInv (e.stored count sdu) :=
  ⟨h.deliv_lt, sortedFrom_storePdu h.queue hle hcount hnew⟩

theorem queueInv_acceptPdu (h : QueueInv e)
    (hcount : count < 2 ^ 32) : QueueInv (e.acceptPdu count sdu).1 := by
  rcases e.acceptPdu_cases count sdu with heq | ⟨hle, hnew, ⟨-, heq⟩ | ⟨-, heq⟩⟩
  · rw [heq]
    exact h
  · rw [heq]
    exact queueInv_handleReorderingTimer (queueInv_stored h sdu hcount hle hnew)
  · rw [heq]
    exact queueInv_handleReorderingTimer
      (deliverAllConsecutiveCounts_spec (queueInv_stored h sdu hcount hle hnew)).1

theorem sortedFrom_dropWhile {r : ℕ} (h : SortedFrom lo q) :
    ∀ p ∈ q.dropWhile fun p => p.1 < r, r ≤ p.1 := by
  induction q with
  | nil => exact List.forall_mem_nil _
  | cons p q ih =>
    by_cases hp : p.1 < r
    · rw [List.dropWhile_cons_of_pos (by simpa using hp)]
      exact ih (h.sublist (List.sublist_cons_self p q))
    · rw [List.dropWhile_cons_of_neg (by simpa using hp)]
      intro p' hp'
      have hle := Nat.le_of_not_lt hp
      rcases List.mem_cons.mp hp' with rfl | hp'
      · exact hle
      · exact hle.trans (List.pairwise_cons.mp h.1 |>.1 p' hp').le

/-- The queue after the first loop of `reordering_callback`. -/
def released (e : PdcpEntityNr) : PdcpEntityNr :=
  { e with reorderQueue := e.reorderQueue.dropWhile fun p => p.1 < e.rxReord }

theorem queueInv_released (h : QueueInv e) : QueueInv e.released :=
  ⟨h.deliv_lt, h.queue.sublist (List.dropWhile_sublist _)⟩

theorem reorderingCallback_eq (e : PdcpEntityNr) : ∃ reord running,
    e.reorderingCallback.1 = { e.released.deliverAllConsecutiveCounts.1 with
      rxReord := reord, reorderingTimerRunning := running } := by
  unfold reorderingCallback released
  dsimp only
  split_ifs <;> exact ⟨_, _, rfl⟩

theorem queueInv_reorderingCallback (h : QueueInv e) :
    QueueInv e.reorderingCallback.1 := by
  obtain ⟨reord, running, heq⟩ := e.reorderingCallback_eq
  have h' := (deliverAllConsecutiveCounts_spec (queueInv_released h)).1
  rw [heq]
  exact ⟨h'.deliv_lt, h'.queue⟩

theorem deliversInOrder_acceptPdu (hq : QueueInv e) (ho : InOrder floor e) (hcount : count < 2 ^ 32)
    (hover : e.rxOverflow = false) (htime : count < e.rxDeliv ∨ floor ≤ count) :
    InOrder floor (e.acceptPdu count sdu).1 ∧
      DeliversInOrder floor e floor (e.acceptPdu count sdu).1 (e.acceptPdu count sdu).2 := by
  rcases e.acceptPdu_cases count sdu with heq | ⟨hle, hnew, hcases⟩
  · rw [heq]
    exact ⟨ho, List.Pairwise.nil, by simp, by simp, id, fun _ => Nat.le_refl _⟩
  have hfloor : floor ≤ count := htime.resolve_left (Nat.not_lt.mpr hle)
  have hq' := queueInv_stored hq sdu hcount hle hnew
  have hfloor' : ∀ p ∈ (e.stored count sdu).reorderQueue, floor ≤ p.1 := by
    intro p hp
    rcases mem_storePdu.mp hp with rfl | hp
    · exact hfloor
    · exact ho.queue p hp
  rcases hcases with ⟨-, heq⟩ | ⟨-, heq⟩
  · obtain ⟨reord, running, htimer⟩ := (e.stored count sdu).handleReorderingTimer_eq
    rw [heq, htimer]
    refine ⟨⟨fun h => ?_, hfloor'⟩, List.Pairwise.nil, by simp, by simp, id, fun _ => Nat.le_refl _⟩
    exact absurd (hover.symm.trans h) (by simp)
  · obtain ⟨hinv, hsplit, hempty, hdeliv, hbelow, -⟩ := deliverAllConsecutiveCounts_spec hq'
    obtain ⟨reord, running, htimer⟩ :=
      (e.stored count sdu).deliverAllConsecutiveCounts.1.handleReorderingTimer_eq
    have hrest : ∀ p ∈ (e.stored count sdu).deliverAllConsecutiveCounts.1.reorderQueue,
        floor ≤ p.1 := fun p hp => hfloor' p (hsplit ▸ List.mem_append_right _ hp)
    rw [heq, htimer]
    refine ⟨⟨fun h => (hempty h).resolve_left fun h' => ?_, hrest⟩, ?_⟩
    · exact absurd (hover.symm.trans h') (by simp)
    · refine deliversInOrder_of_split hq'.queue hfloor' hsplit ?_ ?_ ?_ ?_
      · exact fun h => absurd (hover.symm.trans h) (by simp)
      · exact fun h => absurd (hover.symm.trans h) (by simp)
      · exact fun h => max_le_max (Nat.le_refl floor) (hdeliv h)
      · exact fun p hp h => lt_max_of_lt_right (hbelow p hp h)

theorem deliversInOrder_reorderingCallback (hq : QueueInv e) (ho : InOrder floor e) :
    InOrder (max floor e.rxReord) e.reorderingCallback.1 ∧
      DeliversInOrder floor e (max floor e.rxReord) e.reorderingCallback.1
        e.reorderingCallback.2 := by
  obtain ⟨reord, running, heq⟩ := e.reorderingCallback_eq
  obtain ⟨hinv, hsplit, hempty, hdeliv, hbelow, hstay⟩ :=
    deliverAllConsecutiveCounts_spec (queueInv_released hq)
  have hout : e.reorderingCallback.2 = e.reorderQueue.takeWhile (fun p => p.1 < e.rxReord) ++
      e.released.deliverAllConsecutiveCounts.2 := rfl
  have hsplit' : e.reorderQueue = e.reorderingCallback.2 ++
      e.released.deliverAllConsecutiveCounts.1.reorderQueue := by
    rw [hout, List.append_assoc, ← hsplit]
    exact List.takeWhile_append_dropWhile.symm
  have hfloor : ∀ p ∈ e.released.deliverAllConsecutiveCounts.1.reorderQueue,
      max floor e.rxReord ≤ p.1 := by
    intro p hp
    refine max_le (ho.queue p (hsplit' ▸ List.mem_append_right _ hp)) ?_
    have hmem : p ∈ e.released.reorderQueue := hsplit ▸ List.mem_append_right _ hp
    exact sortedFrom_dropWhile hq.queue p hmem
  refine ⟨⟨fun h => ?_, ?_⟩, ?_⟩
  · rw [heq] at h ⊢
    refine (hempty h).elim (fun h' => ?_) id
    have hnil : e.reorderQueue = [] := ho.overflowed h'
    rw [hnil] at hsplit'
    exact (List.append_eq_nil_iff.mp hsplit'.symm).2
  · rw [heq]
    exact hfloor
  · refine deliversInOrder_of_split hq.queue ho.queue ?_ ho.overflowed ?_ ?_ ?_
    · rw [heq]
      exact hsplit'
    · rw [heq]
      exact hstay
    · rw [heq]
      exact fun h => max_le_max (le_max_left _ _) (hdeliv h)
    · intro p hp h
      rw [heq] at h ⊢
      rw [hout] at hp
      rcases List.mem_append.mp hp with hp | hp
      · have := List.mem_takeWhile_imp hp
        exact lt_max_of_lt_left (lt_max_of_lt_right (by simpa using this))
      · exact lt_max_of_lt_right (hbelow p hp h)

/-- What happens to a receiver: a PDU of the sender's COUNT `count` arrives, or t-Reordering
expires. -/
inductive NrEvent
  | receive (count : ℕ) (stack : Mac) (pdu : Bytes)
  | expiry

def step (e : PdcpEntityNr) : NrEvent → NrRxResult
  | .receive _ stack pdu => e.writePdu sec stack pdu
  | .expiry => ⟨e.timerExpired.1, none, e.timerExpired.2⟩

def run (e : PdcpEntityNr) : List NrEvent → PdcpEntityNr × List (ℕ × Bytes)
  | [] => (e, [])
  | ev :: evs =>
    ((run (step sec e ev).entity evs).1,
      (step sec e ev).delivered ++ (run (step sec e ev).entity evs).2)

/-- Each PDU that arrives is one of sender `b`, with its COUNT within the window of RX_DELIV. -/
def WithinWindow (b : PdcpEntityBase) : PdcpEntityNr → List NrEvent → Prop
  | _, [] => True
  | e, .expiry :: evs => WithinWindow b (step sec e .expiry).entity evs
  | e, .receive count stack pdu :: evs =>
    (count < 2 ^ 32 ∧ Carries b count pdu ∧ e.rxDeliv ≤ count + 2 ^ (b.cfg.snLen - 1) ∧
      count < e.rxDeliv + 2 ^ (b.cfg.snLen - 1)) ∧
      WithinWindow b (step sec e (.receive count stack pdu)).entity evs

def CountsAgree : PdcpEntityNr → List NrEvent → Prop
  | _, [] => True
  | e, .expiry :: evs => CountsAgree (step sec e .expiry).entity evs
  | e, .receive count stack pdu :: evs =>
    (∀ k ∈ (step sec e (.receive count stack pdu)).rcvdCount, k = count) ∧
      CountsAgree (step sec e (.receive count stack pdu)).entity evs

def raise (floor : ℕ) (e : PdcpEntityNr) : ℕ :=
  if e.reorderingTimerRunning ∧ e.tReordering > 0 then max floor e.rxReord else floor

/-- No PDU arrives with a COUNT between RX_DELIV and the RX_REORD of an earlier expiry, and none
after RX_DELIV has overflowed. -/
def OnTime (floor : ℕ) : PdcpEntityNr → List NrEvent → Prop
  | _, [] => True
  | e, .expiry :: evs => OnTime (raise floor e) (step sec e .expiry).entity evs
  | e, .receive count stack pdu :: evs =>
    (e.rxOverflow = false ∧ (count < e.rxDeliv ∨ floor ≤ count)) ∧
      OnTime floor (step sec e (.receive count stack pdu)).entity evs

def SameConfig (e e' : PdcpEntityNr) : Prop :=
  e'.cfg = e.cfg ∧ e'.windowSize = e.windowSize

theorem sameConfig_handleReorderingTimer (e : PdcpEntityNr) :
    SameConfig e e.handleReorderingTimer := by
  obtain ⟨reord, running, heq⟩ := e.handleReorderingTimer_eq
  rw [heq]
  exact ⟨rfl, rfl⟩

theorem sameConfig_acceptPdu (e : PdcpEntityNr) (count : ℕ) (sdu : Bytes) :
    SameConfig e (e.acceptPdu count sdu).1 := by
  rcases e.acceptPdu_cases count sdu with heq | ⟨-, -, ⟨-, heq⟩ | ⟨-, heq⟩⟩
  · rw [heq]
    exact ⟨rfl, rfl⟩
  · rw [heq]
    exact (e.stored count sdu).sameConfig_handleReorderingTimer
  · rw [heq]
    exact (e.stored count sdu).deliverAllConsecutiveCounts.1.sameConfig_handleReorderingTimer

def expired (e : PdcpEntityNr) : PdcpEntityNr := { e with reorderingTimerRunning := false }

theorem timerExpired_cases (e : PdcpEntityNr) :
    (e.reorderingTimerRunning = true ∧ e.tReordering > 0) ∧
        e.timerExpired = e.expired.reorderingCallback ∨
      ¬ (e.reorderingTimerRunning = true ∧ e.tReordering > 0) ∧
        ∃ running, e.timerExpired = ({ e with reorderingTimerRunning := running }, []) := by
  by_cases hrun : e.reorderingTimerRunning = true
  · by_cases hcb : e.tReordering > 0
    · left
      refine ⟨⟨hrun, hcb⟩, ?_⟩
      rw [timerExpired, if_pos hrun]
      exact if_pos hcb
    · right
      refine ⟨fun h => hcb h.2, false, ?_⟩
      rw [timerExpired, if_pos hrun]
      exact if_neg hcb
  · right
    refine ⟨fun h => hrun h.1, e.reorderingTimerRunning, ?_⟩
    rw [timerExpired, if_neg hrun]

theorem sameConfig_timerExpired (e : PdcpEntityNr) : SameConfig e e.timerExpired.1 := by
  rcases e.timerExpired_cases with ⟨-, heq⟩ | ⟨-, running, heq⟩
  · obtain ⟨reord, running, heq'⟩ := e.expired.reorderingCallback_eq
    rw [heq, heq']
    exact ⟨rfl, rfl⟩
  · rw [heq]
    exact ⟨rfl, rfl⟩

theorem writePdu_cases (e : PdcpEntityNr) (stack : Mac) (pdu : Bytes) :
    (e.writePdu sec stack pdu).entity = e ∧ (e.writePdu sec stack pdu).delivered = [] ∨
      ∃ sdu, (e.writePdu sec stack pdu).entity =
          (e.acceptPdu (e.rcvdCount (readDataHeader e.toPdcpEntityBase pdu)) sdu).1 ∧
        (e.writePdu sec stack pdu).delivered =
          (e.acceptPdu (e.rcvdCount (readDataHeader e.toPdcpEntityBase pdu)) sdu).2 := by
  unfold writePdu
  dsimp only
  split_ifs
  · exact Or.inl ⟨rfl, rfl⟩
  · exact Or.inr ⟨_, rfl, rfl⟩
  · exact Or.inl ⟨rfl, rfl⟩

theorem writePdu_rcvdCount (e : PdcpEntityNr) (stack : Mac) (pdu : Bytes) :
    ∀ k ∈ (e.writePdu sec stack pdu).rcvdCount,
      k = e.rcvdCount (readDataHeader e.toPdcpEntityBase pdu) := by
  unfold writePdu
  dsimp only
  split_ifs <;> simp

/-- The receiver of sender `b` between two events. -/
structure Receiving (b : PdcpEntityBase) (e : PdcpEntityNr) : Prop where
  configured : Configured e
  snLen : e.cfg.snLen = b.cfg.snLen
  queue : QueueInv e

theorem receiving_init (hsn : b.cfg.snLen = 12 ∨ b.cfg.snLen = 18)
    (tReordering : ℕ) : Receiving b (init b.peer tReordering) where
  configured := ⟨hsn, by
    change 1 <<< (b.cfg.snLen - 1) = 2 ^ (b.cfg.snLen - 1)
    rw [Nat.shiftLeft_eq, Nat.one_mul]⟩
  snLen := rfl
  queue := ⟨Nat.two_pow_pos 32, sortedFrom_nil 0⟩

theorem Receiving.congr (h : Receiving b e)
    (hcfg : SameConfig e e') (hq : QueueInv e') : Receiving b e' := by
  obtain ⟨hsame, hwin⟩ := hcfg
  refine ⟨⟨?_, ?_⟩, ?_, hq⟩
  · rw [hsame]
    exact h.configured.snLen
  · rw [hwin, hsame]
    exact h.configured.windowSize
  · rw [hsame]
    exact h.snLen

theorem receiving_expiry (h : Receiving b e) :
    Receiving b (step sec e .expiry).entity := by
  refine h.congr e.sameConfig_timerExpired ?_
  change QueueInv e.timerExpired.1
  rcases e.timerExpired_cases with ⟨-, heq⟩ | ⟨-, running, heq⟩
  · rw [heq]
    exact queueInv_reorderingCallback (e := e.expired) ⟨h.queue.deliv_lt, h.queue.queue⟩
  · rw [heq]
    exact ⟨h.queue.deliv_lt, h.queue.queue⟩

theorem Receiving.rcvdCount_readDataHeader (h : Receiving b e) (hcount : count < 2 ^ 32)
    (hpdu : Carries b count pdu) (hlo : e.rxDeliv ≤ count + 2 ^ (b.cfg.snLen - 1))
    (hhi : count < e.rxDeliv + 2 ^ (b.cfg.snLen - 1)) :
    e.rcvdCount (readDataHeader e.toPdcpEntityBase pdu) = count := by
  rw [readDataHeader_eq (h.snLen ▸ h.configured.snLen) h.snLen hpdu, ← h.snLen]
  rw [← h.snLen] at hlo hhi
  exact rcvdCount_eq h.configured hcount hlo hhi

theorem receiving_receive (h : Receiving b e) {stack : Mac}
    (hcount : e.rcvdCount (readDataHeader e.toPdcpEntityBase pdu) = count) (hlt : count < 2 ^ 32) :
    Receiving b (step sec e (.receive count stack pdu)).entity := by
  change Receiving b (e.writePdu sec stack pdu).entity
  rcases writePdu_cases sec e stack pdu with ⟨heq, -⟩ | ⟨sdu, heq, -⟩
  · rw [heq]
    exact h
  · rw [heq, hcount]
    exact h.congr (e.sameConfig_acceptPdu count sdu) (queueInv_acceptPdu h.queue hlt)

theorem run_receiving (evs : List NrEvent) (h : Receiving b e) (hwin : WithinWindow sec b e evs) :
    Receiving b (run sec e evs).1 ∧ CountsAgree sec e evs := by
  induction evs generalizing e with
  | nil => exact ⟨h, trivial⟩
  | cons ev evs ih =>
    cases ev with
    | expiry => exact ih (receiving_expiry sec h) hwin
    | receive count stack pdu =>
      obtain ⟨⟨hlt, hpdu, hlo, hhi⟩, hwin'⟩ := hwin
      have hcount := h.rcvdCount_readDataHeader hlt hpdu hlo hhi
      obtain ⟨hend, hagree⟩ := ih (receiving_receive sec h hcount hlt) hwin'
      exact ⟨hend, fun k hk => (writePdu_rcvdCount sec e stack pdu k hk).trans hcount, hagree⟩

theorem inOrder_expiry (hq : QueueInv e) (ho : InOrder floor e) :
    InOrder (raise floor e) (step sec e .expiry).entity ∧
      DeliversInOrder floor e (raise floor e) (step sec e .expiry).entity
        (step sec e .expiry).delivered := by
  change InOrder (raise floor e) e.timerExpired.1 ∧
    DeliversInOrder floor e (raise floor e) e.timerExpired.1 e.timerExpired.2
  rcases e.timerExpired_cases with ⟨hrun, heq⟩ | ⟨hrun, running, heq⟩
  · obtain ⟨ho', hd⟩ := deliversInOrder_reorderingCallback (e := e.expired)
      ⟨hq.deliv_lt, hq.queue⟩ (show InOrder floor e.expired from ⟨ho.overflowed, ho.queue⟩)
    rw [heq, raise, if_pos hrun]
    exact ⟨ho', hd.sorted, hd.above, hd.below, hd.overflow, hd.mono⟩
  · rw [heq, raise, if_neg hrun]
    exact ⟨⟨ho.overflowed, ho.queue⟩, List.Pairwise.nil, by simp, by simp, id,
      fun _ => Nat.le_refl _⟩

theorem inOrder_receive (hq : QueueInv e) (ho : InOrder floor e) (stack : Mac)
    (hcount : e.rcvdCount (readDataHeader e.toPdcpEntityBase pdu) = count) (hlt : count < 2 ^ 32)
    (hover : e.rxOverflow = false) (htime : count < e.rxDeliv ∨ floor ≤ count) :
    InOrder floor (step sec e (.receive count stack pdu)).entity ∧
      DeliversInOrder floor e floor (step sec e (.receive count stack pdu)).entity
        (step sec e (.receive count stack pdu)).delivered := by
  change InOrder floor (e.writePdu sec stack pdu).entity ∧
    DeliversInOrder floor e floor (e.writePdu sec stack pdu).entity
      (e.writePdu sec stack pdu).delivered
  rcases writePdu_cases sec e stack pdu with ⟨heq, hout⟩ | ⟨sdu, heq, hout⟩
  · rw [heq, hout]
    exact ⟨ho, List.Pairwise.nil, by simp, by simp, id, fun _ => Nat.le_refl _⟩
  · rw [heq, hout, hcount]
    exact deliversInOrder_acceptPdu hq ho hlt hover htime

theorem DeliversInOrder.trans {floor' floor'' : ℕ} {e'' : PdcpEntityNr}
    {out out' : List (ℕ × Bytes)} (h : DeliversInOrder floor e floor' e' out)
    (h' : DeliversInOrder floor' e' floor'' e'' out') :
    DeliversInOrder floor e floor'' e'' (out ++ out') where
  sorted := List.pairwise_append.mpr ⟨h.sorted, h'.sorted, fun p hp p' hp' => by
    obtain ⟨hover, hfloor, hdeliv⟩ := h'.above p' hp'
    exact lt_of_lt_of_le (h.below p hp hover) (max_le hfloor hdeliv)⟩
  above p hp := by
    rcases List.mem_append.mp hp with hp | hp
    · exact h.above p hp
    · obtain ⟨hover, hfloor, hdeliv⟩ := h'.above p hp
      have hle := (h.mono hover).trans (max_le hfloor hdeliv)
      refine ⟨?_, (le_max_left _ _).trans hle, (le_max_right _ _).trans hle⟩
      cases ho : e.rxOverflow with
      | false => rfl
      | true => exact absurd (hover.symm.trans (h.overflow ho)) (by simp)
  below p hp hover := by
    have hover' : e'.rxOverflow = false := by
      cases ho : e'.rxOverflow with
      | false => rfl
      | true => exact absurd (hover.symm.trans (h'.overflow ho)) (by simp)
    rcases List.mem_append.mp hp with hp | hp
    · exact lt_of_lt_of_le (h.below p hp hover') (h'.mono hover)
    · exact h'.below p hp hover
  overflow ho := h'.overflow (h.overflow ho)
  mono hover := by
    have hover' : e'.rxOverflow = false := by
      cases ho : e'.rxOverflow with
      | false => rfl
      | true => exact absurd (hover.symm.trans (h'.overflow ho)) (by simp)
    exact (h.mono hover').trans (h'.mono hover)

theorem run_inOrder (evs : List NrEvent)
    (h : Receiving b e) (ho : InOrder floor e) (hwin : WithinWindow sec b e evs)
    (htime : OnTime sec floor e evs) :
    ∃ floor', DeliversInOrder floor e floor' (run sec e evs).1 (run sec e evs).2 := by
  induction evs generalizing floor e with
  | nil =>
    exact ⟨floor, List.Pairwise.nil, by simp [run], by simp [run], id, fun _ => Nat.le_refl _⟩
  | cons ev evs ih =>
    cases ev with
    | expiry =>
      obtain ⟨ho', hd⟩ := inOrder_expiry sec h.queue ho
      obtain ⟨floor', hd'⟩ := ih (receiving_expiry sec h) ho' hwin htime
      exact ⟨floor', hd.trans hd'⟩
    | receive count stack pdu =>
      obtain ⟨⟨hlt, hpdu, hlo, hhi⟩, hwin'⟩ := hwin
      obtain ⟨⟨hover, hlate⟩, htime'⟩ := htime
      have hcount := h.rcvdCount_readDataHeader hlt hpdu hlo hhi
      obtain ⟨ho', hd⟩ :=
        inOrder_receive sec h.queue ho stack hcount hlt hover hlate
      obtain ⟨floor', hd'⟩ := ih (receiving_receive sec h hcount hlt) ho' hwin' htime'
      exact ⟨floor', hd.trans hd'⟩

/-- Over every run within the window whose PDUs are on time: COUNTs are delivered in strictly
increasing order, the queue never retains a COUNT below RX_DELIV, and every RCVD_COUNT is the COUNT
of the sender. -/
theorem run_strictly_increasing {b : PdcpEntityBase} (hsn : b.cfg.snLen = 12 ∨ b.cfg.snLen = 18)
    (tReordering : ℕ) (evs : List NrEvent) (hwin : WithinWindow sec b (init b.peer tReordering) evs)
    (htime : OnTime sec 0 (init b.peer tReordering) evs) :
    ((run sec (init b.peer tReordering) evs).2.map Prod.fst).Pairwise (· < ·) ∧
      (∀ p ∈ (run sec (init b.peer tReordering) evs).1.reorderQueue,
        (run sec (init b.peer tReordering) evs).1.rxDeliv ≤ p.1) ∧
      CountsAgree sec (init b.peer tReordering) evs := by
  have hrecv := receiving_init hsn tReordering
  obtain ⟨hend, hagree⟩ := run_receiving sec evs hrecv hwin
  have hstart : InOrder 0 (init b.peer tReordering) :=
    ⟨fun _ => rfl, List.forall_mem_nil _⟩
  obtain ⟨floor, hd⟩ := run_inOrder sec evs hrecv hstart hwin htime
  exact ⟨List.pairwise_map.mpr hd.sorted, fun p hp => (hend.queue.queue.2 p hp).1, hagree⟩

def nrDrb1 : PdcpEntityBase where
  cfg := { bearerId := 1, rbType := .isDrb, txDirection := .downlink, rxDirection := .uplink,
           snLen := 12 }
  doIntegrity := false
  doEncryption := false
  kRrcEnc := []
  kRrcInt := []
  kUpEnc := []
  kUpInt := []
  cipherAlgo := .eea0
  integAlgo := .eia0

def nullSecurity : SecurityLib where
  keystream := fun _ _ _ _ _ _ => 0
  mac := fun _ _ _ _ _ _ => ⟨[0, 0, 0, 0], length_zero_mac⟩

theorem one_byte_fits (x : UInt8) : 1020 + [x].length ≤ maxBufferSizeBytes := by
  change 1020 + 1 ≤ 97896 / 8 + 1020
  decide

/-- Arrival of the one-byte SDU `x` sent by `nrDrb1` with COUNT `count`. -/
def arrival (count : ℕ) (x : UInt8) : NrEvent :=
  .receive count ⟨[0, 0, 0, 0], length_zero_mac⟩
    (packDataPdu nullSecurity nrDrb1 ⟨[0, 0, 0, 0], length_zero_mac⟩ count
      ⟨1020, [x], one_byte_fits x⟩).msg

theorem carries_arrival (count : ℕ) (x : UInt8) : Carries nrDrb1 count
    (packDataPdu nullSecurity nrDrb1 ⟨[0, 0, 0, 0], length_zero_mac⟩ count
      ⟨1020, [x], one_byte_fits x⟩).msg :=
  carries_packDataPdu nullSecurity (Or.inl rfl) _ count _ (by change 2 ≤ 1020; decide)

theorem run_strictly_increasing_nrDrb1 :
    let evs := [arrival 1 11, .expiry, arrival 2 12]
    ((run nullSecurity (init nrDrb1.peer 500) evs).2.map Prod.fst).Pairwise (· < ·) ∧
      (∀ p ∈ (run nullSecurity (init nrDrb1.peer 500) evs).1.reorderQueue,
        (run nullSecurity (init nrDrb1.peer 500) evs).1.rxDeliv ≤ p.1) ∧
      CountsAgree nullSecurity (init nrDrb1.peer 500) evs := by
  refine run_strictly_increasing nullSecurity (Or.inl rfl) 500 _ ?_ ?_
  · exact ⟨⟨by decide, carries_arrival 1 11, by decide +kernel, by decide +kernel⟩,
      ⟨by decide, carries_arrival 2 12, by decide +kernel, by decide +kernel⟩, trivial⟩
  · exact ⟨⟨by decide +kernel, by decide +kernel⟩, ⟨by decide +kernel, by decide +kernel⟩, trivial⟩

/-- COUNT 0 arrives after the expiry that delivered COUNT 1. -/
theorem nrDrb1_delivers_backwards :
    WithinWindow nullSecurity nrDrb1 (init nrDrb1.peer 500) [arrival 1 11, .expiry, arrival 0 10] ∧
      (run nullSecurity (init nrDrb1.peer 500) [arrival 1 11, .expiry, arrival 0 10]).2 =
        [(1, [11]), (0, [10])] ∧
      ¬ ((run nullSecurity (init nrDrb1.peer 500)
        [arrival 1 11, .expiry, arrival 0 10]).2.map Prod.fst).Pairwise (· < ·) := by
  refine ⟨?_, by decide +kernel, by decide +kernel⟩
  exact ⟨⟨by decide, carries_arrival 1 11, by decide +kernel, by decide +kernel⟩,
    ⟨by decide, carries_arrival 0 10, by decide +kernel, by decide +kernel⟩, trivial⟩

end PdcpEntityNr
end SrsLte
