import Mathlib.Algebra.BigOperators.Group.List.Basic
import Mathlib.Data.Int.GCD
import SrsLte.CircularWalk
import SrsLte.Word

/-!
# Rate matching of the convolutional code

The coded bits of three streams go into a circular buffer by columns, with dummy bits in front, and
out of it in turn, some of them several times or not at all. On the way back soft values are
collected at the places of the buffer, where a value of its own says that nothing has come yet.
-/

namespace SrsLte

open Word CircularWalk

namespace RmConv

/-- `NCOLS`, and `NROWS_MAX` too. -/
def nCols : ℕ := 32

/-- `SRSLTE_TX_NULL`. -/
def txNull : ℕ := 100

/-- `SRSLTE_RX_NULL`. -/
def rxNull : ℤ := 10000

/-- `RM_PERM_CC`. -/
def permCc : List ℕ :=
  [1, 17, 9, 25, 5, 21, 13, 29, 3, 19, 11, 27, 7, 23, 15, 31,
    0, 16, 8, 24, 4, 20, 12, 28, 2, 18, 10, 26, 6, 22, 14, 30]

/-- `RM_PERM_CC_INV`. -/
def permCcInv : List ℕ :=
  [16, 0, 24, 8, 20, 4, 28, 12, 18, 2, 26, 10, 22, 6, 30, 14,
    17, 1, 25, 9, 21, 5, 29, 13, 19, 3, 27, 11, 23, 7, 31, 15]

/-- `nrows`, for a coded length. -/
def nRows (len : ℕ) : ℕ := sub32 (len / 3) 1 / nCols + 1

/-- `K_p`. -/
def kP (len : ℕ) : ℕ := nRows len * nCols

def nDummy (len : ℕ) : ℕ := kP len - len / 3

section Transmitter

variable {α : Type*}

/-- The sub-block interleaver of `srslte_rm_conv_tx`, where `null` stands for a dummy bit. -/
def interleave (null : α) (input : List α) (inLen : ℕ) : List α :=
  (List.range 3).flatMap fun s =>
    (List.range nCols).flatMap fun j =>
      (List.range (nRows inLen)).map fun i =>
        if i * nCols + permCc.getD j 0 < nDummy inLen then null
        else input.getD ((i * nCols + permCc.getD j 0 - nDummy inLen) * 3 + s) null

/-- `srslte_rm_conv_tx`. The bits are of any type with a value beside them for a dummy bit. -/
def rmConvTx [DecidableEq α] (null : α) (input : List α) (outLen : ℕ) : Option (List α) :=
  let inLen := input.length
  if nRows inLen > nCols then none
  else
    let tmp := interleave null input inLen
    walk (3 * kP inLen) outLen (fun j => tmp.getD j null = null)
      (fun output _ j => output ++ [tmp.getD j null]) (3 * kP inLen * (outLen + 1)) 0 0 []

end Transmitter

/-- A value of type `int16_t`. -/
def wrap16 (x : ℤ) : ℤ := x.bmod (2 ^ 16)

/-- Soft combining in the loop of `srslte_rm_conv_rx_s`. -/
def combine (acc x : ℤ) : ℤ :=
  if acc = rxNull then x else if x ≠ rxNull then wrap16 (acc + x) else acc

def readOut (o : ℤ) : ℤ := if o ≠ rxNull then o else 0

def isDummy (len j : ℕ) : Bool :=
  j % kP len % nRows len * nCols + permCc.getD (j % kP len / nRows len) 0 < nDummy len

/-- `srslte_rm_conv_rx_s`. -/
def rmConvRxS (input : List ℤ) (outLen : ℕ) : Option (List ℤ) :=
  if nRows outLen > nCols then none
  else
    (walk (3 * kP outLen) input.length (isDummy outLen)
      (fun tmp k j => tmp.set j (combine (tmp.getD j rxNull) (input.getD k 0)))
      (3 * kP outLen * (input.length + 1)) 0 0 (List.replicate (3 * kP outLen) rxNull)).map
    fun tmp =>
      (List.range (outLen / 3)).flatMap fun i =>
        (List.range 3).map fun j =>
          readOut (tmp.getD (kP outLen * j +
            permCcInv.getD ((i + nDummy outLen) % nCols) 0 * nRows outLen +
              (i + nDummy outLen) / nCols) rxNull)

/-- The positions of the output that `srslte_rm_conv_tx` fills with coded bit `b` of `inLen`: those
of its name, when the input are the names of the bits. -/
def fills (inLen outLen b : ℕ) : List ℕ :=
  ((rmConvTx none ((List.range inLen).map some) outLen).map fun output =>
    (List.range outLen).filter fun k => output[k]? = some (some b)).getD []

def received (inLen : ℕ) (input : List ℤ) (b : ℕ) : List ℤ :=
  (fills inLen input.length b).map fun k => input.getD k 0

example : rmConvTx txNull [1, 0, 1] 7 = some [1, 0, 1, 1, 0, 1, 1] := by decide +kernel

theorem range_flatMap_map {α : Type*} (f : ℕ → ℕ → α) (m n : ℕ) :
    ((List.range m).flatMap fun a => (List.range n).map fun b => f a b) =
      (List.range (m * n)).map fun k => f (k / n) (k % n) := by
  induction m with
  | zero => rw [Nat.zero_mul]; rfl
  | succ m ih =>
    rw [List.range_succ, List.flatMap_append, ih, List.flatMap_singleton, Nat.succ_mul,
      List.range_add, List.map_append, List.map_map]
    congr 1
    refine List.map_congr_left fun b hb => ?_
    have hlt := List.mem_range.mp hb
    rw [Function.comp_apply, Nat.mul_comm, Nat.mul_add_div (by omega), Nat.div_eq_of_lt hlt,
      Nat.add_zero, Nat.mul_add_mod, Nat.mod_eq_of_lt hlt]

def column (len p : ℕ) : ℕ :=
  p % kP len % nRows len * nCols + permCc.getD (p % kP len / nRows len) 0

def source (len p : ℕ) : ℕ := (column len p - nDummy len) * 3 + p / kP len

def place (len b : ℕ) : ℕ :=
  kP len * (b % 3) + permCcInv.getD ((b / 3 + nDummy len) % nCols) 0 * nRows len +
    (b / 3 + nDummy len) / nCols

/-- The place that round `k` of the loops stops at. -/
def stop (len k : ℕ) : ℕ := visit (3 * kP len) (isDummy len) 0 k

theorem isDummy_eq (len p : ℕ) : isDummy len p = decide (column len p < nDummy len) := rfl

theorem interleave_eq {α : Type*} (null : α) (input : List α) (inLen : ℕ) :
    interleave null input inLen =
      (List.range (3 * kP inLen)).map fun p =>
        if isDummy inLen p then null else input.getD (source inLen p) null := by
  unfold interleave
  simp only [range_flatMap_map, Nat.mul_comm nCols, isDummy_eq, decide_eq_true_eq]
  rfl

structure Accepted (len : ℕ) : Prop where
  whole : len % 3 = 0
  pos : 3 ≤ len
  le : len ≤ 3 * 1024

namespace Accepted

variable {len : ℕ} (h : Accepted len)

include h

theorem rows : nRows len ≤ nCols ∧ 0 < nRows len ∧ len / 3 ≤ kP len ∧ nDummy len < nCols := by
  obtain ⟨hwhole, hpos, hle⟩ := h
  have hsub : sub32 (len / 3) 1 = len / 3 - 1 := sub32_of_le (by omega) (by omega)
  unfold nDummy kP nRows nCols
  rw [hsub]
  omega

theorem kP_pos : 0 < kP len := Nat.mul_pos h.rows.2.1 (by decide)

omit h in
theorem permCc_inverse :
    (∀ c < nCols, permCc.getD c 0 < nCols ∧ permCcInv.getD (permCc.getD c 0) 0 = c) ∧
      ∀ d < nCols, permCcInv.getD d 0 < nCols ∧ permCc.getD (permCcInv.getD d 0) 0 = d := by
  decide

theorem source_lt {p : ℕ} (hp : p < 3 * kP len) (hlive : isDummy len p = false) :
    source len p < len := by
  obtain ⟨-, hrows, hle, -⟩ := h.rows
  have hs : p / kP len < 3 := (Nat.div_lt_iff_lt_mul h.kP_pos).mpr hp
  have hcol : permCc.getD (p % kP len / nRows len) 0 < nCols := by
    refine (permCc_inverse.1 _ ?_).1
    rw [Nat.div_lt_iff_lt_mul hrows, Nat.mul_comm]
    exact Nat.mod_lt p h.kP_pos
  have hrow : p % kP len % nRows len * nCols + nCols ≤ kP len := by
    rw [← Nat.succ_mul]
    exact Nat.mul_le_mul_right nCols (Nat.mod_lt _ hrows)
  have hwhole := h.whole
  rw [isDummy_eq, decide_eq_false_iff_not] at hlive
  unfold source column nDummy at *
  omega

theorem place_spec {b : ℕ} (hb : b < len) :
    place len b / kP len = b % 3 ∧
      place len b % kP len / nRows len = permCcInv.getD ((b / 3 + nDummy len) % nCols) 0 ∧
      place len b % kP len % nRows len = (b / 3 + nDummy len) / nCols := by
  obtain ⟨-, hrows, hle, -⟩ := h.rows
  have hwhole := h.whole
  have hd : (b / 3 + nDummy len) / nCols < nRows len := by
    rw [Nat.div_lt_iff_lt_mul (by decide)]
    change b / 3 + (kP len - len / 3) < kP len
    omega
  have hc := (permCc_inverse.2 _ (Nat.mod_lt (b / 3 + nDummy len) (by decide : 0 < nCols))).1
  unfold place
  generalize (b / 3 + nDummy len) / nCols = r at hd ⊢
  generalize permCcInv.getD ((b / 3 + nDummy len) % nCols) 0 = c at hc ⊢
  have hstream : c * nRows len + r < kP len := by
    unfold kP nCols
    have hmul : (c + 1) * nRows len ≤ nCols * nRows len := Nat.mul_le_mul_right _ hc
    rw [Nat.succ_mul, nCols] at hmul
    omega
  have hmod : (kP len * (b % 3) + c * nRows len + r) % kP len = c * nRows len + r := by
    rw [Nat.add_assoc, Nat.mul_add_mod, Nat.mod_eq_of_lt hstream]
  refine ⟨?_, ?_, ?_⟩
  · rw [Nat.add_assoc, Nat.mul_add_div h.kP_pos, Nat.div_eq_of_lt hstream, Nat.add_zero]
  · rw [hmod, Nat.mul_comm, Nat.mul_add_div hrows, Nat.div_eq_of_lt hd, Nat.add_zero]
  · rw [hmod, Nat.mul_comm, Nat.mul_add_mod, Nat.mod_eq_of_lt hd]

theorem place_lt {b : ℕ} (hb : b < len) : place len b < 3 * kP len := by
  rw [← Nat.div_lt_iff_lt_mul h.kP_pos, (h.place_spec hb).1]
  exact Nat.mod_lt b (by decide)

theorem source_eq_iff {p b : ℕ} (hp : p < 3 * kP len) (hb : b < len) :
    isDummy len p = false ∧ source len p = b ↔ p = place len b := by
  have hs : p / kP len < 3 := (Nat.div_lt_iff_lt_mul h.kP_pos).mpr hp
  rw [isDummy_eq, decide_eq_false_iff_not]
  constructor
  · rintro ⟨hlive, hsource⟩
    have hc : p % kP len / nRows len < nCols := by
      rw [Nat.div_lt_iff_lt_mul h.rows.2.1, Nat.mul_comm]
      exact Nat.mod_lt p h.kP_pos
    obtain ⟨hperm, hinv⟩ := permCc_inverse.1 _ hc
    have hsplit {s : ℕ} (hs : s < 3) (hb : (column len p - nDummy len) * 3 + s = b) :
        b / 3 + nDummy len = column len p ∧ b % 3 = s := by
      omega
    obtain ⟨hd, hstream⟩ := hsplit hs hsource
    have hrow : column len p / nCols = p % kP len % nRows len ∧
        column len p % nCols = permCc.getD (p % kP len / nRows len) 0 := by
      unfold column nCols at *
      omega
    have hpK := Nat.div_add_mod p (kP len)
    have hpR := Nat.div_add_mod (p % kP len) (nRows len)
    rw [place, hd, hrow.1, hrow.2, hinv, hstream, Nat.mul_comm _ (nRows len)]
    omega
  · rintro rfl
    obtain ⟨hstream, hcol, hrow⟩ := h.place_spec hb
    have hperm := (permCc_inverse.2 _
      (Nat.mod_lt (b / 3 + nDummy len) (by decide : 0 < nCols))).2
    have hd : column len (place len b) = b / 3 + nDummy len := by
      rw [column, hrow, hcol, hperm, Nat.mul_comm, Nat.div_add_mod]
    rw [source, hd, hstream]
    omega

theorem live_ne_nil : live (3 * kP len) (isDummy len) ≠ [] := by
  have hb : 0 < len := Nat.lt_of_lt_of_le (by decide) h.pos
  have hplace := h.place_lt hb
  have hlive := ((h.source_eq_iff hplace hb).mpr rfl).1
  exact List.ne_nil_of_mem (mem_live.mpr ⟨hplace, hlive⟩)

theorem stop_spec (k : ℕ) : stop len k < 3 * kP len ∧ isDummy len (stop len k) = false :=
  mem_live.mp (visit_mem h.live_ne_nil k)

omit h in
theorem getD_interleave {α : Type*} {null : α} {input : List α} {p : ℕ}
    (hp : p < 3 * kP input.length) :
    (interleave null input input.length).getD p null =
      if isDummy input.length p then null else input.getD (source input.length p) null := by
  rw [interleave_eq, List.getD_eq_getElem?_getD, List.getElem?_map, List.getElem?_range hp,
    Option.map_some, Option.getD_some]

omit h in
theorem interleave_null {α : Type*} [DecidableEq α] {null : α} {input : List α}
    (h : Accepted input.length) (hnull : null ∉ input) {p : ℕ} (hp : p < 3 * kP input.length) :
    decide ((interleave null input input.length).getD p null = null) =
      isDummy input.length p := by
  rw [getD_interleave hp]
  cases hlive : isDummy input.length p with
  | true => simp
  | false =>
    have hmem := List.getElem_mem (h.source_lt hp hlive)
    rw [if_neg Bool.false_ne_true, List.getD_eq_getElem _ _ (h.source_lt hp hlive)]
    exact decide_eq_false fun heq => hnull (heq ▸ hmem)

omit h in
theorem rmConvTx_eq {α : Type*} [DecidableEq α] {null : α} {input : List α}
    (h : Accepted input.length) (hnull : null ∉ input) (outLen : ℕ) :
    rmConvTx null input outLen =
      some ((List.range outLen).map fun k =>
        input.getD (source input.length (stop input.length k)) null) := by
  have hlive : live (3 * kP input.length)
      (fun p => decide ((interleave null input input.length).getD p null = null)) ≠ [] := by
    intro hnil
    obtain ⟨hlt, hfalse⟩ := h.stop_spec 0
    have hmem : stop input.length 0 ∈ live (3 * kP input.length)
        (fun p => decide ((interleave null input input.length).getD p null = null)) :=
      mem_live.mpr ⟨hlt, (interleave_null h hnull hlt).trans hfalse⟩
    rw [hnil] at hmem
    exact List.not_mem_nil hmem
  have hpos : 0 < 3 * kP input.length := Nat.mul_pos (by decide) h.kP_pos
  unfold rmConvTx
  rw [if_neg (Nat.not_lt.mpr h.rows.1)]
  dsimp only
  rw [walk_eq hlive hpos le_rfl, foldl_append]
  refine congrArg some (List.map_congr_left fun k _ => ?_)
  obtain ⟨hlt, hfalse⟩ := h.stop_spec k
  have hstop : visit (3 * kP input.length)
      (fun p => decide ((interleave null input input.length).getD p null = null)) 0 k =
        stop input.length k :=
    visit_congr (fun p hp => interleave_null h hnull hp) (Nat.zero_le _) k
  rw [hstop, getD_interleave hlt, hfalse, if_neg Bool.false_ne_true]

theorem fills_eq {b : ℕ} (hb : b < len) (outLen : ℕ) :
    fills len outLen b = (List.range outLen).filter fun k => stop len k = place len b := by
  have hlen : ((List.range len).map some).length = len := by
    rw [List.length_map, List.length_range]
  have htx := @rmConvTx_eq (Option ℕ) _ none ((List.range len).map some) (by rwa [hlen]) (by simp)
    outLen
  unfold fills
  rw [htx, hlen, Option.map_some, Option.getD_some]
  refine List.filter_congr fun k hk => ?_
  obtain ⟨hlt, hfalse⟩ := h.stop_spec k
  have hsource := h.source_lt hlt hfalse
  rw [List.getElem?_map, List.getElem?_range (List.mem_range.mp hk), Option.map_some,
    List.getD_eq_getElem?_getD, List.getElem?_map, List.getElem?_range hsource]
  have hiff := h.source_eq_iff hlt hb
  rw [hfalse] at hiff
  simp only [Option.map_some, Option.getD_some, Option.some.injEq]
  exact decide_eq_decide.mpr ((and_iff_right rfl).symm.trans hiff)

theorem rmConvRxS_eq (input : List ℤ) :
    ∃ output, rmConvRxS input len = some output ∧ output.length = len ∧
      ∀ b < len, output[b]? = some (readOut ((received len input b).foldl combine rxNull)) := by
  have hpos : 0 < 3 * kP len := Nat.mul_pos (by decide) h.kP_pos
  have hwhole : len / 3 * 3 = len := Nat.div_mul_cancel (Nat.dvd_of_mod_eq_zero h.whole)
  unfold rmConvRxS
  rw [if_neg (Nat.not_lt.mpr h.rows.1), walk_eq h.live_ne_nil hpos le_rfl, Option.map_some]
  refine ⟨_, rfl, ?_, ?_⟩
  · rw [range_flatMap_map, List.length_map, List.length_range, hwhole]
  · intro b hb
    rw [range_flatMap_map, hwhole, List.getElem?_map, List.getElem?_range hb, Option.map_some]
    congr 2
    change List.getD _ (place len b) rxNull = _
    have hplace := h.place_lt hb
    have hset := getD_foldl_set (fun acc k => combine acc (input.getD k 0)) (stop len) rxNull
      (List.range input.length) (List.replicate (3 * kP len) rxNull)
      (by rwa [List.length_replicate])
    refine hset.trans ?_
    rw [received, h.fills_eq hb, List.foldl_map, List.getD_replicate _ hplace]

end Accepted

end RmConv

end SrsLte

/-!
A sum that comes to the value for nothing is forgotten, and so is a soft value that is that value
itself. Each time ten thousand is lost, so that the sum is right, among 16 bits, after every 4096
losses.
-/

namespace SrsLte

namespace RmConv

def combined (xs : List ℤ) : ℤ := readOut (xs.foldl combine rxNull)

/-- What a place holds after a sum `s` and `n` losses. -/
def held (s : ℤ) (n : ℕ) : ℤ := wrap16 (s - rxNull * n)

/-- The losses of further values behind a sum `s` and `n` losses: a value is lost, or the sum before
it, or the sum at the end. -/
def lossesFrom (s : ℤ) (n : ℕ) : List ℤ → ℕ
  | [] => if held s n = rxNull then n + 1 else n
  | x :: xs => lossesFrom (s + x) (if held s n = rxNull ∨ x = rxNull then n + 1 else n) xs

def losses : List ℤ → ℕ
  | [] => 0
  | x :: xs => lossesFrom x 0 xs

def Clean (xs : List ℤ) : Prop :=
  (∀ x ∈ xs, x ≠ rxNull) ∧ ∀ n, 0 < n → n ≤ xs.length → wrap16 (xs.take n).sum ≠ rxNull

/-- The range of `int16_t`. -/
def Fits16 (x : ℤ) : Prop := -2 ^ 15 ≤ x ∧ x < 2 ^ 15

theorem wrap16_eq (x : ℤ) : wrap16 x = x - 2 ^ 16 * ((x + 2 ^ 15) / 2 ^ 16) := by
  unfold wrap16 Int.bmod
  dsimp only
  split_ifs <;> omega

theorem wrap16_of_fits {x : ℤ} (h : Fits16 x) : wrap16 x = x := by
  obtain ⟨hlow, hhigh⟩ := h
  rw [wrap16_eq]
  omega

theorem combine_held {s x : ℤ} (n : ℕ) (hx : Fits16 x) :
    combine (held s n) x = held (s + x) (if held s n = rxNull ∨ x = rxNull then n + 1 else n) := by
  obtain ⟨hlow, hhigh⟩ := hx
  unfold combine held rxNull
  simp only [wrap16_eq]
  by_cases hsum : s - 10000 * (n : ℤ) - 2 ^ 16 * ((s - 10000 * (n : ℤ) + 2 ^ 15) / 2 ^ 16) = 10000
  · rw [if_pos hsum, if_pos (Or.inl hsum)]
    push_cast
    omega
  · rw [if_neg hsum]
    by_cases hvalue : x = 10000
    · rw [if_neg (not_not.mpr hvalue), if_pos (Or.inr hvalue)]
      push_cast
      omega
    · rw [if_pos hvalue, if_neg (not_or.mpr ⟨hsum, hvalue⟩)]
      omega

theorem foldl_combine {s : ℤ} {n : ℕ} {xs : List ℤ} (hxs : ∀ x ∈ xs, Fits16 x) :
    readOut (xs.foldl combine (held s n)) =
      wrap16 (s + xs.sum - rxNull * lossesFrom s n xs) := by
  induction xs generalizing s n with
  | nil =>
    rw [List.foldl_nil, List.sum_nil, lossesFrom, Int.add_zero]
    unfold readOut
    by_cases hsum : held s n = rxNull
    · rw [if_neg (not_not.mpr hsum), if_pos hsum]
      unfold held rxNull at *
      rw [wrap16_eq] at *
      push_cast
      omega
    · rw [if_pos hsum, if_neg hsum, held]
  | cons x xs ih =>
    rw [List.foldl_cons, combine_held n (hxs x List.mem_cons_self),
      ih (List.forall_mem_cons.mp hxs).2, List.sum_cons, lossesFrom, Int.add_assoc]

theorem combined_eq {xs : List ℤ} (hxs : ∀ x ∈ xs, Fits16 x) :
    combined xs = wrap16 (xs.sum - rxNull * losses xs) := by
  cases xs with
  | nil => rfl
  | cons x xs =>
    have hfirst : combine rxNull x = held x 0 := by
      rw [combine, if_pos rfl, held, Nat.cast_zero, mul_zero, sub_zero,
        wrap16_of_fits (hxs x List.mem_cons_self)]
    rw [combined, List.foldl_cons, hfirst,
      foldl_combine (List.forall_mem_cons.mp hxs).2, List.sum_cons, losses]

theorem combined_eq_sum_iff {xs : List ℤ} (hxs : ∀ x ∈ xs, Fits16 x) (hsum : Fits16 xs.sum) :
    combined xs = xs.sum ↔ losses xs % 4096 = 0 := by
  obtain ⟨hlow, hhigh⟩ := hsum
  rw [combined_eq hxs, wrap16_eq, rxNull]
  omega

theorem le_lossesFrom (s : ℤ) (n : ℕ) (xs : List ℤ) : n ≤ lossesFrom s n xs := by
  induction xs generalizing s n with
  | nil =>
    unfold lossesFrom
    split_ifs <;> omega
  | cons x xs ih =>
    unfold lossesFrom
    refine le_trans ?_ (ih _ _)
    split_ifs <;> omega

theorem lossesFrom_le (s : ℤ) (n : ℕ) (xs : List ℤ) : lossesFrom s n xs ≤ n + xs.length + 1 := by
  induction xs generalizing s n with
  | nil =>
    unfold lossesFrom
    split_ifs <;> simp
  | cons x xs ih =>
    unfold lossesFrom
    refine (ih _ _).trans ?_
    rw [List.length_cons]
    split_ifs <;> omega

theorem losses_le (xs : List ℤ) : losses xs ≤ xs.length := by
  cases xs with
  | nil => exact Nat.zero_le _
  | cons x xs =>
    have hle := lossesFrom_le x 0 xs
    rw [Nat.zero_add] at hle
    exact hle

theorem lossesFrom_eq_zero_iff (s : ℤ) (xs : List ℤ) :
    lossesFrom s 0 xs = 0 ↔
      (∀ x ∈ xs, x ≠ rxNull) ∧ ∀ n ≤ xs.length, wrap16 (s + (xs.take n).sum) ≠ rxNull := by
  have hheld : ∀ s : ℤ, held s 0 = wrap16 s := by
    intro s
    rw [held, Nat.cast_zero, mul_zero, sub_zero]
  induction xs generalizing s with
  | nil =>
    unfold lossesFrom
    rw [hheld]
    constructor
    · intro hzero
      refine ⟨List.forall_mem_nil _, fun n _ heq => ?_⟩
      rw [List.take_nil, List.sum_nil, add_zero] at heq
      rw [if_pos heq] at hzero
      exact absurd hzero (by decide)
    · rintro ⟨-, hsums⟩
      have hne := hsums 0 le_rfl
      rw [List.take_nil, List.sum_nil, add_zero] at hne
      rw [if_neg hne]
  | cons x xs ih =>
    unfold lossesFrom
    rw [hheld]
    by_cases hlost : wrap16 s = rxNull ∨ x = rxNull
    · rw [if_pos hlost]
      have hpos := le_lossesFrom (s + x) (0 + 1) xs
      refine iff_of_false (by omega) ?_
      rintro ⟨hvalues, hsums⟩
      rcases hlost with hsum | hvalue
      · have hne := hsums 0 (Nat.zero_le _)
        rw [List.take_zero, List.sum_nil, add_zero] at hne
        exact hne hsum
      · exact hvalues x List.mem_cons_self hvalue
    · rw [if_neg hlost]
      refine (ih (s + x)).trans ?_
      obtain ⟨hsum, hvalue⟩ := not_or.mp hlost
      constructor
      · rintro ⟨hvalues, hsums⟩
        refine ⟨List.forall_mem_cons.mpr ⟨hvalue, hvalues⟩, fun n hn => ?_⟩
        cases n with
        | zero => rwa [List.take_zero, List.sum_nil, add_zero]
        | succ n =>
          rw [List.take_succ_cons, List.sum_cons, ← add_assoc]
          exact hsums n (Nat.le_of_succ_le_succ hn)
      · rintro ⟨hvalues, hsums⟩
        refine ⟨(List.forall_mem_cons.mp hvalues).2, fun n hn => ?_⟩
        have hnext := hsums (n + 1) (Nat.succ_le_succ hn)
        rwa [List.take_succ_cons, List.sum_cons, ← add_assoc] at hnext

theorem losses_mod_iff {xs : List ℤ} (hfew : xs.length < 4096) :
    losses xs % 4096 = 0 ↔ Clean xs := by
  have hle := losses_le xs
  rw [Nat.mod_eq_of_lt (by omega)]
  cases xs with
  | nil =>
    refine iff_of_true rfl ⟨List.forall_mem_nil _, fun n hn hlen => ?_⟩
    exact absurd hlen (Nat.not_le.mpr hn)
  | cons x xs =>
    rw [losses, lossesFrom_eq_zero_iff]
    have hself : wrap16 rxNull = rxNull := by decide
    constructor
    · rintro ⟨hvalues, hsums⟩
      refine ⟨List.forall_mem_cons.mpr ⟨?_, hvalues⟩, fun n hn hlen => ?_⟩
      · rintro rfl
        have hne := hsums 0 (Nat.zero_le _)
        rw [List.take_zero, List.sum_nil, add_zero] at hne
        exact hne hself
      · obtain ⟨m, rfl⟩ := Nat.exists_eq_add_of_le' hn
        rw [List.take_succ_cons, List.sum_cons]
        exact hsums m (Nat.le_of_succ_le_succ hlen)
    · rintro ⟨hvalues, hsums⟩
      refine ⟨(List.forall_mem_cons.mp hvalues).2, fun n hn => ?_⟩
      have hne := hsums (n + 1) (Nat.succ_pos n) (Nat.succ_le_succ hn)
      rwa [List.take_succ_cons, List.sum_cons] at hne

theorem fits_received {inLen : ℕ} {input : List ℤ} (hinput : ∀ x ∈ input, Fits16 x) (b : ℕ) :
    ∀ x ∈ received inLen input b, Fits16 x := by
  intro x hx
  obtain ⟨k, -, rfl⟩ := List.mem_map.mp hx
  rw [List.getD_eq_getElem?_getD]
  cases hget : input[k]? with
  | none => exact ⟨by decide, by decide⟩
  | some y => exact hinput y (List.mem_of_getElem? hget)

/-- The receiver adds up the soft values of a coded bit exactly if the number of losses is a
multiple of 4096: with fewer values than that, if there are none. -/
theorem rmConvRxS_iff {inLen : ℕ} (h : Accepted inLen) {input : List ℤ}
    (hinput : ∀ x ∈ input, Fits16 x) (hsums : ∀ b < inLen, Fits16 (received inLen input b).sum) :
    ∃ output, rmConvRxS input inLen = some output ∧ output.length = inLen ∧
      ∀ b < inLen,
        (output[b]? = some (received inLen input b).sum ↔
          losses (received inLen input b) % 4096 = 0) ∧
        ((received inLen input b).length < 4096 →
          (output[b]? = some (received inLen input b).sum ↔ Clean (received inLen input b))) := by
  obtain ⟨output, houtput, hlen, hget⟩ := h.rmConvRxS_eq input
  refine ⟨output, houtput, hlen, fun b hb => ?_⟩
  have hiff : output[b]? = some (received inLen input b).sum ↔
      losses (received inLen input b) % 4096 = 0 := by
    rw [hget b hb, Option.some.injEq]
    exact combined_eq_sum_iff (fits_received hinput b) (hsums b hb)
  exact ⟨hiff, fun hfew => hiff.trans (losses_mod_iff hfew)⟩

theorem rmConvRxS_three :
    rmConvRxS [4000, -1, 7, 5000, 2, 8] 3 = some [9000, 1, 15] ∧
      losses (received 3 [4000, -1, 7, 5000, 2, 8] 0) % 4096 = 0 := by
  have haccepted : Accepted 3 := ⟨by decide, by decide, by decide⟩
  obtain ⟨output, houtput, -, hiff⟩ := rmConvRxS_iff haccepted
    (show ∀ x ∈ [4000, -1, 7, 5000, 2, 8], Fits16 x by unfold Fits16; decide)
    (show ∀ b < 3, Fits16 (received 3 [4000, -1, 7, 5000, 2, 8] b).sum by
      unfold Fits16; decide +kernel)
  have hrun : rmConvRxS [4000, -1, 7, 5000, 2, 8] 3 = some [9000, 1, 15] := by decide +kernel
  obtain rfl : [9000, 1, 15] = output := Option.some.inj (hrun.symm.trans houtput)
  exact ⟨hrun, (hiff 0 (by decide)).1.mp (by decide +kernel)⟩

/-- Two soft values of one bit that add up to ten thousand. -/
theorem sum_read_as_nothing :
    fills 3 6 0 = [0, 3] ∧ received 3 [4000, 0, 0, 6000, 0, 0] 0 = [4000, 6000] ∧
      rmConvRxS [4000, 0, 0, 6000, 0, 0] 3 = some [0, 0, 0] := by
  decide +kernel

end RmConv

end SrsLte
