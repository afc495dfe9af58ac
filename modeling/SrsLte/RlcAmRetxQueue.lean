import SrsLte.RlcAmTxRuns

/-!
# The retransmission queue behind a status PDU

`handle_control_pdu` walks over consecutive SNs from `vt_a` to `ACK_SN` or `vt_s`. A status PDU with
NACKs replaces the queue: every NACKed SN of the walk that is in the window gets one entry, which
its first NACK asks for. A status PDU without NACKs leaves the queue alone.
-/

namespace SrsLte
namespace RlcAmTx

/-- The next `n` SNs from `i` on. -/
def snsFrom : ℕ → ℕ → List ℕ
  | 0, _ => []
  | n + 1, i => i :: snsFrom n ((i + 1) % rlcAmMod)

def nacksOf (status : RlcStatusPdu) (sn : ℕ) : List RlcStatusNack :=
  status.nacks.filter fun n => n.nackSn = sn

/-- `n` rounds of the loop of `handle_control_pdu` from `i` on. -/
def walk (status : RlcStatusPdu) : ℕ → ℕ → Bool → RlcAmTx → RlcAmTx
  | 0, _, _, tx => tx
  | n + 1, i, updateVtA, tx =>
    if nacksOf status i = [] then
      walk status n ((i + 1) % rlcAmMod) updateVtA (tx.handleAck i updateVtA)
    else walk status n ((i + 1) % rlcAmMod) false ((nacksOf status i).foldl handleNack tx)

def walkLength (tx : RlcAmTx) (status : RlcStatusPdu) : ℕ :=
  min (tx.txModBase status.ackSn) (tx.txModBase tx.vtS)

def walked (tx : RlcAmTx) (status : RlcStatusPdu) : List ℕ :=
  snsFrom (tx.walkLength status) tx.vtA

variable {tx : RlcAmTx} {status : RlcStatusPdu} {a m j : ℕ}

theorem txModBase_of_eq (hvtA : tx.vtA = (a + m) % rlcAmMod) (hle : m ≤ j)
    (hlt : j < m + rlcAmMod) : tx.txModBase ((a + j) % rlcAmMod) = j - m := by
  unfold txModBase Word.sub32
  rw [hvtA]
  unfold rlcAmMod at *
  omega

theorem vtS_foldl_handleNack (nacks : List RlcStatusNack) (tx : RlcAmTx) :
    (nacks.foldl handleNack tx).vtS = tx.vtS ∧ (nacks.foldl handleNack tx).vtA = tx.vtA ∧
      (nacks.foldl handleNack tx).txWindow = tx.txWindow := by
  induction nacks generalizing tx with
  | nil => exact ⟨rfl, rfl, rfl⟩
  | cons n nacks ih =>
    rw [List.foldl_cons]
    obtain ⟨hs, ha, hw⟩ := ih (tx.handleNack n)
    rw [hs, ha, hw]
    rcases tx.handleNack_eq n with heq | ⟨pdu, -, -, heq⟩
    · rw [heq]
      exact ⟨rfl, rfl, rfl⟩
    · rw [heq]
      exact ⟨rfl, rfl, rfl⟩

theorem vtA_handleAck (tx : RlcAmTx) (sn : ℕ) (u : Bool) :
    (tx.handleAck sn u).vtS = tx.vtS ∧
      ((tx.handleAck sn u).vtA = tx.vtA ∨ (tx.handleAck sn u).vtA = (tx.vtA + 1) % rlcAmMod) := by
  rcases tx.handleAck_eq sn u with heq | ⟨-, -, heq⟩
  · rw [heq]
    exact ⟨rfl, Or.inl rfl⟩
  · rw [heq]
    exact ⟨rfl, Or.inr rfl⟩

/-- The lower edge `vt_a` never gets past the walk, so that the loop ends where it was going to end
from the start. -/
theorem controlLoop_eq_walk {ack last k : ℕ} (fuel : ℕ) (u : Bool)
    (hack : status.ackSn = (a + ack) % rlcAmMod) (hackLt : ack < rlcAmMod)
    (hlast : tx.vtS = (a + last) % rlcAmMod) (hlastLt : last < rlcAmMod)
    (hvtA : tx.vtA = (a + m) % rlcAmMod) (hmk : m ≤ k) (hk : k ≤ min ack last)
    (hfuel : min ack last - k < fuel) :
    controlLoop status fuel ((a + k) % rlcAmMod) u tx =
      walk status (min ack last - k) ((a + k) % rlcAmMod) u tx := by
  induction fuel generalizing k m u tx with
  | zero => omega
  | succ fuel ih =>
    have hi : tx.txModBase ((a + k) % rlcAmMod) = k - m :=
      txModBase_of_eq hvtA hmk (by omega)
    have hackBase : tx.txModBase status.ackSn = ack - m := by
      rw [hack]
      exact txModBase_of_eq hvtA (by omega) (by omega)
    have hlastBase : tx.txModBase tx.vtS = last - m := by
      rw [hlast]
      exact txModBase_of_eq hvtA (by omega) (by omega)
    have hnext : ((a + k) % rlcAmMod + 1) % rlcAmMod = (a + (k + 1)) % rlcAmMod := by
      unfold rlcAmMod
      omega
    unfold controlLoop
    dsimp only
    rw [hi, hackBase, hlastBase]
    by_cases hmore : k - m < ack - m ∧ k - m < last - m
    · rw [if_pos hmore]
      obtain ⟨d, hd⟩ : ∃ d, min ack last - k = d + 1 := ⟨min ack last - k - 1, by omega⟩
      rw [hd, walk, hnext]
      have hd' : min ack last - (k + 1) = d := by omega
      by_cases hnacks : nacksOf status ((a + k) % rlcAmMod) = []
      · rw [if_pos hnacks]
        unfold nacksOf at hnacks
        rw [if_pos hnacks]
        obtain ⟨hs, ha⟩ := tx.vtA_handleAck ((a + k) % rlcAmMod) u
        rcases ha with ha | ha
        · rw [ih _ (hs.trans hlast) (ha.trans hvtA) (by omega) (by omega) (by omega), hd']
        · have ha' : (tx.handleAck ((a + k) % rlcAmMod) u).vtA = (a + (m + 1)) % rlcAmMod := by
            rw [ha, hvtA]
            unfold rlcAmMod
            omega
          rw [ih _ (hs.trans hlast) ha' (by omega) (by omega) (by omega), hd']
      · rw [if_neg hnacks]
        unfold nacksOf at hnacks ⊢
        rw [if_neg hnacks]
        obtain ⟨hs, ha, -⟩ := vtS_foldl_handleNack
          (status.nacks.filter fun n => n.nackSn = (a + k) % rlcAmMod) tx
        rw [ih _ (hs.trans hlast) (ha.trans hvtA) (by omega) (by omega) (by omega), hd']
    · rw [if_neg hmore]
      have hzero : min ack last - k = 0 := by omega
      rw [hzero]
      rfl

def flushed (tx : RlcAmTx) (status : RlcStatusPdu) : RlcAmTx :=
  { tx with
    pollRetxTimer := tx.pollRetxTimer.stop
    retxQueue := if status.nacks.length > 0 then [] else tx.retxQueue }

theorem handleControlPdu_eq_walk (hvtA : tx.vtA < rlcAmMod) (hvtS : tx.vtS < rlcAmMod)
    (hack : status.ackSn < rlcAmMod) :
    tx.handleControlPdu status =
      walk status (tx.walkLength status) tx.vtA true (tx.flushed status) := by
  have hoffset : ∀ x < rlcAmMod, x = (tx.vtA + tx.txModBase x) % rlcAmMod := by
    intro x hx
    unfold txModBase Word.sub32
    unfold rlcAmMod at *
    omega
  have hlt : ∀ x, tx.txModBase x < rlcAmMod := fun x => Nat.mod_lt _ (by decide)
  have hself : tx.vtA = (tx.vtA + 0) % rlcAmMod := by
    rw [Nat.add_zero, Nat.mod_eq_of_lt hvtA]
  have hlast : (tx.flushed status).vtS = (tx.vtA + tx.txModBase tx.vtS) % rlcAmMod :=
    hoffset _ hvtS
  have hwalk := controlLoop_eq_walk rlcAmMod true (hoffset _ hack) (hlt _) hlast (hlt _) hself
    (Nat.le_refl 0) (Nat.zero_le _) (by have := hlt status.ackSn; omega)
  rw [← hself, Nat.sub_zero] at hwalk
  have hflushed : tx.handleControlPdu status =
      controlLoop status rlcAmMod tx.vtA true (tx.flushed status) := by
    unfold handleControlPdu flushed
    dsimp only
    split_ifs <;> rfl
  rw [hflushed, hwalk]
  rfl

section Nodup

variable {n i sn : ℕ}

theorem mem_snsFrom : sn ∈ snsFrom n i → ∃ k < n, sn % rlcAmMod = (i + k) % rlcAmMod := by
  intro h
  induction n generalizing i with
  | zero => exact absurd h List.not_mem_nil
  | succ n ih =>
    rcases List.mem_cons.mp h with heq | h
    · exact ⟨0, n.succ_pos, by rw [heq, Nat.add_zero]⟩
    · obtain ⟨k, hk, heq⟩ := ih h
      refine ⟨k + 1, Nat.succ_lt_succ hk, ?_⟩
      rw [heq, Nat.mod_add_mod, Nat.add_assoc, Nat.add_comm 1 k]

theorem nodup_snsFrom (hn : n ≤ rlcAmMod) : (snsFrom n i).Nodup := by
  induction n generalizing i with
  | zero => exact List.nodup_nil
  | succ n ih =>
    refine List.nodup_cons.mpr ⟨fun hmem => ?_, ih (by omega)⟩
    obtain ⟨k, hk, heq⟩ := mem_snsFrom hmem
    unfold rlcAmMod at *
    omega

end Nodup

def request (window : OrderedMap ℕ RlcAmdTxPdu) (status : RlcStatusPdu) (sn : ℕ) :
    Option RlcAmdRetx :=
  match (nacksOf status sn).head?, window.find? sn with
  | some nack, some pdu => some (retxOfNack pdu.buf.length nack)
  | _, _ => none

@[simp]
theorem sn_retxOfNack (nBytes : ℕ) (nack : RlcStatusNack) :
    (retxOfNack nBytes nack).sn = nack.nackSn := by
  unfold retxOfNack
  dsimp only
  split_ifs <;> rfl

theorem nackSn_of_mem {sn : ℕ} {nack : RlcStatusNack} (h : nack ∈ nacksOf status sn) :
    nack.nackSn = sn := by
  have hfilter := (List.mem_filter.mp h).2
  exact of_decide_eq_true hfilter

theorem request_eq_some {window : OrderedMap ℕ RlcAmdTxPdu} {sn : ℕ} {retx : RlcAmdRetx}
    (h : request window status sn = some retx) : ∃ nack pdu,
    (nacksOf status sn).head? = some nack ∧ window.find? sn = some pdu ∧
      retx = retxOfNack pdu.buf.length nack ∧ retx.sn = sn := by
  unfold request at h
  split at h
  · rename_i nack pdu hnack hpdu
    obtain rfl := Option.some.inj h
    refine ⟨nack, pdu, hnack, hpdu, rfl, ?_⟩
    rw [sn_retxOfNack]
    exact nackSn_of_mem (List.mem_of_mem_head? hnack)
  · exact absurd h (by simp)

theorem request_of_nil {window : OrderedMap ℕ RlcAmdTxPdu} {sn : ℕ} (h : nacksOf status sn = []) :
    request window status sn = none := by
  rw [request, h]
  rfl

theorem foldl_handleNack_of_skip {sn : ℕ} {nacks : List RlcStatusNack}
    (hsn : ∀ n ∈ nacks, n.nackSn = sn)
    (hskip : tx.txWindow.find? sn = none ∨ tx.retxQueueHasSn sn = true) :
    nacks.foldl handleNack tx = tx := by
  induction nacks with
  | nil => rfl
  | cons n nacks ih =>
    have hn := hsn n List.mem_cons_self
    have hone : tx.handleNack n = tx := by
      rcases tx.handleNack_eq n with heq | ⟨pdu, hpdu, hhas, -⟩
      · exact heq
      · rw [hn] at hpdu hhas
        rcases hskip with hskip | hskip
        · rw [hskip] at hpdu
          cases hpdu
        · rw [hskip] at hhas
          cases hhas
    rw [List.foldl_cons, hone]
    exact ih (List.forall_mem_cons.mp hsn).2

theorem retxQueue_foldl_handleNack {sn : ℕ} (hne : nacksOf status sn ≠ [])
    (hnew : ∀ r ∈ tx.retxQueue, r.sn ≠ sn) :
    ((nacksOf status sn).foldl handleNack tx).retxQueue =
      tx.retxQueue ++ (request tx.txWindow status sn).toList := by
  have hall : ∀ n ∈ nacksOf status sn, n.nackSn = sn := fun n hn => nackSn_of_mem hn
  cases hwindow : tx.txWindow.find? sn with
  | none =>
    rw [foldl_handleNack_of_skip hall (Or.inl hwindow), request, hwindow]
    simp
  | some pdu =>
    obtain ⟨nack, nacks, hnacks⟩ := List.exists_cons_of_ne_nil hne
    rw [request, hwindow]
    rw [hnacks] at hall ⊢
    have hnack : nack.nackSn = sn := hall nack List.mem_cons_self
    have hhas : tx.retxQueueHasSn nack.nackSn = false := by
      rw [hnack, retxQueueHasSn, List.any_eq_false]
      exact fun r hr => by simpa using hnew r hr
    have hfirst : tx.handleNack nack =
        { tx with retxQueue := tx.retxQueue ++ [retxOfNack pdu.buf.length nack] } := by
      unfold handleNack
      rw [hnack, hwindow]
      rw [hnack] at hhas
      simp only [hhas, Bool.false_eq_true, if_false]
    rw [List.foldl_cons, hfirst]
    have hqueued : retxQueueHasSn
        { tx with retxQueue := tx.retxQueue ++ [retxOfNack pdu.buf.length nack] } sn = true := by
      simp [retxQueueHasSn, hnack]
    rw [foldl_handleNack_of_skip (List.forall_mem_cons.mp hall).2
      (Or.inr hqueued)]
    rfl

theorem walk_false {n i : ℕ} (hn : n ≤ rlcAmMod)
    (hnew : ∀ r ∈ tx.retxQueue, r.sn ∉ snsFrom n i) :
    (walk status n i false tx).txWindow = tx.txWindow ∧
      (walk status n i false tx).retxQueue =
        tx.retxQueue ++ (snsFrom n i).filterMap (request tx.txWindow status) := by
  induction n generalizing i tx with
  | zero => exact ⟨rfl, by simp [walk, snsFrom]⟩
  | succ n ih =>
    have hnodup := List.nodup_cons.mp (nodup_snsFrom (i := i) hn)
    have hrest : ∀ r ∈ tx.retxQueue, r.sn ≠ i ∧ r.sn ∉ snsFrom n ((i + 1) % rlcAmMod) :=
      fun r hr => not_or.mp (fun h => hnew r hr (List.mem_cons.mpr h))
    rw [walk, snsFrom]
    by_cases hnacks : nacksOf status i = []
    · have hack : tx.handleAck i false = tx := by
        rcases tx.handleAck_eq i false with heq | ⟨h, -⟩
        · exact heq
        · cases h
      rw [if_pos hnacks, hack, List.filterMap_cons_none (request_of_nil hnacks)]
      exact ih (by omega) fun r hr => (hrest r hr).2
    · rw [if_neg hnacks]
      obtain ⟨-, -, hwindow⟩ := vtS_foldl_handleNack (nacksOf status i) tx
      have hqueue := retxQueue_foldl_handleNack hnacks fun r hr => (hrest r hr).1
      have hnew' : ∀ r ∈ ((nacksOf status i).foldl handleNack tx).retxQueue,
          r.sn ∉ snsFrom n ((i + 1) % rlcAmMod) := by
        intro r hr
        rw [hqueue] at hr
        rcases List.mem_append.mp hr with hr | hr
        · exact (hrest r hr).2
        · obtain ⟨-, -, -, -, -, hsn⟩ := request_eq_some (Option.mem_toList.mp hr)
          rw [hsn]
          exact hnodup.1
      obtain ⟨hw, hq⟩ := ih (by omega) hnew'
      rw [hw, hq, hqueue, hwindow, List.append_assoc]
      refine ⟨rfl, ?_⟩
      cases hrequest : request tx.txWindow status i with
      | none => rw [List.filterMap_cons_none hrequest]; rfl
      | some retx => rw [List.filterMap_cons_some hrequest]; rfl

/-- The walk from an empty queue: acknowledged SNs leave the window up to the first NACK, and the
window that is left has the entries. -/
theorem walk_true {n i : ℕ} (hn : n ≤ rlcAmMod) (hempty : tx.retxQueue = []) :
    (walk status n i true tx).retxQueue =
      (snsFrom n i).filterMap (request (walk status n i true tx).txWindow status) := by
  induction n generalizing i tx with
  | zero => exact hempty
  | succ n ih =>
    by_cases hnacks : nacksOf status i = []
    · have hack : (tx.handleAck i true).retxQueue = [] := by
        rcases tx.handleAck_eq i true with heq | ⟨-, -, heq⟩
        · rw [heq, hempty]
        · rw [heq]
          exact hempty
      rw [walk, snsFrom, if_pos hnacks, List.filterMap_cons_none (request_of_nil hnacks)]
      exact ih (by omega) hack
    · -- from the first NACK on it is the walk that acknowledges nothing
      have hwalk : walk status (n + 1) i true tx = walk status (n + 1) i false tx := by
        rw [walk, walk, if_neg hnacks, if_neg hnacks]
      have hnew : ∀ r ∈ tx.retxQueue, r.sn ∉ snsFrom (n + 1) i := by simp [hempty]
      obtain ⟨hw, hq⟩ := walk_false hn hnew
      rw [hwalk, hw, hq, hempty, List.nil_append]

theorem walk_of_no_nacks {n i : ℕ} {u : Bool} (h : status.nacks = []) :
    (walk status n i u tx).retxQueue = tx.retxQueue := by
  induction n generalizing i u tx with
  | zero => rfl
  | succ n ih =>
    have hnacks : nacksOf status i = [] := by rw [nacksOf, h, List.filter_nil]
    rw [walk, if_pos hnacks, ih]
    rcases tx.handleAck_eq i u with heq | ⟨-, -, heq⟩
    · rw [heq]
    · rw [heq]

theorem sn_filterMap_request (window : OrderedMap ℕ RlcAmdTxPdu) (sns : List ℕ) :
    List.Sublist ((sns.filterMap (request window status)).map RlcAmdRetx.sn) sns := by
  induction sns with
  | nil => exact List.Sublist.slnil
  | cons sn sns ih =>
    cases hrequest : request window status sn with
    | none =>
      rw [List.filterMap_cons_none hrequest]
      exact ih.cons sn
    | some retx =>
      obtain ⟨-, -, -, -, -, hsn⟩ := request_eq_some hrequest
      rw [List.filterMap_cons_some hrequest, List.map_cons, hsn]
      exact ih.cons_cons sn

theorem retxQueue_handleControlPdu (h : tx.Inv) (report : RlcStatusReport)
    (hne : report.1.nacks ≠ []) :
    (tx.handleControlPdu report.1).retxQueue = (tx.walked report.1).filterMap
      (request (tx.handleControlPdu report.1).txWindow report.1) := by
  have hlength : tx.walkLength report.1 ≤ rlcAmMod := by
    have hlt : tx.txModBase report.1.ackSn < rlcAmMod := Nat.mod_lt _ (by decide)
    unfold walkLength
    omega
  have hempty : (tx.flushed report.1).retxQueue = [] :=
    if_pos (List.length_pos_of_ne_nil hne)
  rw [handleControlPdu_eq_walk h.vtA h.vtS report.2.ackSn]
  exact walk_true hlength hempty

theorem retxQueue_of_no_nacks (h : tx.Inv) (report : RlcStatusReport) (hnil : report.1.nacks = []) :
    (tx.handleControlPdu report.1).retxQueue = tx.retxQueue := by
  rw [handleControlPdu_eq_walk h.vtA h.vtS report.2.ackSn, walk_of_no_nacks hnil, flushed]
  dsimp only
  rw [hnil]
  rfl

end RlcAmTx

namespace RlcStatusNack

/-- The byte `x` of a PDU is asked for. -/
def Asks (nack : RlcStatusNack) (x : ℕ) : Prop :=
  nack.hasSo = true → nack.soStart ≤ x ∧ (nack.soEnd = 0x7FFF ∨ x ≤ nack.soEnd)

instance (nack : RlcStatusNack) (x : ℕ) : Decidable (nack.Asks x) :=
  inferInstanceAs (Decidable (_ → _))

/-- The offsets lie inside a PDU of `nBytes` bytes and in order. A start behind the PDU counts as
its first byte. -/
def InRange (nack : RlcStatusNack) (nBytes : ℕ) : Prop :=
  nack.hasSo = true → nack.soEnd = 0x7FFF ∨
    nack.soEnd < nBytes ∧ (nBytes ≤ nack.soStart ∨ nack.soStart ≤ nack.soEnd)

instance (nack : RlcStatusNack) (nBytes : ℕ) : Decidable (nack.InRange nBytes) :=
  inferInstanceAs (Decidable (_ → _))

variable {nack : RlcStatusNack} {nBytes x : ℕ}

theorem retxOfNack_range (hpos : 0 < nBytes) (h : nack.InRange nBytes) :
    (RlcAmTx.retxOfNack nBytes nack).soStart < (RlcAmTx.retxOfNack nBytes nack).soEnd ∧
      (RlcAmTx.retxOfNack nBytes nack).soEnd ≤ nBytes := by
  unfold RlcAmTx.retxOfNack
  dsimp only
  by_cases hso : nack.hasSo = true
  · have hrange := h hso
    rw [if_pos hso]
    split_ifs <;> dsimp only <;> omega
  · rw [if_neg hso]
    exact ⟨hpos, Nat.le_refl nBytes⟩

theorem retxOfNack_covers (hx : x < nBytes) (h : nack.Asks x) :
    (RlcAmTx.retxOfNack nBytes nack).soStart ≤ x ∧
      x < (RlcAmTx.retxOfNack nBytes nack).soEnd := by
  unfold RlcAmTx.retxOfNack
  dsimp only
  by_cases hso : nack.hasSo = true
  · have hasked := h hso
    rw [if_pos hso]
    split_ifs <;> dsimp only <;> omega
  · rw [if_neg hso]
    exact ⟨Nat.zero_le x, hx⟩

end RlcStatusNack

namespace RlcAmTx

/-- Every entry is a range of a PDU in the window, no byte is queued twice, and every byte that a
NACK asks for is queued. -/
structure RangesKept (status : RlcStatusPdu) (tx : RlcAmTx) : Prop where
  inWindow : ∀ r ∈ tx.retxQueue, ∃ pdu, tx.txWindow.find? r.sn = some pdu ∧
    r.soStart < r.soEnd ∧ r.soEnd ≤ pdu.buf.length
  once : tx.retxQueue.Pairwise fun r r' =>
    r.sn = r'.sn → r.soEnd ≤ r'.soStart ∨ r'.soEnd ≤ r.soStart
  covered : ∀ nack ∈ status.nacks, ∀ pdu, tx.txWindow.find? nack.nackSn = some pdu →
    ∀ x < pdu.buf.length, nack.Asks x →
      ∃ r ∈ tx.retxQueue, r.sn = nack.nackSn ∧ r.soStart ≤ x ∧ x < r.soEnd

/-- One entry for each SN of `sns` in the window that has a NACK, as its first NACK asks. -/
structure FirstNacksKept (status : RlcStatusPdu) (sns : List ℕ) (tx : RlcAmTx) : Prop where
  inWindow : ∀ r ∈ tx.retxQueue, r.sn ∈ sns ∧ ∃ pdu nack, tx.txWindow.find? r.sn = some pdu ∧
    (nacksOf status r.sn).head? = some nack ∧
      (nack.InRange pdu.buf.length → r.soStart < r.soEnd ∧ r.soEnd ≤ pdu.buf.length)
  once : (tx.retxQueue.map RlcAmdRetx.sn).Nodup
  covered : ∀ sn ∈ sns, ∀ nack, (nacksOf status sn).head? = some nack →
    ∀ pdu, tx.txWindow.find? sn = some pdu →
      ∃ r ∈ tx.retxQueue, r.sn = sn ∧
        ∀ x < pdu.buf.length, nack.Asks x → r.soStart ≤ x ∧ x < r.soEnd

variable {tx : RlcAmTx}

theorem firstNacksKept_handleControlPdu (h : tx.Inv) (report : RlcStatusReport)
    (hne : report.1.nacks ≠ []) :
    FirstNacksKept report.1 (tx.walked report.1) (tx.handleControlPdu report.1) := by
  have hqueue := retxQueue_handleControlPdu h report hne
  have hinv : (tx.handleControlPdu report.1).Inv := h.handleControlPdu report.1
  refine ⟨fun r hr => ?_, ?_, fun sn hsn nack hnack pdu hpdu => ?_⟩
  · rw [hqueue] at hr
    obtain ⟨sn, hsn, hrequest⟩ := List.mem_filterMap.mp hr
    obtain ⟨nack, pdu, hnack, hpdu, hretx, heq⟩ := request_eq_some hrequest
    rw [heq]
    refine ⟨hsn, pdu, nack, hpdu, hnack, fun hrange => ?_⟩
    rw [hretx]
    exact RlcStatusNack.retxOfNack_range (hinv.window hpdu).nonempty hrange
  · have hlt : tx.walkLength report.1 ≤ rlcAmMod :=
      Nat.le_of_lt ((Nat.min_le_left _ _).trans_lt (Nat.mod_lt _ (by decide)))
    rw [hqueue]
    exact (nodup_snsFrom hlt).sublist (sn_filterMap_request _ _)
  · have hrequest : request (tx.handleControlPdu report.1).txWindow report.1 sn =
        some (retxOfNack pdu.buf.length nack) := by
      rw [request, hnack, hpdu]
    obtain ⟨-, -, -, -, -, heq⟩ := request_eq_some hrequest
    refine ⟨retxOfNack pdu.buf.length nack, ?_, heq,
      fun x hx hasks => RlcStatusNack.retxOfNack_covers hx hasks⟩
    rw [hqueue]
    exact List.mem_filterMap.mpr ⟨sn, hsn, hrequest⟩

/-- A status PDU with NACKs replaces the queue by the entries its first NACKs ask for. One without
leaves the queue as it was, and the entries that have been acknowledged are dropped when the next
grant comes to them. -/
theorem retxQueue_run (cfg : RlcAmConfig) (events : List Event) (report : RlcStatusReport) :
    let tx := events.foldl step (configure cfg)
    let tx' := tx.handleControlPdu report.1
    if report.1.nacks = [] then
      tx'.retxQueue = tx.retxQueue ∧ (tx'.dropStale.retxQueue = [] ∨
        ∃ retx rest pdu, tx'.dropStale.retxQueue = retx :: rest ∧
          tx'.txWindow.find? retx.sn = some pdu)
    else FirstNacksKept report.1 (tx.walked report.1) tx' := by
  intro tx tx'
  have hinv : tx.Inv := inv_run cfg events
  split_ifs with hnil
  · exact ⟨retxQueue_of_no_nacks hinv report hnil, tx'.retxQueue_dropStale⟩
  · exact firstNacksKept_handleControlPdu hinv report hnil

/-- Two segments of one PDU are asked for, and the second is not queued. -/
theorem second_segment_not_queued : ¬ ∀ (cfg : RlcAmConfig) (events : List Event)
    (report : RlcStatusReport),
    RangesKept report.1 ((events.foldl step (configure cfg)).handleControlPdu report.1) := by
  intro h
  let cfg : RlcAmConfig :=
    { pollPdu := -1
      pollByte := -1
      maxRetxThresh := 4
      tStatusProhibit := 0
      txQueueLength := 128 }
  let events : List Event :=
    [.writeSdu (List.replicate 20 0), .readPdu (RlcAmRx.init []) 0 30]
  let second : RlcStatusNack := { nackSn := 0, hasSo := true, soStart := 10, soEnd := 12 }
  let report : RlcStatusReport :=
    ⟨{ ackSn := 1, nacks := [{ nackSn := 0, hasSo := true, soStart := 0, soEnd := 3 }, second] },
      by decide⟩
  have hwindow : (((events.foldl step (configure cfg)).handleControlPdu report.1).txWindow.find?
      0).isSome := by decide
  obtain ⟨pdu, hpdu⟩ := Option.isSome_iff_exists.mp hwindow
  have hlength : (((events.foldl step (configure cfg)).handleControlPdu report.1).txWindow.find?
      0).map (fun pdu => pdu.buf.length) = some 20 := by decide
  have hbuf : pdu.buf.length = 20 := by
    rw [hpdu] at hlength
    exact Option.some.inj hlength
  obtain ⟨r, hr, -, hstart, hend⟩ := (h cfg events report).covered second (by decide) pdu hpdu 11
    (by omega) (by decide)
  have hqueue : ((events.foldl step (configure cfg)).handleControlPdu report.1).retxQueue =
      [{ sn := 0, isSegment := true, soStart := 0, soEnd := 4 }] := by decide
  rw [hqueue, List.mem_singleton] at hr
  rw [hr] at hend
  exact absurd hend (by decide)

end RlcAmTx
end SrsLte
