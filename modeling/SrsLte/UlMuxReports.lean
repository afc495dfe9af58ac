import Mathlib.Algebra.BigOperators.Ring.Finset
import SrsLte.UlMux

/-!
# Reports of the mux

A triggered buffer status or power headroom report is cancelled only for a PDU that carries it
when the space behind the CCCH data and the C-RNTI CE holds the reports with their subheaders.
The size of a report is compared with that space without its subheader.
-/

namespace SrsLte

def Bsr.reported (report : Bsr) (lcg : Fin 4) : Option ℕ :=
  let named := CeSetting.nonzeroLcg report.buffSize
  match report.format with
  | .longBsr => some (report.buffSize lcg)
  | .shortBsr => some (if lcg = named then report.buffSize lcg else 0)
  | .truncBsr => if lcg = named then some (report.buffSize lcg) else none

def Bsr.Reports (report : Bsr) (buffers : Fin 4 → ℕ) : Prop :=
  ∀ lcg n, report.reported lcg = some n → n = buffers lcg

theorem nonzeroLcg_ne_zero {sizes : Fin 4 → ℕ} {lcg : Fin 4} (h : sizes lcg ≠ 0) :
    sizes (CeSetting.nonzeroLcg sizes) ≠ 0 := by
  have hfold : ∀ (l : List (Fin 4)) (start : Fin 4), (sizes start ≠ 0 ∨ ∃ i ∈ l, sizes i ≠ 0) →
      sizes (l.foldl (fun lcg i => if sizes i ≠ 0 then i else lcg) start) ≠ 0 := by
    intro l
    induction l with
    | nil =>
      rintro start (hs | ⟨i, hi, -⟩)
      · exact hs
      · exact absurd hi List.not_mem_nil
    | cons j l ih =>
      rintro start hs
      rw [List.foldl_cons]
      apply ih
      by_cases hj : sizes j ≠ 0
      · rw [if_pos hj]
        exact Or.inl hj
      · rw [if_neg hj]
        refine hs.imp_right ?_
        rintro ⟨i, hi, hne⟩
        rcases List.mem_cons.mp hi with rfl | hi
        · exact absurd hne hj
        · exact ⟨i, hi, hne⟩
  exact hfold _ 0 (Or.inr ⟨lcg, List.mem_finRange lcg, h⟩)

theorem nonzeroLcg_eq_zero {sizes : Fin 4 → ℕ} (h : ∀ lcg, sizes lcg = 0) :
    CeSetting.nonzeroLcg sizes = 0 := by
  unfold CeSetting.nonzeroLcg
  simp only [h, ne_eq, not_true_eq_false, if_false]
  rfl

namespace BsrProc

variable {b : BsrProc}

/-- The number of groups with data, `nof_lcg`. -/
def nofLcg (b : BsrProc) : ℕ :=
  ((List.finRange 4).filter fun lcg => b.getBufferStateLcg lcg > 0).length

theorem eq_of_nofLcg_le_one (h : b.nofLcg ≤ 1) {lcg lcg' : Fin 4}
    (hlcg : b.getBufferStateLcg lcg ≠ 0) (hlcg' : b.getBufferStateLcg lcg' ≠ 0) : lcg = lcg' := by
  have hmem : ∀ l, b.getBufferStateLcg l ≠ 0 →
      l ∈ (List.finRange 4).filter fun lcg => b.getBufferStateLcg lcg > 0 := fun l hl =>
    List.mem_filter.mpr ⟨List.mem_finRange l, decide_eq_true (Nat.pos_of_ne_zero hl)⟩
  obtain ⟨i, hi⟩ | hnil : (∃ i, ((List.finRange 4).filter fun lcg =>
      b.getBufferStateLcg lcg > 0) = [i]) ∨ ((List.finRange 4).filter fun lcg =>
      b.getBufferStateLcg lcg > 0) = [] := by
    rcases Nat.le_one_iff_eq_zero_or_eq_one.mp h with hzero | hone
    · exact Or.inr (List.length_eq_zero_iff.mp hzero)
    · exact Or.inl (List.length_eq_one_iff.mp hone)
  · have h₁ := hmem lcg hlcg
    have h₂ := hmem lcg' hlcg'
    rw [hi, List.mem_singleton] at h₁ h₂
    exact h₁.trans h₂.symm
  · have h₁ := hmem lcg hlcg
    rw [hnil] at h₁
    exact absurd h₁ List.not_mem_nil

theorem reports_short (h : b.nofLcg ≤ 1) : (Bsr.mk .shortBsr b.getBufferStateLcg).Reports
    b.getBufferStateLcg := by
  intro lcg n hn
  obtain rfl := Option.some.inj hn
  dsimp only
  split_ifs with hnamed
  · rfl
  · by_contra hne
    exact hnamed (eq_of_nofLcg_le_one h (Ne.symm hne) (nonzeroLcg_ne_zero (Ne.symm hne)))

theorem maxPriority_mem (l : List (Fin 4 × BsrLcid)) (best : ℕ × Fin 4) :
    (maxPriority l best).2 = best.2 ∨
      ∃ e ∈ l, e.1 = (maxPriority l best).2 ∧ e.2.oldBuffer > 0 := by
  induction l generalizing best with
  | nil => exact Or.inl rfl
  | cons e l ih =>
    obtain ⟨lcg, c⟩ := e
    unfold maxPriority
    rcases ih (if c.priority < best.1 ∧ c.oldBuffer > 0 then (c.priority, lcg) else best) with
      hbest | ⟨e, he, hlcg, hdata⟩
    · rw [hbest]
      split_ifs with hc
      · exact Or.inr ⟨_, List.mem_cons_self, rfl, hc.2⟩
      · exact Or.inl rfl
    · exact Or.inr ⟨e, List.mem_cons_of_mem _ he, hlcg, hdata⟩

theorem le_getBufferStateLcg {lcg : Fin 4} {e : ℕ × BsrLcid} (he : e ∈ (b.lcgs lcg).entries) :
    e.2.oldBuffer ≤ b.getBufferStateLcg lcg :=
  List.le_sum_of_mem (List.mem_map_of_mem (f := fun e : ℕ × BsrLcid => e.2.oldBuffer) he)

theorem findMaxPriority_data (b : BsrProc) : b.findMaxPriorityLcgWithData = 0 ∨
    b.getBufferStateLcg b.findMaxPriorityLcgWithData ≠ 0 := by
  refine (maxPriority_mem _ (99, 0)).imp_right ?_
  rintro ⟨⟨lcg, c⟩, hmem, hlcg, hdata⟩
  obtain ⟨lcg', -, hmem⟩ := List.mem_flatMap.mp hmem
  obtain ⟨e, he, heq⟩ := List.mem_map.mp hmem
  obtain ⟨rfl, rfl⟩ := Prod.mk.injEq .. ▸ heq
  have hle := le_getBufferStateLcg he
  change lcg' = b.findMaxPriorityLcgWithData at hlcg
  rw [← hlcg]
  change e.2.oldBuffer > 0 at hdata
  omega

theorem reports_trunc (b : BsrProc) : (Bsr.mk .truncBsr fun lcg =>
    if b.findMaxPriorityLcgWithData ≠ lcg then 0 else b.getBufferStateLcg lcg).Reports
      b.getBufferStateLcg := by
  intro lcg n hn
  unfold Bsr.reported at hn
  dsimp only at hn
  split_ifs at hn with hnamed hother
  · exfalso
    subst hnamed
    -- the group named has no size although the group of highest priority is not it
    by_cases hdata : b.getBufferStateLcg b.findMaxPriorityLcgWithData = 0
    · rcases findMaxPriority_data b with hzero | hdata'
      · refine hother (hzero.trans (nonzeroLcg_eq_zero fun lcg => ?_).symm)
        split_ifs with hlcg
        · rfl
        · rw [← not_not.mp hlcg]
          exact hdata
      · exact hdata' hdata
    · let sizes := fun lcg =>
        if b.findMaxPriorityLcgWithData ≠ lcg then 0 else b.getBufferStateLcg lcg
      have hsizes : sizes b.findMaxPriorityLcgWithData ≠ 0 := by
        rwa [show sizes _ = _ from if_neg (not_not.mpr rfl)]
      exact nonzeroLcg_ne_zero hsizes (if_pos hother)
  · exact (Option.some.inj hn).symm

theorem reports_long (b : BsrProc) :
    (Bsr.mk .longBsr b.getBufferStateLcg).Reports b.getBufferStateLcg := by
  intro lcg n hn
  exact (Option.some.inj hn).symm

theorem reports_generateBsr (b : BsrProc) (nofPaddingBytes : ℕ) :
    (b.generateBsr nofPaddingBytes).Reports b.getBufferStateLcg := by
  unfold generateBsr
  dsimp only
  change (if _ then if _ then if b.nofLcg > 1 then _ else _ else _ else
    Bsr.mk (if b.nofLcg > 1 then _ else _) _).Reports _
  split_ifs with hpadding hbytes hmany hmany
  · exact reports_trunc b
  · exact reports_short (Nat.le_of_not_lt hmany)
  · exact reports_long b
  · exact reports_long b
  · exact reports_short (Nat.le_of_not_lt hmany)

theorem bsrSz_generateBsr_padding {nofPaddingBytes : ℕ} (h : nofPaddingBytes ≥ 2) :
    bsrSz ((b.setTrigger .padding).generateBsr nofPaddingBytes) + 1 ≤ nofPaddingBytes := by
  unfold generateBsr
  dsimp only
  rw [if_pos (show (b.setTrigger .padding).triggeredBsrType = .padding from rfl)]
  split_ifs with hbytes hmany
  · exact h
  · exact h
  · exact Nat.le_of_not_lt hbytes

theorem two_le_sizeHeaderSdu (n : ℕ) : 2 ≤ sizeHeaderSdu n := by
  unfold sizeHeaderSdu
  split_ifs
  · exact Nat.le_refl 2
  · exact Nat.le_succ 2

theorem sum_oldBuffer_le (es : List (ℕ × BsrLcid)) :
    (es.map fun e => e.2.oldBuffer).sum + 2 * es.length ≤
      ((es.map Prod.snd).map fun c => sizeHeaderSdu c.oldBuffer + c.oldBuffer).sum := by
  induction es with
  | nil => exact Nat.le_refl _
  | cons e es ih =>
    have htwo := two_le_sizeHeaderSdu e.2.oldBuffer
    simp only [List.map_cons, List.sum_cons, List.length_cons]
    omega

theorem three_mul_nofLcg_le (b : BsrProc) (lcgs : List (Fin 4)) :
    3 * (lcgs.filter fun lcg => b.getBufferStateLcg lcg > 0).length ≤
      ((lcgs.flatMap fun lcg => (b.lcgs lcg).entries.map Prod.snd).map fun c =>
        sizeHeaderSdu c.oldBuffer + c.oldBuffer).sum := by
  induction lcgs with
  | nil => exact Nat.le_refl _
  | cons lcg lcgs ih =>
    rw [List.flatMap_cons, List.map_append, List.sum_append]
    have hpart := sum_oldBuffer_le (b.lcgs lcg).entries
    by_cases hdata : b.getBufferStateLcg lcg > 0
    · rw [List.filter_cons_of_pos (by simpa using hdata), List.length_cons]
      have hne : (b.lcgs lcg).entries ≠ [] := by
        intro hnil
        rw [getBufferStateLcg, hnil] at hdata
        exact absurd hdata (Nat.lt_irrefl 0)
      have hlen := List.length_pos_iff.mpr hne
      change 0 < ((b.lcgs lcg).entries.map fun e => e.2.oldBuffer).sum at hdata
      omega
    · rw [List.filter_cons_of_neg (by simpa using hdata)]
      omega

theorem totalData_eq (b : BsrProc) : b.totalData =
    ((b.lcids.map fun c => sizeHeaderSdu c.oldBuffer + c.oldBuffer).sum : ℕ) - 1 := by
  unfold totalData
  rw [Nat.cast_list_sum, List.map_map]
  congr 3

theorem lcids_eq_nil_of_totalData {grantSize : ℕ} (hsmall : grantSize < bsrSz (b.generateBsr 0))
    (htrigger : b.Triggered) (hall : b.totalData < grantSize) : b.lcids = [] := by
  rw [totalData_eq] at hall
  have hnot : b.triggeredBsrType ≠ .padding := by
    rcases htrigger with h | h <;> simp [h]
  have hformat : bsrSz (b.generateBsr 0) = if b.nofLcg > 1 then 3 else 1 := by
    unfold generateBsr bsrSz
    dsimp only
    rw [if_neg hnot]
    change (if (if b.nofLcg > 1 then _ else _) = _ then _ else _) = _
    split_ifs <;> simp_all
  have hdata : 3 * b.nofLcg ≤ (b.lcids.map fun c => sizeHeaderSdu c.oldBuffer + c.oldBuffer).sum :=
    three_mul_nofLcg_le b (List.finRange 4)
  rw [hformat] at hsmall
  split_ifs at hsmall with hmany
  · omega
  · cases hlcids : b.lcids with
    | nil => rfl
    | cons c cs =>
      rw [hlcids, List.map_cons, List.sum_cons] at hall
      have htwo := two_le_sizeHeaderSdu c.oldBuffer
      omega

end BsrProc

namespace UlMac

open Mux SchPdu

variable {ρ : Type*} (rlc : RlcMac ρ) (s : UlMac) (r : ρ) (pduSz phrValue : ℕ)

def firstPdu : SchPdu := (s.mux.ccchOrCRnti rlc r pduSz).1

/-- The answer of `need_to_send_bsr_on_ul_grant`. -/
def regularBsr : Option Bsr × BsrProc :=
  s.bsr.needToSendBsrOnUlGrant (s.firstPdu rlc r pduSz).remLen

def bsrPdu : SchPdu :=
  match (s.regularBsr rlc r pduSz).1 with
  | some report => addCe (s.firstPdu rlc r pduSz) (.bsr report.format report.buffSize)
  | none => s.firstPdu rlc r pduSz

def phrPdu : SchPdu :=
  if s.phr then addCe (s.bsrPdu rlc r pduSz) (.phr phrValue) else s.bsrPdu rlc r pduSz

def dataPdu : SchPdu :=
  let p := s.phrPdu rlc r pduSz phrValue
  let r := (s.mux.ccchOrCRnti rlc r pduSz).2
  (allocateAll rlc (s.mux.schedule rlc r p.getSduSpace) p r).1

def paddingBsr : Option Bsr × BsrProc :=
  if (s.regularBsr rlc r pduSz).1.isNone then
    (s.regularBsr rlc r pduSz).2.generatePaddingBsr (s.dataPdu rlc r pduSz phrValue).remLen
  else (none, (s.regularBsr rlc r pduSz).2)

def lastPdu : SchPdu :=
  match (s.paddingBsr rlc r pduSz phrValue).1 with
  | some report => addCe (s.dataPdu rlc r pduSz phrValue) (.bsr report.format report.buffSize)
  | none => s.dataPdu rlc r pduSz phrValue

theorem pduGet_packet :
    (s.pduGet rlc r pduSz phrValue).1 = (s.lastPdu rlc r pduSz phrValue).writePacket := rfl

theorem pduGet_bsr :
    (s.pduGet rlc r pduSz phrValue).2.1.bsr = (s.paddingBsr rlc r pduSz phrValue).2 := rfl

def Included : Prop :=
  s.bsr.Triggered ∧ BsrProc.bsrSz (s.bsr.generateBsr 0) ≤ (s.firstPdu rlc r pduSz).remLen

instance : Decidable (s.Included rlc r pduSz) := inferInstanceAs (Decidable (_ ∧ _))

def CRntiFits : Prop :=
  s.mux.pendingCrntiCe ≠ 0 → (allocateSdu rlc 0 (startPdu pduSz) r pduSz).2.2 = false →
    pduSz = 0 ∨ 3 ≤ pduSz

def bsrSpace : ℕ :=
  if s.Included rlc r pduSz then BsrProc.bsrSz (s.bsr.generateBsr 0) + 1 else 0

/-- The reports fit with their subheaders behind the CCCH data and the C-RNTI CE. -/
structure RoomForReports : Prop where
  grant : pduSz ≤ clearedBuffer.tailroom
  cRnti : s.CRntiFits rlc r pduSz
  bsr : s.bsrSpace rlc r pduSz ≤ (s.firstPdu rlc r pduSz).remLen
  bsrSubheader : s.bsr.Triggered → s.Included rlc r pduSz ∨ 2 ≤ (s.firstPdu rlc r pduSz).remLen →
    (s.firstPdu rlc r pduSz).subheaders.length + 1 < maxNofSubheaders
  phr : s.phr = true → s.bsrSpace rlc r pduSz + 2 ≤ (s.firstPdu rlc r pduSz).remLen
  phrSubheader : s.phr = true → (s.firstPdu rlc r pduSz).subheaders.length +
    (if s.Included rlc r pduSz then 1 else 0) + 1 < maxNofSubheaders

variable {rlc s r pduSz phrValue}

theorem firstPdu_filled (h : s.CRntiFits rlc r pduSz) :
    ∃ ss, Filled pduSz ss (s.firstPdu rlc r pduSz) := by
  have hgrown : Grown pduSz [] (startPdu pduSz) (allocateSdu rlc 0 (startPdu pduSz) r pduSz).1 :=
    allocateLoop_grown (Nat.zero_lt_succ _) _ (filled_start pduSz) r pduSz
  obtain ⟨more, hfilled, -⟩ := hgrown.filled
  unfold firstPdu ccchOrCRnti
  dsimp only
  split_ifs with hcrnti
  · obtain ⟨hnone, hpending⟩ := hcrnti
    have hnone : (allocateSdu rlc 0 (startPdu pduSz) r pduSz).2.2 = false :=
      by rwa [Bool.not_eq_true'] at hnone
    have hstart : (allocateSdu rlc 0 (startPdu pduSz) r pduSz).1 = startPdu pduSz :=
      allocateLoop_unchanged 0 _ r pduSz hnone
    change ∃ ss, Filled pduSz ss (addCe (allocateSdu rlc 0 (startPdu pduSz) r pduSz).1 _)
    rw [hstart]
    rcases h hpending hnone with hzero | hthree
    · rw [(filled_start pduSz).addCe_of_full _ fun hc => absurd hzero (Nat.ne_of_gt hc.2)]
      exact ⟨[], filled_start pduSz⟩
    · exact ⟨_, ((filled_start pduSz).addCe (.cRnti s.mux.pendingCrntiCe) rfl
        (Nat.lt_of_sub_eq_succ rfl) hthree).1⟩
  · exact ⟨_, hfilled⟩

theorem regularBsr_included (h : s.Included rlc r pduSz) :
    s.regularBsr rlc r pduSz = (some (s.bsr.generateBsr 0), s.bsr.setTrigger .none) :=
  if_pos h

theorem regularBsr_not_included (h : ¬ s.Included rlc r pduSz) : s.regularBsr rlc r pduSz =
    (none, if s.bsr.totalData < (s.firstPdu rlc r pduSz).remLen then s.bsr.setTrigger .none
      else s.bsr) :=
  if_neg h

def bsrCe (report : Bsr) : SchSetting := .ce (.bsr report.format report.buffSize)

theorem bsrPdu_filled (h : s.RoomForReports rlc r pduSz) :
    ∃ ss, Filled pduSz ss (s.bsrPdu rlc r pduSz) ∧
      (s.Included rlc r pduSz → bsrCe (s.bsr.generateBsr 0) ∈ ss) ∧
      (s.bsrPdu rlc r pduSz).remLen =
        (s.firstPdu rlc r pduSz).remLen - s.bsrSpace rlc r pduSz ∧
      ss.length = (s.firstPdu rlc r pduSz).subheaders.length +
        if s.Included rlc r pduSz then 1 else 0 := by
  obtain ⟨ss, hfirst⟩ := firstPdu_filled h.cRnti
  have hlen := hfirst.length_subheaders
  by_cases hinc : s.Included rlc r pduSz
  · have hspace := h.bsr
    unfold bsrPdu bsrSpace at *
    rw [if_pos hinc] at hspace ⊢
    rw [if_pos hinc, regularBsr_included hinc]
    dsimp only
    have hbytes := length_bytes_bsr (s.bsr.generateBsr 0)
    obtain ⟨hfilled, hrem⟩ := hfirst.addCe _
      (sizeofCe_bsr (s.bsr.generateBsr 0).format (s.bsr.generateBsr 0).buffSize)
      (hlen ▸ h.bsrSubheader hinc.1 (Or.inl hinc)) (by rwa [hbytes])
    rw [hbytes] at hrem
    exact ⟨_, hfilled, fun _ => List.mem_append_right _ List.mem_cons_self, hrem, by
      rw [List.length_append, hlen]; rfl⟩
  · unfold bsrPdu bsrSpace
    rw [if_neg hinc, if_neg hinc, regularBsr_not_included hinc]
    exact ⟨ss, hfirst, fun hc => absurd hc hinc, rfl, hlen.symm⟩

theorem phrPdu_filled (phrValue : ℕ) (h : s.RoomForReports rlc r pduSz) :
    ∃ ss, Filled pduSz ss (s.phrPdu rlc r pduSz phrValue) ∧
      (s.Included rlc r pduSz → bsrCe (s.bsr.generateBsr 0) ∈ ss) ∧
      (s.phr = true → .ce (.phr phrValue) ∈ ss) ∧
      (s.phrPdu rlc r pduSz phrValue).remLen = (s.firstPdu rlc r pduSz).remLen -
        s.bsrSpace rlc r pduSz - (if s.phr then 2 else 0) ∧
      ss.length = (s.firstPdu rlc r pduSz).subheaders.length +
        (if s.Included rlc r pduSz then 1 else 0) + if s.phr then 1 else 0 := by
  obtain ⟨ss, hbsr, hmem, hrem, hlen⟩ := bsrPdu_filled h
  unfold phrPdu
  by_cases hphr : s.phr = true
  · have hspace := h.phr hphr
    simp only [hphr, if_true]
    obtain ⟨hfilled, hrem'⟩ := hbsr.addCe (.phr phrValue) rfl (hlen ▸ h.phrSubheader hphr)
      (by rw [hrem]; change 2 ≤ _; omega)
    refine ⟨_, hfilled, fun hinc => List.mem_append_left _ (hmem hinc),
      fun _ => List.mem_append_right _ List.mem_cons_self, ?_, ?_⟩
    · rw [hrem', hrem]
      rfl
    · rw [List.length_append, hlen]
      rfl
  · rw [if_neg hphr, if_neg hphr, if_neg hphr]
    exact ⟨ss, hbsr, hmem, fun hc => absurd hc hphr, hrem, hlen⟩

theorem dataPdu_filled (phrValue : ℕ) (h : s.RoomForReports rlc r pduSz) :
    ∃ ss, Filled pduSz ss (s.dataPdu rlc r pduSz phrValue) ∧
      (s.Included rlc r pduSz → bsrCe (s.bsr.generateBsr 0) ∈ ss) ∧
      (s.phr = true → .ce (.phr phrValue) ∈ ss) ∧
      (s.dataPdu rlc r pduSz phrValue).remLen + 2 * ss.length ≤
        (s.firstPdu rlc r pduSz).remLen - s.bsrSpace rlc r pduSz - (if s.phr then 2 else 0) +
          2 * ((s.firstPdu rlc r pduSz).subheaders.length +
            (if s.Included rlc r pduSz then 1 else 0) + if s.phr then 1 else 0) ∧
      (s.firstPdu rlc r pduSz).subheaders.length +
        (if s.Included rlc r pduSz then 1 else 0) + (if s.phr then 1 else 0) ≤ ss.length := by
  obtain ⟨ss, hphr, hbsrMem, hphrMem, hrem, hlen⟩ := phrPdu_filled phrValue h
  obtain ⟨more, hfilled, hless⟩ := (allocateAll_grown (s.mux.schedule rlc
    (s.mux.ccchOrCRnti rlc r pduSz).2 (s.phrPdu rlc r pduSz phrValue).getSduSpace) hphr
      (s.mux.ccchOrCRnti rlc r pduSz).2).filled
  refine ⟨_, hfilled, fun hinc => List.mem_append_left _ (hbsrMem hinc),
    fun hc => List.mem_append_left _ (hphrMem hc), ?_, ?_⟩
  · change (allocateAll rlc _ _ _).1.remLen + _ ≤ _
    rw [List.length_append, ← hrem, ← hlen]
    omega
  · rw [List.length_append, ← hlen]
    exact Nat.le_add_right _ _

theorem paddingBsr_included (phrValue : ℕ) (h : s.Included rlc r pduSz) :
    s.paddingBsr rlc r pduSz phrValue = (none, s.bsr.setTrigger .none) := by
  unfold paddingBsr
  rw [regularBsr_included h]
  rfl

theorem paddingBsr_not_included (phrValue : ℕ) (h : ¬ s.Included rlc r pduSz) :
    s.paddingBsr rlc r pduSz phrValue =
      (s.regularBsr rlc r pduSz).2.generatePaddingBsr (s.dataPdu rlc r pduSz phrValue).remLen := by
  unfold paddingBsr
  rw [regularBsr_not_included h]
  rfl

theorem generatePaddingBsr_regularBsr (h : ¬ s.Included rlc r pduSz) (n : ℕ) :
    (s.regularBsr rlc r pduSz).2.generatePaddingBsr n =
      if n ≥ 2 then (some ((s.bsr.setTrigger .padding).generateBsr n), s.bsr.setTrigger .none)
      else (none, (s.regularBsr rlc r pduSz).2) := by
  rw [regularBsr_not_included h]
  unfold BsrProc.generatePaddingBsr
  split_ifs <;> rfl

theorem remLen_of_not_included (htrigger : s.bsr.Triggered) (h : ¬ s.Included rlc r pduSz) :
    (s.firstPdu rlc r pduSz).remLen < BsrProc.bsrSz (s.bsr.generateBsr 0) ∧
      (s.firstPdu rlc r pduSz).remLen ≤ 2 := by
  have hlt : (s.firstPdu rlc r pduSz).remLen < BsrProc.bsrSz (s.bsr.generateBsr 0) :=
    Nat.lt_of_not_le fun hle => h ⟨htrigger, hle⟩
  have hthree : BsrProc.bsrSz (s.bsr.generateBsr 0) ≤ 3 := by
    unfold BsrProc.bsrSz
    split_ifs <;> omega
  exact ⟨hlt, by omega⟩

theorem lastPdu_filled (phrValue : ℕ) (h : s.RoomForReports rlc r pduSz) :
    ∃ ss, Filled pduSz ss (s.lastPdu rlc r pduSz phrValue) ∧
      (s.Included rlc r pduSz → bsrCe (s.bsr.generateBsr 0) ∈ ss) ∧
      (s.phr = true → .ce (.phr phrValue) ∈ ss) ∧
      (s.bsr.Triggered → ∀ report, (s.paddingBsr rlc r pduSz phrValue).1 = some report →
        bsrCe report ∈ ss) := by
  obtain ⟨ss, hdata, hbsrMem, hphrMem, hless, hlen⟩ := dataPdu_filled phrValue h
  unfold lastPdu
  by_cases hinc : s.Included rlc r pduSz
  · rw [paddingBsr_included phrValue hinc]
    exact ⟨ss, hdata, hbsrMem, hphrMem, fun _ report hc => absurd hc (by simp)⟩
  · rw [paddingBsr_not_included phrValue hinc, generatePaddingBsr_regularBsr hinc]
    by_cases htwo : (s.dataPdu rlc r pduSz phrValue).remLen ≥ 2
    · rw [if_pos htwo]
      dsimp only
      let report := (s.bsr.setTrigger .padding).generateBsr
        (s.dataPdu rlc r pduSz phrValue).remLen
      have hspace : (CeSetting.bsr report.format report.buffSize).bytes.length + 1 ≤
          (s.dataPdu rlc r pduSz phrValue).remLen := by
        rw [length_bytes_bsr]
        exact BsrProc.bsrSz_generateBsr_padding htwo
      have hsize := sizeofCe_bsr report.format report.buffSize
      by_cases htrigger : s.bsr.Triggered
      · -- the report missed two bytes of space, so that no SDU and no PHR came after it
        have hle := (remLen_of_not_included htrigger hinc).2
        rw [if_neg hinc] at hless hlen
        have hnophr : ¬ s.phr = true := by
          intro hphr
          rw [if_pos hphr, if_pos hphr] at hless
          rw [if_pos hphr] at hlen
          omega
        rw [if_neg hnophr, if_neg hnophr] at hless
        have hfew := h.bsrSubheader htrigger (Or.inr (by omega))
        obtain ⟨hfilled, -⟩ := hdata.addCe _ hsize (by omega) hspace
        refine ⟨_, hfilled, fun hc => absurd hc hinc,
          fun hc => List.mem_append_left _ (hphrMem hc), fun _ report' hc => ?_⟩
        obtain rfl := Option.some.inj hc
        exact List.mem_append_right _ List.mem_cons_self
      · obtain ⟨more, hfilled⟩ := hdata.addCe_fits _ hsize hspace
        exact ⟨_, hfilled, fun hc => absurd hc hinc,
          fun hc => List.mem_append_left _ (hphrMem hc), fun hc => absurd hc htrigger⟩
    · rw [if_neg htwo]
      exact ⟨ss, hdata, hbsrMem, hphrMem, fun _ report hc => absurd hc (by simp)⟩

def CarriesBsr (bytes : Bytes) (buffers : Fin 4 → ℕ) : Prop :=
  ∃ report : Bsr, Carries bytes (.bsr report.format report.buffSize) ∧ report.Reports buffers

def CarriesData (bytes : Bytes) (b : BsrProc) : Prop :=
  ∀ lcg, ∀ e ∈ (b.lcgs lcg).entries, 0 < e.2.oldBuffer →
    ∃ es, bytes = MacEntry.encode es ∧
      e.2.oldBuffer ≤ ((es.filter fun entry => entry.lcid = e.1).map fun entry =>
        entry.payload.length).sum

/-- A triggered BSR stays triggered, or the PDU that was returned reports or empties the buffers. -/
def BsrKept (packet : Option Bytes) (before after : BsrProc) : Prop :=
  before.Triggered → after.triggeredBsrType = before.triggeredBsrType ∨
    after.triggeredBsrType = .none ∧ ∃ bytes, packet = some bytes ∧
      (CarriesBsr bytes before.getBufferStateLcg ∨ CarriesData bytes before)

def PhrKept (packet : Option Bytes) (phrValue : ℕ) (before after : Bool) : Prop :=
  before = true → after = true ∨ ∃ bytes, packet = some bytes ∧ Carries bytes (.phr phrValue)

theorem carriesData_of_lcids {b : BsrProc} (h : b.lcids = []) (bytes : Bytes) :
    CarriesData bytes b := by
  intro lcg e he
  have hmem : e.2 ∈ b.lcids :=
    List.mem_flatMap.mpr ⟨lcg, List.mem_finRange lcg, List.mem_map_of_mem he⟩
  rw [h] at hmem
  exact absurd hmem List.not_mem_nil

theorem pduGet_bsrKept (phrValue : ℕ) (h : s.RoomForReports rlc r pduSz) :
    BsrKept (s.pduGet rlc r pduSz phrValue).1 s.bsr (s.pduGet rlc r pduSz phrValue).2.1.bsr := by
  intro htrigger
  obtain ⟨ss, hlast, hbsrMem, -, hpadMem⟩ := lastPdu_filled phrValue h
  obtain ⟨bytes, hbytes, hcarries⟩ := hlast.writePacket h.grant
  rw [pduGet_bsr, pduGet_packet]
  by_cases hinc : s.Included rlc r pduSz
  · refine Or.inr ⟨?_, bytes, hbytes, Or.inl ⟨_, hcarries _ (hbsrMem hinc),
      s.bsr.reports_generateBsr 0⟩⟩
    rw [paddingBsr_included phrValue hinc]
    rfl
  · have hpad := paddingBsr_not_included phrValue hinc
    rw [generatePaddingBsr_regularBsr hinc] at hpad
    by_cases htwo : (s.dataPdu rlc r pduSz phrValue).remLen ≥ 2
    · rw [if_pos htwo] at hpad
      refine Or.inr ⟨?_, bytes, hbytes, Or.inl ⟨_, hcarries _ (hpadMem htrigger _ ?_),
        (s.bsr.setTrigger .padding).reports_generateBsr
          (s.dataPdu rlc r pduSz phrValue).remLen⟩⟩
      · rw [hpad]
        rfl
      · exact congrArg Prod.fst hpad
    · rw [if_neg htwo, regularBsr_not_included hinc] at hpad
      rw [hpad]
      by_cases hall : s.bsr.totalData < (s.firstPdu rlc r pduSz).remLen
      · have hnone := BsrProc.lcids_eq_nil_of_totalData (remLen_of_not_included htrigger hinc).1
          htrigger hall
        refine Or.inr ⟨?_, bytes, hbytes, Or.inr (carriesData_of_lcids hnone bytes)⟩
        rw [if_pos hall]
        rfl
      · rw [if_neg hall]
        exact Or.inl rfl

theorem pduGet_phrKept (phrValue : ℕ) (h : s.RoomForReports rlc r pduSz) :
    PhrKept (s.pduGet rlc r pduSz phrValue).1 phrValue s.phr
      (s.pduGet rlc r pduSz phrValue).2.1.phr := by
  intro hphr
  obtain ⟨ss, hlast, -, hphrMem, -⟩ := lastPdu_filled phrValue h
  obtain ⟨bytes, hbytes, hcarries⟩ := hlast.writePacket h.grant
  exact Or.inr ⟨bytes, hbytes, hcarries _ (hphrMem hphr)⟩

def RoomAt (rlc : RlcMac ρ) (s : UlMac) : Event ρ → Prop
  | .pduGet r pduSz _ => s.bsr.Triggered ∨ s.phr = true → s.RoomForReports rlc r pduSz
  | _ => True

def Kept (rlc : RlcMac ρ) (s : UlMac) : Event ρ → Prop
  | .pduGet r pduSz phrValue =>
    BsrKept (s.pduGet rlc r pduSz phrValue).1 s.bsr (s.pduGet rlc r pduSz phrValue).2.1.bsr ∧
      PhrKept (s.pduGet rlc r pduSz phrValue).1 phrValue s.phr
        (s.pduGet rlc r pduSz phrValue).2.1.phr
  | .reset => True
  | e => (s.bsr.Triggered → (s.step rlc e).bsr.Triggered) ∧
      (s.phr = true → (s.step rlc e).phr = true)

theorem kept_pduGet {phrValue : ℕ} (h : s.RoomAt rlc (.pduGet r pduSz phrValue)) :
    s.Kept rlc (.pduGet r pduSz phrValue) :=
  ⟨fun htrigger => pduGet_bsrKept phrValue (h (Or.inl htrigger)) htrigger,
    fun hphr => pduGet_phrKept phrValue (h (Or.inr hphr)) hphr⟩

theorem triggered_step (b : BsrProc) (h : b.Triggered) : (b.step rlc r).Triggered := by
  unfold BsrProc.step
  dsimp only
  split_ifs with hnew
  · exact Or.inr rfl
  · exact h

theorem triggered_setupLcid (b : BsrProc) (lcid newLcg priority : ℕ) (h : b.Triggered) :
    (b.setupLcid lcid newLcg priority).Triggered := by
  unfold BsrProc.setupLcid
  split_ifs with hlcg
  · exact h
  · exact h

theorem triggered_timerPeriodicExpired (b : BsrProc) (h : b.Triggered) :
    b.timerPeriodicExpired.Triggered := by
  unfold BsrProc.timerPeriodicExpired
  split_ifs with hnone
  · exact Or.inl rfl
  · exact h

theorem triggered_timerRetxExpired (b : BsrProc) (h : b.Triggered) :
    b.timerRetxExpired.Triggered := by
  unfold BsrProc.timerRetxExpired
  split_ifs with hany
  · exact Or.inr rfl
  · exact h

theorem kept_step {e : Event ρ} (h : s.RoomAt rlc e) : s.Kept rlc e := by
  cases e with
  | runTti r => exact ⟨triggered_step s.bsr, id⟩
  | reset => trivial
  | setupLcid config => exact ⟨triggered_setupLcid s.bsr _ _ _, id⟩
  | timerPeriodicExpired => exact ⟨triggered_timerPeriodicExpired s.bsr, id⟩
  | timerRetxExpired => exact ⟨triggered_timerRetxExpired s.bsr, id⟩
  | phrTriggered => exact ⟨id, fun _ => rfl⟩
  | appendCrntiCe crnti => exact ⟨id, id⟩
  | pduGet r pduSz phrValue => exact kept_pduGet h

/-- In every run whose grants have room for the reports, none is lost. -/
theorem reports_kept (rlc : RlcMac ρ) (events : List (Event ρ))
    (h : EventRun.Along (UlMac.step rlc) (UlMac.RoomAt rlc) init events) :
    EventRun.Along (UlMac.step rlc) (UlMac.Kept rlc) init events :=
  EventRun.along_mono (I := fun _ => True) (fun _ _ _ _ => trivial)
    (fun _ _ _ hroom => kept_step hroom) trivial h

def Reported (rlc : RlcMac ρ) (s : UlMac) : Event ρ → Prop
  | .pduGet r pduSz phrValue => ∃ bytes, (s.pduGet rlc r pduSz phrValue).1 = some bytes ∧
      (CarriesBsr bytes s.bsr.getBufferStateLcg ∨ CarriesData bytes s.bsr)
  | _ => False

def ReportedIn (rlc : RlcMac ρ) : UlMac → List (Event ρ) → Prop
  | _, [] => False
  | s, e :: events => s.Reported rlc e ∨ ReportedIn rlc (s.step rlc e) events

theorem triggered_or_reported {e : Event ρ} (hkept : s.Kept rlc e) (hreset : e ≠ .reset)
    (htrigger : s.bsr.Triggered) : (s.step rlc e).bsr.Triggered ∨ s.Reported rlc e := by
  cases e with
  | reset => exact absurd rfl hreset
  | pduGet r pduSz phrValue =>
    rcases hkept.1 htrigger with hsame | ⟨-, hreported⟩
    · left
      change (s.pduGet rlc r pduSz phrValue).2.1.bsr.Triggered
      unfold BsrProc.Triggered
      rw [hsame]
      exact htrigger
    · exact Or.inr hreported
  | _ => exact Or.inl (hkept.1 htrigger)

/-- A report that is due stays due in a run without reset until a PDU carries it or all the data. -/
theorem run_triggered_or_reported {events : List (Event ρ)}
    (hroom : EventRun.Along (UlMac.step rlc) (UlMac.RoomAt rlc) s events)
    (hreset : ∀ e ∈ events, e ≠ .reset) (htrigger : s.bsr.Triggered) :
    (events.foldl (UlMac.step rlc) s).bsr.Triggered ∨ ReportedIn rlc s events := by
  induction events generalizing s with
  | nil => exact Or.inl htrigger
  | cons e events ih =>
    obtain ⟨hroomHere, hroomLater⟩ := hroom
    have hnot := hreset e List.mem_cons_self
    rcases triggered_or_reported (kept_step hroomHere) hnot htrigger with hstill | hreported
    · have hlater := ih hroomLater (List.forall_mem_cons.mp hreset).2 hstill
      exact hlater.imp_right Or.inr
    · exact Or.inr (Or.inl hreported)

def plainRlc : RlcMac (ℕ → ℕ) where
  getBufferState r lcid := r lcid
  readPdu r lcid nofBytes :=
    (some (List.replicate (min nofBytes (r lcid)) 7),
      fun l => if l = lcid then r l - nofBytes else r l)
  readPdu_le := by simp

def twoChannels (lcid : ℕ) : ℕ := if lcid = 1 ∨ lcid = 3 then 20 else 0

def bearer : LogicalChannel where
  lcid := 3
  lcg := 1
  bj := 0
  pbr := -1
  bucketSize := 0
  priority := 5
  schedLen := 0
  bufferLen := 0
  isData := three_isData

/-- New data, and a grant of `pduSz` bytes. -/
def grantAfterData (pduSz : ℕ) : List (Event (ℕ → ℕ)) :=
  [.setupLcid bearer, .runTti twoChannels, .phrTriggered, .pduGet twoChannels pduSz 30]

theorem reports_kept_forty :
    EventRun.Along (UlMac.step plainRlc) (UlMac.RoomAt plainRlc) init (grantAfterData 40) ∧
      EventRun.Along (UlMac.step plainRlc) (UlMac.Kept plainRlc) init (grantAfterData 40) := by
  have hroom : EventRun.Along (UlMac.step plainRlc) (UlMac.RoomAt plainRlc) init
      (grantAfterData 40) :=
    ⟨trivial, trivial, trivial, fun _ =>
      { grant := by decide
        cRnti := fun hpending => absurd rfl hpending
        bsr := by decide
        bsrSubheader := fun _ _ => by decide
        phr := fun _ => by decide
        phrSubheader := fun _ => by decide }, trivial⟩
  exact ⟨hroom, reports_kept plainRlc (grantAfterData 40) hroom⟩

/-- A Long BSR has three bytes, as the grant: the trigger is cancelled and no PDU returned. -/
theorem report_lost : ¬ EventRun.Along (UlMac.step plainRlc) (UlMac.Kept plainRlc) init
    (grantAfterData 3) := by
  rintro ⟨-, -, -, ⟨hbsr, -⟩, -⟩
  rcases hbsr (Or.inr (by decide)) with hkept | ⟨-, bytes, hbytes, -⟩
  · exact absurd hkept (by decide)
  · revert hbytes
    exact fun hbytes => absurd (hbytes.symm.trans (show _ = none by decide)) (by simp)

/-- The report of new data is in the PDU for the next grant of 40 bytes. -/
theorem reported_forty :
    let s := ((grantAfterData 40).take 3).foldl (UlMac.step plainRlc) init
    (s.step plainRlc (.pduGet twoChannels 40 30)).bsr.Triggered ∨
      ReportedIn plainRlc s [.pduGet twoChannels 40 30] :=
  @run_triggered_or_reported _ plainRlc _ [.pduGet twoChannels 40 30] ⟨fun _ =>
    { grant := by decide
      cRnti := fun hpending => absurd rfl hpending
      bsr := by decide
      bsrSubheader := fun _ _ => by decide
      phr := fun _ => by decide
      phrSubheader := fun _ => by decide }, trivial⟩ (by simp) (Or.inr (by decide))

end UlMac
end SrsLte
