import SrsLte.RlcAmRobust
import Mathlib.Logic.Function.Iterate

/-!
# The receive window of RLC acknowledged mode

The state variables and the keys of both maps, measured from `vr_r` modulo the SN space. The
reassembly empties the list of segments of an SN that it passes, but leaves the SN in the map, so
that it lies behind the window from then on.
-/

namespace SrsLte.RlcAmRx

open EventRun (Along along_congr)

theorem rxModBase_eq {rx : RlcAmRx} (hvrR : rx.vrR < rlcAmMod) (x : ℕ) :
    rx.rxModBase x = (x + (rlcAmMod - rx.vrR)) % rlcAmMod := by
  simp only [rxModBase, Word.sub32, rlcAmMod] at hvrR ⊢
  omega

/-- The SN is one of the first `n` of the window. -/
def Passed (rx : RlcAmRx) (n sn : ℕ) : Prop := ∃ i < n, sn = (rx.vrR + i) % rlcAmMod

theorem vrR_moved {rx : RlcAmRx} (hvrR : rx.vrR < rlcAmMod) (n : ℕ) :
    (moveRxWindow^[n] rx).vrR = (rx.vrR + n) % rlcAmMod := by
  induction n with
  | zero => exact (Nat.mod_eq_of_lt hvrR).symm
  | succ n ih =>
    rw [Function.iterate_succ_apply', moveRxWindow]
    dsimp only
    rw [ih, Nat.mod_add_mod, Nat.add_assoc]

theorem vrMr_moved {rx : RlcAmRx} (hvrMr : rx.vrMr < rlcAmMod) (n : ℕ) :
    (moveRxWindow^[n] rx).vrMr = (rx.vrMr + n) % rlcAmMod := by
  induction n with
  | zero => exact (Nat.mod_eq_of_lt hvrMr).symm
  | succ n ih =>
    rw [Function.iterate_succ_apply', moveRxWindow]
    dsimp only
    rw [ih, Nat.mod_add_mod, Nat.add_assoc]

theorem exists_moved (rx : RlcAmRx) (n : ℕ) :
    ∃ window segments vrR vrMr, moveRxWindow^[n] rx =
      { rx with rxWindow := window, rxSegments := segments, vrR := vrR, vrMr := vrMr } := by
  induction n with
  | zero => exact ⟨rx.rxWindow, rx.rxSegments, rx.vrR, rx.vrMr, rfl⟩
  | succ n ih =>
    obtain ⟨window, segments, vrR, vrMr, h⟩ := ih
    rw [Function.iterate_succ_apply', h]
    exact ⟨_, _, _, _, rfl⟩

theorem passed_succ {rx : RlcAmRx} {n sn : ℕ} :
    rx.Passed (n + 1) sn ↔ rx.Passed n sn ∨ sn = (rx.vrR + n) % rlcAmMod := by
  constructor
  · rintro ⟨i, hi, h⟩
    rcases Nat.lt_succ_iff_lt_or_eq.mp hi with hlt | rfl
    · exact Or.inl ⟨i, hlt, h⟩
    · exact Or.inr h
  · rintro (⟨i, hi, h⟩ | h)
    · exact ⟨i, Nat.lt_succ_of_lt hi, h⟩
    · exact ⟨n, Nat.lt_succ_self n, h⟩

open Classical in
theorem window_moved {rx : RlcAmRx} (hvrR : rx.vrR < rlcAmMod) (n sn : ℕ) :
    (moveRxWindow^[n] rx).rxWindow.find? sn =
      if rx.Passed n sn then none else rx.rxWindow.find? sn := by
  induction n with
  | zero => rw [if_neg fun ⟨i, hi, _⟩ => absurd hi (Nat.not_lt_zero i), Function.iterate_zero, id]
  | succ n ih =>
    rw [Function.iterate_succ_apply', moveRxWindow]
    dsimp only
    rw [OrderedMap.find?_erase, ih, vrR_moved hvrR, passed_succ]
    split_ifs <;> simp_all

theorem segments_moveRxWindow (rx : RlcAmRx) (sn : ℕ) :
    rx.moveRxWindow.rxSegments.find? sn =
      if sn = rx.vrR then (rx.rxSegments.find? sn).map fun _ => [] else rx.rxSegments.find? sn := by
  rw [moveRxWindow]
  cases hfind : rx.rxSegments.find? rx.vrR with
  | none =>
    simp only
    split_ifs with h
    · rw [h, hfind]
      rfl
    · rfl
  | some segments =>
    simp only [OrderedMap.find?_insert]
    split_ifs with h
    · rw [h, hfind]
      rfl
    · rfl

open Classical in
theorem segments_moved {rx : RlcAmRx} (hvrR : rx.vrR < rlcAmMod) (n sn : ℕ) :
    (moveRxWindow^[n] rx).rxSegments.find? sn =
      if rx.Passed n sn then (rx.rxSegments.find? sn).map fun _ => []
      else rx.rxSegments.find? sn := by
  induction n with
  | zero => rw [if_neg fun ⟨i, hi, _⟩ => absurd hi (Nat.not_lt_zero i), Function.iterate_zero, id]
  | succ n ih =>
    rw [Function.iterate_succ_apply', segments_moveRxWindow, ih, vrR_moved hvrR, passed_succ]
    by_cases hpassed : rx.Passed n sn <;> by_cases hlast : sn = (rx.vrR + n) % rlcAmMod
    · rw [if_pos hlast, if_pos hpassed, if_pos (Or.inl hpassed), Option.map_map]
      rfl
    · rw [if_neg hlast, if_pos hpassed, if_pos (Or.inl hpassed)]
    · rw [if_pos hlast, if_neg hpassed, if_pos (Or.inr hlast)]
    · rw [if_neg hlast, if_neg hpassed, if_neg (by rintro (h | h) <;> contradiction)]

theorem reassembleLoop_eq {fuel : ℕ} {rx rx' : RlcAmRx} (h : reassembleLoop fuel rx = .ok rx') :
    ∃ delivered sdu, rx' =
      moveRxWindow^[(inSequence fuel rx.rxWindow rx.vrR).length] (rx.withSdu delivered sdu) := by
  induction fuel generalizing rx with
  | zero =>
    cases h
    exact ⟨_, _, (withSdu_of_rxSdu rfl).symm⟩
  | succ fuel ih =>
    rw [inSequence]
    obtain ⟨hnone, rfl⟩ | ⟨delivered, sdu, hsome, hnext⟩ := reassembleLoop_succ h
    · rw [hnone]
      exact ⟨_, _, (withSdu_of_rxSdu rfl).symm⟩
    · obtain ⟨pdu, hfind⟩ := Option.isSome_iff_exists.mp hsome
      rw [hfind]
      exact ih hnext

theorem isSome_of_lt_inSequence {fuel : ℕ} {window : OrderedMap ℕ RlcAmdRxPdu} {sn i : ℕ}
    (hsn : sn < rlcAmMod) (hi : i < (inSequence fuel window sn).length) :
    (window.find? ((sn + i) % rlcAmMod)).isSome = true := by
  induction fuel generalizing window sn i with
  | zero => exact absurd hi (Nat.not_lt_zero i)
  | succ fuel ih =>
    rw [inSequence] at hi
    cases hfind : window.find? sn with
    | none =>
      simp only [hfind] at hi
      exact absurd hi (Nat.not_lt_zero i)
    | some pdu =>
      simp only [hfind, List.length_cons] at hi
      cases i with
      | zero => rw [Nat.add_zero, Nat.mod_eq_of_lt hsn, hfind]; rfl
      | succ i =>
        have hnext := ih (Nat.mod_lt _ (by decide)) (Nat.lt_of_succ_lt_succ hi)
        rw [Nat.mod_add_mod, Nat.add_assoc, Nat.add_comm 1 i, OrderedMap.find?_erase] at hnext
        split_ifs at hnext
        · exact absurd hnext Bool.false_ne_true
        · exact hnext

theorem reassembleLoop_reaches {fuel : ℕ} {rx rx' : RlcAmRx}
    (hfuel : rx.rxWindow.entries.length ≤ fuel) (h : reassembleLoop fuel rx = .ok rx') :
    rx'.rxWindow.find? rx'.vrR = none := by
  induction fuel generalizing rx with
  | zero =>
    cases h
    exact OrderedMap.find?_of_entries_nil _ (List.eq_nil_of_length_eq_zero (Nat.le_zero.mp hfuel))
  | succ fuel ih =>
    obtain ⟨hnone, rfl⟩ | ⟨delivered, sdu, hsome, hnext⟩ := reassembleLoop_succ h
    · exact hnone
    · obtain ⟨pdu, hfind⟩ := Option.isSome_iff_exists.mp hsome
      refine ih ?_ hnext
      have hlength : (rx.rxWindow.erase rx.vrR).entries.length + 1 =
          rx.rxWindow.entries.length := OrderedMap.length_erase hfind
      exact Nat.le_of_succ_le_succ (hlength.trans_le hfuel)

theorem rxModBase_succ {rx : RlcAmRx} (hvrR : rx.vrR < rlcAmMod) {x : ℕ}
    (h : rx.rxModBase x + 1 < rlcAmMod) :
    rx.rxModBase ((x + 1) % rlcAmMod) = rx.rxModBase x + 1 := by
  rw [rxModBase_eq hvrR] at h ⊢
  rw [rxModBase_eq hvrR]
  simp only [rlcAmMod] at h hvrR ⊢
  omega

theorem advanceVrMs_spec {fuel : ℕ} {rx : RlcAmRx} (hvrR : rx.vrR < rlcAmMod)
    (hkeys : ∀ sn pdu, rx.rxWindow.find? sn = some pdu → rx.rxModBase sn < rx.rxModBase rx.vrH)
    (hvrH : rx.rxModBase rx.vrH ≤ rlcAmWindowSize) (hvrMs : rx.vrMs < rlcAmMod)
    (hle : rx.rxModBase rx.vrMs ≤ rx.rxModBase rx.vrH)
    (hfuel : (rx.rxWindow.entries.filter fun e =>
      rx.rxModBase rx.vrMs ≤ rx.rxModBase e.1).length ≤ fuel) :
    ∃ vrMs, advanceVrMs fuel rx = { rx with vrMs := vrMs } ∧ vrMs < rlcAmMod ∧
      rx.rxWindow.find? vrMs = none ∧ rx.rxModBase vrMs ≤ rx.rxModBase rx.vrH := by
  induction fuel generalizing rx with
  | zero =>
    refine ⟨rx.vrMs, rfl, hvrMs, ?_, hle⟩
    cases hfind : rx.rxWindow.find? rx.vrMs with
    | none => rfl
    | some pdu =>
      have hmem := OrderedMap.find?_eq_some_iff.mp hfind
      have hnil := List.eq_nil_of_length_eq_zero (Nat.le_zero.mp hfuel)
      rw [List.filter_eq_nil_iff] at hnil
      exact absurd (decide_eq_true le_rfl) (hnil _ hmem)
  | succ fuel ih =>
    rw [advanceVrMs]
    cases hfind : rx.rxWindow.find? rx.vrMs with
    | none => exact ⟨rx.vrMs, rfl, hvrMs, hfind, hle⟩
    | some pdu =>
      have hlt := hkeys _ _ hfind
      have hsucc : rx.rxModBase ((rx.vrMs + 1) % rlcAmMod) = rx.rxModBase rx.vrMs + 1 :=
        rxModBase_succ hvrR (by simp only [rlcAmMod, rlcAmWindowSize] at hvrH ⊢; omega)
      -- The PDU at `vr_ms` is one less to be found.
      have hshorter : (rx.rxWindow.entries.filter fun e =>
          rx.rxModBase ((rx.vrMs + 1) % rlcAmMod) ≤ rx.rxModBase e.1).length <
          (rx.rxWindow.entries.filter fun e => rx.rxModBase rx.vrMs ≤ rx.rxModBase e.1).length := by
        have hmem := OrderedMap.find?_eq_some_iff.mp hfind
        have hsub : (rx.rxWindow.entries.filter fun e =>
            rx.rxModBase ((rx.vrMs + 1) % rlcAmMod) ≤ rx.rxModBase e.1).Sublist
            (rx.rxWindow.entries.filter fun e => rx.rxModBase rx.vrMs ≤ rx.rxModBase e.1) := by
          apply List.monotone_filter_right
          intro e he
          rw [hsucc, decide_eq_true_iff] at he
          exact decide_eq_true (Nat.le_of_succ_le he)
        refine lt_of_le_of_ne hsub.length_le fun heq => ?_
        have hin : (rx.vrMs, pdu) ∈ rx.rxWindow.entries.filter fun e =>
            rx.rxModBase ((rx.vrMs + 1) % rlcAmMod) ≤ rx.rxModBase e.1 := by
          rw [hsub.eq_of_length heq]
          exact List.mem_filter.mpr ⟨hmem, decide_eq_true le_rfl⟩
        have hge := of_decide_eq_true (List.mem_filter.mp hin).2
        rw [hsucc] at hge
        exact absurd hge (Nat.not_succ_le_self _)
      have hle' : rx.rxModBase ((rx.vrMs + 1) % rlcAmMod) ≤ rx.rxModBase rx.vrH := by
        rw [hsucc]
        exact hlt
      obtain ⟨vrMs, h, hrest⟩ := @ih { rx with vrMs := (rx.vrMs + 1) % rlcAmMod } hvrR hkeys hvrH
        (Nat.mod_lt _ (by decide)) hle' (Nat.le_of_lt_succ (lt_of_lt_of_le hshorter hfuel))
      exact ⟨vrMs, h, hrest⟩

/-- The state variables and the keys of the receive window are in order. -/
structure WindowOrdered (rx : RlcAmRx) : Prop where
  vrMs_le : rx.rxModBase rx.vrMs ≤ rx.rxModBase rx.vrH
  vrH_le : rx.rxModBase rx.vrH ≤ rx.rxModBase rx.vrMr
  vrMr_eq : rx.vrMr = (rx.vrR + rlcAmWindowSize) % rlcAmMod
  vrR_free : rx.rxWindow.find? rx.vrR = none
  vrMs_free : rx.rxWindow.find? rx.vrMs = none
  window_lt : ∀ sn pdu, rx.rxWindow.find? sn = some pdu → rx.rxModBase sn < rx.rxModBase rx.vrH
  vrX_mem : rx.reorderingTimer = true →
    0 < rx.rxModBase rx.vrX ∧ rx.rxModBase rx.vrX ≤ rx.rxModBase rx.vrH

structure Ordered (rx : RlcAmRx) : Prop extends WindowOrdered rx where
  segments_lt : ∀ sn segments, rx.rxSegments.find? sn = some segments →
    rx.rxModBase sn < rx.rxModBase rx.vrH

/-- The state variables are SNs, and so are the keys; the segments of an SN have that SN. -/
structure InRange (rx : RlcAmRx) : Prop where
  vrR_lt : rx.vrR < rlcAmMod
  vrMr_lt : rx.vrMr < rlcAmMod
  vrMs_lt : rx.vrMs < rlcAmMod
  vrH_lt : rx.vrH < rlcAmMod
  vrX_lt : rx.vrX < rlcAmMod
  window_lt : ∀ sn pdu, rx.rxWindow.find? sn = some pdu → sn < rlcAmMod
  segments_sn : ∀ sn segments, rx.rxSegments.find? sn = some segments →
    sn < rlcAmMod ∧ ∀ segment ∈ segments, segment.header.sn = sn

variable {rx : RlcAmRx}

theorem rxModBase_vrMr (hr : InRange rx)
    (h : rx.vrMr = (rx.vrR + rlcAmWindowSize) % rlcAmMod) :
    rx.rxModBase rx.vrMr = rlcAmWindowSize := by
  have hvrR := hr.vrR_lt
  rw [rxModBase_eq hvrR, h]
  simp only [rlcAmMod, rlcAmWindowSize] at hvrR ⊢
  omega

theorem rxModBase_vrR (hr : InRange rx) : rx.rxModBase rx.vrR = 0 := by
  have hvrR := hr.vrR_lt
  rw [rxModBase_eq hvrR]
  simp only [rlcAmMod] at hvrR ⊢
  omega

theorem WindowOrdered.insideRxWindow_iff (h : WindowOrdered rx) (hr : InRange rx) (sn : ℕ) :
    rx.insideRxWindow sn = true ↔ rx.rxModBase sn < rlcAmWindowSize := by
  rw [insideRxWindow, decide_eq_true_iff, rxModBase_vrMr hr h.vrMr_eq, rxModBase_vrR hr]
  exact and_iff_right (Nat.zero_le _)

theorem updateVrH_spec (hvrR : rx.vrR < rlcAmMod) (hvrH : rx.vrH < rlcAmMod)
    (hle : rx.rxModBase rx.vrH ≤ rlcAmWindowSize) {sn : ℕ}
    (hsn : rx.rxModBase sn < rlcAmWindowSize) :
    ∃ vrH, rx.updateVrH sn = { rx with vrH := vrH } ∧ vrH < rlcAmMod ∧
      rx.rxModBase rx.vrH ≤ rx.rxModBase vrH ∧ rx.rxModBase sn < rx.rxModBase vrH ∧
      rx.rxModBase vrH ≤ rlcAmWindowSize := by
  rw [updateVrH]
  by_cases hge : rx.rxModBase sn ≥ rx.rxModBase rx.vrH
  · have hsucc : rx.rxModBase ((sn + 1) % rlcAmMod) = rx.rxModBase sn + 1 :=
      rxModBase_succ hvrR (by simp only [rlcAmMod, rlcAmWindowSize] at hsn ⊢; omega)
    rw [if_pos hge]
    exact ⟨_, rfl, Nat.mod_lt _ (by decide), by omega, by omega, by omega⟩
  · rw [if_neg hge]
    exact ⟨rx.vrH, rfl, hvrH, le_rfl, by omega, hle⟩

/-- What holds of the state between the update of the window and the reassembly. -/
structure Stored (rx : RlcAmRx) : Prop where
  vrMs_le : rx.rxModBase rx.vrMs ≤ rx.rxModBase rx.vrH
  vrH_le : rx.rxModBase rx.vrH ≤ rlcAmWindowSize
  vrMr_eq : rx.vrMr = (rx.vrR + rlcAmWindowSize) % rlcAmMod
  vrMs_free : rx.rxWindow.find? rx.vrMs = none
  window_lt : ∀ sn pdu, rx.rxWindow.find? sn = some pdu → rx.rxModBase sn < rx.rxModBase rx.vrH

theorem stored_store (h : WindowOrdered rx) (hr : InRange rx) {payload : Bytes}
    {header : AmdPduHeader}
    (hsn : header.sn < rlcAmMod) (hinside : rx.insideRxWindow header.sn = true) :
    Stored (rx.store payload header) ∧ InRange (rx.store payload header) ∧
      rx.rxModBase rx.vrH ≤ rx.rxModBase (rx.store payload header).vrH ∧
      ((rx.store payload header).reorderingTimer = true →
        0 < rx.rxModBase (rx.store payload header).vrX ∧
          rx.rxModBase (rx.store payload header).vrX ≤
            rx.rxModBase (rx.store payload header).vrH) := by
  have hvrH := h.vrH_le
  rw [rxModBase_vrMr hr h.vrMr_eq] at hvrH
  rw [h.insideRxWindow_iff hr] at hinside
  obtain ⟨vrH, hupdate, hlt, hgrow, hsnH, hle⟩ := @updateVrH_spec
    { rx with rxWindow := rx.rxWindow.insert header.sn ⟨header, payload⟩ } hr.vrR_lt hr.vrH_lt hvrH
    header.sn hinside
  have hwindow (sn : ℕ) (pdu : RlcAmdRxPdu)
      (hfind : (rx.rxWindow.insert header.sn ⟨header, payload⟩).find? sn = some pdu) :
      rx.rxModBase sn < rx.rxModBase vrH := by
    rw [OrderedMap.find?_insert] at hfind
    split_ifs at hfind with heq
    · rw [heq]
      exact hsnH
    · exact lt_of_lt_of_le (h.window_lt sn pdu hfind) hgrow
  obtain ⟨vrMs, hadvance, hmslt, hfree, hmsle⟩ := @advanceVrMs_spec
    (rx.rxWindow.insert header.sn ⟨header, payload⟩).entries.length
    { rx with rxWindow := rx.rxWindow.insert header.sn ⟨header, payload⟩, vrH := vrH } hr.vrR_lt
    hwindow hle hr.vrMs_lt (h.vrMs_le.trans hgrow) (List.length_filter_le _ _)
  obtain ⟨p, d, hpoll⟩ := exists_checkPollBit
    { rx with
      rxWindow := rx.rxWindow.insert header.sn ⟨header, payload⟩, vrH := vrH, vrMs := vrMs } header
  rw [store]
  simp only [hupdate, hadvance, hpoll]
  refine ⟨⟨hmsle, hle, h.vrMr_eq, hfree, hwindow⟩,
    ⟨hr.vrR_lt, hr.vrMr_lt, hmslt, hlt, hr.vrX_lt, ?_, hr.segments_sn⟩, hgrow, ?_⟩
  · intro sn pdu hfind
    rw [OrderedMap.find?_insert] at hfind
    split_ifs at hfind with heq
    · rw [heq]
      exact hsn
    · exact hr.window_lt sn pdu hfind
  · intro hrunning
    exact ⟨(h.vrX_mem hrunning).1, (h.vrX_mem hrunning).2.trans hgrow⟩

theorem rxModBase_lt (hr : InRange rx) (x : ℕ) : rx.rxModBase x < rlcAmMod := by
  rw [rxModBase_eq hr.vrR_lt]
  exact Nat.mod_lt _ (by decide)

theorem vrR_add_rxModBase (hr : InRange rx) {x : ℕ} (hx : x < rlcAmMod) :
    (rx.vrR + rx.rxModBase x) % rlcAmMod = x := by
  have hvrR := hr.vrR_lt
  rw [rxModBase_eq hvrR]
  simp only [rlcAmMod] at hvrR hx ⊢
  omega

theorem passed_iff (hr : InRange rx) {n sn : ℕ} (hn : n ≤ rlcAmMod) (hsn : sn < rlcAmMod) :
    rx.Passed n sn ↔ rx.rxModBase sn < n := by
  constructor
  · rintro ⟨i, hi, rfl⟩
    have hvrR := hr.vrR_lt
    have hi' : i < rlcAmMod := lt_of_lt_of_le hi hn
    have hbase : rx.rxModBase ((rx.vrR + i) % rlcAmMod) = i := by
      rw [rxModBase_eq hvrR]
      simp only [rlcAmMod] at hvrR hi' ⊢
      omega
    rwa [hbase]
  · intro h
    exact ⟨rx.rxModBase sn, h, (vrR_add_rxModBase hr hsn).symm⟩

theorem rxModBase_moved (hr : InRange rx) {n : ℕ} (hn : n ≤ rlcAmMod) (x : ℕ) :
    (moveRxWindow^[n] rx).rxModBase x = (rx.rxModBase x + (rlcAmMod - n)) % rlcAmMod := by
  have hvrR := hr.vrR_lt
  have hmoved := vrR_moved hvrR n
  rw [rxModBase_eq hvrR, rxModBase_eq (by rw [hmoved]; exact Nat.mod_lt _ (by decide)), hmoved]
  simp only [rlcAmMod] at hvrR hn ⊢
  omega

def inSequenceLength (rx : RlcAmRx) : ℕ :=
  (inSequence rx.rxWindow.entries.length rx.rxWindow rx.vrR).length

theorem inSequenceLength_le (h : Stored rx) (hr : InRange rx) :
    rx.inSequenceLength ≤ rx.rxModBase rx.vrMs := by
  by_contra hlt
  have hsome := isSome_of_lt_inSequence hr.vrR_lt (Nat.not_le.mp hlt)
  rw [vrR_add_rxModBase hr hr.vrMs_lt, h.vrMs_free] at hsome
  exact absurd hsome Bool.false_ne_true

theorem reassembleRxSdus_eq {rx' : RlcAmRx} (h : rx.reassembleRxSdus = .ok rx') :
    ∃ delivered sdu, rx' = moveRxWindow^[rx.inSequenceLength] (rx.withSdu delivered sdu) := by
  obtain ⟨delivered, sdu, hrx'⟩ := reassembleLoop_eq h
  exact ⟨delivered, sdu, hrx'⟩

/-- `vr_x` is either where it has to be, or at the lower edge of the window or outside of it. -/
def VrXNear (rx : RlcAmRx) : Prop :=
  0 < rx.rxModBase rx.vrX ∧ rx.rxModBase rx.vrX ≤ rx.rxModBase rx.vrH ∨ rx.vrX = rx.vrR ∨
    rx.rxModBase rx.vrMr < rx.rxModBase rx.vrX

theorem vrX_mem_timers (hr : InRange rx) (hX : rx.reorderingTimer = true → VrXNear rx) :
    rx.stopTimer.startTimer.reorderingTimer = true →
      0 < rx.rxModBase rx.stopTimer.startTimer.vrX ∧
        rx.rxModBase rx.stopTimer.startTimer.vrX ≤ rx.rxModBase rx.vrH := by
  have hzero := rxModBase_vrR hr
  have hstart (timer : Bool) (htimer : timer = true →
      0 < rx.rxModBase rx.vrX ∧ rx.rxModBase rx.vrX ≤ rx.rxModBase rx.vrH) :
      ({ rx with reorderingTimer := timer }.startTimer).reorderingTimer = true →
        0 < rx.rxModBase ({ rx with reorderingTimer := timer }.startTimer).vrX ∧
          rx.rxModBase ({ rx with reorderingTimer := timer }.startTimer).vrX ≤
            rx.rxModBase rx.vrH := by
    rw [startTimer]
    split_ifs with hcond
    · intro _
      have hgt : rx.rxModBase rx.vrH > rx.rxModBase rx.vrR := hcond.2
      rw [hzero] at hgt
      exact ⟨hgt, le_rfl⟩
    · exact htimer
  rw [stopTimer]
  split_ifs with hcond
  · exact hstart false fun h => absurd h Bool.false_ne_true
  · refine hstart rx.reorderingTimer fun hrunning => ?_
    rcases hX hrunning with hmem | heq | hgt
    · exact hmem
    · exact absurd ⟨hrunning, Or.inl heq⟩ hcond
    · refine absurd ⟨hrunning, Or.inr ⟨?_, ?_⟩⟩ hcond
      · rw [insideRxWindow, decide_eq_true_iff]
        omega
      · intro heq
        rw [heq] at hgt
        exact absurd hgt (lt_irrefl _)

theorem vrX_timers_lt (hr : InRange rx) : rx.stopTimer.startTimer.vrX < rlcAmMod := by
  obtain ⟨vrX, timer, h⟩ : ∃ vrX timer, rx.stopTimer =
      { rx with vrX := vrX, reorderingTimer := timer } ∧ vrX = rx.vrX := by
    rw [stopTimer]
    split_ifs
    · exact ⟨rx.vrX, false, rfl, rfl⟩
    · exact ⟨rx.vrX, rx.reorderingTimer, rfl, rfl⟩
  rw [h.1, startTimer, h.2]
  split_ifs
  · exact hr.vrH_lt
  · exact hr.vrX_lt

theorem windowOrdered_timers (hr : InRange rx) (h : Stored rx)
    (hX : rx.reorderingTimer = true → VrXNear rx) (hfree : rx.rxWindow.find? rx.vrR = none) :
    WindowOrdered rx.stopTimer.startTimer ∧ InRange rx.stopTimer.startTimer := by
  have hmem := vrX_mem_timers hr hX
  have hlt := vrX_timers_lt hr
  have hvrH : rx.rxModBase rx.vrH ≤ rx.rxModBase rx.vrMr := by
    rw [rxModBase_vrMr hr h.vrMr_eq]
    exact h.vrH_le
  obtain ⟨vrX, timer, ht⟩ := exists_timers rx
  rw [ht] at hmem hlt ⊢
  exact ⟨⟨h.vrMs_le, hvrH, h.vrMr_eq, hfree, h.vrMs_free, h.window_lt, hmem⟩,
    ⟨hr.vrR_lt, hr.vrMr_lt, hr.vrMs_lt, hr.vrH_lt, hlt, hr.window_lt, hr.segments_sn⟩⟩

theorem inRange_moved (hr : InRange rx) (n : ℕ) : InRange (moveRxWindow^[n] rx) := by
  have hvrR := vrR_moved hr.vrR_lt n
  have hvrMr := vrMr_moved hr.vrMr_lt n
  have hwindow := window_moved hr.vrR_lt n
  have hsegments := segments_moved hr.vrR_lt n
  obtain ⟨window, segments, vrR, vrMr, hmoved⟩ := exists_moved rx n
  rw [hmoved] at hvrR hvrMr hwindow hsegments ⊢
  refine ⟨?_, ?_, hr.vrMs_lt, hr.vrH_lt, hr.vrX_lt, ?_, ?_⟩
  · exact hvrR ▸ Nat.mod_lt _ (by decide)
  · exact hvrMr ▸ Nat.mod_lt _ (by decide)
  · intro sn pdu hfind
    rw [hwindow] at hfind
    split_ifs at hfind
    exact hr.window_lt sn pdu hfind
  · intro sn list hfind
    rw [hsegments] at hfind
    split_ifs at hfind
    · obtain ⟨list', hfind', rfl⟩ := Option.map_eq_some_iff.mp hfind
      exact ⟨(hr.segments_sn sn list' hfind').1, List.forall_mem_nil _⟩
    · exact hr.segments_sn sn list hfind

theorem stored_moved (h : Stored rx) (hr : InRange rx) {n : ℕ}
    (hn : n ≤ rx.rxModBase rx.vrMs) : Stored (moveRxWindow^[n] rx) := by
  have hnM : n ≤ rlcAmMod := hn.trans (rxModBase_lt hr _).le
  have hbase := rxModBase_moved hr hnM
  have hvrR := vrR_moved hr.vrR_lt n
  have hvrMr := vrMr_moved hr.vrMr_lt n
  have hwindow := window_moved hr.vrR_lt n
  have hms := h.vrMs_le
  have hH := h.vrH_le
  have hMr := h.vrMr_eq
  obtain ⟨window, segments, vrR, vrMr, hmoved⟩ := exists_moved rx n
  rw [hmoved] at hbase hvrR hvrMr hwindow ⊢
  dsimp only at hvrR hvrMr hwindow
  refine ⟨?_, ?_, ?_, ?_, ?_⟩
  · dsimp only
    rw [hbase, hbase]
    simp only [rlcAmMod, rlcAmWindowSize] at hnM hH ⊢
    omega
  · dsimp only
    rw [hbase]
    simp only [rlcAmMod, rlcAmWindowSize] at hnM hH ⊢
    omega
  · dsimp only
    rw [hvrMr, hvrR, hMr]
    simp only [rlcAmMod, rlcAmWindowSize]
    omega
  · dsimp only
    rw [hwindow]
    split_ifs
    · rfl
    · exact h.vrMs_free
  · intro sn pdu hfind
    dsimp only at hfind ⊢
    rw [hwindow] at hfind
    split_ifs at hfind with hpassed
    rw [passed_iff hr hnM (hr.window_lt sn pdu hfind)] at hpassed
    have hlt := h.window_lt sn pdu hfind
    rw [hbase, hbase]
    simp only [rlcAmMod, rlcAmWindowSize] at hnM hH ⊢
    omega

theorem vrXNear_moved (h : Stored rx) (hr : InRange rx) {n : ℕ} (hn : n ≤ rx.rxModBase rx.vrMs)
    (hX : 0 < rx.rxModBase rx.vrX ∧ rx.rxModBase rx.vrX ≤ rx.rxModBase rx.vrH) :
    VrXNear (moveRxWindow^[n] rx) := by
  have hnM : n ≤ rlcAmMod := hn.trans (rxModBase_lt hr _).le
  have hbase := rxModBase_moved hr hnM
  have hvrR := vrR_moved hr.vrR_lt n
  have hMr := rxModBase_vrMr (inRange_moved hr n) (stored_moved h hr hn).vrMr_eq
  have hms := h.vrMs_le
  have hH := h.vrH_le
  have hXsn := vrR_add_rxModBase hr hr.vrX_lt
  rw [VrXNear, hMr]
  obtain ⟨window, segments, vrR, vrMr, hmoved⟩ := exists_moved rx n
  rw [hmoved] at hbase hvrR ⊢
  dsimp only at hvrR ⊢
  rw [hbase, hbase]
  simp only [rlcAmMod, rlcAmWindowSize] at hnM hH hvrR hXsn ⊢
  rcases lt_trichotomy (rx.rxModBase rx.vrX) n with hlt | heq | hgt
  · exact Or.inr (Or.inr (by omega))
  · refine Or.inr (Or.inl ?_)
    rw [hvrR, ← heq, hXsn]
  · exact Or.inl ⟨by omega, by omega⟩

theorem windowOrdered_moved (h : Stored rx) (hr : InRange rx) {n : ℕ}
    (hn : n ≤ rx.rxModBase rx.vrMs)
    (hX : rx.reorderingTimer = true →
      0 < rx.rxModBase rx.vrX ∧ rx.rxModBase rx.vrX ≤ rx.rxModBase rx.vrH)
    (hfree : (moveRxWindow^[n] rx).rxWindow.find? (moveRxWindow^[n] rx).vrR = none) :
    WindowOrdered (moveRxWindow^[n] rx).stopTimer.startTimer ∧
      InRange (moveRxWindow^[n] rx).stopTimer.startTimer := by
  refine windowOrdered_timers (inRange_moved hr n) (stored_moved h hr hn) ?_ hfree
  intro hrunning
  refine vrXNear_moved h hr hn (hX ?_)
  obtain ⟨window, segments, vrR, vrMr, hmoved⟩ := exists_moved rx n
  rwa [hmoved] at hrunning

/-- The SNs that the reassembly passes once the PDU is stored have no segments, apart from `own`. -/
def PassesTidily (rx : RlcAmRx) (payload : Bytes) (header : AmdPduHeader) (own : Option ℕ) : Prop :=
  Stores rx payload header →
    let window := rx.rxWindow.insert header.sn ⟨header, payload⟩
    ∀ i < (inSequence window.entries.length window rx.vrR).length,
      own ≠ some ((rx.vrR + i) % rlcAmMod) →
        rx.rxSegments.find? ((rx.vrR + i) % rlcAmMod) = none

/-- The keys of the segments are in order, apart from `own`. -/
def SegmentsBelow (rx : RlcAmRx) (own : Option ℕ) : Prop :=
  ∀ sn segments, rx.rxSegments.find? sn = some segments → own ≠ some sn →
    rx.rxModBase sn < rx.rxModBase rx.vrH

theorem segmentsBelow_moved (h : Stored rx) (hr : InRange rx) {n : ℕ}
    (hn : n ≤ rx.rxModBase rx.vrMs) (own : Option ℕ) (hsegments : SegmentsBelow rx none) :
    SegmentsBelow (moveRxWindow^[n] rx) own ↔
      ∀ i < n, own ≠ some ((rx.vrR + i) % rlcAmMod) →
        rx.rxSegments.find? ((rx.vrR + i) % rlcAmMod) = none := by
  have hnM : n ≤ rlcAmMod := hn.trans (rxModBase_lt hr _).le
  have hbase := rxModBase_moved hr hnM
  have hmoved := segments_moved hr.vrR_lt n
  have hvrH : (moveRxWindow^[n] rx).vrH = rx.vrH := by
    obtain ⟨window, segments, vrR, vrMr, hmoved⟩ := exists_moved rx n
    rw [hmoved]
  have hms := h.vrMs_le
  have hH := h.vrH_le
  simp only [rlcAmWindowSize] at hH
  constructor
  · intro hbelow i hi hown
    by_contra hne
    obtain ⟨list, hfind⟩ := Option.ne_none_iff_exists'.mp hne
    have hpassed : rx.Passed n ((rx.vrR + i) % rlcAmMod) := ⟨i, hi, rfl⟩
    have hempty : (moveRxWindow^[n] rx).rxSegments.find? ((rx.vrR + i) % rlcAmMod) = some [] := by
      rw [hmoved, if_pos hpassed, hfind]
      rfl
    have hlt := hbelow ((rx.vrR + i) % rlcAmMod) [] hempty hown
    rw [passed_iff hr hnM (Nat.mod_lt _ (by decide))] at hpassed
    rw [hvrH, hbase, hbase] at hlt
    simp only [rlcAmMod] at hlt hpassed hnM
    omega
  · intro htidy sn list hfind hown
    rw [hmoved] at hfind
    split_ifs at hfind with hpassed
    · obtain ⟨i, hi, rfl⟩ := hpassed
      rw [htidy i hi hown] at hfind
      exact absurd hfind (by simp)
    · have hlt := hsegments sn list hfind (by simp)
      rw [passed_iff hr hnM (hr.segments_sn sn list hfind).1] at hpassed
      rw [hvrH, hbase, hbase]
      simp only [rlcAmMod] at hpassed hnM ⊢
      omega

theorem Stored.withSdu (h : Stored rx) (delivered : List Bytes) (sdu : Option Bytes) :
    Stored (rx.withSdu delivered sdu) :=
  ⟨h.vrMs_le, h.vrH_le, h.vrMr_eq, h.vrMs_free, h.window_lt⟩

theorem InRange.withSdu (hr : InRange rx) (delivered : List Bytes) (sdu : Option Bytes) :
    InRange (rx.withSdu delivered sdu) :=
  ⟨hr.vrR_lt, hr.vrMr_lt, hr.vrMs_lt, hr.vrH_lt, hr.vrX_lt, hr.window_lt, hr.segments_sn⟩

theorem reassembleRxSdus_spec {rx' : RlcAmRx} (h : Stored rx) (hr : InRange rx)
    (hX : rx.reorderingTimer = true →
      0 < rx.rxModBase rx.vrX ∧ rx.rxModBase rx.vrX ≤ rx.rxModBase rx.vrH)
    (hok : rx.reassembleRxSdus = .ok rx') :
    (WindowOrdered rx'.stopTimer.startTimer ∧ InRange rx'.stopTimer.startTimer) ∧
      ∀ own, SegmentsBelow rx none → (SegmentsBelow rx'.stopTimer.startTimer own ↔
        ∀ i < rx.inSequenceLength, own ≠ some ((rx.vrR + i) % rlcAmMod) →
          rx.rxSegments.find? ((rx.vrR + i) % rlcAmMod) = none) := by
  have hn := inSequenceLength_le h hr
  have hfree : rx'.rxWindow.find? rx'.vrR = none :=
    @reassembleLoop_reaches _ { rx with rxSdu := some (rx.rxSdu.getD []) } rx' le_rfl hok
  obtain ⟨delivered, sdu, rfl⟩ := reassembleRxSdus_eq hok
  have h' := h.withSdu delivered sdu
  have hr' := hr.withSdu delivered sdu
  refine ⟨windowOrdered_moved h' hr' hn hX hfree, fun own hsegments => ?_⟩
  obtain ⟨vrX, timer, ht⟩ :=
    exists_timers (moveRxWindow^[rx.inSequenceLength] (rx.withSdu delivered sdu))
  rw [ht]
  exact segmentsBelow_moved h' hr' hn own hsegments

theorem WindowOrdered.update (h : WindowOrdered rx) (segments : OrderedMap ℕ (List RlcAmdRxPdu))
    (p d : Bool) :
    WindowOrdered { rx with rxSegments := segments, pollReceived := p, doStatus := d } :=
  ⟨h.vrMs_le, h.vrH_le, h.vrMr_eq, h.vrR_free, h.vrMs_free, h.window_lt, h.vrX_mem⟩

theorem InRange.update (hr : InRange rx) {segments : OrderedMap ℕ (List RlcAmdRxPdu)} (p d : Bool)
    (hsegments : ∀ sn list, segments.find? sn = some list →
      sn < rlcAmMod ∧ ∀ segment ∈ list, segment.header.sn = sn) :
    InRange { rx with rxSegments := segments, pollReceived := p, doStatus := d } :=
  ⟨hr.vrR_lt, hr.vrMr_lt, hr.vrMs_lt, hr.vrH_lt, hr.vrX_lt, hr.window_lt, hsegments⟩

theorem handleDataPdu_spec {rx' : RlcAmRx} (h : WindowOrdered rx) (hr : InRange rx)
    {payload : Bytes} {header : AmdPduHeader} (hsn : header.sn < rlcAmMod)
    (hok : rx.handleDataPdu payload header = .ok rx') :
    (WindowOrdered rx' ∧ InRange rx') ∧
      ∀ own, SegmentsBelow rx none →
        (SegmentsBelow rx' own ↔ PassesTidily rx payload header own) := by
  by_cases hstores : Stores rx payload header
  · rw [handleDataPdu_of_stores hstores] at hok
    obtain ⟨rx₁, hreassemble, rfl⟩ := map_eq_ok_iff.mp hok
    obtain ⟨hstored, hrange, hgrow, hX⟩ := @stored_store rx h hr payload header hsn hstores.2.1
    obtain ⟨vrMs, vrH, p, d, hstore⟩ := exists_store rx payload header
    rw [hstore] at hstored hrange hgrow hX hreassemble
    obtain ⟨hordered, hbelow⟩ := reassembleRxSdus_spec hstored hrange hX hreassemble
    refine ⟨hordered, fun own hsegments => ?_⟩
    rw [PassesTidily, imp_iff_right hstores]
    exact hbelow own fun sn list hfind hown =>
      lt_of_lt_of_le (hsegments sn list hfind hown) hgrow
  · obtain ⟨p, hp⟩ := handleDataPdu_of_not_stores hstores
    rw [hp] at hok
    cases hok
    obtain ⟨d, hd⟩ := exists_requestStatus rx p
    rw [hd]
    refine ⟨⟨h.update rx.rxSegments rx.pollReceived d,
      hr.update rx.pollReceived d hr.segments_sn⟩, fun own hsegments => ?_⟩
    exact ⟨fun _ hstores' => absurd hstores' hstores,
      fun _ sn list hfind _ => hsegments sn list hfind (by simp)⟩

/-- The PDU that the segment completes passes no SN that has segments, apart from its own. -/
def CompletesTidily (rx : RlcAmRx) (segments : List RlcAmdRxPdu) (segment : RlcAmdRxPdu) : Prop :=
  Completes segments segment →
    PassesTidily rx ((segments ++ [segment]).flatMap RlcAmdRxPdu.buf)
      (reconstructedHeader (segments ++ [segment])) (some segment.header.sn)

theorem segments_sn_insert (hr : InRange rx) {sn : ℕ} (hsn : sn < rlcAmMod)
    {segments : List RlcAmdRxPdu} (hsegments : ∀ s ∈ segments, s.header.sn = sn) (k : ℕ)
    (list : List RlcAmdRxPdu) (hfind : (rx.rxSegments.insert sn segments).find? k = some list) :
    k < rlcAmMod ∧ ∀ segment ∈ list, segment.header.sn = k := by
  rw [OrderedMap.find?_insert] at hfind
  split_ifs at hfind with heq
  · cases hfind
    rw [heq]
    exact ⟨hsn, hsegments⟩
  · exact hr.segments_sn k list hfind

theorem sn_reconstructedHeader {sn : ℕ} {segments : List RlcAmdRxPdu} {segment : RlcAmdRxPdu}
    (h : ∀ s ∈ segments ++ [segment], s.header.sn = sn) :
    (reconstructedHeader (segments ++ [segment])).sn = sn := by
  cases segments with
  | nil => exact h segment List.mem_cons_self
  | cons first segments => exact h first List.mem_cons_self

theorem segmentsBelow_withSegments {sn : ℕ} {segments : List RlcAmdRxPdu}
    (hfind : rx.rxSegments.find? sn = some segments) (segments' : List RlcAmdRxPdu)
    (own : Option ℕ) :
    SegmentsBelow (rx.withSegments sn segments') own ↔ SegmentsBelow rx own := by
  constructor
  · intro h k list hk hown
    by_cases heq : k = sn
    · rw [heq] at hown ⊢
      exact h sn segments' ((OrderedMap.find?_insert _ _ _ _).trans (if_pos rfl)) hown
    · exact h k list ((OrderedMap.find?_insert _ _ _ _).trans ((if_neg heq).trans hk)) hown
  · intro h k list hk hown
    by_cases heq : k = sn
    · rw [heq] at hown ⊢
      exact h sn segments hfind hown
    · exact h k list (((OrderedMap.find?_insert _ _ _ _).trans (if_neg heq)).symm.trans hk) hown

theorem passesTidily_withSegments (rx : RlcAmRx) (sn : ℕ) (segments : List RlcAmdRxPdu)
    (payload : Bytes) (header : AmdPduHeader) :
    PassesTidily (rx.withSegments sn segments) payload header (some sn) ↔
      PassesTidily rx payload header (some sn) := by
  have hother (k : ℕ) (hk : some sn ≠ some k) :
      (rx.withSegments sn segments).rxSegments.find? k = rx.rxSegments.find? k := by
    rw [withSegments, OrderedMap.find?_insert, if_neg fun heq => hk (congrArg some heq.symm)]
  constructor
  · intro h hstores window i hi hown
    rw [← hother _ hown]
    exact h hstores i hi hown
  · intro h hstores window i hi hown
    rw [hother _ hown]
    exact h hstores i hi hown

/-- The state behind `add_segment_and_check`. -/
def dropCompleted (r : RlcAmRx × Bool) (sn : ℕ) : RlcAmRx :=
  if r.2 then { r.1 with rxSegments := r.1.rxSegments.erase sn } else r.1

theorem segmentsBelow_erase (rx : RlcAmRx) (sn : ℕ) :
    SegmentsBelow { rx with rxSegments := rx.rxSegments.erase sn } none ↔
      SegmentsBelow rx (some sn) := by
  have herase (k : ℕ) := OrderedMap.find?_erase rx.rxSegments sn k
  constructor
  · intro h k list hk hown
    have hne : k ≠ sn := fun heq => hown (congrArg some heq.symm)
    exact h k list ((herase k).trans ((if_neg hne).trans hk)) (by simp)
  · intro h k list hk _
    change (rx.rxSegments.erase sn).find? k = some list at hk
    rw [herase] at hk
    split_ifs at hk with heq
    exact h k list hk fun hown => heq (Option.some.inj hown).symm

section

variable (h : WindowOrdered rx) (hr : InRange rx)
include h hr

theorem addSegmentAndCheck_spec {sn : ℕ}
    {segments : List RlcAmdRxPdu} {segment : RlcAmdRxPdu} {r : RlcAmRx × Bool}
    (hfind : rx.rxSegments.find? sn = some segments) (hsegment : segment.header.sn = sn)
    (hok : rx.addSegmentAndCheck sn segments segment = .ok r) :
    (WindowOrdered (dropCompleted r sn) ∧ InRange (dropCompleted r sn)) ∧
      (SegmentsBelow rx none →
        (SegmentsBelow (dropCompleted r sn) none ↔ CompletesTidily rx segments segment)) := by
  obtain ⟨hsn, hall⟩ := hr.segments_sn sn segments hfind
  have hall' : ∀ s ∈ segments ++ [segment], s.header.sn = sn := by
    intro s hs
    rcases List.mem_append.mp hs with hs | hs
    · exact hall s hs
    · rw [List.mem_singleton.mp hs, hsegment]
  by_cases hcompletes : Completes segments segment
  · rw [addSegmentAndCheck_of_completes rx sn hcompletes] at hok
    cases hheader : reconstructHeader (segments ++ [segment]) with
    | error fault => simp only [hheader] at hok; cases hok
    | ok header =>
      obtain rfl : header = reconstructedHeader (segments ++ [segment]) := by
        obtain ⟨r, hloop, -⟩ := map_eq_ok_iff.mp hheader
        have hfit := indicatorsFit_of_isOk (Nat.zero_le _) (isOk_iff_exists.mpr ⟨r, hloop⟩)
        rw [reconstructHeader_of_indicatorsFit hfit] at hheader
        exact (Except.ok.inj hheader).symm
      simp only [hheader] at hok
      obtain ⟨rx₂, hhandle, rfl⟩ := map_eq_ok_iff.mp hok
      have h₁ : WindowOrdered (rx.withSegments sn (segments ++ [segment])) :=
        h.update _ rx.pollReceived rx.doStatus
      have hr₁ : InRange (rx.withSegments sn (segments ++ [segment])) :=
        hr.update rx.pollReceived rx.doStatus fun k list hk =>
          segments_sn_insert hr hsn hall' k list hk
      obtain ⟨⟨h₂, hr₂⟩, hbelow⟩ := handleDataPdu_spec h₁ hr₁
        (by rw [sn_reconstructedHeader hall']; exact hsn) hhandle
      have hr₂' : InRange (dropCompleted (rx₂, true) sn) := by
        refine hr₂.update rx₂.pollReceived rx₂.doStatus fun k list hk => ?_
        rw [OrderedMap.find?_erase] at hk
        split_ifs at hk
        exact hr₂.segments_sn k list hk
      refine ⟨⟨h₂.update _ rx₂.pollReceived rx₂.doStatus, hr₂'⟩, fun hsegments => ?_⟩
      have hiff := hbelow (some sn) ((segmentsBelow_withSegments hfind _ none).mpr hsegments)
      rw [CompletesTidily, imp_iff_right hcompletes, hsegment]
      refine ((segmentsBelow_erase rx₂ sn).trans hiff).trans ?_
      exact passesTidily_withSegments rx sn _ _ _
  · rw [CompletesTidily]
    rcases addSegmentAndCheck_of_not_completes rx sn hcompletes with heq | ⟨segments', hmem, heq⟩
    · rw [heq] at hok
      cases hok
      exact ⟨⟨h, hr⟩, fun hsegments => ⟨fun _ hc => absurd hc hcompletes, fun _ => hsegments⟩⟩
    · rw [heq] at hok
      cases hok
      refine ⟨⟨h.update _ rx.pollReceived rx.doStatus, hr.update rx.pollReceived rx.doStatus
        fun k list hk => segments_sn_insert hr hsn (fun s hs => hall' s ?_) k list hk⟩,
        fun hsegments => ⟨fun _ hc => absurd hc hcompletes, fun _ => ?_⟩⟩
      · rcases hmem s hs with hs | rfl
        · exact List.mem_append_left _ hs
        · exact List.mem_concat_self
      · exact (segmentsBelow_withSegments hfind segments' none).mpr hsegments

theorem firstSegment_spec {header : AmdPduHeader}
    (hsn : header.sn < rlcAmMod) (hinside : rx.insideRxWindow header.sn = true) (payload : Bytes) :
    let rx' := ((rx.withSegments header.sn [⟨header, payload⟩]).updateVrH
      header.sn).checkPollBit header
    (WindowOrdered rx' ∧ InRange rx') ∧ (SegmentsBelow rx none → SegmentsBelow rx' none) := by
  rw [h.insideRxWindow_iff hr] at hinside
  have hvrH := h.vrH_le
  have hMr := rxModBase_vrMr hr h.vrMr_eq
  rw [hMr] at hvrH
  obtain ⟨vrH, hupdate, hlt, hgrow, hsnH, hle⟩ := @updateVrH_spec
    (rx.withSegments header.sn [⟨header, payload⟩]) hr.vrR_lt hr.vrH_lt hvrH header.sn hinside
  obtain ⟨p, d, hpoll⟩ := exists_checkPollBit
    { rx.withSegments header.sn [⟨header, payload⟩] with vrH := vrH } header
  dsimp only
  rw [hupdate, hpoll]
  refine ⟨⟨⟨h.vrMs_le.trans hgrow, hle.trans hMr.ge, h.vrMr_eq, h.vrR_free, h.vrMs_free, ?_, ?_⟩,
    ⟨hr.vrR_lt, hr.vrMr_lt, hr.vrMs_lt, hlt, hr.vrX_lt, hr.window_lt, ?_⟩⟩, ?_⟩
  · intro sn pdu hfind
    exact lt_of_lt_of_le (h.window_lt sn pdu hfind) hgrow
  · intro hrunning
    exact ⟨(h.vrX_mem hrunning).1, (h.vrX_mem hrunning).2.trans hgrow⟩
  · intro sn list hfind
    refine segments_sn_insert hr hsn (fun s hs => ?_) sn list hfind
    rw [List.mem_singleton.mp hs]
  · intro hsegments sn list hfind hown
    change (rx.rxSegments.insert header.sn [⟨header, payload⟩]).find? sn = some list at hfind
    rw [OrderedMap.find?_insert] at hfind
    split_ifs at hfind with heq
    · rw [heq]
      exact hsnH
    · exact lt_of_lt_of_le (hsegments sn list hfind hown) hgrow

theorem handleDataPduSegment_spec {payload : Bytes}
    {header : AmdPduHeader} {rx' : RlcAmRx} (hsn : header.sn < rlcAmMod)
    (hok : rx.handleDataPduSegment payload header = .ok rx') :
    (WindowOrdered rx' ∧ InRange rx') ∧ (SegmentsBelow rx none → (SegmentsBelow rx' none ↔
      (rx.insideRxWindow header.sn = true → payload.length ≤ bufferTailroom →
        ∀ segments, rx.rxSegments.find? header.sn = some segments →
          CompletesTidily rx segments ⟨header, payload⟩))) := by
  rw [handleDataPduSegment] at hok
  by_cases hinside : rx.insideRxWindow header.sn = true
  · rw [if_neg (not_not_intro hinside)] at hok
    rw [imp_iff_right hinside]
    by_cases hlength : bufferTailroom < payload.length
    · rw [if_pos hlength] at hok
      cases hok
      exact ⟨⟨h, hr⟩, fun hsegments =>
        ⟨fun _ hle => absurd hle (Nat.not_le.mpr hlength), fun _ => hsegments⟩⟩
    rw [if_neg hlength] at hok
    rw [imp_iff_right (Nat.not_lt.mp hlength)]
    cases hfind : rx.rxSegments.find? header.sn with
    | none =>
      simp only [hfind] at hok
      cases hok
      obtain ⟨hordered, hbelow⟩ := firstSegment_spec h hr hsn hinside payload
      exact ⟨hordered, fun hsegments =>
        ⟨fun _ segments hk => (by cases hk), fun _ => hbelow hsegments⟩⟩
    | some segments =>
      simp only [hfind] at hok
      obtain ⟨r, hadd, hrx'⟩ := map_eq_ok_iff.mp hok
      obtain ⟨d, hd⟩ := exists_requestStatus rx header.p
      rw [hd] at hadd
      obtain ⟨hordered, hbelow⟩ := addSegmentAndCheck_spec
        (h.update rx.rxSegments rx.pollReceived d) (hr.update rx.pollReceived d hr.segments_sn)
        hfind rfl hadd
      rw [← hrx']
      refine ⟨hordered, fun hsegments => (hbelow hsegments).trans ?_⟩
      simp only [Option.some.injEq, forall_eq']
      exact Iff.rfl
  · rw [if_pos hinside] at hok
    cases hok
    obtain ⟨d, hd⟩ := exists_requestStatus rx header.p
    rw [hd]
    exact ⟨⟨h.update rx.rxSegments rx.pollReceived d, hr.update rx.pollReceived d hr.segments_sn⟩,
      fun hsegments => ⟨fun _ hin => absurd hin hinside, fun _ => hsegments⟩⟩

theorem timerExpired_spec (hrunning : rx.reorderingTimer = true) :
    (WindowOrdered rx.timerExpired ∧ InRange rx.timerExpired) ∧
      (SegmentsBelow rx none → SegmentsBelow rx.timerExpired none) := by
  have hvrH := h.vrH_le
  have hMr := rxModBase_vrMr hr h.vrMr_eq
  rw [hMr] at hvrH
  obtain ⟨vrMs, hadvance, hlt, hfree, hle⟩ := @advanceVrMs_spec rx.rxWindow.entries.length
    { rx with reorderingTimer := false, vrMs := rx.vrX } hr.vrR_lt h.window_lt hvrH hr.vrX_lt
    (h.vrX_mem hrunning).2 (List.length_filter_le _ _)
  have hstart (d : Bool) : ∃ vrX timer, (if rx.rxModBase rx.vrH > rx.rxModBase vrMs then
      { rx with reorderingTimer := true, vrMs := vrMs, doStatus := d, vrX := rx.vrH }
      else { rx with reorderingTimer := false, vrMs := vrMs, doStatus := d }) =
      { rx with reorderingTimer := timer, vrMs := vrMs, doStatus := d, vrX := vrX } ∧
      vrX < rlcAmMod ∧
      (timer = true → 0 < rx.rxModBase vrX ∧ rx.rxModBase vrX ≤ rx.rxModBase rx.vrH) := by
    split_ifs with hgt
    · exact ⟨rx.vrH, true, rfl, hr.vrH_lt, fun _ => ⟨Nat.zero_lt_of_lt hgt, le_rfl⟩⟩
    · exact ⟨rx.vrX, false, rfl, hr.vrX_lt, fun h => absurd h Bool.false_ne_true⟩
  obtain ⟨d, vrX, timer, heq, hX, hmem⟩ : ∃ d vrX timer, rx.timerExpired =
      { rx with reorderingTimer := timer, vrMs := vrMs, doStatus := d, vrX := vrX } ∧
      vrX < rlcAmMod ∧
      (timer = true → 0 < rx.rxModBase vrX ∧ rx.rxModBase vrX ≤ rx.rxModBase rx.vrH) := by
    rw [timerExpired]
    simp only [hadvance]
    by_cases hpoll : rx.pollReceived = true
    · obtain ⟨vrX, timer, heq, hrest⟩ := hstart true
      refine ⟨true, vrX, timer, ?_, hrest⟩
      simp only [if_pos hpoll]
      exact heq
    · obtain ⟨vrX, timer, heq, hrest⟩ := hstart rx.doStatus
      refine ⟨rx.doStatus, vrX, timer, ?_, hrest⟩
      simp only [if_neg hpoll]
      exact heq
  rw [heq]
  exact ⟨⟨⟨hle, h.vrH_le, h.vrMr_eq, h.vrR_free, hfree, h.window_lt, hmem⟩,
    ⟨hr.vrR_lt, hr.vrMr_lt, hlt, hr.vrH_lt, hX, hr.window_lt, hr.segments_sn⟩⟩,
    fun hsegments => hsegments⟩

end

/-- The PDUs that are taken out of the window when this one arrives have no segments, apart from
one that has just been completed from them. -/
def TidyPdu (rx : RlcAmRx) (payload : Bytes) : Prop :=
  rlcAmIsControlPdu payload = false →
    ∀ header rest, AmdPduHeader.read payload = .ok (header, rest) →
      if header.rf then
        rx.insideRxWindow header.sn = true → rest.length ≤ bufferTailroom →
          ∀ segments, rx.rxSegments.find? header.sn = some segments →
            CompletesTidily rx segments ⟨header, rest⟩
      else PassesTidily rx rest header none

def Tidy (rx : RlcAmRx) : Event → Prop
  | .pdu payload => 1 ≤ payload.length → CopesWith rx payload → TidyPdu rx payload
  | .timerExpired => True

theorem writePdu_spec (h : WindowOrdered rx) (hr : InRange rx) {payload : Bytes} {rx' : RlcAmRx}
    {status : Option RlcStatusPdu} (hne : 1 ≤ payload.length)
    (hok : rx.writePdu payload = .ok (rx', status)) :
    (WindowOrdered rx' ∧ InRange rx') ∧
      (SegmentsBelow rx none → (SegmentsBelow rx' none ↔ TidyPdu rx payload)) := by
  rw [writePdu, if_neg (Nat.not_lt.mpr hne)] at hok
  rw [TidyPdu]
  by_cases hcontrol : rlcAmIsControlPdu payload = true
  · rw [if_pos hcontrol] at hok
    obtain ⟨s, -, hrx'⟩ := map_eq_ok_iff.mp hok
    cases hrx'
    refine ⟨⟨h, hr⟩, fun hsegments => ⟨fun _ hdata => ?_, fun _ => hsegments⟩⟩
    exact absurd (hcontrol.symm.trans hdata) (by decide)
  · rw [if_neg hcontrol] at hok
    have hdata : rlcAmIsControlPdu payload = false := by simpa using hcontrol
    rw [imp_iff_right hdata]
    cases hread : AmdPduHeader.read payload with
    | error fault => simp only [hread] at hok; cases hok
    | ok r =>
      obtain ⟨header, rest⟩ := r
      simp only [hread] at hok
      have hsn := AmdPduHeader.sn_lt_of_read hread
      rw [forall_eq_ok_iff]
      by_cases hrf : header.rf = true
      · rw [if_pos hrf] at hok
        rw [if_pos hrf]
        obtain ⟨rx₁, hhandle, hr'⟩ := map_eq_ok_iff.mp hok
        cases hr'
        exact handleDataPduSegment_spec h hr hsn hhandle
      · rw [if_neg hrf] at hok
        rw [if_neg hrf]
        obtain ⟨rx₁, hhandle, hr'⟩ := map_eq_ok_iff.mp hok
        cases hr'
        obtain ⟨hordered, hbelow⟩ := handleDataPdu_spec h hr hsn hhandle
        exact ⟨hordered, hbelow none⟩

theorem step_spec (h : WindowOrdered rx) (hr : InRange rx) (hsound : SoundWindow rx) (e : Event) :
    (WindowOrdered (rx.step e) ∧ InRange (rx.step e)) ∧
      (SegmentsBelow rx none → (SegmentsBelow (rx.step e) none ↔ Tidy rx e)) := by
  cases e with
  | timerExpired =>
    rw [step]
    split_ifs with hrunning
    · obtain ⟨hordered, hbelow⟩ := timerExpired_spec h hr hrunning
      exact ⟨hordered, fun hsegments => ⟨fun _ => trivial, fun _ => hbelow hsegments⟩⟩
    · exact ⟨⟨h, hr⟩, fun hsegments => ⟨fun _ => trivial, fun _ => hsegments⟩⟩
  | pdu payload =>
    rw [step, Tidy]
    by_cases hne : 1 ≤ payload.length
    · rw [imp_iff_right hne]
      have hcopes := isOk_writePdu hsound hne
      cases hwrite : rx.writePdu payload with
      | error fault =>
        rw [hwrite] at hcopes
        refine ⟨⟨h, hr⟩, fun hsegments => ⟨fun _ hc => ?_, fun _ => hsegments⟩⟩
        exact absurd (hcopes.mpr hc) Bool.false_ne_true
      | ok r =>
        obtain ⟨rx', status⟩ := r
        rw [hwrite] at hcopes
        rw [imp_iff_right (hcopes.mp rfl)]
        exact writePdu_spec h hr hne hwrite
    · have hwrite : rx.writePdu payload = .ok (rx, none) := by
        rw [writePdu, if_pos (Nat.not_le.mp hne)]
      rw [hwrite]
      exact ⟨⟨h, hr⟩, fun hsegments => ⟨fun _ hle => absurd hle hne, fun _ => hsegments⟩⟩

structure Inv (rx : RlcAmRx) : Prop where
  ordered : Ordered rx
  inRange : InRange rx
  sound : SoundWindow rx

theorem Ordered.segmentsBelow (h : Ordered rx) : SegmentsBelow rx none :=
  fun sn segments hfind _ => h.segments_lt sn segments hfind

theorem ordered_iff (h : WindowOrdered rx) : Ordered rx ↔ SegmentsBelow rx none :=
  ⟨Ordered.segmentsBelow, fun hsegments =>
    ⟨h, fun sn segments hfind => hsegments sn segments hfind (by simp)⟩⟩

theorem inRange_init (delivered : List Bytes) : InRange (init delivered) where
  vrR_lt := Nat.zero_lt_succ _
  vrMr_lt := Nat.lt_of_sub_pos (Nat.zero_lt_succ _)
  vrMs_lt := Nat.zero_lt_succ _
  vrH_lt := Nat.zero_lt_succ _
  vrX_lt := Nat.zero_lt_succ _
  window_lt _ _ h := by cases h
  segments_sn _ _ h := by cases h

theorem windowOrdered_init (delivered : List Bytes) : WindowOrdered (init delivered) where
  vrMs_le := le_rfl
  vrH_le := by
    have hzero : (init delivered).rxModBase (init delivered).vrH = 0 :=
      rxModBase_vrR (inRange_init delivered)
    rw [hzero]
    exact Nat.zero_le _
  vrMr_eq := by simp [init, rlcAmWindowSize, rlcAmMod]
  vrR_free := rfl
  vrMs_free := rfl
  window_lt _ _ h := by cases h
  vrX_mem h := by cases h

theorem inv_init (delivered : List Bytes) : Inv (init delivered) where
  ordered := (ordered_iff (windowOrdered_init delivered)).mpr fun _ _ h => by cases h
  inRange := inRange_init delivered
  sound := soundWindow_init delivered

/-- The state variables and the keys of both maps stay in order along a run if and only if none of
the PDUs that the reassembly takes out of the window still has segments. -/
theorem alongOrdered_iff_tidy (delivered : List Bytes) (events : List Event) :
    Along step (fun rx e => Ordered (rx.step e)) (init delivered) events ↔
      Along step Tidy (init delivered) events := by
  refine along_congr (I := Inv) (fun rx e hrx hordered => ?_) (fun rx e hrx => ?_)
    (inv_init delivered)
  · have hspec := step_spec hrx.ordered.toWindowOrdered hrx.inRange hrx.sound e
    exact ⟨hordered, hspec.1.2, soundWindow_step hrx.sound e⟩
  · have hspec := step_spec hrx.ordered.toWindowOrdered hrx.inRange hrx.sound e
    exact (ordered_iff hspec.1.1).trans (hspec.2 hrx.ordered.segmentsBelow)

/-- The first segment of a PDU and then the whole PDU: its SN stays a key of the segments. -/
theorem whole_pdu_leaves_segments :
    ¬ Along step (fun rx e => Ordered (rx.step e)) (init [])
      [.pdu [0xC0, 0x00, 0x00, 0x00, 0x55], .pdu [0x80, 0x00, 0x55, 0x66]] := by
  rintro ⟨-, h, -⟩
  have hlt := h.segments_lt 0 [] (by decide)
  exact absurd hlt (by decide)

end SrsLte.RlcAmRx
