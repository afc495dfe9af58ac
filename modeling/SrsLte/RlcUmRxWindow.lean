import SrsLte.RlcUmReassembly
import SrsLte.WhileLoop

/-!
# The receive window of the UM receiver

Whatever the peer sends, the state variables and the sequence numbers in the window stay residues
of numbers in one reordering window, and the loops of the receiver end. What is known of the
contents is carried along as a property of the receiver and its lower edge.
-/

namespace SrsLte

namespace RlcUmRx

open WhileLoop

variable {rx rx' rx₁ : RlcUmRx} {n U H X : ℕ}

/-- The lower edge has moved from `U` to `U'`: PDUs may leave the window below `U'`. -/
structure Progress (rx rx' : RlcUmRx) (U U' : ℕ) : Prop where
  snSize : rx'.snSize = rx.snSize
  vrUx : rx'.vrUx = rx.vrUx
  reorderingTimer : rx'.reorderingTimer = rx.reorderingTimer
  le : U ≤ U'
  subset : rx'.rxWindow ⊆ rx.rxWindow
  holds : ∀ n, U' ≤ n → n < U + rx.snSize.mod → rx.Holds n → rx'.Holds n

theorem Progress.refl (rx : RlcUmRx) (U : ℕ) : Progress rx rx U U :=
  ⟨rfl, rfl, rfl, le_rfl, List.Subset.refl _, fun _ _ _ h => h⟩

theorem Progress.trans {rx'' : RlcUmRx} {U' U'' : ℕ} (h : Progress rx rx' U U')
    (h' : Progress rx' rx'' U' U'') : Progress rx rx'' U U'' where
  snSize := h'.snSize.trans h.snSize
  vrUx := h'.vrUx.trans h.vrUx
  reorderingTimer := h'.reorderingTimer.trans h.reorderingTimer
  le := h.le.trans h'.le
  subset := List.Subset.trans h'.subset h.subset
  holds := fun n hlo hhi hn => by
    apply h'.holds n hlo
    · rw [h.snSize]
      have := h.le
      omega
    · exact h.holds n (h'.le.trans hlo) hhi hn

theorem Progress.holds_of (h : Progress rx rx' U U') (hn : rx'.Holds n) : rx.Holds n := by
  obtain ⟨p, hp, hsn⟩ := hn
  exact ⟨p, h.subset hp, by rw [hsn, h.snSize]⟩

theorem mod_pos (s : UmdSnSize) : 0 < s.mod := by cases s <;> decide

theorem ne_nil_of_holds (h : rx.Holds n) : rx.rxWindow ≠ [] := by
  obtain ⟨p, hp, -⟩ := h
  exact List.ne_nil_of_mem hp

def CatchesUp : RlcUmRx → RlcUmRx → Prop :=
  Ends (fun rx => rx.insideReorderingWindow rx.vrUr = false) fun rx rx' => rx' = rx.lowerEdgeStep

def UpdatesVrUr : RlcUmRx → RlcUmRx → Prop :=
  Ends (fun rx => (rx.find rx.vrUr).isSome = true) fun rx rx' =>
    ∃ pdu, rx.find rx.vrUr = some pdu ∧ rx' = rx.updatePdu pdu

/-- Both loops of `reassemble_rx_sdus` end. -/
def Settles (rx rx' : RlcUmRx) : Prop := ∃ rx₁, CatchesUp rx rx₁ ∧ UpdatesVrUr rx₁ rx'

def Expires : RlcUmRx → RlcUmRx → Prop :=
  Ends (fun rx => rx.rxModBase rx.vrUr < rx.rxModBase rx.vrUx) fun rx rx' =>
    Settles { rx with vrUr := (rx.vrUr + 1) % rx.snSize.mod } rx'

theorem Numbered.advance (h : Numbered rx U H) (hlt : U < H) (hsize : rx'.snSize = rx.snSize)
    (hur : rx'.vrUr = (rx.vrUr + 1) % rx.snSize.mod) (huh : rx'.vrUh = rx.vrUh)
    (hwindow : ∀ p ∈ rx'.rxWindow, p ∈ rx.rxWindow ∧ p.header.sn ≠ rx.vrUr) :
    Numbered rx' (U + 1) H where
  vrUr := by rw [hur, h.vrUr, hsize, Nat.mod_add_mod]
  vrUh := by rw [huh, h.vrUh, hsize]
  le := hlt
  window := by
    intro p hp
    obtain ⟨hmem, hne⟩ := hwindow p hp
    obtain ⟨n, hlo, hhi, hsn⟩ := h.window p hmem
    refine ⟨n, ?_, hhi, by rw [hsn, hsize]⟩
    rcases Nat.lt_or_eq_of_le hlo with hlo' | rfl
    · exact hlo'
    · exact absurd (hsn.trans h.vrUr.symm) hne

theorem Numbered.afterPdu (h : Numbered rx U H) (hlt : U < H) (hframe : Frame rx rx') :
    Numbered { rx'.erase rx'.vrUr with vrUr := (rx'.vrUr + 1) % rx'.snSize.mod } (U + 1) H ∧
      Progress rx { rx'.erase rx'.vrUr with vrUr := (rx'.vrUr + 1) % rx'.snSize.mod } U
        (U + 1) := by
  have hsize := hframe.snSize
  have hwindow : (rx'.erase rx'.vrUr).rxWindow =
      rx.rxWindow.filter fun p => p.header.sn ≠ rx.vrUr := by
    unfold erase
    rw [hframe.rxWindow, hframe.vrUr]
  constructor
  · refine h.advance hlt hsize (by rw [hframe.vrUr, hsize]) hframe.vrUh fun p hp => ?_
    change p ∈ (rx'.erase rx'.vrUr).rxWindow at hp
    rw [hwindow, List.mem_filter] at hp
    exact ⟨hp.1, of_decide_eq_true hp.2⟩
  · refine ⟨hsize, hframe.vrUx, hframe.reorderingTimer, Nat.le_succ U, ?_, fun n hlo hhi hn => ?_⟩
    · change (rx'.erase rx'.vrUr).rxWindow ⊆ rx.rxWindow
      rw [hwindow]
      exact List.filter_subset_self _
    · change ∃ p ∈ (rx'.erase rx'.vrUr).rxWindow, p.header.sn = n % rx'.snSize.mod
      rw [hwindow, hsize]
      exact h.holds_erase hlo hhi hn

theorem lowerEdgeStep_of_none (hfind : rx.find rx.vrUr = none) : rx.lowerEdgeStep =
    { rx.clearSdu with vrUr := (rx.clearSdu.vrUr + 1) % rx.clearSdu.snSize.mod } := by
  rw [RlcUmRx.lowerEdgeStep, hfind]

theorem lowerEdgeStep_of_some {p : UmdPdu} (hfind : rx.find rx.vrUr = some p) : rx.lowerEdgeStep =
    { (rx.lowerEdgeBody p).erase (rx.lowerEdgeBody p).vrUr with
      vrUr := ((rx.lowerEdgeBody p).vrUr + 1) % (rx.lowerEdgeBody p).snSize.mod } := by
  rw [RlcUmRx.lowerEdgeStep, hfind]
  rfl

theorem Numbered.lowerEdgeStep (h : Numbered rx U H) (hlt : U < H) :
    Numbered rx.lowerEdgeStep (U + 1) H ∧ Progress rx rx.lowerEdgeStep U (U + 1) := by
  cases hfind : rx.find rx.vrUr with
  | none =>
    have hmiss : ¬ rx.Holds U := find_eq_none_iff.mp (h.vrUr ▸ hfind)
    rw [lowerEdgeStep_of_none hfind]
    refine ⟨h.advance hlt rfl rfl rfl fun p hp => ⟨hp, fun hsn => ?_⟩,
      ⟨rfl, rfl, rfl, Nat.le_succ U, List.Subset.refl _, fun _ _ _ hn => hn⟩⟩
    exact hmiss ⟨p, hp, hsn.trans h.vrUr⟩
  | some p =>
    rw [lowerEdgeStep_of_some hfind]
    exact h.afterPdu hlt (frame_lowerEdgeBody rx p)

theorem Numbered.updatePdu (h : Numbered rx U H) (hH : H ≤ U + rx.snSize.mod) {p : UmdPdu}
    (hfind : rx.find rx.vrUr = some p) :
    Numbered (rx.updatePdu p) (U + 1) H ∧ Progress rx (rx.updatePdu p) U (U + 1) ∧
      (rx.updatePdu p).rxWindow.length < rx.rxWindow.length := by
  have hframe := (frame_checked rx).trans (frame_updateBody rx.checked p)
  have hholds : rx.Holds U := find_isSome_iff.mp (by rw [← h.vrUr, hfind]; rfl)
  have hpos := mod_pos rx.snSize
  have hlt := h.holds_lt hH le_rfl (by omega) hholds
  obtain ⟨hnum, hprogress⟩ := h.afterPdu hlt hframe
  refine ⟨hnum, hprogress, ?_⟩
  change ((rx.checked.updateBody p).rxWindow.filter
    fun q => q.header.sn ≠ (rx.checked.updateBody p).vrUr).length < _
  rw [hframe.rxWindow, hframe.vrUr]
  apply List.length_filter_lt_length_iff_exists.mpr
  exact ⟨_, List.mem_of_find?_eq_some hfind, by simpa using List.find?_some hfind⟩

/-- A property of the receiver that every round of the two loops keeps. -/
structure Follows (C : RlcUmRx → ℕ → Prop) (H : ℕ) : Prop where
  lowerEdgeStep : ∀ rx U, Numbered rx U H → U + rx.snSize.rxWindowSize < H →
    H ≤ U + rx.snSize.mod → C rx U → C rx.lowerEdgeStep (U + 1)
  updatePdu : ∀ rx U p, Numbered rx U H → H ≤ U + rx.snSize.mod →
    rx.find rx.vrUr = some p → C rx U → C (rx.updatePdu p) (U + 1)

theorem follows_true (H : ℕ) : Follows (fun _ _ => True) H :=
  ⟨fun _ _ _ _ _ _ => trivial, fun _ _ _ _ _ _ _ => trivial⟩

variable {C : RlcUmRx → ℕ → Prop}

theorem Numbered.catchUp (hC : Follows C H) (fuel : ℕ) (h : Numbered rx U H) (hrx : C rx U)
    (hlt : U < H) (hH : H ≤ U + 2 * rx.snSize.rxWindowSize) (htop : rx.Holds (H - 1))
    (hfuel : H ≤ U + rx.snSize.rxWindowSize + fuel) :
    ∃ U', CatchesUp rx (catchUp fuel rx) ∧ Numbered (catchUp fuel rx) U' H ∧
      C (catchUp fuel rx) U' ∧ Progress rx (catchUp fuel rx) U U' ∧ U' < H ∧
      H ≤ U' + rx.snSize.rxWindowSize ∧ (U' = U ∨ U' + rx.snSize.rxWindowSize ≤ H) := by
  have hinside {rx : RlcUmRx} {U : ℕ} (h : Numbered rx U H) (htop : rx.Holds (H - 1))
      (hlt : U < H) (hH : H ≤ U + 2 * rx.snSize.rxWindowSize) :
      rx.insideReorderingWindow rx.vrUr = true ↔ H ≤ U + rx.snSize.rxWindowSize := by
    rw [h.vrUr, insideReorderingWindow_iff h.vrUh (ne_nil_of_holds htop) hH (by omega)]
    exact and_iff_left hlt
  induction fuel generalizing rx U with
  | zero =>
    refine ⟨U, Ends.exit ?_, h, hrx, Progress.refl rx U, hlt, hfuel, Or.inl rfl⟩
    rw [Bool.not_eq_false]
    exact (hinside h htop hlt hH).mpr hfuel
  | succ fuel ih =>
    rw [RlcUmRx.catchUp]
    by_cases hin : rx.insideReorderingWindow rx.vrUr = true
    · rw [if_pos hin]
      exact ⟨U, Ends.exit (by simp [hin]), h, hrx, Progress.refl rx U, hlt,
        (hinside h htop hlt hH).mp hin, Or.inl rfl⟩
    · rw [if_neg hin]
      have hbelow := mt (hinside h htop hlt hH).mpr hin
      have hmod := mod_eq rx.snSize
      obtain ⟨hnum, hprogress⟩ := h.lowerEdgeStep hlt
      have hsize := hprogress.snSize
      obtain ⟨U', hends, hnum', hrx', hprogress', hlt', hnear, hlast⟩ :=
        ih hnum (hC.lowerEdgeStep _ _ h (by omega) (by omega) hrx) (by omega)
          (by rw [hsize]; omega) (hprogress.holds _ (by omega) (by omega) htop)
          (by rw [hsize]; omega)
      rw [hsize] at hnear hlast
      exact ⟨U', Ends.round (by simpa using hin) rfl hends, hnum', hrx', hprogress.trans hprogress',
        hlt', hnear, Or.inr (by omega)⟩

theorem Numbered.updateVrUr (hC : Follows C H) {fuel : ℕ} (h : Numbered rx U H) (hrx : C rx U)
    (hH : H ≤ U + rx.snSize.mod) (hfuel : rx.rxWindow.length ≤ fuel) :
    ∃ U', UpdatesVrUr rx (updateVrUr fuel rx) ∧ Numbered (updateVrUr fuel rx) U' H ∧
      C (updateVrUr fuel rx) U' ∧ Progress rx (updateVrUr fuel rx) U U' ∧
      ∀ m, U ≤ m → m < U' → rx.Holds m := by
  induction fuel generalizing rx U with
  | zero =>
    have hnil : rx.rxWindow = [] := List.length_eq_zero_iff.mp (Nat.le_zero.mp hfuel)
    refine ⟨U, Ends.exit ?_, h, hrx, Progress.refl rx U, fun m hlo hhi => absurd hhi (by omega)⟩
    unfold find
    rw [hnil]
    simp
  | succ fuel ih =>
    rw [RlcUmRx.updateVrUr]
    cases hfind : rx.find rx.vrUr with
    | none =>
      exact ⟨U, Ends.exit (by simp [hfind]), h, hrx, Progress.refl rx U,
        fun m hlo hhi => absurd hhi (by omega)⟩
    | some p =>
      obtain ⟨hnum, hprogress, hlen⟩ := h.updatePdu hH hfind
      obtain ⟨U', hends, hnum', hrx', hprogress', hpassed⟩ :=
        ih hnum (hC.updatePdu _ _ p h hH hfind hrx) (by rw [hprogress.snSize]; omega) (by omega)
      have hholds : rx.Holds U := find_isSome_iff.mp (by rw [← h.vrUr, hfind]; rfl)
      refine ⟨U', Ends.round (by simp [hfind]) ⟨p, hfind, rfl⟩ hends, hnum', hrx',
        hprogress.trans hprogress', fun m hlo hhi => ?_⟩
      rcases Nat.lt_or_eq_of_le hlo with hlt | rfl
      · exact hprogress.holds_of (hpassed m hlt hhi)
      · exact hholds

theorem UpdatesVrUr.missing (h : UpdatesVrUr rx rx') (hur : rx'.vrUr = U % rx'.snSize.mod) :
    ¬ rx'.Holds U := by
  rw [← find_isSome_iff, ← hur]
  exact h.not_cond

theorem Numbered.reassembleRxSdus (hC : Follows C H) (h : Numbered rx U H) (hrx : C rx U)
    (hlt : U < H) (hH : H ≤ U + 2 * rx.snSize.rxWindowSize) (htop : rx.Holds (H - 1)) :
    ∃ U', Settles rx rx.reassembleRxSdus ∧ Numbered rx.reassembleRxSdus U' H ∧
      C rx.reassembleRxSdus U' ∧ Progress rx rx.reassembleRxSdus U U' ∧
      ¬ rx.reassembleRxSdus.Holds U' ∧ H ≤ U' + rx.snSize.rxWindowSize ∧
      ∀ m, U ≤ m → H ≤ m + rx.snSize.rxWindowSize → m < U' → rx.Holds m := by
  have hmod := mod_eq rx.snSize
  obtain ⟨U₁, hcatch, hnum₁, hrx₁, hprogress₁, hlt₁, hnear, hlast⟩ :=
    h.catchUp hC rx.snSize.mod hrx hlt hH htop (by omega)
  have hsize := hprogress₁.snSize
  obtain ⟨U', hupdate, hnum', hrx', hprogress', hpassed⟩ :=
    hnum₁.updateVrUr hC hrx₁ (by rw [hsize]; omega) le_rfl
  have hle := hprogress'.le
  refine ⟨U', ⟨_, hcatch, hupdate⟩, hnum', hrx', hprogress₁.trans hprogress',
    hupdate.missing hnum'.vrUr, by omega, fun m hlo hwin hhi => ?_⟩
  apply hprogress₁.holds_of
  apply hpassed m ?_ hhi
  rcases hlast with rfl | hbelow
  · exact hlo
  · omega

theorem Numbered.stopTimer {H' U' X : ℕ} (h : Numbered rx U' H')
    (hnear : H' ≤ U' + rx.snSize.rxWindowSize) (hux : rx.vrUx = X % rx.snSize.mod) (hX : X ≤ H')
    (hfar : H' < X + 2 * rx.snSize.rxWindowSize)
    (hempty : X + rx.snSize.rxWindowSize < H' → rx.rxWindow ≠ [])
    (hrun : rx.stopTimer.reorderingTimer = true) : U' < X := by
  have hle := h.le
  have hpos := window_pos rx.snSize
  unfold RlcUmRx.stopTimer at hrun
  split_ifs at hrun with hstop
  have hkeep : ¬ (rx.rxModBase rx.vrUx ≤ rx.rxModBase rx.vrUr ∨
      (¬ rx.insideReorderingWindow rx.vrUx = true ∧ rx.vrUx ≠ rx.vrUh)) := fun h => hstop ⟨hrun, h⟩
  rw [not_or] at hkeep
  rw [hux, h.vrUr, rxModBase_near h.vrUh hnear (by omega)] at hkeep
  by_cases hin : H' ≤ X + rx.snSize.rxWindowSize
  · have hbase := hkeep.1
    rw [rxModBase_near h.vrUh hin (by omega)] at hbase
    omega
  · -- `vr_ux` has left the window, so the timer is stopped
    have hmod := mod_eq rx.snSize
    exfalso
    apply hkeep.2
    refine ⟨fun hinside => ?_, fun heq => ?_⟩
    · have := (insideReorderingWindow_iff h.vrUh (hempty (by omega)) (by omega)
        (by omega)).mp hinside
      omega
    · have := eq_of_residues hX (by omega) (h.vrUh.symm.trans heq.symm)
      omega

theorem stopTimer_frame (rx : RlcUmRx) :
    rx.stopTimer = { rx with reorderingTimer := rx.stopTimer.reorderingTimer } := by
  unfold RlcUmRx.stopTimer
  split_ifs <;> rfl

theorem startTimer_frame (rx : RlcUmRx) : rx.startTimer = { rx with
    reorderingTimer := rx.startTimer.reorderingTimer, vrUx := rx.startTimer.vrUx } := by
  unfold RlcUmRx.startTimer
  split_ifs <;> rfl

/-- The timer waits for a PDU below `X`, or it was left running by a re-establishment. -/
def TimerAt (rx : RlcUmRx) (U H X : ℕ) : Prop :=
  rx.vrUx = X % rx.snSize.mod ∧ (U < X ∧ X ≤ H ∧ rx.Holds (X - 1) ∨ X = U ∧ H = U)

/-- The receiver between two inputs. -/
structure Waits (rx : RlcUmRx) (U H : ℕ) : Prop extends Numbered rx U H where
  near : H ≤ U + rx.snSize.rxWindowSize
  missing : ¬ rx.Holds U
  top : U < H → rx.Holds (H - 1)
  timer : rx.reorderingTimer = true →
    ∃ X, rx.vrUx = X % rx.snSize.mod ∧ U < X ∧ X ≤ H ∧ rx.Holds (X - 1)

theorem Numbered.startTimer (h : Numbered rx U H) (hnear : H ≤ U + rx.snSize.rxWindowSize)
    (hmiss : ¬ rx.Holds U) (htop : U < H → rx.Holds (H - 1))
    (htimer : rx.reorderingTimer = true →
      ∃ X, rx.vrUx = X % rx.snSize.mod ∧ U < X ∧ X ≤ H ∧ rx.Holds (X - 1)) :
    Waits rx.startTimer U H := by
  have hle := h.le
  have hpos := window_pos rx.snSize
  have hbase : rx.rxModBase rx.vrUh > rx.rxModBase rx.vrUr ↔ U < H := by
    rw [rxModBase_vrUh h.vrUh, h.vrUr, rxModBase_near h.vrUh hnear (by omega)]
    omega
  unfold RlcUmRx.startTimer
  by_cases hstart : ¬ rx.reorderingTimer = true ∧ rx.rxModBase rx.vrUh > rx.rxModBase rx.vrUr
  · have hlt := hbase.mp hstart.2
    rw [if_pos hstart]
    exact ⟨⟨h.vrUr, h.vrUh, h.le, h.window⟩, hnear, hmiss, htop,
      fun _ => ⟨H, h.vrUh, hlt, le_rfl, htop hlt⟩⟩
  · rw [if_neg hstart]
    exact ⟨h, hnear, hmiss, htop, htimer⟩

theorem Waits.vrUr_ne (h : Waits rx U H) (hrun : rx.reorderingTimer = true) :
    rx.vrUr ≠ rx.vrUh := by
  obtain ⟨X, -, hUX, hXH, -⟩ := h.timer hrun
  have hnear := h.near
  have hmod := mod_eq rx.snSize
  have hpos := window_pos rx.snSize
  rw [h.vrUr, h.vrUh]
  intro heq
  have := eq_of_residues h.le (by omega) heq.symm
  omega

/-- `rx₁` is `rx` with a PDU of number `n` added to the window. -/
structure Adds (rx rx₁ : RlcUmRx) (n : ℕ) : Prop where
  snSize : rx₁.snSize = rx.snSize
  window : ∃ pdu : UmdPdu, pdu.header.sn = n % rx.snSize.mod ∧ rx₁.rxWindow = pdu :: rx.rxWindow

theorem Adds.holds_self (h : Adds rx rx₁ n) : rx₁.Holds n := by
  obtain ⟨pdu, hsn, hwindow⟩ := h.window
  exact ⟨pdu, by rw [hwindow]; exact List.mem_cons_self, by rw [h.snSize, hsn]⟩

theorem Adds.holds {m : ℕ} (h : Adds rx rx₁ n) (hm : rx.Holds m) : rx₁.Holds m := by
  obtain ⟨pdu, -, hwindow⟩ := h.window
  obtain ⟨p, hp, hpsn⟩ := hm
  exact ⟨p, by rw [hwindow]; exact List.mem_cons_of_mem _ hp, by rw [hpsn, h.snSize]⟩

theorem Adds.top (h : Adds rx rx₁ n) (htop : U < H → rx.Holds (H - 1)) (hU : U ≤ n) :
    rx₁.Holds (max H (n + 1) - 1) := by
  by_cases hlt : n < H
  · rw [Nat.max_eq_left hlt]
    exact h.holds (htop (by omega))
  · rw [Nat.max_eq_right (by omega)]
    exact h.holds_self

theorem Adds.waits {U' X : ℕ} (h : Adds rx rx₁ n) (hnum : Numbered rx U H)
    (hnear : H ≤ U + rx.snSize.rxWindowSize) (hhi : n < H + rx.snSize.rxWindowSize)
    (hnum' : Numbered rx' U' (max H (n + 1))) (hprogress : Progress rx₁ rx' U U')
    (hnear' : max H (n + 1) ≤ U' + rx'.snSize.rxWindowSize)
    (hpassed : ∀ m, U ≤ m → max H (n + 1) ≤ m + rx₁.snSize.rxWindowSize → m < U' → rx₁.Holds m)
    (htop' : U' < max H (n + 1) → rx'.Holds (max H (n + 1) - 1))
    (hX : rx'.vrUx = X % rx'.snSize.mod) (hUX : U < X ∨ X = H) (hXH : X ≤ H)
    (hfar : max H (n + 1) < X + 2 * rx.snSize.rxWindowSize)
    (hrun : rx'.stopTimer.reorderingTimer = true) : U' < X := by
  have hle := hnum.le
  have hmod := mod_eq rx.snSize
  have hpos := window_pos rx.snSize
  have hsize := h.snSize
  have hsize' := hprogress.snSize.trans hsize
  obtain ⟨pdu, hsn, hwindow⟩ := h.window
  have hempty : X + rx'.snSize.rxWindowSize < max H (n + 1) → rx'.rxWindow ≠ [] := by
    -- then `H` itself is still missing, so the PDU just stored is too
    intro hbelow
    rw [hsize'] at hbelow
    have hmissH : ¬ rx₁.Holds H := by
      rintro ⟨p, hp, hpsn⟩
      rw [hwindow] at hp
      rw [hsize] at hpsn
      rcases List.mem_cons.mp hp with rfl | hp
      · have := eq_of_residues (show H ≤ n by omega) (by omega) (hsn.symm.trans hpsn)
        omega
      · have := hnum.holds_lt (by omega) hle (by omega) ⟨p, hp, hpsn⟩
        omega
    have hU' : U' ≤ H := by
      by_contra hgt
      exact hmissH (hpassed H hle (by rw [hsize]; omega) (by omega))
    exact ne_nil_of_holds (htop' (by omega))
  exact hnum'.stopTimer hnear' hX (by omega) (by rw [hsize']; exact hfar) hempty hrun

theorem Numbered.discards_iff (h : Numbered rx U H) (hnear : H ≤ U + rx.snSize.rxWindowSize)
    (hlo : H ≤ n + rx.snSize.rxWindowSize) (hhi : n < H + rx.snSize.rxWindowSize) :
    rx.discards (n % rx.snSize.mod) = true ↔ n < U ∨ rx.Holds n := by
  have hle := h.le
  have hpos := window_pos rx.snSize
  unfold discards
  rw [decide_eq_true_iff, rxModBase_lowerEdge h.vrUh, find_isSome_iff, h.vrUr,
    rxModBase_near h.vrUh hlo hhi, rxModBase_near h.vrUh hnear (by omega)]
  simp only [ge_iff_le, Nat.zero_le, true_and]
  constructor
  · rintro (hlt | hholds)
    · exact Or.inl (by omega)
    · exact Or.inr hholds
  · rintro (hlt | hholds)
    · exact Or.inl (by omega)
    · exact Or.inr hholds

theorem Numbered.store (h : Numbered rx U H) {pdu : UmdPdu}
    (hsn : pdu.header.sn = n % rx.snSize.mod)
    (hlo : H ≤ n + rx.snSize.rxWindowSize) (hhi : n < H + rx.snSize.rxWindowSize) (hU : U ≤ n) :
    Numbered (rx.store pdu) U (max H (n + 1)) ∧ rx.store pdu =
      { rx with rxWindow := pdu :: rx.rxWindow, vrUh := (rx.store pdu).vrUh } := by
  obtain ⟨rx₁, hrx₁⟩ : ∃ rx₁ : RlcUmRx, rx₁ = { rx with rxWindow := pdu :: rx.rxWindow } := ⟨_, rfl⟩
  have huh : rx₁.vrUh = H % rx₁.snSize.mod := by rw [hrx₁]; exact h.vrUh
  have hinside : rx₁.insideReorderingWindow pdu.header.sn = true ↔ n < H := by
    have hiff := @insideReorderingWindow_iff rx₁ n H huh (by rw [hrx₁]; simp)
      (by rw [hrx₁]; change H ≤ n + 2 * rx.snSize.rxWindowSize; omega) (by rw [hrx₁]; exact hhi)
    rw [show rx₁.snSize = rx.snSize by rw [hrx₁]] at hiff
    rw [hsn, hiff]
    exact and_iff_right hlo
  have hstore : rx.store pdu =
      if ¬ rx₁.insideReorderingWindow pdu.header.sn = true then
        { rx₁ with vrUh := (pdu.header.sn + 1) % rx.snSize.mod }
      else rx₁ := by
    rw [hrx₁]
    rfl
  have hwindow (H' : ℕ) (hH : H ≤ H') (hn : n < H') : ∀ p ∈ pdu :: rx.rxWindow,
      ∃ m, U ≤ m ∧ m < H' ∧ p.header.sn = m % rx.snSize.mod := by
    intro p hp
    rcases List.mem_cons.mp hp with rfl | hp
    · exact ⟨n, hU, hn, hsn⟩
    · obtain ⟨m, hm, hmH, hpsn⟩ := h.window p hp
      exact ⟨m, hm, by omega, hpsn⟩
  rw [hstore]
  by_cases hlt : n < H
  · rw [if_neg (not_not.mpr (hinside.mpr hlt)), Nat.max_eq_left hlt, hrx₁]
    exact ⟨⟨h.vrUr, h.vrUh, h.le, hwindow H le_rfl hlt⟩, rfl⟩
  · rw [if_pos fun hin => hlt (hinside.mp hin), Nat.max_eq_right (by omega), hrx₁]
    refine ⟨⟨h.vrUr, ?_, by omega, hwindow (n + 1) (by omega) (Nat.lt_succ_self n)⟩, rfl⟩
    change (pdu.header.sn + 1) % rx.snSize.mod = _
    rw [hsn, Nat.mod_add_mod]

theorem Numbered.afterStore (hC : Follows C (max H (n + 1))) (h : Numbered rx U H)
    (hnear₀ : H ≤ U + rx.snSize.rxWindowSize) (htop₀ : U < H → rx.Holds (H - 1))
    (hwait : rx.reorderingTimer = true → ∃ X, rx.TimerAt U H X)
    (hhi : n < H + rx.snSize.rxWindowSize) (hU : U ≤ n) (hadds : Adds rx rx₁ n)
    (hux : rx₁.vrUx = rx.vrUx) (htimer : rx₁.reorderingTimer = rx.reorderingTimer)
    (hnum : Numbered rx₁ U (max H (n + 1))) (hrx₁ : C rx₁ U) :
    ∃ U', Settles rx₁ rx₁.reassembleRxSdus ∧ C rx₁.reassembleRxSdus U' ∧
      rx₁.reassembleRxSdus.snSize = rx.snSize ∧
      Waits rx₁.reassembleRxSdus.stopTimer.startTimer U' (max H (n + 1)) := by
  have hle := h.le
  have hmod := mod_eq rx.snSize
  have hpos := window_pos rx.snSize
  have hsize := hadds.snSize
  have htop := hadds.top htop₀ hU
  obtain ⟨U', hsettles, hnum', hrx', hprogress, hmiss, hnear, hpassed⟩ :=
    hnum.reassembleRxSdus hC hrx₁ (by omega) (by rw [hsize]; omega) htop
  have hsize' := hprogress.snSize
  have hmove := hprogress.le
  rw [← hsize'] at hnear
  have htop' : U' < max H (n + 1) → rx₁.reassembleRxSdus.Holds (max H (n + 1) - 1) := fun hlt =>
    hprogress.holds _ (by omega) (by rw [hsize]; omega) htop
  have hrunning : rx₁.reassembleRxSdus.stopTimer.reorderingTimer = true →
      ∃ X, rx₁.reassembleRxSdus.vrUx = X % rx₁.reassembleRxSdus.snSize.mod ∧ U' < X ∧
        X ≤ max H (n + 1) ∧ rx₁.reassembleRxSdus.Holds (X - 1) := by
    intro hrun
    have hbefore : rx₁.reassembleRxSdus.reorderingTimer = true := by
      unfold RlcUmRx.stopTimer at hrun
      split_ifs at hrun
      exact hrun
    rw [hprogress.reorderingTimer, htimer] at hbefore
    obtain ⟨X, hX, hat⟩ := hwait hbefore
    have hX' : rx₁.reassembleRxSdus.vrUx = X % rx₁.reassembleRxSdus.snSize.mod := by
      rw [hprogress.vrUx, hux, hX, hsize', hsize]
    obtain ⟨hUX, hXH, hfar⟩ :
        (U < X ∨ X = H) ∧ X ≤ H ∧ max H (n + 1) < X + 2 * rx.snSize.rxWindowSize := by
      rcases hat with ⟨hUX, hXH, -⟩ | ⟨rfl, rfl⟩
      · exact ⟨Or.inl hUX, hXH, by omega⟩
      · exact ⟨Or.inr rfl, le_rfl, by omega⟩
    have hlt : U' < X := hadds.waits h hnear₀ hhi hnum' hprogress hnear hpassed htop' hX' hUX hXH
      hfar hrun
    -- a timer that a re-establishment left running stands at the old lower edge
    have hholds : rx.Holds (X - 1) := by
      rcases hat with ⟨-, -, hholds⟩ | ⟨rfl, -⟩
      · exact hholds
      · omega
    exact ⟨X, hX', hlt, by omega,
      hprogress.holds _ (by omega) (by rw [hsize]; omega) (hadds.holds hholds)⟩
  refine ⟨U', hsettles, hrx', hsize'.trans hsize, ?_⟩
  rw [stopTimer_frame]
  exact @Numbered.startTimer { rx₁.reassembleRxSdus with
      reorderingTimer := rx₁.reassembleRxSdus.stopTimer.reorderingTimer } U' _
    ⟨hnum'.vrUr, hnum'.vrUh, hnum'.le, hnum'.window⟩ hnear hmiss htop' hrunning

/-- One round of the loop of `timer_expired`, which moves `vr_ur` towards `X`. -/
theorem Numbered.expireStep (hC : Follows C H) (h : Numbered rx U H)
    (hnear : H ≤ U + rx.snSize.rxWindowSize) (hmiss : ¬ rx.Holds U) (htop : rx.Holds (H - 1))
    (hlt : U < X) (hle : X ≤ H) (hwaits : rx.Holds (X - 1))
    (hrx₁ : rx₁ = { rx with vrUr := (rx.vrUr + 1) % rx.snSize.mod }) (hc : C rx₁ (U + 1)) :
    ∃ U', U < U' ∧ U + 1 < X ∧ Settles rx₁ rx₁.reassembleRxSdus ∧
      Numbered rx₁.reassembleRxSdus U' H ∧ C rx₁.reassembleRxSdus U' ∧
      Progress rx rx₁.reassembleRxSdus U U' ∧ ¬ rx₁.reassembleRxSdus.Holds U' ∧
      H ≤ U' + rx₁.reassembleRxSdus.snSize.rxWindowSize := by
  have hmod := mod_eq rx.snSize
  have hpos := window_pos rx.snSize
  have hne : U + 1 < X := by
    rcases Nat.lt_or_eq_of_le hlt with hlt' | heq
    · exact hlt'
    · rw [← heq] at hwaits
      exact absurd hwaits hmiss
  have hsize : rx₁.snSize = rx.snSize := by rw [hrx₁]
  have hholds (m : ℕ) : rx₁.Holds m ↔ rx.Holds m := by rw [hrx₁]; rfl
  have hnum : Numbered rx₁ (U + 1) H := by
    refine h.advance (by omega) hsize (by rw [hrx₁]) (by rw [hrx₁]) fun p hp => ?_
    rw [hrx₁] at hp
    exact ⟨hp, fun hsn => hmiss ⟨p, hp, hsn.trans h.vrUr⟩⟩
  obtain ⟨U', hsettles, hnum', hc', hprogress, hmiss', hnear', -⟩ :=
    hnum.reassembleRxSdus hC hc (by omega) (by rw [hsize]; omega) ((hholds _).mpr htop)
  have hmove := hprogress.le
  refine ⟨U', by omega, hne, hsettles, hnum', hc', ⟨hprogress.snSize.trans hsize,
    hprogress.vrUx.trans (by rw [hrx₁]), hprogress.reorderingTimer.trans (by rw [hrx₁]),
    by omega, ?_, fun m hlo hhi hm => ?_⟩, hmiss', ?_⟩
  · exact List.Subset.trans hprogress.subset (hrx₁ ▸ List.Subset.refl _)
  · exact hprogress.holds m hlo (by rw [hsize]; omega) ((hholds m).mpr hm)
  · rw [hprogress.snSize]
    exact hnear'

theorem expireLoop_spec {P : RlcUmRx → ℕ → Prop}
    (hiff : ∀ rx U, P rx U → (rx.rxModBase rx.vrUr < rx.rxModBase rx.vrUx ↔ U < X))
    (hstep : ∀ rx U, P rx U → U < X → ∀ rx₁ : RlcUmRx,
      rx₁ = { rx with vrUr := (rx.vrUr + 1) % rx.snSize.mod } →
      ∃ U', U < U' ∧ Settles rx₁ rx₁.reassembleRxSdus ∧ P rx₁.reassembleRxSdus U')
    (fuel : ℕ) (h : P rx U) (hfuel : X ≤ U + fuel) :
    ∃ U', X ≤ U' ∧ Expires rx (expireLoop fuel rx) ∧ P (expireLoop fuel rx) U' := by
  induction fuel generalizing rx U with
  | zero => exact ⟨U, hfuel, Ends.exit (mt (hiff rx U h).mp (by omega)), h⟩
  | succ fuel ih =>
    rw [RlcUmRx.expireLoop]
    by_cases hlt : U < X
    · rw [if_pos ((hiff rx U h).mpr hlt)]
      obtain ⟨U', hU', hsettles, hstep'⟩ := hstep rx U h hlt _ rfl
      obtain ⟨U'', hU'', hends, hloop⟩ := ih hstep' (by omega)
      exact ⟨U'', hU'', Ends.round ((hiff rx U h).mpr hlt) hsettles hends, hloop⟩
    · rw [if_neg (mt (hiff rx U h).mp hlt)]
      exact ⟨U, by omega, Ends.exit (mt (hiff rx U h).mp hlt), h⟩

theorem Numbered.base_lt_iff (h : Numbered rx U H) (hnear : H ≤ U + rx.snSize.rxWindowSize)
    (hux : rx.vrUx = X % rx.snSize.mod) (hle : X ≤ H) (hin : H ≤ X + rx.snSize.rxWindowSize) :
    rx.rxModBase rx.vrUr < rx.rxModBase rx.vrUx ↔ U < X := by
  have hpos := window_pos rx.snSize
  have hUH := h.le
  rw [h.vrUr, hux, rxModBase_near h.vrUh hnear (by omega), rxModBase_near h.vrUh hin (by omega)]
  omega

end RlcUmRx
end SrsLte
