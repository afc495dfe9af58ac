import SrsLte.RlcUmRxWindow

/-!
# What the UM receiver delivers

Every PDU, whatever was lost, duplicated or reordered before it, and every expiry of the reordering
timer keep the receive window settled as long as no PDU is displaced by the window size or more. So
the delivered SDUs are a sublist of those the transmitter was given.
-/

namespace SrsLte

open UmdPdu (ofFragment)

open Segmentation

namespace RlcUmRx

variable {fs : List (Fragment UInt8)} {rx rx' : RlcUmRx} {n J U H X : ℕ} {f : Fragment UInt8}

theorem Partial.checked (h : Partial fs rx J) (hcore : Core fs rx U H) (hJ : J ≤ U)
    (hJ' : U + 1 < J + rx.snSize.mod) :
    rx.checked.rxSdu = [] ∨ rx.checked.rxSdu = carry (fs.take U) := by
  unfold RlcUmRx.checked
  by_cases hbelongs : rx.pduBelongsToRxSdu = true
  · rw [if_neg (not_not.mpr hbelongs)]
    rcases h with hnil | ⟨hcarry, hin⟩
    · exact Or.inl hnil
    · have hJU : J = U := by
        rcases of_decide_eq_true hbelongs with hnext | hsame
        · exact (eq_of_residues hJ (by omega) (hcore.vrUr.symm.trans (hnext.symm.trans hin))).symm
        · have hsucc : (U + 1) % rx.snSize.mod = J % rx.snSize.mod := by
            rw [← hin, ← hsame, hcore.vrUr, Nat.mod_add_mod]
          have := eq_of_residues (by omega) hJ' hsucc
          omega
      rw [← hJU]
      exact Or.inr hcarry
  · rw [if_pos hbelongs]
    exact Or.inl rfl

theorem Core.afterPdu (h : Core fs rx U H) (hlt : U < H)
    (hf : fs[U]? = some f) {rx₁ : RlcUmRx} {units : List Bytes}
    (hre : Reassembles rx rx₁ units (f.rest (carry (fs.take U))))
    (hsub : units.Sublist (f.completed (carry (fs.take U)))) {rx₂ : RlcUmRx}
    (hrx₂ : rx₂ = { rx₁.erase rx₁.vrUr with
      vrUr := ((rx₁.erase rx₁.vrUr).vrUr + 1) % (rx₁.erase rx₁.vrUr).snSize.mod }) :
    Core fs rx₂ (U + 1) H ∧ Partial fs rx₂ (U + 1) := by
  have hframe := hre.frame
  have hwindow : rx₂.rxWindow = rx.rxWindow.filter fun p => p.header.sn ≠ rx.vrUr := by
    rw [hrx₂]
    change rx₁.rxWindow.filter _ = _
    rw [hframe.rxWindow, hframe.vrUr]
  have hsize : rx₂.snSize = rx.snSize := by rw [hrx₂]; exact hframe.snSize
  have hur : rx₂.vrUr = (rx.vrUr + 1) % rx.snSize.mod := by
    rw [hrx₂]
    change (rx₁.vrUr + 1) % rx₁.snSize.mod = _
    rw [hframe.vrUr, hframe.snSize]
  refine ⟨h.advance hlt _ hsize hur (by rw [hrx₂]; exact hframe.vrUh) ?_
    (by rw [hrx₂]; exact hre.delivered) ?_, ?_⟩
  · intro p hp
    rw [hwindow] at hp
    exact h.window_erase hp
  · rw [completed_take_succ hf]
    exact (List.Sublist.refl _).append hsub
  · unfold Partial
    rw [carry_take_succ hf, hsize]
    rcases hre.partialSdu with hnil | ⟨hrest, hin⟩
    · left
      rw [hrx₂]
      exact hnil
    · right
      rw [hrx₂]
      refine ⟨hrest, ?_⟩
      change (rx₁.vrUrInRxSdu + 1) % _ = _
      rw [hin, h.vrUr, Nat.mod_add_mod]

theorem Core.updatePdu (hs : Sendable fs) (h : Core fs rx U H) (hH : H ≤ U + rx.snSize.mod)
    (hJ : J ≤ U) (hJ' : U + 1 < J + rx.snSize.mod) (hpart : Partial fs rx J) {p : UmdPdu}
    (hfind : rx.find rx.vrUr = some p) :
    Core fs (rx.updatePdu p) (U + 1) H ∧ Partial fs (rx.updatePdu p) (U + 1) := by
  obtain ⟨f, hf, rfl, hlt⟩ := h.find_vrUr hH hfind
  obtain ⟨units, hre, hsub, -⟩ := updateBody_reassembles rx.snSize U
    (hs.bounded hf) (hpart.checked h hJ hJ') fun hstart => hs.chained.carry_take hf hstart
  have hre' : Reassembles rx (rx.checked.updateBody (ofFragment rx.snSize U f)) units
      (f.rest (carry (fs.take U))) := by
    refine ⟨(frame_checked rx).trans hre.frame, ?_, ?_⟩
    · rw [hre.delivered, delivered_checked]
    · rw [← (frame_checked rx).vrUr]
      exact hre.partialSdu
  exact h.afterPdu hlt hf hre' hsub (updatePdu_eq rx _)

theorem completed_take_mono (fs : List (Fragment UInt8)) (U : ℕ) :
    (completed (fs.take U) ++ []).Sublist (completed (fs.take (U + 1))) := by
  have hmono := completed_take_sublist (fs.take (U + 1)) U
  rwa [List.take_take, Nat.min_eq_left (Nat.le_succ U), ← List.append_nil (completed _)] at hmono

/-- No PDU of the window has the number of a missing one. -/
theorem Core.window_missing (h : Core fs rx U H) (hmiss : ¬ rx.Holds U) {p : UmdPdu}
    (hp : p ∈ rx.rxWindow) :
    ∃ m f, U + 1 ≤ m ∧ m < H ∧ fs[m]? = some f ∧ p = ofFragment rx.snSize m f := by
  obtain ⟨m, f, hm, hmH, hf, rfl⟩ := h.window p hp
  refine ⟨m, f, ?_, hmH, hf, rfl⟩
  rcases Nat.lt_or_eq_of_le hm with hlt | rfl
  · exact hlt
  · exact absurd ⟨_, hp, rfl⟩ hmiss

theorem Core.lowerEdgeStep (hs : Sendable fs) (h : Core fs rx U H) (hH : H ≤ U + rx.snSize.mod)
    (hlt : U < H) (hpart : Partial fs rx U) :
    Core fs rx.lowerEdgeStep (U + 1) H ∧ Partial fs rx.lowerEdgeStep (U + 1) := by
  cases hfind : rx.find rx.vrUr with
  | none =>
    have hmiss : ¬ rx.Holds U := find_eq_none_iff.mp (h.vrUr ▸ hfind)
    rw [lowerEdgeStep_of_none hfind]
    exact ⟨h.advance hlt [] rfl rfl rfl (fun p hp => h.window_missing hmiss hp)
      (by simp [clearSdu]) (completed_take_mono fs U), Or.inl rfl⟩
  | some p =>
    obtain ⟨f, hf, rfl, -⟩ := h.find_vrUr hH hfind
    obtain ⟨units, hre, hsub⟩ := lowerEdgeBody_reassembles rx.snSize U
      (hpart.imp id And.left) fun hstart => hs.chained.carry_take hf hstart
    exact h.afterPdu hlt hf hre hsub (lowerEdgeStep_of_some hfind)

/-- What reassembly keeps: the partial SDU is that of the lower edge, unless nothing happened. -/
theorem follows_core (hs : Sendable fs) (hJ : J ≤ U) (hJ' : U + 1 < J + rx.snSize.mod)
    (hpart : Partial fs rx J) (hedge : J = U ∨ H ≤ U + rx.snSize.rxWindowSize) :
    Follows (fun rx' U' => Core fs rx' U' H ∧ (rx' = rx ∧ U' = U ∨ Partial fs rx' U')) H where
  lowerEdgeStep := by
    rintro rx' U' hnum hbelow hH ⟨hcore, hlast⟩
    have hpart' : Partial fs rx' U' := by
      rcases hlast with ⟨rfl, rfl⟩ | hpart'
      · rcases hedge with rfl | hnear
        · exact hpart
        · omega
      · exact hpart'
    obtain ⟨hcore', hpart''⟩ := hcore.lowerEdgeStep hs hH (by omega) hpart'
    exact ⟨hcore', Or.inr hpart''⟩
  updatePdu := by
    rintro rx' U' p hnum hH hfind ⟨hcore, hlast⟩
    have hmod := mod_eq rx'.snSize
    have hpos := window_pos rx'.snSize
    rcases hlast with ⟨rfl, rfl⟩ | hpart'
    · obtain ⟨hcore', hpart''⟩ := hcore.updatePdu hs hH hJ hJ' hpart hfind
      exact ⟨hcore', Or.inr hpart''⟩
    · obtain ⟨hcore', hpart''⟩ := hcore.updatePdu hs hH le_rfl (by omega) hpart' hfind
      exact ⟨hcore', Or.inr hpart''⟩

variable (fs) in
/-- The receiver between two events: everything up to the first missing PDU is reassembled, and a
running timer waits for a PDU below one that is there. -/
structure Settled (rx : RlcUmRx) (U H : ℕ) : Prop extends Core fs rx U H where
  partialSdu : Partial fs rx U
  near : H ≤ U + rx.snSize.rxWindowSize
  missing : ¬ rx.Holds U
  top : U < H → rx.Holds (H - 1)
  timer : rx.reorderingTimer = true →
    ∃ X, rx.vrUx = X % rx.snSize.mod ∧ U < X ∧ X ≤ H ∧ rx.Holds (X - 1)

theorem settled_configure (snSize : UmdSnSize) (fs : List (Fragment UInt8)) :
    Settled fs (configure snSize) 0 0 where
  vrUr := (Nat.zero_mod _).symm
  vrUh := (Nat.zero_mod _).symm
  le := le_rfl
  window := List.forall_mem_nil _
  delivered := List.nil_sublist _
  partialSdu := Or.inl rfl
  near := Nat.zero_le _
  missing := fun ⟨_, h, _⟩ => absurd h List.not_mem_nil
  top := fun h => absurd h (Nat.lt_irrefl 0)
  timer := fun h => absurd h (by simp [configure])

theorem Core.withTimer (h : Core fs rx U H) (reorderingTimer : Bool) (vrUx : ℕ) :
    Core fs { rx with reorderingTimer, vrUx } U H :=
  ⟨h.vrUr, h.vrUh, h.le, h.window, h.delivered⟩

theorem Core.startTimer (h : Core fs rx U H) (hpart : Partial fs rx U)
    (hwaits : Waits rx.startTimer U H) : Settled fs rx.startTimer U H := by
  have hcore : Core fs rx.startTimer U H := by
    rw [startTimer_frame]
    exact h.withTimer _ _
  have hpart' : Partial fs rx.startTimer U := by
    rw [startTimer_frame]
    exact hpart
  exact ⟨hcore, hpart', hwaits.near, hwaits.missing, hwaits.top, hwaits.timer⟩

theorem startTimer_snSize (rx : RlcUmRx) : rx.startTimer.snSize = rx.snSize := by
  unfold RlcUmRx.startTimer
  split_ifs <;> rfl

theorem Settled.lt_of_discards (h : Settled fs rx U H)
    (hhi : n < H + rx.snSize.rxWindowSize) (hd : n < U ∨ rx.Holds n) : n < H := by
  have hle := h.le
  have hnear := h.near
  have hmod := mod_eq rx.snSize
  rcases hd with hlt | hholds
  · omega
  · by_contra hge
    have := h.toCore.numbered.holds_lt (by omega) (by omega) (by omega) hholds
    omega

theorem Settled.store (h : Settled fs rx U H) (hlo : H ≤ n + rx.snSize.rxWindowSize)
    (hhi : n < H + rx.snSize.rxWindowSize) (hU : U ≤ n) (hf : fs[n]? = some f) :
    Core fs (rx.store (ofFragment rx.snSize n f)) U (max H (n + 1)) ∧
      Partial fs (rx.store (ofFragment rx.snSize n f)) U ∧
      (rx.store (ofFragment rx.snSize n f)).snSize = rx.snSize ∧
      (rx.store (ofFragment rx.snSize n f)).vrUx = rx.vrUx ∧
      (rx.store (ofFragment rx.snSize n f)).reorderingTimer = rx.reorderingTimer ∧
      (rx.store (ofFragment rx.snSize n f)).rxWindow =
        ofFragment rx.snSize n f :: rx.rxWindow := by
  obtain ⟨hnum, hstore⟩ := @Numbered.store _ _ _ _ h.toCore.numbered (ofFragment rx.snSize n f) rfl
    hlo hhi hU
  have hwindow : ∀ p ∈ ofFragment rx.snSize n f :: rx.rxWindow, ∃ m g, U ≤ m ∧
      m < max H (n + 1) ∧ fs[m]? = some g ∧ p = ofFragment rx.snSize m g := by
    intro p hp
    rcases List.mem_cons.mp hp with rfl | hp
    · exact ⟨n, f, hU, by omega, hf, rfl⟩
    · obtain ⟨m, g, hm, hmH, hg, hpg⟩ := h.window p hp
      exact ⟨m, g, hm, by omega, hg, hpg⟩
  rw [hstore] at hnum ⊢
  exact ⟨⟨hnum.vrUr, hnum.vrUh, hnum.le, hwindow, h.delivered⟩, h.partialSdu, rfl, rfl, rfl, rfl⟩

theorem Settled.afterStore (hs : Sendable fs) (h : Settled fs rx U H)
    (hhi : n < H + rx.snSize.rxWindowSize) (hU : U ≤ n) {rx₁ : RlcUmRx}
    (hcore : Core fs rx₁ U (max H (n + 1))) (hpart : Partial fs rx₁ U)
    (hsize : rx₁.snSize = rx.snSize) (hux : rx₁.vrUx = rx.vrUx)
    (htimer : rx₁.reorderingTimer = rx.reorderingTimer)
    (hwindow : rx₁.rxWindow = ofFragment rx.snSize n f :: rx.rxWindow) :
    ∃ U', Settled fs rx₁.reassembleRxSdus.stopTimer.startTimer U' (max H (n + 1)) ∧
      rx₁.reassembleRxSdus.stopTimer.startTimer.snSize = rx.snSize := by
  have hmod := mod_eq rx.snSize
  have hpos := window_pos rx.snSize
  obtain ⟨U', -, ⟨hcore', hlast⟩, hsize', hwaits⟩ := h.toCore.numbered.afterStore
    (follows_core hs le_rfl (by rw [hsize]; omega) hpart (Or.inl rfl)) h.near h.top
    (fun hrun => (h.timer hrun).imp fun X hX => ⟨hX.1, Or.inl hX.2⟩) hhi hU ⟨hsize, _, rfl, hwindow⟩
    hux htimer hcore.numbered ⟨hcore, Or.inr hpart⟩
  have hpart' : Partial fs rx₁.reassembleRxSdus U' := by
    rcases hlast with ⟨hsame, rfl⟩ | hpart'
    · rw [hsame]
      exact hpart
    · exact hpart'
  refine ⟨U', ?_, ?_⟩
  · rw [stopTimer_frame] at hwaits ⊢
    exact (hcore'.withTimer _ _).startTimer hpart' hwaits
  · rw [startTimer_snSize, stopTimer_frame]
    exact hsize'

theorem Settled.handleDataPdu (hs : Sendable fs) (h : Settled fs rx U H)
    (hlo : H ≤ n + rx.snSize.rxWindowSize) (hhi : n < H + rx.snSize.rxWindowSize)
    (hf : fs[n]? = some f) (hfit : UmdPdu.IndicatorsFit f) :
    ∃ U', Settled fs (rx.handleDataPdu (UmdPdu.encode rx.snSize n f)) U' (max H (n + 1)) ∧
      (rx.handleDataPdu (UmdPdu.encode rx.snSize n f)).snSize = rx.snSize := by
  unfold RlcUmRx.handleDataPdu
  rw [UmdPdu.read_encode rx.snSize n hfit]
  dsimp only
  rw [UmdPdu.drop_encode, show (ofFragment rx.snSize n f).header.sn =
    n % rx.snSize.mod from rfl]
  have hdiscards := h.toCore.numbered.discards_iff h.near hlo hhi
  by_cases hd : rx.discards (n % rx.snSize.mod) = true
  · rw [if_pos hd, Nat.max_eq_left (h.lt_of_discards hhi (hdiscards.mp hd))]
    exact ⟨U, h, rfl⟩
  · rw [if_neg hd]
    have hkeep := mt hdiscards.mpr hd
    rw [not_or, Nat.not_lt] at hkeep
    obtain ⟨hU, hnew⟩ := hkeep
    obtain ⟨hcore, hpart, hsize, hux, htimer, hwindow⟩ := h.store hlo hhi hU hf
    obtain ⟨U', hsettled, hsize'⟩ := h.afterStore hs hhi hU hcore hpart hsize hux htimer hwindow
    exact ⟨U', hsettled, hsize'⟩

/-- The receiver inside `timer_expired`, which moves `vr_ur` up to `X`. The partial SDU may be that
of a PDU `J` below `U`: it is dropped when the next PDU is reassembled. -/
structure Expiring (fs : List (Fragment UInt8)) (rx : RlcUmRx) (U H X : ℕ) : Prop
    extends Core fs rx U H where
  near : H ≤ U + rx.snSize.rxWindowSize
  missing : ¬ rx.Holds U
  top : U < H → rx.Holds (H - 1)
  vrUx : rx.vrUx = X % rx.snSize.mod
  le_top : X ≤ H
  close : X ≤ U + rx.snSize.rxWindowSize
  inWindow : H ≤ X + rx.snSize.rxWindowSize
  waits : U < X → rx.Holds (X - 1)
  partialSdu : ∃ J, J ≤ U ∧ H ≤ J + rx.snSize.rxWindowSize ∧ Partial fs rx J ∧ (U < X ∨ J = U)
  stopped : rx.reorderingTimer = false

theorem Expiring.step (hs : Sendable fs) (h : Expiring fs rx U H X) (hlt : U < X)
    {rx₁ : RlcUmRx} (hrx₁ : rx₁ = { rx with vrUr := (rx.vrUr + 1) % rx.snSize.mod }) :
    ∃ U', U < U' ∧ Settles rx₁ rx₁.reassembleRxSdus ∧
      Expiring fs rx₁.reassembleRxSdus U' H X ∧ rx₁.reassembleRxSdus.snSize = rx.snSize := by
  have hmod := mod_eq rx.snSize
  have hpos := window_pos rx.snSize
  have hnear := h.near
  have hle := h.le_top
  have hclose := h.close
  have hwindow := h.inWindow
  have hsize : rx₁.snSize = rx.snSize := by rw [hrx₁]
  obtain ⟨J, hJ, hJH, hpart, -⟩ := h.partialSdu
  have hpart₁ : Partial fs rx₁ J := by rw [hrx₁]; exact hpart
  have hcore : Core fs rx₁ (U + 1) H := by
    refine h.toCore.advance (by omega) [] hsize (by rw [hrx₁]) (by rw [hrx₁]) (fun p hp => ?_)
      (by rw [hrx₁]; simp) (completed_take_mono fs U)
    rw [hrx₁] at hp
    exact h.toCore.window_missing h.missing hp
  obtain ⟨U', hU', hne, hsettles, -, ⟨hcore', hlast⟩, hprogress, hmiss, hnear'⟩ :=
    h.toCore.numbered.expireStep (follows_core hs (show J ≤ U + 1 by omega)
      (by rw [hsize]; omega) hpart₁ (Or.inr (by rw [hsize]; omega))) hnear h.missing
      (h.top (by omega)) hlt hle (h.waits hlt) hrx₁ ⟨hcore, Or.inl ⟨rfl, rfl⟩⟩
  have hsize' := hprogress.snSize
  refine ⟨U', hU', hsettles, ⟨hcore', hnear', hmiss, fun htop => ?_, ?_, hle, by rw [hsize']; omega,
    by rw [hsize']; omega, fun hwait => ?_, ?_, ?_⟩, hsize'⟩
  · exact hprogress.holds _ (by omega) (by omega) (h.top (by omega))
  · rw [hprogress.vrUx, hsize']
    exact h.vrUx
  · exact hprogress.holds _ (by omega) (by omega) (h.waits hlt)
  · rcases hlast with ⟨hsame, rfl⟩ | hpart'
    · refine ⟨J, by omega, by rw [hsize']; exact hJH, ?_, Or.inl hne⟩
      rw [hsame]
      exact hpart₁
    · exact ⟨U', le_rfl, hnear', hpart', Or.inr rfl⟩
  · rw [hprogress.reorderingTimer]
    exact h.stopped

theorem Expiring.loop (hs : Sendable fs) (fuel : ℕ) (h : Expiring fs rx U H X)
    (hfuel : X ≤ U + fuel) :
    ∃ U', X ≤ U' ∧ Expiring fs (expireLoop fuel rx) U' H X ∧
      (expireLoop fuel rx).snSize = rx.snSize := by
  obtain ⟨U', hU', -, hexp, hsize⟩ := expireLoop_spec
    (P := fun rx' U' => Expiring fs rx' U' H X ∧ rx'.snSize = rx.snSize)
    (fun rx' U' h => h.1.toCore.numbered.base_lt_iff h.1.near h.1.vrUx h.1.le_top h.1.inWindow)
    (fun rx' U' h hlt rx₁ hrx₁ => by
      obtain ⟨U'', hU'', hsettles, hexp, hsize⟩ := h.1.step hs hlt hrx₁
      exact ⟨U'', hU'', hsettles, hexp, hsize.trans h.2⟩) fuel ⟨h, rfl⟩ hfuel
  exact ⟨U', hU', hexp, hsize⟩

theorem Settled.timerExpired (hs : Sendable fs) (h : Settled fs rx U H)
    (hrun : rx.reorderingTimer = true) :
    ∃ U', Settled fs rx.timerExpired U' H ∧ rx.timerExpired.snSize = rx.snSize := by
  obtain ⟨X, hX, hUX, hXH, hholds⟩ := h.timer hrun
  have hnear := h.near
  have hmod := mod_eq rx.snSize
  have hle := h.le
  obtain ⟨rx₁, hrx₁⟩ : ∃ rx₁ : RlcUmRx, rx₁ =
    { rx.clearSdu with pduLost := true, reorderingTimer := false } := ⟨_, rfl⟩
  have hsize : rx₁.snSize = rx.snSize := by rw [hrx₁]; rfl
  have hexp : Expiring fs rx₁ U H X := by
    rw [hrx₁]
    exact ⟨⟨h.vrUr, h.vrUh, h.le, h.window, h.delivered⟩, h.near, h.missing, h.top, hX, hXH,
      hXH.trans h.near, hnear.trans (Nat.add_le_add_right (Nat.le_of_lt hUX) _), fun _ => hholds,
      ⟨U, le_rfl, h.near, Or.inl rfl, Or.inr rfl⟩, rfl⟩
  obtain ⟨U', hU', hexp', hsize'⟩ := hexp.loop hs rx₁.snSize.mod (by rw [hsize]; omega)
  obtain ⟨J, -, -, hpart, hJ⟩ := hexp'.partialSdu
  have hJU : J = U' := hJ.resolve_left (Nat.not_lt.mpr hU')
  have htimer : rx.timerExpired = (expireLoop rx₁.snSize.mod rx₁).startTimer := by
    rw [hrx₁]
    rfl
  rw [htimer]
  refine ⟨U', hexp'.toCore.startTimer (hJU ▸ hpart) ?_, ?_⟩
  · exact hexp'.toCore.numbered.startTimer hexp'.near hexp'.missing hexp'.top
      fun hrun' => absurd hrun' (by simp [hexp'.stopped])
  · rw [startTimer_snSize, hsize', hsize]

/-- What happens at the receiver: PDU number `n` arrives, or the timer expires. -/
inductive Event
  | pdu (n : ℕ)
  | expiry
  deriving DecidableEq

/-- An event, given the PDUs of the transmitter. A timer that is not running does not expire. -/
def handle (pdus : List Bytes) (rx : RlcUmRx) : Event → RlcUmRx
  | .pdu n => rx.handleDataPdu (pdus.getD n [])
  | .expiry => if rx.reorderingTimer then rx.timerExpired else rx

/-- PDUs that were sent arrive, each displaced by less than `window` from those before it; `H` is
one more than the highest number so far. -/
def Displaced (window sent : ℕ) : ℕ → List Event → Prop
  | _, [] => True
  | H, .expiry :: events => Displaced window sent H events
  | H, .pdu n :: events => n < sent ∧ H ≤ n + window ∧ n < H + window ∧
      Displaced window sent (max H (n + 1)) events

instance (window sent : ℕ) : (H : ℕ) → (events : List Event) →
    Decidable (Displaced window sent H events)
  | _, [] => inferInstanceAs (Decidable True)
  | H, .expiry :: events => instDecidableDisplaced window sent H events
  | H, .pdu n :: events =>
    have := instDecidableDisplaced window sent (max H (n + 1)) events
    inferInstanceAs (Decidable (_ ∧ _ ∧ _ ∧ _))

theorem Settled.run (hs : Sendable fs) (hfit : ∀ f ∈ fs, UmdPdu.IndicatorsFit f)
    {pdus : List Bytes} (hpdus : ∀ n f, fs[n]? = some f →
      pdus.getD n [] = UmdPdu.encode rx.snSize n f) {events : List Event}
    (hevents : Displaced rx.snSize.rxWindowSize fs.length H events) (h : Settled fs rx U H) :
    ∃ U' H', Settled fs (events.foldl (handle pdus) rx) U' H' := by
  induction events generalizing rx U H with
  | nil => exact ⟨U, H, h⟩
  | cons event events ih =>
    rw [List.foldl_cons]
    cases event with
    | pdu n =>
      obtain ⟨hn, hlo, hhi, hrest⟩ := hevents
      have hf : fs[n]? = some fs[n] := List.getElem?_eq_getElem hn
      obtain ⟨U', hsettled, hsize⟩ :=
        h.handleDataPdu hs hlo hhi hf (hfit _ (List.getElem_mem hn))
      have hstep : handle pdus rx (.pdu n) =
          rx.handleDataPdu (UmdPdu.encode rx.snSize n fs[n]) := by
        change rx.handleDataPdu (pdus.getD n []) = _
        rw [hpdus n _ hf]
      rw [hstep]
      exact ih (by rwa [hsize]) (by rwa [hsize]) hsettled
    | expiry =>
      unfold handle
      by_cases hrun : rx.reorderingTimer = true
      · obtain ⟨U', hsettled, hsize⟩ := h.timerExpired hs hrun
        rw [if_pos hrun]
        exact ih (by rwa [hsize]) (by rw [hsize]; exact hevents) hsettled
      · rw [if_neg hrun]
        exact ih hpdus hevents h

end RlcUmRx
end SrsLte
