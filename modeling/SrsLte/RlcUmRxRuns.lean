import SrsLte.EventRun
import SrsLte.RlcUmRxWindow

/-!
# The UM receiver over whole runs

Between two inputs the receiver has reassembled everything up to the first missing PDU, and a
running timer waits for a PDU below one that is there. Only `reestablish` breaks this: it lets the
timer expire, which may start it again, and then resets the state variables under the running timer.
-/

namespace SrsLte

theorem UmdPduHeader.sn_read_lt (snSize : UmdSnSize) (payload : Bytes) :
    (UmdPduHeader.read snSize payload).sn < snSize.mod := by
  cases snSize with
  | size5bits =>
    change (payload.getD 0 0).toNat &&& 0x1F < 32
    have := @Nat.and_le_right (payload.getD 0 0).toNat 0x1F
    omega
  | size10bits =>
    change ((payload.getD 0 0).toNat &&& 0x03) <<< 8 |||
      ((payload.getD 1 0).toNat &&& 0xFF) < 2 ^ 10
    have hhigh := @Nat.and_le_right (payload.getD 0 0).toNat 0x03
    have hlow := @Nat.and_le_right (payload.getD 1 0).toNat 0xFF
    apply Nat.or_lt_two_pow
    · rw [Nat.shiftLeft_eq]
      omega
    · omega

namespace RlcUmRx

open WhileLoop

variable {rx rx' : RlcUmRx} {n U H X : ℕ}

/-- What happens to a receiver. With `t_reordering = 0` no callback is set, and the timer lapses. -/
inductive Input
  | pdu (payload : Bytes)
  | expiry
  | lapse
  | reestablish
  | stop

def next (rx : RlcUmRx) : Input → RlcUmRx
  | .pdu payload => rx.handleDataPdu payload
  | .expiry => if rx.reorderingTimer then rx.timerExpired else rx
  | .lapse => { rx with reorderingTimer := false }
  | .reestablish => rx.reestablish
  | .stop => rx.stop

/-- `timer_expired` as it is called, with the loops it runs. -/
def TimesOut (rx rx' : RlcUmRx) : Prop :=
  ∃ rx₁, Expires { rx.clearSdu with pduLost := true, reorderingTimer := false } rx₁ ∧
    rx' = rx₁.startTimer

/-- All loops that an input starts end, and leave the receiver `rx'`. -/
def Handles (rx : RlcUmRx) : Input → RlcUmRx → Prop
  | .pdu payload, rx' =>
    let header := UmdPduHeader.read rx.snSize payload
    let headerLen := UmdPduHeader.packedLength rx.snSize header.li.length
    if rx.discards header.sn then rx' = rx
    else ∃ rx₁, Settles (rx.store ⟨header, payload.drop headerLen⟩) rx₁ ∧
      rx' = rx₁.stopTimer.startTimer
  | .expiry, rx' => if rx.reorderingTimer then TimesOut rx rx' else rx' = rx
  | .lapse, rx' => rx' = { rx with reorderingTimer := false }
  | .reestablish, rx' =>
    if rx.reorderingTimer then ∃ rx₁, TimesOut rx rx₁ ∧ rx' = rx₁.reset else rx' = rx.reset
  | .stop, rx' => rx' = rx.stop

structure Between (rx : RlcUmRx) (U H : ℕ) : Prop extends Numbered rx U H where
  room : rx.snSize.rxWindowSize ≤ H
  near : H ≤ U + rx.snSize.rxWindowSize
  missing : ¬ rx.Holds U
  top : U < H → rx.Holds (H - 1)
  timer : rx.reorderingTimer = true → ∃ X, rx.TimerAt U H X

theorem between_of_zero (hwindow : rx.rxWindow = []) (hur : rx.vrUr = 0) (hux : rx.vrUx = 0)
    (huh : rx.vrUh = 0) : Between rx rx.snSize.mod rx.snSize.mod := by
  have hmod := mod_eq rx.snSize
  refine ⟨⟨by rw [hur, Nat.mod_self], by rw [huh, Nat.mod_self], le_rfl, fun p hp => ?_⟩,
    by omega, by omega, ?_, fun h => absurd h (Nat.lt_irrefl _), fun _ => ?_⟩
  · rw [hwindow] at hp
    cases hp
  · rintro ⟨p, hp, -⟩
    rw [hwindow] at hp
    cases hp
  · exact ⟨rx.snSize.mod, by rw [hux, Nat.mod_self], Or.inr ⟨rfl, rfl⟩⟩

theorem Waits.between (h : Waits rx U H) (hroom : rx.snSize.rxWindowSize ≤ H) : Between rx U H :=
  ⟨h.toNumbered, hroom, h.near, h.missing, h.top, fun hrun =>
    (h.timer hrun).imp fun _ hX => ⟨hX.1, Or.inl hX.2⟩⟩

theorem exists_number (s : UmdSnSize) (hH : s.rxWindowSize ≤ H) {sn : ℕ} (hsn : sn < s.mod) :
    ∃ n, H ≤ n + s.rxWindowSize ∧ n < H + s.rxWindowSize ∧ sn = n % s.mod := by
  obtain ⟨lo, rfl⟩ := Nat.exists_eq_add_of_le' hH
  refine ⟨lo + (sn + (s.mod - lo % s.mod)) % s.mod, by omega, ?_, ?_⟩
  · have hlt := Nat.mod_lt (sn + (s.mod - lo % s.mod)) (mod_pos s)
    have hmod := mod_eq s
    omega
  · cases s <;> simp only [UmdSnSize.mod] at hsn ⊢ <;> omega

theorem Between.handleDataPdu (h : Between rx U H) (payload : Bytes) :
    Handles rx (.pdu payload) (rx.handleDataPdu payload) ∧
      (∃ U' H', Between (rx.handleDataPdu payload) U' H') ∧
      (rx.discards (UmdPduHeader.read rx.snSize payload).sn = true →
        rx.handleDataPdu payload = rx) ∧
      (rx.discards (UmdPduHeader.read rx.snSize payload).sn = false →
        (rx.handleDataPdu payload).reorderingTimer = true →
          (rx.handleDataPdu payload).vrUr ≠ (rx.handleDataPdu payload).vrUh) := by
  obtain ⟨n, hlo, hhi, hn⟩ := exists_number rx.snSize h.room (UmdPduHeader.sn_read_lt _ payload)
  unfold Handles RlcUmRx.handleDataPdu
  dsimp only
  have hdiscards := h.discards_iff h.near hlo hhi
  rw [← hn] at hdiscards
  by_cases hd : rx.discards (UmdPduHeader.read rx.snSize payload).sn = true
  · simp only [hd, if_true, true_and]
    exact ⟨⟨U, H, h⟩, fun _ => trivial, fun hf => by cases hf⟩
  · have hkeep := mt hdiscards.mpr hd
    rw [not_or, Nat.not_lt] at hkeep
    rw [Bool.not_eq_true] at hd
    simp only [hd, Bool.false_eq_true, if_false, false_implies, true_and, forall_const]
    obtain ⟨hnum, hstore⟩ := @Numbered.store _ n _ _ h.toNumbered
      ⟨UmdPduHeader.read rx.snSize payload, _⟩ hn hlo hhi hkeep.1
    have hroom := h.room
    obtain ⟨U', hsettles, -, hsize, hwaits⟩ := h.toNumbered.afterStore (follows_true _) h.near h.top
      h.timer hhi hkeep.1 (by rw [hstore]; exact ⟨rfl, _, hn, rfl⟩) (by rw [hstore])
      (by rw [hstore]) hnum trivial
    refine ⟨⟨_, hsettles, rfl⟩, ⟨U', _, hwaits.between ?_⟩, hwaits.vrUr_ne⟩
    rw [startTimer_frame, stopTimer_frame]
    show (RlcUmRx.reassembleRxSdus _).snSize.rxWindowSize ≤ _
    rw [hsize]
    omega

/-- The receiver inside `timer_expired`, which moves `vr_ur` up to `X`. -/
structure GivingUp (rx : RlcUmRx) (U H X : ℕ) : Prop extends Numbered rx U H where
  room : rx.snSize.rxWindowSize ≤ H
  near : H ≤ U + rx.snSize.rxWindowSize
  missing : ¬ rx.Holds U
  top : U < H → rx.Holds (H - 1)
  vrUx : rx.vrUx = X % rx.snSize.mod
  le_top : X ≤ H
  inWindow : H ≤ X + rx.snSize.rxWindowSize
  waits : U < X → rx.Holds (X - 1)
  stopped : rx.reorderingTimer = false

theorem GivingUp.step (h : GivingUp rx U H X) (hlt : U < X) {rx₁ : RlcUmRx}
    (hrx₁ : rx₁ = { rx with vrUr := (rx.vrUr + 1) % rx.snSize.mod }) :
    ∃ U', U < U' ∧ Settles rx₁ rx₁.reassembleRxSdus ∧ GivingUp rx₁.reassembleRxSdus U' H X := by
  have hmod := mod_eq rx.snSize
  have hnear := h.near
  have hle := h.le_top
  obtain ⟨U', hU', -, hsettles, hnum, -, hprogress, hmiss, hnear'⟩ :=
    h.toNumbered.expireStep (follows_true H) hnear h.missing (h.top (by omega)) hlt hle
      (h.waits hlt) hrx₁ trivial
  have hsize := hprogress.snSize
  refine ⟨U', hU', hsettles, hnum, by rw [hsize]; exact h.room, hnear', hmiss, fun _ => ?_, ?_, hle,
    by rw [hsize]; exact h.inWindow, fun _ => ?_, ?_⟩
  · exact hprogress.holds _ (by omega) (by omega) (h.top (by omega))
  · rw [hprogress.vrUx, hsize]
    exact h.vrUx
  · exact hprogress.holds _ (by omega) (by omega) (h.waits hlt)
  · rw [hprogress.reorderingTimer]
    exact h.stopped

theorem Between.timerExpired (h : Between rx U H) (hrun : rx.reorderingTimer = true) :
    TimesOut rx rx.timerExpired ∧ (∃ U', Between rx.timerExpired U' H) ∧
      (rx.timerExpired.reorderingTimer = true → rx.timerExpired.vrUr ≠ rx.timerExpired.vrUh) := by
  obtain ⟨X, hX, hat⟩ := h.timer hrun
  have hnear := h.near
  have hmod := mod_eq rx.snSize
  have hle := h.le
  have hbounds : U ≤ X ∧ X ≤ H ∧ (U < X → rx.Holds (X - 1)) := by
    rcases hat with ⟨hlt, hXH, hholds⟩ | ⟨rfl, rfl⟩
    · exact ⟨Nat.le_of_lt hlt, hXH, fun _ => hholds⟩
    · exact ⟨le_rfl, le_rfl, fun hlt => absurd hlt (Nat.lt_irrefl _)⟩
  obtain ⟨rx₁, hrx₁⟩ : ∃ rx₁ : RlcUmRx, rx₁ =
    { rx.clearSdu with pduLost := true, reorderingTimer := false } := ⟨_, rfl⟩
  have hgiving : GivingUp rx₁ U H X := by
    rw [hrx₁]
    exact ⟨⟨h.vrUr, h.vrUh, h.le, h.window⟩, h.room, h.near, h.missing, h.top, hX, hbounds.2.1,
      hnear.trans (Nat.add_le_add_right hbounds.1 _), hbounds.2.2, rfl⟩
  have hsize : rx₁.snSize = rx.snSize := by rw [hrx₁]; rfl
  obtain ⟨U', hU', hends, hloop⟩ := expireLoop_spec (P := fun rx' U' => GivingUp rx' U' H X)
    (fun _ _ h => h.toNumbered.base_lt_iff h.near h.vrUx h.le_top h.inWindow)
    (fun _ _ h hlt _ hrx₁ => h.step hlt hrx₁) rx₁.snSize.mod hgiving (by rw [hsize]; omega)
  have htimer : rx.timerExpired = (expireLoop rx₁.snSize.mod rx₁).startTimer := by
    rw [hrx₁]
    rfl
  have hwaits := hloop.toNumbered.startTimer hloop.near hloop.missing hloop.top
    fun hrun' => absurd hrun' (by simp [hloop.stopped])
  rw [htimer]
  refine ⟨⟨_, ?_, rfl⟩, ⟨U', hwaits.between ?_⟩, hwaits.vrUr_ne⟩
  · rw [← hrx₁]
    exact hends
  · rw [startTimer_frame]
    exact hloop.room

theorem between_reset (rx : RlcUmRx) : Between rx.reset rx.reset.snSize.mod rx.reset.snSize.mod :=
  between_of_zero rfl rfl rfl rfl

theorem between_configure (snSize : UmdSnSize) :
    ∃ U H, Between (configure snSize) U H :=
  ⟨_, _, between_of_zero rfl rfl rfl rfl⟩

theorem Between.next (h : Between rx U H) (input : Input) :
    Handles rx input (rx.next input) ∧ ∃ U' H', Between (rx.next input) U' H' := by
  cases input with
  | pdu payload =>
    obtain ⟨hhandles, hbetween, -⟩ := h.handleDataPdu payload
    exact ⟨hhandles, hbetween⟩
  | expiry =>
    unfold Handles RlcUmRx.next
    by_cases hrun : rx.reorderingTimer = true
    · obtain ⟨htimes, ⟨U', hbetween⟩, -⟩ := h.timerExpired hrun
      simp only [hrun, if_true]
      exact ⟨htimes, U', H, hbetween⟩
    · simp only [hrun]
      exact ⟨rfl, U, H, h⟩
  | lapse =>
    exact ⟨rfl, U, H, ⟨h.vrUr, h.vrUh, h.le, h.window⟩, h.room, h.near, h.missing, h.top,
      fun hrun => by cases hrun⟩
  | reestablish =>
    unfold Handles RlcUmRx.next RlcUmRx.reestablish
    by_cases hrun : rx.reorderingTimer = true
    · obtain ⟨htimes, -, -⟩ := h.timerExpired hrun
      simp only [hrun, if_true]
      exact ⟨⟨_, htimes, rfl⟩, _, _, between_reset _⟩
    · simp only [hrun]
      exact ⟨rfl, _, _, between_reset _⟩
  | stop => exact ⟨rfl, _, _, between_of_zero rfl rfl rfl rfl⟩

/-- How far `b` lies behind `a` in the space of sequence numbers. -/
def snDistance (rx : RlcUmRx) (a b : ℕ) : ℕ := (b + (rx.snSize.mod - a)) % rx.snSize.mod

/-- The order of the state variables and of the keys of `rx_window` in the reordering window. -/
structure WindowOrdered (rx : RlcUmRx) : Prop where
  snSpace : rx.vrUr < rx.snSize.mod ∧ rx.vrUh < rx.snSize.mod
  lowerEdge : rx.snDistance rx.vrUr rx.vrUh ≤ rx.snSize.rxWindowSize
  keys : ∀ p ∈ rx.rxWindow, p.header.sn < rx.snSize.mod ∧
    rx.snDistance rx.vrUr p.header.sn < rx.snDistance rx.vrUr rx.vrUh
  timer : rx.reorderingTimer = true → rx.vrUx < rx.snSize.mod ∧
    0 < rx.snDistance rx.vrUr rx.vrUx ∧
    rx.snDistance rx.vrUr rx.vrUx ≤ rx.snDistance rx.vrUr rx.vrUh

theorem snDistance_eq (hur : rx.vrUr = U % rx.snSize.mod) (hlo : U ≤ n)
    (hhi : n < U + rx.snSize.mod) : rx.snDistance rx.vrUr (n % rx.snSize.mod) = n - U := by
  unfold snDistance
  rw [hur]
  cases hs : rx.snSize <;> rw [hs] at hhi <;> simp only [UmdSnSize.mod] at hhi ⊢ <;> omega

theorem Between.windowOrdered_iff (h : Between rx U H) :
    rx.WindowOrdered ↔ ¬ (rx.reorderingTimer = true ∧ rx.vrUr = rx.vrUh) := by
  have hle := h.le
  have hnear := h.near
  have hmod := mod_eq rx.snSize
  have hpos := window_pos rx.snSize
  have huh : rx.snDistance rx.vrUr rx.vrUh = H - U := by
    rw [h.vrUh]
    exact snDistance_eq h.vrUr hle (by omega)
  have hlt (k : ℕ) : k % rx.snSize.mod < rx.snSize.mod := Nat.mod_lt k (mod_pos _)
  constructor
  · rintro hordered ⟨hrun, heq⟩
    obtain ⟨-, hux, huxle⟩ := hordered.timer hrun
    have hHU : H = U := eq_of_residues hle (by omega) (h.vrUh ▸ h.vrUr ▸ heq.symm)
    omega
  · intro hstale
    refine ⟨⟨h.vrUr ▸ hlt U, h.vrUh ▸ hlt H⟩, by omega, fun p hp => ?_, fun hrun => ?_⟩
    · obtain ⟨n, hlo, hhi, hsn⟩ := h.window p hp
      rw [hsn, huh, snDistance_eq h.vrUr hlo (by omega)]
      exact ⟨hlt n, by omega⟩
    · obtain ⟨X, hX, ⟨hUX, hXH, -⟩ | ⟨-, rfl⟩⟩ := h.timer hrun
      · rw [hX, huh, snDistance_eq h.vrUr (Nat.le_of_lt hUX) (by omega)]
        exact ⟨hlt X, by omega, by omega⟩
      · exact absurd ⟨hrun, h.vrUr.trans h.vrUh.symm⟩ hstale

def Sound (rx : RlcUmRx) (input : Input) : Prop :=
  Handles rx input (rx.next input) ∧
    match input with
    | .pdu _ | .expiry => (rx.next input).WindowOrdered
    | .lapse | .reestablish | .stop => True

/-- No PDU is discarded while the timer runs with `vr_ur = vr_uh`. -/
def Regular (rx : RlcUmRx) : Input → Prop
  | .pdu payload => ¬ ((rx.reorderingTimer = true ∧ rx.vrUr = rx.vrUh) ∧
      rx.discards (UmdPduHeader.read rx.snSize payload).sn = true)
  | .expiry | .lapse | .reestablish | .stop => True

theorem Between.sound_iff_regular (h : Between rx U H) (input : Input) :
    rx.Sound input ↔ rx.Regular input := by
  unfold Sound
  rw [and_iff_right (h.next input).1]
  cases input with
  | pdu payload =>
    obtain ⟨-, ⟨V, K, hbetween⟩, hsame, hfresh⟩ := h.handleDataPdu payload
    change (rx.handleDataPdu payload).WindowOrdered ↔ ¬ (_ ∧ _)
    rw [hbetween.windowOrdered_iff, not_iff_not]
    cases hd : rx.discards (UmdPduHeader.read rx.snSize payload).sn with
    | true =>
      rw [hsame hd]
      exact (and_iff_left rfl).symm
    | false =>
      refine ⟨fun hstale => absurd hstale.2 (hfresh hd hstale.1), fun hf => ?_⟩
      cases hf.2
  | expiry =>
    refine iff_of_true ?_ trivial
    change (if rx.reorderingTimer then rx.timerExpired else rx).WindowOrdered
    by_cases hrun : rx.reorderingTimer = true
    · obtain ⟨-, ⟨U', hbetween⟩, hne⟩ := h.timerExpired hrun
      rw [if_pos hrun, hbetween.windowOrdered_iff]
      exact fun hstale => hne hstale.1 hstale.2
    · rw [if_neg hrun, h.windowOrdered_iff]
      exact fun hstale => hrun hstale.1
  | lapse | reestablish | stop => exact Iff.rfl

theorem alongOrdered_iff_regular (snSize : UmdSnSize) (inputs : List Input) :
    EventRun.Along next Sound (configure snSize) inputs ↔
      EventRun.Along next Regular (configure snSize) inputs := by
  apply EventRun.along_congr (I := fun rx => ∃ U H, Between rx U H)
  · rintro rx input ⟨U, H, h⟩ -
    exact (h.next input).2
  · rintro rx input ⟨U, H, h⟩
    exact h.sound_iff_regular input
  · exact between_configure snSize

/-- SN 1 and 3 arrive, the bearer is re-established, and SN 16 is discarded by the fresh window. -/
theorem timer_runs_after_reestablish :
    ¬ ∀ (snSize : UmdSnSize) (inputs : List Input),
      EventRun.Along next Sound (configure snSize) inputs := by
  intro h
  obtain ⟨-, -, -, ⟨-, hordered⟩, -⟩ :=
    h .size5bits [.pdu [1, 0], .pdu [3, 0], .reestablish, .pdu [16, 0]]
  have hrun := hordered.timer (by decide)
  exact absurd hrun.2.1 (by decide)

end RlcUmRx
end SrsLte
