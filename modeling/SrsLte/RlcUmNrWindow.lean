import SrsLte.RlcUmNr

/-!
# The reassembly window of the NR UM receiver

With sequence numbers of 6 bits the state variables are residues of numbers that are counted without
wrap: `R` for `RX_Next_Reassembly`, `H` for `RX_Next_Highest`. The second one is not always reduced
in the receiver.
-/

namespace SrsLte
namespace RlcUmNrRx

variable {rx : RlcUmNrRx} {x a R H : ℕ}

/-- `H` and `R` are the numbers of the receiver's window. -/
structure Edges (rx : RlcUmNrRx) (R H : ℕ) : Prop where
  snSize : rx.snSize = .size6bits
  highest : rx.rxNextHighest % 64 = H % 64
  next : rx.rxNextReassembly % 64 = R % 64
  le : R ≤ H
  window : H ≤ R + 32

section

variable (hsize : rx.snSize = .size6bits)
include hsize

theorem rxModNrBase_val (x : ℕ) :
    rx.rxModNrBase x = (x + 96 - rx.rxNextHighest % 64) % 64 := by
  unfold rxModNrBase Word.sub32
  rw [hsize]
  simp only [UmNrSnSize.mod, UmNrSnSize.umWindowSize]
  omega

theorem rxModNrBase_eq (hhighest : rx.rxNextHighest % 64 = H % 64)
    (hx : x % 64 = a % 64) (hlo : H ≤ a + 32) (hhi : a < H + 32) :
    rx.rxModNrBase x = a + 32 - H := by
  rw [rxModNrBase_val hsize]
  omega

theorem rxModNrBase_below
    (hhighest : rx.rxNextHighest % 64 = H % 64) (hx : x % 64 = a % 64) (hlo : H ≤ a + 64)
    (hhi : a + 32 < H) : 32 ≤ rx.rxModNrBase x := by
  rw [rxModNrBase_val hsize]
  omega

theorem lowerEdge_eq : rx.lowerEdge = 0 := by
  rw [lowerEdge, rxModNrBase_val hsize]
  unfold Word.sub32
  rw [hsize]
  simp only [UmNrSnSize.umWindowSize]
  omega

theorem rxModNrBase_highest :
    rx.rxModNrBase rx.rxNextHighest = 32 := by
  rw [rxModNrBase_val hsize]
  omega

theorem snInReassemblyWindow_eq :
    rx.snInReassemblyWindow x = true ↔ rx.rxModNrBase x < 32 := by
  unfold snInReassemblyWindow
  rw [lowerEdge_eq hsize, rxModNrBase_highest hsize]
  simp

theorem snInReassemblyWindow_iff
    (hhighest : rx.rxNextHighest % 64 = H % 64) (hx : x % 64 = a % 64) (hlo : H ≤ a + 64)
    (hhi : a < H + 32) : rx.snInReassemblyWindow x = true ↔ H ≤ a + 32 ∧ a < H := by
  rw [snInReassemblyWindow_eq hsize]
  by_cases hnear : H ≤ a + 32
  · rw [rxModNrBase_eq hsize hhighest hx hnear hhi]
    omega
  · have hbelow := rxModNrBase_below hsize hhighest hx hlo (not_le.mp hnear)
    omega

end

theorem Edges.snInvalidForRxBuffer_iff (h : Edges rx R H) (hx : x % 64 = a % 64)
    (hlo : H ≤ a + 32) (hhi : a < H + 32) : rx.snInvalidForRxBuffer x = true ↔ a < R := by
  have hle := h.le
  have hwindow := h.window
  unfold snInvalidForRxBuffer
  rw [lowerEdge_eq h.snSize, rxModNrBase_eq h.snSize h.highest hx hlo hhi,
    rxModNrBase_eq h.snSize h.highest h.next hwindow (by omega), decide_eq_true_iff]
  omega

theorem advance_eq (fuel : ℕ) (rx : RlcUmNrRx) (hsize : rx.snSize = .size6bits)
    (hle : rx.rxModNrBase rx.rxNextReassembly ≤ 32)
    (hfuel : 32 ≤ rx.rxModNrBase rx.rxNextReassembly + fuel) :
    ∃ x, advance fuel rx = { rx with rxNextReassembly := x } ∧
      x % 64 = rx.rxNextHighest % 64 := by
  induction fuel generalizing rx with
  | zero =>
    refine ⟨rx.rxNextReassembly, rfl, ?_⟩
    rw [rxModNrBase_val hsize] at hle hfuel
    omega
  | succ fuel ih =>
    unfold advance
    rw [rxModNrBase_highest hsize]
    split_ifs with hlt
    · have hnext : rx.rxModNrBase ((rx.rxNextReassembly + 1) % 64) =
          rx.rxModNrBase rx.rxNextReassembly + 1 := by
        simp only [rxModNrBase_val hsize] at hlt ⊢
        omega
      have hmod : rx.snSize.mod = 64 := by rw [hsize]; rfl
      rw [hmod]
      have hstep : RlcUmNrRx.rxModNrBase
          { rx with rxNextReassembly := (rx.rxNextReassembly + 1) % 64 }
          ((rx.rxNextReassembly + 1) % 64) = rx.rxModNrBase rx.rxNextReassembly + 1 := hnext
      obtain ⟨x, hx, hmod⟩ := ih
        { rx with rxNextReassembly := (rx.rxNextReassembly + 1) % 64 } hsize
        (by dsimp only; omega) (by dsimp only; omega)
      exact ⟨x, hx, hmod⟩
    · refine ⟨rx.rxNextReassembly, rfl, ?_⟩
      rw [rxModNrBase_val hsize] at hle hlt
      omega

theorem Edges.deliver (h : Edges rx R H) {sn : ℕ} (hsn : sn % 64 = a % 64) (hR : R ≤ a)
    (hH : a < H) (sdu : Bytes) :
    ∃ R', Edges (rx.deliver sn sdu) R' H ∧ R ≤ R' ∧
      (rx.deliver sn sdu).rxNextHighest = rx.rxNextHighest ∧
      (rx.deliver sn sdu).rxWindow = rx.rxWindow.erase sn ∧
      (rx.deliver sn sdu).delivered = rx.delivered ++ [sdu] ∧
      (rx.deliver sn sdu).reassemblyTimer = rx.reassemblyTimer ∧
      (rx.deliver sn sdu).rxTimerTrigger = rx.rxTimerTrigger := by
  have hsize := h.snSize
  have hwindow := h.window
  have hnext := h.next
  unfold RlcUmNrRx.deliver
  dsimp only
  split_ifs with heq
  · have hmod : rx.snSize.mod = 64 := by rw [hsize]; rfl
    have hbase : rx.rxModNrBase ((rx.rxNextReassembly + 1) % 64) = R + 1 + 32 - H :=
      rxModNrBase_eq hsize h.highest (by omega) (by omega) (by omega)
    rw [hmod]
    have hstart : RlcUmNrRx.rxModNrBase
        { rx with
          delivered := rx.delivered ++ [sdu]
          rxNextReassembly := (rx.rxNextReassembly + 1) % 64 }
        ((rx.rxNextReassembly + 1) % 64) = R + 1 + 32 - H := hbase
    obtain ⟨x, hx, hxmod⟩ := advance_eq 64
      { rx with
        delivered := rx.delivered ++ [sdu]
        rxNextReassembly := (rx.rxNextReassembly + 1) % 64 } hsize
      (by dsimp only; omega) (by dsimp only; omega)
    rw [hx]
    exact ⟨H, ⟨hsize, h.highest, hxmod.trans h.highest, le_refl H, Nat.le_add_right H 32⟩, h.le,
      rfl, rfl, rfl, rfl, rfl⟩
  · exact ⟨R, ⟨hsize, h.highest, h.next, h.le, h.window⟩, le_refl R, rfl, rfl, rfl, rfl, rfl⟩

def TimerOk (rx : RlcUmNrRx) : Prop :=
  rx.reassemblyTimer = true → rx.rxModNrBase rx.rxTimerTrigger ≤ 32

theorem timerOk_runTimer (hsize : rx.snSize = .size6bits) : rx.runTimer.TimerOk := by
  intro _
  have hhighest := rxModNrBase_highest (show rx.runTimer.snSize = .size6bits from hsize)
  exact hhighest.le

theorem timerOk_stopTimer (hsize : rx.snSize = .size6bits) (sn : ℕ) :
    (rx.stopTimer sn).TimerOk := by
  intro hrunning
  unfold stopTimer at hrunning ⊢
  split_ifs at hrunning ⊢ with hstop
  by_cases hin : rx.snInReassemblyWindow rx.rxTimerTrigger = true
  · exact ((snInReassemblyWindow_eq hsize).mp hin).le
  · have hedge : rx.rxTimerTrigger = rx.rxNextHighest := by
      by_contra hne
      exact hstop ⟨hrunning, Or.inr (Or.inl ⟨hin, hne⟩)⟩
    rw [hedge, rxModNrBase_highest hsize]

theorem stopTimer_eq (rx : RlcUmNrRx) (sn : ℕ) :
    ∃ b, rx.stopTimer sn = { rx with reassemblyTimer := b } := by
  unfold stopTimer
  split_ifs
  · exact ⟨false, rfl⟩
  · exact ⟨rx.reassemblyTimer, rfl⟩

theorem startTimer_eq (rx : RlcUmNrRx) (sn : ℕ) :
    ∃ b t, rx.startTimer sn = { rx with reassemblyTimer := b, rxTimerTrigger := t } := by
  unfold startTimer
  split_ifs
  · exact ⟨true, rx.rxNextHighest, rfl⟩
  · exact ⟨rx.reassemblyTimer, rx.rxTimerTrigger, rfl⟩

theorem timerOk_startTimer (hsize : rx.snSize = .size6bits) (h : rx.TimerOk) (sn : ℕ) :
    (rx.startTimer sn).TimerOk := by
  unfold startTimer
  split_ifs
  · exact timerOk_runTimer hsize
  · exact h

theorem updateNextReassembly_eq (rx : RlcUmNrRx) :
    rx.updateNextReassembly = { rx with
      rxNextReassembly := rx.updateNextReassembly.rxNextReassembly } := by
  unfold updateNextReassembly
  split_ifs
  · rfl
  · split <;> rfl

theorem updateNextReassembly_key (hsize : rx.snSize = .size6bits)
    (hout : ¬ rx.snInReassemblyWindow rx.rxNextReassembly = true) {sn : ℕ}
    (hsn : rx.rxWindow.find? sn ≠ none) :
    rx.rxWindow.find? rx.updateNextReassembly.rxNextReassembly ≠ none := by
  obtain ⟨p, hp⟩ := Option.ne_none_iff_exists'.mp hsn
  unfold updateNextReassembly
  rw [if_neg hout, lowerEdge_eq hsize]
  cases hentries : rx.rxWindow.entries with
  | nil =>
    have hmem := OrderedMap.find?_eq_some_iff.mp hp
    rw [hentries] at hmem
    exact absurd hmem List.not_mem_nil
  | cons e es =>
    have hmem : (e.1, e.2) ∈ rx.rxWindow.entries := by rw [hentries]; exact List.mem_cons_self
    simp only [List.find?_cons, ge_iff_le, Nat.zero_le, decide_true]
    rw [OrderedMap.find?_eq_some_iff.mpr hmem]
    simp

theorem Edges.updateWindow (h : Edges rx R H) {sn : ℕ} (hsn : a % 64 = sn) (hlo : H ≤ a)
    (hhi : a < H + 32)
    (hkeys : ∀ k, rx.rxWindow.find? k ≠ none → ∃ b, b % 64 = k ∧ H ≤ b + 32 ∧ b < a + 1)
    (hthere : rx.rxWindow.find? sn ≠ none) :
    ∃ R', Edges (rx.updateWindow sn) R' (a + 1) ∧ R ≤ R' ∧ (rx.updateWindow sn).TimerOk ∧
      (rx.updateWindow sn).delivered = rx.delivered ∧
      (∀ b, a + 1 ≤ b + 32 → b < a + 1 →
        (rx.updateWindow sn).rxWindow.find? (b % 64) = rx.rxWindow.find? (b % 64)) ∧
      (∀ k, (rx.updateWindow sn).rxWindow.find? k ≠ none →
        ∃ b, b % 64 = k ∧ a + 1 ≤ b + 32 ∧ b < a + 1) := by
  have hsize := h.snSize
  have hle := h.le
  have hwindow := h.window
  have hnext := h.next
  have hout : ¬ rx.snInReassemblyWindow sn = true := by
    rw [snInReassemblyWindow_iff hsize h.highest (x := sn) (a := a) (by omega) (by omega) hhi]
    omega
  -- after "drop all SNs outside of new rx window"
  obtain ⟨rx₁, hrx₁⟩ : ∃ rx₁, rx₁ = rx.moveWindow sn := ⟨_, rfl⟩
  have hsize₁ : rx₁.snSize = .size6bits := by rw [hrx₁]; exact hsize
  have hhighest₁ : rx₁.rxNextHighest % 64 = (a + 1) % 64 := by
    rw [hrx₁]
    change (sn + 1) % 64 = _
    omega
  have hin₁ : ∀ {x b : ℕ}, x % 64 = b % 64 → H ≤ b + 32 → b < a + 1 →
      (rx₁.snInReassemblyWindow x = true ↔ a + 1 ≤ b + 32) := fun hx hb hb' => by
    rw [snInReassemblyWindow_iff hsize₁ hhighest₁ hx (by omega) (by omega)]
    omega
  have hfind₁ : ∀ k, rx₁.rxWindow.find? k =
      if rx₁.snInReassemblyWindow k then rx.rxWindow.find? k else none := fun k => by
    rw [hrx₁]
    exact OrderedMap.find?_filterKeys _ _ _
  have hkeep : ∀ b, a + 1 ≤ b + 32 → b < a + 1 →
      rx₁.rxWindow.find? (b % 64) = rx.rxWindow.find? (b % 64) := fun b hb hb' => by
    rw [hfind₁, if_pos ((hin₁ (Nat.mod_mod b 64) (by omega) hb').mpr hb)]
  have hkeys₁ : ∀ k, rx₁.rxWindow.find? k ≠ none →
      ∃ b, b % 64 = k ∧ a + 1 ≤ b + 32 ∧ b < a + 1 := fun k hk => by
    rw [hfind₁] at hk
    split_ifs at hk with hink
    · obtain ⟨b, rfl, hb, hb'⟩ := hkeys k hk
      exact ⟨b, rfl, (hin₁ (Nat.mod_mod b 64) hb hb').mp hink, hb'⟩
    · exact absurd rfl hk
  -- after "update RX_Next_Reassembly"
  have hR₁ : ∃ R', R ≤ R' ∧ R' ≤ a + 1 ∧ a + 1 ≤ R' + 32 ∧
      rx₁.updateNextReassembly.rxNextReassembly % 64 = R' % 64 := by
    have hnext₁ : rx₁.rxNextReassembly % 64 = R % 64 := by rw [hrx₁]; exact hnext
    have hinR := hin₁ hnext₁ hwindow (by omega)
    by_cases hold : rx₁.snInReassemblyWindow rx₁.rxNextReassembly = true
    · refine ⟨R, le_refl R, by omega, hinR.mp hold, ?_⟩
      unfold updateNextReassembly
      rw [if_pos hold]
      exact hnext₁
    · have hthere₁ : rx₁.rxWindow.find? sn ≠ none := by
        rw [← hsn, hkeep a (by omega) (by omega), hsn]
        exact hthere
      obtain ⟨b, hb, hb₁, hb₂⟩ := hkeys₁ _ (updateNextReassembly_key hsize₁ hold hthere₁)
      have hbelow : ¬ a + 1 ≤ R + 32 := fun hge => hold (hinR.mpr hge)
      exact ⟨b, by omega, by omega, hb₁, by omega⟩
  obtain ⟨R', hRR', hR'a, haR', hR'⟩ := hR₁
  obtain ⟨c, hstop⟩ := stopTimer_eq rx₁.updateNextReassembly sn
  obtain ⟨d, t, hstart⟩ := startTimer_eq (rx₁.updateNextReassembly.stopTimer sn) sn
  have heq : rx.updateWindow sn =
      (rx₁.updateNextReassembly.stopTimer sn).startTimer sn := by
    unfold RlcUmNrRx.updateWindow
    rw [if_neg hout, hrx₁]
  have hsize₂ : rx₁.updateNextReassembly.snSize = .size6bits := by
    rw [updateNextReassembly_eq]
    exact hsize₁
  have htimer : (rx.updateWindow sn).TimerOk := by
    rw [heq]
    refine timerOk_startTimer ?_ (timerOk_stopTimer hsize₂ sn) sn
    rw [hstop]
    exact hsize₂
  have hfinal : rx.updateWindow sn = { rx₁ with
      rxNextReassembly := rx₁.updateNextReassembly.rxNextReassembly
      reassemblyTimer := d
      rxTimerTrigger := t } := by
    rw [heq, hstart, hstop, updateNextReassembly_eq]
  refine ⟨R', ?_, hRR', htimer, ?_, ?_, ?_⟩
  · rw [hfinal]
    exact ⟨hsize₁, hhighest₁, hR', hR'a, haR'⟩
  · rw [hfinal, hrx₁]
    rfl
  · rw [hfinal]
    exact hkeep
  · rw [hfinal]
    exact hkeys₁

theorem Edges.updateWindow_of_lt (h : Edges rx R H) {sn : ℕ} (hsn : a % 64 = sn) (hlo : H ≤ a + 32)
    (hhi : a < H) : rx.updateWindow sn = rx := by
  unfold RlcUmNrRx.updateWindow
  rw [if_pos ((snInReassemblyWindow_iff h.snSize h.highest (x := sn) (a := a) (by omega) (by omega)
    (by omega)).mpr ⟨hlo, hhi⟩)]

theorem Edges.timerExpired (h : Edges rx R H) (hrunning : rx.reassemblyTimer = true)
    (htimer : rx.TimerOk) :
    Edges rx.timerExpired H H ∧ rx.timerExpired.TimerOk ∧
      rx.timerExpired.delivered = rx.delivered ∧
      ∀ k, rx.timerExpired.rxWindow.find? k ≠ none → rx.rxWindow.find? k ≠ none := by
  have hsize := h.snSize
  have hmod : rx.snSize.mod = 64 := by rw [hsize]; rfl
  obtain ⟨x, hx, hxmod⟩ := advance_eq 64
    { rx with reassemblyTimer := false, rxNextReassembly := rx.rxTimerTrigger } hsize
    (htimer hrunning) (by omega)
  obtain ⟨rx₁, hrx₁⟩ : ∃ rx₁ : RlcUmNrRx, rx₁ = { rx with
      reassemblyTimer := false
      rxNextReassembly := x
      rxWindow := rx.rxWindow.filterKeys fun sn => ¬ sn < x } := ⟨_, rfl⟩
  have hexpired : rx.timerExpired = rx₁ ∨ rx.timerExpired = rx₁.runTimer := by
    unfold RlcUmNrRx.timerExpired
    dsimp only
    rw [hmod, hx, hrx₁]
    split_ifs
    · exact Or.inr rfl
    · exact Or.inl rfl
  have hedges : Edges rx₁ H H := by
    rw [hrx₁]
    exact ⟨hsize, h.highest, hxmod.trans h.highest, le_refl H, Nat.le_add_right H 32⟩
  have hfind : ∀ k, rx₁.rxWindow.find? k ≠ none → rx.rxWindow.find? k ≠ none := fun k hk => by
    rw [hrx₁] at hk
    dsimp only at hk
    rw [OrderedMap.find?_filterKeys] at hk
    split_ifs at hk
    · exact hk
    · exact absurd rfl hk
  have hdelivered : rx₁.delivered = rx.delivered := by rw [hrx₁]
  rcases hexpired with heq | heq
  · rw [heq]
    refine ⟨hedges, fun hrun => ?_, hdelivered, hfind⟩
    rw [hrx₁] at hrun
    cases hrun
  · rw [heq]
    exact ⟨⟨hedges.snSize, hedges.highest, hedges.next, hedges.le, hedges.window⟩,
      timerOk_runTimer hedges.snSize, hdelivered, hfind⟩

end RlcUmNrRx
end SrsLte
