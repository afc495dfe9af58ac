import SrsLte.RlcAmTxRuns

/-!
# Indication of the maximum number of retransmissions

`build_retx_pdu` counts a retransmission of a whole PDU and signals `max_retx_attempted` when the
count reaches its threshold. `build_segment` does not count. The signal has been given when it is
due as long as no segment is sent.
-/

namespace SrsLte
namespace RlcAmTx

/-- A transmitter with the number of times that each SN was sent again since its PDU was built. -/
structure Selections where
  tx : RlcAmTx
  selected : ℕ → ℕ

namespace Selections

def start (cfg : RlcAmConfig) : Selections := ⟨configure cfg, fun _ => 0⟩

/-- The SN that a grant sends again, `none` if there is none. -/
def selection (tx : RlcAmTx) (rx : RlcAmRx) (rand nofBytes : ℕ) : Option ℕ :=
  if tx.SendsData rx ∧ ((tx.scheduleRetx rand).retransmit nofBytes).2.pdu ≠ [] then
    (tx.scheduleRetx rand).dropStale.retxQueue.head?.map RlcAmdRetx.sn
  else none

/-- The SN of the PDU that a grant builds, `none` if there is none. -/
def newSn (tx : RlcAmTx) (rx : RlcAmRx) (rand nofBytes : ℕ) : Option ℕ :=
  let r := (tx.scheduleRetx rand).retransmit nofBytes
  if tx.SendsData rx ∧ r.2.pdu = [] ∧ (r.1.buildDataPdu nofBytes).2.pdu ≠ [] then some tx.vtS
  else none

def count (s : Selections) : Event → ℕ → ℕ
  | .readPdu rx rand nofBytes, sn =>
    if newSn s.tx rx rand nofBytes = some sn then 0
    else if selection s.tx rx rand nofBytes = some sn then s.selected sn + 1
    else s.selected sn
  | _, sn => s.selected sn

def step (s : Selections) (e : Event) : Selections := ⟨s.tx.step e, s.count e⟩

/-- A PDU that was sent again as often as the threshold says has made the transmitter signal. -/
def Signalled (s : Selections) : Prop :=
  ∀ sn pdu, s.tx.txWindow.find? sn = some pdu → 0 < s.selected sn →
    s.tx.cfg.maxRetxThresh ≤ s.selected sn → 0 < s.tx.maxRetxAttempted

/-- The retransmission that is due is not sent in segments: the grant takes the whole PDU, or no
segment of it. -/
def NoSegment (tx : RlcAmTx) (nofBytes : ℕ) : Prop :=
  ∀ f ∈ tx.front, Resends nofBytes f.2 f.1 ∨ nofBytes ≤ headLen f.2

instance (tx : RlcAmTx) (nofBytes : ℕ) : Decidable (NoSegment tx nofBytes) :=
  inferInstanceAs (Decidable (∀ f ∈ tx.front, _))

def WholePdus (s : Selections) : Event → Prop
  | .readPdu rx rand nofBytes => s.tx.SendsData rx → NoSegment (s.tx.scheduleRetx rand) nofBytes
  | _ => True

/-- The counters of the window cover the times that a PDU was sent again, and have signalled. -/
structure Counted (s : Selections) : Prop where
  selected : ∀ {sn pdu}, s.tx.txWindow.find? sn = some pdu → s.selected sn ≤ pdu.retxCount
  signalled : ∀ {sn pdu}, s.tx.txWindow.find? sn = some pdu → 0 < pdu.retxCount →
    s.tx.cfg.maxRetxThresh ≤ pdu.retxCount → 0 < s.tx.maxRetxAttempted

structure Shrinks (tx tx' : RlcAmTx) : Prop where
  window : ∀ {sn pdu}, tx'.txWindow.find? sn = some pdu → tx.txWindow.find? sn = some pdu
  cfg : tx'.cfg = tx.cfg
  maxRetxAttempted : tx'.maxRetxAttempted = tx.maxRetxAttempted

theorem Shrinks.refl (tx : RlcAmTx) : Shrinks tx tx := ⟨fun h => h, rfl, rfl⟩

variable {tx : RlcAmTx} {s : Selections}

theorem Shrinks.trans {tx' tx'' : RlcAmTx} (h : Shrinks tx tx') (h' : Shrinks tx' tx'') :
    Shrinks tx tx'' :=
  ⟨fun hfind => h.window (h'.window hfind), h'.cfg.trans h.cfg,
    h'.maxRetxAttempted.trans h.maxRetxAttempted⟩

theorem shrinks_handleAck (tx : RlcAmTx) (sn : ℕ) (u : Bool) : Shrinks tx (tx.handleAck sn u) := by
  rcases tx.handleAck_eq sn u with heq | ⟨-, -, heq⟩
  · rw [heq]
    exact Shrinks.refl tx
  · rw [heq]
    refine ⟨fun {k pdu} hfind => ?_, rfl, rfl⟩
    rw [OrderedMap.find?_erase] at hfind
    split_ifs at hfind
    exact hfind

theorem shrinks_handleNack (tx : RlcAmTx) (nack : RlcStatusNack) :
    Shrinks tx (tx.handleNack nack) := by
  rcases tx.handleNack_eq nack with heq | ⟨pdu, -, -, heq⟩
  · rw [heq]
    exact Shrinks.refl tx
  · rw [heq]
    exact ⟨fun h => h, rfl, rfl⟩

theorem shrinks_of_empty {tx' : RlcAmTx} (h : tx'.txWindow = OrderedMap.empty)
    (hcfg : tx'.cfg = tx.cfg) (hmax : tx'.maxRetxAttempted = tx.maxRetxAttempted) :
    Shrinks tx tx' where
  window hfind := by simp [h] at hfind
  cfg := hcfg
  maxRetxAttempted := hmax

theorem shrinks_step (tx : RlcAmTx) {e : Event}
    (he : ∀ rx rand nofBytes, e ≠ .readPdu rx rand nofBytes) : Shrinks tx (tx.step e) := by
  cases e with
  | writeSdu sdu =>
    change Shrinks tx (tx.writeSdu sdu)
    unfold writeSdu
    split_ifs
    · exact ⟨fun h => h, rfl, rfl⟩
    · exact Shrinks.refl tx
  | readPdu rx rand nofBytes => exact absurd rfl (he rx rand nofBytes)
  | getBufferState rx =>
    change Shrinks tx tx.neededForRetx.1
    obtain ⟨queue, -, heq⟩ := tx.neededForRetx_fst
    rw [heq]
    exact ⟨fun h => h, rfl, rfl⟩
  | handleControlPdu status =>
    exact tx.handleControlPdu_induction
      (fun tx' sn u h => h.trans (shrinks_handleAck tx' sn u))
      (fun tx' nack _ h => h.trans (shrinks_handleNack tx' nack))
      (fun t q _ => ⟨fun h => h, rfl, rfl⟩)
  | pollRetxTimerExpired rand =>
    change Shrinks tx (tx.pollRetxTimerExpired rand)
    obtain ⟨queue, heq⟩ := tx.pollRetxTimerExpired_eq rand
    rw [heq]
    exact ⟨fun h => h, rfl, rfl⟩
  | statusProhibitTimerExpired | emptyQueue => exact ⟨fun h => h, rfl, rfl⟩
  | stop => exact shrinks_of_empty rfl rfl rfl
  | reestablish => exact shrinks_of_empty rfl rfl rfl

theorem Counted.shrink (h : s.Counted) (htx : Shrinks s.tx tx)
    {selected : ℕ → ℕ} (hselected : ∀ sn, selected sn ≤ s.selected sn) :
    Counted ⟨tx, selected⟩ where
  selected {sn pdu} hfind := (hselected sn).trans (h.selected (htx.window hfind))
  signalled {sn pdu} hfind hpos hthresh := by
    dsimp only at hfind hpos hthresh ⊢
    rw [htx.cfg] at hthresh
    rw [htx.maxRetxAttempted]
    exact h.signalled (htx.window hfind) hpos hthresh

theorem Counted.insert (h : s.Counted) {sn : ℕ} {pdu : RlcAmdTxPdu} (hcfg : tx.cfg = s.tx.cfg)
    (hwindow : tx.txWindow = s.tx.txWindow.insert sn pdu)
    (hmax : s.tx.maxRetxAttempted ≤ tx.maxRetxAttempted) {selected : ℕ → ℕ}
    (hcount : selected sn ≤ pdu.retxCount)
    (hsignalled : 0 < pdu.retxCount → s.tx.cfg.maxRetxThresh ≤ pdu.retxCount →
      0 < tx.maxRetxAttempted)
    (hselected : ∀ k, k ≠ sn → selected k = s.selected k) : Counted ⟨tx, selected⟩ where
  selected {k q} hfind := by
    dsimp only at hfind ⊢
    rw [hwindow, OrderedMap.find?_insert] at hfind
    split_ifs at hfind with hk
    · rwa [← Option.some.inj hfind, hk]
    · exact hselected k hk ▸ h.selected hfind
  signalled {k q} hfind hpos hthresh := by
    dsimp only at hfind hthresh ⊢
    rw [hwindow, OrderedMap.find?_insert] at hfind
    rw [hcfg] at hthresh
    split_ifs at hfind with hk
    · cases hfind
      exact hsignalled hpos hthresh
    · exact (h.signalled hfind hpos hthresh).trans_le hmax

theorem Counted.readPdu (h : s.Counted) (rx : RlcAmRx) (rand nofBytes : ℕ)
    (hwhole : s.WholePdus (.readPdu rx rand nofBytes)) :
    (s.step (.readPdu rx rand nofBytes)).Counted := by
  change Counted ⟨(s.tx.readPdu rx rand nofBytes).1, s.count (.readPdu rx rand nofBytes)⟩
  by_cases hdata : s.tx.SendsData rx
  · obtain ⟨q, hq⟩ := s.tx.scheduleRetx_eq rand
    have hnoSegment := hwhole hdata
    obtain ⟨hvtS, -, hcfg, -⟩ := (s.tx.scheduleRetx rand).frame_retransmit nofBytes
    have hvtS' : ((s.tx.scheduleRetx rand).retransmit nofBytes).1.vtS = s.tx.vtS := by
      rw [hvtS, hq]
    have hcfg' : (s.tx.scheduleRetx rand).cfg = s.tx.cfg := by rw [hq]
    have hmax' : (s.tx.scheduleRetx rand).maxRetxAttempted = s.tx.maxRetxAttempted := by rw [hq]
    have hw' := s.tx.txWindow_scheduleRetx rand
    rcases s.tx.readPdu_of_sendsData rand nofBytes hdata with ⟨hsent, heq⟩ | ⟨hnone, heq⟩
    · -- A retransmission is sent, of a whole PDU by the condition.
      rw [heq]
      rcases (s.tx.scheduleRetx rand).retransmit_cases nofBytes with
        ⟨hempty, -⟩ | ⟨retx, rest, pdu, hqueue, hpdu, -, hcase⟩
      · exact absurd hempty hsent
      · have hselection : selection s.tx rx rand nofBytes = some retx.sn := by
          rw [selection, if_pos ⟨hdata, hsent⟩, hqueue]
          rfl
        have hnew : newSn s.tx rx rand nofBytes = none := if_neg fun hnew => hsent hnew.2.1
        rcases hcase with ⟨hnot, hlarge, -⟩ | ⟨-, hw, hmax⟩
        · have hfront := (s.tx.scheduleRetx rand).front_eq hqueue hpdu
          rcases hnoSegment _ hfront with hresends | hsmall
          · exact absurd hresends hnot
          · exact absurd hsmall (Nat.not_le.mpr hlarge)
        · rw [hw'] at hpdu hw
          rw [hcfg', hmax'] at hmax
          refine h.insert (hcfg.trans hcfg') hw (hmax ▸ ?_) ?_ (fun _ hthresh => ?_) fun k hk => ?_
          · split_ifs <;> omega
          · rw [count, hnew, hselection, if_neg nofun, if_pos rfl]
            exact Nat.succ_le_succ (h.selected hpdu)
          · rw [hmax, if_pos hthresh]
            exact Nat.succ_pos _
          · rw [count, hnew, hselection, if_neg nofun, if_neg (by simpa using hk.symm)]
    · have hselection : selection s.tx rx rand nofBytes = none :=
        if_neg fun hselection => hselection.2 hnone
      rw [heq]
      rcases (s.tx.scheduleRetx rand).retransmit_cases nofBytes with
        ⟨-, hw, hmax⟩ | ⟨-, -, -, -, -, hsent, -⟩
      · have hframe := ((s.tx.scheduleRetx rand).retransmit nofBytes).1.frame_buildDataPdu nofBytes
        have hbuild :=
          ((s.tx.scheduleRetx rand).retransmit nofBytes).1.txWindow_buildDataPdu nofBytes
        rw [hw, hvtS', hw'] at hbuild
        rw [hcfg, hmax, hcfg', hmax'] at hframe
        rcases hbuild with ⟨hsame, hempty⟩ | ⟨pdu, -, hcount, hinsert, hbuilt⟩
        · have hnew : newSn s.tx rx rand nofBytes = none :=
            if_neg fun hnew => hnew.2.2 hempty
          refine h.shrink ⟨fun hfind => hsame ▸ hfind, hframe.1, hframe.2⟩ fun k => ?_
          rw [count, hnew, hselection]
          simp
        · have hnew : newSn s.tx rx rand nofBytes = some s.tx.vtS := if_pos ⟨hdata, hnone, hbuilt⟩
          refine h.insert hframe.1 hinsert hframe.2.ge ?_ (fun hpos => ?_) fun k hk => ?_
          · rw [count, hnew, if_pos rfl]
            exact Nat.zero_le _
          · exact absurd hcount hpos.ne'
          · rw [count, hnew, hselection, if_neg (by simpa using hk.symm), if_neg nofun]
      · exact absurd hnone hsent
  · obtain ⟨t, heq, -⟩ := s.tx.readPdu_of_not_sendsData rand nofBytes hdata
    have hselection : selection s.tx rx rand nofBytes = none := if_neg fun h => hdata h.1
    have hnew : newSn s.tx rx rand nofBytes = none := if_neg fun h => hdata h.1
    have hshrinks : Shrinks s.tx { s.tx with statusProhibitTimer := t } :=
      ⟨fun hfind => hfind, rfl, rfl⟩
    rw [heq]
    refine h.shrink hshrinks fun k => ?_
    rw [count, hnew, hselection]
    simp

theorem Counted.step (h : s.Counted) (e : Event) (hwhole : s.WholePdus e) : (s.step e).Counted := by
  cases e with
  | readPdu rx rand nofBytes => exact h.readPdu rx rand nofBytes hwhole
  | _ => exact h.shrink (shrinks_step _ (by simp)) fun _ => Nat.le_refl _

theorem Counted.signals (h : s.Counted) : s.Signalled := by
  intro sn pdu hfind hpos hthresh
  have hle := h.selected hfind
  exact h.signalled hfind (hpos.trans_le hle) (hthresh.trans hle)

/-- As long as no grant takes a segment of the PDU that is due, every PDU that was sent again as
often as the threshold says has been signalled. -/
theorem signalled_of_wholePdus (cfg : RlcAmConfig) (events : List Event)
    (h : EventRun.Along step WholePdus (start cfg) events) :
    Signalled (events.foldl step (start cfg)) := by
  have hstart : (start cfg).Counted :=
    ⟨fun hfind => by simp [start, configure] at hfind,
      fun hfind => by simp [start, configure] at hfind⟩
  exact (EventRun.Along.invariant (fun s e hs hwhole => hs.step e hwhole) hstart h).signals

def twoNacks (grant : ℕ) : List Event :=
  let nack : RlcStatusReport := ⟨{ ackSn := 1, nacks := [RlcStatusNack.whole 0] }, by decide⟩
  let rx := RlcAmRx.init []
  [.writeSdu (List.replicate 20 0), .readPdu rx 0 30, .handleControlPdu nack, .readPdu rx 0 grant,
    .readPdu rx 0 grant, .handleControlPdu nack, .readPdu rx 0 grant, .readPdu rx 0 grant]

def thresholdTwo : RlcAmConfig where
  pollPdu := -1
  pollByte := -1
  maxRetxThresh := 2
  tStatusProhibit := 0
  txQueueLength := 128

/-- With large grants the second retransmission signals. -/
theorem signalled_of_wholePdus_twoNacks :
    Signalled ((twoNacks 30).foldl step (start thresholdTwo)) :=
  signalled_of_wholePdus thresholdTwo (twoNacks 30)
    ⟨trivial, fun _ => by decide, trivial, fun _ => by decide,
      fun _ => by decide, trivial, fun _ => by decide,
      fun _ => by decide, trivial⟩

/-- With small grants both retransmissions of the PDU are sent in two segments each, and nothing is
signalled. -/
theorem segments_do_not_signal : ¬ ∀ (cfg : RlcAmConfig) (events : List Event),
    Signalled (events.foldl step (start cfg)) := by
  intro h
  have hrun := h thresholdTwo (twoNacks 14)
  have hsome : ((twoNacks 14).foldl step (start thresholdTwo)).tx.txWindow.find? 0 ≠ none := by
    decide
  obtain ⟨pdu, hpdu⟩ := Option.ne_none_iff_exists'.mp hsome
  have hcount : ((twoNacks 14).foldl step (start thresholdTwo)).selected 0 = 4 := by decide
  have hsignalled := hrun 0 pdu hpdu (by rw [hcount]; decide) (by rw [hcount]; decide)
  exact absurd hsignalled (by decide)

end Selections
end RlcAmTx
end SrsLte
