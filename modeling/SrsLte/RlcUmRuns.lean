import SrsLte.RlcUmDelivery

/-!
# Runs of a UM transmitter and receiver

What the receiver delivers of everything a transmitter was given: a sublist, whatever happens to
the PDUs on the way, and exactly the SDUs sent completely, when nothing happens to them. Both need
that every piece with a length indicator has at most 2047 bytes; the second also needs that no
grant ends right behind the header that announces one more SDU.
-/

namespace SrsLte

open Segmentation

namespace RlcUmTx

inductive Event
  | writeSdu (sdu : Bytes)
  | readPdu (nofBytes : ℕ)
  deriving DecidableEq

/-- A transmitter with the SDUs it has accepted and the PDUs it has built. -/
structure Transmission where
  tx : RlcUmTx
  accepted : List Bytes
  pdus : List Bytes

namespace Transmission

def step (t : Transmission) : Event → Transmission
  | .writeSdu sdu =>
    { t with
      tx := t.tx.writeSdu sdu
      accepted := if t.tx.accepts then t.accepted ++ [sdu] else t.accepted }
  | .readPdu nofBytes =>
    { t with
      tx := (t.tx.buildDataPdu nofBytes).1
      pdus := t.pdus ++ (t.tx.buildDataPdu nofBytes).2.toList }

def sentSdus (t : Transmission) : List Bytes :=
  t.accepted.take (t.accepted.length - (t.tx.txSdu.toList.length + t.tx.txSduQueue.length))

end Transmission

def transmit (snSize : UmdSnSize) (txQueueLength : ℕ) (events : List Event) : Transmission :=
  events.foldl Transmission.step ⟨configure snSize txQueueLength, [], []⟩

/-- The condition `P` holds at every grant. -/
def Grants (P : RlcUmTx → ℕ → Prop) : Transmission → List Event → Prop
  | _, [] => True
  | t, .writeSdu sdu :: events => Grants P (t.step (.writeSdu sdu)) events
  | t, .readPdu nofBytes :: events => P t.tx nofBytes ∧ Grants P (t.step (.readPdu nofBytes)) events

instance (P : RlcUmTx → ℕ → Prop) [∀ tx nofBytes, Decidable (P tx nofBytes)] :
    (t : Transmission) → (events : List Event) → Decidable (Grants P t events)
  | _, [] => inferInstanceAs (Decidable True)
  | t, .writeSdu sdu :: events => instDecidableGrants P (t.step (.writeSdu sdu)) events
  | t, .readPdu nofBytes :: events =>
    have := instDecidableGrants P (t.step (.readPdu nofBytes)) events
    inferInstanceAs (Decidable (_ ∧ _))

def SdusFit (events : List Event) : Prop :=
  ∀ sdu, .writeSdu sdu ∈ events → sdu ≠ [] ∧ sdu.length ≤ bufferTailroom

instance (events : List Event) : Decidable (SdusFit events) :=
  decidable_of_iff (∀ event ∈ events, (match event with
      | .writeSdu sdu => decide (sdu ≠ [] ∧ sdu.length ≤ bufferTailroom)
      | .readPdu _ => true) = true)
    ⟨fun h _ hsdu => of_decide_eq_true (h _ hsdu), fun h event hevent => by
      cases event with
      | writeSdu sdu => exact decide_eq_true (h sdu hevent)
      | readPdu nofBytes => rfl⟩

/-- The PDUs of a transmission carry the fragments `fs`. -/
structure Transmits (t : Transmission) (snSize : UmdSnSize) (fs : List (Fragment UInt8)) :
    Prop where
  sent : Sent t.tx t.accepted fs
  txSnSize : t.tx.snSize = snSize
  pdus : t.pdus = fs.mapIdx (UmdPdu.encode snSize)
  fit : ∀ f ∈ fs, UmdPdu.IndicatorsFit f
  bounded : ∀ sdu ∈ t.accepted, sdu.length ≤ bufferTailroom

variable {t : Transmission} {snSize : UmdSnSize} {fs : List (Fragment UInt8)}

theorem Transmits.writeSdu (h : Transmits t snSize fs) {sdu : Bytes}
    (hsdu : sdu ≠ [] ∧ sdu.length ≤ bufferTailroom) :
    Transmits (t.step (.writeSdu sdu)) snSize fs := by
  refine ⟨h.sent.writeSdu hsdu.1, ?_, h.pdus, h.fit, fun s hs => ?_⟩
  · have hsize := h.txSnSize
    unfold Transmission.step RlcUmTx.writeSdu
    dsimp only
    split_ifs <;> exact hsize
  · unfold Transmission.step at hs
    dsimp only at hs
    split_ifs at hs
    · rcases List.mem_append.mp hs with hs | hs
      · exact h.bounded s hs
      · rw [List.mem_singleton.mp hs]
        exact hsdu.2
    · exact h.bounded s hs

theorem buildDataPdu_snSize (tx : RlcUmTx) (nofBytes : ℕ) :
    (tx.buildDataPdu nofBytes).1.snSize = tx.snSize := by
  unfold buildDataPdu
  split_ifs <;> rfl

theorem buildDataPdu_none {tx : RlcUmTx} {nofBytes : ℕ} (h : (tx.buildDataPdu nofBytes).2 = none) :
    (tx.buildDataPdu nofBytes).1 = tx := by
  by_cases hcan : tx.canBuild nofBytes
  · simp [buildDataPdu, hcan] at h
  · simp [buildDataPdu, hcan]

theorem Transmits.readPdu (h : Transmits t snSize fs) {nofBytes : ℕ}
    (hfit : t.tx.IndicatorsFit nofBytes) :
    ∃ gs, Transmits (t.step (.readPdu nofBytes)) snSize (fs ++ gs) ∧
      (t.tx.NoEmptyPiece nofBytes → ∀ g ∈ gs, g.last ≠ []) := by
  unfold Transmission.step
  dsimp only
  cases hbuild : (t.tx.buildDataPdu nofBytes).2 with
  | none =>
    refine ⟨[], ?_, fun _ g hg => absurd hg List.not_mem_nil⟩
    rw [buildDataPdu_none hbuild, List.append_nil]
    exact ⟨h.sent, h.txSnSize, by simpa using h.pdus, h.fit, h.bounded⟩
  | some pdu =>
    obtain ⟨f, hpdu, hsent, hindicators, hlast⟩ := h.sent.buildDataPdu hbuild hfit
    refine ⟨[f], ⟨hsent, (buildDataPdu_snSize _ _).trans h.txSnSize, ?_, fun g hg => ?_, h.bounded⟩,
      fun hne g hg => List.mem_singleton.mp hg ▸ hlast hne⟩
    · rw [List.mapIdx_concat, ← h.pdus, hpdu, h.txSnSize]
      rfl
    · rcases List.mem_append.mp hg with hg | hg
      · exact h.fit g hg
      · rw [List.mem_singleton.mp hg]
        exact hindicators

theorem Transmits.run {events : List Event} (hsdus : SdusFit events)
    (hfit : Grants IndicatorsFit t events) (h : Transmits t snSize fs) :
    ∃ gs, Transmits (events.foldl Transmission.step t) snSize (fs ++ gs) ∧
      (Grants NoEmptyPiece t events → ∀ g ∈ gs, g.last ≠ []) := by
  induction events generalizing t fs with
  | nil => exact ⟨[], by rwa [List.append_nil], fun _ g hg => absurd hg List.not_mem_nil⟩
  | cons event events ih =>
    have hrest : SdusFit events := fun sdu hsdu => hsdus sdu (List.mem_cons_of_mem event hsdu)
    cases event with
    | writeSdu sdu => exact ih hrest hfit (h.writeSdu (hsdus sdu List.mem_cons_self))
    | readPdu nofBytes =>
      obtain ⟨gs, hstep, hlast⟩ := h.readPdu hfit.1
      obtain ⟨gs', hrun, hlast'⟩ := ih hrest hfit.2 hstep
      refine ⟨gs ++ gs', by rwa [← List.append_assoc], fun hne g hg => ?_⟩
      rcases List.mem_append.mp hg with hg | hg
      · exact hlast hne.1 g hg
      · exact hlast' hne.2 g hg

theorem transmits_configure (snSize : UmdSnSize) (txQueueLength : ℕ) :
    Transmits ⟨configure snSize txQueueLength, [], []⟩ snSize [] where
  sent := sent_configure snSize txQueueLength
  txSnSize := rfl
  pdus := rfl
  fit := List.forall_mem_nil _
  bounded := List.forall_mem_nil _

theorem transmit_fragments {txQueueLength : ℕ} {events : List Event} (hsdus : SdusFit events)
    (hfit : Grants IndicatorsFit ⟨configure snSize txQueueLength, [], []⟩ events) :
    ∃ fs, Transmits (transmit snSize txQueueLength events) snSize fs ∧
      (Grants NoEmptyPiece ⟨configure snSize txQueueLength, [], []⟩ events →
        ∀ f ∈ fs, f.last ≠ []) := by
  obtain ⟨fs, hrun, hlast⟩ := (transmits_configure snSize txQueueLength).run hsdus hfit
  exact ⟨fs, hrun, hlast⟩

section

variable (h : Transmits t snSize fs)
include h

theorem Transmits.completed_sublist :
    (Segmentation.completed fs).Sublist t.accepted := by
  rw [h.sent.stream, List.append_assoc]
  exact List.sublist_append_left _ _

theorem Transmits.sendable : RlcUmRx.Sendable fs where
  chained := h.sent.chained
  completed := fun u hu => h.bounded u (h.completed_sublist.subset hu)
  carry := by
    cases hsdu : t.tx.txSdu with
    | none =>
      rw [carry_eq_nil_of_aligned (h.sent.aligned.trans (decide_eq_true hsdu))]
      exact Nat.zero_le _
    | some rem =>
      have hstream := h.sent.stream
      rw [hsdu] at hstream
      have hle := h.bounded (carry fs ++ rem) (by rw [hstream]; simp [pending])
      rw [List.length_append] at hle
      omega

theorem Transmits.sentSdus_eq :
    t.sentSdus = Segmentation.completed fs := by
  have hlen : (pending (carry fs) t.tx.txSdu).length = t.tx.txSdu.toList.length := by
    cases t.tx.txSdu <;> rfl
  unfold Transmission.sentSdus
  rw [h.sent.stream, List.append_assoc, List.length_append, List.length_append, hlen,
    Nat.add_sub_cancel, List.take_left]

theorem Transmits.getD_pdus (n : ℕ) (f : Fragment UInt8)
    (hf : fs[n]? = some f) : t.pdus.getD n [] = UmdPdu.encode snSize n f := by
  rw [h.pdus, List.getD_eq_getElem?_getD, List.getElem?_mapIdx, hf]
  rfl

end

end RlcUmTx

namespace RlcUmRx

open RlcUmTx

def longSduSends : List RlcUmTx.Event :=
  [.writeSdu (List.replicate 2050 7), .writeSdu [8], .readPdu 3000]

end RlcUmRx
end SrsLte

/-!
PDUs that arrive in order go through the window one at a time. With no empty piece of an SDU in
front of its first byte, the receiver keeps exactly the SDU under way and delivers every SDU the
transmitter has finished.
-/

namespace SrsLte

open Segmentation

namespace RlcUmRx

variable {fs : List (Fragment UInt8)} {rx : RlcUmRx} {n : ℕ} {f : Fragment UInt8}

variable (fs) in
/-- The receiver when the first `n` PDUs have arrived in order. -/
structure InOrder (rx : RlcUmRx) (n : ℕ) : Prop where
  vrUr : rx.vrUr = n % rx.snSize.mod
  vrUh : rx.vrUh = n % rx.snSize.mod
  window : rx.rxWindow = []
  rxSdu : rx.rxSdu = carry (fs.take n)
  continues : rx.rxSdu ≠ [] → (rx.vrUrInRxSdu + 1) % rx.snSize.mod = n % rx.snSize.mod
  kept : rx.pduLost = false
  stopped : rx.reorderingTimer = false
  delivered : rx.delivered = completed (fs.take n)

theorem inOrder_configure (snSize : UmdSnSize) (fs : List (Fragment UInt8)) :
    InOrder fs (configure snSize) 0 where
  vrUr := (Nat.zero_mod _).symm
  vrUh := (Nat.zero_mod _).symm
  window := rfl
  rxSdu := rfl
  continues := fun h => absurd rfl h
  kept := rfl
  stopped := rfl
  delivered := rfl

theorem InOrder.settled (h : InOrder fs rx n) : Settled fs rx n n where
  vrUr := h.vrUr
  vrUh := h.vrUh
  le := le_rfl
  window := fun p hp => absurd (h.window ▸ hp) List.not_mem_nil
  delivered := h.delivered ▸ List.Sublist.refl _
  partialSdu := by
    by_cases hnil : rx.rxSdu = []
    · exact Or.inl hnil
    · exact Or.inr ⟨h.rxSdu, h.continues hnil⟩
  near := Nat.le_add_right _ _
  missing := fun ⟨p, hp, _⟩ => absurd (h.window ▸ hp) List.not_mem_nil
  top := fun hlt => absurd hlt (Nat.lt_irrefl n)
  timer := fun hrun => absurd (h.stopped.symm.trans hrun) Bool.false_ne_true

theorem InOrder.store (h : InOrder fs rx n) (f : Fragment UInt8) :
    rx.store (UmdPdu.ofFragment rx.snSize n f) =
      { rx with
        rxWindow := [UmdPdu.ofFragment rx.snSize n f]
        vrUh := (n + 1) % rx.snSize.mod } := by
  have hpos := window_pos rx.snSize
  have hinside := @insideReorderingWindow_iff
    { rx with rxWindow := [UmdPdu.ofFragment rx.snSize n f] } n n h.vrUh (List.cons_ne_nil _ _)
    (Nat.le_add_right _ _) (by dsimp only; omega)
  have houtside := mt hinside.mp fun hin => Nat.lt_irrefl n hin.2
  unfold RlcUmRx.store
  rw [h.window, show (UmdPdu.ofFragment rx.snSize n f).header.sn = n % rx.snSize.mod from rfl,
    ← Nat.mod_add_mod n]
  exact if_pos houtside

theorem InOrder.timers (h : InOrder fs rx n) : rx.stopTimer.startTimer = rx := by
  have hstop : rx.stopTimer = rx := by
    unfold RlcUmRx.stopTimer
    rw [if_neg fun hrun => absurd (h.stopped.symm.trans hrun.1) Bool.false_ne_true]
  rw [hstop]
  unfold RlcUmRx.startTimer
  rw [h.vrUr, h.vrUh, if_neg fun hlt => Nat.lt_irrefl _ hlt.2]

theorem checked_eq_self (hkept : rx.pduLost = false)
    (hbelongs : rx.rxSdu ≠ [] → rx.pduBelongsToRxSdu = true) : rx.checked = rx := by
  unfold checked
  split_ifs with h
  · rfl
  · have hnil : rx.rxSdu = [] := by
      by_contra hne
      exact h (hbelongs hne)
    cases rx
    simp_all [clearSdu]

theorem InOrder.handleDataPdu (hs : Sendable fs) (hlast : ∀ g ∈ fs, g.last ≠ [])
    (h : InOrder fs rx n) (hf : fs[n]? = some f) (hfit : UmdPdu.IndicatorsFit f) :
    InOrder fs (rx.handleDataPdu (UmdPdu.encode rx.snSize n f)) (n + 1) ∧
      (rx.handleDataPdu (UmdPdu.encode rx.snSize n f)).snSize = rx.snSize := by
  have hpos := window_pos rx.snSize
  have hkeep : ¬ rx.discards (n % rx.snSize.mod) = true := by
    rw [h.settled.toCore.numbered.discards_iff h.settled.near (Nat.le_add_right _ _) (by omega)]
    rintro (hlt | hholds)
    · exact Nat.lt_irrefl n hlt
    · exact h.settled.missing hholds
  obtain ⟨rx₁, hrx₁⟩ : ∃ rx₁, rx₁ = rx.store (UmdPdu.ofFragment rx.snSize n f) := ⟨_, rfl⟩
  have hstore := hrx₁.trans (h.store f)
  have hsize : rx₁.snSize = rx.snSize := by rw [hstore]
  have hur : rx₁.vrUr = n % rx₁.snSize.mod := by rw [hstore]; exact h.vrUr
  have huh : rx₁.vrUh = (n + 1) % rx₁.snSize.mod := by rw [hstore]
  have hwindow : rx₁.rxWindow = [UmdPdu.ofFragment rx.snSize n f] := by rw [hstore]
  have hsdu : rx₁.rxSdu = carry (fs.take n) := by rw [hstore]; exact h.rxSdu
  have hkept : rx₁.pduLost = false := by rw [hstore]; exact h.kept
  -- the window holds PDU `n` alone, so its lower edge is not passed yet
  have hcatch : catchUp rx₁.snSize.mod rx₁ = rx₁ := by
    have hinside : rx₁.insideReorderingWindow rx₁.vrUr = true := by
      rw [hur, insideReorderingWindow_iff huh (by rw [hwindow]; exact List.cons_ne_nil _ _)
        (by rw [hsize]; omega) (by omega)]
      rw [hsize]
      omega
    obtain ⟨fuel, hfuel⟩ := Nat.exists_eq_succ_of_ne_zero (mod_pos rx₁.snSize).ne'
    rw [hfuel, catchUp, if_pos hinside]
  have hfind : rx₁.find rx₁.vrUr = some (UmdPdu.ofFragment rx.snSize n f) := by
    unfold find
    rw [hwindow, hur, hsize]
    exact List.find?_cons_of_pos (decide_eq_true rfl)
  have hreassemble : rx₁.reassembleRxSdus = rx₁.updatePdu (UmdPdu.ofFragment rx.snSize n f) := by
    unfold RlcUmRx.reassembleRxSdus
    dsimp only
    rw [hcatch, hwindow, List.length_singleton, RlcUmRx.updateVrUr, hfind]
    rfl
  have hchecked : rx₁.checked = rx₁ := by
    apply checked_eq_self hkept
    intro hne
    apply decide_eq_true
    left
    rw [hur, hsize]
    rw [hstore] at hne ⊢
    exact h.continues hne
  obtain ⟨units, hre, -, hexact⟩ := updateBody_reassembles rx.snSize n
    (hs.bounded hf) (Or.inr hsdu) (hs.chained.carry_take hf)
  obtain ⟨hunits, hrest, hlost⟩ := hexact hsdu (fun hnil => by
    by_contra hnot
    exact hs.chained.carry_take_ne_nil hlast hf (Bool.not_eq_true _ ▸ hnot) hnil) hkept
  obtain ⟨rx₂, hrx₂⟩ : ∃ rx₂, rx₂ = rx₁.updateBody (UmdPdu.ofFragment rx.snSize n f) := ⟨_, rfl⟩
  rw [← hrx₂] at hre hrest hlost
  have hupdate : rx₁.reassembleRxSdus =
      { rx₂.erase rx₂.vrUr with vrUr := (rx₂.vrUr + 1) % rx₂.snSize.mod } := by
    rw [hreassemble, updatePdu_eq, hchecked, hrx₂]
    rfl
  have hframe := hre.frame
  have hur₂ := hframe.vrUr.trans hur
  have hin : InOrder fs rx₁.reassembleRxSdus (n + 1) := by
    rw [hupdate]
    constructor
    · dsimp only [erase]
      rw [hur₂, hframe.snSize, Nat.mod_add_mod]
    · dsimp only [erase]
      rw [hframe.vrUh, huh, hframe.snSize]
    · dsimp only [erase]
      rw [hframe.rxWindow, hwindow, hur₂, hsize]
      exact List.filter_cons_of_neg (by simp [UmdPdu.ofFragment])
    · exact hrest.trans (carry_take_succ hf).symm
    · intro hne
      dsimp only [erase] at hne ⊢
      rw [(hre.partialSdu.resolve_left hne).2, hur, hframe.snSize, Nat.mod_add_mod]
    · exact hlost
    · change rx₂.reorderingTimer = false
      rw [hframe.reorderingTimer, hstore]
      exact h.stopped
    · change rx₂.delivered = _
      rw [hre.delivered, hunits, hstore, h.delivered, completed_take_succ hf]
  have hhandle : rx.handleDataPdu (UmdPdu.encode rx.snSize n f) = rx₁.reassembleRxSdus := by
    unfold RlcUmRx.handleDataPdu
    rw [UmdPdu.read_encode rx.snSize n hfit]
    dsimp only
    rw [UmdPdu.drop_encode, show (UmdPdu.ofFragment rx.snSize n f).header.sn =
      n % rx.snSize.mod from rfl, if_neg hkeep]
    change (rx.store (UmdPdu.ofFragment rx.snSize n f)).reassembleRxSdus.stopTimer.startTimer = _
    rw [← hrx₁, hin.timers]
  rw [hhandle]
  refine ⟨hin, ?_⟩
  rw [hupdate]
  exact hframe.snSize.trans hsize

theorem inOrder_run (hs : Sendable fs) (hlast : ∀ g ∈ fs, g.last ≠ [])
    (hfit : ∀ g ∈ fs, UmdPdu.IndicatorsFit g) (snSize : UmdSnSize) (hn : n ≤ fs.length) :
    InOrder fs (((fs.mapIdx (UmdPdu.encode snSize)).take n).foldl RlcUmRx.handleDataPdu
        (configure snSize)) n ∧
      (((fs.mapIdx (UmdPdu.encode snSize)).take n).foldl RlcUmRx.handleDataPdu
        (configure snSize)).snSize = snSize := by
  induction n with
  | zero => exact ⟨inOrder_configure snSize fs, rfl⟩
  | succ n ih =>
    obtain ⟨hin, hsize⟩ := ih (by omega)
    have hf : fs[n]? = some fs[n] := List.getElem?_eq_getElem hn
    have hpdu : (fs.mapIdx (UmdPdu.encode snSize))[n]? = some (UmdPdu.encode snSize n fs[n]) := by
      rw [List.getElem?_mapIdx, hf]
      rfl
    obtain ⟨hin', hsize'⟩ := hin.handleDataPdu hs hlast hf (hfit _ (List.getElem_mem hn))
    rw [List.take_add_one, hpdu, Option.toList_some, List.foldl_append, List.foldl_cons,
      List.foldl_nil]
    rw [hsize] at hin' hsize'
    exact ⟨hin', hsize'⟩

/-- Over a loss-free channel the receiver delivers exactly the SDUs sent completely. -/
theorem delivered_eq_sentSdus (snSize : UmdSnSize) (txQueueLength : ℕ)
    {sends : List RlcUmTx.Event} (hsdus : RlcUmTx.SdusFit sends)
    (hfit : RlcUmTx.Grants RlcUmTx.IndicatorsFit
      ⟨RlcUmTx.configure snSize txQueueLength, [], []⟩ sends)
    (hne : RlcUmTx.Grants RlcUmTx.NoEmptyPiece
      ⟨RlcUmTx.configure snSize txQueueLength, [], []⟩ sends) :
    ((RlcUmTx.transmit snSize txQueueLength sends).pdus.foldl RlcUmRx.handleDataPdu
      (configure snSize)).delivered = (RlcUmTx.transmit snSize txQueueLength sends).sentSdus := by
  obtain ⟨fs, htransmits, hlast⟩ := RlcUmTx.transmit_fragments hsdus hfit
  obtain ⟨hin, -⟩ := inOrder_run htransmits.sendable (hlast hne) htransmits.fit snSize le_rfl
  rw [List.take_of_length_le (by rw [List.length_mapIdx]), ← htransmits.pdus] at hin
  rw [hin.delivered, htransmits.sentSdus_eq, List.take_length]

theorem delivered_eq_sentSdus_segmented :
    ((RlcUmTx.transmit .size5bits 4 [.writeSdu [1, 2, 3], .readPdu 3, .readPdu 9]).pdus.foldl
      RlcUmRx.handleDataPdu (configure .size5bits)).delivered =
        (RlcUmTx.transmit .size5bits 4 [.writeSdu [1, 2, 3], .readPdu 3, .readPdu 9]).sentSdus :=
  delivered_eq_sentSdus .size5bits 4 (by decide +kernel) (by decide +kernel) (by decide +kernel)

/-- Two SDUs of a byte each. The first grant ends behind the length indicator of the first one. -/
def emptyPieceSends : List RlcUmTx.Event :=
  [.writeSdu [1], .writeSdu [2], .readPdu 5, .readPdu 5]

/-- The second SDU starts with an empty piece and is dropped. -/
theorem empty_piece_not_delivered :
    RlcUmTx.SdusFit emptyPieceSends ∧
      ((RlcUmTx.transmit .size10bits 4 emptyPieceSends).pdus.foldl RlcUmRx.handleDataPdu
        (configure .size10bits)).delivered ≠
          (RlcUmTx.transmit .size10bits 4 emptyPieceSends).sentSdus := by
  decide +kernel

end RlcUmRx
end SrsLte
