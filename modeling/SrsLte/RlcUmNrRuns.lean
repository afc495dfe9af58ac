import SrsLte.RlcUmNrDelivery

/-!
# Runs of the NR UM transmitter and receiver

What the receiver delivers of the SDUs a transmitter was given, whatever happens to the PDUs on the
way, as long as each sequence number that arrives is less than a window away from the highest one
before it.
-/

namespace SrsLte
namespace RlcUmNrRx

open Tiling UmNrPiece RlcUmNrTx

inductive Event
  | pdu (k : ℕ)
  | expiry
  deriving DecidableEq

/-- The PDU is not discarded as one with a sequence number below `RX_Next_Reassembly`. -/
def accepts (rx : RlcUmNrRx) (payload : Bytes) : Bool :=
  let header := UmNrPduHeader.read rx.snSize payload
  header.si = .fullSdu ∨ ¬ rx.snInvalidForRxBuffer header.sn

/-- A receiver with the positions of the PDUs that it did not discard on arrival. -/
structure Reception where
  rx : RlcUmNrRx
  accepted : List ℕ

namespace Reception

def start (snSize : UmNrSnSize) : Reception := ⟨configure snSize, []⟩

/-- The arrival of a PDU, or the expiry of `t-Reassembly` if it is running. -/
def step (sent : List SentPdu) (r : Reception) : Event → Option Reception
  | .pdu k =>
    let payload := ((sent[k]?).map SentPdu.pdu).getD []
    (r.rx.handleDataPdu payload).map fun rx =>
      { rx := rx
        accepted := if r.rx.accepts payload then r.accepted ++ [k] else r.accepted }
  | .expiry => some (if r.rx.reassemblyTimer then { r with rx := r.rx.timerExpired } else r)

end Reception

def receive (snSize : UmNrSnSize) (sent : List SentPdu) (events : List Event) : Option Reception :=
  events.foldlM (Reception.step sent) (.start snSize)

def snAt (sent : List SentPdu) (k : ℕ) : Option ℕ := sent[k]?.bind SentPdu.sn

/-- The sequence number is less than a window away from `H`. -/
def Near (window H : ℕ) : Option ℕ → Prop
  | none => True
  | some a => H ≤ a + window ∧ a < H + window

instance (window H : ℕ) : (sn : Option ℕ) → Decidable (Near window H sn)
  | none => inferInstanceAs (Decidable True)
  | some _ => inferInstanceAs (Decidable (_ ∧ _))

def raise (H : ℕ) : Option ℕ → ℕ
  | none => H
  | some a => max H (a + 1)

/-- PDUs that were sent arrive, with sequence numbers in the window around the highest so far. -/
def InWindow (window : ℕ) (sent : List SentPdu) : ℕ → List Event → Prop
  | _, [] => True
  | H, .expiry :: events => InWindow window sent H events
  | H, .pdu k :: events => k < sent.length ∧ Near window H (snAt sent k) ∧
      InWindow window sent (raise H (snAt sent k)) events

instance (window : ℕ) (sent : List SentPdu) : (H : ℕ) → (events : List Event) →
    Decidable (InWindow window sent H events)
  | _, [] => inferInstanceAs (Decidable True)
  | H, .expiry :: events => instDecidableInWindow window sent H events
  | H, .pdu k :: events =>
    have := instDecidableInWindow window sent (raise H (snAt sent k)) events
    inferInstanceAs (Decidable (_ ∧ _ ∧ _))

def arrivals : List Event → List ℕ
  | [] => []
  | .pdu k :: events => k :: arrivals events
  | .expiry :: events => arrivals events

variable {t : Transmission} {n R H : ℕ} {ps : List UmNrPiece} {rx : RlcUmNrRx} {k a : ℕ}
  {since : ℕ → Set ℕ} {ids : List ℕ}

theorem handleDataPdu_encode (hsize : rx.snSize = .size6bits) {p : UmNrPiece} {u : Bytes}
    (hfits : p.Fits u.length) (hlen : u.length < 2 ^ 16) :
    rx.handleDataPdu (p.encode u) =
      if p.sn = none then some { rx with delivered := rx.delivered ++ [u] }
      else if rx.snInvalidForRxBuffer (p.sn.getD 0 % 64) then some rx
      else (rx.placePdu (p.pdu u)).handleRxBufferUpdate (p.sn.getD 0 % 64) := by
  have hcoded := hfits.coded hlen
  have hread : UmNrPduHeader.read rx.snSize (p.encode u) = p.header u.length := by
    rw [hsize]
    exact hcoded.read_write _
  have hdrop : (p.encode u).drop (p.header u.length).packedLength = part u p.start p.stop :=
    hcoded.drop_write _
  unfold handleDataPdu
  rw [hread]
  dsimp only
  rw [stripPduHeader, hdrop]
  by_cases hfull : p.sn = none
  · obtain ⟨hstart, hstop⟩ := hfits.full hfull
    have hpart : part u p.start p.stop = u := by rw [hstart, hstop]; simp [part]
    rw [if_pos (header_si_eq_fullSdu.mpr hfull), if_pos hfull, hpart]
  · rw [if_neg (fun h => hfull (header_si_eq_fullSdu.mp h)), if_neg hfull]
    rfl

theorem accepts_encode (hsize : rx.snSize = .size6bits) {p : UmNrPiece} {u : Bytes}
    (hfits : p.Fits u.length) (hlen : u.length < 2 ^ 16) :
    rx.accepts (p.encode u) = true ↔
      p.sn = none ∨ ¬ rx.snInvalidForRxBuffer (p.sn.getD 0 % 64) = true := by
  have hread : UmNrPduHeader.read rx.snSize (p.encode u) = p.header u.length := by
    rw [hsize]
    exact (hfits.coded hlen).read_write _
  unfold accepts
  rw [hread, decide_eq_true_iff, header_si_eq_fullSdu]
  rfl

/-- What the receiver holds for the sequence number `a` once the segments `A` have arrived. -/
def Entry (t : Transmission) (ps : List UmNrPiece) (a : ℕ) (A : Set ℕ) :
    Option UmNrPduSegments → Prop
  | none => A = ∅
  | some p => ∃ i, (∀ k ∈ withSn ps a, (nth ps k).sdu = i) ∧
      UmNrPduSegments.Collects (t.unit i) (fun k => (nth ps k).start) (fun k => (nth ps k).stop)
        (fun k => (nth ps k).pdu (t.unit i)) (withSn ps a) A p ∧ p.Stuck

/-- The receive window after the segments `since` have arrived. -/
structure Window (t : Transmission) (ps : List UmNrPiece) (rx : RlcUmNrRx) (R H : ℕ)
    (since : ℕ → Set ℕ) : Prop where
  edges : Edges rx R H
  timer : rx.TimerOk
  keys : ∀ sn, rx.rxWindow.find? sn ≠ none → ∃ a, a % 64 = sn ∧ H ≤ a + 32 ∧ a < H
  entries : ∀ a, R ≤ a → a < H → Entry t ps a (since a) (rx.rxWindow.find? (a % 64))
  later : ∀ a, H ≤ a → since a = ∅

theorem window_configure : Window t ps (configure .size6bits) 0 0 fun _ => ∅ where
  edges := ⟨rfl, rfl, rfl, le_refl 0, Nat.zero_le _⟩
  timer := fun h => by cases h
  keys := fun _ h => absurd rfl h
  entries := fun a _ ha => absurd ha (Nat.not_lt_zero a)
  later := fun _ _ => rfl

theorem Window.timerExpired (h : Window t ps rx R H since) (hrunning : rx.reassemblyTimer = true) :
    Window t ps rx.timerExpired H H since ∧ rx.timerExpired.delivered = rx.delivered := by
  obtain ⟨hedges, htimer, hdelivered, hfind⟩ := h.edges.timerExpired hrunning h.timer
  exact ⟨⟨hedges, htimer, fun sn hsn => h.keys sn (hfind sn hsn), fun a ha ha' => by omega,
    h.later⟩, hdelivered⟩

theorem segments (hsent : Sent t n ps) {i : ℕ} (hi : ∀ k ∈ withSn ps a, (nth ps k).sdu = i) :
    UmNrPduSegments.Segments (t.unit i) (fun k => (nth ps k).start) (fun k => (nth ps k).stop)
      (fun k => (nth ps k).pdu (t.unit i)) (withSn ps a) where
  bounded := hsent.length_unit i
  apart := hsent.cut.apart hi
  segment := fun k hk => by
    have hfits := hsent.cut.fits _ (nth_mem hk.1)
    rw [hi k hk] at hfits
    exact segment_pdu hfits (by simp [hk.2])

theorem Window.entry (hsent : Sent t n ps) (h : Window t ps rx R H since) (hk : k ∈ withSn ps a)
    (hR : R ≤ a) (hhi : a < H + 32) :
    UmNrPduSegments.Collects (t.unit (nth ps k).sdu) (fun k => (nth ps k).start)
      (fun k => (nth ps k).stop) (fun l => (nth ps l).pdu (t.unit (nth ps k).sdu)) (withSn ps a)
      (since a) ((rx.rxWindow.find? (a % 64)).getD .empty) := by
  have hpos : 0 < (t.unit (nth ps k).sdu).length := by
    have hfits := hsent.cut.fits _ (nth_mem hk.1)
    have hlt := (hfits.segment (by simp [hk.2])).1
    have hle := hfits.stop_le
    omega
  have hnew : rx.rxWindow.find? (a % 64) = none → since a = ∅ →
      UmNrPduSegments.Collects (t.unit (nth ps k).sdu) (fun k => (nth ps k).start)
        (fun k => (nth ps k).stop) (fun l => (nth ps l).pdu (t.unit (nth ps k).sdu))
        (withSn ps a) (since a) ((rx.rxWindow.find? (a % 64)).getD .empty) := fun hnone hempty => by
    rw [hnone, hempty]
    exact UmNrPduSegments.collects_empty hpos
  rcases lt_or_ge a H with ha | ha
  · have hentry := h.entries a hR ha
    cases hfind : rx.rxWindow.find? (a % 64) with
    | none =>
      rw [hfind] at hentry
      rw [← hfind]
      exact hnew hfind hentry
    | some p =>
      rw [hfind] at hentry
      obtain ⟨i, hi, hcollects, -⟩ := hentry
      rw [hi k hk]
      exact hcollects
  · refine hnew ?_ (h.later a ha)
    by_contra hfind
    obtain ⟨b, hb, hb₁, hb₂⟩ := h.keys _ hfind
    omega

theorem entry_none (h : Window t ps rx R H since) (hH : H ≤ a) (hhi : a < H + 32) :
    rx.rxWindow.find? (a % 64) = none := by
  by_contra hfind
  obtain ⟨b, hb, hb₁, hb₂⟩ := h.keys _ hfind
  omega

theorem entry_update {since' : ℕ → Set ℕ} {A : Set ℕ} {b : ℕ} {o : Option UmNrPduSegments}
    (hba : b ≠ a) (h : Entry t ps b (since b) o) (hsince : since' = Function.update since a A) :
    Entry t ps b (since' b) o := by
  rw [hsince, Function.update_of_ne hba]
  exact h

theorem Window.deliver (h : Window t ps rx R H since) (hR : R ≤ a) (ha : a < H) {rx' : RlcUmNrRx}
    {p : UmNrPduSegments}
    (hrx' : rx' = { rx with rxWindow := rx.rxWindow.insert (a % 64) p }) (sdu : Bytes) :
    ∃ R', Window t ps (rx'.deliver (a % 64) sdu) R' H (Function.update since a ∅) ∧
      (rx'.deliver (a % 64) sdu).delivered = rx.delivered ++ [sdu] := by
  have hwindow := h.edges.window
  have hedges : Edges rx' R H := by
    rw [hrx']
    exact ⟨h.edges.snSize, h.edges.highest, h.edges.next, h.edges.le, hwindow⟩
  obtain ⟨R', hedges', hRR', hhighest, hrxWindow, hdelivered, hrunning, htrigger⟩ :=
    hedges.deliver (Nat.mod_mod a 64) hR ha sdu
  have hfind : ∀ k, (rx'.deliver (a % 64) sdu).rxWindow.find? k =
      if k = a % 64 then none else rx.rxWindow.find? k := fun k => by
    rw [hrxWindow, OrderedMap.find?_erase, hrx']
    dsimp only
    split_ifs with hk
    · rfl
    · rw [OrderedMap.find?_insert, if_neg hk]
  refine ⟨R', ⟨hedges', fun hrun => ?_, fun sn hsn => ?_, fun b hb hb' => ?_, fun b hb => ?_⟩, ?_⟩
  · have hbase : ∀ x, (rx'.deliver (a % 64) sdu).rxModNrBase x = rx.rxModNrBase x := fun x => by
      unfold rxModNrBase
      rw [hhighest, hedges'.snSize, h.edges.snSize, hrx']
    rw [hrunning] at hrun
    rw [hbase, htrigger, hrx']
    rw [hrx'] at hrun
    exact h.timer hrun
  · rw [hfind] at hsn
    split_ifs at hsn
    · exact absurd rfl hsn
    · exact h.keys sn hsn
  · rw [hfind]
    by_cases hba : b = a
    · rw [hba, if_pos rfl, Function.update_self]
      rfl
    · have hle' := hedges'.window
      rw [if_neg (by omega)]
      exact entry_update hba (h.entries b (hRR'.trans hb) hb') rfl
  · rw [Function.update_of_ne (by omega)]
    exact h.later b hb
  · rw [hdelivered, hrx']

theorem Window.wait (h : Window t ps rx R H since) (hlo : H ≤ a + 32)
    (hhi : a < H + 32) {rx' : RlcUmNrRx} {p p' : UmNrPduSegments}
    (hrx' : rx' = { rx with rxWindow := (rx.rxWindow.insert (a % 64) p).insert (a % 64) p' })
    {A : Set ℕ} (hentry : Entry t ps a A (some p')) :
    ∃ R', Window t ps (rx'.updateWindow (a % 64)) R' (max H (a + 1)) (Function.update since a A) ∧
      (rx'.updateWindow (a % 64)).delivered = rx.delivered := by
  have hwindow := h.edges.window
  have hedges : Edges rx' R H := by
    rw [hrx']
    exact ⟨h.edges.snSize, h.edges.highest, h.edges.next, h.edges.le, hwindow⟩
  have hfind : ∀ k, rx'.rxWindow.find? k =
      if k = a % 64 then some p' else rx.rxWindow.find? k := fun k => by
    rw [hrx']
    dsimp only
    rw [OrderedMap.find?_insert, OrderedMap.find?_insert]
    split_ifs <;> rfl
  have hkeys : ∀ k, rx'.rxWindow.find? k ≠ none → k = a % 64 ∨ rx.rxWindow.find? k ≠ none :=
    fun k hk => by
      rw [hfind] at hk
      split_ifs at hk with hka
      · exact Or.inl hka
      · exact Or.inr hk
  have hat : ∀ {b : ℕ}, b = a → Entry t ps b (Function.update since a A b)
      (rx'.rxWindow.find? (b % 64)) := by
    rintro b rfl
    rw [hfind, if_pos rfl, Function.update_self]
    exact hentry
  have hoff : ∀ {b : ℕ}, b ≠ a → b % 64 ≠ a % 64 →
      Entry t ps b (since b) (rx.rxWindow.find? (b % 64)) →
      Entry t ps b (Function.update since a A b) (rx'.rxWindow.find? (b % 64)) :=
    fun hba hmod hold => by
      rw [hfind, if_neg hmod]
      exact entry_update hba hold rfl
  rcases lt_or_ge a H with ha | ha
  · rw [hedges.updateWindow_of_lt rfl hlo ha, Nat.max_eq_left (by omega)]
    refine ⟨R, ⟨hedges, ?_, fun sn hsn => ?_, fun b hb hb' => ?_, fun b hb => ?_⟩, ?_⟩
    · rw [hrx']
      exact h.timer
    · rcases hkeys sn hsn with rfl | hold
      · exact ⟨a, rfl, hlo, ha⟩
      · exact h.keys sn hold
    · by_cases hba : b = a
      · exact hat hba
      · exact hoff hba (by omega) (h.entries b hb hb')
    · rw [Function.update_of_ne (by omega)]
      exact h.later b hb
    · rw [hrx']
  · have hkeys' : ∀ k, rx'.rxWindow.find? k ≠ none →
        ∃ b, b % 64 = k ∧ H ≤ b + 32 ∧ b < a + 1 := fun k hk => by
      rcases hkeys k hk with rfl | hold
      · exact ⟨a, rfl, by omega, by omega⟩
      · obtain ⟨b, hb, hb₁, hb₂⟩ := h.keys k hold
        exact ⟨b, hb, hb₁, by omega⟩
    obtain ⟨R', hedges', hRR', htimer, hdelivered, hkept, hkeys''⟩ :=
      hedges.updateWindow rfl ha hhi hkeys' (by rw [hfind, if_pos rfl]; simp)
    rw [Nat.max_eq_right (by omega)]
    refine ⟨R', ⟨hedges', htimer, hkeys'', fun b hb hb' => ?_, fun b hb => ?_⟩, ?_⟩
    · have hwindow' := hedges'.window
      rw [hkept b (by omega) hb']
      by_cases hba : b = a
      · exact hat hba
      · refine hoff hba (by omega) ?_
        rcases lt_or_ge b H with hbH | hbH
        · exact h.entries b (hRR'.trans hb) hbH
        · rw [entry_none h hbH (by omega)]
          exact h.later b hbH
    · rw [Function.update_of_ne (by omega)]
      exact h.later b (by omega)
    · rw [hdelivered, hrx']

theorem Window.segment (hsent : Sent t n ps) (h : Window t ps rx R H since) (hk : k ∈ withSn ps a)
    (hR : R ≤ a) (hlo : H ≤ a + 32) (hhi : a < H + 32) :
    ∃ rx' R' A, (rx.placePdu ((nth ps k).pdu (t.unit (nth ps k).sdu))).handleRxBufferUpdate
        (a % 64) = some rx' ∧
      Window t ps rx' R' (max H (a + 1)) (Function.update since a A) ∧
      ((A = ∅ ∧ rx'.delivered = rx.delivered ++ [t.unit (nth ps k).sdu] ∧
          withSn ps a ⊆ insert k (since a)) ∨
        (A = insert k (since a) ∧ rx'.delivered = rx.delivered ∧
          ((nth ps k).sdu < n → ¬ withSn ps a ⊆ insert k (since a)))) := by
  obtain ⟨u, hu⟩ : ∃ u, u = t.unit (nth ps k).sdu := ⟨_, rfl⟩
  obtain ⟨p, hp⟩ : ∃ p, p = (rx.rxWindow.find? (a % 64)).getD .empty := ⟨_, rfl⟩
  have hsame : ∀ l ∈ withSn ps a, (nth ps l).sdu = (nth ps k).sdu :=
    fun l hl => hsent.cut.sdu_eq_of_sn hl hk
  have hsegs := segments hsent hsame
  have hcollects := h.entry hsent hk hR hhi
  have hplace : rx.placePdu ((nth ps k).pdu u) = { rx with
      rxWindow := rx.rxWindow.insert (a % 64) (p.place ((nth ps k).pdu u)) } := by
    have hsn : ((nth ps k).pdu u).header.sn = a % 64 := by
      simp [pdu, header, hk.2]
    unfold placePdu
    rw [hsn, hp]
  have hfind : (rx.placePdu ((nth ps k).pdu u)).rxWindow.find? (a % 64) =
      some (p.place ((nth ps k).pdu u)) := by
    rw [hplace]
    dsimp only
    rw [OrderedMap.find?_insert, if_pos rfl]
  rw [← hp] at hcollects
  rw [← hu] at hsegs hcollects ⊢
  unfold handleRxBufferUpdate
  rw [hfind]
  dsimp only
  rcases hcollects.assemble_place hsegs hk with
    ⟨p', hwaiting, hcollects', hstuck⟩ | ⟨hcomplete, hall, hne⟩
  · rw [hwaiting]
    have hentry : Entry t ps a (insert k (since a)) (some p') :=
      ⟨(nth ps k).sdu, hsame, hu ▸ hcollects', hstuck⟩
    obtain ⟨R', hwindow, hdelivered⟩ := h.wait hlo hhi rfl hentry
    rw [hplace]
    refine ⟨_, R', _, rfl, hwindow, Or.inr ⟨rfl, hdelivered, fun hn => ?_⟩⟩
    have hcovers := hsent.cut.covers hn (a := a)
      (fun l hl hsdu => ⟨hl, (hsent.cut.sn_eq_of_sdu hl hk.1 hsdu).trans hk.2⟩) hsame
    rw [← hu] at hcovers
    exact hcollects'.not_all hstuck hcovers
  · rw [hcomplete]
    have ha : a < H := by
      by_contra hge
      rw [h.later a (not_lt.mp hge)] at hne
      exact absurd hne Set.not_nonempty_empty
    obtain ⟨R', hwindow, hdelivered⟩ := h.deliver hR ha rfl u
    rw [hplace, Nat.max_eq_left (by omega)]
    exact ⟨_, R', ∅, rfl, hwindow, Or.inl ⟨rfl, hdelivered, hall⟩⟩

/-- The receiver has delivered the SDUs `ids` of a transmission. -/
structure Settled (t : Transmission) (n : ℕ) (ps : List UmNrPiece) (r : Reception) (R H : ℕ)
    (since : ℕ → Set ℕ) (ids : List ℕ) : Prop where
  window : Window t ps r.rx R H since
  ledger : Ledger ps n r.accepted since ids
  delivered : r.rx.delivered = ids.map t.unit
  bound : ∀ i ∈ ids, i < t.accepted.length

variable {r : Reception}

theorem settled_start (hsent : Sent t n ps) :
    Settled t n ps (.start .size6bits) 0 0 (fun _ => ∅) [] where
  window := window_configure
  ledger :=
    { subset := fun _ => Set.empty_subset _
      counts := fun _ _ => le_refl 0
      strict := fun _ _ h => absurd h (Set.notMem_empty _)
      kept := List.forall_mem_nil _
      complete := fun i hi hall => by
        obtain ⟨p, hp, hsdu, -⟩ := hsent.cut.first i (Or.inl hi)
        obtain ⟨k, hk, rfl⟩ := exists_nth hp
        exact absurd (hall k hk hsdu) List.not_mem_nil }
  delivered := rfl
  bound := List.forall_mem_nil _

theorem sent_getElem (hsent : Sent t n ps) {k : ℕ} (hk : k < ps.length) :
    t.sent[k]? = some ⟨(nth ps k).encode (t.unit (nth ps k).sdu), (nth ps k).sdu,
      (nth ps k).sn⟩ := by
  rw [hsent.sent, List.getElem?_map, nth, List.getD_eq_getElem _ _ hk,
    List.getElem?_eq_getElem hk]
  rfl

theorem Settled.pdu (hsent : Sent t n ps) (h : Settled t n ps r R H since ids)
    (hk : k < ps.length) (hnear : Near 32 H (nth ps k).sn) :
    ∃ r' R' since' ids', r.step t.sent (.pdu k) = some r' ∧
      Settled t n ps r' R' (raise H (nth ps k).sn) since' ids' ∧
      (r'.accepted = r.accepted ∨ r'.accepted = r.accepted ++ [k]) := by
  obtain ⟨u, hu⟩ : ∃ u, u = t.unit (nth ps k).sdu := ⟨_, rfl⟩
  have hsize := h.window.edges.snSize
  have hlen : u.length < 2 ^ 16 := hu ▸ (hsent.length_unit _).trans bufferTailroom_lt
  have hfits : (nth ps k).Fits u.length := hu ▸ hsent.cut.fits _ (nth_mem hk)
  have hsdu : (nth ps k).sdu < t.accepted.length := hsent.sdu_lt_accepted (nth_mem hk)
  have hbound : ∀ i ∈ ids ++ [(nth ps k).sdu], i < t.accepted.length := fun i hi => by
    rcases List.mem_append.mp hi with hi | hi
    · exact h.bound i hi
    · exact List.mem_singleton.mp hi ▸ hsdu
  have hmap : r.rx.delivered ++ [u] = (ids ++ [(nth ps k).sdu]).map t.unit := by
    rw [List.map_append, h.delivered, hu]
    rfl
  have haccepts := accepts_encode hsize hfits hlen
  have hstep : r.step t.sent (.pdu k) = (r.rx.handleDataPdu ((nth ps k).encode u)).map fun rx =>
      { rx := rx
        accepted := if r.rx.accepts ((nth ps k).encode u) then r.accepted ++ [k]
          else r.accepted } := by
    unfold Reception.step
    dsimp only
    rw [sent_getElem hsent hk, ← hu]
    rfl
  rw [hstep, handleDataPdu_encode hsize hfits hlen]
  cases hsn : (nth ps k).sn with
  | none =>
    rw [if_pos rfl, Option.map_some, if_pos (haccepts.mpr (Or.inl hsn))]
    have hw := h.window
    refine ⟨_, R, since, _, rfl, ⟨?_, h.ledger.full hsent.cut hk hsn, hmap, hbound⟩, Or.inr rfl⟩
    exact ⟨⟨hw.edges.snSize, hw.edges.highest, hw.edges.next, hw.edges.le, hw.edges.window⟩,
      hw.timer, hw.keys, hw.entries, hw.later⟩
  | some a =>
    rw [hsn] at hnear haccepts
    obtain ⟨hlo, hhi⟩ := hnear
    have hinvalid := h.window.edges.snInvalidForRxBuffer_iff (Nat.mod_mod a 64) hlo hhi
    rw [if_neg (show ¬ some a = none by simp), Option.getD_some]
    have hka : k ∈ withSn ps a := ⟨hk, hsn⟩
    by_cases haR : a < R
    · have hle := h.window.edges.le
      have hrefuse : ¬ r.rx.accepts ((nth ps k).encode u) = true := fun hacc => by
        rcases haccepts.mp hacc with hnone | hvalid
        · cases hnone
        · exact hvalid (hinvalid.mpr haR)
      have hraise : raise H (some a) = H := Nat.max_eq_left (by omega)
      rw [if_pos (hinvalid.mpr haR), Option.map_some, if_neg hrefuse, hraise]
      exact ⟨_, R, since, ids, rfl, h, Or.inl rfl⟩
    · have hvalid : ¬ r.rx.snInvalidForRxBuffer (a % 64) = true := fun h => haR (hinvalid.mp h)
      obtain ⟨rx', R', A, hrx', hwindow, houtcome⟩ :=
        h.window.segment hsent hka (not_lt.mp haR) hlo hhi
      rw [← hu] at hrx' houtcome
      rw [if_neg hvalid, hrx', Option.map_some, if_pos (haccepts.mpr (Or.inr hvalid))]
      rcases houtcome with ⟨rfl, hdelivered, hall⟩ | ⟨rfl, hdelivered, hwait⟩
      · exact ⟨_, R', _, _, rfl, ⟨hwindow, h.ledger.deliver hsent.cut hka hall,
          hdelivered.trans hmap, hbound⟩, Or.inr rfl⟩
      · exact ⟨_, R', _, ids, rfl, ⟨hwindow, h.ledger.wait hsent.cut hka hwait,
          hdelivered.trans h.delivered, h.bound⟩, Or.inr rfl⟩

theorem Settled.expiry (h : Settled t n ps r R H since ids) :
    ∃ r' R', r.step t.sent .expiry = some r' ∧ Settled t n ps r' R' H since ids ∧
      r'.accepted = r.accepted := by
  unfold Reception.step
  split_ifs with hrunning
  · obtain ⟨hwindow, hdelivered⟩ := h.window.timerExpired hrunning
    exact ⟨_, H, rfl, ⟨hwindow, h.ledger, hdelivered.trans h.delivered, h.bound⟩, rfl⟩
  · exact ⟨r, R, rfl, h, rfl⟩

theorem Settled.run (hsent : Sent t n ps) {events : List Event}
    (hevents : InWindow 32 t.sent H events) (h : Settled t n ps r R H since ids) :
    ∃ r' R' H' since' ids', events.foldlM (Reception.step t.sent) r = some r' ∧
      Settled t n ps r' R' H' since' ids' ∧
      ∃ as, r'.accepted = r.accepted ++ as ∧ as.Sublist (arrivals events) := by
  induction events generalizing r R H since ids with
  | nil => exact ⟨r, R, H, since, ids, rfl, h, [], (List.append_nil _).symm, List.Sublist.refl _⟩
  | cons event events ih =>
    cases event with
    | pdu k =>
      obtain ⟨hk, hnear, hrest⟩ := hevents
      have hk' : k < ps.length := by rwa [hsent.sent, List.length_map] at hk
      have hsn : snAt t.sent k = (nth ps k).sn := by
        rw [snAt, sent_getElem hsent hk']
        rfl
      rw [hsn] at hnear hrest
      obtain ⟨r', R', since', ids', hstep, hsettled, haccepted⟩ := h.pdu hsent hk' hnear
      obtain ⟨r'', R'', H'', since'', ids'', hrun, hsettled', as, has, hsub⟩ := ih hrest hsettled
      refine ⟨r'', R'', H'', since'', ids'', ?_, hsettled', ?_⟩
      · rw [List.foldlM_cons, hstep]
        exact hrun
      · rcases haccepted with hsame | hnew
        · exact ⟨as, by rw [has, hsame], hsub.cons k⟩
        · exact ⟨k :: as, by rw [has, hnew, List.append_assoc]; rfl, hsub.cons_cons k⟩
    | expiry =>
      obtain ⟨r', R', hstep, hsettled, haccepted⟩ := h.expiry
      obtain ⟨r'', R'', H'', since'', ids'', hrun, hsettled', as, has, hsub⟩ := ih hevents hsettled
      refine ⟨r'', R'', H'', since'', ids'', ?_, hsettled', as, by rw [has, haccepted], hsub⟩
      rw [List.foldlM_cons, hstep]
      exact hrun

/-- The receiver delivers SDUs as they were written, each at most as often as any one of its PDUs
is accepted, and all whose PDUs are accepted. -/
theorem delivers_accepted (txQueueLength : ℕ) {sends : List RlcUmNrTx.Event}
    (hsends : EventRun.Along Transmission.step Regular (.start .size6bits txQueueLength) sends)
    {events : List Event}
    (hevents : InWindow UmNrSnSize.size6bits.umWindowSize
      (transmit .size6bits txQueueLength sends).sent 0 events) :
    ∃ (r : Reception) (ids : List ℕ),
      receive .size6bits (transmit .size6bits txQueueLength sends).sent events = some r ∧
      r.accepted.Sublist (arrivals events) ∧
      r.rx.delivered = ids.map (transmit .size6bits txQueueLength sends).unit ∧
      (∀ i ∈ ids, i < (transmit .size6bits txQueueLength sends).accepted.length) ∧
      (∀ k s, (transmit .size6bits txQueueLength sends).sent[k]? = some s →
        ids.count s.sdu ≤ r.accepted.count k) ∧
      ∀ i < (transmit .size6bits txQueueLength sends).sdusSent,
        (∀ k s, (transmit .size6bits txQueueLength sends).sent[k]? = some s → s.sdu = i →
          k ∈ r.accepted) → i ∈ ids := by
  obtain ⟨n, ps, hsent⟩ := transmit_pieces hsends
  obtain ⟨r, R, H, since, ids, hrun, hsettled, as, has, hsub⟩ :=
    (settled_start hsent).run hsent hevents
  refine ⟨r, ids, hrun, ?_, hsettled.delivered, hsettled.bound, fun k s hs => ?_,
    fun i hi hall => ?_⟩
  · rw [has]
    exact hsub
  · have hk : k < ps.length := by
      rw [hsent.sent, List.getElem?_map, Option.map_eq_some_iff] at hs
      obtain ⟨p, hp, -⟩ := hs
      exact (List.getElem?_eq_some_iff.mp hp).1
    rw [sent_getElem hsent hk] at hs
    rw [← Option.some.inj hs]
    exact hsettled.ledger.counts k hk
  · rw [hsent.sdusSent_eq] at hi
    exact hsettled.ledger.complete i hi fun k hk hsdu => hall k _ (sent_getElem hsent hk) hsdu

def segmentedThenFull : List RlcUmNrTx.Event :=
  [.writeSdu [1, 2, 3, 4, 5], .writeSdu [6], .readPdu 4, .readPdu 4, .readPdu 5]

theorem segmentedThenFull_regular :
    EventRun.Along Transmission.step Regular (.start .size6bits 4) segmentedThenFull :=
  ⟨by decide, by decide, by decide, by decide, by decide, trivial⟩

/-- Two SDUs, the first one in two segments that arrive in the wrong order, one of them twice. -/
theorem delivers_accepted_reordered :
    ∃ (r : Reception) (ids : List ℕ),
      receive .size6bits (transmit .size6bits 4 segmentedThenFull).sent
        [.pdu 1, .pdu 1, .pdu 0, .pdu 2, .expiry] = some r ∧
      r.accepted.Sublist [1, 1, 0, 2] ∧
      r.rx.delivered = ids.map (transmit .size6bits 4 segmentedThenFull).unit ∧
      (∀ i ∈ ids, i < 2) ∧
      (∀ k s, (transmit .size6bits 4 segmentedThenFull).sent[k]? = some s →
        ids.count s.sdu ≤ r.accepted.count k) ∧
      ∀ i < 2, (∀ k s, (transmit .size6bits 4 segmentedThenFull).sent[k]? = some s → s.sdu = i →
        k ∈ r.accepted) → i ∈ ids :=
  delivers_accepted 4 segmentedThenFull_regular (by decide +kernel)

theorem sent_full_buffer (rep : ℕ → Bytes) (hlen : ∀ n, (rep n).length = n)
    (htake : ∀ k n, (rep n).take k = rep (min k n))
    (hdrop : ∀ k n, (rep n).drop k = rep (n - k)) :
    (transmit .size6bits 4 [.writeSdu (rep bufferTailroom), .readPdu 6000, .readPdu 9000]).sent =
      [⟨0x40 :: rep 5999, 0, some 0⟩, ⟨0x80 :: 0x17 :: 0x6F :: rep 6238, 0, some 0⟩] := by
  have hroom : bufferTailroom = 12237 := rfl
  simp [transmit, Transmission.start, Transmission.step, RlcUmNrTx.configure, RlcUmNrTx.writeSdu,
    RlcUmNrTx.accepts, RlcUmNrTx.buildDataPdu, RlcUmNrTx.headLen, RlcUmNrTx.pullSdu,
    RlcUmNrTx.addSegment, RlcUmNrTx.submit, RlcUmNrTx.toMove, RlcUmTx.remainder,
    Transmission.record, Transmission.sdusSent, UmNrPduHeader.packedLength, UmNrPduHeader.write,
    UmNrPduHeader.fields, UmNrPduHeader.read, NrSiField.code, NrSiField.ofCode, hroom, hlen, htake,
    hdrop]

/-- SDUs that the receiver delivers twice, without the last byte, never, and never: a full SDU has
no sequence number, headers with 12 bits are not written completely, `next_so` is not reset after
a full SDU, and the delivery of one SDU gives up those that follow. -/
theorem delivery_fails :
    (receive .size6bits (transmit .size6bits 4 [.writeSdu [1, 2, 3], .readPdu 10]).sent
      [.pdu 0, .pdu 0]).map (fun r => r.rx.delivered) = some [[1, 2, 3], [1, 2, 3]] ∧
    (receive .size12bits (transmit .size12bits 4 [.writeSdu [1, 2, 3], .readPdu 10]).sent
      [.pdu 0]).map (fun r => r.rx.delivered) = some [[1, 2]] ∧
    (receive .size6bits (transmit .size6bits 4 [.writeSdu [1, 2, 3], .readPdu 10,
        .writeSdu [4, 5, 6, 7, 8], .readPdu 4, .readPdu 10]).sent
      [.pdu 0, .pdu 1, .pdu 2]).map (fun r => r.rx.delivered) = some [[1, 2, 3]] ∧
    (receive .size6bits (transmit .size6bits 4 [.writeSdu [1, 2, 3, 4, 5], .readPdu 4, .readPdu 4,
        .writeSdu [6, 7, 8, 9, 10], .readPdu 4, .readPdu 4]).sent
      [.pdu 0, .pdu 2, .pdu 1, .pdu 3]).map (fun r => r.rx.delivered) = some [[1, 2, 3, 4, 5]] ∧
    receive .size6bits (transmit .size6bits 4 [.writeSdu (List.replicate bufferTailroom 0),
        .readPdu 6000, .readPdu 9000]).sent [.pdu 0, .pdu 1] = none := by
  refine ⟨by decide +kernel, by decide +kernel, by decide +kernel, by decide +kernel, ?_⟩
  have hsent : (transmit .size6bits 4 [.writeSdu (List.replicate bufferTailroom 0),
      .readPdu 6000, .readPdu 9000]).sent = [⟨0x40 :: List.replicate 5999 0, 0, some 0⟩,
        ⟨0x80 :: 0x17 :: 0x6F :: List.replicate 6238 0, 0, some 0⟩] :=
    sent_full_buffer (List.replicate · 0) (fun _ => List.length_replicate)
      (fun _ _ => List.take_replicate) fun _ _ => List.drop_replicate
  rw [hsent]
  decide +kernel

end RlcUmNrRx
end SrsLte
