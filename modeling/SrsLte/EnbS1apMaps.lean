import SrsLte.EnbS1ap
import SrsLte.EventRun

/-!
# The identity maps of the eNB

The two maps of the S1AP layer agree in a run exactly as long as no RNTI registers twice, no zombie
context is released, and the handover messages name a known UE. Then every message of the MME acts
on the UE whose identity it carries.
-/

namespace SrsLte

def EnbAction.rnti : EnbAction → Option ℕ
  | .writeDlInfo rnti _ => some rnti
  | .setupUeCtxt rnti => some rnti
  | .setupUeErabs rnti => some rnti
  | .modifyUeCtxt rnti => some rnti
  | .releaseErabs rnti => some rnti
  | .releaseComplete rnti => some rnti
  | .hoPreparationComplete rnti _ => some rnti
  | .addPagingId _ => none
  | .send rnti _ _ _ => some rnti

namespace EnbS1ap

def Event.enbId : Event → Option ℕ
  | .dlNasTransport id _ _ => some id
  | .initialCtxtSetupRequest id _ _ => some id
  | .erabSetupRequest id _ => some id
  | .ueContextModifyRequest id _ _ => some id
  | .releaseByPair id _ => some id
  | .hoPreparationFailure id _ => some id
  | .s1HoCommand id _ => some id
  | _ => none

def Consistent (s : EnbS1ap) : Prop :=
  ∀ id rnti, s.enbidToRntiMap.find? id = some rnti ↔
    ∃ ctxt, s.users.find? rnti = some ctxt ∧ ctxt.enbUeS1apId = id

structure ActsOn (s : EnbS1ap) (h : Handled) (rnti : ℕ) : Prop where
  actions : ∀ a ∈ h.actions, a.rnti = some rnti
  others : ∀ r, r ≠ rnti → h.s1ap.users.find? r = s.users.find? r

/-- A message acts on a UE of which `owns` holds, or there is none and it changes nothing. -/
def Served (s : EnbS1ap) (h : Handled) (owns : EnbUeCtxt → Prop) : Prop :=
  (∃ rnti ctxt, s.users.find? rnti = some ctxt ∧ owns ctxt ∧ ActsOn s h rnti) ∨
    (∀ rnti ctxt, s.users.find? rnti = some ctxt → ¬ owns ctxt) ∧ h.s1ap = s ∧ h.actions = []

/-- The event is handled without a fault, the maps agree afterwards, and a message acts on the UE
whose identity it carries. An MME-UE-S1AP-ID is an identity only where the MME has assigned it. -/
def Right (s : EnbS1ap) (e : Env × Event) : Prop :=
  ∃ h, s.handle e.1 e.2 = .ok h ∧ Consistent h.s1ap ∧
    (∀ id, e.2.enbId = some id → Served s h fun ctxt => ctxt.enbUeS1apId = id) ∧
    ∀ id, e.2 = .releaseByMmeId id →
      Served s h fun ctxt => ctxt.mmeAssigned = true ∧ ctxt.mmeUeS1apId = id

def UnassignedFirst (s : EnbS1ap) : Prop :=
  ∃ rnti ctxt, s.users.find? rnti = some ctxt ∧ ctxt.mmeAssigned = false ∧
    ∀ r ctxt', r < rnti → s.users.find? r = some ctxt' → ctxt'.mmeUeS1apId ≠ 0

def Orderly (s : EnbS1ap) (e : Env × Event) : Prop :=
  match e.2 with
  | .initialUe rnti =>
    s.users.find? rnti = none ∧ s.enbidToRntiMap.find? s.nextEnbUeS1apId = none ∨
      ∃ ctxt, s.users.find? rnti = some ctxt ∧ ctxt.enbUeS1apId = s.nextEnbUeS1apId
  | .userRelease rnti => ∀ ctxt, s.users.find? rnti = some ctxt → ctxt.releaseRequested = false
  | .releaseByMmeId id => id ≠ 0 ∨ ¬ s.UnassignedFirst
  | .hoPreparationFailure id _ =>
    ∃ rnti ctxt, s.users.find? rnti = some ctxt ∧ ctxt.enbUeS1apId = id
  | .s1HoCommand id _ => ∃ rnti ctxt, s.users.find? rnti = some ctxt ∧ ctxt.enbUeS1apId = id
  | _ => True

structure Inv (s : EnbS1ap) : Prop where
  consistent : s.Consistent
  rnti : ∀ {r ctxt}, s.users.find? r = some ctxt → ctxt.rnti = r
  unassigned : ∀ {r ctxt}, s.users.find? r = some ctxt → ctxt.mmeAssigned = false →
    ctxt.mmeUeS1apId = 0

theorem inv_init : init.Inv where
  consistent id rnti := by simp [init]
  rnti h := by simp [init] at h
  unassigned h := by simp [init] at h

variable {s : EnbS1ap} {env : Env} {rnti id : ℕ} {ctxt ctxt' : EnbUeCtxt}

theorem find?_setUser (r : ℕ) :
    (s.setUser rnti ctxt').users.find? r = if r = rnti then some ctxt' else s.users.find? r :=
  OrderedMap.find?_insert s.users rnti r ctxt'

theorem Inv.setUser (h : s.Inv) (hctxt : s.users.find? rnti = some ctxt)
    (hid : ctxt'.enbUeS1apId = ctxt.enbUeS1apId) (hrnti : ctxt'.rnti = ctxt.rnti)
    (hassigned : ctxt'.mmeAssigned = false → ctxt'.mmeUeS1apId = 0) :
    (s.setUser rnti ctxt').Inv where
  consistent id r := by
    rw [find?_setUser]
    refine (h.consistent id r).trans ?_
    by_cases hr : r = rnti
    · rw [if_pos hr, hr, hctxt]
      simp only [Option.some.injEq, exists_eq_left', hid]
    · rw [if_neg hr]
  rnti {r found} hfind := by
    rw [find?_setUser] at hfind
    split_ifs at hfind with hr
    · obtain rfl := Option.some.inj hfind
      rw [hrnti, hr]
      exact h.rnti hctxt
    · exact h.rnti hfind
  unassigned {r found} hfind := by
    rw [find?_setUser] at hfind
    split_ifs at hfind with hr
    · obtain rfl := Option.some.inj hfind
      exact hassigned
    · exact h.unassigned hfind

theorem others_setUser (r : ℕ) (hr : r ≠ rnti) :
    (s.setUser rnti ctxt').users.find? r = s.users.find? r := by
  rw [find?_setUser, if_neg hr]

theorem Inv.release (h : s.Inv) (hctxt : s.users.find? rnti = some ctxt) :
    Inv { s with
      users := s.users.erase rnti
      enbidToRntiMap := s.enbidToRntiMap.erase ctxt.enbUeS1apId } where
  consistent id r := by
    change (s.enbidToRntiMap.erase ctxt.enbUeS1apId).find? id = some r ↔
      ∃ c, (s.users.erase rnti).find? r = some c ∧ c.enbUeS1apId = id
    rw [OrderedMap.find?_erase, OrderedMap.find?_erase]
    have hown : s.enbidToRntiMap.find? ctxt.enbUeS1apId = some rnti :=
      (h.consistent _ _).mpr ⟨ctxt, hctxt, rfl⟩
    by_cases hr : r = rnti
    · rw [if_pos hr]
      simp only [reduceCtorEq, false_and, exists_false, iff_false]
      split_ifs with hid
      · simp
      · intro hfind
        obtain ⟨c, hc, hcid⟩ := (h.consistent id r).mp hfind
        rw [hr, hctxt] at hc
        obtain rfl := Option.some.inj hc
        exact hid hcid.symm
    · rw [if_neg hr]
      split_ifs with hid
      · refine ⟨fun hnone => (by cases hnone), fun hc => ?_⟩
        have hfind := (h.consistent id r).mpr hc
        rw [hid, hown] at hfind
        exact absurd (Option.some.inj hfind).symm hr
      · exact h.consistent id r
  rnti {r found} hfind := by
    change (s.users.erase rnti).find? r = some found at hfind
    rw [OrderedMap.find?_erase] at hfind
    split_ifs at hfind
    exact h.rnti hfind
  unassigned {r found} hfind := by
    change (s.users.erase rnti).find? r = some found at hfind
    rw [OrderedMap.find?_erase] at hfind
    split_ifs at hfind
    exact h.unassigned hfind

theorem sendFor_ok (env : Env) (hctxt : s.users.find? rnti = some ctxt) (msg : UeMessage) :
    ∃ actions ret, s.sendFor env rnti msg = .ok (actions, ret) ∧
      ∀ a ∈ actions, a.rnti = some rnti := by
  unfold sendFor getUserCtxt
  rw [hctxt]
  cases s.mmeConnected with
  | false => exact ⟨[], false, rfl, List.forall_mem_nil _⟩
  | true =>
    cases henv : env.sent with
    | false => exact ⟨[], false, rfl, List.forall_mem_nil _⟩
    | true =>
      refine ⟨_, true, rfl, fun a ha => ?_⟩
      rw [List.mem_singleton.mp ha]
      rfl

theorem getUserCtxt_eq (hctxt : s.users.find? rnti = some ctxt) :
    s.getUserCtxt rnti = .ok ctxt := by
  rw [getUserCtxt, hctxt]

def Acts (s : EnbS1ap) (result : Result) (rnti : ℕ) : Prop :=
  ∃ h, result = .ok h ∧ h.s1ap.Inv ∧ ActsOn s h rnti

theorem Acts.of_setUser {result : Result} {c : EnbUeCtxt}
    (h : Acts (s.setUser rnti c) result rnti) : Acts s result rnti := by
  obtain ⟨out, hresult, hinv, hacts⟩ := h
  exact ⟨out, hresult, hinv, hacts.actions, fun r hr =>
    (hacts.others r hr).trans (others_setUser r hr)⟩

variable {actions : List EnbAction} {ret : Bool} {e : Env × Event}

section

variable (h : s.Inv)
include h

theorem acts_setUser
    (hctxt : s.users.find? rnti = some ctxt) (hid : ctxt'.enbUeS1apId = ctxt.enbUeS1apId)
    (hrnti : ctxt'.rnti = ctxt.rnti)
    (hassigned : ctxt'.mmeAssigned = false → ctxt'.mmeUeS1apId = 0)
    (hactions : ∀ a ∈ actions, a.rnti = some rnti) :
    Acts s (.ok ⟨s.setUser rnti ctxt', actions, ret⟩) rnti :=
  ⟨_, rfl, h.setUser hctxt hid hrnti hassigned, hactions, others_setUser⟩

theorem acts_self
    (hactions : ∀ a ∈ actions, a.rnti = some rnti) : Acts s (.ok ⟨s, actions, ret⟩) rnti :=
  ⟨_, rfl, h, hactions, fun _ _ => rfl⟩

section

variable (hctxt : s.users.find? rnti = some ctxt)
include hctxt

theorem Inv.assign (mmeUeS1apId : ℕ) :
    (s.assignMmeId rnti ctxt mmeUeS1apId).1.Inv ∧
      (s.assignMmeId rnti ctxt mmeUeS1apId).1.users.find? rnti =
        some (s.assignMmeId rnti ctxt mmeUeS1apId).2 :=
  ⟨h.setUser hctxt rfl rfl fun hfalse => (by cases hfalse), by
    unfold assignMmeId
    dsimp only
    rw [find?_setUser, if_pos rfl]⟩

theorem acts_requestRelease (csFallback : Bool)
    (hactions : ∀ a ∈ actions, a.rnti = some rnti) :
    Acts s (s.requestRelease env rnti ctxt csFallback actions) rnti := by
  unfold requestRelease
  split_ifs
  · have hunassigned : ctxt.mmeAssigned = false → ctxt.mmeUeS1apId = 0 := h.unassigned hctxt
    have hfind : (s.setUser rnti { ctxt with releaseRequested := true }).users.find? rnti =
        some { ctxt with releaseRequested := true } := by rw [find?_setUser, if_pos rfl]
    obtain ⟨more, ret, hsend, hmore⟩ := sendFor_ok env hfind .ueContextReleaseRequest
    dsimp only
    rw [hsend]
    refine acts_setUser h hctxt rfl rfl hunassigned fun a ha => ?_
    exact (List.mem_append.mp ha).elim (hactions a) (hmore a)
  · exact acts_self h hactions

theorem acts_completeHoPrep
    (success ret : Bool) : Acts s (.ok (s.completeHoPrep rnti ctxt success ret)) rnti := by
  unfold completeHoPrep
  split_ifs
  · have hunassigned : ctxt.mmeAssigned = false → ctxt.mmeUeS1apId = 0 := h.unassigned hctxt
    refine acts_setUser h hctxt rfl rfl hunassigned fun a ha => ?_
    rw [List.mem_singleton.mp ha, EnbAction.rnti, h.rnti hctxt]
  · exact acts_self h (List.forall_mem_nil _)

end

section

variable (hmap : s.enbidToRntiMap.find? id = some rnti) (hctxt : s.users.find? rnti = some ctxt)
  (mmeUeS1apId : ℕ)
include hmap hctxt mmeUeS1apId

theorem acts_handleDlNasTransport (nasPdu : Bytes) :
    Acts s (s.handleDlNasTransport env id mmeUeS1apId nasPdu) rnti := by
  unfold handleDlNasTransport
  rw [hmap]
  dsimp only
  rw [getUserCtxt_eq hctxt]
  change Acts s (if env.allocated then _ else _) rnti
  split_ifs
  · refine acts_setUser h hctxt rfl rfl (fun hfalse => by cases hfalse) fun a ha => ?_
    rw [List.mem_singleton.mp ha]
    rfl
  · exact acts_setUser h hctxt rfl rfl (fun hfalse => by cases hfalse)
      (List.forall_mem_nil _)

theorem acts_handleInitialCtxtSetupRequest (csFallback : Bool) :
    Acts s (s.handleInitialCtxtSetupRequest env id mmeUeS1apId csFallback) rnti := by
  have hsetup : ∀ a ∈ [EnbAction.setupUeCtxt rnti], a.rnti = some rnti := fun a ha => by
    rw [List.mem_singleton.mp ha]
    rfl
  obtain ⟨hinv, hfind⟩ := h.assign hctxt mmeUeS1apId
  unfold handleInitialCtxtSetupRequest
  rw [hmap]
  dsimp only
  rw [getUserCtxt_eq hctxt]
  change Acts s (if env.rrc then _ else _) rnti
  refine Acts.of_setUser (c := (s.assignMmeId rnti ctxt mmeUeS1apId).2) ?_
  split_ifs
  · exact acts_requestRelease hinv hfind csFallback hsetup
  · exact acts_self hinv hsetup

theorem acts_handleErabSetupRequest :
    Acts s (s.handleErabSetupRequest env id mmeUeS1apId) rnti := by
  unfold handleErabSetupRequest
  rw [hmap]
  dsimp only
  rw [getUserCtxt_eq hctxt]
  refine acts_setUser h hctxt rfl rfl (fun hfalse => by cases hfalse) fun a ha => ?_
  rw [List.mem_singleton.mp ha]
  rfl

theorem acts_handleUeContextModifyRequest (csFallback : Bool) :
    Acts s (s.handleUeContextModifyRequest env id mmeUeS1apId csFallback) rnti := by
  obtain ⟨hinv, hfind⟩ := h.assign hctxt mmeUeS1apId
  have hmodify : ∀ actions : List EnbAction, (∀ a ∈ actions, a.rnti = some rnti) →
      ∀ a ∈ EnbAction.modifyUeCtxt rnti :: actions, a.rnti = some rnti := by
    intro actions hactions a ha
    rcases List.mem_cons.mp ha with rfl | ha
    · rfl
    · exact hactions a ha
  unfold handleUeContextModifyRequest
  rw [hmap]
  dsimp only
  rw [getUserCtxt_eq hctxt]
  change Acts s (if env.rrc then _ else _) rnti
  refine Acts.of_setUser (c := (s.assignMmeId rnti ctxt mmeUeS1apId).2) ?_
  split_ifs
  · obtain ⟨actions, ret, hsend, hactions⟩ :=
      sendFor_ok env hfind .ueContextModificationResponse
    rw [hsend]
    exact acts_requestRelease hinv hfind csFallback (hmodify actions hactions)
  · obtain ⟨actions, ret, hsend, hactions⟩ :=
      sendFor_ok env hfind .ueContextModificationFailure
    rw [hsend]
    exact acts_self hinv (hmodify actions hactions)

end

theorem acts_releaseUser (hctxt : s.users.find? rnti = some ctxt) :
    Acts s (releaseUser
      { s with enbidToRntiMap := s.enbidToRntiMap.erase ctxt.enbUeS1apId } env rnti) rnti := by
  obtain ⟨actions, ret, hsend, hactions⟩ := sendFor_ok
    (s := { s with enbidToRntiMap := s.enbidToRntiMap.erase ctxt.enbUeS1apId }) env hctxt
    .ueContextReleaseComplete
  unfold releaseUser
  dsimp only
  rw [hctxt]
  dsimp only
  rw [hsend]
  refine ⟨_, rfl, h.release hctxt, fun a ha => ?_, fun r hr => ?_⟩
  · rcases List.mem_cons.mp ha with rfl | ha
    · rfl
    · rcases List.mem_append.mp ha with ha | ha
      · exact hactions a ha
      · rw [List.mem_singleton.mp ha]
        rfl
  · change (s.users.erase rnti).find? r = s.users.find? r
    rw [OrderedMap.find?_erase, if_neg hr]

section

variable (hmap : s.enbidToRntiMap.find? id = some rnti) (hctxt : s.users.find? rnti = some ctxt)
include hmap hctxt

theorem acts_handleReleaseByPair (hid : ctxt.enbUeS1apId = id) :
    Acts s (s.handleReleaseByPair env id) rnti := by
  unfold handleReleaseByPair
  rw [hmap, ← hid]
  exact acts_releaseUser h hctxt

theorem acts_handleHandover (success : Bool) :
    Acts s (s.handleHandover id success) rnti := by
  have hemplace : ∀ l, (s.enbidToRntiMap.emplace id 0).find? l = s.enbidToRntiMap.find? l := by
    intro l
    rw [OrderedMap.find?_emplace]
    split_ifs with hl
    · rw [hl, hmap]
      rfl
    · rfl
  have hinv : Inv { s with enbidToRntiMap := s.enbidToRntiMap.emplace id 0 } :=
    ⟨fun l r => (by rw [hemplace]; exact h.consistent l r), h.rnti, h.unassigned⟩
  unfold handleHandover subscript
  dsimp only
  rw [hmap, Option.getD_some, hctxt]
  dsimp only
  obtain ⟨out, hout, houtInv, hacts⟩ := acts_completeHoPrep (s := { s with
    enbidToRntiMap := s.enbidToRntiMap.emplace id 0 }) hinv hctxt success true
  exact ⟨out, hout, houtInv, hacts.actions, hacts.others⟩

end

end

theorem findMmeUeId_eq_some (h : s.findMmeUeId id = some ctxt) :
    ∃ rnti, s.users.find? rnti = some ctxt ∧ ctxt.mmeUeS1apId = id ∧
      ∀ r c, r < rnti → s.users.find? r = some c → c.mmeUeS1apId ≠ id := by
  obtain ⟨⟨rnti, found⟩, hfind, rfl⟩ := Option.map_eq_some_iff.mp h
  obtain ⟨hid, before, after, hentries, hbefore⟩ := List.find?_eq_some_iff_append.mp hfind
  have hmem : (rnti, found) ∈ s.users.entries := by
    rw [hentries]
    exact List.mem_append_right _ List.mem_cons_self
  refine ⟨rnti, OrderedMap.find?_eq_some_iff.mpr hmem, of_decide_eq_true hid, ?_⟩
  intro r c hr hc
  have hsorted := s.users.sorted
  have hmemr := OrderedMap.find?_eq_some_iff.mp hc
  rw [hentries] at hsorted hmemr
  have hlater := (List.pairwise_cons.mp (List.pairwise_append.mp hsorted).2.1).1
  rcases List.mem_append.mp hmemr with hin | hin
  · simpa using hbefore _ hin
  · rcases List.mem_cons.mp hin with heq | hin
    · exact absurd (congrArg Prod.fst heq) hr.ne
    · exact absurd (hlater _ hin) (Nat.lt_asymm hr)

theorem findMmeUeId_eq_none (h : s.findMmeUeId id = none)
    (hctxt : s.users.find? rnti = some ctxt) : ctxt.mmeUeS1apId ≠ id := by
  have hnone := List.find?_eq_none.mp (Option.map_eq_none_iff.mp h) _
    (OrderedMap.find?_eq_some_iff.mp hctxt)
  simpa using hnone

theorem mmeAssigned_of_find (h : s.Inv) (hfind : s.findMmeUeId id = some ctxt) :
    ctxt.mmeAssigned = true ↔ id ≠ 0 ∨ ¬ s.UnassignedFirst := by
  obtain ⟨rnti, hctxt, hid, hfirst⟩ := findMmeUeId_eq_some hfind
  constructor
  · intro hassigned
    by_cases hzero : id = 0
    · refine Or.inr ?_
      rintro ⟨r, c, hc, hunassigned, hbefore⟩
      have hcid := h.unassigned hc hunassigned
      rcases Nat.lt_trichotomy r rnti with hlt | heq | hgt
      · exact hfirst r c hlt hc (hcid.trans hzero.symm)
      · rw [heq, hctxt] at hc
        obtain rfl := Option.some.inj hc
        rw [hassigned] at hunassigned
        exact absurd hunassigned (by decide)
      · exact hbefore rnti ctxt hgt hctxt (hid.trans hzero)
    · exact Or.inl hzero
  · intro hor
    by_contra hnot
    have hunassigned : ctxt.mmeAssigned = false := Bool.eq_false_iff.mpr hnot
    have hzero : id = 0 := hid.symm.trans (h.unassigned hctxt hunassigned)
    rcases hor with hne | hfirst'
    · exact hne hzero
    · refine hfirst' ⟨rnti, ctxt, hctxt, hunassigned, fun r c hr hc => ?_⟩
      rw [← hzero]
      exact hfirst r c hr hc

theorem Acts.right (h : Acts s (s.handle e.1 e.2) rnti) (hctxt : s.users.find? rnti = some ctxt)
    (hid : ∀ id, e.2.enbId = some id → ctxt.enbUeS1apId = id)
    (hmme : ∀ id, e.2 = .releaseByMmeId id → ctxt.mmeAssigned = true ∧ ctxt.mmeUeS1apId = id) :
    s.Right e ∧ (s.step e).Inv := by
  obtain ⟨out, hout, hinv, hacts⟩ := h
  refine ⟨⟨out, hout, hinv.consistent, fun id he => Or.inl ⟨rnti, ctxt, hctxt, hid id he, hacts⟩,
    fun id he => Or.inl ⟨rnti, ctxt, hctxt, hmme id he, hacts⟩⟩, ?_⟩
  unfold step
  rw [hout]
  exact hinv

theorem right_of_ok {h : Handled} (hout : s.handle e.1 e.2 = .ok h)
    (hinv : h.s1ap.Inv) (hid : e.2.enbId = none) (hmme : ∀ id, e.2 ≠ .releaseByMmeId id) :
    s.Right e ∧ (s.step e).Inv := by
  refine ⟨⟨h, hout, hinv.consistent, fun id he => ?_, fun id he => absurd he (hmme id)⟩, ?_⟩
  · rw [hid] at he
    cases he
  · unfold step
    rw [hout]
    exact hinv

theorem right_of_unknown (h : s.Inv) (hout : s.handle e.1 e.2 = .ok ⟨s, [], ret⟩)
    (hid : ∀ id, e.2.enbId = some id → ∀ rnti ctxt, s.users.find? rnti = some ctxt →
      ctxt.enbUeS1apId ≠ id)
    (hmme : ∀ id, e.2 = .releaseByMmeId id → ∀ rnti ctxt, s.users.find? rnti = some ctxt →
      ctxt.mmeUeS1apId ≠ id) : s.Right e ∧ (s.step e).Inv := by
  refine ⟨⟨⟨s, [], ret⟩, hout, h.consistent, fun id he => Or.inr ⟨hid id he, rfl, rfl⟩, fun id he =>
    Or.inr ⟨fun rnti ctxt hctxt howns => hmme id he rnti ctxt hctxt howns.2, rfl, rfl⟩⟩, ?_⟩
  unfold step
  rw [hout]
  exact h

theorem Inv.owner (h : s.Inv) (hmap : s.enbidToRntiMap.find? id = some rnti) :
    ∃ ctxt, s.users.find? rnti = some ctxt ∧ ctxt.enbUeS1apId = id :=
  (h.consistent id rnti).mp hmap

theorem Inv.unknown (h : s.Inv) (hmap : s.enbidToRntiMap.find? id = none)
    (hctxt : s.users.find? rnti = some ctxt) : ctxt.enbUeS1apId ≠ id := by
  intro hid
  rw [(h.consistent id rnti).mpr ⟨ctxt, hctxt, hid⟩] at hmap
  cases hmap

theorem right_of_routed {event : Event} (h : s.Inv) (ret : Bool) (hid : event.enbId = some id)
    (hmme : ∀ id, event ≠ .releaseByMmeId id)
    (hdiscard : s.enbidToRntiMap.find? id = none → s.handle env event = .ok ⟨s, [], ret⟩)
    (hacts : ∀ rnti ctxt, s.enbidToRntiMap.find? id = some rnti →
      s.users.find? rnti = some ctxt → ctxt.enbUeS1apId = id → Acts s (s.handle env event) rnti) :
    s.Right (env, event) ∧ (s.step (env, event)).Inv := by
  cases hmap : s.enbidToRntiMap.find? id with
  | none =>
    refine right_of_unknown h (hdiscard hmap) (fun l hl r c hc => ?_)
      (fun l hl => absurd hl (hmme l))
    obtain rfl := Option.some.inj (hid.symm.trans hl)
    exact h.unknown hmap hc
  | some rnti =>
    obtain ⟨ctxt, hctxt, hown⟩ := h.owner hmap
    refine (hacts rnti ctxt hmap hctxt hown).right hctxt (fun l hl => ?_)
      (fun l hl => absurd hl (hmme l))
    rw [hown]
    exact Option.some.inj (hid.symm.trans hl)

/-- The maps behind `initial_ue`. -/
def entered (s : EnbS1ap) (rnti : ℕ) : EnbS1ap :=
  { (s.newUe rnti).1 with users := s.users.emplace rnti (s.newUe rnti).2 }

theorem Inv.initialUe (h : s.Inv) (hnone : s.users.find? rnti = none)
    (hfree : s.enbidToRntiMap.find? s.nextEnbUeS1apId = none) :
    (s.entered rnti).Inv := by
  have hfind : ∀ r, (s.users.emplace rnti (s.newUe rnti).2).find? r =
      if r = rnti then some (s.newUe rnti).2 else s.users.find? r := by
    intro r
    rw [OrderedMap.find?_emplace, hnone]
    rfl
  constructor
  · intro id r
    change (s.enbidToRntiMap.insert s.nextEnbUeS1apId rnti).find? id = some r ↔
      ∃ c, (s.users.emplace rnti (s.newUe rnti).2).find? r = some c ∧ c.enbUeS1apId = id
    rw [OrderedMap.find?_insert, hfind]
    by_cases hr : r = rnti
    · rw [if_pos hr, hr]
      simp only [Option.some.injEq, exists_eq_left']
      split_ifs with hid
      · exact ⟨fun _ => hid.symm, fun _ => rfl⟩
      · refine ⟨fun hmap => ?_, fun heq => absurd heq.symm hid⟩
        obtain ⟨c, hc, -⟩ := h.owner hmap
        rw [hnone] at hc
        cases hc
    · rw [if_neg hr]
      split_ifs with hid
      · refine ⟨fun heq => absurd (Option.some.inj heq).symm hr, fun ⟨c, hc, hcid⟩ => ?_⟩
        exact absurd (hcid.trans hid) (h.unknown hfree hc)
      · exact h.consistent id r
  · intro r c hc
    change (s.users.emplace rnti (s.newUe rnti).2).find? r = some c at hc
    rw [hfind] at hc
    split_ifs at hc with hr
    · obtain rfl := Option.some.inj hc
      exact hr.symm
    · exact h.rnti hc
  · intro r c hc
    change (s.users.emplace rnti (s.newUe rnti).2).find? r = some c at hc
    rw [hfind] at hc
    split_ifs at hc with hr
    · obtain rfl := Option.some.inj hc
      exact fun _ => rfl
    · exact h.unassigned hc

theorem Inv.initialUe_again (h : s.Inv) (hctxt : s.users.find? rnti = some ctxt)
    (hid : ctxt.enbUeS1apId = s.nextEnbUeS1apId) :
    (s.entered rnti).Inv := by
  have husers : ∀ r, (s.users.emplace rnti (s.newUe rnti).2).find? r = s.users.find? r := by
    intro r
    rw [OrderedMap.find?_emplace]
    split_ifs with hr
    · rw [hr, hctxt]
      rfl
    · rfl
  have hmap : ∀ id, (s.enbidToRntiMap.insert s.nextEnbUeS1apId rnti).find? id =
      s.enbidToRntiMap.find? id := by
    intro id
    rw [OrderedMap.find?_insert]
    split_ifs with heq
    · rw [heq, (h.consistent _ rnti).mpr ⟨ctxt, hctxt, hid⟩]
    · rfl
  constructor
  · intro id r
    change (s.enbidToRntiMap.insert s.nextEnbUeS1apId rnti).find? id = some r ↔
      ∃ c, (s.users.emplace rnti (s.newUe rnti).2).find? r = some c ∧ c.enbUeS1apId = id
    rw [hmap, husers]
    exact h.consistent id r
  · intro r c hc
    exact h.rnti ((husers r).symm.trans hc)
  · intro r c hc
    exact h.unassigned ((husers r).symm.trans hc)

theorem handle_initialUe (s : EnbS1ap) (env : Env) (rnti : ℕ) : ∃ actions ret,
    s.handle env (.initialUe rnti) = .ok ⟨s.entered rnti, actions, ret⟩ := by
  have hctxt : (s.entered rnti).users.find? rnti =
      some ((s.users.find? rnti).getD (s.newUe rnti).2) := by
    change (s.users.emplace rnti (s.newUe rnti).2).find? rnti = _
    rw [OrderedMap.find?_emplace, if_pos rfl]
  obtain ⟨actions, ret, hsend, -⟩ := sendFor_ok env hctxt .initialUeMessage
  refine ⟨actions, ret, ?_⟩
  change ((s.entered rnti).sendFor env rnti .initialUeMessage >>= fun r =>
    Except.ok (⟨s.entered rnti, r.1, r.2⟩ : Handled)) = _
  rw [hsend]
  rfl

section

variable (h : s.Inv)
include h

theorem right_writePdu (env : Env) (rnti : ℕ) :
    s.Right (env, .writePdu rnti) ∧ (s.step (env, .writePdu rnti)).Inv := by
  cases hctxt : s.users.find? rnti with
  | none =>
    have hout : s.handle env (.writePdu rnti) = .ok ⟨s, [], false⟩ := by
      change s.writePdu env rnti = _
      rw [writePdu, hctxt]
    exact right_of_ok hout h rfl (by simp)
  | some ctxt =>
    obtain ⟨actions, ret, hsend, -⟩ := sendFor_ok env hctxt .uplinkNasTransport
    have hout : s.handle env (.writePdu rnti) = .ok ⟨s, actions, ret⟩ := by
      change s.writePdu env rnti = _
      rw [writePdu, hctxt]
      dsimp only
      rw [hsend]
      rfl
    exact right_of_ok hout h rfl (by simp)

theorem right_userRelease (env : Env)
    (hrequested : ∀ ctxt, s.users.find? rnti = some ctxt → ctxt.releaseRequested = false) :
    s.Right (env, .userRelease rnti) ∧ (s.step (env, .userRelease rnti)).Inv := by
  cases hctxt : s.users.find? rnti with
  | none =>
    have hout : s.handle env (.userRelease rnti) = .ok ⟨s, [], false⟩ := by
      change s.userRelease env rnti = _
      rw [userRelease, hctxt]
    exact right_of_ok hout h rfl (by simp)
  | some ctxt =>
    have hunassigned : ctxt.mmeAssigned = false → ctxt.mmeUeS1apId = 0 := h.unassigned hctxt
    have hfind : (s.setUser rnti { ctxt with releaseRequested := true }).users.find? rnti =
        some { ctxt with releaseRequested := true } := by rw [find?_setUser, if_pos rfl]
    obtain ⟨actions, ret, hsend, -⟩ := sendFor_ok env hfind .ueContextReleaseRequest
    have hout : s.handle env (.userRelease rnti) =
        .ok ⟨s.setUser rnti { ctxt with releaseRequested := true }, actions, ret⟩ := by
      change s.userRelease env rnti = _
      rw [userRelease, hctxt]
      dsimp only
      rw [if_neg (by rw [hrequested ctxt hctxt]; decide), hsend]
      rfl
    exact right_of_ok hout (h.setUser hctxt rfl rfl hunassigned) rfl (by simp)

theorem right_sendHoRequired (env : Env) (rnti : ℕ) :
    s.Right (env, .sendHoRequired rnti) ∧ (s.step (env, .sendHoRequired rnti)).Inv := by
  have hok : ∃ out, s.handle env (.sendHoRequired rnti) = .ok out ∧ out.s1ap.Inv := by
    change ∃ out, s.sendHoRequired env rnti = .ok out ∧ out.s1ap.Inv
    unfold sendHoRequired
    split_ifs with hconnected
    · exact ⟨_, rfl, h⟩
    · cases hctxt : s.users.find? rnti with
      | none => exact ⟨_, rfl, h⟩
      | some ctxt =>
        have hunassigned : ctxt.mmeAssigned = false → ctxt.mmeUeS1apId = 0 := h.unassigned hctxt
        dsimp only
        split_ifs with hbusy
        · exact ⟨_, rfl, h⟩
        · obtain ⟨actions, sent, hsend, -⟩ := sendFor_ok env hctxt .handoverRequired
          rw [hsend]
          cases sent with
          | true => exact ⟨_, rfl, h.setUser hctxt rfl rfl hunassigned⟩
          | false => exact ⟨_, rfl, h⟩
  obtain ⟨out, hout, hinv⟩ := hok
  exact right_of_ok hout hinv rfl (by simp)

theorem right_relocPrepExpired (env : Env) (rnti : ℕ) :
    s.Right (env, .relocPrepExpired rnti) ∧ (s.step (env, .relocPrepExpired rnti)).Inv := by
  cases hctxt : s.users.find? rnti with
  | none =>
    have hout : s.handle env (.relocPrepExpired rnti) = .ok ⟨s, [], false⟩ := by
      change s.relocPrepExpired rnti = _
      rw [relocPrepExpired, hctxt]
    exact right_of_ok hout h rfl (by simp)
  | some ctxt =>
    obtain ⟨out, hcomplete, hinv, -⟩ := acts_completeHoPrep h hctxt false true
    have hout : s.handle env (.relocPrepExpired rnti) = .ok out := by
      change s.relocPrepExpired rnti = _
      rw [relocPrepExpired, hctxt]
      exact hcomplete
    exact right_of_ok hout hinv rfl (by simp)

theorem right_releaseByMmeId (env : Env) (ho : id ≠ 0 ∨ ¬ s.UnassignedFirst) :
    s.Right (env, .releaseByMmeId id) ∧ (s.step (env, .releaseByMmeId id)).Inv := by
  cases hfind : s.findMmeUeId id with
  | none =>
    have hout : s.handle env (.releaseByMmeId id) = .ok ⟨s, [], false⟩ := by
      change s.handleReleaseByMmeId env id = _
      rw [handleReleaseByMmeId, hfind]
    refine right_of_unknown h hout (fun l hl => by cases hl) fun l hl r c hc => ?_
    cases hl
    exact findMmeUeId_eq_none hfind hc
  | some ctxt =>
    obtain ⟨rnti, hctxt, hid, -⟩ := findMmeUeId_eq_some hfind
    have hassigned := (mmeAssigned_of_find h hfind).mpr ho
    have hacts : Acts s (s.handle env (.releaseByMmeId id)) rnti := by
      change Acts s (s.handleReleaseByMmeId env id) rnti
      rw [handleReleaseByMmeId, hfind]
      dsimp only
      rw [h.rnti hctxt]
      exact acts_releaseUser h hctxt
    refine hacts.right hctxt (fun l hl => by cases hl) fun l hl => ?_
    cases hl
    exact ⟨hassigned, hid⟩

theorem right_of_handover {event : Event} {success : Bool}
    (hout : s.handle env event = s.handleHandover id success) (hid : event.enbId = some id)
    (hmme : ∀ id, event ≠ .releaseByMmeId id)
    (ho : ∃ rnti ctxt, s.users.find? rnti = some ctxt ∧ ctxt.enbUeS1apId = id) :
    s.Right (env, event) ∧ (s.step (env, event)).Inv := by
  obtain ⟨rnti, ctxt, hctxt, hown⟩ := ho
  have hmap := (h.consistent id rnti).mpr ⟨ctxt, hctxt, hown⟩
  have hacts : Acts s (s.handle env event) rnti := by
    rw [hout]
    exact acts_handleHandover h hmap hctxt success
  refine hacts.right hctxt (fun l hl => ?_) (fun l hl => absurd hl (hmme l))
  rw [hown]
  exact Option.some.inj (hid.symm.trans hl)

theorem right_of_orderly (ho : s.Orderly e) :
    s.Right e ∧ (s.step e).Inv := by
  obtain ⟨env, event⟩ := e
  cases event with
  | initialUe rnti =>
    obtain ⟨actions, ret, hout⟩ := handle_initialUe s env rnti
    refine right_of_ok hout ?_ rfl (by simp)
    rcases ho with ⟨hnone, hfree⟩ | ⟨ctxt, hctxt, hid⟩
    · exact h.initialUe hnone hfree
    · exact h.initialUe_again hctxt hid
  | writePdu rnti => exact right_writePdu h env rnti
  | userRelease rnti => exact right_userRelease h env ho
  | sendHoRequired rnti => exact right_sendHoRequired h env rnti
  | relocPrepExpired rnti => exact right_relocPrepExpired h env rnti
  | s1SetupResponse | connectionLost =>
    exact right_of_ok rfl ⟨h.consistent, h.rnti, h.unassigned⟩ rfl (by simp)
  | paging ueid => exact right_of_ok rfl h rfl (by simp)
  | dlNasTransport id mmeUeS1apId nasPdu =>
    refine right_of_routed h false rfl (by simp) (fun hmap => ?_) fun r c hmap hc _ =>
      acts_handleDlNasTransport h hmap hc mmeUeS1apId nasPdu
    change s.handleDlNasTransport env id mmeUeS1apId nasPdu = _
    rw [handleDlNasTransport, hmap]
  | initialCtxtSetupRequest id mmeUeS1apId csFallback =>
    refine right_of_routed h false rfl (by simp) (fun hmap => ?_) fun r c hmap hc _ =>
      acts_handleInitialCtxtSetupRequest h hmap hc mmeUeS1apId csFallback
    change s.handleInitialCtxtSetupRequest env id mmeUeS1apId csFallback = _
    rw [handleInitialCtxtSetupRequest, hmap]
  | erabSetupRequest id mmeUeS1apId =>
    refine right_of_routed h false rfl (by simp) (fun hmap => ?_) fun r c hmap hc _ =>
      acts_handleErabSetupRequest h hmap hc mmeUeS1apId
    change s.handleErabSetupRequest env id mmeUeS1apId = _
    rw [handleErabSetupRequest, hmap]
  | ueContextModifyRequest id mmeUeS1apId csFallback =>
    refine right_of_routed h false rfl (by simp) (fun hmap => ?_) fun r c hmap hc _ =>
      acts_handleUeContextModifyRequest h hmap hc mmeUeS1apId csFallback
    change s.handleUeContextModifyRequest env id mmeUeS1apId csFallback = _
    rw [handleUeContextModifyRequest, hmap]
  | releaseByPair id mmeUeS1apId =>
    refine right_of_routed h false rfl (by simp) (fun hmap => ?_) fun r c hmap hc hid =>
      acts_handleReleaseByPair h hmap hc hid
    change s.handleReleaseByPair env id = _
    rw [handleReleaseByPair, hmap]
  | releaseByMmeId id => exact right_releaseByMmeId h env ho
  | hoPreparationFailure id mmeUeS1apId =>
    exact right_of_handover h rfl rfl (by simp) ho
  | s1HoCommand id mmeUeS1apId =>
    exact right_of_handover h rfl rfl (by simp) ho

theorem not_right_of_unknown_handover {id : ℕ} {success : Bool} (event : Event)
    (hout : s.handle env event = s.handleHandover id success)
    (hunknown : ∀ rnti ctxt, s.users.find? rnti = some ctxt → ctxt.enbUeS1apId ≠ id) :
    ¬ s.Right (env, event) := by
  rintro ⟨out, hhandle, hconsistent, -⟩
  have hmap : s.enbidToRntiMap.find? id = none := by
    cases hmap : s.enbidToRntiMap.find? id with
    | none => rfl
    | some rnti =>
      obtain ⟨ctxt, hctxt, hid⟩ := h.owner hmap
      exact absurd hid (hunknown rnti ctxt hctxt)
  have hemplace : (s.enbidToRntiMap.emplace id 0).find? id = some 0 := by
    rw [OrderedMap.find?_emplace, if_pos rfl, hmap]
    rfl
  change s.handle env event = _ at hhandle
  rw [hout] at hhandle
  unfold handleHandover subscript at hhandle
  dsimp only at hhandle
  rw [hmap, Option.getD_none] at hhandle
  cases hctxt : s.users.find? 0 with
  | none =>
    rw [hctxt] at hhandle
    cases hhandle
  | some ctxt =>
    rw [hctxt] at hhandle
    obtain rfl := Except.ok.inj hhandle
    -- The identity was entered for RNTI 0, whose context holds another one.
    have hkeeps : ∀ c, (completeHoPrep { s with enbidToRntiMap := s.enbidToRntiMap.emplace id 0 } 0
        ctxt success true).s1ap.users.find? 0 = some c → c.enbUeS1apId = ctxt.enbUeS1apId := by
      intro c hc
      unfold completeHoPrep at hc
      split_ifs at hc
      · rw [find?_setUser, if_pos rfl] at hc
        obtain rfl := Option.some.inj hc
        rfl
      · change s.users.find? 0 = some c at hc
        rw [hctxt] at hc
        obtain rfl := Option.some.inj hc
        rfl
    have hentry : (completeHoPrep { s with enbidToRntiMap := s.enbidToRntiMap.emplace id 0 } 0
        ctxt success true).s1ap.enbidToRntiMap.find? id = some 0 := by
      unfold completeHoPrep
      split_ifs
      · exact hemplace
      · exact hemplace
    obtain ⟨c, hc, hid⟩ := (hconsistent id 0).mp hentry
    exact hunknown 0 ctxt hctxt ((hkeeps c hc).symm.trans hid)

theorem orderly_initialUe (hright : s.Right (env, .initialUe rnti)) :
    s.Orderly (env, .initialUe rnti) := by
  obtain ⟨actions, ret, hentered⟩ := handle_initialUe s env rnti
  obtain ⟨out, hout, hconsistent, -⟩ := hright
  obtain rfl := Except.ok.inj (hentered.symm.trans hout)
  have hfind : ∀ r, (s.entered rnti).users.find? r =
      if r = rnti then some ((s.users.find? rnti).getD (s.newUe rnti).2)
      else s.users.find? r := fun r => OrderedMap.find?_emplace _ _ _ _
  have hentry : ∀ l, (s.entered rnti).enbidToRntiMap.find? l =
      if l = s.nextEnbUeS1apId then some rnti else s.enbidToRntiMap.find? l :=
    fun l => OrderedMap.find?_insert _ _ _ _
  cases hctxt : s.users.find? rnti with
  | some ctxt =>
    refine Or.inr ⟨ctxt, hctxt, ?_⟩
    obtain ⟨c, hc, hid⟩ := (hconsistent s.nextEnbUeS1apId rnti).mp (by rw [hentry, if_pos rfl])
    rw [hfind, if_pos rfl, hctxt] at hc
    obtain rfl := Option.some.inj hc
    exact hid
  | none =>
    refine Or.inl ⟨hctxt, ?_⟩
    cases hmap : s.enbidToRntiMap.find? s.nextEnbUeS1apId with
    | none => rfl
    | some r =>
      obtain ⟨c, hc, hid⟩ := h.owner hmap
      have hr : r ≠ rnti := by
        rintro rfl
        rw [hctxt] at hc
        cases hc
      have hother := (hconsistent s.nextEnbUeS1apId r).mpr
        ⟨c, by rw [hfind, if_neg hr]; exact hc, hid⟩
      rw [hentry, if_pos rfl] at hother
      exact absurd (Option.some.inj hother).symm hr

theorem orderly_userRelease (hright : s.Right (env, .userRelease rnti)) :
    s.Orderly (env, .userRelease rnti) := by
  intro ctxt hctxt
  obtain ⟨out, hout, hconsistent, -⟩ := hright
  by_contra hnot
  have hzombie : ctxt.releaseRequested = true := Bool.not_eq_false _ ▸ hnot
  change s.userRelease env rnti = _ at hout
  rw [userRelease, hctxt] at hout
  dsimp only at hout
  rw [if_pos hzombie] at hout
  obtain rfl := Except.ok.inj hout
  have hentry : s.enbidToRntiMap.find? ctxt.enbUeS1apId = some rnti :=
    (h.consistent _ _).mpr ⟨ctxt, hctxt, rfl⟩
  obtain ⟨c, hc, -⟩ := (hconsistent ctxt.enbUeS1apId rnti).mp hentry
  change (s.users.erase rnti).find? rnti = some c at hc
  rw [OrderedMap.find?_erase, if_pos rfl] at hc
  cases hc

theorem orderly_releaseByMmeId (hright : s.Right (env, .releaseByMmeId id)) :
    s.Orderly (env, .releaseByMmeId id) := by
  cases hfind : s.findMmeUeId id with
  | none =>
    by_contra hnot
    rw [Orderly, not_or, not_not, not_not] at hnot
    obtain ⟨hzero, rnti, ctxt, hctxt, hunassigned, -⟩ := hnot
    exact findMmeUeId_eq_none hfind hctxt ((h.unassigned hctxt hunassigned).trans hzero.symm)
  | some ctxt =>
    refine (mmeAssigned_of_find h hfind).mp ?_
    obtain ⟨rnti, hctxt, -⟩ := findMmeUeId_eq_some hfind
    obtain ⟨out, hout, -, -, hserved⟩ := hright
    have hrelease : .releaseErabs rnti ∈ out.actions := by
      obtain ⟨actions, ret, hsend, -⟩ := sendFor_ok
        (s := { s with enbidToRntiMap := s.enbidToRntiMap.erase ctxt.enbUeS1apId }) env hctxt
        .ueContextReleaseComplete
      change s.handleReleaseByMmeId env id = _ at hout
      rw [handleReleaseByMmeId, hfind] at hout
      dsimp only at hout
      rw [h.rnti hctxt] at hout
      unfold releaseUser at hout
      dsimp only at hout
      rw [hctxt] at hout
      dsimp only at hout
      rw [hsend] at hout
      obtain rfl := Except.ok.inj hout
      exact List.mem_cons_self
    rcases hserved id rfl with ⟨r, c, hc, ⟨hassigned, -⟩, hacts⟩ | ⟨-, -, hnone⟩
    · have hr := hacts.actions _ hrelease
      rw [EnbAction.rnti] at hr
      rw [← Option.some.inj hr, hctxt] at hc
      rw [Option.some.inj hc]
      exact hassigned
    · rw [hnone] at hrelease
      exact absurd hrelease List.not_mem_nil

theorem orderly_of_right (hright : s.Right e) : s.Orderly e := by
  obtain ⟨env, event⟩ := e
  cases event with
  | initialUe rnti => exact orderly_initialUe h hright
  | userRelease rnti => exact orderly_userRelease h hright
  | releaseByMmeId id => exact orderly_releaseByMmeId h hright
  | hoPreparationFailure id mmeUeS1apId =>
    by_contra hnot
    refine not_right_of_unknown_handover h (.hoPreparationFailure id mmeUeS1apId) rfl
      (fun r c hc hid => hnot ⟨r, c, hc, hid⟩) hright
  | s1HoCommand id mmeUeS1apId =>
    by_contra hnot
    refine not_right_of_unknown_handover h (.s1HoCommand id mmeUeS1apId) rfl
      (fun r c hc hid => hnot ⟨r, c, hc, hid⟩) hright
  | _ => trivial

end

/-- The maps agree and the messages are served right in a run exactly when every event of it is
orderly. -/
theorem right_iff_orderly (events : List (Env × Event)) :
    EventRun.Along step Right init events ↔ EventRun.Along step Orderly init events :=
  EventRun.along_congr (I := Inv)
    (fun _ _ hs hright => (right_of_orderly hs (orderly_of_right hs hright)).2)
    (fun _ _ hs => ⟨orderly_of_right hs, fun ho => (right_of_orderly hs ho).1⟩) inv_init

/-- A UE whose release is asked for twice, and a message of the MME for it afterwards. -/
theorem zombie_release_leaves_identity : ¬ ∀ events : List (Env × Event),
    EventRun.Along step Right init events := by
  intro h
  let env : Env := { sent := true, allocated := true, rrc := true }
  obtain ⟨-, -, -, ⟨out, hout, -⟩, -⟩ := h
    [(env, .initialUe 70), (env, .userRelease 70), (env, .userRelease 70),
      (env, .dlNasTransport 1 5 [])]
  have hfault : (step (step (step init (env, .initialUe 70)) (env, .userRelease 70))
      (env, .userRelease 70)).handle env (.dlNasTransport 1 5 []) = .error .nullContext := rfl
  rw [hfault] at hout
  cases hout

end EnbS1ap
end SrsLte
