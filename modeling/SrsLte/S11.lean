import SrsLte.Spgw
import SrsLte.SpgwAddresses

/-!
# GTP-C of the MME

The contexts of `mme_gtpc`. What it hands to S1AP and NAS are outputs; whether NAS knows a
subscriber comes with a message.
-/

namespace SrsLte

structure GtpcCtx where
  mmeCtrFteid : GtpFteid
  sgwCtrFteid : GtpFteid

structure MmeGtpc where
  nextCtrlTeid : ℕ
  mmeGtpcIp : ℕ
  mmeCtrTeidToImsi : OrderedMap ℕ ℕ
  imsiToGtpcCtx : OrderedMap ℕ GtpcCtx

inductive MmeGtpcOutput
  | ueIp (imsi ip : ℕ)
  | initialContextSetupRequest (imsi ebi paaIpv4 : ℕ) (sgwS1uFteid : GtpFteid)
  | activateEpsBearer (imsi ebi : ℕ)
  | paging (imsi ebi : ℕ)

namespace MmeGtpc

/-- `init`; `m_mme_gtpc_ip` is not set. -/
def start (mmeGtpcIp : ℕ) : MmeGtpc :=
  ⟨1, mmeGtpcIp, OrderedMap.empty, OrderedMap.empty⟩

/-- The MME after it has removed the context that `send_create_session_request` finds. -/
def withoutCtx (m : MmeGtpc) (imsi : ℕ) : MmeGtpc :=
  match m.imsiToGtpcCtx.find? imsi with
  | none => m
  | some ctx =>
    { m with
      mmeCtrTeidToImsi := m.mmeCtrTeidToImsi.erase ctx.mmeCtrFteid.teid
      imsiToGtpcCtx := m.imsiToGtpcCtx.erase imsi }

/-- The F-TEID that `send_create_session_request` allocates. -/
def newCtrFteid (m : MmeGtpc) : GtpFteid := ⟨m.mmeGtpcIp, m.nextCtrlTeid⟩

def sendCreateSessionRequest (m : MmeGtpc) (imsi : ℕ) : MmeGtpc × GtpcPdu :=
  ({ m.withoutCtx imsi with
      nextCtrlTeid := (m.nextCtrlTeid + 1) % 2 ^ 32
      mmeCtrTeidToImsi := (m.withoutCtx imsi).mmeCtrTeidToImsi.emplace m.nextCtrlTeid imsi
      imsiToGtpcCtx := (m.withoutCtx imsi).imsiToGtpcCtx.emplace imsi ⟨m.newCtrFteid, ⟨0, 0⟩⟩ },
    .createSessionRequest imsi m.newCtrFteid)

def sendModifyBearerRequest (m : MmeGtpc) (imsi erabToModify : ℕ) (enbFteid : GtpFteid) :
    Option GtpcPdu :=
  (m.imsiToGtpcCtx.find? imsi).map fun ctx =>
    .modifyBearerRequest ctx.sgwCtrFteid.teid erabToModify enbFteid

def sendDeleteSessionRequest (m : MmeGtpc) (imsi : ℕ) : MmeGtpc × Option GtpcPdu :=
  (m.withoutCtx imsi, (m.imsiToGtpcCtx.find? imsi).map fun ctx =>
    .deleteSessionRequest ctx.sgwCtrFteid.teid .isrDeactivation)

def sendReleaseAccessBearersRequest (m : MmeGtpc) (imsi : ℕ) : Option GtpcPdu :=
  (m.imsiToGtpcCtx.find? imsi).map fun ctx => .releaseAccessBearersRequest ctx.sgwCtrFteid.teid

def sendDownlinkDataNotificationAcknowledge (m : MmeGtpc) (imsi : ℕ) (cause : GtpcCause) :
    Option GtpcPdu :=
  (m.imsiToGtpcCtx.find? imsi).map fun ctx =>
    .downlinkDataNotificationAcknowledge ctx.sgwCtrFteid.teid cause

def sendDownlinkDataNotificationFailureIndication (m : MmeGtpc) (imsi : ℕ) (cause : GtpcCause) :
    Option GtpcPdu :=
  (m.imsiToGtpcCtx.find? imsi).map fun ctx =>
    .downlinkDataNotificationFailureIndication ctx.sgwCtrFteid.teid cause

def handleCreateSessionResponse (m : MmeGtpc) (nasKnown : ℕ → Bool) (teid : ℕ)
    (resp : CreateSessionResponse) : MmeGtpc × List MmeGtpcOutput :=
  if resp.cause ≠ .requestAccepted then (m, [])
  else match m.mmeCtrTeidToImsi.find? teid with
  | none => (m, [])
  | some imsi =>
    if resp.s1uSgwFteidPresent = false then (m, [])
    else if resp.paaPresent = false then (m, [])
    else if resp.pdnType ≠ .ipv4 then (m, [])
    else if nasKnown imsi = false then (m, [])
    else match m.imsiToGtpcCtx.find? imsi with
    | none => (m, [.ueIp imsi resp.paaIpv4])
    | some ctx =>
      ({ m with
          imsiToGtpcCtx := m.imsiToGtpcCtx.insert imsi { ctx with sgwCtrFteid := ⟨0, teid⟩ } },
        [.ueIp imsi resp.paaIpv4,
          .initialContextSetupRequest imsi 5 resp.paaIpv4 resp.s1uSgwFteid])

def handleModifyBearerResponse (m : MmeGtpc) (teid ebi : ℕ) : List MmeGtpcOutput :=
  match m.mmeCtrTeidToImsi.find? teid with
  | none => []
  | some imsi => [.activateEpsBearer imsi ebi]

def handleDownlinkDataNotification (m : MmeGtpc) (teid : ℕ) (ebi : Option ℕ) :
    List MmeGtpcOutput :=
  match m.mmeCtrTeidToImsi.find? teid, ebi with
  | some imsi, some ebi => [.paging imsi ebi]
  | _, _ => []

def handleS11Pdu (m : MmeGtpc) (nasKnown : ℕ → Bool) : GtpcPdu → MmeGtpc × List MmeGtpcOutput
  | .createSessionResponse teid resp => m.handleCreateSessionResponse nasKnown teid resp
  | .modifyBearerResponse teid ebi _ => (m, m.handleModifyBearerResponse teid ebi)
  | .downlinkDataNotification teid ebi => (m, m.handleDownlinkDataNotification teid ebi)
  | _ => (m, [])

variable {m : MmeGtpc} {imsi i t : ℕ} {ctx : GtpcCtx}

theorem find?_withoutCtx (m : MmeGtpc) (imsi i : ℕ) : (m.withoutCtx imsi).imsiToGtpcCtx.find? i =
    if i = imsi then none else m.imsiToGtpcCtx.find? i := by
  unfold withoutCtx
  cases hctx : m.imsiToGtpcCtx.find? imsi with
  | none =>
    split_ifs with hi
    · rwa [hi]
    · rfl
  | some ctx => exact OrderedMap.find?_erase _ _ _

theorem find?_sendCreate (m : MmeGtpc) (imsi i : ℕ) :
    (m.sendCreateSessionRequest imsi).1.imsiToGtpcCtx.find? i =
      if i = imsi then some ⟨m.newCtrFteid, ⟨0, 0⟩⟩ else m.imsiToGtpcCtx.find? i := by
  change ((m.withoutCtx imsi).imsiToGtpcCtx.emplace imsi _).find? i = _
  rw [OrderedMap.find?_emplace, find?_withoutCtx, find?_withoutCtx, if_pos rfl]
  split_ifs <;> rfl

def Indexed (m : MmeGtpc) : Prop :=
  ∀ t i, m.mmeCtrTeidToImsi.find? t = some i ↔
    ∃ ctx, m.imsiToGtpcCtx.find? i = some ctx ∧ ctx.mmeCtrFteid.teid = t

theorem Indexed.withoutCtx (h : Indexed m) (imsi : ℕ) : Indexed (m.withoutCtx imsi) := by
  intro t i
  rw [find?_withoutCtx]
  unfold MmeGtpc.withoutCtx
  cases hctx : m.imsiToGtpcCtx.find? imsi with
  | none =>
    rw [h t i]
    split_ifs with hi
    · rw [hi, hctx]
      simp
    · rfl
  | some ctx =>
    dsimp only
    rw [OrderedMap.find?_erase]
    have hteid := (h ctx.mmeCtrFteid.teid imsi).mpr ⟨ctx, hctx, rfl⟩
    split_ifs with ht hi hi
    · simp
    · constructor
      · intro hfalse
        cases hfalse
      · intro hex
        rw [← h t i, ht, hteid] at hex
        exact absurd (Option.some.inj hex).symm hi
    · rw [h t i, hi, hctx]
      constructor
      · rintro ⟨c, hc, hct⟩
        rw [← Option.some.inj hc] at hct
        exact absurd hct.symm ht
      · rintro ⟨c, hc, -⟩
        cases hc
    · exact h t i

theorem Indexed.sendCreate (h : Indexed m)
    (hnew : ∀ i ctx, m.imsiToGtpcCtx.find? i = some ctx → ctx.mmeCtrFteid.teid ≠ m.nextCtrlTeid)
    (imsi : ℕ) : Indexed (m.sendCreateSessionRequest imsi).1 := by
  intro t i
  have hw := h.withoutCtx imsi
  have hfree : (m.withoutCtx imsi).mmeCtrTeidToImsi.find? m.nextCtrlTeid = none := by
    cases hfound : (m.withoutCtx imsi).mmeCtrTeidToImsi.find? m.nextCtrlTeid with
    | none => rfl
    | some j =>
      obtain ⟨ctx, hctx, hteid⟩ := (hw _ j).mp hfound
      rw [find?_withoutCtx] at hctx
      split_ifs at hctx
      exact absurd hteid (hnew j ctx hctx)
  rw [find?_sendCreate]
  change ((m.withoutCtx imsi).mmeCtrTeidToImsi.emplace m.nextCtrlTeid imsi).find? t = some i ↔ _
  rw [OrderedMap.find?_emplace, hfree]
  split_ifs with ht hi hi
  · rw [ht, hi]
    exact ⟨fun _ => ⟨_, rfl, rfl⟩, fun _ => rfl⟩
  · constructor
    · intro heq
      exact absurd (Option.some.inj heq).symm hi
    · rintro ⟨ctx, hctx, hteid⟩
      exact absurd (hteid.trans ht) (hnew i ctx hctx)
  · rw [hw t i, find?_withoutCtx, if_pos hi]
    constructor
    · rintro ⟨c, hc, -⟩
      cases hc
    · rintro ⟨c, hc, hct⟩
      rw [← Option.some.inj hc] at hct
      exact absurd hct.symm ht
  · rw [hw t i, find?_withoutCtx, if_neg hi]

theorem Indexed.setSgw (h : Indexed m) (hctx : m.imsiToGtpcCtx.find? imsi = some ctx)
    (fteid : GtpFteid) : Indexed { m with
      imsiToGtpcCtx := m.imsiToGtpcCtx.insert imsi { ctx with sgwCtrFteid := fteid } } := by
  intro t i
  dsimp only
  rw [h t i, OrderedMap.find?_insert]
  split_ifs with hi
  · rw [hi, hctx]
    constructor
    · rintro ⟨c, hc, hct⟩
      rw [← Option.some.inj hc] at hct
      exact ⟨_, rfl, hct⟩
    · rintro ⟨c, hc, hct⟩
      rw [← Option.some.inj hc] at hct
      exact ⟨_, rfl, hct⟩
  · rfl

/-- A response either changes nothing, or its TEID becomes that of the SGW in the context of the
IMSI it belongs to. -/
theorem handleCreateSessionResponse_cases (m : MmeGtpc) (nasKnown : ℕ → Bool) (teid : ℕ)
    (resp : CreateSessionResponse) :
    ((m.handleCreateSessionResponse nasKnown teid resp).1 = m ∧
      ∀ i ebi ip fteid, .initialContextSetupRequest i ebi ip fteid ∉
        (m.handleCreateSessionResponse nasKnown teid resp).2) ∨
    ∃ imsi ctx, m.mmeCtrTeidToImsi.find? teid = some imsi ∧ m.imsiToGtpcCtx.find? imsi = some ctx ∧
      m.handleCreateSessionResponse nasKnown teid resp =
        ({ m with
            imsiToGtpcCtx := m.imsiToGtpcCtx.insert imsi { ctx with sgwCtrFteid := ⟨0, teid⟩ } },
          [.ueIp imsi resp.paaIpv4,
            .initialContextSetupRequest imsi 5 resp.paaIpv4 resp.s1uSgwFteid]) := by
  unfold handleCreateSessionResponse
  cases hteid : m.mmeCtrTeidToImsi.find? teid with
  | none =>
    dsimp only
    split_ifs <;> exact Or.inl ⟨rfl, fun _ _ _ _ => List.not_mem_nil⟩
  | some imsi =>
    cases hctx : m.imsiToGtpcCtx.find? imsi with
    | none =>
      simp only [hctx]
      split_ifs
      all_goals
        refine Or.inl ⟨rfl, fun i ebi ip fteid hmem => ?_⟩
        simp at hmem
    | some ctx =>
      simp only [hctx]
      split_ifs
      all_goals first
        | exact Or.inl ⟨rfl, fun _ _ _ _ => List.not_mem_nil⟩
        | exact Or.inr ⟨imsi, ctx, rfl, hctx, rfl⟩

end MmeGtpc

end SrsLte

/-!
The MME and the SPGW with the messages between them, which arrive in order. The MME takes its own
control TEID for that of the SPGW; the two are equal as long as the SPGW gets every request to
create a session.
-/

namespace SrsLte

open EventRun

def GtpcPdu.teid : GtpcPdu → ℕ
  | .createSessionRequest _ _ => 0
  | .createSessionResponse teid _ => teid
  | .modifyBearerRequest teid _ _ => teid
  | .modifyBearerResponse teid _ _ => teid
  | .deleteSessionRequest teid _ => teid
  | .releaseAccessBearersRequest teid => teid
  | .downlinkDataNotification teid _ => teid
  | .downlinkDataNotificationAcknowledge teid _ => teid
  | .downlinkDataNotificationFailureIndication teid _ => teid

def SpgwOutput.s11Pdu : SpgwOutput → Option GtpcPdu
  | .s11 pdu => some pdu
  | .s1u _ _ => none

def MmeGtpcOutput.isSetup (imsi : ℕ) : MmeGtpcOutput → Bool
  | .initialContextSetupRequest i _ _ _ => i == imsi
  | _ => false

/-- A request with the IMSI it is sent for, and whether the MME has handled a response to create
the session by then. -/
structure S11Request where
  imsi : ℕ
  answered : Bool
  pdu : GtpcPdu

/-- Both sides with the messages in their sockets. `answered` tells for which IMSIs the MME has
handled a response to create the present session, `lost` whether a request to create one could
not be sent. -/
structure S11 where
  mme : MmeGtpc
  spgw : Spgw
  toSpgw : List S11Request
  toMme : List GtpcPdu
  answered : ℕ → Bool
  lost : Bool

/-- What happens next; `sent` is false if the message of the step could not be sent. -/
inductive S11Event
  | create (imsi : ℕ) (sent : Bool)
  | modify (imsi erab : ℕ) (enbFteid : GtpFteid) (sent : Bool)
  | delete (imsi : ℕ) (sent : Bool)
  | release (imsi : ℕ) (sent : Bool)
  | acknowledge (imsi : ℕ) (cause : GtpcCause) (sent : Bool)
  | failure (imsi : ℕ) (cause : GtpcCause) (sent : Bool)
  | spgwReceives (uninit sent : Bool)
  | sgi (msg : SgiPdu) (sent : Bool)
  | mmeReceives (nasKnown : ℕ → Bool)

namespace S11

def start (mme : MmeGtpc) (spgw : Spgw) : S11 := ⟨mme, spgw, [], [], fun _ => false, false⟩

def enqueue (s : S11) (imsi : ℕ) (sent : Bool) : Option GtpcPdu → S11
  | some pdu =>
    if sent then { s with toSpgw := s.toSpgw ++ [⟨imsi, s.answered imsi, pdu⟩] } else s
  | none => s

def spgwHandles (s : S11) (e : SpgwEvent) (sent : Bool) : S11 :=
  { s with
    spgw := s.spgw.step e
    toMme := s.toMme ++ if sent then (s.spgw.handle e).2.filterMap SpgwOutput.s11Pdu else [] }

def step (s : S11) : S11Event → S11
  | .create imsi sent =>
    { s with
      mme := (s.mme.sendCreateSessionRequest imsi).1
      toSpgw := if sent then
          s.toSpgw ++ [⟨imsi, false, (s.mme.sendCreateSessionRequest imsi).2⟩]
        else s.toSpgw
      answered := Function.update s.answered imsi false
      lost := s.lost || !sent }
  | .modify imsi erab enbFteid sent =>
    s.enqueue imsi sent (s.mme.sendModifyBearerRequest imsi erab enbFteid)
  | .delete imsi sent =>
    { s.enqueue imsi sent (s.mme.sendDeleteSessionRequest imsi).2 with
      mme := (s.mme.sendDeleteSessionRequest imsi).1
      answered := Function.update s.answered imsi false }
  | .release imsi sent => s.enqueue imsi sent (s.mme.sendReleaseAccessBearersRequest imsi)
  | .acknowledge imsi cause sent =>
    s.enqueue imsi sent (s.mme.sendDownlinkDataNotificationAcknowledge imsi cause)
  | .failure imsi cause sent =>
    s.enqueue imsi sent (s.mme.sendDownlinkDataNotificationFailureIndication imsi cause)
  | .spgwReceives uninit sent =>
    match s.toSpgw with
    | [] => s
    | r :: rest => { s.spgwHandles (.s11 uninit r.pdu) sent with toSpgw := rest }
  | .sgi msg sent => s.spgwHandles (.sgi msg) sent
  | .mmeReceives nasKnown =>
    match s.toMme with
    | [] => s
    | pdu :: rest =>
      { s with
        mme := (s.mme.handleS11Pdu nasKnown pdu).1
        toMme := rest
        answered := fun imsi => s.answered imsi ||
          (s.mme.handleS11Pdu nasKnown pdu).2.any (MmeGtpcOutput.isSetup imsi) }

def StoredUnder (s : Spgw) (imsi teid : ℕ) : Prop :=
  s.imsiToCtrTeid.find? imsi = some teid ∧
    ∃ ctx, s.teidToTunnelCtx.find? teid = some ctx ∧ ctx.imsi = imsi

/-- The TEID that the MME stores after a response is that of the session; a request sent since then
reaches that session, one sent before reaches none. -/
structure Agree (s : S11) : Prop where
  stored : ∀ imsi ctx, s.mme.imsiToGtpcCtx.find? imsi = some ctx → s.answered imsi →
    StoredUnder s.spgw imsi ctx.sgwCtrFteid.teid
  reaches : ∀ r rest, s.toSpgw = r :: rest → r.answered → StoredUnder s.spgw r.imsi r.pdu.teid
  silent : ∀ r rest, s.toSpgw = r :: rest → r.answered = false →
    s.spgw.teidToTunnelCtx.find? r.pdu.teid = none

/-- No request to create a session is sent after one that could not be sent, and there are control
TEIDs left. -/
def CreateOrdered (s : S11) : S11Event → Prop
  | .create _ sent => (sent = true → s.lost = false) ∧ s.mme.nextCtrlTeid ≠ 0
  | _ => True

end S11

structure S11Registry where
  next : ℕ
  owner : ℕ → Option ℕ

namespace S11Registry

def step (R : S11Registry) (r : S11Request) : S11Registry :=
  match r.pdu with
  | .createSessionRequest imsi _ =>
    ⟨R.next + 1, fun t => if t = R.next then some imsi else (R.owner t).filter fun i => i ≠ imsi⟩
  | .deleteSessionRequest teid _ => ⟨R.next, fun t => if t = teid then none else R.owner t⟩
  | _ => R

variable {R : S11Registry} {r : S11Request} {q : List S11Request} {t imsi : ℕ}

theorem next_le_step (R : S11Registry) (r : S11Request) : R.next ≤ (R.step r).next := by
  unfold step
  split
  · exact Nat.le_succ _
  · exact Nat.le_refl _
  · exact Nat.le_refl _

theorem next_le_run (R : S11Registry) (q : List S11Request) : R.next ≤ (q.foldl step R).next := by
  induction q generalizing R with
  | nil => exact Nat.le_refl _
  | cons r q ih => exact (R.next_le_step r).trans (ih _)

theorem owner_of_step (ht : t < R.next) (h : (R.step r).owner t = some imsi) :
    R.owner t = some imsi := by
  unfold step at h
  split at h
  · dsimp only at h
    rw [if_neg ht.ne] at h
    exact (Option.filter_eq_some_iff.mp h).1
  · dsimp only at h
    split_ifs at h
    exact h
  · exact h

theorem owner_of_run (ht : t < R.next) (h : (q.foldl step R).owner t = some imsi) :
    R.owner t = some imsi := by
  induction q generalizing R with
  | nil => exact h
  | cons r q ih => exact owner_of_step ht (ih (ht.trans_le (R.next_le_step r)) h)

def Fits (R : S11Registry) (r : S11Request) : Prop :=
  match r.pdu with
  | .createSessionRequest _ fteid =>
    r.answered = false ∧ fteid.teid = R.next ∧ R.next < 2 ^ 32
  | pdu => if r.answered then R.owner pdu.teid = some r.imsi else pdu.teid = 0

end S11Registry

namespace Spgw

variable {s : Spgw} {r : S11Request} {uninit : Bool}

def registry (s : Spgw) : S11Registry :=
  ⟨s.nextCtrlTeid, fun t => (s.session t).map SpgwSession.imsi⟩

/-- The control TEIDs up to the next one have been given out, each with the same TEID of the MME. -/
structure Issued (s : Spgw) : Prop where
  registered : Registered s
  pos : 1 ≤ s.nextCtrlTeid
  le : s.nextCtrlTeid ≤ 2 ^ 32
  range : ∀ t x, s.session t = some x → 1 ≤ t ∧ t < s.nextCtrlTeid
  same : ∀ t x, s.session t = some x → x.dwCtrlFteid.teid = t

theorem Issued.of_same {s' : Spgw} (h : Issued s) (hsame : SameSessions s s') : Issued s' where
  registered := h.registered.of_same hsame
  pos := by
    rw [hsame.nextCtrlTeid]
    exact h.pos
  le := by
    rw [hsame.nextCtrlTeid]
    exact h.le
  range := by
    rw [hsame.session, hsame.nextCtrlTeid]
    exact h.range
  same := by
    rw [hsame.session]
    exact h.same

theorem registry_of_same {s' : Spgw} (hsame : SameSessions s s') : s'.registry = s.registry := by
  unfold registry
  rw [hsame.session, hsame.nextCtrlTeid]

theorem storedUnder_iff (h : Registered s) {imsi teid : ℕ} :
    S11.StoredUnder s imsi teid ↔ s.registry.owner teid = some imsi := by
  unfold S11.StoredUnder registry
  rw [Option.map_eq_some_iff, ← h.inverse]
  constructor
  · exact fun hs => hs.1
  · intro himsi
    obtain ⟨x, hx, hxi⟩ := (h.inverse imsi teid).mp himsi
    obtain ⟨ctx, hctx, rfl⟩ := session_eq_some hx
    exact ⟨himsi, ctx, hctx, hxi⟩

section Create

variable {imsi : ℕ} {fteid : GtpFteid}

theorem Issued.newCtrlTeid (hlt : s.nextCtrlTeid < 2 ^ 32) :
    s.newCtrlTeid = s.nextCtrlTeid := Nat.mod_eq_of_lt hlt

theorem Issued.newTeid (h : Issued s) (hlt : s.nextCtrlTeid < 2 ^ 32) : s.NewTeid imsi := by
  intro ctx hctx
  rw [Issued.newCtrlTeid hlt] at hctx
  exact absurd (h.range _ _ (session_of_find hctx)).2 (Nat.lt_irrefl _)

theorem nextCtrlTeid_create (hlt : s.nextCtrlTeid < 2 ^ 32) :
    (s.handleCreateSessionRequest imsi fteid uninit).1.nextCtrlTeid = s.nextCtrlTeid + 1 := by
  change ((s.withoutSession imsi).nextCtrlTeid + 1) % 2 ^ 64 = _
  rw [(sameAllocator_withoutSession s imsi).nextCtrlTeid]
  exact Nat.mod_eq_of_lt (by omega)

theorem Issued.create (h : Issued s) (hlt : s.nextCtrlTeid < 2 ^ 32)
    (hteid : fteid.teid = s.nextCtrlTeid) :
    Issued (s.handleCreateSessionRequest imsi fteid uninit).1 := by
  have hnew : s.NewTeid imsi := h.newTeid hlt
  constructor
  · exact h.registered.create hnew
  · rw [nextCtrlTeid_create hlt]
    omega
  · rw [nextCtrlTeid_create hlt]
    omega
  · intro t x hx
    rw [h.registered.session_create hnew] at hx
    rw [nextCtrlTeid_create hlt]
    split_ifs at hx with ht
    · rw [ht, Issued.newCtrlTeid hlt]
      exact ⟨h.pos, Nat.lt_succ_self _⟩
    · have hrange := h.range t x (Option.filter_eq_some_iff.mp hx).1
      omega
  · intro t x hx
    rw [h.registered.session_create hnew] at hx
    split_ifs at hx with ht
    · rw [← Option.some.inj hx, ht, Issued.newCtrlTeid hlt]
      exact hteid
    · exact h.same t x (Option.filter_eq_some_iff.mp hx).1

theorem registry_create (h : Issued s) (hlt : s.nextCtrlTeid < 2 ^ 32) (i : ℕ) (b : Bool) :
    (s.handleCreateSessionRequest imsi fteid uninit).1.registry =
      s.registry.step ⟨i, b, .createSessionRequest imsi fteid⟩ := by
  unfold registry S11Registry.step
  rw [nextCtrlTeid_create hlt]
  congr 1
  funext t
  rw [h.registered.session_create (h.newTeid hlt), Issued.newCtrlTeid hlt]
  split_ifs
  · rfl
  · exact (Option.filter_map (p := fun i => decide (i ≠ imsi))).symm

end Create

theorem Issued.delete (h : Issued s) (teid : ℕ) : Issued (s.handleDeleteSessionRequest teid) := by
  cases hctx : s.teidToTunnelCtx.find? teid with
  | none => rwa [handleDeleteSessionRequest_none hctx]
  | some ctx =>
    have hsession := session_handleDeleteSessionRequest s teid
    rw [handleDeleteSessionRequest_some hctx] at hsession ⊢
    have hnext : ((s.deleteGtpuTunnel ctx.ueIpv4).deleteGtpcCtx teid).nextCtrlTeid =
        s.nextCtrlTeid := (sameAllocator_deleteGtpcCtx _ teid).nextCtrlTeid
    constructor
    · exact (h.registered.of_same (sameSessions_deleteGtpuTunnel s _)).delete teid
    · rw [hnext]
      exact h.pos
    · rw [hnext]
      exact h.le
    · intro t x hx
      rw [hsession] at hx
      rw [hnext]
      split_ifs at hx
      exact h.range t x hx
    · intro t x hx
      rw [hsession] at hx
      split_ifs at hx
      exact h.same t x hx

theorem registry_delete (s : Spgw) (teid i : ℕ) (b : Bool) (cause : GtpcCause) :
    (s.handleDeleteSessionRequest teid).registry =
      s.registry.step ⟨i, b, .deleteSessionRequest teid cause⟩ := by
  have hnext : (s.handleDeleteSessionRequest teid).nextCtrlTeid = s.nextCtrlTeid := by
    cases hctx : s.teidToTunnelCtx.find? teid with
    | none => rw [handleDeleteSessionRequest_none hctx]
    | some ctx =>
      rw [handleDeleteSessionRequest_some hctx]
      exact (sameAllocator_deleteGtpcCtx _ teid).nextCtrlTeid
  unfold registry S11Registry.step
  rw [hnext]
  congr 1
  funext t
  rw [session_handleDeleteSessionRequest]
  split_ifs <;> rfl

theorem Issued.receive (h : Issued s) (hfits : S11Registry.Fits s.registry r) :
    Issued (s.step (.s11 uninit r.pdu)) ∧
      (s.step (.s11 uninit r.pdu)).registry = s.registry.step r := by
  obtain ⟨imsi, b, pdu⟩ := r
  have hsame : ∀ {s'}, SameSessions s s' → Issued s' ∧ s'.registry = s.registry :=
    fun hs => ⟨h.of_same hs, registry_of_same hs⟩
  cases pdu with
  | createSessionRequest i fteid =>
    obtain ⟨-, hteid, hlt⟩ := hfits
    exact ⟨h.create hlt hteid, registry_create h hlt imsi b⟩
  | deleteSessionRequest teid cause => exact ⟨h.delete teid, registry_delete s teid imsi b cause⟩
  | modifyBearerRequest teid _ fteid => exact hsame (sameSessions_modify s teid fteid)
  | releaseAccessBearersRequest teid => exact hsame (sameSessions_release s teid)
  | downlinkDataNotificationAcknowledge teid cause =>
    exact hsame (onlyPaging_acknowledge s teid cause).same
  | downlinkDataNotificationFailureIndication teid _ =>
    exact hsame (onlyPaging_failure s teid).same
  | createSessionResponse _ _ => exact hsame (SameSessions.refl s)
  | modifyBearerResponse _ _ _ => exact hsame (SameSessions.refl s)
  | downlinkDataNotification _ _ => exact hsame (SameSessions.refl s)

end Spgw

end SrsLte
