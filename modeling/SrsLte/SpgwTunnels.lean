import SrsLte.SpgwAddresses

/-!
# Tunnels of the UEs

The maps from addresses to tunnels follow the sessions unless a UE with a user tunnel attaches
again: its user tunnel stays.
-/

namespace SrsLte

/-- The SPGW with the contexts that have received a Modify Bearer Request since they were created
and since their last Release Access Bearers Request, by TEID. -/
structure SpgwHistory where
  spgw : Spgw
  modified : ℕ → Bool

namespace SpgwHistory

open EventRun Spgw

def track (h : SpgwHistory) : SpgwEvent → ℕ → Bool
  | .s11 _ (.createSessionRequest _ _) => Function.update h.modified h.spgw.newCtrlTeid false
  | .s11 _ (.modifyBearerRequest teid _ _) =>
    Function.update h.modified teid (h.spgw.teidToTunnelCtx.find? teid).isSome
  | .s11 _ (.releaseAccessBearersRequest teid) => Function.update h.modified teid false
  | .s11 _ (.deleteSessionRequest teid _) => Function.update h.modified teid false
  | _ => h.modified

def step (h : SpgwHistory) (e : SpgwEvent) : SpgwHistory := ⟨h.spgw.step e, h.track e⟩

structure TunnelsSound (h : SpgwHistory) : Prop where
  control : ∀ a t, h.spgw.ipToCtrTeid.find? a = some t →
    ∃ ctx, h.spgw.teidToTunnelCtx.find? t = some ctx ∧ ctx.ueIpv4 = a ∧ ctx.upCtrlFteid.teid = t
  user : ∀ a fteid, h.spgw.ipToUsrTeid.find? a = some fteid →
    ∃ t ctx, h.spgw.teidToTunnelCtx.find? t = some ctx ∧ ctx.ueIpv4 = a ∧ h.modified t
  inverse : ∀ i t, h.spgw.imsiToCtrTeid.find? i = some t ↔
    ∃ ctx, h.spgw.teidToTunnelCtx.find? t = some ctx ∧ ctx.imsi = i

def Owned (h : SpgwHistory) (fteid : GtpFteid) (msg : SgiPdu) : Prop :=
  ∃ t ctx, h.spgw.teidToTunnelCtx.find? t = some ctx ∧ ctx.ueIpv4 = msg.daddr ∧
    ctx.dwUserFteid = fteid ∧ h.modified t ∧ ∀ t', h.spgw.Holds t' msg.daddr → t' = t

def TunnelStep (h : SpgwHistory) (e : SpgwEvent) : Prop :=
  TunnelsSound (h.step e) ∧
    ∀ fteid msg, .s1u fteid msg ∈ (h.spgw.handle e).2 → (h.step e).Owned fteid msg

def NoUserTunnel (h : SpgwHistory) : SpgwEvent → Prop
  | .s11 _ (.createSessionRequest imsi _) =>
    ∀ t ctx, h.spgw.imsiToCtrTeid.find? imsi = some t →
      h.spgw.teidToTunnelCtx.find? t = some ctx → h.spgw.ipToUsrTeid.find? ctx.ueIpv4 = none
  | _ => True

def AddressFree (h : SpgwHistory) : SpgwEvent → Prop
  | .s11 _ (.createSessionRequest imsi _) =>
    ∀ t ctx, h.spgw.teidToTunnelCtx.find? t = some ctx → ctx.imsi ≠ imsi →
      ctx.ueIpv4 ≠ h.spgw.newUeIpv4 imsi
  | _ => True

structure Tunnelled (h : SpgwHistory) : Prop where
  registered : Registered h.spgw
  distinct : ∀ t t' x x', h.spgw.session t = some x → h.spgw.session t' = some x' →
    x.ueIpv4 = x'.ueIpv4 → t = t'
  control : ∀ a t, h.spgw.ipToCtrTeid.find? a = some t →
    ∃ x, h.spgw.session t = some x ∧ x.ueIpv4 = a
  user : ∀ a fteid, h.spgw.ipToUsrTeid.find? a = some fteid →
    ∃ t ctx, h.spgw.teidToTunnelCtx.find? t = some ctx ∧ ctx.ueIpv4 = a ∧
      ctx.dwUserFteid = fteid ∧ h.modified t
  queue : ∀ t ctx msg, h.spgw.teidToTunnelCtx.find? t = some ctx → msg ∈ ctx.pagingQueue →
    msg.daddr = ctx.ueIpv4

variable {h : SpgwHistory} {teid imsi t : ℕ} {ctx ctx' : SpgwTunnelCtx} {msg : SgiPdu}
  {fteid : GtpFteid} {s : Spgw}

theorem Tunnelled.sound (ht : Tunnelled h) : TunnelsSound h where
  control := fun a t ha => by
    obtain ⟨x, hx, hxa⟩ := ht.control a t ha
    obtain ⟨ctx, hctx, rfl⟩ := session_eq_some hx
    exact ⟨ctx, hctx, hxa, ht.registered.own t _ hx⟩
  user := fun a fteid ha => by
    obtain ⟨t, ctx, hctx, hctxa, -, hmod⟩ := ht.user a fteid ha
    exact ⟨t, ctx, hctx, hctxa, hmod⟩
  inverse := fun i t => by
    rw [ht.registered.inverse]
    constructor
    · rintro ⟨x, hx, himsi⟩
      obtain ⟨ctx, hctx, rfl⟩ := session_eq_some hx
      exact ⟨ctx, hctx, himsi⟩
    · rintro ⟨ctx, hctx, himsi⟩
      exact ⟨ctx.session, session_of_find hctx, himsi⟩

theorem Tunnelled.owned (ht : Tunnelled h) (hctx : h.spgw.teidToTunnelCtx.find? t = some ctx)
    (haddr : ctx.ueIpv4 = msg.daddr) (hdw : ctx.dwUserFteid = fteid) (hmod : h.modified t) :
    h.Owned fteid msg := by
  refine ⟨t, ctx, hctx, haddr, hdw, hmod, ?_⟩
  intro t' hholds
  obtain ⟨x, hx, hxa⟩ := holds_iff.mp hholds
  exact ht.distinct t' t x ctx.session hx (session_of_find hctx) (hxa.trans haddr.symm)

theorem onlyPaging_find {s' : Spgw} (hp : OnlyPaging s s')
    (hctx : s.teidToTunnelCtx.find? t = some ctx) :
    ∃ ctx', s'.teidToTunnelCtx.find? t = some ctx' ∧ ctx'.ueIpv4 = ctx.ueIpv4 ∧
      ctx'.dwUserFteid = ctx.dwUserFteid := by
  have hsession := session_of_find hctx
  rw [← hp.same.session] at hsession
  obtain ⟨ctx', hctx', heq⟩ := session_eq_some hsession
  obtain ⟨ctx'', hctx'', hdw⟩ := hp.dwUserFteid t ctx' hctx'
  rw [hctx] at hctx''
  refine ⟨ctx', hctx', congrArg SpgwSession.ueIpv4 heq, ?_⟩
  rw [hdw, Option.some.inj hctx'']

def QueuesOwn (s : Spgw) : Prop :=
  ∀ t ctx msg, s.teidToTunnelCtx.find? t = some ctx → msg ∈ ctx.pagingQueue →
    msg.daddr = ctx.ueIpv4

section

variable (hq : QueuesOwn s)
include hq

theorem QueuesOwn.set (hctx' : ∀ msg ∈ ctx'.pagingQueue, msg.daddr = ctx'.ueIpv4) :
    QueuesOwn (s.setTunnelCtx teid ctx') := by
  intro t c msg hc hmsg
  unfold setTunnelCtx at hc
  rw [OrderedMap.find?_insert] at hc
  split_ifs at hc
  · rw [← Option.some.inj hc] at hmsg ⊢
    exact hctx' msg hmsg
  · exact hq t c msg hc hmsg

theorem QueuesOwn.acknowledge (teid : ℕ) (cause : GtpcCause) :
    QueuesOwn (s.handleDownlinkDataNotificationAcknowledge teid cause) := by
  unfold handleDownlinkDataNotificationAcknowledge
  cases s.teidToTunnelCtx.find? teid with
  | none => exact hq
  | some ctx =>
    dsimp only
    split_ifs
    · exact hq.set fun _ hmsg => absurd hmsg (List.not_mem_nil)
    · exact hq.set fun _ hmsg => absurd hmsg (List.not_mem_nil)
    · exact hq

theorem QueuesOwn.failure (teid : ℕ) :
    QueuesOwn (s.handleDownlinkDataNotificationFailureIndication teid) := by
  unfold handleDownlinkDataNotificationFailureIndication
  cases s.teidToTunnelCtx.find? teid with
  | none => exact hq
  | some ctx => exact hq.set fun _ hmsg => absurd hmsg (List.not_mem_nil)

theorem QueuesOwn.sendDownlinkDataNotification (teid : ℕ) :
    QueuesOwn (s.sendDownlinkDataNotification teid).1 := by
  unfold Spgw.sendDownlinkDataNotification
  cases hctx : s.teidToTunnelCtx.find? teid with
  | none => exact hq
  | some ctx =>
    dsimp only
    split_ifs
    · exact hq
    · exact hq.set fun msg hmsg => hq teid ctx msg hctx hmsg

theorem QueuesOwn.queueDownlinkPacket
    (haddr : ∀ x, s.session teid = some x → x.ueIpv4 = msg.daddr) :
    QueuesOwn (s.queueDownlinkPacket teid msg) := by
  unfold Spgw.queueDownlinkPacket
  cases hctx : s.teidToTunnelCtx.find? teid with
  | none => exact hq
  | some ctx =>
    dsimp only
    split_ifs
    · refine hq.set fun m hm => ?_
      rcases List.mem_append.mp hm with hm | hm
      · exact hq teid ctx m hctx hm
      · rw [List.mem_singleton.mp hm]
        exact (haddr _ (session_of_find hctx)).symm
    · exact hq

end

theorem Tunnelled.paging (ht : Tunnelled h) {s' : Spgw} (hp : OnlyPaging h.spgw s')
    (hq : QueuesOwn s') : Tunnelled ⟨s', h.modified⟩ where
  registered := ht.registered.of_same hp.same
  distinct := by
    dsimp only
    rw [hp.same.session]
    exact ht.distinct
  control := by
    dsimp only
    rw [hp.same.session, hp.ipToCtrTeid]
    exact ht.control
  user := by
    intro a fteid ha
    dsimp only at ha
    rw [hp.ipToUsrTeid] at ha
    obtain ⟨t, ctx, hctx, hctxa, hdw, hmod⟩ := ht.user a fteid ha
    obtain ⟨ctx', hctx', haddr, hdw'⟩ := onlyPaging_find hp hctx
    exact ⟨t, ctx', hctx', haddr.trans hctxa, hdw'.trans hdw, hmod⟩
  queue := hq

theorem Tunnelled.sgi (ht : Tunnelled h) (msg : SgiPdu) : Tunnelled (h.step (.sgi msg)) := by
  refine ht.paging (onlyPaging_handleSgiPdu h.spgw msg) ?_
  have hq : QueuesOwn h.spgw := ht.queue
  change QueuesOwn (h.spgw.handleSgiPdu msg).1
  unfold handleSgiPdu
  split_ifs
  · exact hq
  · exact hq
  · cases h.spgw.ipToUsrTeid.find? msg.daddr with
    | some fteid => exact hq
    | none =>
      cases hctr : h.spgw.ipToCtrTeid.find? msg.daddr with
      | none => exact hq
      | some teid =>
        refine (hq.sendDownlinkDataNotification teid).queueDownlinkPacket ?_
        intro x hx
        rw [(onlyPaging_sendDownlinkDataNotification h.spgw teid).same.session] at hx
        obtain ⟨y, hy, hya⟩ := ht.control msg.daddr teid hctr
        rw [Option.some.inj (hx.symm.trans hy), hya]

theorem s1u_of_sgi {pdu : SgiPdu} (hout : .s1u fteid msg ∈ (s.handleSgiPdu pdu).2) :
    s.ipToUsrTeid.find? msg.daddr = some fteid := by
  rcases mem_handleSgiPdu hout with ⟨f, heq, husr⟩ | ⟨t, ebi, heq⟩
  · cases heq
    exact husr
  · cases heq

theorem Tunnelled.owned_sgi (ht : Tunnelled h) {pdu : SgiPdu}
    (hout : .s1u fteid msg ∈ (h.spgw.handle (.sgi pdu)).2) :
    (h.step (.sgi pdu)).Owned fteid msg := by
  have ht' := ht.sgi pdu
  have husr := s1u_of_sgi hout
  rw [← (onlyPaging_handleSgiPdu h.spgw pdu).ipToUsrTeid] at husr
  obtain ⟨t, ctx, hctx, haddr, hdw, hmod⟩ := ht'.user msg.daddr fteid husr
  exact ht'.owned hctx haddr hdw hmod

theorem find?_modify (hctx : s.teidToTunnelCtx.find? teid = some ctx) (t : ℕ) :
    (s.handleModifyBearerRequest teid fteid).1.teidToTunnelCtx.find? t =
      if t = teid then some { ctx with
        dwUserFteid := fteid
        pagingPending := false
        pagingQueue := if ctx.pagingPending then [] else ctx.pagingQueue }
      else s.teidToTunnelCtx.find? t := by
  rw [handleModifyBearerRequest_some hctx]
  exact OrderedMap.find?_insert _ _ _ _

theorem modified_of_ne {m : ℕ → Bool} {b : Bool} (hne : t ≠ teid) (hmod : m t = true) :
    Function.update m teid b t = true := by
  rwa [Function.update_of_ne hne]

theorem Tunnelled.update_none (ht : Tunnelled h) (hctx : h.spgw.teidToTunnelCtx.find? teid = none)
    (b : Bool) : Tunnelled ⟨h.spgw, Function.update h.modified teid b⟩ where
  registered := ht.registered
  distinct := ht.distinct
  control := ht.control
  user := by
    intro a fteid ha
    obtain ⟨t, c, hc, hca, hdw, hmod⟩ := ht.user a fteid ha
    have hne : t ≠ teid := by
      rintro rfl
      rw [hctx] at hc
      cases hc
    exact ⟨t, c, hc, hca, hdw, modified_of_ne hne hmod⟩
  queue := ht.queue

theorem ne_of_ueIpv4 (hctx : s.teidToTunnelCtx.find? teid = some ctx)
    (hctx' : s.teidToTunnelCtx.find? t = some ctx') (hne : ctx'.ueIpv4 ≠ ctx.ueIpv4) :
    t ≠ teid := by
  rintro rfl
  rw [Option.some.inj (hctx'.symm.trans hctx)] at hne
  exact hne rfl

theorem Tunnelled.modify (ht : Tunnelled h) (uninit : Bool) (teid ebi : ℕ) (fteid : GtpFteid) :
    Tunnelled (h.step (.s11 uninit (.modifyBearerRequest teid ebi fteid))) := by
  change Tunnelled ⟨(h.spgw.handleModifyBearerRequest teid fteid).1,
    Function.update h.modified teid (h.spgw.teidToTunnelCtx.find? teid).isSome⟩
  have hsame := sameSessions_modify h.spgw teid fteid
  cases hctx : h.spgw.teidToTunnelCtx.find? teid with
  | none =>
    have hspgw : (h.spgw.handleModifyBearerRequest teid fteid).1 = h.spgw := by
      unfold handleModifyBearerRequest
      rw [hctx]
    rw [hspgw]
    exact ht.update_none hctx false
  | some ctx =>
    have hteid := session_of_find hctx
    have hown : ctx.upCtrlFteid.teid = teid := ht.registered.own teid _ hteid
    have hctr : ∀ a, (h.spgw.handleModifyBearerRequest teid fteid).1.ipToCtrTeid.find? a =
        if a = ctx.ueIpv4 then some teid else h.spgw.ipToCtrTeid.find? a := by
      intro a
      rw [handleModifyBearerRequest_some hctx, ← hown]
      exact OrderedMap.find?_insert _ _ _ _
    have husr : ∀ a, (h.spgw.handleModifyBearerRequest teid fteid).1.ipToUsrTeid.find? a =
        if a = ctx.ueIpv4 then some fteid else h.spgw.ipToUsrTeid.find? a := by
      intro a
      rw [handleModifyBearerRequest_some hctx]
      exact OrderedMap.find?_insert _ _ _ _
    constructor
    · exact ht.registered.of_same hsame
    · dsimp only
      rw [hsame.session]
      exact ht.distinct
    · intro a t ha
      dsimp only at ha ⊢
      rw [hctr] at ha
      rw [hsame.session]
      split_ifs at ha with hea
      · rw [← Option.some.inj ha, hteid, hea]
        exact ⟨_, rfl, rfl⟩
      · exact ht.control a t ha
    · intro a f ha
      dsimp only at ha ⊢
      rw [husr] at ha
      split_ifs at ha with hea
      · refine ⟨teid, _, (find?_modify hctx teid).trans (if_pos rfl), hea.symm, ?_, ?_⟩
        · exact Option.some.inj ha
        · rw [Function.update_self]
          rfl
      · obtain ⟨t, c, hc, hca, hdw, hmod⟩ := ht.user a f ha
        have hne : t ≠ teid := ne_of_ueIpv4 hctx hc (by rwa [hca])
        exact ⟨t, c, (find?_modify hctx t).trans ((if_neg hne).trans hc), hca, hdw,
          modified_of_ne hne hmod⟩
    · intro t c msg hc hmsg
      dsimp only at hc
      rw [find?_modify hctx] at hc
      by_cases het : t = teid
      · rw [if_pos het] at hc
        rw [← Option.some.inj hc] at hmsg ⊢
        dsimp only at hmsg
        split_ifs at hmsg
        · cases hmsg
        · exact ht.queue teid ctx msg hctx hmsg
      · rw [if_neg het] at hc
        exact ht.queue t c msg hc hmsg

theorem Tunnelled.owned_modify (ht : Tunnelled h) {uninit : Bool} {ebi : ℕ} {f : GtpFteid}
    (hout : .s1u fteid msg ∈ (h.spgw.handle (.s11 uninit (.modifyBearerRequest teid ebi f))).2) :
    (h.step (.s11 uninit (.modifyBearerRequest teid ebi f))).Owned fteid msg := by
  have ht' := ht.modify uninit teid ebi f
  change .s1u fteid msg ∈ (h.spgw.handleModifyBearerRequest teid f).2 at hout
  cases hctx : h.spgw.teidToTunnelCtx.find? teid with
  | none =>
    unfold handleModifyBearerRequest at hout
    rw [hctx] at hout
    cases hout
  | some ctx =>
    rw [handleModifyBearerRequest_some hctx] at hout
    rcases List.mem_append.mp hout with hout | hout
    · obtain ⟨m, hm, heq⟩ := List.mem_map.mp hout
      cases heq
      split_ifs at hm
      · refine ht'.owned ((find?_modify hctx teid).trans (if_pos rfl)) ?_ rfl ?_
        · exact (ht.queue teid ctx msg hctx hm).symm
        · change Function.update h.modified teid (h.spgw.teidToTunnelCtx.find? teid).isSome teid =
            true
          rw [Function.update_self, hctx]
          rfl
      · cases hm
    · cases List.mem_singleton.mp hout

theorem Tunnelled.release (ht : Tunnelled h) (uninit : Bool) (teid : ℕ) :
    Tunnelled (h.step (.s11 uninit (.releaseAccessBearersRequest teid))) := by
  change Tunnelled ⟨h.spgw.handleReleaseAccessBearersRequest teid,
    Function.update h.modified teid false⟩
  cases hctx : h.spgw.teidToTunnelCtx.find? teid with
  | none =>
    have hspgw : h.spgw.handleReleaseAccessBearersRequest teid = h.spgw := by
      unfold handleReleaseAccessBearersRequest
      rw [hctx]
    rw [hspgw]
    exact ht.update_none hctx false
  | some ctx =>
    rw [handleReleaseAccessBearersRequest_some hctx]
    refine ⟨ht.registered.of_same (sameSessions_deleteGtpuTunnel _ _), ht.distinct, ht.control, ?_,
      ht.queue⟩
    intro a f ha
    change (h.spgw.ipToUsrTeid.erase ctx.ueIpv4).find? a = some f at ha
    rw [OrderedMap.find?_erase] at ha
    split_ifs at ha with hea
    obtain ⟨t, c, hc, hca, hdw, hmod⟩ := ht.user a f ha
    have hne : t ≠ teid := ne_of_ueIpv4 hctx hc (by rwa [hca])
    exact ⟨t, c, hc, hca, hdw, modified_of_ne hne hmod⟩

theorem find?_deleteGtpcCtx (s : Spgw) (teid t : ℕ) :
    (s.deleteGtpcCtx teid).teidToTunnelCtx.find? t =
      if t = teid then none else s.teidToTunnelCtx.find? t := by
  cases hctx : s.teidToTunnelCtx.find? teid with
  | none =>
    unfold deleteGtpcCtx
    rw [hctx]
    split_ifs with ht
    · rwa [ht]
    · rfl
  | some ctx =>
    rw [deleteGtpcCtx_some hctx]
    exact OrderedMap.find?_erase _ _ _

theorem Tunnelled.delete (ht : Tunnelled h) (uninit : Bool) (teid : ℕ) (cause : GtpcCause) :
    Tunnelled (h.step (.s11 uninit (.deleteSessionRequest teid cause))) := by
  change Tunnelled ⟨h.spgw.handleDeleteSessionRequest teid, Function.update h.modified teid false⟩
  cases hctx : h.spgw.teidToTunnelCtx.find? teid with
  | none =>
    rw [handleDeleteSessionRequest_none hctx]
    exact ht.update_none hctx false
  | some ctx =>
    have hsession := session_handleDeleteSessionRequest h.spgw teid
    rw [handleDeleteSessionRequest_some hctx] at hsession ⊢
    have hctx' : (h.spgw.deleteGtpuTunnel ctx.ueIpv4).teidToTunnelCtx.find? teid = some ctx := hctx
    have hfind := find?_deleteGtpcCtx (h.spgw.deleteGtpuTunnel ctx.ueIpv4) teid
    constructor
    · exact (ht.registered.of_same (sameSessions_deleteGtpuTunnel _ _)).delete teid
    · intro t t' x x' hx hx'
      dsimp only at hx hx'
      rw [hsession] at hx hx'
      split_ifs at hx hx'
      exact ht.distinct t t' x x' hx hx'
    · intro a t ha
      dsimp only at ha ⊢
      have hctr : (h.spgw.ipToCtrTeid.erase ctx.ueIpv4).find? a = some t := by
        rwa [deleteGtpcCtx_some hctx'] at ha
      rw [OrderedMap.find?_erase] at hctr
      split_ifs at hctr with hea
      obtain ⟨x, hx, rfl⟩ := ht.control a t hctr
      refine ⟨x, ?_, rfl⟩
      rw [hsession, if_neg]
      · exact hx
      · rintro rfl
        rw [Option.some.inj (hx.symm.trans (session_of_find hctx))] at hea
        exact hea rfl
    · intro a f ha
      dsimp only at ha ⊢
      have husr : (h.spgw.ipToUsrTeid.erase ctx.ueIpv4).find? a = some f := by
        rwa [(sameAllocator_deleteGtpcCtx _ teid).ipToUsrTeid] at ha
      rw [OrderedMap.find?_erase] at husr
      split_ifs at husr with hea
      obtain ⟨t, c, hc, hca, hdw, hmod⟩ := ht.user a f husr
      have hne : t ≠ teid := ne_of_ueIpv4 hctx hc (by rwa [hca])
      exact ⟨t, c, (hfind t).trans ((if_neg hne).trans hc), hca, hdw,
        modified_of_ne hne hmod⟩
    · intro t c msg hc hmsg
      dsimp only at hc
      rw [hfind] at hc
      split_ifs at hc
      exact ht.queue t c msg hc hmsg

section Create

variable {senderFteid : GtpFteid} {uninit : Bool}

theorem find?_create_other (hr : Registered s) (hnew : s.NewTeid imsi)
    (hctx : s.teidToTunnelCtx.find? t = some ctx) (hne : ctx.imsi ≠ imsi) :
    t ≠ s.newCtrlTeid ∧
      (s.handleCreateSessionRequest imsi senderFteid uninit).1.teidToTunnelCtx.find? t =
        some ctx := by
  have ht : t ≠ s.newCtrlTeid := by
    rintro rfl
    exact hne (hnew ctx hctx)
  refine ⟨ht, ?_⟩
  change ((s.withoutSession imsi).teidToTunnelCtx.emplace (s.withoutSession imsi).newCtrlTeid
    _).find? t = _
  rw [newCtrlTeid_withoutSession, OrderedMap.find?_emplace, if_neg ht]
  unfold withoutSession
  cases hteid : s.imsiToCtrTeid.find? imsi with
  | none => exact hctx
  | some teid =>
    dsimp only
    rw [find?_deleteGtpcCtx, if_neg]
    · exact hctx
    · rintro rfl
      obtain ⟨x, hx, himsi⟩ := (hr.inverse imsi t).mp hteid
      rw [Option.some.inj (hx.symm.trans (session_of_find hctx))] at himsi
      exact hne himsi

theorem find?_create (hr : Registered s) (hnew : s.NewTeid imsi)
    (hctx : (s.handleCreateSessionRequest imsi senderFteid uninit).1.teidToTunnelCtx.find? t =
      some ctx) : ctx.pagingQueue = [] ∨ s.teidToTunnelCtx.find? t = some ctx := by
  change ((s.withoutSession imsi).teidToTunnelCtx.emplace (s.withoutSession imsi).newCtrlTeid
    _).find? t = _ at hctx
  have hfree := session_eq_none.mp (hr.free hnew)
  rw [newCtrlTeid_withoutSession, OrderedMap.find?_emplace, hfree] at hctx
  split_ifs at hctx
  · exact Or.inl (by rw [← Option.some.inj hctx]; rfl)
  · refine Or.inr ?_
    unfold withoutSession at hctx
    cases hteid : s.imsiToCtrTeid.find? imsi with
    | none => rwa [hteid] at hctx
    | some teid =>
      rw [hteid] at hctx
      dsimp only at hctx
      rw [find?_deleteGtpcCtx] at hctx
      split_ifs at hctx
      exact hctx

theorem find?_ipToCtrTeid_create (s : Spgw) (a : ℕ) :
    (s.handleCreateSessionRequest imsi senderFteid uninit).1.ipToCtrTeid.find? a = some t →
      s.ipToCtrTeid.find? a = some t ∧ ∀ teid ctx, s.imsiToCtrTeid.find? imsi = some teid →
        s.teidToTunnelCtx.find? teid = some ctx → ctx.ueIpv4 ≠ a := by
  change (s.withoutSession imsi).ipToCtrTeid.find? a = some t → _
  unfold withoutSession
  cases hteid : s.imsiToCtrTeid.find? imsi with
  | none =>
    intro ha
    exact ⟨ha, fun teid ctx hfalse => by cases hfalse⟩
  | some teid =>
    dsimp only
    cases hctx : s.teidToTunnelCtx.find? teid with
    | none =>
      unfold deleteGtpcCtx
      rw [hctx]
      intro ha
      refine ⟨ha, fun teid' ctx heq hctx' => ?_⟩
      rw [← Option.some.inj heq, hctx] at hctx'
      cases hctx'
    | some ctx =>
      rw [deleteGtpcCtx_some hctx]
      intro ha
      change (s.ipToCtrTeid.erase ctx.ueIpv4).find? a = some t at ha
      rw [OrderedMap.find?_erase] at ha
      split_ifs at ha with hea
      refine ⟨ha, fun teid' ctx' heq hctx' => ?_⟩
      rw [← Option.some.inj heq, hctx] at hctx'
      rw [← Option.some.inj hctx']
      exact Ne.symm hea

theorem Tunnelled.create (ht : Tunnelled h) (hnew : h.spgw.NewTeid imsi)
    (hfree : h.AddressFree (.s11 uninit (.createSessionRequest imsi senderFteid)))
    (hno : h.NoUserTunnel (.s11 uninit (.createSessionRequest imsi senderFteid))) :
    Tunnelled (h.step (.s11 uninit (.createSessionRequest imsi senderFteid))) := by
  change Tunnelled ⟨(h.spgw.handleCreateSessionRequest imsi senderFteid uninit).1,
    Function.update h.modified h.spgw.newCtrlTeid false⟩
  have hr := ht.registered
  have hold : ∀ t x, h.spgw.session t = some x → x.imsi ≠ imsi →
      x.ueIpv4 ≠ h.spgw.newUeIpv4 imsi := by
    intro t x hx hne
    obtain ⟨ctx, hctx, rfl⟩ := session_eq_some hx
    exact hfree t ctx hctx hne
  constructor
  · exact hr.create hnew
  · intro t t' x x' hx hx' heq
    dsimp only at hx hx'
    rw [hr.session_create hnew] at hx hx'
    split_ifs at hx hx' with htn htn' htn'
    · rw [htn, htn']
    · obtain ⟨hx', hne⟩ := Option.filter_eq_some_iff.mp hx'
      rw [← Option.some.inj hx] at heq
      exact absurd heq.symm (hold t' x' hx' (of_decide_eq_true hne))
    · obtain ⟨hx, hne⟩ := Option.filter_eq_some_iff.mp hx
      rw [← Option.some.inj hx'] at heq
      exact absurd heq (hold t x hx (of_decide_eq_true hne))
    · exact ht.distinct t t' x x' (Option.filter_eq_some_iff.mp hx).1
        (Option.filter_eq_some_iff.mp hx').1 heq
  · intro a t ha
    dsimp only at ha ⊢
    obtain ⟨ha, hne⟩ := find?_ipToCtrTeid_create h.spgw a ha
    obtain ⟨x, hx, hxa⟩ := ht.control a t ha
    obtain ⟨ctx, hctx, rfl⟩ := session_eq_some hx
    have himsi : ctx.imsi ≠ imsi := by
      intro himsi
      exact hne t ctx ((hr.inverse imsi t).mpr ⟨_, hx, himsi⟩) hctx hxa
    exact ⟨_, session_of_find (find?_create_other hr hnew hctx himsi).2, hxa⟩
  · intro a f ha
    dsimp only at ha ⊢
    change (h.spgw.withoutSession imsi).ipToUsrTeid.find? a = some f at ha
    rw [(sameAllocator_withoutSession h.spgw imsi).ipToUsrTeid] at ha
    obtain ⟨t, ctx, hctx, hca, hdw, hmod⟩ := ht.user a f ha
    have himsi : ctx.imsi ≠ imsi := by
      intro himsi
      have hnone := hno t ctx
        ((hr.inverse imsi t).mpr ⟨_, session_of_find hctx, himsi⟩) hctx
      rw [hca, ha] at hnone
      cases hnone
    obtain ⟨hne, hctx'⟩ := find?_create_other hr hnew hctx himsi
    exact ⟨t, ctx, hctx', hca, hdw, modified_of_ne hne hmod⟩
  · intro t ctx msg hctx hmsg
    rcases find?_create hr hnew hctx with hempty | hold
    · rw [hempty] at hmsg
      cases hmsg
    · exact ht.queue t ctx msg hold hmsg

theorem Tunnelled.noUserTunnel (ht : Tunnelled h) (hnew : h.spgw.NewTeid imsi)
    (hsound : TunnelsSound (h.step (.s11 uninit (.createSessionRequest imsi senderFteid)))) :
    h.NoUserTunnel (.s11 uninit (.createSessionRequest imsi senderFteid)) := by
  intro teid ctx hteid hctx
  have hr := ht.registered
  cases husr : h.spgw.ipToUsrTeid.find? ctx.ueIpv4 with
  | none => rfl
  | some fteid =>
    obtain ⟨x, hx, himsi⟩ := (hr.inverse imsi teid).mp hteid
    have hleft := hsound.user ctx.ueIpv4 fteid
    change (h.spgw.withoutSession imsi).ipToUsrTeid.find? ctx.ueIpv4 = some fteid → _ at hleft
    rw [(sameAllocator_withoutSession h.spgw imsi).ipToUsrTeid] at hleft
    obtain ⟨t, c, hc, hca, hmod⟩ := hleft husr
    have hsession := session_of_find hc
    change (h.spgw.handleCreateSessionRequest imsi senderFteid uninit).1.session t = _ at hsession
    rw [hr.session_create hnew] at hsession
    change Function.update h.modified h.spgw.newCtrlTeid false t = true at hmod
    split_ifs at hsession with htn
    · rw [htn, Function.update_self] at hmod
      cases hmod
    · obtain ⟨hold, hne⟩ := Option.filter_eq_some_iff.mp hsession
      have heq : t = teid := ht.distinct t teid _ _ hold (session_of_find hctx) hca
      rw [heq, hx] at hold
      rw [← Option.some.inj hold] at hne
      exact absurd himsi (of_decide_eq_true hne)

end Create

def NewSession (h : SpgwHistory) (e : SpgwEvent) : Prop := h.spgw.TeidFree e ∧ h.AddressFree e

theorem Tunnelled.step (ht : Tunnelled h) {e : SpgwEvent} (hnew : h.NewSession e)
    (hno : h.NoUserTunnel e) : Tunnelled (h.step e) := by
  cases e with
  | sgi msg => exact ht.sgi msg
  | s11 uninit pdu =>
    cases pdu with
    | createSessionRequest imsi senderFteid => exact ht.create hnew.1 hnew.2 hno
    | modifyBearerRequest teid ebi fteid => exact ht.modify uninit teid ebi fteid
    | deleteSessionRequest teid cause => exact ht.delete uninit teid cause
    | releaseAccessBearersRequest teid => exact ht.release uninit teid
    | downlinkDataNotificationAcknowledge teid cause =>
      have hq : QueuesOwn h.spgw := ht.queue
      exact ht.paging (onlyPaging_acknowledge _ _ _) (hq.acknowledge teid cause)
    | downlinkDataNotificationFailureIndication teid cause =>
      have hq : QueuesOwn h.spgw := ht.queue
      exact ht.paging (onlyPaging_failure _ _) (hq.failure teid)
    | createSessionResponse _ _ => exact ht
    | modifyBearerResponse _ _ _ => exact ht
    | downlinkDataNotification _ _ => exact ht

theorem Tunnelled.owned_step (ht : Tunnelled h) {e : SpgwEvent}
    (hout : .s1u fteid msg ∈ (h.spgw.handle e).2) : (h.step e).Owned fteid msg := by
  cases e with
  | sgi pdu => exact ht.owned_sgi hout
  | s11 uninit pdu =>
    cases pdu with
    | modifyBearerRequest teid ebi f => exact ht.owned_modify hout
    | createSessionRequest imsi senderFteid => cases List.mem_singleton.mp hout
    | _ => cases hout

theorem tunnelled_init {args : SpgwArgs} {ipToImsi : OrderedMap ℕ ℕ}
    (hinit : Spgw.init args ipToImsi = some s) : Tunnelled ⟨s, fun _ => false⟩ := by
  have hsession := session_init hinit
  have hfind := fun t => session_eq_none.mp (hsession t)
  have hreg := registered_init hinit
  unfold Spgw.init at hinit
  split_ifs at hinit
  obtain ⟨m, -, rfl⟩ := Option.map_eq_some_iff.mp hinit
  constructor
  · exact hreg
  · intro t t' x x' hx
    rw [hsession] at hx
    cases hx
  · intro a t ha
    cases (OrderedMap.find?_empty a).symm.trans ha
  · intro a f ha
    cases (OrderedMap.find?_empty a).symm.trans ha
  · intro t c msg hc
    rw [hfind] at hc
    cases hc

/-- In a run in which new sessions get TEIDs and addresses that no other IMSI has, what is claimed
of tunnels holds all along if and only if no UE with a user tunnel attaches again. -/
theorem tunnels_sound_iff {args : SpgwArgs} {ipToImsi : OrderedMap ℕ ℕ} {s₀ : Spgw}
    (hinit : Spgw.init args ipToImsi = some s₀) (events : List SpgwEvent)
    (hnew : Along SpgwHistory.step NewSession ⟨s₀, fun _ => false⟩ events) :
    TunnelsSound ⟨s₀, fun _ => false⟩ ∧
        Along SpgwHistory.step TunnelStep ⟨s₀, fun _ => false⟩ events ↔
      Along SpgwHistory.step NoUserTunnel ⟨s₀, fun _ => false⟩ events := by
  have hbase := tunnelled_init hinit
  have hboth : Along SpgwHistory.step (fun h e => NoUserTunnel h e ∧ NewSession h e)
        ⟨s₀, fun _ => false⟩ events ↔
      Along SpgwHistory.step (fun h e => TunnelStep h e ∧ NewSession h e)
        ⟨s₀, fun _ => false⟩ events := by
    refine along_congr (I := Tunnelled) ?_ ?_ hbase
    · exact fun h e ht hstep => ht.step hstep.2 hstep.1
    · intro h e ht
      refine and_congr_left fun hstep => ⟨fun hno => ?_, fun hsound => ?_⟩
      · exact ⟨(ht.step hstep hno).sound, fun fteid msg hout => ht.owned_step hout⟩
      · cases e with
        | sgi msg => trivial
        | s11 uninit pdu =>
          cases pdu with
          | createSessionRequest imsi senderFteid => exact ht.noUserTunnel hstep.1 hsound.1
          | _ => trivial
  rw [along_and, along_and, and_iff_left hnew, and_iff_left hnew] at hboth
  rw [and_iff_right hbase.sound, hboth]

def enb (teid : ℕ) : GtpFteid := ⟨192 + 168 * 2 ^ 8 + 1 * 2 ^ 24, teid⟩

def bearer (teid enbTeid : ℕ) : SpgwEvent := .s11 false (.modifyBearerRequest teid 5 (enb enbTeid))

def idle (teid : ℕ) : SpgwEvent := .s11 false (.releaseAccessBearersRequest teid)

theorem tunnels_sound_after_idle : TunnelsSound ⟨epc, fun _ => false⟩ ∧
    Along SpgwHistory.step TunnelStep ⟨epc, fun _ => false⟩
      [attach 7 1, bearer 1 9, idle 1, attach 7 2, bearer 2 9] := by
  have hinit : init epcArgs oneStatic = some epc := rfl
  have hnew : Along SpgwHistory.step NewSession ⟨epc, fun _ => false⟩
      [attach 7 1, bearer 1 9, idle 1, attach 7 2, bearer 2 9] := by
    refine ⟨⟨?_, ?_⟩, ⟨trivial, trivial⟩, ⟨trivial, trivial⟩, ⟨?_, ?_⟩, ⟨trivial, trivial⟩, trivial⟩
    · intro ctx hctx
      cases hctx
    · intro t ctx hctx
      cases OrderedMap.find?_eq_some_iff.mp hctx
    · intro ctx hctx
      cases hctx
    · intro t ctx hctx hne
      cases List.mem_singleton.mp (OrderedMap.find?_eq_some_iff.mp hctx)
      exact absurd rfl hne
  refine (tunnels_sound_iff hinit _ hnew).mpr ⟨?_, trivial, trivial, ?_, trivial, trivial⟩
  · intro t ctx ht
    cases ht
  · intro t ctx ht hctx
    cases ht
    cases hctx
    rfl

/-- A UE with a user tunnel attaches again. -/
theorem user_tunnel_left : ¬ (TunnelsSound ⟨epc, fun _ => false⟩ ∧
    Along SpgwHistory.step TunnelStep ⟨epc, fun _ => false⟩
      [attach 7 1, bearer 1 9, attach 7 2]) := by
  rintro ⟨-, -, -, hagain, -⟩
  obtain ⟨t, ctx, hctx, -, hmod⟩ := hagain.1.user (172 + 16 * 2 ^ 8 + 2 * 2 ^ 24) (enb 9) rfl
  cases List.mem_singleton.mp (OrderedMap.find?_eq_some_iff.mp hctx)
  cases hmod

end SpgwHistory

end SrsLte
