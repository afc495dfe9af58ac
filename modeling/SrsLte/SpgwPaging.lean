import SrsLte.SpgwTunnels
import Mathlib.Data.List.Induction

/-!
# The paging queue

What becomes of the packets that `queue_downlink_packet` accepts for a session. The queue of a
session is drained by a Modify Bearer Request and freed when paging fails; `delete_gtpc_ctx`
deletes the context, and the packets in its queue are neither sent nor deallocated.
-/

namespace SrsLte

/-- What happens to a packet of the paging queue: it is pushed, it is popped after `send_s1u_pdu`,
or it is popped after it went back to the pool. -/
inductive QueueOp
  | accepted (msg : SgiPdu)
  | sent (enbFteid : GtpFteid) (msg : SgiPdu)
  | deallocated (msg : SgiPdu)
  deriving DecidableEq

namespace Spgw

def sendAllQueuedPackets (dwUserFteid : GtpFteid) : List SgiPdu → List QueueOp
  | [] => []
  | msg :: queue => .sent dwUserFteid msg :: sendAllQueuedPackets dwUserFteid queue

def freeAllQueuedPackets : List SgiPdu → List QueueOp
  | [] => []
  | msg :: queue => .deallocated msg :: freeAllQueuedPackets queue

def queueOf (s : Spgw) (teid : ℕ) : List SgiPdu :=
  ((s.teidToTunnelCtx.find? teid).map SpgwTunnelCtx.pagingQueue).getD []

def pagingPendingOf (s : Spgw) (teid : ℕ) : Bool :=
  ((s.teidToTunnelCtx.find? teid).map SpgwTunnelCtx.pagingPending).getD false

/-- A packet for a UE that is attached but has no user tunnel goes to the queue of `teid`. -/
def Pages (s : Spgw) (teid : ℕ) (msg : SgiPdu) : Prop :=
  msg.version = 4 ∧ 20 ≤ msg.totLen ∧ s.ipToUsrTeid.find? msg.daddr = none ∧
    s.ipToCtrTeid.find? msg.daddr = some teid

instance (s : Spgw) (teid : ℕ) (msg : SgiPdu) : Decidable (s.Pages teid msg) :=
  inferInstanceAs (Decidable (_ ∧ _ ∧ _ ∧ _))

def queueOps (s : Spgw) (teid : ℕ) : SpgwEvent → List QueueOp
  | .s11 _ (.modifyBearerRequest t _ s1uEnbFteid) =>
    if t = teid ∧ s.pagingPendingOf teid then sendAllQueuedPackets s1uEnbFteid (s.queueOf teid)
    else []
  | .s11 _ (.downlinkDataNotificationAcknowledge t cause) =>
    if t = teid ∧ cause ≠ .requestAccepted then freeAllQueuedPackets (s.queueOf teid) else []
  | .s11 _ (.downlinkDataNotificationFailureIndication t _) =>
    if t = teid then freeAllQueuedPackets (s.queueOf teid) else []
  | .sgi msg =>
    if s.Pages teid msg ∧ (s.teidToTunnelCtx.find? teid).isSome ∧
        (s.queueOf teid).length < s.maxPagingQueue then [.accepted msg]
    else []
  | _ => []

def DeletesCtx (s : Spgw) (teid : ℕ) : SpgwEvent → Prop
  | .s11 _ (.deleteSessionRequest t _) => t = teid
  | .s11 _ (.createSessionRequest imsi _) => s.imsiToCtrTeid.find? imsi = some teid
  | _ => False

instance (s : Spgw) (teid : ℕ) (e : SpgwEvent) : Decidable (s.DeletesCtx teid e) := by
  unfold DeletesCtx
  split <;> infer_instance

def lost (s : Spgw) (teid : ℕ) (e : SpgwEvent) : List SgiPdu :=
  if s.DeletesCtx teid e then s.queueOf teid else []

end Spgw

namespace QueueOp

def accepted? : QueueOp → Option SgiPdu
  | accepted msg => some msg
  | _ => none

def left? : QueueOp → Option SgiPdu
  | sent _ msg => some msg
  | deallocated msg => some msg
  | accepted _ => none

def acceptedBy (ops : List QueueOp) : List SgiPdu := ops.filterMap accepted?

def leftBy (ops : List QueueOp) : List SgiPdu := ops.filterMap left?

theorem acceptedBy_send (fteid : GtpFteid) (queue : List SgiPdu) :
    acceptedBy (Spgw.sendAllQueuedPackets fteid queue) = [] ∧
      leftBy (Spgw.sendAllQueuedPackets fteid queue) = queue := by
  induction queue with
  | nil => exact ⟨rfl, rfl⟩
  | cons msg queue ih => exact ⟨ih.1, congrArg (msg :: ·) ih.2⟩

theorem acceptedBy_free (queue : List SgiPdu) :
    acceptedBy (Spgw.freeAllQueuedPackets queue) = [] ∧
      leftBy (Spgw.freeAllQueuedPackets queue) = queue := by
  induction queue with
  | nil => exact ⟨rfl, rfl⟩
  | cons msg queue ih => exact ⟨ih.1, congrArg (msg :: ·) ih.2⟩

end QueueOp

namespace Spgw

open QueueOp

variable {s : Spgw} {teid : ℕ}

def paging (s : Spgw) (teid : ℕ) : Bool × List SgiPdu := (s.pagingPendingOf teid, s.queueOf teid)

theorem paging_congr {s' : Spgw}
    (h : s'.teidToTunnelCtx.find? teid = s.teidToTunnelCtx.find? teid) :
    s'.paging teid = s.paging teid := by
  unfold paging pagingPendingOf queueOf
  rw [h]

theorem paging_of_some {ctx : SpgwTunnelCtx} (h : s.teidToTunnelCtx.find? teid = some ctx) :
    s.paging teid = (ctx.pagingPending, ctx.pagingQueue) := by
  unfold paging pagingPendingOf queueOf
  rw [h]
  rfl

theorem paging_of_none (h : s.teidToTunnelCtx.find? teid = none) : s.paging teid = (false, []) := by
  unfold paging pagingPendingOf queueOf
  rw [h]
  rfl

section

variable (t : ℕ)
include t

theorem paging_setTunnelCtx (ctx : SpgwTunnelCtx) :
    (s.setTunnelCtx t ctx).paging teid =
      if teid = t then (ctx.pagingPending, ctx.pagingQueue) else s.paging teid := by
  by_cases ht : teid = t
  · subst ht
    rw [if_pos rfl]
    exact paging_of_some (by rw [setTunnelCtx, OrderedMap.find?_insert, if_pos rfl])
  · rw [if_neg ht]
    exact paging_congr (by rw [setTunnelCtx, OrderedMap.find?_insert, if_neg ht])

theorem paging_deleteGtpcCtx :
    (s.deleteGtpcCtx t).paging teid = if teid = t then (false, []) else s.paging teid := by
  have hfind := SpgwHistory.find?_deleteGtpcCtx s t teid
  by_cases ht : teid = t
  · rw [if_pos ht] at hfind ⊢
    exact paging_of_none hfind
  · rw [if_neg ht] at hfind ⊢
    exact paging_congr hfind

theorem paging_modify (fteid : GtpFteid) :
    (s.handleModifyBearerRequest t fteid).1.paging teid =
      if teid = t then (false, if s.pagingPendingOf teid then [] else s.queueOf teid)
      else s.paging teid := by
  cases hctx : s.teidToTunnelCtx.find? t with
  | none =>
    have hsame : (s.handleModifyBearerRequest t fteid).1 = s := by
      unfold handleModifyBearerRequest
      rw [hctx]
    rw [hsame]
    by_cases ht : teid = t
    · subst ht
      have hnone := paging_of_none hctx
      obtain ⟨hpending, hqueue⟩ := Prod.mk.inj hnone
      rw [if_pos rfl, hpending, hqueue, hnone]
      rfl
    · rw [if_neg ht]
  | some ctx =>
    rw [handleModifyBearerRequest_some hctx]
    refine Eq.trans (paging_congr (s := s.setTunnelCtx t _) rfl) ?_
    rw [paging_setTunnelCtx]
    by_cases ht : teid = t
    · subst ht
      obtain ⟨hpending, hqueue⟩ := Prod.mk.inj (paging_of_some hctx)
      rw [if_pos rfl, if_pos rfl, hpending, hqueue]
    · rw [if_neg ht, if_neg ht]

theorem paging_stopPaging (ctx : SpgwTunnelCtx) :
    (s.stopPaging t ctx).paging teid = if teid = t then (false, []) else s.paging teid :=
  paging_setTunnelCtx t _

theorem paging_failure :
    (s.handleDownlinkDataNotificationFailureIndication t).paging teid =
      if teid = t then (false, []) else s.paging teid := by
  unfold handleDownlinkDataNotificationFailureIndication
  cases hctx : s.teidToTunnelCtx.find? t with
  | none =>
    split_ifs with ht
    · subst ht
      exact paging_of_none hctx
    · rfl
  | some ctx => exact paging_stopPaging t ctx

theorem paging_acknowledge (cause : GtpcCause) :
    (s.handleDownlinkDataNotificationAcknowledge t cause).paging teid =
      if teid = t ∧ cause ≠ .requestAccepted then (false, []) else s.paging teid := by
  unfold handleDownlinkDataNotificationAcknowledge
  cases hctx : s.teidToTunnelCtx.find? t with
  | none =>
    dsimp only
    split_ifs with ht
    · rw [ht.1]
      exact paging_of_none hctx
    · rfl
  | some ctx =>
    dsimp only
    by_cases hcause : cause = .requestAccepted
    · subst hcause
      rw [if_neg (by decide), if_neg (not_not.mpr rfl), if_neg fun h => h.2 rfl]
    · rw [if_pos hcause, ite_self, paging_stopPaging]
      exact if_congr (and_iff_left hcause).symm rfl rfl

theorem paging_release :
    (s.handleReleaseAccessBearersRequest t).paging teid = s.paging teid := by
  unfold handleReleaseAccessBearersRequest
  cases s.teidToTunnelCtx.find? t with
  | none => rfl
  | some ctx => exact paging_congr rfl

theorem paging_delete : (s.handleDeleteSessionRequest t).paging teid =
    if teid = t then (false, []) else s.paging teid := by
  unfold handleDeleteSessionRequest
  cases hctx : s.teidToTunnelCtx.find? t with
  | none =>
    split_ifs with ht
    · subst ht
      exact paging_of_none hctx
    · rfl
  | some ctx => exact paging_deleteGtpcCtx t

end

theorem paging_withoutSession (imsi : ℕ) : (s.withoutSession imsi).paging teid =
    if s.imsiToCtrTeid.find? imsi = some teid then (false, []) else s.paging teid := by
  unfold withoutSession
  cases hteid : s.imsiToCtrTeid.find? imsi with
  | none => exact (if_neg nofun).symm
  | some t =>
    dsimp only
    rw [paging_deleteGtpcCtx]
    exact if_congr (by rw [Option.some.injEq, eq_comm]) rfl rfl

theorem paging_createGtpcCtx (imsi : ℕ) (senderFteid : GtpFteid) (uninit : Bool) :
    (s.createGtpcCtx imsi senderFteid uninit).paging teid = s.paging teid ∨
      s.queueOf teid = [] ∧
        (s.createGtpcCtx imsi senderFteid uninit).paging teid = (uninit, []) := by
  have hfind : (s.createGtpcCtx imsi senderFteid uninit).teidToTunnelCtx.find? teid =
      if teid = s.newCtrlTeid then some ((s.teidToTunnelCtx.find? s.newCtrlTeid).getD
        (s.newTunnelCtx imsi senderFteid uninit)) else s.teidToTunnelCtx.find? teid :=
    OrderedMap.find?_emplace _ _ _ _
  by_cases ht : teid = s.newCtrlTeid
  · rw [if_pos ht, ← ht] at hfind
    cases hctx : s.teidToTunnelCtx.find? teid with
    | none =>
      rw [hctx] at hfind
      exact Or.inr ⟨(Prod.mk.inj (paging_of_none hctx)).2, paging_of_some hfind⟩
    | some ctx =>
      rw [hctx] at hfind
      exact Or.inl (paging_congr (hfind.trans hctx.symm))
  · rw [if_neg ht] at hfind
    exact Or.inl (paging_congr hfind)

theorem paging_create (imsi : ℕ) (senderFteid : GtpFteid) (uninit : Bool) :
    (s.handleCreateSessionRequest imsi senderFteid uninit).1.paging teid =
        (if s.imsiToCtrTeid.find? imsi = some teid then (false, []) else s.paging teid) ∨
      (s.imsiToCtrTeid.find? imsi = some teid ∨ s.queueOf teid = []) ∧
        (s.handleCreateSessionRequest imsi senderFteid uninit).1.paging teid = (uninit, []) := by
  have hwithout := @paging_withoutSession s teid imsi
  rcases @paging_createGtpcCtx (s.withoutSession imsi) teid imsi senderFteid uninit
    with hkept | ⟨hempty, hnew⟩
  · exact Or.inl (hkept.trans hwithout)
  · refine Or.inr ⟨?_, hnew⟩
    by_cases hteid : s.imsiToCtrTeid.find? imsi = some teid
    · exact Or.inl hteid
    · rw [if_neg hteid] at hwithout
      exact Or.inr ((Prod.mk.inj hwithout).2.symm.trans hempty)

theorem paging_sendDownlinkDataNotification (t : ℕ) :
    (s.sendDownlinkDataNotification t).1.paging teid =
        (if teid = t ∧ (s.teidToTunnelCtx.find? t).isSome then (true, s.queueOf teid)
          else s.paging teid) ∧
      (s.sendDownlinkDataNotification t).1.maxPagingQueue = s.maxPagingQueue ∧
      ((s.sendDownlinkDataNotification t).1.teidToTunnelCtx.find? t).isSome =
        (s.teidToTunnelCtx.find? t).isSome := by
  unfold sendDownlinkDataNotification
  cases hctx : s.teidToTunnelCtx.find? t with
  | none =>
    refine ⟨?_, rfl, ?_⟩
    · rw [if_neg fun h => absurd h.2 Bool.false_ne_true]
    · dsimp only
      rw [hctx]
  | some ctx =>
    dsimp only
    by_cases hpending : ctx.pagingPending = true
    · rw [if_pos hpending]
      refine ⟨?_, rfl, by rw [hctx]⟩
      split_ifs with ht
      · obtain ⟨rfl, -⟩ := ht
        have hsome := paging_of_some hctx
        rw [hpending] at hsome
        rw [hsome, (Prod.mk.inj hsome).2]
      · rfl
    · rw [if_neg hpending]
      refine ⟨?_, rfl, ?_⟩
      · dsimp only
        rw [paging_setTunnelCtx]
        by_cases ht : teid = t
        · subst ht
          rw [if_pos rfl, if_pos ⟨rfl, rfl⟩, (Prod.mk.inj (paging_of_some hctx)).2]
        · rw [if_neg ht, if_neg fun h => ht h.1]
      · dsimp only
        rw [setTunnelCtx, OrderedMap.find?_insert, if_pos rfl]
        rfl

theorem paging_queueDownlinkPacket (t : ℕ) (msg : SgiPdu) :
    (s.queueDownlinkPacket t msg).paging teid =
      if teid = t ∧ s.pagingPendingOf teid ∧ (s.queueOf teid).length < s.maxPagingQueue then
        (true, s.queueOf teid ++ [msg])
      else s.paging teid := by
  unfold queueDownlinkPacket
  cases hctx : s.teidToTunnelCtx.find? t with
  | none =>
    rw [if_neg]
    rintro ⟨rfl, hpending, -⟩
    rw [(Prod.mk.inj (paging_of_none hctx)).1] at hpending
    exact absurd hpending Bool.false_ne_true
  | some ctx =>
    dsimp only
    obtain ⟨hpending, hqueue⟩ := Prod.mk.inj (paging_of_some hctx)
    by_cases hroom : ctx.pagingPending = true ∧ ctx.pagingQueue.length < s.maxPagingQueue
    · rw [if_pos hroom, paging_setTunnelCtx]
      by_cases ht : teid = t
      · subst ht
        rw [hpending, hqueue, if_pos rfl, if_pos ⟨rfl, hroom⟩, hroom.1]
      · rw [if_neg ht, if_neg fun h => ht h.1]
    · rw [if_neg hroom, if_neg]
      rintro ⟨rfl, hroom'⟩
      rw [hpending, hqueue] at hroom'
      exact hroom hroom'

theorem paging_sgi (msg : SgiPdu) : (s.handleSgiPdu msg).1.paging teid =
    if s.Pages teid msg ∧ (s.teidToTunnelCtx.find? teid).isSome then
      (true, if (s.queueOf teid).length < s.maxPagingQueue then s.queueOf teid ++ [msg]
        else s.queueOf teid)
    else s.paging teid := by
  unfold handleSgiPdu
  by_cases hversion : msg.version ≠ 4
  · rw [if_pos hversion, if_neg fun h => hversion h.1.1]
  rw [if_neg hversion]
  by_cases hlen : msg.totLen < 20
  · rw [if_pos hlen, if_neg fun h => Nat.not_le.mpr hlen h.1.2.1]
  rw [if_neg hlen]
  cases husr : s.ipToUsrTeid.find? msg.daddr with
  | some fteid =>
    rw [if_neg]
    rintro ⟨⟨-, -, hnone, -⟩, -⟩
    rw [husr] at hnone
    cases hnone
  | none =>
    cases hctr : s.ipToCtrTeid.find? msg.daddr with
    | none =>
      rw [if_neg]
      rintro ⟨⟨-, -, -, hsome⟩, -⟩
      rw [hctr] at hsome
      cases hsome
    | some t =>
      dsimp only
      obtain ⟨hpaging, hmax, -⟩ :=
        @paging_sendDownlinkDataNotification s teid t
      rw [paging_queueDownlinkPacket, hmax]
      by_cases ht : teid = t ∧ (s.teidToTunnelCtx.find? t).isSome = true
      · obtain ⟨rfl, hsome⟩ := ht
        rw [if_pos ⟨rfl, hsome⟩] at hpaging
        obtain ⟨hpending, hqueue⟩ := Prod.mk.inj hpaging
        have hpages : s.Pages teid msg := ⟨not_not.mp hversion, Nat.not_lt.mp hlen, husr, hctr⟩
        rw [hpending, hqueue, if_pos (⟨hpages, hsome⟩ : _ ∧ _), hpaging]
        by_cases hroom : (s.queueOf teid).length < s.maxPagingQueue
        · rw [if_pos ⟨rfl, rfl, hroom⟩, if_pos hroom]
        · rw [if_neg fun h => hroom h.2.2, if_neg hroom]
      · rw [if_neg ht] at hpaging
        obtain ⟨hpending, hqueue⟩ := Prod.mk.inj hpaging
        have hno : ¬(s.Pages teid msg ∧ (s.teidToTunnelCtx.find? teid).isSome = true) := by
          rintro ⟨⟨-, -, -, hteid⟩, hsome⟩
          obtain rfl := Option.some.inj (hteid.symm.trans hctr)
          exact ht ⟨rfl, hsome⟩
        rw [if_neg hno, hpending, hqueue, hpaging, if_neg]
        rintro ⟨rfl, hpend, -⟩
        have hnone : s.teidToTunnelCtx.find? teid = none := by
          rw [← Option.not_isSome_iff_eq_none]
          exact fun hsome => ht ⟨rfl, hsome⟩
        rw [(Prod.mk.inj (paging_of_none hnone)).1] at hpend
        exact absurd hpend Bool.false_ne_true

def PagingFails (teid : ℕ) : SpgwEvent → Prop
  | .s11 _ (.downlinkDataNotificationAcknowledge t cause) => t = teid ∧ cause ≠ .requestAccepted
  | .s11 _ (.downlinkDataNotificationFailureIndication t _) => t = teid
  | _ => False

inductive PagingStep (s : Spgw) (teid : ℕ) (e : SpgwEvent) : Prop
  | same : s.queueOps teid e = [] → s.lost teid e = [] →
    (s.step e).paging teid = s.paging teid → PagingStep s teid e
  | accepted (msg : SgiPdu) : s.queueOps teid e = [.accepted msg] → s.lost teid e = [] →
    (s.queueOf teid).length < s.maxPagingQueue →
    (s.step e).paging teid = (true, s.queueOf teid ++ [msg]) → PagingStep s teid e
  | full : s.queueOps teid e = [] → s.lost teid e = [] →
    (s.step e).paging teid = (true, s.queueOf teid) → PagingStep s teid e
  | sent (uninit : Bool) (ebi : ℕ) (fteid : GtpFteid) :
    e = .s11 uninit (.modifyBearerRequest teid ebi fteid) →
    s.queueOps teid e = sendAllQueuedPackets fteid (s.queueOf teid) → s.lost teid e = [] →
    (s.step e).paging teid = (false, []) → PagingStep s teid e
  | freed : PagingFails teid e → s.queueOps teid e = freeAllQueuedPackets (s.queueOf teid) →
    s.lost teid e = [] → (s.step e).paging teid = (false, []) → PagingStep s teid e
  | deleted : s.queueOps teid e = [] → s.lost teid e = s.queueOf teid →
    (s.step e).queueOf teid = [] → PagingStep s teid e
  | created : s.queueOps teid e = [] → s.lost teid e = [] → s.queueOf teid = [] →
    (s.step e).queueOf teid = [] → PagingStep s teid e

theorem pagingStep_sgi (msg : SgiPdu) : PagingStep s teid (.sgi msg) := by
  have hpaging : (s.step (.sgi msg)).paging teid = _ := paging_sgi msg
  by_cases hpages : s.Pages teid msg ∧ (s.teidToTunnelCtx.find? teid).isSome = true
  · rw [if_pos hpages] at hpaging
    by_cases hroom : (s.queueOf teid).length < s.maxPagingQueue
    · rw [if_pos hroom] at hpaging
      exact .accepted msg (if_pos ⟨hpages.1, hpages.2, hroom⟩) rfl hroom hpaging
    · rw [if_neg hroom] at hpaging
      exact .full (if_neg fun h => hroom h.2.2) rfl hpaging
  · rw [if_neg hpages] at hpaging
    exact .same (if_neg fun h => hpages ⟨h.1, h.2.1⟩) rfl hpaging

theorem pagingStep_create (uninit : Bool) (imsi : ℕ) (senderFteid : GtpFteid) :
    PagingStep s teid (.s11 uninit (.createSessionRequest imsi senderFteid)) := by
  have hpaging := @paging_create s teid imsi senderFteid uninit
  by_cases hteid : s.imsiToCtrTeid.find? imsi = some teid
  · rw [if_pos hteid] at hpaging
    rcases hpaging with h | ⟨-, h⟩
    · exact .deleted rfl (if_pos hteid) (Prod.mk.inj h).2
    · exact .deleted rfl (if_pos hteid) (Prod.mk.inj h).2
  · rw [if_neg hteid] at hpaging
    rcases hpaging with h | ⟨hempty, h⟩
    · exact .same rfl (if_neg hteid) h
    · exact .created rfl (if_neg hteid) (hempty.resolve_left hteid) (Prod.mk.inj h).2

theorem pagingStep_modify (uninit : Bool) (t ebi : ℕ) (fteid : GtpFteid) :
    PagingStep s teid (.s11 uninit (.modifyBearerRequest t ebi fteid)) := by
  have hpaging := @paging_modify s teid t fteid
  by_cases ht : teid = t
  · subst ht
    rw [if_pos rfl] at hpaging
    by_cases hpending : s.pagingPendingOf teid = true
    · rw [if_pos hpending] at hpaging
      exact .sent uninit ebi fteid rfl (if_pos ⟨rfl, hpending⟩) rfl hpaging
    · rw [if_neg hpending] at hpaging
      have hfalse : s.pagingPendingOf teid = false := Bool.not_eq_true _ ▸ hpending
      refine .same (if_neg fun h => hpending h.2) rfl (hpaging.trans ?_)
      rw [paging, hfalse]
  · rw [if_neg ht] at hpaging
    exact .same (if_neg fun h => ht h.1.symm) rfl hpaging

theorem pagingStep_delete (uninit : Bool) (t : ℕ) (cause : GtpcCause) :
    PagingStep s teid (.s11 uninit (.deleteSessionRequest t cause)) := by
  have hpaging := @paging_delete s teid t
  by_cases ht : teid = t
  · rw [if_pos ht] at hpaging
    exact .deleted rfl (if_pos ht.symm) (Prod.mk.inj hpaging).2
  · rw [if_neg ht] at hpaging
    exact .same rfl (if_neg fun h => ht h.symm) hpaging

theorem pagingStep (s : Spgw) (teid : ℕ) (e : SpgwEvent) : PagingStep s teid e := by
  cases e with
  | sgi msg => exact pagingStep_sgi msg
  | s11 uninit pdu =>
    cases pdu with
    | createSessionRequest imsi senderFteid => exact pagingStep_create uninit imsi senderFteid
    | modifyBearerRequest t ebi fteid => exact pagingStep_modify uninit t ebi fteid
    | deleteSessionRequest t cause => exact pagingStep_delete uninit t cause
    | releaseAccessBearersRequest t => exact .same rfl rfl (paging_release t)
    | downlinkDataNotificationAcknowledge t cause =>
      have hpaging := @paging_acknowledge s teid t cause
      by_cases hfail : teid = t ∧ cause ≠ .requestAccepted
      · rw [if_pos hfail] at hpaging
        have hfails : t = teid ∧ cause ≠ .requestAccepted := ⟨hfail.1.symm, hfail.2⟩
        exact .freed hfails (if_pos hfails) rfl hpaging
      · rw [if_neg hfail] at hpaging
        exact .same (if_neg fun h => hfail ⟨h.1.symm, h.2⟩) rfl hpaging
    | downlinkDataNotificationFailureIndication t cause =>
      have hpaging := @paging_failure s teid t
      by_cases ht : teid = t
      · rw [if_pos ht] at hpaging
        exact .freed ht.symm (if_pos ht.symm) rfl hpaging
      · rw [if_neg ht] at hpaging
        exact .same (if_neg fun h => ht h.symm) rfl hpaging
    | createSessionResponse => exact .same rfl rfl rfl
    | modifyBearerResponse => exact .same rfl rfl rfl
    | downlinkDataNotification => exact .same rfl rfl rfl

theorem queue_step (e : SpgwEvent) : s.queueOf teid ++ acceptedBy (s.queueOps teid e) =
    leftBy (s.queueOps teid e) ++ ((s.step e).queueOf teid ++ s.lost teid e) := by
  cases pagingStep s teid e with
  | same hops hlost hpaging =>
    rw [hops, hlost, (Prod.mk.inj hpaging).2]
    exact (List.append_nil _).trans (List.append_nil _).symm
  | accepted msg hops hlost hroom hpaging =>
    rw [hops, hlost, (Prod.mk.inj hpaging).2]
    exact (List.append_nil _).symm
  | full hops hlost hpaging =>
    rw [hops, hlost, (Prod.mk.inj hpaging).2]
    exact (List.append_nil _).trans (List.append_nil _).symm
  | sent uninit ebi fteid he hops hlost hpaging =>
    obtain ⟨hacc, hleft⟩ := acceptedBy_send fteid (s.queueOf teid)
    rw [hops, hlost, hacc, hleft, (Prod.mk.inj hpaging).2]
    rfl
  | freed hfails hops hlost hpaging =>
    obtain ⟨hacc, hleft⟩ := acceptedBy_free (s.queueOf teid)
    rw [hops, hlost, hacc, hleft, (Prod.mk.inj hpaging).2]
    rfl
  | deleted hops hlost hqueue =>
    rw [hops, hlost, hqueue]
    exact List.append_nil _
  | created hops hlost hempty hqueue =>
    rw [hops, hlost, hempty, hqueue]
    rfl

theorem maxPagingQueue_deleteGtpcCtx (s : Spgw) (t : ℕ) :
    (s.deleteGtpcCtx t).maxPagingQueue = s.maxPagingQueue := by
  cases hctx : s.teidToTunnelCtx.find? t with
  | none =>
    unfold deleteGtpcCtx
    rw [hctx]
  | some ctx =>
    rw [deleteGtpcCtx_some hctx]
    rfl

theorem maxPagingQueue_step (e : SpgwEvent) : (s.step e).maxPagingQueue = s.maxPagingQueue := by
  cases e with
  | sgi msg => exact (onlyPaging_handleSgiPdu s msg).maxPagingQueue
  | s11 uninit pdu =>
    cases pdu with
    | createSessionRequest imsi senderFteid =>
      change (s.withoutSession imsi).maxPagingQueue = s.maxPagingQueue
      unfold withoutSession
      cases s.imsiToCtrTeid.find? imsi with
      | none => rfl
      | some t => exact maxPagingQueue_deleteGtpcCtx s t
    | modifyBearerRequest t ebi fteid =>
      change (s.handleModifyBearerRequest t fteid).1.maxPagingQueue = s.maxPagingQueue
      unfold handleModifyBearerRequest
      cases s.teidToTunnelCtx.find? t <;> rfl
    | deleteSessionRequest t cause =>
      change (s.handleDeleteSessionRequest t).maxPagingQueue = s.maxPagingQueue
      unfold handleDeleteSessionRequest
      cases s.teidToTunnelCtx.find? t with
      | none => rfl
      | some ctx => exact maxPagingQueue_deleteGtpcCtx _ t
    | releaseAccessBearersRequest t =>
      change (s.handleReleaseAccessBearersRequest t).maxPagingQueue = s.maxPagingQueue
      unfold handleReleaseAccessBearersRequest
      cases s.teidToTunnelCtx.find? t <;> rfl
    | downlinkDataNotificationAcknowledge t cause =>
      exact (onlyPaging_acknowledge s t cause).maxPagingQueue
    | downlinkDataNotificationFailureIndication t cause =>
      exact (onlyPaging_failure s t).maxPagingQueue
    | createSessionResponse => rfl
    | modifyBearerResponse => rfl
    | downlinkDataNotification => rfl

/-- The queue of a session is empty unless paging is pending, and not too long. -/
structure QueueBounded (s : Spgw) (teid : ℕ) : Prop where
  pending : s.queueOf teid ≠ [] → s.pagingPendingOf teid = true
  length_le : (s.queueOf teid).length ≤ s.maxPagingQueue

theorem queueBounded_of_nil (h : s.queueOf teid = []) : QueueBounded s teid where
  pending := fun hne => absurd h hne
  length_le := by
    rw [h]
    exact Nat.zero_le _

theorem QueueBounded.congr (h : QueueBounded s teid) {s' : Spgw}
    (hmax : s'.maxPagingQueue = s.maxPagingQueue) (hpaging : s'.paging teid = s.paging teid) :
    QueueBounded s' teid := by
  obtain ⟨hpending, hqueue⟩ := Prod.mk.inj hpaging
  constructor
  · rw [hpending, hqueue]
    exact h.pending
  · rw [hqueue, hmax]
    exact h.length_le

theorem QueueBounded.step (h : QueueBounded s teid) (e : SpgwEvent) :
    QueueBounded (s.step e) teid := by
  have hmax := maxPagingQueue_step (s := s) e
  cases pagingStep s teid e with
  | same _ _ hpaging => exact h.congr hmax hpaging
  | accepted msg _ _ hroom hpaging =>
    obtain ⟨hpending, hqueue⟩ := Prod.mk.inj hpaging
    refine ⟨fun _ => hpending, ?_⟩
    rw [hqueue, hmax, List.length_append, List.length_singleton]
    exact hroom
  | full _ _ hpaging =>
    obtain ⟨hpending, hqueue⟩ := Prod.mk.inj hpaging
    refine ⟨fun _ => hpending, ?_⟩
    rw [hqueue, hmax]
    exact h.length_le
  | sent _ _ _ _ _ _ hpaging => exact queueBounded_of_nil (Prod.mk.inj hpaging).2
  | freed _ _ _ hpaging => exact queueBounded_of_nil (Prod.mk.inj hpaging).2
  | deleted _ _ hqueue => exact queueBounded_of_nil hqueue
  | created _ _ _ hqueue => exact queueBounded_of_nil hqueue

def s1uOf (outputs : List SpgwOutput) : List (GtpFteid × SgiPdu) :=
  outputs.filterMap fun
    | .s1u fteid msg => some (fteid, msg)
    | .s11 _ => none

def sentBy (ops : List QueueOp) : List (GtpFteid × SgiPdu) :=
  ops.filterMap fun
    | .sent fteid msg => some (fteid, msg)
    | _ => none

/-- Packets are sent on the Modify Bearer Request for the session, to its tunnel, and these are
what the step writes to the socket; they are deallocated when paging fails; both end the paging. -/
structure OpsFit (s : Spgw) (teid : ℕ) (e : SpgwEvent) : Prop where
  sent : ∀ fteid msg, .sent fteid msg ∈ s.queueOps teid e →
    ∃ uninit ebi, e = .s11 uninit (.modifyBearerRequest teid ebi fteid)
  written : ∀ uninit ebi fteid, e = .s11 uninit (.modifyBearerRequest teid ebi fteid) →
    s1uOf (s.handle e).2 = sentBy (s.queueOps teid e)
  deallocated : ∀ msg, .deallocated msg ∈ s.queueOps teid e → PagingFails teid e
  ends : leftBy (s.queueOps teid e) ≠ [] → (s.step e).pagingPendingOf teid = false

theorem mem_sendAllQueuedPackets {fteid : GtpFteid} {queue : List SgiPdu} {op : QueueOp}
    (h : op ∈ sendAllQueuedPackets fteid queue) : ∃ msg, op = .sent fteid msg := by
  induction queue with
  | nil => cases h
  | cons msg queue ih =>
    rcases List.mem_cons.mp h with rfl | h
    · exact ⟨msg, rfl⟩
    · exact ih h

theorem mem_freeAllQueuedPackets {queue : List SgiPdu} {op : QueueOp}
    (h : op ∈ freeAllQueuedPackets queue) : ∃ msg, op = .deallocated msg := by
  induction queue with
  | nil => cases h
  | cons msg queue ih =>
    rcases List.mem_cons.mp h with rfl | h
    · exact ⟨msg, rfl⟩
    · exact ih h

theorem sentBy_sendAllQueuedPackets (fteid : GtpFteid) (queue : List SgiPdu) :
    sentBy (sendAllQueuedPackets fteid queue) = queue.map fun msg => (fteid, msg) := by
  induction queue with
  | nil => rfl
  | cons msg queue ih => exact congrArg ((fteid, msg) :: ·) ih

theorem s1uOf_modify (fteid : GtpFteid) :
    s1uOf (s.handleModifyBearerRequest teid fteid).2 =
      if s.pagingPendingOf teid then (s.queueOf teid).map fun msg => (fteid, msg) else [] := by
  have hs1u : ∀ (queue : List SgiPdu) (pdu : GtpcPdu),
      s1uOf (queue.map (.s1u fteid) ++ [.s11 pdu]) = queue.map fun msg => (fteid, msg) := by
    intro queue pdu
    induction queue with
    | nil => rfl
    | cons msg queue ih => exact congrArg ((fteid, msg) :: ·) ih
  unfold handleModifyBearerRequest
  cases hctx : s.teidToTunnelCtx.find? teid with
  | none =>
    rw [(Prod.mk.inj (paging_of_none hctx)).1]
    rfl
  | some ctx =>
    obtain ⟨hpending, hqueue⟩ := Prod.mk.inj (paging_of_some hctx)
    dsimp only
    rw [hs1u, hpending, hqueue]
    split_ifs <;> rfl

theorem written_modify (s : Spgw) (teid : ℕ) (uninit : Bool) (ebi : ℕ) (fteid : GtpFteid) :
    s1uOf (s.handle (.s11 uninit (.modifyBearerRequest teid ebi fteid))).2 =
      sentBy (s.queueOps teid (.s11 uninit (.modifyBearerRequest teid ebi fteid))) := by
  refine (s1uOf_modify fteid).trans ?_
  unfold queueOps
  dsimp only
  by_cases hpending : s.pagingPendingOf teid = true
  · rw [if_pos hpending, if_pos ⟨rfl, hpending⟩, sentBy_sendAllQueuedPackets]
  · rw [if_neg hpending, if_neg fun h => hpending h.2]
    rfl

theorem opsFit_of_nil {e : SpgwEvent} (hops : s.queueOps teid e = []) : OpsFit s teid e where
  sent := by
    rw [hops]
    exact fun _ _ h => absurd h List.not_mem_nil
  written := by
    rintro uninit ebi fteid rfl
    exact written_modify s teid uninit ebi fteid
  deallocated := by
    rw [hops]
    exact fun _ h => absurd h List.not_mem_nil
  ends := by
    rw [hops]
    exact fun h => absurd rfl h

theorem opsFit (s : Spgw) (teid : ℕ) (e : SpgwEvent) : OpsFit s teid e := by
  have hwritten : ∀ uninit ebi fteid, e = .s11 uninit (.modifyBearerRequest teid ebi fteid) →
      s1uOf (s.handle e).2 = sentBy (s.queueOps teid e) := by
    rintro uninit ebi fteid rfl
    exact written_modify s teid uninit ebi fteid
  cases pagingStep s teid e with
  | same hops _ _ => exact opsFit_of_nil hops
  | full hops _ _ => exact opsFit_of_nil hops
  | deleted hops _ _ => exact opsFit_of_nil hops
  | created hops _ _ _ => exact opsFit_of_nil hops
  | accepted msg hops _ _ _ =>
    refine ⟨fun _ _ h => ?_, hwritten, fun _ h => ?_, fun h => ?_⟩
    · rw [hops] at h
      cases List.mem_singleton.mp h
    · rw [hops] at h
      cases List.mem_singleton.mp h
    · rw [hops] at h
      exact absurd rfl h
  | sent uninit ebi fteid he hops _ hpaging =>
    refine ⟨fun _ _ h => ?_, hwritten, fun _ h => ?_, fun _ => (Prod.mk.inj hpaging).1⟩
    · rw [hops] at h
      obtain ⟨_, hop⟩ := mem_sendAllQueuedPackets h
      obtain ⟨rfl, -⟩ := QueueOp.sent.inj hop
      exact ⟨uninit, ebi, he⟩
    · rw [hops] at h
      obtain ⟨_, hop⟩ := mem_sendAllQueuedPackets h
      cases hop
  | freed hfails hops _ hpaging =>
    refine ⟨fun _ _ h => ?_, hwritten, fun _ _ => hfails, fun _ => (Prod.mk.inj hpaging).1⟩
    rw [hops] at h
    obtain ⟨_, hop⟩ := mem_freeAllQueuedPackets h
    cases hop

def queueTrace (teid : ℕ) : Spgw → List SpgwEvent → List QueueOp
  | _, [] => []
  | s, e :: events => s.queueOps teid e ++ queueTrace teid (s.step e) events

def lostCount (teid : ℕ) : Spgw → List SpgwEvent → ℕ
  | _, [] => 0
  | s, e :: events => (s.lost teid e).length + lostCount teid (s.step e) events

theorem acceptedBy_append (ops later : List QueueOp) :
    acceptedBy (ops ++ later) = acceptedBy ops ++ acceptedBy later :=
  List.filterMap_append

theorem leftBy_append (ops later : List QueueOp) :
    leftBy (ops ++ later) = leftBy ops ++ leftBy later :=
  List.filterMap_append

theorem queue_length_run (events : List SpgwEvent) :
    (s.queueOf teid).length + (acceptedBy (queueTrace teid s events)).length =
      (leftBy (queueTrace teid s events)).length + ((events.foldl step s).queueOf teid).length +
        lostCount teid s events := by
  induction events generalizing s with
  | nil => exact Nat.add_comm _ _
  | cons e events ih =>
    have hstep := congrArg List.length (@queue_step s teid e)
    have hrest := ih (s := s.step e)
    simp only [List.length_append] at hstep
    rw [queueTrace, acceptedBy_append, leftBy_append, lostCount, List.length_append,
      List.length_append, List.foldl_cons]
    omega

theorem queue_run (events : List SpgwEvent) (h : lostCount teid s events = 0) :
    s.queueOf teid ++ acceptedBy (queueTrace teid s events) =
      leftBy (queueTrace teid s events) ++ (events.foldl step s).queueOf teid := by
  induction events generalizing s with
  | nil => exact List.append_nil _
  | cons e events ih =>
    obtain ⟨hlost, hrest⟩ := Nat.add_eq_zero_iff.mp h
    have hstep := @queue_step s teid e
    rw [List.eq_nil_of_length_eq_zero hlost, List.append_nil] at hstep
    rw [queueTrace, acceptedBy_append, leftBy_append, ← List.append_assoc, hstep,
      List.append_assoc, ih hrest, List.append_assoc, List.foldl_cons]

theorem lostCount_eq_zero_iff (events : List SpgwEvent) : lostCount teid s events = 0 ↔
    EventRun.Along step (fun s e => s.DeletesCtx teid e → s.queueOf teid = []) s events := by
  induction events generalizing s with
  | nil => exact iff_of_true rfl trivial
  | cons e events ih =>
    rw [lostCount, Nat.add_eq_zero_iff, EventRun.Along, ih, lost]
    by_cases hdel : s.DeletesCtx teid e
    · rw [if_pos hdel, List.length_eq_zero_iff]
      exact and_congr_left fun _ => ⟨fun h _ => h, fun h => h hdel⟩
    · rw [if_neg hdel]
      exact and_congr_left fun _ => iff_of_true rfl fun h => absurd h hdel

/-- After a run, the packets accepted for a session are, in the order in which they came, those
that were sent or deallocated, each once, and those that wait. They wait only while paging is
pending, and they are not too many. -/
structure PagingSound (s : Spgw) (teid : ℕ) (events : List SpgwEvent) : Prop where
  fifo : acceptedBy (queueTrace teid s events) =
    leftBy (queueTrace teid s events) ++ (events.foldl step s).queueOf teid
  fits : EventRun.Along step (fun s e => OpsFit s teid e) s events
  bounded : QueueBounded (events.foldl step s) teid
  max : (events.foldl step s).maxPagingQueue = s.maxPagingQueue

theorem paging_sound_iff (args : SpgwArgs) (ipToImsi imsiToIp : OrderedMap ℕ ℕ) (teid : ℕ)
    (events : List SpgwEvent) : PagingSound (started args ipToImsi imsiToIp) teid events ↔
      EventRun.Along step (fun s e => s.DeletesCtx teid e → s.queueOf teid = [])
        (started args ipToImsi imsiToIp) events := by
  have hempty : (started args ipToImsi imsiToIp).queueOf teid = [] := rfl
  rw [← lostCount_eq_zero_iff]
  constructor
  · intro h
    have hlength := @queue_length_run (started args ipToImsi imsiToIp) teid events
    rw [h.fifo, hempty, List.length_append, List.length_nil] at hlength
    omega
  · intro h
    have hfifo := queue_run events h
    rw [hempty, List.nil_append] at hfifo
    exact ⟨hfifo, EventRun.along_of_forall fun s e => opsFit s teid e,
      List.foldlRecOn (motive := fun t : Spgw => QueueBounded t teid) events _
        (queueBounded_of_nil hempty) fun _ h e _ => h.step e,
      List.foldlRecOn (motive := fun t : Spgw => t.maxPagingQueue = _) events _ rfl
        fun _ h e _ => (maxPagingQueue_step e).trans h⟩

/-- A UE with the address 10 is released, a packet for it waits, and its session is deleted. -/
def deleteWhilePaging : List SpgwEvent :=
  [.s11 false (.createSessionRequest 1 ⟨0, 9⟩), .s11 false (.modifyBearerRequest 1 5 ⟨7, 8⟩),
    .s11 false (.releaseAccessBearersRequest 1), .sgi ⟨4, 20, 10, []⟩,
    .s11 false (.deleteSessionRequest 1 .requestAccepted)]

theorem queued_packet_lost :
    ¬PagingSound (started ⟨1, 2, 100⟩ (OrderedMap.empty.insert 10 1) (OrderedMap.empty.insert 1 10))
      1 deleteWhilePaging := by
  intro h
  exact absurd h.fifo (by decide)

end Spgw

end SrsLte
