import Mathlib.Data.Nat.Basic
import SrsLte.EventRun
import SrsLte.OrderedMap

/-!
# The SPGW

Sessions and tunnels of `spgw::gtpc` and `spgw::gtpu`. An IPv4 address is the number in network
order that the maps have as key; the addresses of subscribers in the database have one spelling
each, so that the strings are compared as addresses.
-/

namespace SrsLte

structure GtpFteid where
  ipv4 : ℕ
  teid : ℕ
  deriving DecidableEq

/-- The values of `gtpc_cause_value` that are looked at. -/
inductive GtpcCause
  | isrDeactivation
  | requestAccepted
  | contextNotFound
  | ueNotResponding
  | serviceDenied
  | unableToPageUe
  | unableToPageUeDueToSuspension
  | ueAlreadyReAttached
  | other (value : ℕ)
  deriving DecidableEq

inductive GtpcPdnType
  | ipv4
  | ipv6
  | ipv4v6
  deriving DecidableEq

structure CreateSessionResponse where
  cause : GtpcCause
  senderFteid : GtpFteid
  ebi : ℕ
  s1uSgwFteidPresent : Bool
  s1uSgwFteid : GtpFteid
  paaPresent : Bool
  pdnType : GtpcPdnType
  paaIpv4 : ℕ

/-- `gtpc_pdu`; `teid` is that of the header. -/
inductive GtpcPdu
  | createSessionRequest (imsi : ℕ) (senderFteid : GtpFteid)
  | createSessionResponse (teid : ℕ) (response : CreateSessionResponse)
  | modifyBearerRequest (teid ebi : ℕ) (s1uEnbFteid : GtpFteid)
  | modifyBearerResponse (teid ebi : ℕ) (cause : GtpcCause)
  | deleteSessionRequest (teid : ℕ) (cause : GtpcCause)
  | releaseAccessBearersRequest (teid : ℕ)
  | downlinkDataNotification (teid : ℕ) (ebi : Option ℕ)
  | downlinkDataNotificationAcknowledge (teid : ℕ) (cause : GtpcCause)
  | downlinkDataNotificationFailureIndication (teid : ℕ) (cause : GtpcCause)

/-- A packet of the SGi interface, with the fields of its IP header that are read. -/
structure SgiPdu where
  version : ℕ
  totLen : ℕ
  daddr : ℕ
  bytes : List UInt8
  deriving DecidableEq

inductive SpgwOutput
  | s11 (pdu : GtpcPdu)
  | s1u (enbFteid : GtpFteid) (msg : SgiPdu)

structure SpgwTunnelCtx where
  imsi : ℕ
  ueIpv4 : ℕ
  ebi : ℕ
  upCtrlFteid : GtpFteid
  upUserFteid : GtpFteid
  dwCtrlFteid : GtpFteid
  dwUserFteid : GtpFteid
  pagingPending : Bool
  pagingQueue : List SgiPdu

structure SpgwArgs where
  sgiIfAddr : ℕ
  gtpuBindAddr : ℕ
  maxPagingQueue : ℕ

structure Spgw where
  nextCtrlTeid : ℕ
  nextUserTeid : ℕ
  maxPagingQueue : ℕ
  s1uAddr : ℕ
  imsiToCtrTeid : OrderedMap ℕ ℕ
  teidToTunnelCtx : OrderedMap ℕ SpgwTunnelCtx
  ueIpAddrPool : OrderedMap ℕ Unit
  imsiToIp : OrderedMap ℕ ℕ
  ipToUsrTeid : OrderedMap ℕ GtpFteid
  ipToCtrTeid : OrderedMap ℕ ℕ

namespace Spgw

/-- `s_addr + htonl(n)` for `n < 254` on a little-endian machine. -/
def ueAddr (sgiIfAddr n : ℕ) : ℕ := (sgiIfAddr + n * 2 ^ 24) % 2 ^ 32

def loadImsiToIp (ipToImsi : OrderedMap ℕ ℕ) : Option (OrderedMap ℕ ℕ) :=
  ipToImsi.entries.foldlM (fun imsiToIp e =>
    if (imsiToIp.find? e.2).isSome then none else some (imsiToIp.insert e.2 e.1)) OrderedMap.empty

def loadPool (sgiIfAddr : ℕ) (ipToImsi : OrderedMap ℕ ℕ) : OrderedMap ℕ Unit :=
  (List.range' 1 253).foldl (fun pool n =>
    if (ipToImsi.find? (ueAddr sgiIfAddr n)).isSome then pool
    else pool.insert (ueAddr sgiIfAddr n) ()) OrderedMap.empty

/-- The state after `init`, with the static addresses by IMSI. -/
def started (args : SpgwArgs) (ipToImsi imsiToIp : OrderedMap ℕ ℕ) : Spgw :=
  { nextCtrlTeid := 1, nextUserTeid := 1, maxPagingQueue := args.maxPagingQueue,
    s1uAddr := args.gtpuBindAddr, imsiToCtrTeid := OrderedMap.empty,
    teidToTunnelCtx := OrderedMap.empty, ueIpAddrPool := loadPool args.sgiIfAddr ipToImsi,
    imsiToIp := imsiToIp, ipToUsrTeid := OrderedMap.empty, ipToCtrTeid := OrderedMap.empty }

/-- `init` with `init_ue_ip`. -/
def init (args : SpgwArgs) (ipToImsi : OrderedMap ℕ ℕ) : Option Spgw :=
  if (ipToImsi.find? args.sgiIfAddr).isSome then none
  else (loadImsiToIp ipToImsi).map (started args ipToImsi)

/-- The value of `get_new_ctrl_teid` as the key of a map. -/
def newCtrlTeid (s : Spgw) : ℕ := s.nextCtrlTeid % 2 ^ 32

/-- The address of `get_new_ue_ipv4`. -/
def newUeIpv4 (s : Spgw) (imsi : ℕ) : ℕ :=
  match s.imsiToIp.find? imsi with
  | some ip => ip
  | none => (s.ueIpAddrPool.entries.head?.map Prod.fst).getD 0

/-- The pool after `get_new_ue_ipv4`. -/
def poolAfter (s : Spgw) (imsi : ℕ) : OrderedMap ℕ Unit :=
  match s.imsiToIp.find? imsi with
  | some _ => s.ueIpAddrPool
  | none => s.ueIpAddrPool.erase (s.newUeIpv4 imsi)

def modifyGtpuTunnel (s : Spgw) (ueIpv4 : ℕ) (dwUserFteid : GtpFteid) (upCtrlTeid : ℕ) : Spgw :=
  { s with
    ipToUsrTeid := s.ipToUsrTeid.insert ueIpv4 dwUserFteid
    ipToCtrTeid := s.ipToCtrTeid.insert ueIpv4 upCtrlTeid }

def deleteGtpuTunnel (s : Spgw) (ueIpv4 : ℕ) : Spgw :=
  { s with ipToUsrTeid := s.ipToUsrTeid.erase ueIpv4 }

def deleteGtpcTunnel (s : Spgw) (ueIpv4 : ℕ) : Spgw :=
  { s with ipToCtrTeid := s.ipToCtrTeid.erase ueIpv4 }

/-- The context of `create_gtpc_ctx`. `new` leaves `uninit` in `paging_pending`. -/
def newTunnelCtx (s : Spgw) (imsi : ℕ) (senderFteid : GtpFteid) (uninit : Bool) : SpgwTunnelCtx :=
  { imsi := imsi, ueIpv4 := s.newUeIpv4 imsi, ebi := 5, upCtrlFteid := ⟨0, s.newCtrlTeid⟩,
    upUserFteid := ⟨s.s1uAddr, s.nextUserTeid % 2 ^ 32⟩, dwCtrlFteid := senderFteid,
    dwUserFteid := ⟨0, 0⟩, pagingPending := uninit, pagingQueue := [] }

def createGtpcCtx (s : Spgw) (imsi : ℕ) (senderFteid : GtpFteid) (uninit : Bool) : Spgw :=
  { s with
    nextCtrlTeid := (s.nextCtrlTeid + 1) % 2 ^ 64
    nextUserTeid := (s.nextUserTeid + 1) % 2 ^ 64
    ueIpAddrPool := s.poolAfter imsi
    teidToTunnelCtx :=
      s.teidToTunnelCtx.emplace s.newCtrlTeid (s.newTunnelCtx imsi senderFteid uninit)
    imsiToCtrTeid := s.imsiToCtrTeid.emplace imsi s.newCtrlTeid }

def deleteGtpcCtx (s : Spgw) (ctrlTeid : ℕ) : Spgw :=
  match s.teidToTunnelCtx.find? ctrlTeid with
  | none => s
  | some ctx =>
    { s.deleteGtpcTunnel ctx.ueIpv4 with
      imsiToCtrTeid := s.imsiToCtrTeid.erase ctx.imsi
      teidToTunnelCtx := s.teidToTunnelCtx.erase ctrlTeid }

/-- The context becomes `ctx`. -/
def setTunnelCtx (s : Spgw) (ctrlTeid : ℕ) (ctx : SpgwTunnelCtx) : Spgw :=
  { s with teidToTunnelCtx := s.teidToTunnelCtx.insert ctrlTeid ctx }

def createSessionResponse (ctx : SpgwTunnelCtx) : GtpcPdu :=
  .createSessionResponse ctx.dwCtrlFteid.teid
    { cause := .requestAccepted, senderFteid := ctx.upCtrlFteid, ebi := 5,
      s1uSgwFteidPresent := true, s1uSgwFteid := ctx.upUserFteid, paaPresent := true,
      pdnType := .ipv4, paaIpv4 := ctx.ueIpv4 }

/-- The state in which `handle_create_session_request` creates the context. -/
def withoutSession (s : Spgw) (imsi : ℕ) : Spgw :=
  match s.imsiToCtrTeid.find? imsi with
  | some teid => s.deleteGtpcCtx teid
  | none => s

def handleCreateSessionRequest (s : Spgw) (imsi : ℕ) (senderFteid : GtpFteid) (uninit : Bool) :
    Spgw × List SpgwOutput :=
  let s := s.withoutSession imsi
  (s.createGtpcCtx imsi senderFteid uninit,
    [.s11 (createSessionResponse (s.newTunnelCtx imsi senderFteid uninit))])

def handleModifyBearerRequest (s : Spgw) (ctrlTeid : ℕ) (s1uEnbFteid : GtpFteid) :
    Spgw × List SpgwOutput :=
  match s.teidToTunnelCtx.find? ctrlTeid with
  | none => (s, [])
  | some ctx =>
    let queued := if ctx.pagingPending then ctx.pagingQueue else []
    let ctx' := { ctx with
      dwUserFteid := s1uEnbFteid
      pagingPending := false
      pagingQueue := if ctx.pagingPending then [] else ctx.pagingQueue }
    ((s.setTunnelCtx ctrlTeid ctx').modifyGtpuTunnel ctx.ueIpv4 s1uEnbFteid ctx.upCtrlFteid.teid,
      queued.map (.s1u s1uEnbFteid) ++
        [.s11 (.modifyBearerResponse ctx.dwCtrlFteid.teid ctx.ebi .requestAccepted)])

def handleDeleteSessionRequest (s : Spgw) (ctrlTeid : ℕ) : Spgw :=
  match s.teidToTunnelCtx.find? ctrlTeid with
  | none => s
  | some ctx => (s.deleteGtpuTunnel ctx.ueIpv4).deleteGtpcCtx ctrlTeid

def handleReleaseAccessBearersRequest (s : Spgw) (ctrlTeid : ℕ) : Spgw :=
  match s.teidToTunnelCtx.find? ctrlTeid with
  | none => s
  | some ctx => s.deleteGtpuTunnel ctx.ueIpv4

/-- `free_all_queued_packets`, after which paging is no longer pending. -/
def stopPaging (s : Spgw) (ctrlTeid : ℕ) (ctx : SpgwTunnelCtx) : Spgw :=
  s.setTunnelCtx ctrlTeid { ctx with pagingPending := false, pagingQueue := [] }

def handleDownlinkDataNotificationAcknowledge (s : Spgw) (ctrlTeid : ℕ) (cause : GtpcCause) :
    Spgw :=
  match s.teidToTunnelCtx.find? ctrlTeid with
  | none => s
  | some ctx =>
    if cause = .contextNotFound ∨ cause = .ueAlreadyReAttached ∨ cause = .unableToPageUe ∨
        cause = .unableToPageUeDueToSuspension then
      s.stopPaging ctrlTeid ctx
    else if cause ≠ .requestAccepted then s.stopPaging ctrlTeid ctx
    else s

def handleDownlinkDataNotificationFailureIndication (s : Spgw) (ctrlTeid : ℕ) : Spgw :=
  match s.teidToTunnelCtx.find? ctrlTeid with
  | none => s
  | some ctx => s.stopPaging ctrlTeid ctx

def handleS11Pdu (s : Spgw) (uninit : Bool) : GtpcPdu → Spgw × List SpgwOutput
  | .createSessionRequest imsi senderFteid => s.handleCreateSessionRequest imsi senderFteid uninit
  | .modifyBearerRequest teid _ s1uEnbFteid => s.handleModifyBearerRequest teid s1uEnbFteid
  | .deleteSessionRequest teid _ => (s.handleDeleteSessionRequest teid, [])
  | .releaseAccessBearersRequest teid => (s.handleReleaseAccessBearersRequest teid, [])
  | .downlinkDataNotificationAcknowledge teid cause =>
    (s.handleDownlinkDataNotificationAcknowledge teid cause, [])
  | .downlinkDataNotificationFailureIndication teid _ =>
    (s.handleDownlinkDataNotificationFailureIndication teid, [])
  | _ => (s, [])

def sendDownlinkDataNotification (s : Spgw) (ctrlTeid : ℕ) : Spgw × List SpgwOutput :=
  match s.teidToTunnelCtx.find? ctrlTeid with
  | none => (s, [])
  | some ctx =>
    if ctx.pagingPending then (s, [])
    else (s.setTunnelCtx ctrlTeid { ctx with pagingPending := true },
      [.s11 (.downlinkDataNotification ctx.dwCtrlFteid.teid (some 5))])

def queueDownlinkPacket (s : Spgw) (ctrlTeid : ℕ) (msg : SgiPdu) : Spgw :=
  match s.teidToTunnelCtx.find? ctrlTeid with
  | none => s
  | some ctx =>
    if ctx.pagingPending ∧ ctx.pagingQueue.length < s.maxPagingQueue then
      s.setTunnelCtx ctrlTeid { ctx with pagingQueue := ctx.pagingQueue ++ [msg] }
    else s

def handleSgiPdu (s : Spgw) (msg : SgiPdu) : Spgw × List SpgwOutput :=
  if msg.version ≠ 4 then (s, [])
  else if msg.totLen < 20 then (s, [])
  else match s.ipToUsrTeid.find? msg.daddr, s.ipToCtrTeid.find? msg.daddr with
    | none, none => (s, [])
    | none, some teid =>
      ((s.sendDownlinkDataNotification teid).1.queueDownlinkPacket teid msg,
        (s.sendDownlinkDataNotification teid).2)
    | some enbFteid, _ => (s, [.s1u enbFteid msg])

end Spgw

inductive SpgwEvent
  | s11 (uninit : Bool) (pdu : GtpcPdu)
  | sgi (msg : SgiPdu)

namespace Spgw

def handle (s : Spgw) : SpgwEvent → Spgw × List SpgwOutput
  | .s11 uninit pdu => s.handleS11Pdu uninit pdu
  | .sgi msg => s.handleSgiPdu msg

def step (s : Spgw) (e : SpgwEvent) : Spgw := (s.handle e).1

end Spgw

end SrsLte

/-!
What a message does to the set of sessions. Only requests to create and to delete change it; a new
control TEID is free unless the counter has wrapped around.
-/

namespace SrsLte

structure SpgwSession where
  imsi : ℕ
  ueIpv4 : ℕ
  upCtrlFteid : GtpFteid
  dwCtrlFteid : GtpFteid

def SpgwTunnelCtx.session (ctx : SpgwTunnelCtx) : SpgwSession :=
  ⟨ctx.imsi, ctx.ueIpv4, ctx.upCtrlFteid, ctx.dwCtrlFteid⟩

namespace Spgw

def session (s : Spgw) (teid : ℕ) : Option SpgwSession :=
  (s.teidToTunnelCtx.find? teid).map SpgwTunnelCtx.session

/-- The sessions and all that decides on later ones are the same. -/
structure SameSessions (s s' : Spgw) : Prop where
  session : s'.session = s.session
  imsiToCtrTeid : s'.imsiToCtrTeid = s.imsiToCtrTeid
  ueIpAddrPool : s'.ueIpAddrPool = s.ueIpAddrPool
  imsiToIp : s'.imsiToIp = s.imsiToIp
  nextCtrlTeid : s'.nextCtrlTeid = s.nextCtrlTeid

variable {s s' s'' : Spgw} {teid imsi : ℕ} {ctx ctx' : SpgwTunnelCtx} {x : SpgwSession}

theorem SameSessions.refl (s : Spgw) : SameSessions s s := ⟨rfl, rfl, rfl, rfl, rfl⟩

theorem SameSessions.trans (h : SameSessions s s') (h' : SameSessions s' s'') :
    SameSessions s s'' where
  session := h'.session.trans h.session
  imsiToCtrTeid := h'.imsiToCtrTeid.trans h.imsiToCtrTeid
  ueIpAddrPool := h'.ueIpAddrPool.trans h.ueIpAddrPool
  imsiToIp := h'.imsiToIp.trans h.imsiToIp
  nextCtrlTeid := h'.nextCtrlTeid.trans h.nextCtrlTeid

theorem session_of_find (h : s.teidToTunnelCtx.find? teid = some ctx) :
    s.session teid = some ctx.session := by
  rw [session, h]
  rfl

theorem session_eq_some (h : s.session teid = some x) :
    ∃ ctx, s.teidToTunnelCtx.find? teid = some ctx ∧ ctx.session = x :=
  Option.map_eq_some_iff.mp h

theorem filter_imsi_self {o : Option SpgwSession} (h : ∀ x ∈ o, x.imsi ≠ imsi) :
    (o.filter fun x => x.imsi ≠ imsi) = o := by
  cases o with
  | none => rfl
  | some x => exact Option.filter_some_pos (decide_eq_true (h x rfl))

theorem session_eq_none : s.session teid = none ↔ s.teidToTunnelCtx.find? teid = none :=
  Option.map_eq_none_iff

theorem sameSessions_setTunnelCtx (h : s.teidToTunnelCtx.find? teid = some ctx)
    (hsession : ctx'.session = ctx.session) : SameSessions s (s.setTunnelCtx teid ctx') := by
  refine ⟨?_, rfl, rfl, rfl, rfl⟩
  funext u
  unfold session setTunnelCtx
  rw [OrderedMap.find?_insert]
  split_ifs with hu
  · rw [hu, h, Option.map_some, Option.map_some, hsession]
  · rfl

theorem sameSessions_modifyGtpuTunnel (s : Spgw) (ip : ℕ) (fteid : GtpFteid) (t : ℕ) :
    SameSessions s (s.modifyGtpuTunnel ip fteid t) := ⟨rfl, rfl, rfl, rfl, rfl⟩

theorem sameSessions_deleteGtpuTunnel (s : Spgw) (ip : ℕ) :
    SameSessions s (s.deleteGtpuTunnel ip) := ⟨rfl, rfl, rfl, rfl, rfl⟩

theorem handleModifyBearerRequest_some (h : s.teidToTunnelCtx.find? teid = some ctx)
    (fteid : GtpFteid) : s.handleModifyBearerRequest teid fteid =
      ((s.setTunnelCtx teid { ctx with
          dwUserFteid := fteid
          pagingPending := false
          pagingQueue := if ctx.pagingPending then [] else ctx.pagingQueue }).modifyGtpuTunnel
        ctx.ueIpv4 fteid ctx.upCtrlFteid.teid,
      (if ctx.pagingPending then ctx.pagingQueue else []).map (.s1u fteid) ++
        [.s11 (.modifyBearerResponse ctx.dwCtrlFteid.teid ctx.ebi .requestAccepted)]) := by
  unfold handleModifyBearerRequest
  rw [h]

theorem sameSessions_modify (s : Spgw) (teid : ℕ) (fteid : GtpFteid) :
    SameSessions s (s.handleModifyBearerRequest teid fteid).1 := by
  cases h : s.teidToTunnelCtx.find? teid with
  | none =>
    unfold handleModifyBearerRequest
    rw [h]
    exact SameSessions.refl s
  | some ctx =>
    rw [handleModifyBearerRequest_some h]
    have hset : ∀ queue, SameSessions s (s.setTunnelCtx teid { ctx with
        dwUserFteid := fteid, pagingPending := false, pagingQueue := queue }) :=
      fun queue => sameSessions_setTunnelCtx h rfl
    exact (hset _).trans (sameSessions_modifyGtpuTunnel _ _ _ _)

theorem handleReleaseAccessBearersRequest_some (h : s.teidToTunnelCtx.find? teid = some ctx) :
    s.handleReleaseAccessBearersRequest teid = s.deleteGtpuTunnel ctx.ueIpv4 := by
  unfold handleReleaseAccessBearersRequest
  rw [h]

theorem sameSessions_release (s : Spgw) (teid : ℕ) :
    SameSessions s (s.handleReleaseAccessBearersRequest teid) := by
  cases h : s.teidToTunnelCtx.find? teid with
  | none =>
    unfold handleReleaseAccessBearersRequest
    rw [h]
    exact SameSessions.refl s
  | some ctx =>
    rw [handleReleaseAccessBearersRequest_some h]
    exact sameSessions_deleteGtpuTunnel s _

/-- The messages on paging change the queue and the flag of one context, if anything. -/
structure OnlyPaging (s s' : Spgw) : Prop where
  same : SameSessions s s'
  ipToUsrTeid : s'.ipToUsrTeid = s.ipToUsrTeid
  ipToCtrTeid : s'.ipToCtrTeid = s.ipToCtrTeid
  maxPagingQueue : s'.maxPagingQueue = s.maxPagingQueue
  dwUserFteid : ∀ t ctx', s'.teidToTunnelCtx.find? t = some ctx' →
    ∃ ctx, s.teidToTunnelCtx.find? t = some ctx ∧ ctx'.dwUserFteid = ctx.dwUserFteid

theorem OnlyPaging.refl (s : Spgw) : OnlyPaging s s where
  same := SameSessions.refl s
  ipToUsrTeid := rfl
  ipToCtrTeid := rfl
  maxPagingQueue := rfl
  dwUserFteid := fun _ ctx' h => ⟨ctx', h, rfl⟩

theorem OnlyPaging.trans (h : OnlyPaging s s') (h' : OnlyPaging s' s'') : OnlyPaging s s'' where
  same := h.same.trans h'.same
  ipToUsrTeid := h'.ipToUsrTeid.trans h.ipToUsrTeid
  ipToCtrTeid := h'.ipToCtrTeid.trans h.ipToCtrTeid
  maxPagingQueue := h'.maxPagingQueue.trans h.maxPagingQueue
  dwUserFteid := fun t ctx'' hctx'' => by
    obtain ⟨ctx', hctx', heq'⟩ := h'.dwUserFteid t ctx'' hctx''
    obtain ⟨ctx, hctx, heq⟩ := h.dwUserFteid t ctx' hctx'
    exact ⟨ctx, hctx, heq'.trans heq⟩

theorem onlyPaging_set (h : s.teidToTunnelCtx.find? teid = some ctx) (pending : Bool)
    (queue : List SgiPdu) : OnlyPaging s
      (s.setTunnelCtx teid { ctx with pagingPending := pending, pagingQueue := queue }) where
  same := sameSessions_setTunnelCtx h rfl
  ipToUsrTeid := rfl
  ipToCtrTeid := rfl
  maxPagingQueue := rfl
  dwUserFteid := fun t ctx' hctx' => by
    unfold setTunnelCtx at hctx'
    rw [OrderedMap.find?_insert] at hctx'
    split_ifs at hctx' with ht
    · rw [← Option.some.inj hctx', ht]
      exact ⟨ctx, h, rfl⟩
    · exact ⟨ctx', hctx', rfl⟩

theorem onlyPaging_acknowledge (s : Spgw) (teid : ℕ) (cause : GtpcCause) :
    OnlyPaging s (s.handleDownlinkDataNotificationAcknowledge teid cause) := by
  cases h : s.teidToTunnelCtx.find? teid with
  | none =>
    unfold handleDownlinkDataNotificationAcknowledge
    rw [h]
    exact OnlyPaging.refl s
  | some ctx =>
    simp only [handleDownlinkDataNotificationAcknowledge, h]
    split_ifs
    · exact onlyPaging_set h _ _
    · exact onlyPaging_set h _ _
    · exact OnlyPaging.refl s

theorem onlyPaging_failure (s : Spgw) (teid : ℕ) :
    OnlyPaging s (s.handleDownlinkDataNotificationFailureIndication teid) := by
  cases h : s.teidToTunnelCtx.find? teid with
  | none =>
    unfold handleDownlinkDataNotificationFailureIndication
    rw [h]
    exact OnlyPaging.refl s
  | some ctx =>
    simp only [handleDownlinkDataNotificationFailureIndication, h]
    exact onlyPaging_set h _ _

theorem onlyPaging_sendDownlinkDataNotification (s : Spgw) (teid : ℕ) :
    OnlyPaging s (s.sendDownlinkDataNotification teid).1 := by
  cases h : s.teidToTunnelCtx.find? teid with
  | none =>
    unfold sendDownlinkDataNotification
    rw [h]
    exact OnlyPaging.refl s
  | some ctx =>
    simp only [sendDownlinkDataNotification, h]
    split_ifs
    · exact OnlyPaging.refl s
    · exact onlyPaging_set h _ _

theorem onlyPaging_queueDownlinkPacket (s : Spgw) (teid : ℕ) (msg : SgiPdu) :
    OnlyPaging s (s.queueDownlinkPacket teid msg) := by
  cases h : s.teidToTunnelCtx.find? teid with
  | none =>
    unfold queueDownlinkPacket
    rw [h]
    exact OnlyPaging.refl s
  | some ctx =>
    simp only [queueDownlinkPacket, h]
    split_ifs
    · exact onlyPaging_set h _ _
    · exact OnlyPaging.refl s

theorem onlyPaging_handleSgiPdu (s : Spgw) (msg : SgiPdu) :
    OnlyPaging s (s.handleSgiPdu msg).1 := by
  unfold handleSgiPdu
  split_ifs
  · exact OnlyPaging.refl s
  · exact OnlyPaging.refl s
  · cases s.ipToUsrTeid.find? msg.daddr with
    | some fteid => exact OnlyPaging.refl s
    | none =>
      cases s.ipToCtrTeid.find? msg.daddr with
      | none => exact OnlyPaging.refl s
      | some teid =>
        exact (onlyPaging_sendDownlinkDataNotification s teid).trans
          (onlyPaging_queueDownlinkPacket _ teid msg)

theorem mem_handleSgiPdu {pdu : SgiPdu} {out : SpgwOutput} (hout : out ∈ (s.handleSgiPdu pdu).2) :
    (∃ fteid, out = .s1u fteid pdu ∧ s.ipToUsrTeid.find? pdu.daddr = some fteid) ∨
      ∃ t ebi, out = .s11 (.downlinkDataNotification t ebi) := by
  unfold handleSgiPdu at hout
  split_ifs at hout
  · cases hout
  · cases hout
  · cases husr : s.ipToUsrTeid.find? pdu.daddr with
    | some fteid =>
      rw [husr] at hout
      exact Or.inl ⟨fteid, List.mem_singleton.mp hout, rfl⟩
    | none =>
      cases hctr : s.ipToCtrTeid.find? pdu.daddr with
      | none =>
        rw [husr, hctr] at hout
        cases hout
      | some teid =>
        rw [husr, hctr] at hout
        unfold sendDownlinkDataNotification at hout
        cases hctx : s.teidToTunnelCtx.find? teid with
        | none => simp [hctx] at hout
        | some ctx =>
          simp only [hctx] at hout
          split_ifs at hout
          · cases hout
          · exact Or.inr ⟨_, _, List.mem_singleton.mp hout⟩

theorem deleteGtpcCtx_some (h : s.teidToTunnelCtx.find? teid = some ctx) :
    s.deleteGtpcCtx teid = { s.deleteGtpcTunnel ctx.ueIpv4 with
      imsiToCtrTeid := s.imsiToCtrTeid.erase ctx.imsi
      teidToTunnelCtx := s.teidToTunnelCtx.erase teid } := by
  unfold deleteGtpcCtx
  rw [h]

theorem session_deleteGtpcCtx (s : Spgw) (teid u : ℕ) :
    (s.deleteGtpcCtx teid).session u = if u = teid then none else s.session u := by
  cases h : s.teidToTunnelCtx.find? teid with
  | none =>
    unfold deleteGtpcCtx
    rw [h]
    split_ifs with hu
    · rw [hu]
      exact session_eq_none.mpr h
    · rfl
  | some ctx =>
    rw [deleteGtpcCtx_some h]
    unfold session
    rw [OrderedMap.find?_erase]
    split_ifs <;> rfl

structure SameAllocator (s s' : Spgw) : Prop where
  ueIpAddrPool : s'.ueIpAddrPool = s.ueIpAddrPool
  imsiToIp : s'.imsiToIp = s.imsiToIp
  nextCtrlTeid : s'.nextCtrlTeid = s.nextCtrlTeid
  ipToUsrTeid : s'.ipToUsrTeid = s.ipToUsrTeid

theorem sameAllocator_deleteGtpcCtx (s : Spgw) (teid : ℕ) :
    SameAllocator s (s.deleteGtpcCtx teid) := by
  unfold deleteGtpcCtx
  cases s.teidToTunnelCtx.find? teid with
  | none => exact ⟨rfl, rfl, rfl, rfl⟩
  | some ctx => exact ⟨rfl, rfl, rfl, rfl⟩

theorem sameAllocator_withoutSession (s : Spgw) (imsi : ℕ) :
    SameAllocator s (s.withoutSession imsi) := by
  unfold withoutSession
  cases s.imsiToCtrTeid.find? imsi with
  | none => exact ⟨rfl, rfl, rfl, rfl⟩
  | some teid => exact sameAllocator_deleteGtpcCtx s teid

theorem newCtrlTeid_withoutSession (s : Spgw) (imsi : ℕ) :
    (s.withoutSession imsi).newCtrlTeid = s.newCtrlTeid := by
  unfold newCtrlTeid
  rw [(sameAllocator_withoutSession s imsi).nextCtrlTeid]

theorem newUeIpv4_withoutSession (s : Spgw) (imsi i : ℕ) :
    (s.withoutSession imsi).newUeIpv4 i = s.newUeIpv4 i := by
  have hsame := sameAllocator_withoutSession s imsi
  unfold newUeIpv4
  rw [hsame.imsiToIp, hsame.ueIpAddrPool]

theorem poolAfter_withoutSession (s : Spgw) (imsi i : ℕ) :
    (s.withoutSession imsi).poolAfter i = s.poolAfter i := by
  have hsame := sameAllocator_withoutSession s imsi
  unfold poolAfter
  rw [hsame.imsiToIp, hsame.ueIpAddrPool, newUeIpv4_withoutSession]

structure Registered (s : Spgw) : Prop where
  inverse : ∀ i t, s.imsiToCtrTeid.find? i = some t ↔ ∃ x, s.session t = some x ∧ x.imsi = i
  own : ∀ t x, s.session t = some x → x.upCtrlFteid.teid = t

section

variable (h : Registered s)
include h

theorem Registered.imsi_inj {t t' : ℕ} {x x' : SpgwSession}
    (hx : s.session t = some x) (hx' : s.session t' = some x') (himsi : x.imsi = x'.imsi) :
    t = t' := by
  have ht := (h.inverse x.imsi t).mpr ⟨x, hx, rfl⟩
  have ht' := (h.inverse x.imsi t').mpr ⟨x', hx', himsi.symm⟩
  exact Option.some.inj (ht.symm.trans ht')

theorem Registered.of_same (hsame : SameSessions s s') : Registered s' := by
  constructor
  · intro i t
    rw [hsame.imsiToCtrTeid, hsame.session]
    exact h.inverse i t
  · intro t x hx
    rw [hsame.session] at hx
    exact h.own t x hx

theorem Registered.delete (teid : ℕ) : Registered (s.deleteGtpcCtx teid) := by
  cases hctx : s.teidToTunnelCtx.find? teid with
  | none =>
    unfold deleteGtpcCtx
    rwa [hctx]
  | some ctx =>
    have hteid := session_of_find hctx
    constructor
    · intro i t
      have hmap : (s.deleteGtpcCtx teid).imsiToCtrTeid.find? i =
          if i = ctx.imsi then none else s.imsiToCtrTeid.find? i := by
        rw [deleteGtpcCtx_some hctx]
        exact OrderedMap.find?_erase _ _ _
      rw [hmap, session_deleteGtpcCtx]
      split_ifs with hi ht ht
      · simp
      · constructor
        · intro hfalse
          cases hfalse
        · rintro ⟨x, hx, himsi⟩
          exact absurd (h.imsi_inj hx hteid (himsi.trans hi)) ht
      · constructor
        · intro hmem
          obtain ⟨x, hx, himsi⟩ := (h.inverse i t).mp hmem
          rw [ht, hteid] at hx
          rw [← Option.some.inj hx] at himsi
          exact absurd himsi.symm hi
        · rintro ⟨x, hx, -⟩
          cases hx
      · exact h.inverse i t
    · intro t x hx
      rw [session_deleteGtpcCtx] at hx
      split_ifs at hx
      exact h.own t x hx

theorem Registered.session_withoutSession (imsi u : ℕ) :
    (s.withoutSession imsi).session u = (s.session u).filter fun x => x.imsi ≠ imsi := by
  unfold withoutSession
  cases hteid : s.imsiToCtrTeid.find? imsi with
  | none =>
    have hkeep : ∀ x ∈ s.session u, x.imsi ≠ imsi := by
      intro x hx himsi
      have hfound := (h.inverse imsi u).mpr ⟨x, hx, himsi⟩
      rw [hteid] at hfound
      cases hfound
    exact (filter_imsi_self hkeep).symm
  | some teid =>
    obtain ⟨x, hx, himsi⟩ := (h.inverse imsi teid).mp hteid
    change (s.deleteGtpcCtx teid).session u = _
    rw [session_deleteGtpcCtx]
    split_ifs with hu
    · rw [hu, hx]
      simp [Option.filter, himsi]
    · refine (filter_imsi_self ?_).symm
      intro y hy hyi
      exact hu (h.imsi_inj hy hx (hyi.trans himsi.symm))

theorem Registered.withoutSession (imsi : ℕ) :
    Registered (s.withoutSession imsi) := by
  unfold Spgw.withoutSession
  cases s.imsiToCtrTeid.find? imsi with
  | none => exact h
  | some teid => exact h.delete teid

end

def NewTeid (s : Spgw) (imsi : ℕ) : Prop :=
  ∀ ctx, s.teidToTunnelCtx.find? s.newCtrlTeid = some ctx → ctx.imsi = imsi

/-- The session that `create_gtpc_ctx` makes. -/
def newSession (s : Spgw) (imsi : ℕ) (senderFteid : GtpFteid) : SpgwSession :=
  ⟨imsi, s.newUeIpv4 imsi, ⟨0, s.newCtrlTeid⟩, senderFteid⟩

section Create

variable {senderFteid : GtpFteid} {uninit : Bool}

theorem Registered.free (h : Registered s) (hnew : s.NewTeid imsi) :
    (s.withoutSession imsi).session s.newCtrlTeid = none := by
  rw [h.session_withoutSession]
  cases hx : s.session s.newCtrlTeid with
  | none => rfl
  | some x =>
    obtain ⟨ctx, hctx, rfl⟩ := session_eq_some hx
    have himsi : ctx.session.imsi = imsi := hnew ctx hctx
    simp [Option.filter, himsi]

theorem Registered.session_create (h : Registered s) (hnew : s.NewTeid imsi) (u : ℕ) :
    (s.handleCreateSessionRequest imsi senderFteid uninit).1.session u =
      if u = s.newCtrlTeid then some (s.newSession imsi senderFteid)
      else (s.session u).filter fun x => x.imsi ≠ imsi := by
  have hfree := session_eq_none.mp (h.free hnew)
  change (((s.withoutSession imsi).teidToTunnelCtx.emplace (s.withoutSession imsi).newCtrlTeid
    _).find? u).map _ = _
  rw [newCtrlTeid_withoutSession, OrderedMap.find?_emplace, hfree]
  split_ifs with hu
  · unfold newTunnelCtx newSession SpgwTunnelCtx.session
    rw [newCtrlTeid_withoutSession, newUeIpv4_withoutSession]
    rfl
  · exact h.session_withoutSession imsi u

theorem Registered.imsiToCtrTeid_create (h : Registered s) (i : ℕ) :
    (s.handleCreateSessionRequest imsi senderFteid uninit).1.imsiToCtrTeid.find? i =
      if i = imsi then some s.newCtrlTeid else s.imsiToCtrTeid.find? i := by
  have hnone : (s.withoutSession imsi).imsiToCtrTeid.find? imsi = none := by
    cases ht : (s.withoutSession imsi).imsiToCtrTeid.find? imsi with
    | none => rfl
    | some t =>
      obtain ⟨x, hx, himsi⟩ := ((h.withoutSession imsi).inverse imsi t).mp ht
      rw [h.session_withoutSession] at hx
      have hne := (Option.filter_eq_some_iff.mp hx).2
      exact absurd himsi (of_decide_eq_true hne)
  change ((s.withoutSession imsi).imsiToCtrTeid.emplace imsi
    (s.withoutSession imsi).newCtrlTeid).find? i = _
  rw [newCtrlTeid_withoutSession, OrderedMap.find?_emplace, hnone]
  split_ifs with hi
  · rfl
  · unfold Spgw.withoutSession
    cases hteid : s.imsiToCtrTeid.find? imsi with
    | none => rfl
    | some teid =>
      obtain ⟨x, hx, himsi⟩ := (h.inverse imsi teid).mp hteid
      obtain ⟨ctx, hctx, rfl⟩ := session_eq_some hx
      change (s.deleteGtpcCtx teid).imsiToCtrTeid.find? i = _
      rw [deleteGtpcCtx_some hctx]
      change (s.imsiToCtrTeid.erase ctx.imsi).find? i = _
      rw [OrderedMap.find?_erase, if_neg fun heq => hi (heq.trans himsi)]

theorem Registered.create (h : Registered s) (hnew : s.NewTeid imsi) :
    Registered (s.handleCreateSessionRequest imsi senderFteid uninit).1 := by
  constructor
  · intro i t
    rw [h.imsiToCtrTeid_create, h.session_create hnew]
    split_ifs with hi ht ht
    · rw [hi, ht]
      exact ⟨fun _ => ⟨_, rfl, rfl⟩, fun _ => rfl⟩
    · constructor
      · intro hsome
        exact absurd (Option.some.inj hsome).symm ht
      · rintro ⟨x, hx, himsi⟩
        have hne := (Option.filter_eq_some_iff.mp hx).2
        exact absurd (himsi.trans hi) (of_decide_eq_true hne)
    · constructor
      · intro hsome
        obtain ⟨x, hx, himsi⟩ := (h.inverse i t).mp hsome
        obtain ⟨ctx, hctx, rfl⟩ := session_eq_some hx
        rw [ht] at hctx
        exact absurd (himsi.symm.trans (hnew ctx hctx)) hi
      · rintro ⟨x, hx, himsi⟩
        rw [← Option.some.inj hx] at himsi
        exact absurd himsi.symm hi
    · rw [h.inverse]
      constructor
      · rintro ⟨x, hx, himsi⟩
        exact ⟨x, Option.filter_eq_some_iff.mpr
          ⟨hx, decide_eq_true fun heq => hi (himsi.symm.trans heq)⟩, himsi⟩
      · rintro ⟨x, hx, himsi⟩
        exact ⟨x, (Option.filter_eq_some_iff.mp hx).1, himsi⟩
  · intro t x hx
    rw [h.session_create hnew] at hx
    split_ifs at hx with ht
    · rw [← Option.some.inj hx, ht]
      rfl
    · exact h.own t x (Option.filter_eq_some_iff.mp hx).1

end Create

theorem step_cases (s : Spgw) (e : SpgwEvent) :
    (∃ uninit imsi senderFteid, e = .s11 uninit (.createSessionRequest imsi senderFteid) ∧
      s.step e = (s.handleCreateSessionRequest imsi senderFteid uninit).1) ∨
    (∃ uninit teid cause, e = .s11 uninit (.deleteSessionRequest teid cause) ∧
      s.step e = s.handleDeleteSessionRequest teid) ∨
    SameSessions s (s.step e) := by
  cases e with
  | sgi msg => exact Or.inr (Or.inr (onlyPaging_handleSgiPdu s msg).same)
  | s11 uninit pdu =>
    cases pdu with
    | createSessionRequest imsi senderFteid =>
      exact Or.inl ⟨uninit, imsi, senderFteid, rfl, rfl⟩
    | deleteSessionRequest teid cause =>
      exact Or.inr (Or.inl ⟨uninit, teid, cause, rfl, rfl⟩)
    | modifyBearerRequest teid _ fteid => exact Or.inr (Or.inr (sameSessions_modify s teid fteid))
    | releaseAccessBearersRequest teid => exact Or.inr (Or.inr (sameSessions_release s teid))
    | downlinkDataNotificationAcknowledge teid cause =>
      exact Or.inr (Or.inr (onlyPaging_acknowledge s teid cause).same)
    | downlinkDataNotificationFailureIndication teid _ =>
      exact Or.inr (Or.inr (onlyPaging_failure s teid).same)
    | createSessionResponse _ _ => exact Or.inr (Or.inr (SameSessions.refl s))
    | modifyBearerResponse _ _ _ => exact Or.inr (Or.inr (SameSessions.refl s))
    | downlinkDataNotification _ _ => exact Or.inr (Or.inr (SameSessions.refl s))

def TeidFree (s : Spgw) : SpgwEvent → Prop
  | .s11 _ (.createSessionRequest imsi _) => s.NewTeid imsi
  | _ => True

theorem handleDeleteSessionRequest_some (h : s.teidToTunnelCtx.find? teid = some ctx) :
    s.handleDeleteSessionRequest teid = (s.deleteGtpuTunnel ctx.ueIpv4).deleteGtpcCtx teid := by
  unfold handleDeleteSessionRequest
  rw [h]

theorem handleDeleteSessionRequest_none (h : s.teidToTunnelCtx.find? teid = none) :
    s.handleDeleteSessionRequest teid = s := by
  unfold handleDeleteSessionRequest
  rw [h]

theorem session_handleDeleteSessionRequest (s : Spgw) (teid u : ℕ) :
    (s.handleDeleteSessionRequest teid).session u = if u = teid then none else s.session u := by
  cases h : s.teidToTunnelCtx.find? teid with
  | none =>
    rw [handleDeleteSessionRequest_none h]
    split_ifs with hu
    · rw [hu]
      exact session_eq_none.mpr h
    · rfl
  | some ctx =>
    rw [handleDeleteSessionRequest_some h, session_deleteGtpcCtx]
    rfl

end Spgw

end SrsLte
