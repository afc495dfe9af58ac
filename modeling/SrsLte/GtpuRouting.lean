import Mathlib.Data.Fintype.Basic
import SrsLte.EventRun
import SrsLte.Gtpu

/-!
# Routing of GTP-U bearers at the eNB

Tunnels are kept by RNTI and LCID, and the TEID of the tunnel towards the eNB is made of both. A
received packet is checked for its user but not for its bearer, and a packet sent for an unknown
user leaves an entry behind.
-/

namespace SrsLte

namespace Gtpu

/-- `SRSENB_N_RADIO_BEARERS`: the arrays have an element for each smaller LCID. -/
abbrev Lcid := Fin 11

def enbNSrb : ℕ := 3
def enbNRadioBearers : ℕ := 11

/-- `bearer_map`. -/
structure BearerMap where
  teidsIn : Lcid → UInt32
  teidsOut : Lcid → UInt32
  spgwAddrs : Lcid → UInt32

def BearerMap.zero : BearerMap := ⟨fun _ => 0, fun _ => 0, fun _ => 0⟩

/-- `rnti_bearers`. -/
abbrev RntiBearers := UInt16 → Option BearerMap

/-- What `operator[]` refers to. -/
def RntiBearers.ref (users : RntiBearers) (rnti : UInt16) : BearerMap := (users rnti).getD .zero

/-- `rntilcid_to_teidin`. -/
def rntilcidToTeidin (rnti lcid : UInt16) : UInt32 := (rnti.toUInt32 <<< 16) ||| lcid.toUInt32

/-- `teidin_to_rntilcid`. -/
def teidinToRntilcid (teidin : UInt32) : UInt16 × UInt16 :=
  (((teidin >>> 16) &&& 0xFFFF).toUInt16, (teidin &&& 0xFFFF).toUInt16)

def teidIn (rnti : UInt16) (lcid : Lcid) : UInt32 :=
  rntilcidToTeidin rnti (UInt16.ofNat lcid)

/-- `gtpu::add_bearer`. -/
def addBearer (users : RntiBearers) (rnti : UInt16) (lcid : Lcid) (addr teidOut : UInt32) :
    RntiBearers :=
  let bearers := users.ref rnti
  Function.update users rnti (some
    { teidsIn := Function.update bearers.teidsIn lcid (teidIn rnti lcid)
      teidsOut := Function.update bearers.teidsOut lcid teidOut
      spgwAddrs := Function.update bearers.spgwAddrs lcid addr })

/-- `gtpu::rem_bearer`. -/
def remBearer (users : RntiBearers) (rnti : UInt16) (lcid : Lcid) : RntiBearers :=
  let bearers := users.ref rnti
  let left := { bearers with
    teidsIn := Function.update bearers.teidsIn lcid 0
    teidsOut := Function.update bearers.teidsOut lcid 0 }
  if ∀ i, left.teidsIn i = 0 then Function.update users rnti none
  else Function.update users rnti (some left)

/-- `gtpu::rem_user`. -/
def remUser (users : RntiBearers) (rnti : UInt16) : RntiBearers := Function.update users rnti none

structure Sent where
  addr : UInt32
  header : GtpuHeader
  msg : Bytes

/-- `gtpu::write_pdu`. The header and the memory behind the PDU hold anything before. -/
def writePdu (users : RntiBearers) (rnti : UInt16) (lcid : Lcid) (pdu : ByteBuffer)
    (header : GtpuHeader) (behind stale : ℕ → UInt8) : RntiBearers × Option Sent :=
  let version := memory pdu.msg behind 0 >>> 4
  -- "Invalid IP version to SPGW"
  if version ≠ 4 ∧ version ≠ 6 then (users, none)
  else
    let bearers := users.ref rnti
    let users := Function.update users rnti (some bearers)
    let header := { header with
      flags := flagsVersionV1 ||| flagsGtpProtocol
      messageType := msgDataPdu
      length := UInt16.ofNat pdu.nBytes
      teid := bearers.teidsOut lcid }
    match writeHeader header pdu stale with
    | none => (users, none)
    | some (header, pdu) => (users, some ⟨bearers.spgwAddrs lcid, header, pdu.msg⟩)

inductive Received
  | dropped
  /-- `echo_response`, with its sequence number. -/
  | echoResponse (addr : UInt32) (port : UInt16) (seq : UInt16)
  /-- `write_sdu` of PDCP: bytes are taken off the front of the packet. -/
  | writeSdu (rnti lcid : UInt16) (stripped nBytes : ℕ)

/-- `gtpu::handle_gtpu_s1u_rx_packet`. -/
def handleGtpuS1uRxPacket (users : RntiBearers) (received : Bytes) (behind : ℕ → UInt8)
    (header : GtpuHeader) (addr : UInt32) (port : UInt16) : Received :=
  let read := readHeader (memory received behind) received.length header
  if ¬ read.ok then .dropped
  else if read.header.messageType = msgEchoRequest then
    .echoResponse addr port read.header.seqNumber
  else if read.header.messageType = msgDataPdu then
    let (rnti, lcid) := teidinToRntilcid read.header.teid
    -- "Unrecognized RNTI for DL PDU"
    if users rnti = none then .dropped
    -- "Invalid LCID for DL PDU"
    else if lcid.toNat < enbNSrb ∨ enbNRadioBearers ≤ lcid.toNat then .dropped
    else .writeSdu rnti lcid read.stripped read.nBytes
  else .dropped

inductive RoutingEvent
  | addBearer (rnti : UInt16) (hrnti : rnti ≠ 0) (lcid : Lcid) (addr teidOut : UInt32)
  | remBearer (rnti : UInt16) (lcid : Lcid)
  | remUser (rnti : UInt16)
  | writePdu (rnti : UInt16) (lcid : Lcid) (pdu : ByteBuffer) (header : GtpuHeader)
      (behind stale : ℕ → UInt8)
  | receive (received : Bytes) (behind : ℕ → UInt8) (header : GtpuHeader) (addr : UInt32)
      (port : UInt16)

/-- The table of the eNB, and the tunnels added and not removed since: the TEID and the address
of the SPGW. -/
structure RoutingRun where
  users : RntiBearers
  bearers : UInt16 → Lcid → Option (UInt32 × UInt32)

namespace RoutingRun

def init : RoutingRun := ⟨fun _ => none, fun _ _ => none⟩

def step (r : RoutingRun) : RoutingEvent → RoutingRun
  | .addBearer rnti _ lcid addr teidOut =>
    { users := Gtpu.addBearer r.users rnti lcid addr teidOut
      bearers := Function.update r.bearers rnti
        (Function.update (r.bearers rnti) lcid (some (teidOut, addr))) }
  | .remBearer rnti lcid =>
    { users := Gtpu.remBearer r.users rnti lcid
      bearers := Function.update r.bearers rnti (Function.update (r.bearers rnti) lcid none) }
  | .remUser rnti =>
    { users := Gtpu.remUser r.users rnti
      bearers := Function.update r.bearers rnti fun _ => none }
  | .writePdu rnti lcid pdu header behind stale =>
    { r with users := (Gtpu.writePdu r.users rnti lcid pdu header behind stale).1 }
  | .receive _ _ _ _ _ => r

def Routed (r : RoutingRun) : RoutingEvent → Prop
  | .writePdu rnti lcid pdu header behind stale =>
    let done := Gtpu.writePdu r.users rnti lcid pdu header behind stale
    (∀ sent, done.2 = some sent → r.bearers rnti lcid = some (sent.header.teid, sent.addr)) ∧
      (r.bearers rnti lcid = none → done.1 = r.users)
  | .receive received behind header addr port =>
    let read := readHeader (memory received behind) received.length header
    ∀ rnti lcid, (∃ stripped nBytes,
        handleGtpuS1uRxPacket r.users received behind header addr port =
          .writeSdu rnti lcid stripped nBytes) ↔
      (read.ok ∧ read.header.messageType = msgDataPdu) ∧
        ∃ l : Lcid, lcid = UInt16.ofNat l ∧ (r.bearers rnti l).isSome ∧
          read.header.teid = teidIn rnti l
  | _ => True

/-- The condition on a packet: the bearer of one to be sent is there, unless it is refused
before; and of a received one exactly when its user is there and its LCID is that of a DRB. -/
def Known (r : RoutingRun) : RoutingEvent → Prop
  | .writePdu rnti lcid pdu _ behind _ =>
    (∃ m, r.users rnti = some m ∧ m.teidsIn lcid ≠ 0) ∨
      (memory pdu.msg behind 0 >>> 4 ≠ 4 ∧ memory pdu.msg behind 0 >>> 4 ≠ 6) ∨
      (r.users rnti ≠ none ∧ pdu.headroom < baseHeaderLen)
  | .receive received behind header _ _ =>
    let read := readHeader (memory received behind) received.length header
    read.ok → read.header.messageType = msgDataPdu →
      ∀ m, r.users (teidinToRntilcid read.header.teid).1 = some m →
        ∀ l : Lcid, (teidinToRntilcid read.header.teid).2.toNat = l →
          (m.teidsIn l ≠ 0 ↔ enbNSrb ≤ l)
  | _ => True

structure Agrees (r : RoutingRun) : Prop where
  absent : ∀ rnti, r.users rnti = none → ∀ l, r.bearers rnti l = none
  teidIn : ∀ rnti m, r.users rnti = some m → ∀ l, m.teidsIn l ≠ 0 ↔ (r.bearers rnti l).isSome
  tunnel : ∀ rnti m l teidOut addr, r.users rnti = some m →
    r.bearers rnti l = some (teidOut, addr) → m.teidsOut l = teidOut ∧ m.spgwAddrs l = addr

end RoutingRun

theorem toNat_rntilcidToTeidin (rnti lcid : UInt16) :
    (rntilcidToTeidin rnti lcid).toNat = rnti.toNat * 2 ^ 16 + lcid.toNat := by
  have hrnti := rnti.toNat_lt
  have hlcid := lcid.toNat_lt
  have hfits : rnti.toNat <<< 16 < 2 ^ 32 := by
    rw [Nat.shiftLeft_eq]
    omega
  change rnti.toNat <<< 16 % 2 ^ 32 ||| lcid.toNat = _
  rw [Nat.mod_eq_of_lt hfits, ← Nat.shiftLeft_add_eq_or_of_lt hlcid, Nat.shiftLeft_eq]

theorem toNat_teidinToRntilcid (teid : UInt32) :
    (teidinToRntilcid teid).1.toNat = teid.toNat / 2 ^ 16 ∧
      (teidinToRntilcid teid).2.toNat = teid.toNat % 2 ^ 16 := by
  have hteid := teid.toNat_lt
  have hmask : ∀ n : ℕ, n &&& 65535 = n % 2 ^ 16 := fun n => Nat.and_two_pow_sub_one_eq_mod n 16
  constructor
  · change ((teid.toNat >>> 16) &&& 65535) % 2 ^ 16 = _
    rw [hmask, Nat.mod_mod, Nat.shiftRight_eq_div_pow, Nat.mod_eq_of_lt (by omega)]
  · change (teid.toNat &&& 65535) % 2 ^ 16 = _
    rw [hmask, Nat.mod_mod]

theorem teidinToRntilcid_eq_iff (teid : UInt32) (rnti lcid : UInt16) :
    teidinToRntilcid teid = (rnti, lcid) ↔ teid = rntilcidToTeidin rnti lcid := by
  have hlcid := lcid.toNat_lt
  obtain ⟨hrnti', hlcid'⟩ := toNat_teidinToRntilcid teid
  rw [Prod.ext_iff, ← UInt16.toNat_inj, ← UInt16.toNat_inj, ← UInt32.toNat_inj, hrnti', hlcid',
    toNat_rntilcidToTeidin]
  dsimp only
  omega

theorem toNat_ofNat_lcid (l : Lcid) : (UInt16.ofNat l).toNat = l := by
  have hl := l.isLt
  rw [UInt16.toNat_ofNat']
  omega

theorem teidIn_ne_zero {rnti : UInt16} (h : rnti ≠ 0) (l : Lcid) : teidIn rnti l ≠ 0 := by
  intro hzero
  have hnat := congrArg UInt32.toNat hzero
  rw [teidIn, toNat_rntilcidToTeidin] at hnat
  have hrnti : rnti.toNat ≠ 0 := fun h0 => h (UInt16.toNat_inj.mp h0)
  change _ = 0 at hnat
  omega

namespace RoutingRun

variable {r : RoutingRun} {rnti : UInt16} {lcid : Lcid} {pdu : ByteBuffer} {header : GtpuHeader}
  {behind stale : ℕ → UInt8}

theorem update_ref {users : RntiBearers} {m : BearerMap} (h : users rnti = some m) :
    users.ref rnti = m ∧ Function.update users rnti (some m) = users := by
  constructor
  · rw [RntiBearers.ref, h]
    rfl
  · rw [← h]
    exact Function.update_eq_self rnti users

theorem writeHeader_data (header : GtpuHeader) (pdu : ByteBuffer) (stale : ℕ → UInt8)
    (h : header.flags = flagsVersionV1 ||| flagsGtpProtocol)
    (htype : header.messageType = msgDataPdu) :
    (pdu.headroom < baseHeaderLen → writeHeader header pdu stale = none) ∧
      (baseHeaderLen ≤ pdu.headroom →
        ∃ written, writeHeader header pdu stale = some (header, written)) := by
  have hflags : supportedFlagsCheck header.flags = true := by
    rw [h]
    decide
  have hmsg : supportedMsgTypeCheck header.messageType = true := by
    rw [htype]
    decide
  have hoptional : hasOptional header.flags = false := by
    rw [h]
    decide
  have hlen : headerLen header.flags = baseHeaderLen := by
    rw [headerLen, hoptional]
    rfl
  unfold writeHeader
  rw [if_neg (not_not.mpr hflags), if_neg (not_not.mpr hmsg), ← hlen]
  constructor
  · intro hroom
    rw [dif_pos hroom]
  · intro hroom
    rw [dif_neg (Nat.not_lt.mpr hroom)]
    simp only [hoptional, Bool.false_eq_true, false_and, if_false]
    exact ⟨_, rfl⟩

/-- What is done for a PDU: nothing without an IP version, else an entry is there afterwards, and
the PDU is sent where there is room. -/
theorem writePdu_spec (users : RntiBearers) (rnti : UInt16) (lcid : Lcid) (pdu : ByteBuffer)
    (header : GtpuHeader) (behind stale : ℕ → UInt8) :
    ((memory pdu.msg behind 0 >>> 4 ≠ 4 ∧ memory pdu.msg behind 0 >>> 4 ≠ 6) →
      Gtpu.writePdu users rnti lcid pdu header behind stale = (users, none)) ∧
    (¬ (memory pdu.msg behind 0 >>> 4 ≠ 4 ∧ memory pdu.msg behind 0 >>> 4 ≠ 6) →
      (Gtpu.writePdu users rnti lcid pdu header behind stale).1 =
        Function.update users rnti (some (users.ref rnti)) ∧
      (pdu.headroom < baseHeaderLen →
        (Gtpu.writePdu users rnti lcid pdu header behind stale).2 = none) ∧
      (baseHeaderLen ≤ pdu.headroom →
        ∃ sent, (Gtpu.writePdu users rnti lcid pdu header behind stale).2 = some sent ∧
          sent.header.teid = (users.ref rnti).teidsOut lcid ∧
          sent.addr = (users.ref rnti).spgwAddrs lcid)) := by
  unfold Gtpu.writePdu
  constructor
  · intro hversion
    rw [if_pos hversion]
  · intro hversion
    rw [if_neg hversion]
    dsimp only
    let written : GtpuHeader := { header with
      flags := flagsVersionV1 ||| flagsGtpProtocol
      messageType := msgDataPdu
      length := UInt16.ofNat pdu.nBytes
      teid := (users.ref rnti).teidsOut lcid }
    obtain ⟨hnone, hsome⟩ := writeHeader_data written pdu stale rfl rfl
    rcases Nat.lt_or_ge pdu.headroom baseHeaderLen with hroom | hroom
    · rw [hnone hroom]
      exact ⟨rfl, fun _ => rfl, fun h => absurd h (Nat.not_le.mpr hroom)⟩
    · obtain ⟨out, hout⟩ := hsome hroom
      rw [hout]
      exact ⟨rfl, fun h => absurd hroom (Nat.not_le.mpr h), fun _ => ⟨_, rfl, rfl, rfl⟩⟩

theorem writePdu_users (h : r.Known (.writePdu rnti lcid pdu header behind stale)) :
    (Gtpu.writePdu r.users rnti lcid pdu header behind stale).1 = r.users := by
  obtain ⟨hrefused, hsent⟩ := writePdu_spec r.users rnti lcid pdu header behind stale
  by_cases hversion : memory pdu.msg behind 0 >>> 4 ≠ 4 ∧ memory pdu.msg behind 0 >>> 4 ≠ 6
  · rw [hrefused hversion]
  have hthere : ∃ m, r.users rnti = some m := by
    rcases h with ⟨m, hm, -⟩ | hversion' | ⟨huser, -⟩
    · exact ⟨m, hm⟩
    · exact absurd hversion' hversion
    · exact Option.ne_none_iff_exists'.mp huser
  obtain ⟨m, hm⟩ := hthere
  rw [(hsent hversion).1, (update_ref hm).1, (update_ref hm).2]

theorem routed_writePdu_iff (hr : r.Agrees) :
    r.Routed (.writePdu rnti lcid pdu header behind stale) ↔
      r.Known (.writePdu rnti lcid pdu header behind stale) := by
  obtain ⟨hrefused, hsent⟩ := writePdu_spec r.users rnti lcid pdu header behind stale
  constructor
  · intro h
    by_contra hunknown
    simp only [Known, not_or] at hunknown
    obtain ⟨hbearer, hversion, hroom⟩ := hunknown
    obtain ⟨htable, -, hout⟩ := hsent hversion
    have hnone : r.bearers rnti lcid = none := by
      cases hm : r.users rnti with
      | none => exact hr.absent rnti hm lcid
      | some m =>
        by_contra hsome
        exact hbearer ⟨m, hm, (hr.teidIn rnti m hm lcid).mpr (Option.isSome_iff_ne_none.mpr hsome)⟩
    have hsame := h.2 hnone
    have huser : r.users rnti ≠ none := by
      intro huser
      rw [htable] at hsame
      have hentry := congrFun hsame rnti
      rw [Function.update_self, huser] at hentry
      cases hentry
    have hlen : baseHeaderLen ≤ pdu.headroom :=
      Nat.not_lt.mp fun hlt => hroom ⟨huser, hlt⟩
    obtain ⟨sent, heq, -⟩ := hout hlen
    have hexists := h.1 sent heq
    rw [hnone] at hexists
    cases hexists
  · intro h
    refine ⟨fun sent heq => ?_, fun _ => writePdu_users h⟩
    by_cases hversion : memory pdu.msg behind 0 >>> 4 ≠ 4 ∧ memory pdu.msg behind 0 >>> 4 ≠ 6
    · rw [hrefused hversion] at heq
      cases heq
    obtain ⟨-, hfull, hout⟩ := hsent hversion
    rcases Nat.lt_or_ge pdu.headroom baseHeaderLen with hroom | hroom
    · rw [hfull hroom] at heq
      cases heq
    rcases h with ⟨m, hm, hteid⟩ | hversion' | ⟨-, hroom'⟩
    · obtain ⟨⟨teidOut, addr⟩, htunnel⟩ :=
        Option.isSome_iff_exists.mp ((hr.teidIn rnti m hm lcid).mp hteid)
      obtain ⟨sent', hsent', hteidOut, haddr⟩ := hout hroom
      obtain ⟨hown, hspgw⟩ := hr.tunnel rnti m lcid teidOut addr hm htunnel
      rw [hsent'] at heq
      obtain rfl := Option.some.inj heq
      rw [htunnel, hteidOut, haddr, (update_ref hm).1, hown, hspgw]
    · exact absurd hversion' hversion
    · omega

theorem handle_eq_writeSdu_iff {users : RntiBearers} {received : Bytes} {addr : UInt32}
    {port rnti lcid : UInt16} :
    (∃ stripped nBytes, handleGtpuS1uRxPacket users received behind header addr port =
      .writeSdu rnti lcid stripped nBytes) ↔
    ((readHeader (memory received behind) received.length header).ok ∧
      (readHeader (memory received behind) received.length header).header.messageType =
        msgDataPdu) ∧
      teidinToRntilcid (readHeader (memory received behind) received.length header).header.teid =
        (rnti, lcid) ∧
      users rnti ≠ none ∧ enbNSrb ≤ lcid.toNat ∧ lcid.toNat < enbNRadioBearers := by
  unfold handleGtpuS1uRxPacket
  dsimp only
  generalize readHeader (memory received behind) received.length header = read
  obtain ⟨rnti', lcid'⟩ := teidinToRntilcid read.header.teid
  split_ifs with hok hecho hdata huser hrange
  · have hne : msgEchoRequest ≠ msgDataPdu := by decide
    constructor
    · rintro ⟨_, _, h⟩
      cases h
    · rintro ⟨⟨-, hdata⟩, -⟩
      exact absurd (hecho.symm.trans hdata) hne
  · constructor
    · rintro ⟨_, _, h⟩
      cases h
    · rintro ⟨-, hpair, hthere, -⟩
      obtain ⟨rfl, rfl⟩ := Prod.mk.inj hpair
      exact absurd huser hthere
  · constructor
    · rintro ⟨_, _, h⟩
      cases h
    · rintro ⟨-, hpair, -, hsrb, hlt⟩
      obtain ⟨rfl, rfl⟩ := Prod.mk.inj hpair
      dsimp only at hrange
      omega
  · obtain ⟨hsrb, hlt⟩ := not_or.mp hrange
    constructor
    · rintro ⟨_, _, h⟩
      obtain ⟨rfl, rfl, -⟩ := Received.writeSdu.inj h
      exact ⟨⟨hok, hdata⟩, rfl, huser, Nat.not_lt.mp hsrb, Nat.not_le.mp hlt⟩
    · rintro ⟨-, hpair, -⟩
      obtain ⟨rfl, rfl⟩ := Prod.mk.inj hpair
      exact ⟨_, _, rfl⟩
  · constructor
    · rintro ⟨_, _, h⟩
      cases h
    · rintro ⟨⟨-, hdata'⟩, -⟩
      exact absurd hdata' hdata
  · constructor
    · rintro ⟨_, _, h⟩
      cases h
    · rintro ⟨⟨hok', -⟩, -⟩
      exact absurd hok' hok

theorem routed_receive_iff (hr : r.Agrees) {received : Bytes} {addr : UInt32} {port : UInt16} :
    r.Routed (.receive received behind header addr port) ↔
      r.Known (.receive received behind header addr port) := by
  simp only [Routed, Known, handle_eq_writeSdu_iff]
  generalize readHeader (memory received behind) received.length header = read
  rcases hpair : teidinToRntilcid read.header.teid with ⟨rnti0, lcid0⟩
  dsimp only
  have hteid : ∀ (rnti : UInt16) (l : Lcid), read.header.teid = teidIn rnti l ↔
      rnti0 = rnti ∧ lcid0 = UInt16.ofNat l := by
    intro rnti l
    rw [teidIn, ← teidinToRntilcid_eq_iff, hpair, Prod.mk.injEq]
  have hlcid : ∀ l : Lcid, lcid0 = UInt16.ofNat l ↔ lcid0.toNat = l := by
    intro l
    rw [← UInt16.toNat_inj, toNat_ofNat_lcid]
  constructor
  · intro h hok hdata m hm l hl
    have hiff := h rnti0 lcid0
    rw [hr.teidIn rnti0 m hm l]
    constructor
    · intro hsome
      have hthere := hiff.mpr ⟨⟨hok, hdata⟩, l, (hlcid l).mpr hl, hsome,
        (hteid rnti0 l).mpr ⟨rfl, (hlcid l).mpr hl⟩⟩
      omega
    · intro hsrb
      have hrange : lcid0.toNat < enbNRadioBearers := hl ▸ l.isLt
      obtain ⟨-, l', hl', hsome, -⟩ := hiff.mp ⟨⟨hok, hdata⟩, rfl, by rw [hm]; simp, by omega,
        hrange⟩
      have hsame : l' = l := Fin.ext (((hlcid l').mp hl').symm.trans hl)
      rwa [hsame] at hsome
  · intro h rnti lcid
    constructor
    · rintro ⟨hdata, hpair', huser, hsrb, hrange⟩
      obtain ⟨rfl, rfl⟩ := Prod.mk.inj hpair'
      obtain ⟨m, hm⟩ := Option.ne_none_iff_exists'.mp huser
      let l : Lcid := ⟨lcid0.toNat, hrange⟩
      have hbearer := (h hdata.1 hdata.2 m hm l rfl).mpr hsrb
      exact ⟨hdata, l, (hlcid l).mpr rfl, (hr.teidIn _ m hm l).mp hbearer,
        (hteid _ l).mpr ⟨rfl, (hlcid l).mpr rfl⟩⟩
    · rintro ⟨hdata, l, rfl, hsome, hteid'⟩
      obtain ⟨rfl, hl⟩ := (hteid rnti l).mp hteid'
      cases hm : r.users rnti0 with
      | none =>
        rw [hr.absent rnti0 hm l] at hsome
        cases hsome
      | some m =>
        have hsrb := (h hdata.1 hdata.2 m hm l ((hlcid l).mp hl)).mp
          ((hr.teidIn rnti0 m hm l).mpr hsome)
        refine ⟨hdata, by rw [hl], by simp, ?_⟩
        rw [toNat_ofNat_lcid]
        exact ⟨hsrb, l.isLt⟩

theorem agrees_init : init.Agrees := by
  constructor
  · intro _ _ _
    rfl
  · intro _ _ h
    cases h
  · intro _ _ _ _ _ h
    cases h

theorem Agrees.ref (hr : r.Agrees) (rnti : UInt16) (l : Lcid) :
    ((r.users.ref rnti).teidsIn l ≠ 0 ↔ (r.bearers rnti l).isSome) ∧
      ∀ teidOut addr, r.bearers rnti l = some (teidOut, addr) →
        (r.users.ref rnti).teidsOut l = teidOut ∧ (r.users.ref rnti).spgwAddrs l = addr := by
  cases hm : r.users rnti with
  | none =>
    have hnone := hr.absent rnti hm l
    rw [RntiBearers.ref, hm, hnone]
    exact ⟨iff_of_false (fun h => h rfl) (by simp), fun _ _ h => by cases h⟩
  | some m =>
    rw [(update_ref hm).1]
    exact ⟨hr.teidIn rnti m hm l, fun teidOut addr h => hr.tunnel rnti m l teidOut addr hm h⟩

theorem Agrees.update (hr : r.Agrees) {entry : Option BearerMap}
    {tunnels : Lcid → Option (UInt32 × UInt32)} (habsent : entry = none → ∀ l, tunnels l = none)
    (hteid : ∀ m, entry = some m → ∀ l, m.teidsIn l ≠ 0 ↔ (tunnels l).isSome)
    (htunnel : ∀ m l teidOut addr, entry = some m → tunnels l = some (teidOut, addr) →
      m.teidsOut l = teidOut ∧ m.spgwAddrs l = addr) :
    Agrees ⟨Function.update r.users rnti entry, Function.update r.bearers rnti tunnels⟩ := by
  have hsplit (x : UInt16) : Function.update r.users rnti entry x = entry ∧
      Function.update r.bearers rnti tunnels x = tunnels ∨
      Function.update r.users rnti entry x = r.users x ∧
        Function.update r.bearers rnti tunnels x = r.bearers x := by
    by_cases h : x = rnti
    · exact Or.inl (by rw [h, Function.update_self, Function.update_self]; exact ⟨rfl, rfl⟩)
    · exact Or.inr ⟨Function.update_of_ne h _ _, Function.update_of_ne h _ _⟩
  constructor
  all_goals
    intro x
    dsimp only
    rcases hsplit x with ⟨hu, hb⟩ | ⟨hu, hb⟩ <;> rw [hu, hb]
  exacts [habsent, hr.absent x, hteid, hr.teidIn x, htunnel, hr.tunnel x]

theorem Agrees.addBearer (hr : r.Agrees) (hrnti : rnti ≠ 0) (lcid : Lcid) (addr teidOut : UInt32) :
    (r.step (.addBearer rnti hrnti lcid addr teidOut)).Agrees := by
  refine hr.update (fun h => by cases h) ?_ ?_
  · rintro m ⟨⟩ l
    by_cases hl : l = lcid
    · rw [hl]
      dsimp only
      rw [Function.update_self, Function.update_self]
      exact iff_of_true (teidIn_ne_zero hrnti lcid) rfl
    · dsimp only
      rw [Function.update_of_ne hl, Function.update_of_ne hl]
      exact (hr.ref rnti l).1
  · rintro m l teidOut' addr' ⟨⟩
    by_cases hl : l = lcid
    · rw [hl]
      dsimp only
      rw [Function.update_self, Function.update_self, Function.update_self]
      rintro ⟨⟩
      exact ⟨rfl, rfl⟩
    · dsimp only
      rw [Function.update_of_ne hl, Function.update_of_ne hl, Function.update_of_ne hl]
      exact (hr.ref rnti l).2 teidOut' addr'

theorem Agrees.remBearer (hr : r.Agrees) (rnti : UInt16) (lcid : Lcid) :
    (r.step (.remBearer rnti lcid)).Agrees := by
  have hleft : ∀ l, Function.update (r.users.ref rnti).teidsIn lcid 0 l ≠ 0 ↔
      (Function.update (r.bearers rnti) lcid none l).isSome := by
    intro l
    by_cases hl : l = lcid
    · rw [hl, Function.update_self, Function.update_self]
      exact iff_of_false (fun h => h rfl) (by simp)
    · rw [Function.update_of_ne hl, Function.update_of_ne hl]
      exact (hr.ref rnti l).1
  unfold step Gtpu.remBearer
  dsimp only
  split_ifs with hall
  · refine hr.update (fun _ l => ?_) (fun _ h => by cases h) fun _ _ _ _ h => by cases h
    by_contra hsome
    exact (hleft l).mpr (Option.isSome_iff_ne_none.mpr hsome) (hall l)
  · refine hr.update (fun h => by cases h) ?_ ?_
    · rintro m ⟨⟩ l
      exact hleft l
    · rintro m l teidOut addr ⟨⟩ htunnel
      by_cases hl : l = lcid
      · rw [hl, Function.update_self] at htunnel
        cases htunnel
      · rw [Function.update_of_ne hl] at htunnel
        dsimp only
        rw [Function.update_of_ne hl]
        exact (hr.ref rnti l).2 teidOut addr htunnel

theorem Agrees.step (hr : r.Agrees) {e : RoutingEvent} (h : r.Known e) : (r.step e).Agrees := by
  cases e with
  | addBearer rnti hrnti lcid addr teidOut => exact hr.addBearer hrnti lcid addr teidOut
  | remBearer rnti lcid => exact hr.remBearer rnti lcid
  | remUser rnti =>
    exact hr.update (fun _ _ => rfl) (fun _ h => by cases h) fun _ _ _ _ h => by cases h
  | writePdu rnti lcid pdu header behind stale =>
    rw [RoutingRun.step, writePdu_users h]
    exact hr
  | receive _ _ _ _ _ => exact hr

theorem routed_iff (r : RoutingRun) (e : RoutingEvent) (hr : r.Agrees) :
    r.Routed e ↔ r.Known e := by
  cases e with
  | addBearer | remBearer | remUser => exact Iff.rfl
  | writePdu rnti lcid pdu header behind stale => exact routed_writePdu_iff hr
  | receive received behind header addr port => exact routed_receive_iff hr

end RoutingRun

/-- Packets are routed along the tunnels exactly in runs whose packets are known. -/
theorem packets_routed_iff (events : List RoutingEvent) :
    EventRun.Along RoutingRun.step RoutingRun.Routed RoutingRun.init events ↔
      EventRun.Along RoutingRun.step RoutingRun.Known RoutingRun.init events := by
  apply EventRun.along_congr _ RoutingRun.routed_iff RoutingRun.agrees_init
  intro r e hr h
  exact hr.step ((RoutingRun.routed_iff r e hr).mp h)

def ipv4Pdu : ByteBuffer := ⟨1020, [0x45], by decide⟩

/-- A PDU of an unknown user goes to TEID 0, and the user is there then. -/
theorem unknown_user_created :
    ¬ EventRun.Along RoutingRun.step RoutingRun.Routed RoutingRun.init
      [.writePdu 70 3 ipv4Pdu ⟨0, 0, 0, 0, 0, 0, 0⟩ (fun _ => 0) (fun _ => 0)] := by
  rintro ⟨⟨-, hstate⟩, -⟩
  have hentry := congrFun (hstate rfl) 70
  cases hentry

end Gtpu

end SrsLte
