import SrsLte.EventRun
import Mathlib.Tactic.Common

/-!
# Uplink HARQ of the UE

`ul_harq_process::new_grant_ul` instructs the PHY for the grants and the HARQ feedback of one
process. The multiplexing unit is seen by the PDU that it hands over, and the random access
procedure by what is called on it: both of its calls that are made on a grant leave no temporal
C-RNTI. The grant of a RAR has no RV, and counts with 0: such a grant is never retransmitted.
-/

namespace SrsLte

/-- `ul_harq_cfg_t`: RRC configures at least one transmission. -/
structure UlHarqCfg where
  maxHarqMsg3Tx : ℕ
  maxHarqTx : ℕ
  msg3_pos : 0 < maxHarqMsg3Tx
  tx_pos : 0 < maxHarqTx

/-- What a process reads of `mac_grant_ul_t`. -/
structure MacGrantUl where
  rnti : ℕ
  ndi : Bool
  ndiPresent : Bool
  tbs : ℕ
  rv : ℕ
  phichAvailable : Bool
  hiValue : Bool
  deriving DecidableEq

/-- A grant with the RNTIs of that time, the answers of `is_contention_resolution` and of
`msg3_is_pending`, and the PDU that `msg3_get` or `pdu_get` hands over if it is called. -/
structure UlHarqInput where
  grant : MacGrantUl
  crnti : ℕ
  tempRnti : ℕ
  contentionResolution : Bool
  msg3Pending : Bool
  pdu : Option (List UInt8)
  deriving DecidableEq

/-- `tb_action_ul_t`, zero at first. -/
structure TbActionUl where
  enabled : Bool
  rv : ℕ
  payload : Option (List UInt8)
  currentTxNb : ℕ
  expectAck : Bool
  deriving DecidableEq

def TbActionUl.zero : TbActionUl := ⟨false, 0, none, 0, false⟩

/-- A call on the random access procedure, or on the multiplexing unit with what it hands over. -/
inductive UlHarqCall
  | harqMaxRetx
  | harqRetx
  | pdcchToCrnti
  | msg3Get (pduSz : ℕ) (pdu : Option (List UInt8))
  | pduGet (pduSz : ℕ) (pdu : Option (List UInt8))
  deriving DecidableEq

/-- `pduPtr` is what `pdu_ptr` points to. -/
structure UlHarqProcess where
  curGrant : MacGrantUl
  currentTxNb : ℕ
  currentIrv : ℕ
  harqFeedback : Bool
  isGrantConfigured : Bool
  pduPtr : Option (List UInt8)
  deriving DecidableEq

namespace UlHarqProcess

def zeroGrant : MacGrantUl := ⟨0, false, false, 0, 0, false, false⟩

def init : UlHarqProcess := ⟨zeroGrant, 0, 0, false, false, none⟩

def payloadBufferLen : ℕ := 128 * 1024

def reset (p : UlHarqProcess) : UlHarqProcess :=
  { p with currentTxNb := 0, currentIrv := 0, isGrantConfigured := false, curGrant := zeroGrant }

def rvOfIrv (irv : ℕ) : ℕ :=
  match irv % 4 with
  | 0 => 0
  | 1 => 2
  | 2 => 3
  | _ => 1

def irvOfRv (rv : ℕ) : ℕ :=
  match rv % 4 with
  | 0 => 0
  | 1 => 3
  | 2 => 1
  | _ => 2

def getRv (p : UlHarqProcess) : ℕ := rvOfIrv p.currentIrv

def getNdi (p : UlHarqProcess) : Bool := p.curGrant.ndi

def getCurrentTbs (p : UlHarqProcess) : ℕ := p.curGrant.tbs

def generateTx (p : UlHarqProcess) : UlHarqProcess × TbActionUl :=
  let p := { p with currentTxNb := p.currentTxNb + 1 }
  ({ p with currentIrv := (p.currentIrv + 1) % 4 },
    { enabled := true
      rv := if p.curGrant.rv > 0 then p.curGrant.rv else p.getRv
      payload := p.pduPtr
      currentTxNb := p.currentTxNb
      expectAck := true })

def generateNewTx (p : UlHarqProcess) (grant : MacGrantUl) : UlHarqProcess × TbActionUl :=
  { p with
    curGrant := grant, harqFeedback := false, isGrantConfigured := true, currentTxNb := 0,
    currentIrv := 0 }.generateTx

/-- "HARQ entity requests an adaptive transmission", or a non-adaptive one, which is "only sent if
HI=NACK". -/
def generateRetx (p : UlHarqProcess) (grant : MacGrantUl) : UlHarqProcess × TbActionUl :=
  if grant.ndiPresent then
    let p := if grant.rv ≠ 0 then { p with currentIrv := irvOfRv grant.rv } else p
    { p with curGrant := grant, harqFeedback := false }.generateTx
  else if ¬p.harqFeedback then p.generateTx
  else (p, .zero)

/-- `grant_is_rar()`, on the temporal C-RNTI of that time. -/
def grantIsRar (grant : MacGrantUl) (tempRnti : ℕ) : Prop := grant.rnti = tempRnti

instance (grant : MacGrantUl) (tempRnti : ℕ) : Decidable (grantIsRar grant tempRnti) :=
  inferInstanceAs (Decidable (_ = _))

def maxRetx (cfg : UlHarqCfg) (e : UlHarqInput) : ℕ :=
  if grantIsRar e.grant e.tempRnti then cfg.maxHarqMsg3Tx else cfg.maxHarqTx

/-- The feedback of the PHICH: "Check maximum retransmissions, do not consider last retx ACK". -/
def receivePhich (p : UlHarqProcess) (cfg : UlHarqCfg) (e : UlHarqInput) :
    UlHarqProcess × ℕ × List UlHarqCall :=
  if e.grant.phichAvailable then
    let p := { p with
      harqFeedback :=
        if e.grant.ndiPresent ∧ e.grant.ndi = p.getNdi ∧ e.grant.tbs ≠ 0 then false
        else e.grant.hiValue }
    if maxRetx cfg e ≤ p.currentTxNb ∧ ¬e.grant.hiValue then
      if grantIsRar e.grant e.tempRnti then (p.reset, 0, [.harqMaxRetx])
      else (p.reset, e.tempRnti, [])
    else if grantIsRar e.grant e.tempRnti ∧ p.currentTxNb ≠ 0 then (p, e.tempRnti, [.harqRetx])
    else (p, e.tempRnti, [])
  else (p, e.tempRnti, [])

/-- "Reset HARQ process if TB has changed". -/
def resetChanged (p : UlHarqProcess) (grant : MacGrantUl) : UlHarqProcess :=
  if (p.harqFeedback ∧ p.isGrantConfigured ∧ grant.ndiPresent) ∧
      grant.tbs ≠ p.curGrant.tbs ∧ p.curGrant.tbs > 0 ∧ grant.tbs > 0 then p.reset
  else p

def requestPdu (p : UlHarqProcess) (e : UlHarqInput) (tempRnti : ℕ) :
    UlHarqProcess × TbActionUl × List UlHarqCall :=
  if e.grant.tbs > payloadBufferLen then (p, .zero, [])
  else if grantIsRar e.grant tempRnti ∧ ¬e.msg3Pending then (p, .zero, [])
  else
    let call : UlHarqCall :=
      if grantIsRar e.grant tempRnti then .msg3Get e.grant.tbs e.pdu else .pduGet e.grant.tbs e.pdu
    let p := { p with pduPtr := e.pdu }
    if e.pdu.isSome then ((p.generateNewTx e.grant).1, (p.generateNewTx e.grant).2, [call])
    else (p, .zero, [call])

/-- "New transmission". -/
def newTransmission (p : UlHarqProcess) (e : UlHarqInput) (tempRnti : ℕ) :
    UlHarqProcess × TbActionUl × List UlHarqCall :=
  let p := p.reset
  if e.grant.rnti = e.crnti ∧ e.contentionResolution then
    let (p, action, calls) := p.requestPdu e 0
    (p, action, .pdcchToCrnti :: calls)
  else p.requestPdu e tempRnti

/-- "If NDI toggled or is first dci is a new tx", for the C-RNTI, or "T-CRNTI received in RAR". -/
def IsNewTx (p : UlHarqProcess) (e : UlHarqInput) (tempRnti : ℕ) : Prop :=
  (e.grant.rnti = e.crnti ∧ (e.grant.ndi ≠ p.getNdi ∨ ¬p.isGrantConfigured)) ∨
    grantIsRar e.grant tempRnti

instance (p : UlHarqProcess) (e : UlHarqInput) (tempRnti : ℕ) :
    Decidable (p.IsNewTx e tempRnti) := inferInstanceAs (Decidable (_ ∨ _))

/-- "Receive and route HARQ feedbacks". -/
def route (p : UlHarqProcess) (e : UlHarqInput) (tempRnti : ℕ) :
    UlHarqProcess × TbActionUl × List UlHarqCall :=
  if e.grant.ndiPresent then
    -- "it's a CQI request, don't read PDU from RLC"
    if e.grant.tbs = 0 then (p, { TbActionUl.zero with enabled := true }, [])
    else if p.IsNewTx e tempRnti then p.newTransmission e tempRnti
    else if p.isGrantConfigured then
      ((p.generateRetx e.grant).1, (p.generateRetx e.grant).2, [])
    else (p, .zero, [])
  else if p.isGrantConfigured then ((p.generateRetx e.grant).1, (p.generateRetx e.grant).2, [])
  else (p, .zero, [])

def newGrantUl (p : UlHarqProcess) (cfg : UlHarqCfg) (e : UlHarqInput) :
    UlHarqProcess × TbActionUl × List UlHarqCall :=
  let (p, tempRnti, calls) := p.receivePhich cfg e
  let (p, action, calls') := (p.resetChanged e.grant).route e tempRnti
  (p, action, calls ++ calls')

end UlHarqProcess

/-- The PDU assembled at the last new transmission: whether it is a Msg3, how often it was
transmitted, and the RV sent last. -/
structure UlTransmission where
  pdu : List UInt8
  msg3 : Bool
  count : ℕ
  lastRv : ℕ
  deriving DecidableEq

structure UlHarqRun where
  process : UlHarqProcess
  sent : Option UlTransmission
  deriving DecidableEq

def UlHarqCall.assembled? : UlHarqCall → Option (Bool × List UInt8)
  | msg3Get _ pdu => pdu.map fun pdu => (true, pdu)
  | pduGet _ pdu => pdu.map fun pdu => (false, pdu)
  | _ => none

def assembledPdu (calls : List UlHarqCall) : Option (Bool × List UInt8) :=
  calls.findSome? UlHarqCall.assembled?

def UlHarqInput.CqiOnly (e : UlHarqInput) : Prop := e.grant.ndiPresent = true ∧ e.grant.tbs = 0

instance (e : UlHarqInput) : Decidable e.CqiOnly := inferInstanceAs (Decidable (_ ∧ _))

def rvSuccessor (rv : ℕ) : ℕ :=
  match rv % 4 with
  | 0 => 2
  | 2 => 3
  | 3 => 1
  | _ => 0

def UlHarqCfg.maxTx (cfg : UlHarqCfg) (msg3 : Bool) : ℕ :=
  if msg3 then cfg.maxHarqMsg3Tx else cfg.maxHarqTx

namespace UlHarqRun

def init : UlHarqRun := ⟨.init, none⟩

def Transmits (s : UlHarqRun) (cfg : UlHarqCfg) (e : UlHarqInput) : Prop :=
  (s.process.newGrantUl cfg e).2.1.enabled = true ∧ ¬e.CqiOnly

instance (s : UlHarqRun) (cfg : UlHarqCfg) (e : UlHarqInput) : Decidable (s.Transmits cfg e) :=
  inferInstanceAs (Decidable (_ ∧ _))

def step (cfg : UlHarqCfg) (s : UlHarqRun) (e : UlHarqInput) : UlHarqRun :=
  let (p, action, calls) := s.process.newGrantUl cfg e
  { process := p
    sent :=
      if action.enabled ∧ ¬e.CqiOnly then
        match assembledPdu calls with
        | some (msg3, pdu) => some ⟨pdu, msg3, 1, action.rv⟩
        | none => s.sent.map fun t => { t with count := t.count + 1, lastRv := action.rv }
      else s.sent }

def expectedRv (s : UlHarqRun) (cfg : UlHarqCfg) (e : UlHarqInput) : Option ℕ :=
  if (assembledPdu (s.process.newGrantUl cfg e).2.2).isSome then some 0
  else if e.grant.ndiPresent ∧ 0 < e.grant.rv then some e.grant.rv
  else s.sent.map fun t => rvSuccessor t.lastRv

/-- A transmission of the PDU `t`, as it should be. -/
structure SoundTx (cfg : UlHarqCfg) (s : UlHarqRun) (e : UlHarqInput) (t : UlTransmission) :
    Prop where
  payload : (s.process.newGrantUl cfg e).2.1.payload = some t.pdu
  tbs : (s.process.newGrantUl cfg e).1.getCurrentTbs = t.pdu.length
  count : t.count ≤ cfg.maxTx t.msg3
  rv : s.expectedRv cfg e = some (s.process.newGrantUl cfg e).2.1.rv

def TransmitsSoundly (cfg : UlHarqCfg) (s : UlHarqRun) (e : UlHarqInput) : Prop :=
  s.Transmits cfg e → ∃ t, (s.step cfg e).sent = some t ∧ SoundTx cfg s e t

end UlHarqRun

namespace UlHarqProcess

/-- The process behind the checks on the feedback and the size, and the temporal C-RNTI. -/
def checked (p : UlHarqProcess) (cfg : UlHarqCfg) (e : UlHarqInput) : UlHarqProcess × ℕ :=
  ((p.receivePhich cfg e).1.resetChanged e.grant, (p.receivePhich cfg e).2.1)

/-- The temporal C-RNTI behind `pdcch_to_crnti`. -/
def contendedRnti (e : UlHarqInput) (tempRnti : ℕ) : ℕ :=
  if e.grant.rnti = e.crnti ∧ e.contentionResolution then 0 else tempRnti

def Requested (e : UlHarqInput) (tempRnti : ℕ) (pdu : List UInt8) : Prop :=
  e.grant.tbs ≤ payloadBufferLen ∧ (grantIsRar e.grant tempRnti → e.msg3Pending = true) ∧
    e.pdu = some pdu

structure StartsTx (p : UlHarqProcess) (e : UlHarqInput) (tempRnti : ℕ) (pdu : List UInt8) :
    Prop where
  ndiPresent : e.grant.ndiPresent = true
  tbs_ne : e.grant.tbs ≠ 0
  isNewTx : p.IsNewTx e tempRnti
  requested : Requested e (contendedRnti e tempRnti) pdu

structure RepeatsAdaptive (p : UlHarqProcess) (e : UlHarqInput) (tempRnti : ℕ) : Prop where
  ndiPresent : e.grant.ndiPresent = true
  tbs_ne : e.grant.tbs ≠ 0
  not_newTx : ¬p.IsNewTx e tempRnti
  configured : p.isGrantConfigured = true

structure RepeatsNonAdaptive (p : UlHarqProcess) (e : UlHarqInput) : Prop where
  not_present : e.grant.ndiPresent = false
  configured : p.isGrantConfigured = true
  nack : p.harqFeedback = false

variable {p q : UlHarqProcess} {cfg : UlHarqCfg} {e : UlHarqInput} {tempRnti : ℕ}

/-- No transmission of a PDU; the process is kept, or it has no grant left. -/
structure Idle (p : UlHarqProcess) (e : UlHarqInput) (r : UlHarqProcess × TbActionUl) : Prop where
  quiet : r.2.enabled = true → e.CqiOnly
  kept : r.1 = p ∨ r.1.isGrantConfigured = false

/-- The four things that `route` does. -/
inductive Routed (p : UlHarqProcess) (e : UlHarqInput) (tempRnti : ℕ) :
    UlHarqProcess × TbActionUl × List UlHarqCall → Prop
  | idle {r : UlHarqProcess} {action : TbActionUl} {calls : List UlHarqCall}
      (hidle : Idle p e (r, action)) (hstart : ∀ pdu, ¬p.StartsTx e tempRnti pdu)
      (hadaptive : ¬p.RepeatsAdaptive e tempRnti) (hnon : ¬p.RepeatsNonAdaptive e) :
      Routed p e tempRnti (r, action, calls)
  | newTx {pdu : List UInt8} {msg3 : Bool} {calls : List UlHarqCall}
      (hstart : p.StartsTx e tempRnti pdu) (hcalls : assembledPdu calls = some (msg3, pdu)) :
      Routed p e tempRnti (({ p.reset with pduPtr := some pdu } : UlHarqProcess).generateNewTx
        e.grant |>.1, ({ p.reset with pduPtr := some pdu } : UlHarqProcess).generateNewTx
        e.grant |>.2, calls)
  | adaptive (hrepeat : p.RepeatsAdaptive e tempRnti) :
      Routed p e tempRnti ((p.generateRetx e.grant).1, (p.generateRetx e.grant).2, [])
  | nonAdaptive (hrepeat : p.RepeatsNonAdaptive e) :
      Routed p e tempRnti ((p.generateRetx e.grant).1, (p.generateRetx e.grant).2, [])

theorem requestPdu_cases (p : UlHarqProcess) (e : UlHarqInput) (tempRnti : ℕ) :
    (∃ r calls, p.requestPdu e tempRnti = (r, .zero, calls) ∧
      r.isGrantConfigured = p.isGrantConfigured ∧ ∀ pdu, ¬Requested e tempRnti pdu) ∨
    ∃ pdu msg3 call, p.requestPdu e tempRnti =
        (({ p with pduPtr := some pdu } : UlHarqProcess).generateNewTx e.grant |>.1,
          ({ p with pduPtr := some pdu } : UlHarqProcess).generateNewTx e.grant |>.2, [call]) ∧
      UlHarqCall.assembled? call = some (msg3, pdu) ∧ Requested e tempRnti pdu := by
  unfold requestPdu
  by_cases hlen : e.grant.tbs > payloadBufferLen
  · rw [if_pos hlen]
    exact Or.inl ⟨p, [], rfl, rfl, fun pdu h => Nat.not_le.2 hlen h.1⟩
  rw [if_neg hlen]
  by_cases hpending : grantIsRar e.grant tempRnti ∧ ¬e.msg3Pending = true
  · rw [if_pos hpending]
    exact Or.inl ⟨p, [], rfl, rfl, fun pdu h => hpending.2 (h.2.1 hpending.1)⟩
  rw [if_neg hpending]
  dsimp only
  cases hpdu : e.pdu with
  | none =>
    rw [if_neg (by simp)]
    refine Or.inl ⟨_, _, rfl, rfl, fun pdu h => ?_⟩
    rw [h.2.2] at hpdu
    cases hpdu
  | some pdu =>
    rw [if_pos (by simp)]
    have hreq : Requested e tempRnti pdu :=
      ⟨Nat.not_lt.1 hlen, fun h => not_not.1 fun h' => hpending ⟨h, h'⟩, hpdu⟩
    by_cases hrar : grantIsRar e.grant tempRnti
    · rw [if_pos hrar]
      exact Or.inr ⟨pdu, true, _, rfl, rfl, hreq⟩
    · rw [if_neg hrar]
      exact Or.inr ⟨pdu, false, _, rfl, rfl, hreq⟩

theorem newTransmission_eq (p : UlHarqProcess) (e : UlHarqInput) (tempRnti : ℕ) :
    ∃ calls, assembledPdu calls = none ∧ p.newTransmission e tempRnti =
      ((p.reset.requestPdu e (contendedRnti e tempRnti)).1,
        (p.reset.requestPdu e (contendedRnti e tempRnti)).2.1,
        calls ++ (p.reset.requestPdu e (contendedRnti e tempRnti)).2.2) := by
  unfold newTransmission contendedRnti
  by_cases hcontended : e.grant.rnti = e.crnti ∧ e.contentionResolution = true
  · rw [if_pos hcontended, if_pos hcontended]
    exact ⟨[.pdcchToCrnti], rfl, rfl⟩
  · rw [if_neg hcontended, if_neg hcontended]
    exact ⟨[], rfl, rfl⟩

theorem assembledPdu_append {calls later : List UlHarqCall} (h : assembledPdu calls = none) :
    assembledPdu (calls ++ later) = assembledPdu later := by
  unfold assembledPdu at h ⊢
  rw [List.findSome?_append, h, Option.none_or]

theorem generateRetx_quiet {grant : MacGrantUl} (hpresent : grant.ndiPresent = false)
    (hack : p.harqFeedback = true) : p.generateRetx grant = (p, .zero) := by
  unfold generateRetx
  rw [hpresent, hack, if_neg Bool.false_ne_true, if_neg (by simp)]

theorem routed_newTransmission (hpresent : e.grant.ndiPresent = true) (htbs : e.grant.tbs ≠ 0)
    (hnew : p.IsNewTx e tempRnti) : Routed p e tempRnti (p.newTransmission e tempRnti) := by
  have hadaptive : ¬p.RepeatsAdaptive e tempRnti := fun h => h.not_newTx hnew
  have hnon : ¬p.RepeatsNonAdaptive e := fun h => by
    have := h.not_present
    rw [hpresent] at this
    cases this
  obtain ⟨calls, hcalls, heq⟩ := newTransmission_eq p e tempRnti
  rw [heq]
  rcases requestPdu_cases p.reset e (contendedRnti e tempRnti) with
    ⟨r, later, hreq, hconf, hno⟩ | ⟨pdu, msg3, call, hreq, hget, hyes⟩
  · rw [hreq]
    refine Routed.idle ⟨fun h => absurd h Bool.false_ne_true, Or.inr hconf⟩ (fun pdu h => ?_)
      hadaptive hnon
    exact hno pdu h.requested
  · rw [hreq]
    have hall : assembledPdu (calls ++ [call]) = some (msg3, pdu) := by
      rw [assembledPdu_append hcalls, assembledPdu, List.findSome?_singleton, hget]
    exact .newTx ⟨hpresent, htbs, hnew, hyes⟩ hall

theorem routed_route (p : UlHarqProcess) (e : UlHarqInput) (tempRnti : ℕ) :
    Routed p e tempRnti (p.route e tempRnti) := by
  unfold route
  by_cases hpresent : e.grant.ndiPresent = true
  · rw [if_pos hpresent]
    have hnon : ¬p.RepeatsNonAdaptive e := fun h => by
      have := h.not_present
      rw [hpresent] at this
      cases this
    by_cases htbs : e.grant.tbs = 0
    · rw [if_pos htbs]
      exact .idle ⟨fun _ => ⟨hpresent, htbs⟩, Or.inl rfl⟩ (fun _ h => h.tbs_ne htbs)
        (fun h => h.tbs_ne htbs) hnon
    rw [if_neg htbs]
    by_cases hnew : p.IsNewTx e tempRnti
    · rw [if_pos hnew]
      exact routed_newTransmission hpresent htbs hnew
    rw [if_neg hnew]
    by_cases hconf : p.isGrantConfigured = true
    · rw [if_pos hconf]
      exact .adaptive ⟨hpresent, htbs, hnew, hconf⟩
    · rw [if_neg hconf]
      exact .idle ⟨fun h => absurd h Bool.false_ne_true, Or.inl rfl⟩ (fun _ h => hnew h.isNewTx)
        (fun h => hconf h.configured) hnon
  · rw [if_neg hpresent]
    have hstart : ∀ pdu, ¬p.StartsTx e tempRnti pdu := fun _ h => hpresent h.ndiPresent
    have hadaptive : ¬p.RepeatsAdaptive e tempRnti := fun h => hpresent h.ndiPresent
    have hidle : Idle p e (p, .zero) := ⟨fun h => absurd h Bool.false_ne_true, Or.inl rfl⟩
    by_cases hconf : p.isGrantConfigured = true
    · rw [if_pos hconf]
      cases hfeedback : p.harqFeedback with
      | true =>
        rw [generateRetx_quiet (Bool.eq_false_iff.2 hpresent) hfeedback]
        exact .idle hidle hstart hadaptive fun h => by
          have := h.nack
          rw [hfeedback] at this
          cases this
      | false => exact .nonAdaptive ⟨Bool.eq_false_iff.2 hpresent, hconf, hfeedback⟩
    · rw [if_neg hconf]
      exact .idle hidle hstart hadaptive fun h => hconf h.configured

theorem receivePhich_cases (p : UlHarqProcess) (cfg : UlHarqCfg) (e : UlHarqInput) :
    assembledPdu (p.receivePhich cfg e).2.2 = none ∧
      ((p.receivePhich cfg e).1.isGrantConfigured = false ∨
        ∃ ack, (p.receivePhich cfg e).1 = { p with harqFeedback := ack }) := by
  unfold receivePhich
  by_cases hphich : e.grant.phichAvailable = true
  · rw [if_pos hphich]
    dsimp only
    generalize (if e.grant.ndiPresent = true ∧ e.grant.ndi = p.getNdi ∧ e.grant.tbs ≠ 0 then false
      else e.grant.hiValue) = ack
    split_ifs
    · exact ⟨rfl, Or.inl rfl⟩
    · exact ⟨rfl, Or.inl rfl⟩
    · exact ⟨rfl, Or.inr ⟨ack, rfl⟩⟩
    · exact ⟨rfl, Or.inr ⟨ack, rfl⟩⟩
  · rw [if_neg hphich]
    exact ⟨rfl, Or.inr ⟨p.harqFeedback, rfl⟩⟩

theorem newGrantUl_eq (p : UlHarqProcess) (cfg : UlHarqCfg) (e : UlHarqInput) :
    p.newGrantUl cfg e =
      (((p.checked cfg e).1.route e (p.checked cfg e).2).1,
        ((p.checked cfg e).1.route e (p.checked cfg e).2).2.1,
        (p.receivePhich cfg e).2.2 ++ ((p.checked cfg e).1.route e (p.checked cfg e).2).2.2) :=
  rfl

theorem checked_cases (p : UlHarqProcess) (cfg : UlHarqCfg) (e : UlHarqInput) :
    (p.checked cfg e).1.isGrantConfigured = false ∨
      ∃ ack, (p.checked cfg e).1 = { p with harqFeedback := ack } := by
  unfold checked resetChanged
  dsimp only
  split_ifs
  · exact Or.inl rfl
  · exact (receivePhich_cases p cfg e).2

end UlHarqProcess

theorem mod_four_cases (n : ℕ) : n % 4 = 0 ∨ n % 4 = 1 ∨ n % 4 = 2 ∨ n % 4 = 3 := by
  have hlt : n % 4 < 4 := Nat.mod_lt _ (by decide)
  omega

theorem rvOfIrv_succ (irv : ℕ) : UlHarqProcess.rvOfIrv ((irv + 1) % 4) =
    rvSuccessor (UlHarqProcess.rvOfIrv irv) := by
  unfold UlHarqProcess.rvOfIrv
  rw [Nat.mod_mod, Nat.add_mod]
  rcases mod_four_cases irv with h | h | h | h <;> rw [h] <;> rfl

theorem rvSuccessor_irvOfRv (rv : ℕ) :
    rvSuccessor (UlHarqProcess.rvOfIrv (UlHarqProcess.irvOfRv rv)) = rvSuccessor rv := by
  unfold UlHarqProcess.irvOfRv rvSuccessor
  rcases mod_four_cases rv with h | h | h | h <;> rw [h] <;> rfl

theorem rvSuccessor_ne (rv : ℕ) : rvSuccessor rv ≠ rv := by
  intro h
  rcases mod_four_cases rv with hr | hr | hr | hr <;> simp only [rvSuccessor, hr] at h <;> omega

namespace UlHarqRun

/-- The process holds the PDU `t` and knows what it sent. -/
structure Sending (t : UlTransmission) (p : UlHarqProcess) : Prop where
  pduPtr : p.pduPtr = some t.pdu
  tbs : p.curGrant.tbs = t.pdu.length
  count : p.currentTxNb = t.count
  next : UlHarqProcess.rvOfIrv p.currentIrv = rvSuccessor t.lastRv
  sticky : 0 < p.curGrant.rv → t.lastRv = p.curGrant.rv

def Consistent (s : UlHarqRun) : Prop :=
  s.process.isGrantConfigured = true → ∃ t, s.sent = some t ∧ Sending t s.process

theorem consistent_init : Consistent init := fun h => absurd h Bool.false_ne_true

/-- A new transmission is for RV 0 and the size of its PDU. A retransmission is for the size of the
grant before, and below the maximum; without a grant, the grant before did not give an RV. -/
structure MeetsTx (cfg : UlHarqCfg) (s : UlHarqRun) (e : UlHarqInput) : Prop where
  newTx : ∀ pdu, (s.process.checked cfg e).1.StartsTx e (s.process.checked cfg e).2 pdu →
    pdu.length = e.grant.tbs ∧ e.grant.rv = 0
  adaptive : (s.process.checked cfg e).1.RepeatsAdaptive e (s.process.checked cfg e).2 →
    e.grant.tbs = s.process.curGrant.tbs ∧ ∀ t ∈ s.sent, s.process.currentTxNb < cfg.maxTx t.msg3
  nonAdaptive : (s.process.checked cfg e).1.RepeatsNonAdaptive e →
    s.process.curGrant.rv = 0 ∧ ∀ t ∈ s.sent, s.process.currentTxNb < cfg.maxTx t.msg3

variable {s : UlHarqRun} {cfg : UlHarqCfg} {e : UlHarqInput}

variable {p r : UlHarqProcess} {action : TbActionUl} {calls : List UlHarqCall} {t : UlTransmission}

theorem step_of_eq (heq : s.process.newGrantUl cfg e = (p, action, calls)) :
    s.step cfg e = ⟨p, if action.enabled = true ∧ ¬e.CqiOnly then
      match assembledPdu calls with
      | some (msg3, pdu) => some ⟨pdu, msg3, 1, action.rv⟩
      | none => s.sent.map fun t => { t with count := t.count + 1, lastRv := action.rv }
      else s.sent⟩ := by
  unfold step
  rw [heq]

theorem step_idle (hcons : s.Consistent) (heq : s.process.newGrantUl cfg e = (r, action, calls))
    (hidle : UlHarqProcess.Idle (s.process.checked cfg e).1 e (r, action)) :
    s.TransmitsSoundly cfg e ∧ (s.step cfg e).Consistent := by
  have hquiet : ¬(action.enabled = true ∧ ¬e.CqiOnly) := fun h => h.2 (hidle.quiet h.1)
  constructor
  · intro h
    unfold Transmits at h
    rw [heq] at h
    exact absurd h hquiet
  · rw [step_of_eq heq, if_neg hquiet]
    intro hconf
    dsimp only at hconf ⊢
    rcases hidle.kept with hkept | hnone
    · dsimp only at hkept
      rcases UlHarqProcess.checked_cases s.process cfg e with hoff | ⟨ack, hack⟩
      · rw [hkept, hoff] at hconf
        cases hconf
      · rw [hkept, hack] at hconf ⊢
        obtain ⟨t, ht, hsending⟩ := hcons hconf
        exact ⟨t, ht, ⟨hsending.pduPtr, hsending.tbs, hsending.count, hsending.next,
          hsending.sticky⟩⟩
    · rw [hnone] at hconf
      cases hconf

theorem maxTx_pos (cfg : UlHarqCfg) (msg3 : Bool) : 0 < cfg.maxTx msg3 := by
  unfold UlHarqCfg.maxTx
  split_ifs
  · exact cfg.msg3_pos
  · exact cfg.tx_pos

theorem transmitsSoundly_iff (heq : s.process.newGrantUl cfg e = (p, action, calls))
    (hon : action.enabled = true) (hcqi : ¬e.CqiOnly) (hsent : (s.step cfg e).sent = some t) :
    s.TransmitsSoundly cfg e ↔ SoundTx cfg s e t := by
  have htransmits : s.Transmits cfg e := by
    unfold Transmits
    rw [heq]
    exact ⟨hon, hcqi⟩
  constructor
  · intro h
    obtain ⟨t', ht', hsound⟩ := h htransmits
    obtain rfl := Option.some.inj (hsent.symm.trans ht')
    exact hsound
  · exact fun hsound _ => ⟨t, hsent, hsound⟩

theorem generateNewTx_eq (p : UlHarqProcess) (grant : MacGrantUl) :
    p.generateNewTx grant = (⟨grant, 1, 1, false, true, p.pduPtr⟩,
      ⟨true, if grant.rv > 0 then grant.rv else 0, p.pduPtr, 1, true⟩) := rfl

theorem step_newTx {q : UlHarqProcess}
    {pdu : List UInt8} {msg3 : Bool} (heq : s.process.newGrantUl cfg e = (p, action, calls))
    (hcqi : ¬e.CqiOnly) (hcalls : assembledPdu calls = some (msg3, pdu))
    (hgen : (p, action) = q.generateNewTx e.grant) (hpdu : q.pduPtr = some pdu) :
    (s.TransmitsSoundly cfg e ↔ pdu.length = e.grant.tbs ∧ e.grant.rv = 0) ∧
      (s.TransmitsSoundly cfg e → (s.step cfg e).Consistent) := by
  rw [generateNewTx_eq, hpdu] at hgen
  obtain ⟨rfl, rfl⟩ := Prod.mk.inj hgen
  have hstep := step_of_eq heq
  rw [if_pos ⟨rfl, hcqi⟩, hcalls] at hstep
  dsimp only at hstep
  have hiff : s.TransmitsSoundly cfg e ↔ pdu.length = e.grant.tbs ∧ e.grant.rv = 0 := by
    rw [transmitsSoundly_iff heq rfl hcqi (congrArg UlHarqRun.sent hstep)]
    constructor
    · intro hsound
      have htbs := hsound.tbs
      have hrv := hsound.rv
      unfold expectedRv at hrv
      rw [heq] at htbs hrv
      rw [hcalls, if_pos Option.isSome_some] at hrv
      refine ⟨htbs.symm, ?_⟩
      have hzero := Option.some.inj hrv
      dsimp only at hzero
      split_ifs at hzero with hpos
      · exact absurd hzero (Nat.ne_of_lt hpos)
      · exact Nat.eq_zero_of_not_pos hpos
    · rintro ⟨hlen, hrv⟩
      refine ⟨?_, ?_, maxTx_pos cfg msg3, ?_⟩
      · rw [heq]
      · rw [heq]
        exact hlen.symm
      · unfold expectedRv
        rw [heq, hcalls, if_pos Option.isSome_some, hrv]
        rfl
  refine ⟨hiff, fun h _ => ?_⟩
  obtain ⟨hlen, hrv⟩ := hiff.1 h
  rw [hstep]
  refine ⟨_, rfl, ⟨rfl, hlen.symm, rfl, ?_, ?_⟩⟩
  · rw [hrv]
    rfl
  · intro hpos
    dsimp only at hpos
    rw [hrv] at hpos
    exact absurd hpos (Nat.lt_irrefl 0)

theorem generateTx_eq (p : UlHarqProcess) :
    p.generateTx =
      ({ p with currentTxNb := p.currentTxNb + 1, currentIrv := (p.currentIrv + 1) % 4 },
        ⟨true, if p.curGrant.rv > 0 then p.curGrant.rv else p.getRv, p.pduPtr,
          p.currentTxNb + 1, true⟩) := rfl

theorem step_retx {q : UlHarqProcess}
    {rv : ℕ} (heq : s.process.newGrantUl cfg e = (p, action, calls))
    (hcqi : ¬e.CqiOnly) (hcalls : assembledPdu calls = none) (hgen : (p, action) = q.generateTx)
    (hsent : s.sent = some t) (hpdu : q.pduPtr = some t.pdu) (hcount : q.currentTxNb = t.count)
    (hrv : rv = if q.curGrant.rv > 0 then q.curGrant.rv else q.getRv) :
    (s.TransmitsSoundly cfg e ↔
      q.curGrant.tbs = t.pdu.length ∧ t.count < cfg.maxTx t.msg3 ∧
        (if e.grant.ndiPresent = true ∧ 0 < e.grant.rv then e.grant.rv
          else rvSuccessor t.lastRv) = rv) ∧
      (s.TransmitsSoundly cfg e →
        rvSuccessor (UlHarqProcess.rvOfIrv q.currentIrv) = rvSuccessor rv →
        (s.step cfg e).Consistent) := by
  rw [generateTx_eq, ← hrv, hpdu, hcount] at hgen
  obtain ⟨rfl, rfl⟩ := Prod.mk.inj hgen
  have hstep := step_of_eq heq
  rw [if_pos ⟨rfl, hcqi⟩, hcalls, hsent] at hstep
  dsimp only [Option.map_some] at hstep
  have hexpected : s.expectedRv cfg e = some (if e.grant.ndiPresent = true ∧ 0 < e.grant.rv then
      e.grant.rv else rvSuccessor t.lastRv) := by
    unfold expectedRv
    rw [heq, hcalls, if_neg (by simp), hsent]
    split_ifs <;> rfl
  have hiff : s.TransmitsSoundly cfg e ↔
      q.curGrant.tbs = t.pdu.length ∧ t.count < cfg.maxTx t.msg3 ∧
        (if e.grant.ndiPresent = true ∧ 0 < e.grant.rv then e.grant.rv
          else rvSuccessor t.lastRv) = rv := by
    rw [transmitsSoundly_iff heq rfl hcqi (congrArg UlHarqRun.sent hstep)]
    constructor
    · intro hsound
      have htbs := hsound.tbs
      have hrv' := hsound.rv
      rw [heq] at htbs hrv'
      exact ⟨htbs, hsound.count, Option.some.inj (hexpected.symm.trans hrv')⟩
    · rintro ⟨htbs, hlt, hrv'⟩
      refine ⟨?_, ?_, hlt, ?_⟩
      · rw [heq]
      · rw [heq]
        exact htbs
      · rw [hexpected, hrv', heq]
  refine ⟨hiff, fun h hnext _ => ?_⟩
  rw [hstep]
  refine ⟨_, rfl, ⟨rfl, (hiff.1 h).1, rfl, ?_, ?_⟩⟩
  · dsimp only
    rw [rvOfIrv_succ, hnext]
  · intro hpos
    dsimp only at hpos ⊢
    rw [hrv, if_pos hpos]

theorem Consistent.checked (hcons : s.Consistent)
    (hconf : (s.process.checked cfg e).1.isGrantConfigured = true) :
    ∃ t ack, s.sent = some t ∧ Sending t s.process ∧
      (s.process.checked cfg e).1 = { s.process with harqFeedback := ack } := by
  rcases UlHarqProcess.checked_cases s.process cfg e with hoff | ⟨ack, hack⟩
  · rw [hoff] at hconf
    cases hconf
  · rw [hack] at hconf
    obtain ⟨t, ht, hsending⟩ := hcons hconf
    exact ⟨t, ack, ht, hsending, hack⟩

theorem Sending.below_iff (hsending : Sending t s.process) (hsent : s.sent = some t) :
    (∀ t' ∈ s.sent, s.process.currentTxNb < cfg.maxTx t'.msg3) ↔ t.count < cfg.maxTx t.msg3 := by
  rw [hsent, hsending.count]
  exact ⟨fun h => h t rfl, fun h t' ht' => by cases ht'; exact h⟩

theorem Sending.next_rv {rv : ℕ} (hsending : Sending t s.process) (hrv : rv = 0) :
    rvSuccessor t.lastRv =
      if rv > 0 then rv else UlHarqProcess.rvOfIrv s.process.currentIrv := by
  rw [hrv, if_neg (Nat.lt_irrefl 0), hsending.next]

section

variable (hcons : s.Consistent) (heq : s.process.newGrantUl cfg e = (r, action, calls))
  (hcalls : assembledPdu calls = none)
  (hgen : (r, action) = (s.process.checked cfg e).1.generateRetx e.grant)
include hcons heq hcalls hgen

theorem step_adaptive
    (hrepeat : (s.process.checked cfg e).1.RepeatsAdaptive e (s.process.checked cfg e).2) :
    (s.TransmitsSoundly cfg e ↔ e.grant.tbs = s.process.curGrant.tbs ∧
      ∀ t ∈ s.sent, s.process.currentTxNb < cfg.maxTx t.msg3) ∧
      (s.TransmitsSoundly cfg e → (s.step cfg e).Consistent) := by
  obtain ⟨t, ack, hsent, hsending, hchecked⟩ := hcons.checked hrepeat.configured
  have hcqi : ¬e.CqiOnly := fun h => hrepeat.tbs_ne h.2
  rw [hchecked] at hgen
  unfold UlHarqProcess.generateRetx at hgen
  rw [if_pos hrepeat.ndiPresent] at hgen
  rw [hsending.below_iff hsent, hsending.tbs]
  by_cases hrv : e.grant.rv = 0
  · rw [if_neg (not_not.2 hrv)] at hgen
    obtain ⟨hiff, hkeep⟩ := step_retx heq hcqi hcalls hgen hsent hsending.pduPtr hsending.count
      (hsending.next_rv hrv)
    rw [if_neg fun h => Nat.ne_of_gt h.2 hrv, and_iff_left rfl] at hiff
    exact ⟨hiff, fun h => hkeep h (congrArg rvSuccessor hsending.next)⟩
  · rw [if_pos hrv] at hgen
    have hpos : 0 < e.grant.rv := Nat.pos_of_ne_zero hrv
    obtain ⟨hiff, hkeep⟩ := step_retx heq hcqi hcalls hgen hsent hsending.pduPtr hsending.count
      (if_pos hpos).symm
    rw [if_pos ⟨hrepeat.ndiPresent, hpos⟩, and_iff_left rfl] at hiff
    exact ⟨hiff, fun h => hkeep h (rvSuccessor_irvOfRv _)⟩

theorem step_nonAdaptive (hrepeat : (s.process.checked cfg e).1.RepeatsNonAdaptive e) :
    (s.TransmitsSoundly cfg e ↔ s.process.curGrant.rv = 0 ∧
      ∀ t ∈ s.sent, s.process.currentTxNb < cfg.maxTx t.msg3) ∧
      (s.TransmitsSoundly cfg e → (s.step cfg e).Consistent) := by
  obtain ⟨t, ack, hsent, hsending, hchecked⟩ := hcons.checked hrepeat.configured
  have hpresent : ¬e.grant.ndiPresent = true := Bool.eq_false_iff.1 hrepeat.not_present
  have hcqi : ¬e.CqiOnly := fun h => hpresent h.1
  have hnack := hrepeat.nack
  unfold UlHarqProcess.generateRetx at hgen
  rw [if_neg hpresent, hnack, if_pos Bool.false_ne_true, hchecked] at hgen
  rw [hsending.below_iff hsent]
  by_cases hrv : s.process.curGrant.rv = 0
  · obtain ⟨hiff, hkeep⟩ := step_retx heq hcqi hcalls hgen hsent hsending.pduPtr hsending.count
      (hsending.next_rv hrv)
    rw [if_neg fun h => hpresent h.1, and_iff_left rfl] at hiff
    refine ⟨hiff.trans ?_, fun h => hkeep h (congrArg rvSuccessor hsending.next)⟩
    rw [and_iff_right hrv]
    exact and_iff_right hsending.tbs
  · -- the RV of the last grant is sent once more
    have hpos : 0 < s.process.curGrant.rv := Nat.pos_of_ne_zero hrv
    obtain ⟨hiff, -⟩ := step_retx heq hcqi hcalls hgen hsent hsending.pduPtr hsending.count
      (if_pos hpos).symm
    rw [if_neg fun h => hpresent h.1] at hiff
    have hnot : ¬s.TransmitsSoundly cfg e := by
      rw [hiff]
      rintro ⟨-, -, hsticky⟩
      rw [hsending.sticky hpos] at hsticky
      exact rvSuccessor_ne _ hsticky
    exact ⟨iff_of_false hnot fun h => hrv h.1, fun h => absurd h hnot⟩

end

theorem step_sound_iff (hcons : s.Consistent) :
    (s.TransmitsSoundly cfg e ↔ s.MeetsTx cfg e) ∧
      (s.TransmitsSoundly cfg e → (s.step cfg e).Consistent) := by
  have heq := UlHarqProcess.newGrantUl_eq s.process cfg e
  have hbefore := (UlHarqProcess.receivePhich_cases s.process cfg e).1
  have hrouted := UlHarqProcess.routed_route (s.process.checked cfg e).1 e
    (s.process.checked cfg e).2
  generalize ((s.process.checked cfg e).1.route e (s.process.checked cfg e).2) = routed
    at heq hrouted
  cases hrouted with
  | idle hidle hstart hadaptive hnon =>
    obtain ⟨hsound, hkeep⟩ := step_idle hcons heq hidle
    exact ⟨iff_of_true hsound ⟨fun pdu h => absurd h (hstart pdu), fun h => absurd h hadaptive,
      fun h => absurd h hnon⟩, fun _ => hkeep⟩
  | @newTx pdu msg3 calls hstart hcalls =>
    have hcqi : ¬e.CqiOnly := fun h => hstart.tbs_ne h.2
    have hadaptive : ¬(s.process.checked cfg e).1.RepeatsAdaptive e (s.process.checked cfg e).2 :=
      fun h => h.not_newTx hstart.isNewTx
    have hnon : ¬(s.process.checked cfg e).1.RepeatsNonAdaptive e := fun h =>
      Bool.eq_false_iff.1 h.not_present hstart.ndiPresent
    obtain ⟨hiff, hkeep⟩ := step_newTx heq hcqi
      ((UlHarqProcess.assembledPdu_append hbefore).trans hcalls) rfl rfl
    refine ⟨hiff.trans ⟨fun h => ⟨fun pdu' h' => ?_, fun h => absurd h hadaptive,
      fun h => absurd h hnon⟩, fun h => h.newTx pdu hstart⟩, hkeep⟩
    have hpdu := hstart.requested.2.2.symm.trans h'.requested.2.2
    cases hpdu
    exact h
  | adaptive hrepeat =>
    have hnon : ¬(s.process.checked cfg e).1.RepeatsNonAdaptive e := fun h =>
      Bool.eq_false_iff.1 h.not_present hrepeat.ndiPresent
    obtain ⟨hiff, hkeep⟩ := step_adaptive hcons heq
      ((UlHarqProcess.assembledPdu_append hbefore).trans rfl) rfl hrepeat
    exact ⟨hiff.trans ⟨fun h => ⟨fun pdu h' => absurd h'.isNewTx hrepeat.not_newTx, fun _ => h,
      fun h => absurd h hnon⟩, fun h => h.adaptive hrepeat⟩, hkeep⟩
  | nonAdaptive hrepeat =>
    have hpresent : ¬e.grant.ndiPresent = true := Bool.eq_false_iff.1 hrepeat.not_present
    obtain ⟨hiff, hkeep⟩ := step_nonAdaptive hcons heq
      ((UlHarqProcess.assembledPdu_append hbefore).trans rfl) rfl hrepeat
    exact ⟨hiff.trans ⟨fun h => ⟨fun pdu h' => absurd h'.ndiPresent hpresent,
      fun h' => absurd h'.ndiPresent hpresent, fun _ => h⟩, fun h => h.nonAdaptive hrepeat⟩, hkeep⟩

/-- Every transmission of a run is sound exactly where every grant meets the condition. -/
theorem transmissions_sound_iff (cfg : UlHarqCfg) (events : List UlHarqInput) :
    EventRun.Along (step cfg) (fun s e => s.TransmitsSoundly cfg e) init events ↔
      EventRun.Along (step cfg) (fun s e => s.MeetsTx cfg e) init events :=
  EventRun.along_congr (fun _ _ hcons hsound => (step_sound_iff hcons).2 hsound)
    (fun _ _ hcons => (step_sound_iff hcons).1) consistent_init

def defaultCfg : UlHarqCfg := ⟨5, 5, by decide, by decide⟩

def dataGrant (tbs rv : ℕ) (hiValue : Bool) : UlHarqInput :=
  ⟨⟨70, true, true, tbs, rv, true, hiValue⟩, 70, 0, false, false, some (List.replicate tbs 0)⟩

def nackFeedback : UlHarqInput :=
  ⟨⟨70, false, false, 0, 0, true, false⟩, 70, 0, false, false, none⟩

/-- A retransmission of another size carries the old PDU, grants that come with an ACK go on beyond
the maximum, and a non-adaptive retransmission repeats the RV of the grant. -/
theorem old_pdu_in_new_size :
    ¬EventRun.Along (step defaultCfg) (fun s e => s.TransmitsSoundly defaultCfg e) init
        [dataGrant 2 0 false, dataGrant 3 0 false] ∧
      ¬EventRun.Along (step defaultCfg) (fun s e => s.TransmitsSoundly defaultCfg e) init
        (List.replicate 6 (dataGrant 2 0 true)) ∧
      ¬EventRun.Along (step defaultCfg) (fun s e => s.TransmitsSoundly defaultCfg e) init
        [dataGrant 2 0 false, dataGrant 2 2 false, nackFeedback] := by
  refine ⟨fun h => ?_, fun h => ?_, fun h => ?_⟩
  · obtain ⟨-, h, -⟩ := h
    obtain ⟨t, ht, hsound⟩ := h (by decide)
    cases ht
    exact absurd hsound.tbs (by decide)
  · obtain ⟨-, -, -, -, -, h, -⟩ := h
    obtain ⟨t, ht, hsound⟩ := h (by decide)
    cases ht
    exact absurd hsound.count (by decide)
  · obtain ⟨-, -, h, -⟩ := h
    obtain ⟨t, ht, hsound⟩ := h (by decide)
    cases ht
    exact absurd hsound.rv (by decide)

end UlHarqRun

end SrsLte
