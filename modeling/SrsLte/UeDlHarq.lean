import Mathlib.Algebra.Order.Ring.Nat
import Mathlib.Data.Int.Notation
import Mathlib.Data.List.Induction
import Mathlib.Tactic.Common

/-!
# Downlink HARQ of the UE

`dl_tb_process` handles the grants of one transport block of a HARQ process. Between a grant and
`tb_decoded` the PHY decodes, and gives `true` for a block that was not enabled. The soft buffer
and the demux are seen by what is called on them. A grant without data for the transport block
does not reach its process.
-/

namespace SrsLte

/-- The part of `mac_grant_dl_t` that concerns one transport block. -/
structure DlTbGrant where
  rnti : ℕ
  pid : ℕ
  ndi : Bool
  ndiPresent : Bool
  tbs : ℕ
  rv : ℤ
  deriving DecidableEq

inductive DemuxCall
  | deallocate
  | pushPdu (nofBytes : ℕ)
  | pushPduTempCrnti (nofBytes : ℕ)
  | pushPduBcch (nofBytes : ℕ)
  deriving DecidableEq

/-- The part of `tb_action_dl_t` that concerns one transport block, zero at first. -/
structure DlTbAction where
  enabled : Bool
  rv : ℤ
  generateAck : Bool
  deriving DecidableEq

def DlTbAction.zero : DlTbAction := ⟨false, 0, false⟩

structure DlTbProcess where
  isFirstTb : Bool
  isNewTransmission : Bool
  isBcch : Bool
  /-- `payload_buffer_ptr` is not null. -/
  payloadBuffer : Bool
  ack : Bool
  nRetx : ℕ
  curGrant : DlTbGrant
  deriving DecidableEq

/-- What comes with a grant: whether `reset_ndi` was called for it, whether the demux has a buffer,
whether the time alignment timer has expired, the result of the decoder and the temporal C-RNTI. -/
structure DlTbInput where
  resetNdi : Bool
  grant : DlTbGrant
  siWindowStart : ℤ
  buffer : Bool
  timerExpired : Bool
  crc : Bool
  tempRnti : ℕ
  deriving DecidableEq

def DemuxCall.pushed? : DemuxCall → Option ℕ
  | pushPdu nofBytes | pushPduTempCrnti nofBytes | pushPduBcch nofBytes => some nofBytes
  | deallocate => none

/-- What a process did for a grant; `softbufferReset` is the size for which the soft buffer was
cleared, and `macAck` what the PHY reports to `tb_decoded` and on the PUCCH. -/
structure DlTbResult where
  softbufferReset : Option ℕ
  action : DlTbAction
  macAck : Bool
  calls : List DemuxCall
  deriving DecidableEq

namespace DlTbProcess

def resetDuplicateTimeout : ℕ := 6

def zeroGrant : DlTbGrant := ⟨0, 0, false, false, 0, 0⟩

/-- The process after `init`. -/
def init (isBcch : Bool) : DlTbProcess := ⟨true, false, isBcch, false, false, 0, zeroGrant⟩

/-- `reset`, without the soft buffer. -/
def reset (p : DlTbProcess) : DlTbProcess × List DemuxCall :=
  ({ p with
      isFirstTb := true, ack := false, nRetx := 0, curGrant := zeroGrant, payloadBuffer := false },
    if p.payloadBuffer ∧ ¬p.isBcch then [.deallocate] else [])

def resetNdi (p : DlTbProcess) : DlTbProcess := { p with isFirstTb := true }

/-- "Compute RV for BCCH when not specified in PDCCH format". -/
def bcchRv (grant : DlTbGrant) (siWindowStart : ℤ) : ℤ :=
  let k : ℤ :=
    -- this is SIB1, k is different
    if grant.pid / 10 % 2 = 0 ∧ grant.pid % 10 = 5 then ((grant.pid / 20 % 4 : ℕ) : ℤ)
    else (grant.pid - siWindowStart) % 2 ^ 32 % 4
  (3 * k + 1) / 2 % 4

def calcIsNewTransmission (p : DlTbProcess) (grant : DlTbGrant) : DlTbProcess :=
  if (grant.ndiPresent ∧ grant.ndi ≠ p.curGrant.ndi) ∨ (p.isBcch ∧ grant.rv = 0) ∨ p.isFirstTb then
    { p with isFirstTb := false, isNewTransmission := true }
  else { p with isNewTransmission := false }

/-- "If this is a new transmission or the size of the TB has changed": the process and the size for
which the soft buffer is cleared. -/
def clearBlock (p : DlTbProcess) (grant : DlTbGrant) : DlTbProcess × Option ℕ :=
  if p.isNewTransmission ∨ p.curGrant.tbs ≠ grant.tbs then
    ({ p with ack := false, nRetx := 0 }, some (grant.tbs * 8))
  else (p, none)

/-- "If data has not yet been successfully decoded". Without a buffer the function returns before
it sets `generate_ack`. -/
def takeGrant (p : DlTbProcess) (grant : DlTbGrant) (buffer timerExpired : Bool) :
    DlTbProcess × DlTbAction × List DemuxCall :=
  ({ p with curGrant := grant, payloadBuffer := buffer },
    if buffer then ⟨true, grant.rv, !(p.isBcch || timerExpired)⟩ else .zero,
    if p.payloadBuffer ∧ ¬p.isBcch then [.deallocate] else [])

/-- "Received duplicate TB. Discarding and retransmitting ACK". -/
def discardGrant (p : DlTbProcess) (timerExpired : Bool) :
    DlTbProcess × DlTbAction × List DemuxCall :=
  let generateAck := !(p.isBcch || timerExpired)
  if p.nRetx > resetDuplicateTimeout then (p.reset.1, ⟨false, 0, generateAck⟩, p.reset.2)
  else (p, ⟨false, 0, generateAck⟩, [])

/-- `new_grant_dl`: the process, the size for which the soft buffer is cleared, the action, and the
calls on the demux. -/
def newGrantDl (p : DlTbProcess) (e : DlTbInput) :
    DlTbProcess × Option ℕ × DlTbAction × List DemuxCall :=
  let grant :=
    if p.isBcch ∧ e.grant.rv = -1 then { e.grant with rv := bcchRv e.grant e.siWindowStart }
    else e.grant
  let (p, softbufferReset) := (p.calcIsNewTransmission grant).clearBlock grant
  let p := { p with nRetx := p.nRetx + 1 }
  let (p, action, calls) :=
    if ¬p.ack then p.takeGrant grant e.buffer e.timerExpired else p.discardGrant e.timerExpired
  (p, softbufferReset, action, calls)

/-- `tb_decoded`, on the temporal C-RNTI of that time. -/
def tbDecoded (p : DlTbProcess) (ack : Bool) (tempRnti : ℕ) : DlTbProcess × List DemuxCall :=
  let (p, calls) : DlTbProcess × List DemuxCall :=
    if p.payloadBuffer then
      ({ p with ack := ack, payloadBuffer := false },
        if ack then
          if p.isBcch then [.pushPduBcch p.curGrant.tbs]
          else if p.curGrant.rnti = tempRnti then [.pushPduTempCrnti p.curGrant.tbs]
          else [.pushPdu p.curGrant.tbs]
        else if ¬p.isBcch then [.deallocate] else [])
    else (p, [])
  if p.ack ∧ p.isBcch then (p.reset.1, calls ++ p.reset.2) else (p, calls)

/-- A grant, its decoding and `tb_decoded`. -/
def step (p : DlTbProcess) (e : DlTbInput) : DlTbProcess × DlTbResult :=
  let p := if e.resetNdi then p.resetNdi else p
  let (p, softbufferReset, action, calls) := p.newGrantDl e
  let macAck := if action.enabled then e.crc else true
  let (p, calls') := p.tbDecoded macAck e.tempRnti
  (p, ⟨softbufferReset, action, macAck, calls ++ calls'⟩)

def run (p : DlTbProcess) (events : List DlTbInput) : DlTbProcess :=
  events.foldl (fun p e => (p.step e).1) p

end DlTbProcess

namespace DlTbInput

def Received (e : DlTbInput) : Prop := e.buffer = true ∧ e.crc = true

instance (e : DlTbInput) : Decidable e.Received := inferInstanceAs (Decidable (_ ∧ _))

end DlTbInput

/-- The grants so far of the transport block that the last grant belongs to, where
`continues block e` says that the grant `e` belongs to the same block. -/
def currentBlock (continues : List DlTbInput → DlTbInput → Bool) (events : List DlTbInput) :
    List DlTbInput :=
  events.foldl (fun block e => if continues block e then block ++ [e] else [e]) []

/-- The grants before `e` of its transport block. -/
def blockBefore (continues : List DlTbInput → DlTbInput → Bool) (events : List DlTbInput)
    (e : DlTbInput) : List DlTbInput :=
  if continues (currentBlock continues events) e then currentBlock continues events else []

def DlTbResult.delivered (r : DlTbResult) : List ℕ := r.calls.filterMap DemuxCall.pushed?

/-- What is expected at the grant `e` after the grants `block` of the same transport block. -/
structure DeliversOnce (block : List DlTbInput) (e : DlTbInput) (r : DlTbResult) : Prop where
  cleared : r.softbufferReset = if block = [] then some (e.grant.tbs * 8) else none
  delivered : r.delivered =
    if e.Received ∧ ∀ b ∈ block, ¬b.Received then [e.grant.tbs] else []
  discarded : (∃ b ∈ block, b.Received) → r.action.enabled = false ∧ r.macAck = true ∧
    (e.timerExpired = false → r.action.generateAck = true)

def DeliversBlocksOnce (continues : List DlTbInput → DlTbInput → Bool) (events : List DlTbInput) :
    Prop :=
  ∀ pre e, pre ++ [e] <+: events →
    DeliversOnce (blockBefore continues pre e) e (((DlTbProcess.init false).run pre).step e).2

def sameNdiTbs (block : List DlTbInput) (e : DlTbInput) : Bool :=
  block.getLast?.any fun b => b.grant.ndi = e.grant.ndi ∧ b.grant.tbs = e.grant.tbs

/-- The grant of a block whose NDI and TBS count: the one that was decoded, or the last one. -/
def usedGrant (block : List DlTbInput) : Option DlTbInput :=
  (block.find? fun b => b.Received).or block.getLast?

/-- The last of more than six grants is a duplicate, after which the process starts anew. -/
def Exhausted (block : List DlTbInput) : Prop :=
  DlTbProcess.resetDuplicateTimeout < block.length ∧ ∃ b ∈ block.dropLast, b.Received

instance (block : List DlTbInput) : Decidable (Exhausted block) :=
  inferInstanceAs (Decidable (_ ∧ _))

/-- No other NDI is provided, the TBS is the same, and neither `reset_ndi` nor the count of
duplicates has ended the block. -/
def continuesBlock (block : List DlTbInput) (e : DlTbInput) : Bool :=
  !e.resetNdi && decide (¬Exhausted block) && (usedGrant block).any fun b =>
    ¬(e.grant.ndiPresent ∧ e.grant.ndi ≠ b.grant.ndi) ∧ e.grant.tbs = b.grant.tbs

namespace DlTbProcess

structure After (block : List DlTbInput) (p : DlTbProcess) : Prop where
  isBcch : p.isBcch = false
  payloadBuffer : p.payloadBuffer = false
  exhausted : block = [] ∨ Exhausted block → p.isFirstTb = true ∧ p.ack = false
  running : ∀ b, usedGrant block = some b → ¬Exhausted block →
    p.isFirstTb = false ∧ p.curGrant = b.grant ∧ p.nRetx = block.length ∧
      (p.ack = true ↔ ∃ b ∈ block, b.Received)

theorem after_init : After [] (init false) where
  isBcch := rfl
  payloadBuffer := rfl
  exhausted := fun _ => ⟨rfl, rfl⟩
  running := fun _ h => by cases h

/-- The process takes the grant for the first of a transport block, and clears the soft buffer. -/
def Fresh (p : DlTbProcess) (e : DlTbInput) : Prop :=
  (e.grant.ndiPresent = true ∧ e.grant.ndi ≠ p.curGrant.ndi) ∨
    (p.isFirstTb = true ∨ e.resetNdi = true) ∨ p.curGrant.tbs ≠ e.grant.tbs

instance (p : DlTbProcess) (e : DlTbInput) : Decidable (Fresh p e) :=
  inferInstanceAs (Decidable (_ ∨ _ ∨ _))

variable {p : DlTbProcess} {e : DlTbInput}

/-- The process that `new_grant_dl` is called on. -/
def called (p : DlTbProcess) (e : DlTbInput) : DlTbProcess := if e.resetNdi then p.resetNdi else p

/-- The process behind the first half of `new_grant_dl`. -/
structure Opened (p : DlTbProcess) (e : DlTbInput) (q : DlTbProcess) : Prop where
  isFirstTb : q.isFirstTb = false
  isBcch : q.isBcch = false
  payloadBuffer : q.payloadBuffer = p.payloadBuffer
  ack : q.ack = if Fresh p e then false else p.ack
  nRetx : q.nRetx = if Fresh p e then 0 else p.nRetx
  curGrant : q.curGrant = p.curGrant

theorem calcIsNewTransmission_called (hbcch : p.isBcch = false) :
    (p.called e).calcIsNewTransmission e.grant =
      { p with
        isFirstTb := false
        isNewTransmission := decide ((e.grant.ndiPresent = true ∧ e.grant.ndi ≠ p.curGrant.ndi) ∨
          (p.isFirstTb = true ∨ e.resetNdi = true)) } := by
  obtain ⟨first, new, bcch, payload, ack, n, cur⟩ := p
  dsimp only at hbcch
  subst hbcch
  unfold calcIsNewTransmission called resetNdi
  cases e.resetNdi <;> cases first <;> simp
  split_ifs with hndi
  · simp [hndi]
  · simpa using hndi

theorem opened_clearBlock (hbcch : p.isBcch = false) :
    ∃ q, ((p.called e).calcIsNewTransmission e.grant).clearBlock e.grant =
      (q, if Fresh p e then some (e.grant.tbs * 8) else none) ∧ Opened p e q := by
  rw [calcIsNewTransmission_called hbcch, clearBlock]
  by_cases hfresh : Fresh p e
  · have hcond := hfresh
    rw [Fresh, ← or_assoc] at hcond
    rw [if_pos (by simpa using hcond)]
    exact ⟨_, Prod.ext rfl (if_pos hfresh).symm,
      rfl, hbcch, rfl, (if_pos hfresh).symm, (if_pos hfresh).symm, rfl⟩
  · have hcond := hfresh
    rw [Fresh, ← or_assoc] at hcond
    rw [if_neg (by simpa using hcond)]
    exact ⟨_, Prod.ext rfl (if_neg hfresh).symm,
      rfl, hbcch, rfl, (if_neg hfresh).symm, (if_neg hfresh).symm, rfl⟩

structure Taken (e : DlTbInput) (nRetx : ℕ) (q : DlTbProcess) : Prop where
  isFirstTb : q.isFirstTb = false
  isBcch : q.isBcch = false
  payloadBuffer : q.payloadBuffer = false
  ack : q.ack = true ↔ e.Received
  nRetx : q.nRetx = nRetx
  curGrant : q.curGrant = e.grant

theorem tbDecoded_taken (hbcch : p.isBcch = false) (hack : p.ack = false) (crc : Bool)
    (tempRnti : ℕ) :
    (p.tbDecoded (if p.payloadBuffer then crc else true) tempRnti).1 =
        { p with ack := p.payloadBuffer && crc, payloadBuffer := false } ∧
      ((p.tbDecoded (if p.payloadBuffer then crc else true) tempRnti).2.filterMap
          DemuxCall.pushed?) =
        if p.payloadBuffer = true ∧ crc = true then [p.curGrant.tbs] else [] := by
  obtain ⟨first, new, bcch, payload, ack, n, cur⟩ := p
  dsimp only at hbcch hack
  subst hbcch hack
  unfold tbDecoded
  cases payload <;> cases crc <;> simp
  · rfl
  · split_ifs <;> rfl

theorem newGrantDl_called (hbcch : p.isBcch = false) {q q' : DlTbProcess} {cleared : Option ℕ}
    (hclear : ((p.called e).calcIsNewTransmission e.grant).clearBlock e.grant = (q, cleared))
    (hcount : q' = { q with nRetx := q.nRetx + 1 }) {r : DlTbProcess} {action : DlTbAction}
    {calls : List DemuxCall}
    (htail : (if ¬q'.ack then q'.takeGrant e.grant e.buffer e.timerExpired
      else q'.discardGrant e.timerExpired) = (r, action, calls)) :
    (p.called e).newGrantDl e = (r, cleared, action, calls) := by
  have hb : (p.called e).isBcch = false := by
    unfold called resetNdi
    split_ifs <;> exact hbcch
  unfold newGrantDl
  rw [hb, if_neg fun h => absurd h.1 Bool.false_ne_true]
  subst hcount
  simp only [hclear]
  rw [htail]

theorem step_eq {q : DlTbProcess} {cleared : Option ℕ} {action : DlTbAction}
    {calls : List DemuxCall} (hgrant : (p.called e).newGrantDl e = (q, cleared, action, calls)) :
    p.step e = ((q.tbDecoded (if action.enabled then e.crc else true) e.tempRnti).1,
      ⟨cleared, action, if action.enabled then e.crc else true,
        calls ++ (q.tbDecoded (if action.enabled then e.crc else true) e.tempRnti).2⟩) := by
  have hcalled : (if e.resetNdi = true then p.resetNdi else p) = p.called e := rfl
  simp only [step, hcalled, hgrant]

theorem step_taken (hbcch : p.isBcch = false) (hpayload : p.payloadBuffer = false)
    (htake : Fresh p e ∨ p.ack = false) :
    Taken e ((if Fresh p e then 0 else p.nRetx) + 1) (p.step e).1 ∧
      (p.step e).2.softbufferReset = (if Fresh p e then some (e.grant.tbs * 8) else none) ∧
      (p.step e).2.delivered = if e.Received then [e.grant.tbs] else [] := by
  obtain ⟨q, hclear, hopen⟩ := opened_clearBlock (p := p) (e := e) hbcch
  have hack : q.ack = false := by
    rw [hopen.ack]
    split_ifs with hfresh
    · rfl
    · exact htake.resolve_left hfresh
  have hgrant := newGrantDl_called hbcch hclear rfl
    (if_pos (by dsimp only; rw [hack]; exact Bool.false_ne_true))
  obtain ⟨hafter, hpushed⟩ := tbDecoded_taken (p := { q with
    nRetx := q.nRetx + 1, curGrant := e.grant, payloadBuffer := e.buffer }) hopen.isBcch hack e.crc
    e.tempRnti
  have henabled : (if e.buffer = true then (⟨true, e.grant.rv, !(q.isBcch || e.timerExpired)⟩ :
      DlTbAction) else .zero).enabled = e.buffer := by
    cases e.buffer <;> rfl
  have hstep := step_eq hgrant
  dsimp only at hafter hpushed hstep
  rw [henabled] at hstep
  rw [hstep]
  refine ⟨?_, rfl, ?_⟩
  · dsimp only
    rw [hafter]
    refine ⟨hopen.isFirstTb, hopen.isBcch, rfl, Bool.and_eq_true_iff, ?_, rfl⟩
    dsimp only
    rw [hopen.nRetx]
  · rw [DlTbResult.delivered]
    dsimp only
    rw [List.filterMap_append, hpushed, hopen.payloadBuffer, hpayload, if_neg (by simp)]
    rfl

theorem step_discarded (hbcch : p.isBcch = false) (hpayload : p.payloadBuffer = false)
    (hold : ¬Fresh p e) (hack : p.ack = true) :
    (p.step e).1.isBcch = false ∧ (p.step e).1.payloadBuffer = false ∧
      (if p.nRetx + 1 > resetDuplicateTimeout then
          (p.step e).1.isFirstTb = true ∧ (p.step e).1.ack = false
        else (p.step e).1.isFirstTb = false ∧ (p.step e).1.ack = true ∧
          (p.step e).1.nRetx = p.nRetx + 1 ∧ (p.step e).1.curGrant = p.curGrant) ∧
      (p.step e).2 = ⟨none, ⟨false, 0, !e.timerExpired⟩, true, []⟩ := by
  obtain ⟨q, hclear, hopen⟩ := opened_clearBlock (p := p) (e := e) hbcch
  obtain ⟨q', hcount⟩ : ∃ q', q' = { q with nRetx := q.nRetx + 1 } := ⟨_, rfl⟩
  have hack' : q'.ack = true := by
    rw [hcount, hopen.ack, if_neg hold, hack]
  have hn : q'.nRetx = p.nRetx + 1 := by
    rw [hcount, hopen.nRetx, if_neg hold]
  have hpayload' : q'.payloadBuffer = false := by
    rw [hcount]
    exact hopen.payloadBuffer.trans hpayload
  have hbcch' : q'.isBcch = false := by
    rw [hcount]
    exact hopen.isBcch
  have htb : ∀ r : DlTbProcess, r.isBcch = false → r.payloadBuffer = false →
      r.tbDecoded true e.tempRnti = (r, []) := by
    intro r hrbcch hrpayload
    unfold tbDecoded
    simp [hrbcch, hrpayload]
  have hdiscard : (if ¬q'.ack then q'.takeGrant e.grant e.buffer e.timerExpired
      else q'.discardGrant e.timerExpired) = q'.discardGrant e.timerExpired :=
    if_neg (by simp [hack'])
  rw [if_neg hold] at hclear
  by_cases hlast : p.nRetx + 1 > resetDuplicateTimeout
  · have hcalls : q'.reset.2 = [] := if_neg (by simp [hpayload'])
    have hstep := step_eq (newGrantDl_called hbcch hclear hcount
      (hdiscard.trans (if_pos (by rw [hn]; exact hlast))))
    rw [hcalls] at hstep
    dsimp only at hstep
    rw [if_neg Bool.false_ne_true, htb q'.reset.1 hbcch' rfl] at hstep
    rw [hstep, if_pos hlast]
    exact ⟨hbcch', rfl, ⟨rfl, rfl⟩, by simp [hbcch']⟩
  · have hstep := step_eq (newGrantDl_called hbcch hclear hcount
      (hdiscard.trans (if_neg (by rw [hn]; exact hlast))))
    dsimp only at hstep
    rw [if_neg Bool.false_ne_true, htb q' hbcch' hpayload'] at hstep
    rw [hstep, if_neg hlast]
    refine ⟨hbcch', hpayload', ⟨?_, hack', hn, ?_⟩, by simp [hbcch']⟩
    · rw [hcount]
      exact hopen.isFirstTb
    · rw [hcount]
      exact hopen.curGrant

variable {block : List DlTbInput}

theorem usedGrant_isSome (hne : block ≠ []) :
    ∃ b, usedGrant block = some b := by
  unfold usedGrant
  cases block.find? fun b => decide b.Received with
  | some b => exact ⟨b, rfl⟩
  | none => exact ⟨_, List.getLast?_eq_some_getLast hne⟩

theorem After.fresh_iff (hafter : After block p) :
    Fresh p e ↔ continuesBlock block e = false := by
  unfold Fresh continuesBlock
  by_cases hend : block = [] ∨ Exhausted block
  · have hfirst := (hafter.exhausted hend).1
    rcases hend with rfl | hex
    · simp [hfirst, usedGrant]
    · simp [hfirst, hex]
  · rw [not_or] at hend
    obtain ⟨b, hb⟩ := usedGrant_isSome hend.1
    obtain ⟨hfirst, hcur, -, -⟩ := hafter.running b hb hend.2
    rw [hb, hfirst, hcur]
    cases e.resetNdi
    · simp only [Bool.not_false, Bool.true_and, decide_eq_true hend.2, Option.any_some,
        Bool.false_eq_true, false_or, or_false, decide_eq_false_iff_not, not_and_or, not_not,
        @eq_comm ℕ e.grant.tbs]
      rw [not_or, not_not]
    · simp

theorem usedGrant_append_received (hrec : ∃ b ∈ block, b.Received) :
    usedGrant (block ++ [e]) = usedGrant block := by
  obtain ⟨b, hb, hbrec⟩ := hrec
  have hfind : (block.find? fun b => decide b.Received).isSome := by
    rw [List.find?_isSome]
    exact ⟨b, hb, decide_eq_true hbrec⟩
  obtain ⟨c, hc⟩ := Option.isSome_iff_exists.1 hfind
  simp [usedGrant, List.find?_append, hc]

theorem usedGrant_append_notReceived
    (hrec : ∀ b ∈ block, ¬b.Received) : usedGrant (block ++ [e]) = some e := by
  have hfind : (block.find? fun b => decide b.Received) = none := by
    rw [List.find?_eq_none]
    simpa using hrec
  unfold usedGrant
  rw [List.find?_append, hfind, List.getLast?_concat, Option.none_or]
  by_cases he : e.Received
  · rw [List.find?_cons_of_pos (by simpa using he)]
    rfl
  · rw [List.find?_cons_of_neg (by simpa using he)]
    rfl

theorem exhausted_append :
    Exhausted (block ++ [e]) ↔
      resetDuplicateTimeout < block.length + 1 ∧ ∃ b ∈ block, b.Received := by
  rw [Exhausted, List.dropLast_concat, List.length_append, List.length_singleton]

theorem Taken.after (htaken : Taken e (block.length + 1) p)
    (hrec : ∀ b ∈ block, ¬b.Received) : After (block ++ [e]) p where
  isBcch := htaken.isBcch
  payloadBuffer := htaken.payloadBuffer
  exhausted := by
    rintro (h | h)
    · simp at h
    · obtain ⟨b, hb, hbrec⟩ := (exhausted_append.1 h).2
      exact absurd hbrec (hrec b hb)
  running := by
    intro b hb _
    rw [usedGrant_append_notReceived hrec] at hb
    cases hb
    refine ⟨htaken.isFirstTb, htaken.curGrant, by simpa using htaken.nRetx, htaken.ack.trans ?_⟩
    simp only [List.mem_append, List.mem_singleton]
    refine ⟨fun h => ⟨e, Or.inr rfl, h⟩, ?_⟩
    rintro ⟨b, hb | rfl, hbrec⟩
    · exact absurd hbrec (hrec b hb)
    · exact hbrec

theorem deliversOnce_of_taken {r : DlTbResult} (hrec : ∀ b ∈ block, ¬b.Received)
    (hreset : r.softbufferReset = if block = [] then some (e.grant.tbs * 8) else none)
    (hpushed : r.delivered = if e.Received then [e.grant.tbs] else []) :
    DeliversOnce block e r where
  cleared := hreset
  delivered := by
    rw [hpushed]
    exact if_congr (and_iff_left hrec).symm rfl rfl
  discarded := fun ⟨b, hb, hbrec⟩ => absurd hbrec (hrec b hb)

theorem After.step_first (hafter : After block p) (hcont : continuesBlock block e = false) :
    DeliversOnce [] e (p.step e).2 ∧ After [e] (p.step e).1 := by
  have hfresh : Fresh p e := hafter.fresh_iff.2 hcont
  obtain ⟨htaken, hreset, hpushed⟩ := step_taken hafter.isBcch hafter.payloadBuffer (Or.inl hfresh)
  rw [if_pos hfresh] at htaken hreset
  have hrec : ∀ b ∈ ([] : List DlTbInput), ¬b.Received := fun _ h => by cases h
  exact ⟨deliversOnce_of_taken hrec hreset hpushed, Taken.after htaken hrec⟩

theorem After.step_continued (hafter : After block p) (hcont : continuesBlock block e = true) :
    DeliversOnce block e (p.step e).2 ∧ After (block ++ [e]) (p.step e).1 := by
  have hold : ¬Fresh p e := by
    rw [hafter.fresh_iff, hcont]
    exact Bool.noConfusion
  have hne : block ≠ [] := by
    rintro rfl
    simp [continuesBlock, usedGrant] at hcont
  have hrun : ¬Exhausted block := by
    intro h
    simp [continuesBlock, h] at hcont
  obtain ⟨b, hb⟩ := usedGrant_isSome hne
  obtain ⟨hfirst, hcur, hn, hack⟩ := hafter.running b hb hrun
  by_cases hrec : ∃ b ∈ block, b.Received
  · -- a duplicate
    obtain ⟨hbcch, hpayload, hstate, hres⟩ :=
      step_discarded hafter.isBcch hafter.payloadBuffer hold (hack.2 hrec)
    rw [hn] at hstate
    have hex : Exhausted (block ++ [e]) ↔ block.length + 1 > resetDuplicateTimeout :=
      exhausted_append.trans (and_iff_left hrec)
    refine ⟨⟨?_, ?_, ?_⟩, ⟨hbcch, hpayload, ?_, ?_⟩⟩
    · rw [hres, if_neg hne]
    · rw [hres, if_neg]
      · rfl
      · rintro ⟨-, hnot⟩
        obtain ⟨c, hc, hcrec⟩ := hrec
        exact hnot c hc hcrec
    · intro _
      rw [hres]
      exact ⟨rfl, rfl, fun h => by rw [h]; rfl⟩
    · rintro (h | h)
      · simp at h
      · rwa [if_pos (hex.1 h)] at hstate
    · intro c hc hnot
      rw [if_neg (mt hex.2 hnot)] at hstate
      obtain ⟨hfirst', hack', hn', hcur'⟩ := hstate
      rw [usedGrant_append_received hrec, hb] at hc
      cases hc
      refine ⟨hfirst', hcur'.trans hcur, by simpa using hn', ?_⟩
      obtain ⟨c, hc, hcrec⟩ := hrec
      exact iff_of_true hack' ⟨c, List.mem_append_left _ hc, hcrec⟩
  · -- nothing of the block was decoded
    have hack' : p.ack = false := Bool.eq_false_iff.2 (mt hack.1 hrec)
    push Not at hrec
    obtain ⟨htaken, hreset, hpushed⟩ :=
      step_taken hafter.isBcch hafter.payloadBuffer (Or.inr hack')
    rw [if_neg hold, hn] at htaken
    rw [if_neg hold] at hreset
    exact ⟨deliversOnce_of_taken hrec (by rw [hreset, if_neg hne]) hpushed, htaken.after hrec⟩

theorem After.step (hafter : After block p) (e : DlTbInput) :
    DeliversOnce (if continuesBlock block e then block else []) e (p.step e).2 ∧
      After (if continuesBlock block e then block ++ [e] else [e]) (p.step e).1 := by
  cases hcont : continuesBlock block e with
  | true => exact hafter.step_continued hcont
  | false => exact hafter.step_first hcont

theorem after_run (events : List DlTbInput) :
    After (currentBlock continuesBlock events) ((init false).run events) := by
  induction events using List.reverseRecOn with
  | nil => exact after_init
  | append_singleton events e ih =>
    simp only [currentBlock, run, List.foldl_append, List.foldl_cons, List.foldl_nil]
    exact (ih.step e).2

/-- A process passes each transport block to the demux once, for any run of grants. -/
theorem transport_blocks_delivered_once (events : List DlTbInput) :
    DeliversBlocksOnce continuesBlock events := by
  intro pre e _
  exact ((after_run pre).step e).1

def sameGrant (ndi ndiPresent resetNdi : Bool) : DlTbInput :=
  ⟨resetNdi, ⟨70, 0, ndi, ndiPresent, 100, 0⟩, 0, true, false, true, 0⟩

/-- The eighth of equal grants, a grant without its NDI, and one behind `reset_ndi`. -/
theorem same_ndi_delivered_again :
    ¬DeliversBlocksOnce sameNdiTbs (List.replicate 8 (sameGrant true true false)) ∧
      ¬DeliversBlocksOnce sameNdiTbs [sameGrant true true false, sameGrant false false false] ∧
      ¬DeliversBlocksOnce sameNdiTbs [sameGrant true true false, sameGrant true true true] := by
  refine ⟨fun h => ?_, fun h => ?_, fun h => ?_⟩
  · have h := (h (List.replicate 7 _) _ (List.prefix_rfl)).delivered
    revert h
    decide
  · have h := (h [_] _ (List.prefix_rfl)).delivered
    revert h
    decide
  · have h := (h [_] _ (List.prefix_rfl)).delivered
    revert h
    decide

end DlTbProcess

end SrsLte
