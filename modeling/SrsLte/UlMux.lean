import Mathlib.Algebra.Module.NatInt
import Mathlib.Algebra.Order.BigOperators.Group.List
import Mathlib.Data.Fintype.Basic
import Mathlib.Data.List.Sort
import SrsLte.EventRun
import SrsLte.MacPduAgreement
import SrsLte.OrderedMap

/-!
# Multiplexing of the UE

`mux::pdu_get` with the buffer-status and power-headroom procedures it asks. The RLC is a
parameter. Timers expire at any time; the scheduling-request flags of `bsr_proc`, which only
`sr_proc` reads, are left out, and the power headroom is given by its report value.
-/

namespace SrsLte

/-- `rlc_interface_mac`: `none` stands for a negative result of `read_pdu`, which never gives more
than the bytes asked for. -/
structure RlcMac (ρ : Type*) where
  getBufferState : ρ → ℕ → ℕ
  readPdu : ρ → ℕ → ℕ → Option Bytes × ρ
  readPdu_le : ∀ r lcid nofBytes data, (readPdu r lcid nofBytes).1 = some data →
    data.length ≤ nofBytes

inductive TriggeredBsr
  | none
  | regular
  | padding
  | periodic
  deriving DecidableEq

/-- `lcid_t` of `bsr_proc`. -/
structure BsrLcid where
  priority : ℕ
  oldBuffer : ℕ
  newBuffer : ℕ

structure BsrProc where
  lcgs : Fin 4 → OrderedMap ℕ BsrLcid
  triggeredBsrType : TriggeredBsr

/-- `bsr_t`. -/
structure Bsr where
  format : BsrFormat
  buffSize : Fin 4 → ℕ

namespace BsrProc

variable {ρ : Type*}

def lcids (b : BsrProc) : List BsrLcid :=
  (List.finRange 4).flatMap fun lcg => (b.lcgs lcg).entries.map Prod.snd

def setTrigger (b : BsrProc) (trigger : TriggeredBsr) : BsrProc :=
  { b with triggeredBsrType := trigger }

def reset (b : BsrProc) : BsrProc := b.setTrigger .none

def getBufferStateLcg (b : BsrProc) (lcg : Fin 4) : ℕ :=
  ((b.lcgs lcg).entries.map fun e => e.2.oldBuffer).sum

def checkAnyChannel (b : BsrProc) : Bool :=
  (List.finRange 4).any fun lcg => b.getBufferStateLcg lcg ≠ 0

def checkHighestChannel (b : BsrProc) : Bool :=
  b.lcids.any fun c => c.newBuffer > c.oldBuffer ∧
    !b.lcids.any fun d => d.priority > c.priority ∧ d.oldBuffer ≠ 0

def checkNewData (b : BsrProc) : Bool :=
  (List.finRange 4).any fun lcg => b.getBufferStateLcg lcg = 0 ∧
    (b.lcgs lcg).entries.any fun e => e.2.newBuffer > 0

def updateNewData (rlc : RlcMac ρ) (r : ρ) (b : BsrProc) : BsrProc :=
  { b with lcgs := fun lcg => (b.lcgs lcg).mapValues fun lcid c =>
      { c with newBuffer := rlc.getBufferState r lcid } }

def updateBufferState (b : BsrProc) : BsrProc :=
  { b with lcgs := fun lcg => (b.lcgs lcg).mapValues fun _ c =>
      { c with oldBuffer := c.newBuffer } }

/-- `timer_expired` of the periodic timer. -/
def timerPeriodicExpired (b : BsrProc) : BsrProc :=
  if b.triggeredBsrType = .none then b.setTrigger .periodic else b

/-- `timer_expired` of the retransmission timer. -/
def timerRetxExpired (b : BsrProc) : BsrProc :=
  if b.checkAnyChannel then b.setTrigger .regular else b

def step (rlc : RlcMac ρ) (r : ρ) (b : BsrProc) : BsrProc :=
  let b := b.updateNewData rlc r
  let b := if b.checkNewData ∨ b.checkHighestChannel then b.setTrigger .regular else b
  b.updateBufferState

/-- The loop of `find_max_priority_lcg_with_data`: the lowest priority value so far and its
group. -/
def maxPriority : List (Fin 4 × BsrLcid) → ℕ × Fin 4 → ℕ × Fin 4
  | [], best => best
  | (lcg, c) :: rest, best =>
    maxPriority rest (if c.priority < best.1 ∧ c.oldBuffer > 0 then (c.priority, lcg) else best)

def findMaxPriorityLcgWithData (b : BsrProc) : Fin 4 :=
  (maxPriority ((List.finRange 4).flatMap fun lcg => (b.lcgs lcg).entries.map fun e => (lcg, e.2))
    (99, 0)).2

def generateBsr (b : BsrProc) (nofPaddingBytes : ℕ) : Bsr :=
  let buffSize := b.getBufferStateLcg
  let nofLcg := ((List.finRange 4).filter fun lcg => buffSize lcg > 0).length
  if b.triggeredBsrType = .padding then
    if nofPaddingBytes < 4 then
      if nofLcg > 1 then
        ⟨.truncBsr, fun lcg => if b.findMaxPriorityLcgWithData ≠ lcg then 0 else buffSize lcg⟩
      else ⟨.shortBsr, buffSize⟩
    else ⟨.longBsr, buffSize⟩
  else ⟨if nofLcg > 1 then .longBsr else .shortBsr, buffSize⟩

def bsrSz (bsr : Bsr) : ℕ := if bsr.format = .longBsr then 3 else 1

/-- `total_data`: "last SDU has no size header". -/
def totalData (b : BsrProc) : ℤ :=
  (b.lcids.map fun c => (sizeHeaderSdu c.oldBuffer + c.oldBuffer : ℤ)).sum - 1

def Triggered (b : BsrProc) : Prop :=
  b.triggeredBsrType = .periodic ∨ b.triggeredBsrType = .regular

instance (b : BsrProc) : Decidable b.Triggered := inferInstanceAs (Decidable (_ ∨ _))

def needToSendBsrOnUlGrant (b : BsrProc) (grantSize : ℕ) : Option Bsr × BsrProc :=
  let bsr := b.generateBsr 0
  if b.Triggered ∧ bsrSz bsr ≤ grantSize then (some bsr, b.setTrigger .none)
  else (none, if b.totalData < grantSize then b.setTrigger .none else b)

def generatePaddingBsr (b : BsrProc) (nofPaddingBytes : ℕ) : Option Bsr × BsrProc :=
  if nofPaddingBytes ≥ 2 then
    (some ((b.setTrigger .padding).generateBsr nofPaddingBytes), b.setTrigger .none)
  else (none, b)

def setupLcid (b : BsrProc) (lcid newLcg priority : ℕ) : BsrProc :=
  if h : newLcg < 4 then
    { b with lcgs := fun lcg =>
        if lcg = ⟨newLcg, h⟩ then ((b.lcgs lcg).erase lcid).insert lcid ⟨priority, 0, 0⟩
        else (b.lcgs lcg).erase lcid }
  else b

end BsrProc

/-- `logical_channel_config_t`. The LCIDs of logical channels lie below those of the CEs. -/
structure LogicalChannel where
  lcid : ℕ
  lcg : ℕ
  bj : ℤ
  pbr : ℤ
  bucketSize : ℕ
  priority : ℕ
  schedLen : ℤ
  bufferLen : ℤ
  isData : lcid < Lcid.phrReport

theorem three_isData : 3 < Lcid.phrReport := by decide

namespace LogicalChannel

def stepBj (ch : LogicalChannel) : LogicalChannel :=
  let bj := if ch.pbr ≥ 0 then ch.bj + ch.pbr else ch.bj
  -- the bucket is compared with the unsigned value, which goes back into an `int32_t`
  { ch with bj := (min (bj % (2 ^ 32 : ℤ)) ch.bucketSize).bmod (2 ^ 32) }

/-- `sched_sdu`, `none` where it returns false. -/
def schedSdu (ch : LogicalChannel) (sduSpace maxSduSz : ℤ) : Option (LogicalChannel × ℤ) :=
  if sduSpace > 0 ∧ ch.bufferLen > 0 then
    let schedLen := ch.bufferLen
    let schedLen := if schedLen > maxSduSz ∧ maxSduSz ≥ 0 then maxSduSz else schedLen
    let schedLen := if schedLen > sduSpace then sduSpace else schedLen
    let header : ℤ := if ch.schedLen = 0 then sizeHeaderSdu schedLen.toNat else 0
    some ({ ch with bufferLen := ch.bufferLen - schedLen, schedLen := ch.schedLen + schedLen },
      sduSpace - schedLen - header)
  else none

/-- "First only those with positive Bj". -/
def schedFirst (ch : LogicalChannel) (sduSpace : ℤ) : LogicalChannel × ℤ :=
  let maxSduSz := if ch.pbr < 0 then -1 else ch.bj
  if maxSduSz ≠ 0 then
    match ch.schedSdu sduSpace maxSduSz with
    | some (ch, space) => ({ ch with bj := ch.bj - ch.schedLen }, space)
    | none => (ch, sduSpace)
  else (ch, sduSpace)

/-- "If resources remain, allocate regardless of their Bj value." -/
def schedSecond (ch : LogicalChannel) (sduSpace : ℤ) : LogicalChannel × ℤ :=
  if ch.lcid ≠ 0 then (ch.schedSdu sduSpace (-1)).getD (ch, sduSpace) else (ch, sduSpace)

def schedRound (sched : LogicalChannel → ℤ → LogicalChannel × ℤ) :
    List LogicalChannel → ℤ → List LogicalChannel × ℤ
  | [], space => ([], space)
  | ch :: chs, space =>
    let (ch, space) := sched ch space
    let (chs, space) := schedRound sched chs space
    (ch :: chs, space)

end LogicalChannel

structure Mux where
  logicalChannels : List LogicalChannel
  pendingCrntiCe : ℕ

namespace Mux

variable {ρ : Type*} (rlc : RlcMac ρ)

def maxNofSubheaders : ℕ := 20

def reset (m : Mux) : Mux where
  logicalChannels := m.logicalChannels.map fun ch => { ch with bj := 0 }
  pendingCrntiCe := 0

def step (m : Mux) : Mux :=
  { m with logicalChannels := m.logicalChannels.map LogicalChannel.stepBj }

def setupLcid (m : Mux) (config : LogicalChannel) : Mux :=
  let channels :=
    if m.logicalChannels.any fun ch => ch.lcid = config.lcid then
      m.logicalChannels.replaceF fun ch => if ch.lcid = config.lcid then some config else none
    else m.logicalChannels ++ [config]
  { m with logicalChannels := channels.insertionSort fun a b => a.priority ≤ b.priority }

/-- `new_subh` and the setter of a CE. Where the setter fails the subheader stays. -/
def addCe (p : SchPdu) (ce : CeSetting) : SchPdu :=
  match p.newSubh with
  | some q => (q.setCe ce).getD q
  | none => p

/-- The loop of `allocate_sdu`, with the information whether an SDU was added. Every round that
adds one takes from `sdu_space`, so this many rounds are enough. -/
def allocateLoop (lcid : ℕ) : ℕ → SchPdu → ρ → ℕ → SchPdu × ρ × Bool
  | 0, p, r, _ => (p, r, false)
  | fuel + 1, p, r, sduSpace =>
    let bufferState := rlc.getBufferState r lcid
    if bufferState > 0 ∧ sduSpace > 0 then
      let requested := min bufferState sduSpace
      match p.newSubh with
      | none => (p, r, false)
      | some q =>
        if q.hasSpaceSdu requested then
          let (reply, r) := rlc.readPdu r lcid requested
          match q.setSduItf lcid requested reply with
          | some p' =>
            let (p'', r, _) := allocateLoop lcid fuel p' r (sduSpace - (reply.getD []).length)
            (p'', r, true)
          | none => (p, r, false)
        else (p, r, false)
    else (p, r, false)

def allocateSdu (lcid : ℕ) (p : SchPdu) (r : ρ) (maxSduSz : ℕ) : SchPdu × ρ × Bool :=
  allocateLoop rlc lcid maxSduSz p r maxSduSz

/-- "MAC control element for C-RNTI or data from UL-CCCH". -/
def ccchOrCRnti (m : Mux) (r : ρ) (pduSz : ℕ) : SchPdu × ρ :=
  let (p, r, sduAdded) :=
    allocateSdu rlc 0 (SchPdu.initTx maxNofSubheaders pduSz true SchPdu.clearedBuffer) r pduSz
  if !sduAdded ∧ m.pendingCrntiCe ≠ 0 then (addCe p (.cRnti m.pendingCrntiCe), r) else (p, r)

def schedule (m : Mux) (r : ρ) (sduSpace : ℕ) : List LogicalChannel :=
  let channels := m.logicalChannels.map fun ch =>
    { ch with schedLen := 0, bufferLen := rlc.getBufferState r ch.lcid }
  let (channels, space) := LogicalChannel.schedRound LogicalChannel.schedFirst channels sduSpace
  (LogicalChannel.schedRound LogicalChannel.schedSecond channels space).1

def allocateAll : List LogicalChannel → SchPdu → ρ → SchPdu × ρ
  | [], p, r => (p, r)
  | ch :: chs, p, r =>
    if ch.schedLen ≠ 0 then
      let (p, r, _) := allocateSdu rlc ch.lcid p r ch.schedLen.toNat
      allocateAll chs p r
    else allocateAll chs p r

end Mux

/-- The procedures of `mac` behind an uplink grant; `phr` is `phr_is_triggered`. -/
structure UlMac where
  mux : Mux
  bsr : BsrProc
  phr : Bool

namespace UlMac

variable {ρ : Type*} (rlc : RlcMac ρ)

/-- `mux::pdu_get`: the PDU if `write_packet` returns one, and the states after the call. -/
def pduGet (s : UlMac) (r : ρ) (pduSz phrValue : ℕ) : Option Bytes × UlMac × ρ :=
  let (p, r) := s.mux.ccchOrCRnti rlc r pduSz
  let (regularBsr, bsr) := s.bsr.needToSendBsrOnUlGrant p.remLen
  let p := match regularBsr with
    | some report => Mux.addCe p (.bsr report.format report.buffSize)
    | none => p
  -- `generate_phr_on_ul_grant` clears the trigger
  let p := if s.phr then Mux.addCe p (.phr phrValue) else p
  let channels := s.mux.schedule rlc r p.getSduSpace
  let (p, r) := Mux.allocateAll rlc channels p r
  let (paddingBsr, bsr) :=
    if regularBsr.isNone then bsr.generatePaddingBsr p.remLen else (none, bsr)
  let p := match paddingBsr with
    | some report => Mux.addCe p (.bsr report.format report.buffSize)
    | none => p
  (p.writePacket, ⟨⟨channels, 0⟩, bsr, false⟩, r)

def setupLcid (s : UlMac) (config : LogicalChannel) : UlMac :=
  { s with
    mux := s.mux.setupLcid config
    bsr := s.bsr.setupLcid config.lcid config.lcg config.priority }

/-- The channels that `mac::reset` sets up. -/
def defaultChannel (lcid : Fin 2) : LogicalChannel where
  lcid := lcid
  lcg := 0
  bj := 0
  pbr := -1
  bucketSize := 0
  priority := lcid
  schedLen := 0
  bufferLen := 0
  isData := lcid.isLt.trans (by decide)

def reset (s : UlMac) : UlMac :=
  (UlMac.setupLcid ⟨s.mux.reset, s.bsr.reset, false⟩ (defaultChannel 0)).setupLcid
    (defaultChannel 1)

def init : UlMac := reset ⟨⟨[], 0⟩, ⟨fun _ => OrderedMap.empty, .none⟩, false⟩

/-- What happens to the procedures, with the state of the RLC at that time. `phrTriggered` stands
for the timers, the pathloss and the configuration that trigger a PHR. -/
inductive Event (ρ : Type*)
  | runTti (r : ρ)
  | reset
  | setupLcid (config : LogicalChannel)
  | timerPeriodicExpired
  | timerRetxExpired
  | phrTriggered
  | appendCrntiCe (crnti : ℕ)
  | pduGet (r : ρ) (pduSz phrValue : ℕ)

def step (s : UlMac) : Event ρ → UlMac
  | .runTti r => { s with mux := s.mux.step, bsr := s.bsr.step rlc r }
  | .reset => s.reset
  | .setupLcid config => s.setupLcid config
  | .timerPeriodicExpired => { s with bsr := s.bsr.timerPeriodicExpired }
  | .timerRetxExpired => { s with bsr := s.bsr.timerRetxExpired }
  | .phrTriggered => { s with phr := true }
  | .appendCrntiCe crnti => { s with mux := { s.mux with pendingCrntiCe := crnti } }
  | .pduGet r pduSz phrValue => (s.pduGet rlc r pduSz phrValue).2.1

end UlMac
end SrsLte

/-!
Every PDU that `pdu_get` builds consists of settings that succeeded, unless the setter of a CE
fails behind its subheader. Such a PDU is returned, and carries all of them.
-/

namespace SrsLte.Mux

open SchPdu SchSetting

variable {ρ : Type*} {rlc : RlcMac ρ} {pduSz : ℕ} {p : SchPdu} {ss : List SchSetting}

/-- The PDU after `init_tx`. -/
def startPdu (pduSz : ℕ) : SchPdu := initTx maxNofSubheaders pduSz true clearedBuffer

/-- The PDU holds the settings `ss`, each of them accounted for. -/
structure Filled (pduSz : ℕ) (ss : List SchSetting) (p : SchPdu) : Prop where
  built : Built (startPdu pduSz) ss 0 p
  valid : ∀ s ∈ ss, s.Valid true

theorem filled_start (pduSz : ℕ) : Filled pduSz [] (startPdu pduSz) where
  built := built_initTx maxNofSubheaders pduSz true rfl
  valid := List.forall_mem_nil _

section

variable (h : Filled pduSz ss p)
include h

theorem Filled.length_subheaders : p.subheaders.length = ss.length := by
  rw [h.built.subheaders, List.length_map]

theorem Filled.newSubh :
    p.newSubh = if ss.length + 1 < maxNofSubheaders ∧ p.remLen > 0 then some (opened p ss)
      else none := by
  have hhead : p.buffer.headroom > 1 := by
    rw [h.built.headroom]
    exact Nat.lt_of_sub_eq_succ rfl
  have hcond : (p.subheaders.length + 1 < p.maxSubheaders ∧ p.remLen > 0 ∧
      p.buffer.headroom > 1) ↔ ss.length + 1 < maxNofSubheaders ∧ p.remLen > 0 := by
    rw [h.length_subheaders, h.built.maxSubheaders]
    exact and_congr_right fun _ => and_iff_left hhead
  by_cases hopen : ss.length + 1 < maxNofSubheaders ∧ p.remLen > 0
  · rw [if_pos hopen]
    have hsome : ∃ q, p.newSubh = some q := by
      unfold SchPdu.newSubh next
      rw [if_pos (hcond.mpr hopen)]
      simp only [h.built.curIdx, h.length_subheaders, List.length_append, List.length_singleton]
      rw [if_pos (Nat.lt_succ_self _)]
      exact ⟨_, rfl⟩
    obtain ⟨q, hq⟩ := hsome
    rw [hq, (h.built.newSubh hq).1]
    rfl
  · rw [if_neg hopen]
    unfold SchPdu.newSubh
    exact if_neg fun hc => hopen (hcond.mp hc)

theorem Filled.addCe (ce : CeSetting)
    (hsize : sizeofCe ce.lcid true = ce.bytes.length) (hfew : ss.length + 1 < maxNofSubheaders)
    (hspace : ce.bytes.length + 1 ≤ p.remLen) :
    Filled pduSz (ss ++ [.ce ce]) (addCe p ce) ∧
      (addCe p ce).remLen = p.remLen - (ce.bytes.length + 1) := by
  have hset : ∃ p', (opened p ss).setCe ce = some p' := by
    have hhas : (opened p ss).hasSpaceCe ce.bytes.length = true := decide_eq_true hspace
    unfold setCe updateSpaceCe
    dsimp only
    rw [if_pos hhas, if_pos hhas]
    exact ⟨_, rfl⟩
  obtain ⟨p', hp'⟩ := hset
  have hadd : Mux.addCe p ce = p' := by
    unfold Mux.addCe
    rw [h.newSubh, if_pos ⟨hfew, by omega⟩]
    change ((opened p ss).setCe ce).getD _ = p'
    rw [hp']
    rfl
  rw [hadd]
  obtain ⟨-, -, hrem, -⟩ := setCe_opened hp'
  refine ⟨⟨(h.built.setCe hfew hp').1, fun s hs => ?_⟩, hrem⟩
  rcases List.mem_append.mp hs with hs | hs
  · exact h.valid s hs
  · rw [List.mem_singleton.mp hs]
    exact hsize

theorem Filled.addCe_of_full (ce : CeSetting)
    (hfull : ¬ (ss.length + 1 < maxNofSubheaders ∧ p.remLen > 0)) : Mux.addCe p ce = p := by
  unfold Mux.addCe
  rw [h.newSubh, if_neg hfull]

theorem Filled.addCe_fits (ce : CeSetting)
    (hsize : sizeofCe ce.lcid true = ce.bytes.length) (hspace : ce.bytes.length + 1 ≤ p.remLen) :
    ∃ more, Filled pduSz (ss ++ more) (Mux.addCe p ce) := by
  by_cases hfew : ss.length + 1 < maxNofSubheaders
  · exact ⟨_, (h.addCe ce hsize hfew hspace).1⟩
  · rw [h.addCe_of_full ce fun hc => hfew hc.1]
    exact ⟨[], by rwa [List.append_nil]⟩

end

theorem sizeofCe_bsr (format : BsrFormat) (sizes : Fin 4 → ℕ) :
    sizeofCe (CeSetting.bsr format sizes).lcid true =
      (CeSetting.bsr format sizes).bytes.length := by
  cases format <;> rfl

theorem length_bytes_bsr (report : Bsr) :
    (CeSetting.bsr report.format report.buffSize).bytes.length = BsrProc.bsrSz report := by
  obtain ⟨format, sizes⟩ := report
  cases format <;> rfl

/-- What the SDUs of a channel leave: each takes a subheader and at least one byte. -/
structure Grown (pduSz : ℕ) (ss : List SchSetting) (p p' : SchPdu) : Prop where
  filled : ∃ more, Filled pduSz (ss ++ more) p' ∧ p'.remLen + 2 * more.length ≤ p.remLen

theorem Grown.refl (h : Filled pduSz ss p) : Grown pduSz ss p p :=
  ⟨[], by rwa [List.append_nil], Nat.le_refl _⟩

theorem Grown.of_append {ss' : List SchSetting} {q p' : SchPdu}
    (h : Grown pduSz (ss ++ ss') q p') (hle : q.remLen + 2 * ss'.length ≤ p.remLen) :
    Grown pduSz ss p p' := by
  obtain ⟨more, hfilled, hrem⟩ := h.filled
  refine ⟨ss' ++ more, by rwa [← List.append_assoc], ?_⟩
  rw [List.length_append]
  omega

theorem Grown.trans {q p' : SchPdu} (h : Grown pduSz ss p q)
    (h' : ∀ ss', Filled pduSz (ss ++ ss') q → Grown pduSz (ss ++ ss') q p') :
    Grown pduSz ss p p' := by
  obtain ⟨more, hfilled, hrem⟩ := h.filled
  exact (h' more hfilled).of_append hrem

theorem Filled.setSduItf (h : Filled pduSz ss p) (hfew : ss.length + 1 < maxNofSubheaders)
    {lcid requested : ℕ} (hlcid : lcid < Lcid.phrReport) {reply : Option Bytes} {p' : SchPdu}
    (hset : (opened p ss).setSduItf lcid requested reply = some p') :
    Filled pduSz (ss ++ [.sduItf lcid requested reply]) p' ∧ p'.remLen + 2 ≤ p.remLen := by
  have hsdu : (SchSetting.sduItf lcid requested reply).isSdu = true := decide_eq_true hlcid
  have hsets := setSduItf_opened h.built hset
  obtain ⟨missed, hbuilt, hzero⟩ := h.built.setsSdu hfew hsdu hsets
  obtain rfl := hzero.mpr ⟨rfl, trivial⟩
  refine ⟨⟨hbuilt, fun s hs => ?_⟩, ?_⟩
  · rcases List.mem_append.mp hs with hs | hs
    · exact h.valid s hs
    · rw [List.mem_singleton.mp hs]
      exact hlcid
  · have hpos := List.length_pos_iff.mpr hsets.nonempty
    have hspace := hsets.space
    have hrem := (hsets.counted trivial).1
    omega

theorem allocateLoop_grown {lcid : ℕ} (hlcid : lcid < Lcid.phrReport) (fuel : ℕ)
    (h : Filled pduSz ss p) (r : ρ) (sduSpace : ℕ) :
    Grown pduSz ss p (allocateLoop rlc lcid fuel p r sduSpace).1 := by
  induction fuel generalizing ss p r sduSpace with
  | zero => exact Grown.refl h
  | succ fuel ih =>
    unfold allocateLoop
    dsimp only
    split_ifs with hmore
    · rw [h.newSubh]
      by_cases hopen : ss.length + 1 < maxNofSubheaders ∧ p.remLen > 0
      · rw [if_pos hopen]
        dsimp only
        split_ifs with hspace
        · cases hset : (opened p ss).setSduItf lcid (min (rlc.getBufferState r lcid) sduSpace)
            (rlc.readPdu r lcid (min (rlc.getBufferState r lcid) sduSpace)).1 with
          | none => exact Grown.refl h
          | some p' =>
            obtain ⟨hfilled, hrem⟩ := h.setSduItf hopen.1 hlcid hset
            exact (ih hfilled _ _).of_append hrem
        · exact Grown.refl h
      · rw [if_neg hopen]
        exact Grown.refl h
    · exact Grown.refl h

theorem allocateLoop_unchanged (lcid fuel : ℕ) (r : ρ) (sduSpace : ℕ)
    (hnone : (allocateLoop rlc lcid fuel p r sduSpace).2.2 = false) :
    (allocateLoop rlc lcid fuel p r sduSpace).1 = p := by
  cases fuel with
  | zero => rfl
  | succ fuel =>
    unfold allocateLoop at hnone ⊢
    dsimp only at hnone ⊢
    split_ifs at hnone ⊢ with hmore
    · cases hnew : p.newSubh with
      | none => rfl
      | some q =>
        rw [hnew] at hnone
        dsimp only at hnone ⊢
        split_ifs at hnone ⊢ with hspace
        · cases hset : q.setSduItf lcid (min (rlc.getBufferState r lcid) sduSpace)
            (rlc.readPdu r lcid (min (rlc.getBufferState r lcid) sduSpace)).1 with
          | none => rfl
          | some p' =>
            rw [hset] at hnone
            exact absurd hnone (by simp)
        · rfl
    · rfl

theorem allocateAll_grown (channels : List LogicalChannel) (h : Filled pduSz ss p) (r : ρ) :
    Grown pduSz ss p (allocateAll rlc channels p r).1 := by
  induction channels generalizing ss p r with
  | nil => exact Grown.refl h
  | cons ch chs ih =>
    unfold allocateAll
    dsimp only
    split_ifs with hsched
    · exact (allocateLoop_grown ch.isData _ h r _).trans fun _ hfilled => ih hfilled _
    · exact ih h r

theorem length_payload_ce {s : SchSetting} (hs : s.Valid true) (hce : s.isSdu = false) :
    s.entry.payload.length ≤ 6 := by
  cases s with
  | ce c => exact Nat.le_of_lt_succ (length_bytes_ce c)
  | sdu lcid _ => exact absurd (show lcid < Lcid.phrReport from hs) (of_decide_eq_false hce)
  | sduItf lcid _ _ => exact absurd (show lcid < Lcid.phrReport from hs) (of_decide_eq_false hce)

theorem Filled.totalHeaderSize_le (h : Filled pduSz ss p) :
    p.totalHeaderSize ≤ 9 * ss.length + 2 := by
  have hsum := h.built.sum_getHeaderSize
  have hces := sum_ces_nofBytes h.built.subheaders
  have hheaders : ((entries ss).map MacEntry.headerSize).sum ≤ 3 * ss.length := by
    have hle := List.sum_le_card_nsmul ((entries ss).map MacEntry.headerSize) 3 ?_
    · rwa [List.length_map, length_entries, smul_eq_mul, Nat.mul_comm] at hle
    · intro n hn
      obtain ⟨e, -, rfl⟩ := List.mem_map.mp hn
      unfold MacEntry.headerSize sizeHeaderSdu
      split_ifs <;> omega
  have hpayloads : (MacEntry.payloads (ceEntries ss)).length ≤ 6 * ss.length := by
    unfold MacEntry.payloads ceEntries
    rw [List.length_flatMap, List.map_map]
    have hle := List.sum_le_card_nsmul ((ss.filter fun s => !s.isSdu).map
      ((fun e => e.payload.length) ∘ SchSetting.entry)) 6 ?_
    · have hfew := List.length_filter_le (fun s => !SchSetting.isSdu s) ss
      rw [List.length_map, smul_eq_mul] at hle
      calc _ ≤ _ := hle
        _ ≤ 6 * ss.length := by omega
    · intro n hn
      obtain ⟨s, hs, rfl⟩ := List.mem_map.mp hn
      obtain ⟨hmem, hce⟩ := List.mem_filter.mp hs
      exact length_payload_ce (h.valid s hmem) (by simpa using hce)
  unfold totalHeaderSize headerSz
  unfold onetwoPadding
  have hone : (if p.isMultibytePadding = true then 1
      else if p.isMultibytePadding = true then 0 else p.remLen) ≤ 2 := by
    split_ifs with hmulti
    · exact Nat.le_succ 1
    · exact Nat.le_of_not_lt fun hlt => hmulti (decide_eq_true hlt)
  omega

theorem Filled.room (h : Filled pduSz ss p) (hsize : pduSz ≤ clearedBuffer.tailroom) :
    RoomInBuffer p := by
  have hheader := h.totalHeaderSize_le
  have htotal := h.built.total
  have hhead := h.built.headroom
  have hfew : ss.length < 20 := by
    rcases h.built.few with rfl | hfew
    · exact Nat.zero_lt_succ 19
    · exact hfew
  have hlen : (startPdu pduSz).pduLen = pduSz := rfl
  have hstart : (startPdu pduSz).buffer.headroom = 1020 := rfl
  have htail : clearedBuffer.tailroom = maxBufferSizeBytes - 1020 := rfl
  unfold RoomInBuffer ByteBuffer.tailroom
  rw [hlen] at htotal
  rw [hhead, hstart]
  exact ⟨by omega, by omega⟩

def Carries (bytes : Bytes) (ce : CeSetting) : Prop :=
  ∃ es, bytes = MacEntry.encode es ∧ ⟨ce.lcid, ce.bytes⟩ ∈ es

theorem Filled.writePacket (h : Filled pduSz ss p) (hsize : pduSz ≤ clearedBuffer.tailroom) :
    ∃ bytes, p.writePacket = some bytes ∧ ∀ ce, .ce ce ∈ ss → Carries bytes ce := by
  have hroom := h.room hsize
  obtain ⟨bytes, hbytes⟩ :=
    Option.ne_none_iff_exists'.mp (h.built.writePacket_isSome.mpr ⟨rfl, hroom⟩)
  refine ⟨bytes, hbytes, fun ce hce => ⟨packetEntries pduSz ss, ?_, ?_⟩⟩
  · have heq := h.built.writePacket_eq (List.ne_nil_of_mem hce) h.valid hroom
    exact Option.some.inj (hbytes.symm.trans heq)
  · have hmem : (SchSetting.ce ce).entry ∈ entries ss :=
      (entries_perm ss).mem_iff.mpr (List.mem_map_of_mem hce)
    exact List.mem_append_left _ (List.mem_append_right _ hmem)

end SrsLte.Mux
