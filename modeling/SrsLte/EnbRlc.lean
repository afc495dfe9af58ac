import SrsLte.ByteBuffer
import SrsLte.OrderedMap
import SrsLte.Word

/-!
# The RLC layer of an eNB in dual connectivity

`srsenb::rlc` keeps one `srslte::rlc` for every user. A master eNB sends part of the SDUs of LCID 3
over a socket to a secondary eNB. The secondary eNB writes what arrives into the bearer of
`cp_rnti` and `cp_lcid`, which every `add_bearer` assigns.
-/

namespace SrsLte

inductive RlcMode
  | tm
  | um
  | am
  | nulltype
  deriving DecidableEq

inductive RlcRat
  | lte
  | nr
  | nulltype
  deriving DecidableEq

structure RlcConfig where
  rat : RlcRat
  rlcMode : RlcMode
  deriving DecidableEq

/-- There is an entity for the configuration. The build is without `HAVE_5GNR`. -/
def RlcConfig.supported (cnfg : RlcConfig) : Bool :=
  cnfg.rat = .lte && cnfg.rlcMode ≠ .nulltype

theorem am_supported : RlcConfig.supported ⟨.lte, .am⟩ = true := rfl

/-- `srslte::rlc`, where an entity stands for the SDUs that were written into it. -/
structure RlcBearers where
  rlcArray : OrderedMap ℕ (List Bytes)
  rlcArrayMrb : OrderedMap ℕ (List Bytes)

namespace RlcBearers

/-- `SRSLTE_N_RADIO_BEARERS`. -/
def nRadioBearers : ℕ := 11

/-- `SRSLTE_N_MCH_LCIDS`. -/
def nMchLcids : ℕ := 32

/-- `RLC_MAX_SDU_SIZE`. -/
def maxSduSize : ℕ := 2047

variable (r : RlcBearers) (lcid : ℕ) (sdu : Bytes)

def addBearer (cnfg : RlcConfig) : RlcBearers :=
  if cnfg.supported then { r with rlcArray := r.rlcArray.emplace lcid [] } else r

def addBearerMrb : RlcBearers :=
  { r with rlcArrayMrb := r.rlcArrayMrb.emplace lcid [] }

/-- `init` with the default bearer for SRB0. -/
def init : RlcBearers :=
  addBearer { rlcArray := .empty, rlcArrayMrb := .empty } 0 { rat := .lte, rlcMode := .tm }

def writeSdu : RlcBearers :=
  if sdu.length > maxSduSize then r
  else
    match r.rlcArray.find? lcid with
    | some written =>
      if lcid < nRadioBearers then { r with rlcArray := r.rlcArray.insert lcid (written ++ [sdu]) }
      else r
    | none => r

def writeSduMch : RlcBearers :=
  match r.rlcArrayMrb.find? lcid with
  | some written =>
    if lcid < nMchLcids then { r with rlcArrayMrb := r.rlcArrayMrb.insert lcid (written ++ [sdu]) }
    else r
  | none => r

end RlcBearers

structure EnbRlc where
  users : OrderedMap ℕ RlcBearers
  cpRnti : ℕ
  cpLcid : ℕ
  splitCount : ℕ
  ratioMeNB : ℕ
  ratioSeNB : ℕ
  splitMode : Bool
  duplicationMode : Bool
  lossMeNB : ℕ
  lossSeNB : ℕ

namespace EnbRlc

/-- `SRSLTE_MRNTI`. -/
def mRnti : ℕ := 0xFFFD

/-- Where `recvfrom` cuts a datagram off. -/
def maxDatagram : ℕ := 12756 - 1024

/-- The state behind `init`, which does not assign `cp_rnti` and `cp_lcid`. -/
def init (cpRnti cpLcid : ℕ) : EnbRlc where
  users := .empty
  cpRnti := cpRnti
  cpLcid := cpLcid
  splitCount := 0
  ratioMeNB := 1
  ratioSeNB := 0
  splitMode := false
  duplicationMode := false
  lossMeNB := 0
  lossSeNB := 0

variable (n : EnbRlc) (rnti lcid : ℕ)

def addUser : EnbRlc :=
  { n with users := n.users.emplace rnti .init }

def remUser : EnbRlc :=
  { n with users := n.users.erase rnti }

/-- `cp_rnti` and `cp_lcid` are assigned also when there is no such user. -/
def addBearer (cnfg : RlcConfig) : EnbRlc :=
  { n with
    users := n.users.mapValues fun r user => if r = rnti then user.addBearer lcid cnfg else user
    cpRnti := rnti
    cpLcid := lcid }

def addBearerMrb : EnbRlc :=
  { n with
    users := n.users.mapValues fun r user => if r = rnti then user.addBearerMrb lcid else user }

def setSplitRatio (ratioMeNB ratioSeNB : ℕ) : EnbRlc :=
  if ratioMeNB = 0 ∧ ratioSeNB = 0 then { n with ratioMeNB := 1, ratioSeNB := 0 }
  else { n with ratioMeNB := ratioMeNB, ratioSeNB := ratioSeNB, splitCount := 0 }

def setSplitMode : EnbRlc :=
  if n.splitMode then { n with splitMode := false }
  else setSplitRatio { n with splitMode := true, duplicationMode := false, splitCount := 0 } 1 0

def setLossrate (lossMeNB lossSeNB : ℕ) : EnbRlc :=
  if lossMeNB > 100 ∨ lossSeNB > 100 then { n with lossMeNB := 0, lossSeNB := 0 }
  else { n with lossMeNB := lossMeNB, lossSeNB := lossSeNB }

def setDuplicationMode : EnbRlc := { n with duplicationMode := !n.duplicationMode }

inductive Path
  | menb
  | senb
  | duplication
  | unknown
  deriving DecidableEq

/-- `split_count` is an octet. -/
def decidePath : EnbRlc × Path :=
  if lcid ≠ 3 then (n, .menb)
  else if n.duplicationMode then (n, .duplication)
  else if n.splitMode = false then (n, .menb)
  else if n.ratioMeNB = 0 ∧ n.ratioSeNB ≠ 0 then (n, .senb)
  else if n.ratioSeNB = 0 ∧ n.ratioMeNB ≠ 0 then (n, .menb)
  else if n.ratioMeNB = 0 ∧ n.ratioSeNB = 0 then (n, .unknown)
  else
    let count := if n.splitCount ≥ n.ratioMeNB + n.ratioSeNB then 0 else n.splitCount
    ({ n with splitCount := (count + 1) % 2 ^ 8 }, if count < n.ratioMeNB then .menb else .senb)

def decideLoss (rate roll : ℕ) : Bool := roll % 100 < rate

def writeLocal (sdu : Bytes) : EnbRlc :=
  { n with
    users := n.users.mapValues fun r user =>
      if r = rnti then
        if rnti ≠ mRnti then user.writeSdu lcid sdu else user.writeSduMch lcid sdu
      else user }

/-- `write_sdu` of the master eNB, with the datagram that it sends. The two rolls are what `rand`
returns, `sent` says that `sendto` succeeds. -/
def writeSdu (sdu : Bytes) (rollSeNB rollMeNB : ℕ) (sent : Bool) : EnbRlc × Option Bytes :=
  let (n, path) := n.decidePath lcid
  let datagram := if decideLoss n.lossSeNB rollSeNB = false ∧ sent = true then some sdu else none
  let kept := if decideLoss n.lossMeNB rollMeNB then n else n.writeLocal rnti lcid sdu
  match path with
  | .duplication => (kept, datagram)
  | .senb => (n, datagram)
  | .menb => (kept, none)
  | .unknown => (n, none)

/-- What `run_thread` of the secondary eNB does with a datagram. -/
def receive (datagram : Bytes) : EnbRlc :=
  if n.cpLcid = 3 then n.writeLocal n.cpRnti n.cpLcid (datagram.take maxDatagram) else n

def written : Option (List Bytes) :=
  (n.users.find? rnti).bind fun user => user.rlcArray.find? lcid

def writtenMrb : Option (List Bytes) :=
  (n.users.find? rnti).bind fun user => user.rlcArrayMrb.find? lcid

variable {n rnti lcid}

end EnbRlc
end SrsLte
