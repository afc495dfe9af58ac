import SrsLte.EnbRlc
import SrsLte.EventRun

/-!
# Split bearers over the forwarding socket

One master eNB and one secondary eNB with the datagrams between them. A datagram carries no
bearer, so that the secondary eNB routes it by its last `add_bearer`. It gets to the bearer of its
UE exactly when that call was for the LCID 3 of this UE.
-/

namespace SrsLte
namespace EnbRlc

variable {n : EnbRlc} {rnti lcid : ℕ} {sdu : Bytes}

theorem find?_writeLocal (r : ℕ) :
    (n.writeLocal rnti lcid sdu).users.find? r = (n.users.find? r).map fun user =>
      if r = rnti then
        if rnti ≠ mRnti then user.writeSdu lcid sdu else user.writeSduMch lcid sdu
      else user :=
  OrderedMap.find?_mapValues _ _ _

theorem find?_insert_append {m : OrderedMap ℕ (List Bytes)} {old : List Bytes}
    (hfind : m.find? lcid = some old) (l : ℕ) : (m.insert lcid (old ++ [sdu])).find? l =
      if l = lcid then (m.find? l).map (· ++ [sdu]) else m.find? l := by
  rw [OrderedMap.find?_insert]
  split_ifs with hl
  · rw [hl, hfind]
    rfl
  · rfl

theorem find?_writeSdu (user : RlcBearers) (l : ℕ) : (user.writeSdu lcid sdu).rlcArray.find? l =
    if l = lcid ∧ sdu.length ≤ RlcBearers.maxSduSize ∧ lcid < RlcBearers.nRadioBearers then
      (user.rlcArray.find? l).map (· ++ [sdu])
    else user.rlcArray.find? l := by
  unfold RlcBearers.writeSdu
  cases hfind : user.rlcArray.find? lcid with
  | none => grind
  | some old => grind [find?_insert_append hfind l]

theorem find?_writeSduMch (user : RlcBearers) (l : ℕ) :
    (user.writeSduMch lcid sdu).rlcArrayMrb.find? l =
      if l = lcid ∧ lcid < RlcBearers.nMchLcids then (user.rlcArrayMrb.find? l).map (· ++ [sdu])
      else user.rlcArrayMrb.find? l := by
  unfold RlcBearers.writeSduMch
  cases hfind : user.rlcArrayMrb.find? lcid with
  | none => grind
  | some old => grind [find?_insert_append hfind l]

theorem written_writeLocal (r l : ℕ) : (n.writeLocal rnti lcid sdu).written r l =
    if r = rnti ∧ l = lcid ∧ rnti ≠ mRnti ∧ sdu.length ≤ RlcBearers.maxSduSize ∧
        lcid < RlcBearers.nRadioBearers then (n.written r l).map (· ++ [sdu])
    else n.written r l := by
  have hmch (user : RlcBearers) : (user.writeSduMch lcid sdu).rlcArray = user.rlcArray := by
    unfold RlcBearers.writeSduMch
    split <;> [split; skip] <;> rfl
  unfold written
  rw [find?_writeLocal]
  cases n.users.find? r with
  | none => simp
  | some user => grind [find?_writeSdu user l]

theorem writtenMrb_writeLocal (r l : ℕ) : (n.writeLocal rnti lcid sdu).writtenMrb r l =
    if r = rnti ∧ l = lcid ∧ rnti = mRnti ∧ lcid < RlcBearers.nMchLcids then
      (n.writtenMrb r l).map (· ++ [sdu])
    else n.writtenMrb r l := by
  have hsdu (user : RlcBearers) : (user.writeSdu lcid sdu).rlcArrayMrb = user.rlcArrayMrb := by
    unfold RlcBearers.writeSdu
    grind
  unfold writtenMrb
  rw [find?_writeLocal]
  cases n.users.find? r with
  | none => simp
  | some user => grind [find?_writeSduMch user l]

def Accepts (n : EnbRlc) (datagram : Bytes) : Prop :=
  n.cpLcid = 3 ∧
    if n.cpRnti = mRnti then (n.writtenMrb mRnti 3).isSome = true
    else datagram.length ≤ RlcBearers.maxSduSize ∧ (n.written n.cpRnti 3).isSome = true

instance (n : EnbRlc) (datagram : Bytes) : Decidable (n.Accepts datagram) :=
  inferInstanceAs (Decidable (n.cpLcid = 3 ∧ ite _ _ _))

/-- The datagram was written into the bearer of LCID 3 of `rnti` and nowhere else, or there is no
such bearer and it was dropped. -/
structure Delivers (n n' : EnbRlc) (rnti : ℕ) (datagram : Bytes) : Prop where
  written : ∀ r l, n'.written r l =
    if r = rnti ∧ l = 3 then (n.written r l).map (· ++ [datagram]) else n.written r l
  writtenMrb : ∀ r l, n'.writtenMrb r l = n.writtenMrb r l

/-- The last `add_bearer` was for the bearer of LCID 3 of `rnti`; if `rnti` has none, the one it was
for takes nothing either. -/
def Designates (n : EnbRlc) (rnti : ℕ) (datagram : Bytes) : Prop :=
  if (n.written rnti 3).isSome then
    n.cpRnti = rnti ∧ n.cpLcid = 3 ∧ datagram.length ≤ RlcBearers.maxSduSize
  else ¬ n.Accepts datagram

instance (n : EnbRlc) (rnti : ℕ) (datagram : Bytes) : Decidable (n.Designates rnti datagram) :=
  inferInstanceAs (Decidable (ite (Option.isSome _ = true) _ _))

theorem append_ne_self {o : List Bytes} (b : Bytes) : o ++ [b] ≠ o := by
  intro h
  have hlength := congrArg List.length h
  rw [List.length_append, List.length_singleton] at hlength
  omega

theorem receive_of_not_accepts {datagram : Bytes} (h : ¬ n.Accepts datagram) (r l : ℕ) :
    (n.receive datagram).written r l = n.written r l ∧
      (n.receive datagram).writtenMrb r l = n.writtenMrb r l := by
  unfold receive
  by_cases hlcid : n.cpLcid = 3
  · rw [if_pos hlcid, written_writeLocal, writtenMrb_writeLocal, hlcid]
    have hlength : (datagram.take maxDatagram).length ≤ RlcBearers.maxSduSize ↔
        datagram.length ≤ RlcBearers.maxSduSize := by
      rw [List.length_take]
      unfold maxDatagram RlcBearers.maxSduSize
      omega
    simp only [hlength]
    constructor
    · split_ifs with hwrite
      · obtain ⟨rfl, rfl, hm, hle, -⟩ := hwrite
        have hnone : ¬ (n.written n.cpRnti 3).isSome := fun hsome =>
          h ⟨hlcid, by rw [if_neg hm]; exact ⟨hle, hsome⟩⟩
        rw [Option.not_isSome_iff_eq_none.mp hnone]
        rfl
      · rfl
    · split_ifs with hwrite
      · obtain ⟨rfl, rfl, hm, -⟩ := hwrite
        have hnone : ¬ (n.writtenMrb n.cpRnti 3).isSome := fun hsome =>
          h ⟨hlcid, by rw [if_pos hm, ← hm]; exact hsome⟩
        rw [Option.not_isSome_iff_eq_none.mp hnone]
        rfl
      · rfl
  · rw [if_neg hlcid]
    exact ⟨rfl, rfl⟩

theorem written_receive_of_accepts {datagram : Bytes} (h : n.Accepts datagram)
    (hue : n.cpRnti ≠ mRnti) (r l : ℕ) : (n.receive datagram).written r l =
      if r = n.cpRnti ∧ l = 3 then (n.written r l).map (· ++ [datagram]) else n.written r l := by
  obtain ⟨hlcid, haccepts⟩ := h
  rw [if_neg hue] at haccepts
  have htake : datagram.take maxDatagram = datagram := by
    refine List.take_of_length_le ?_
    have hle := haccepts.1
    unfold RlcBearers.maxSduSize at hle
    unfold maxDatagram
    omega
  rw [receive, if_pos hlcid, written_writeLocal, htake, hlcid]
  by_cases hat : r = n.cpRnti ∧ l = 3
  · rw [if_pos hat, if_pos ⟨hat.1, hat.2, hue, haccepts.1, by decide⟩]
  · rw [if_neg hat, if_neg fun hwrite => hat ⟨hwrite.1, hwrite.2.1⟩]

theorem writtenMrb_receive_of_ue {datagram : Bytes} (hue : n.cpRnti ≠ mRnti) (r l : ℕ) :
    (n.receive datagram).writtenMrb r l = n.writtenMrb r l := by
  unfold receive
  split_ifs
  · rw [writtenMrb_writeLocal, if_neg fun h => hue h.2.2.1]
  · rfl

theorem writtenMrb_receive_of_mrnti {datagram : Bytes} (h : n.Accepts datagram)
    (hmrnti : n.cpRnti = mRnti) :
    (n.receive datagram).writtenMrb mRnti 3 ≠ n.writtenMrb mRnti 3 := by
  obtain ⟨hlcid, haccepts⟩ := h
  rw [if_pos hmrnti] at haccepts
  obtain ⟨old, hold⟩ := Option.isSome_iff_exists.mp haccepts
  rw [receive, if_pos hlcid, writtenMrb_writeLocal, hlcid,
    if_pos ⟨hmrnti.symm, rfl, hmrnti, by decide⟩, hold, Option.map_some]
  exact fun heq => append_ne_self _ (Option.some.inj heq)

theorem delivers_iff {datagram : Bytes} (hue : rnti ≠ mRnti) :
    Delivers n (n.receive datagram) rnti datagram ↔ n.Designates rnti datagram := by
  by_cases haccepts : n.Accepts datagram
  · constructor
    · intro h
      have hcp : n.cpRnti ≠ mRnti := fun hmrnti =>
        writtenMrb_receive_of_mrnti haccepts hmrnti (h.writtenMrb mRnti 3)
      have hlcid := haccepts.1
      have hsome := haccepts.2
      rw [if_neg hcp] at hsome
      obtain ⟨old, hold⟩ := Option.isSome_iff_exists.mp hsome.2
      have hwritten := h.written n.cpRnti 3
      rw [written_receive_of_accepts haccepts hcp, if_pos ⟨rfl, rfl⟩, hold] at hwritten
      have hsame : n.cpRnti = rnti := by
        by_contra hne
        rw [if_neg fun hat => hne hat.1] at hwritten
        exact append_ne_self _ (Option.some.inj hwritten)
      rw [Designates, ← hsame, if_pos hsome.2]
      exact ⟨rfl, hlcid, hsome.1⟩
    · intro h
      unfold Designates at h
      split_ifs at h with hbearer
      · obtain ⟨rfl, -⟩ := h
        exact ⟨written_receive_of_accepts haccepts hue, writtenMrb_receive_of_ue hue⟩
      · exact absurd haccepts h
  · have hsame := receive_of_not_accepts haccepts
    constructor
    · intro h
      have hwritten := h.written rnti 3
      rw [(hsame rnti 3).1, if_pos ⟨rfl, rfl⟩] at hwritten
      have hnone : ¬ (n.written rnti 3).isSome := by
        intro hsome
        obtain ⟨old, hold⟩ := Option.isSome_iff_exists.mp hsome
        rw [hold] at hwritten
        exact append_ne_self _ (Option.some.inj hwritten).symm
      rw [Designates, if_neg hnone]
      exact haccepts
    · intro h
      unfold Designates at h
      split_ifs at h with hbearer
      · obtain ⟨rfl, hlcid, hle⟩ := h
        exact absurd ⟨hlcid, by rw [if_neg hue]; exact ⟨hle, hbearer⟩⟩ haccepts
      · refine ⟨fun r l => ?_, fun r l => (hsame r l).2⟩
        rw [(hsame r l).1]
        split_ifs with hat
        · rw [hat.1, hat.2, Option.not_isSome_iff_eq_none.mp hbearer]
          rfl
        · rfl

inductive Op
  | addUser (rnti : ℕ)
  | remUser (rnti : ℕ)
  | addBearer (rnti lcid : ℕ) (cnfg : RlcConfig)
  | addBearerMrb (rnti lcid : ℕ)

def apply (n : EnbRlc) : Op → EnbRlc
  | .addUser rnti => n.addUser rnti
  | .remUser rnti => n.remUser rnti
  | .addBearer rnti lcid cnfg => n.addBearer rnti lcid cnfg
  | .addBearerMrb rnti lcid => n.addBearerMrb rnti lcid

end EnbRlc

/-- A datagram in flight, with the UE at the master eNB that it was sent for. -/
structure Forwarded where
  rnti : ℕ
  datagram : Bytes

structure SplitBearer where
  menb : EnbRlc
  senb : EnbRlc
  inFlight : List Forwarded

namespace SplitBearer

inductive Event
  | menb (op : EnbRlc.Op)
  | senb (op : EnbRlc.Op)
  | setSplitRatio (ratioMeNB ratioSeNB : ℕ)
  | setSplitMode
  | setLossrate (lossMeNB lossSeNB : ℕ)
  | setDuplicationMode
  | writeMenb (rnti lcid : ℕ) (sdu : Bytes) (rollSeNB rollMeNB : ℕ) (sent : Bool)
  | writeSenb (rnti lcid : ℕ) (sdu : Bytes)
  | arrive (i : ℕ)
  | lose (i : ℕ)

def step (s : SplitBearer) : Event → SplitBearer
  | .menb op => { s with menb := s.menb.apply op }
  | .senb op => { s with senb := s.senb.apply op }
  | .setSplitRatio ratioMeNB ratioSeNB =>
    { s with menb := s.menb.setSplitRatio ratioMeNB ratioSeNB }
  | .setSplitMode => { s with menb := s.menb.setSplitMode }
  | .setLossrate lossMeNB lossSeNB => { s with menb := s.menb.setLossrate lossMeNB lossSeNB }
  | .setDuplicationMode => { s with menb := s.menb.setDuplicationMode }
  | .writeMenb rnti lcid sdu rollSeNB rollMeNB sent =>
    let (menb, datagram) := s.menb.writeSdu rnti lcid sdu rollSeNB rollMeNB sent
    { s with
      menb := menb
      inFlight := s.inFlight ++ (datagram.map fun d => { rnti := rnti, datagram := d }).toList }
  | .writeSenb rnti lcid sdu => { s with senb := s.senb.writeLocal rnti lcid sdu }
  | .arrive i =>
    match s.inFlight[i]? with
    | some f => { s with senb := s.senb.receive f.datagram, inFlight := s.inFlight.eraseIdx i }
    | none => s
  | .lose i => { s with inFlight := s.inFlight.eraseIdx i }

/-- Before the first `add_bearer` of an eNB, `cp_rnti` and `cp_lcid` hold anything. -/
def start (cpRnti cpLcid cpRnti' cpLcid' : ℕ) : SplitBearer where
  menb := .init cpRnti cpLcid
  senb := .init cpRnti' cpLcid'
  inFlight := []

/-- A datagram that arrives gets to the bearer of its UE. `peer` gives the RNTI at the secondary
eNB of a UE of the master eNB. -/
def Routed (peer : ℕ → ℕ) (s : SplitBearer) : Event → Prop
  | .arrive i => ∀ f, s.inFlight[i]? = some f → peer f.rnti ≠ EnbRlc.mRnti →
      EnbRlc.Delivers s.senb (s.step (.arrive i)).senb (peer f.rnti) f.datagram
  | _ => True

/-- The last `add_bearer` at the secondary eNB designates the bearer of the datagram that
arrives. -/
def Designated (peer : ℕ → ℕ) (s : SplitBearer) : Event → Prop
  | .arrive i => ∀ f, s.inFlight[i]? = some f → peer f.rnti ≠ EnbRlc.mRnti →
      s.senb.Designates (peer f.rnti) f.datagram
  | _ => True

theorem routed_iff (peer : ℕ → ℕ) (s : SplitBearer) (e : Event) :
    s.Routed peer e ↔ s.Designated peer e := by
  cases e with
  | arrive i =>
    refine forall_congr' fun f => imp_congr_right fun hf => imp_congr_right fun hue => ?_
    have hstep : (s.step (.arrive i)).senb = s.senb.receive f.datagram := by
      unfold step
      dsimp only
      rw [hf]
    rw [hstep]
    exact EnbRlc.delivers_iff hue
  | _ => exact Iff.rfl

end SplitBearer
end SrsLte
