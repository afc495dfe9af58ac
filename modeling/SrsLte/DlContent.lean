import SrsLte.MacPdu
import Mathlib.Algebra.BigOperators.Group.List.Basic

/-!
# Content of a downlink transport block

How `generate_format1` and `generate_format2a` fill the transport blocks of a UE from the buffer
states of its bearers. The TBS is a function of the requested bytes: `alloc_tbs_dl` for the PRBs of
the mask and the last CQI, or the one of a fixed MCS. `rem_tbs` below zero ends the loop as zero
does.
-/

namespace SrsLte

/-- What the functions read of `ue_bearer_t`. -/
structure DlBearer where
  isDl : Bool
  bufTx : ℕ
  bufRetx : ℕ
  deriving DecidableEq

/-- The part of `sched_ue` that the content of a transport block is made from. -/
structure SchedUeDl where
  lch : List DlBearer
  nofTaCmd : ℕ
  conresCePending : Bool
  isFirstDlTx : Bool
  deriving DecidableEq

/-- An element of the PDU list: a CE of Contention Resolution or Timing Advance, or an SDU. -/
inductive DlSchedPdu
  | conRes
  | taCmd
  | sdu (lcid nbytes : ℕ)
  deriving DecidableEq

namespace SchedUeDl

def minDataTbs : ℕ := 4

def conresCeSize : ℕ := 6

def isConresCePending (u : SchedUeDl) : Bool :=
  u.conresCePending &&
    u.lch.head?.any fun b => b.isDl && (decide (0 < b.bufRetx) || decide (0 < b.bufTx))

def getPendingDlNewData (u : SchedUeDl) : ℕ :=
  (u.lch.map fun b => if b.isDl then b.bufRetx + b.bufTx else 0).sum +
    if ¬u.isFirstDlTx ∧ u.nofTaCmd > 0 then u.nofTaCmd * 2 else 0

def getPendingDlNewDataTotal (u : SchedUeDl) : ℕ :=
  let reqBytes := u.getPendingDlNewData
  let reqBytes := if u.isConresCePending then reqBytes + conresCeSize else reqBytes
  if reqBytes > 0 then reqBytes + if reqBytes < 128 then 2 else 3 else reqBytes

/-- The bytes that `alloc_pdu` takes from a bearer, and the bearer without them. -/
def takeBytes (b : DlBearer) (tbsBytes : ℕ) : ℕ × DlBearer :=
  if b.bufRetx ≠ 0 then
    (min b.bufRetx tbsBytes, { b with bufRetx := b.bufRetx - min b.bufRetx tbsBytes })
  else if b.bufTx ≠ 0 then
    (min b.bufTx tbsBytes, { b with bufTx := b.bufTx - min b.bufTx tbsBytes })
  else (0, b)

/-- `alloc_pdu` from the bearer of that LCID on: the LCID and the bytes of the PDU. -/
def allocPdu (tbsBytes : ℕ) : ℕ → List DlBearer → List DlBearer × Option (ℕ × ℕ)
  | _, [] => ([], none)
  | i, b :: lch =>
    let (x, b) := takeBytes b tbsBytes
    if x ≠ 0 then (b :: lch, some (i, x))
    else (b :: (allocPdu tbsBytes (i + 1) lch).1, (allocPdu tbsBytes (i + 1) lch).2)

/-- The loop over `alloc_pdu` that counts `header` bytes for a header, for that many rounds at most:
a round that does not end it takes a byte. -/
def allocPdus (header : ℕ) : ℕ → ℕ → List DlBearer → List DlBearer × List DlSchedPdu
  | 0, _, lch => (lch, [])
  | rounds + 1, remTbs, lch =>
    match allocPdu remTbs 0 lch with
    | (lch, none) => (lch, [])
    | (lch, some (lcid, x)) =>
      if remTbs - (x + header) ≥ minDataTbs then
        ((allocPdus header rounds (remTbs - (x + header)) lch).1,
          .sdu lcid x :: (allocPdus header rounds (remTbs - (x + header)) lch).2)
      else (lch, [.sdu lcid x])

def taCmds : ℕ → ℕ → ℕ × ℕ
  | 0, remTbs => (0, remTbs)
  | nofTaCmd + 1, remTbs =>
    if remTbs > 2 then ((taCmds nofTaCmd (remTbs - 2)).1 + 1, (taCmds nofTaCmd (remTbs - 2)).2)
    else (0, remTbs)

/-- The PDU list of `generate_format1` for a new transmission. -/
def fillFormat1 (u : SchedUeDl) (tbs : ℕ) : SchedUeDl × List DlSchedPdu :=
  if u.isConresCePending then
    let (lch, pdu) := allocPdus 2 (tbs + 1) tbs u.lch
    ({ u with lch := lch, conresCePending := false, isFirstDlTx := false }, .conRes :: pdu)
  else
    let (cmds, remTbs) := taCmds u.nofTaCmd tbs
    let (lch, pdu) := allocPdus 2 (remTbs + 1) remTbs u.lch
    ({ u with lch := lch, nofTaCmd := u.nofTaCmd - cmds, isFirstDlTx := false },
      List.replicate cmds .taCmd ++ pdu)

/-- `generate_format1`: the TBS and the PDU list. `retxTbs` is the TBS of the HARQ process, which is
empty if there is none. -/
def generateFormat1 (u : SchedUeDl) (allocTbs : ℕ → ℕ) (retxTbs : Option ℕ) :
    SchedUeDl × ℕ × List DlSchedPdu :=
  match retxTbs with
  | some tbs => (u, tbs, [])
  | none =>
    let tbs := allocTbs u.getPendingDlNewDataTotal
    if tbs < minDataTbs then (u, 0, []) else ((u.fillFormat1 tbs).1, tbs, (u.fillFormat1 tbs).2)

/-- The PDU list of `generate_format2a` for a new transmission. -/
def fillFormat2a (u : SchedUeDl) (tb tbs : ℕ) : SchedUeDl × List DlSchedPdu :=
  let (lch, pdu) := allocPdus 0 (tbs + 1) tbs u.lch
  ({ u with lch := lch, isFirstDlTx := u.isFirstDlTx && decide (tb ≠ 0) }, pdu)

/-- One transport block of `generate_format2a`. -/
def generateTb (u : SchedUeDl) (allocTbs : ℕ → ℕ) (tb : ℕ) (tbEn noRetx : Bool)
    (retxTbs : Option ℕ) : SchedUeDl × ℕ × List DlSchedPdu :=
  match retxTbs with
  | some tbs => (u, if tbEn then tbs else 0, [])
  | none =>
    let reqBytes := u.getPendingDlNewDataTotal
    if tbEn ∧ reqBytes > 0 ∧ noRetx then
      let tbs := allocTbs reqBytes
      ((u.fillFormat2a tb tbs).1, tbs, (u.fillFormat2a tb tbs).2)
    else (u, 0, [])

def enabledTbs (dlRi : ℕ) (retxTbs : Option ℕ × Option ℕ) : Bool × Bool × Bool :=
  if dlRi = 0 then
    if retxTbs.2.isNone then (true, false, true) else (false, true, true)
  else if retxTbs.1.isSome ∨ retxTbs.2.isSome then (retxTbs.1.isSome, retxTbs.2.isSome, false)
  else (true, true, true)

def firstTb (u : SchedUeDl) (allocTbs : ℕ → ℕ) (dlRi : ℕ) (retxTbs : Option ℕ × Option ℕ) :
    SchedUeDl × ℕ × List DlSchedPdu :=
  u.generateTb allocTbs 0 (enabledTbs dlRi retxTbs).1 (enabledTbs dlRi retxTbs).2.2 retxTbs.1

def secondTb (u : SchedUeDl) (allocTbs : ℕ → ℕ) (dlRi : ℕ) (retxTbs : Option ℕ × Option ℕ) :
    SchedUeDl × ℕ × List DlSchedPdu :=
  u.generateTb allocTbs 1 (enabledTbs dlRi retxTbs).2.1 (enabledTbs dlRi retxTbs).2.2 retxTbs.2

/-- `generate_format2a`: the TBS and the PDU list of each transport block. -/
def generateFormat2a (u : SchedUeDl) (allocTbs : ℕ → ℕ) (dlRi : ℕ)
    (retxTbs : Option ℕ × Option ℕ) :
    SchedUeDl × (ℕ × List DlSchedPdu) × (ℕ × List DlSchedPdu) :=
  let (u, tb0) := u.firstTb allocTbs dlRi retxTbs
  let (u, tb1) := u.secondTb allocTbs dlRi retxTbs
  (u, tb0, tb1)

end SchedUeDl

/-- The bytes of the MAC PDU that the list asks for: the last subheader takes one byte. -/
def pduSize : List DlSchedPdu → ℕ
  | [] => 0
  | .conRes :: pdu => 1 + 6 + pduSize pdu
  | .taCmd :: pdu => 1 + 1 + pduSize pdu
  | .sdu _ nbytes :: pdu => (if pdu = [] then 1 else sizeHeaderSdu nbytes) + nbytes + pduSize pdu

def scheduledBytes (pdu : List DlSchedPdu) (lcid : ℕ) : ℕ :=
  (pdu.map fun
    | .sdu i nbytes => if i = lcid then nbytes else 0
    | _ => 0).sum

def pendingBytes (lch : List DlBearer) (lcid : ℕ) : ℕ :=
  (lch[lcid]?.map fun b => b.bufRetx + b.bufTx).getD 0

/-- The content of a transport block from the buffers `before`. -/
structure ContentSound (before after : List DlBearer) (tbs : ℕ) (pdu : List DlSchedPdu) : Prop where
  fits : pduSize pdu ≤ tbs
  scheduled : ∀ lcid, scheduledBytes pdu lcid ≤ pendingBytes before lcid
  decremented : ∀ lcid, pendingBytes after lcid + scheduledBytes pdu lcid = pendingBytes before lcid
  retained : List.Forall₂ (fun b b' => b'.bufRetx ≤ b.bufRetx ∧ b'.bufTx ≤ b.bufTx) before after

def demands : List DlBearer → List ℕ
  | [] => []
  | b :: lch => [b.bufRetx, b.bufTx].filter (· ≠ 0) ++ demands lch

/-- Every buffer that the loop comes to fits whole into the bytes it counts on, beside `extra` bytes
that it has not counted. -/
def FitWhole (header : ℕ) : ℕ → ℕ → List ℕ → Prop
  | extra, remTbs, [] => extra ≤ remTbs
  | extra, remTbs, d :: ds =>
    d + 1 + extra ≤ remTbs ∧
      (ds ≠ [] ∧ remTbs - (d + header) ≥ SchedUeDl.minDataTbs →
        FitWhole header (extra + sizeHeaderSdu d - header) (remTbs - (d + header)) ds)

namespace SchedUeDl

/-- What `generate_format1` needs, beside the bytes of a Contention Resolution CE. -/
def FitsFormat1 (u : SchedUeDl) (allocTbs : ℕ → ℕ) (retxTbs : Option ℕ) : Prop :=
  retxTbs = none → minDataTbs ≤ allocTbs u.getPendingDlNewDataTotal →
    if u.isConresCePending then
      FitWhole 2 (1 + 6) (allocTbs u.getPendingDlNewDataTotal) (demands u.lch)
    else
      FitWhole 2 0 (taCmds u.nofTaCmd (allocTbs u.getPendingDlNewDataTotal)).2 (demands u.lch)

/-- What a transport block of `generate_format2a` needs, where no header is counted. -/
def FitsTb (u : SchedUeDl) (allocTbs : ℕ → ℕ) (tbEn noRetx : Bool) (retxTbs : Option ℕ) : Prop :=
  retxTbs = none → tbEn = true ∧ u.getPendingDlNewDataTotal > 0 ∧ noRetx = true →
    0 < allocTbs u.getPendingDlNewDataTotal →
      FitWhole 0 0 (allocTbs u.getPendingDlNewDataTotal) (demands u.lch)

/-- The content of what `generate_format1` returns. -/
def Format1Sound (u : SchedUeDl) (allocTbs : ℕ → ℕ) (retxTbs : Option ℕ) : Prop :=
  ContentSound u.lch (u.generateFormat1 allocTbs retxTbs).1.lch
    (u.generateFormat1 allocTbs retxTbs).2.1 (u.generateFormat1 allocTbs retxTbs).2.2

/-- The content of both transport blocks that `generate_format2a` returns. -/
def Format2aSound (u : SchedUeDl) (allocTbs : ℕ → ℕ) (dlRi : ℕ) (retxTbs : Option ℕ × Option ℕ) :
    Prop :=
  ContentSound u.lch (u.firstTb allocTbs dlRi retxTbs).1.lch
      (u.generateFormat2a allocTbs dlRi retxTbs).2.1.1
      (u.generateFormat2a allocTbs dlRi retxTbs).2.1.2 ∧
    ContentSound (u.firstTb allocTbs dlRi retxTbs).1.lch
      (u.generateFormat2a allocTbs dlRi retxTbs).1.lch
      (u.generateFormat2a allocTbs dlRi retxTbs).2.2.1
      (u.generateFormat2a allocTbs dlRi retxTbs).2.2.2

variable {header remTbs : ℕ} {lch : List DlBearer}

structure Taken (b b' : DlBearer) (x : ℕ) : Prop where
  decremented : b'.bufRetx + b'.bufTx + x = b.bufRetx + b.bufTx
  retx : b'.bufRetx ≤ b.bufRetx
  tx : b'.bufTx ≤ b.bufTx

theorem takeBytes_of_demands {b : DlBearer} {d : ℕ} {ds : List ℕ}
    (h : [b.bufRetx, b.bufTx].filter (· ≠ 0) = d :: ds) :
    (takeBytes b remTbs).1 = min d remTbs ∧ d ≠ 0 ∧
      Taken b (takeBytes b remTbs).2 (min d remTbs) ∧
      (d ≤ remTbs → [(takeBytes b remTbs).2.bufRetx, (takeBytes b remTbs).2.bufTx].filter (· ≠ 0) =
        ds) := by
  unfold takeBytes
  by_cases hretx : b.bufRetx = 0
  · by_cases htx : b.bufTx = 0
    · simp [hretx, htx] at h
    · have hlist : [b.bufRetx, b.bufTx].filter (· ≠ 0) = [b.bufTx] := by simp [hretx, htx]
      rw [hlist] at h
      cases h
      rw [if_neg (not_not.2 hretx), if_pos htx]
      refine ⟨rfl, htx, ⟨?_, le_rfl, Nat.sub_le _ _⟩, fun hle => ?_⟩
      · dsimp only
        omega
      · simp [hretx, hle]
  · have hlist : [b.bufRetx, b.bufTx].filter (· ≠ 0) = b.bufRetx :: [b.bufTx].filter (· ≠ 0) :=
      List.filter_cons_of_pos (by simpa using hretx)
    rw [hlist] at h
    cases h
    rw [if_pos hretx]
    refine ⟨rfl, hretx, ⟨?_, Nat.sub_le _ _, le_rfl⟩, fun hle => ?_⟩
    · dsimp only
      omega
    · simp [hle]

theorem takeBytes_of_no_demand {b : DlBearer} (h : [b.bufRetx, b.bufTx].filter (· ≠ 0) = []) :
    takeBytes b remTbs = (0, b) := by
  have hretx : b.bufRetx = 0 := by
    by_contra hne
    simp [hne] at h
  have htx : b.bufTx = 0 := by
    by_contra hne
    simp [hretx, hne] at h
  unfold takeBytes
  rw [if_neg (not_not.2 hretx), if_neg (not_not.2 htx)]

theorem allocPdu_zero (i : ℕ) (lch : List DlBearer) : allocPdu 0 i lch = (lch, none) := by
  induction lch generalizing i with
  | nil => rfl
  | cons b lch ih =>
    have htake : takeBytes b 0 = (0, b) := by
      unfold takeBytes
      simp only [Nat.min_zero, Nat.sub_zero]
      split_ifs <;> rfl
    rw [allocPdu, htake]
    dsimp only
    rw [if_neg (not_not.2 rfl), ih]

theorem allocPdu_of_no_demand (i : ℕ) (h : demands lch = []) :
    allocPdu remTbs i lch = (lch, none) := by
  induction lch generalizing i with
  | nil => rfl
  | cons b lch ih =>
    obtain ⟨hb, hlch⟩ := List.append_eq_nil_iff.1 h
    rw [allocPdu, takeBytes_of_no_demand hb]
    dsimp only
    rw [if_neg (not_not.2 rfl), ih (i + 1) hlch]

/-- The bearers after bytes were taken from the bearer of that LCID. -/
structure Served (lch lch' : List DlBearer) (lcid x : ℕ) : Prop where
  decremented : ∀ j, pendingBytes lch' j + (if lcid = j then x else 0) = pendingBytes lch j
  retained : List.Forall₂ (fun b b' => b'.bufRetx ≤ b.bufRetx ∧ b'.bufTx ≤ b.bufTx) lch lch'

theorem forall₂_retained_refl (lch : List DlBearer) :
    List.Forall₂ (fun b b' => b'.bufRetx ≤ b.bufRetx ∧ b'.bufTx ≤ b.bufTx) lch lch :=
  List.forall₂_same.2 fun _ _ => ⟨le_rfl, le_rfl⟩

theorem Taken.served {b b' : DlBearer} {x : ℕ} (h : Taken b b' x) :
    Served (b :: lch) (b' :: lch) 0 x where
  decremented := by
    intro j
    cases j with
    | zero => exact h.decremented
    | succ j => rfl
  retained := List.Forall₂.cons ⟨h.retx, h.tx⟩ (forall₂_retained_refl lch)

theorem Served.cons {lch' : List DlBearer} {lcid x : ℕ} (b : DlBearer)
    (h : Served lch lch' lcid x) : Served (b :: lch) (b :: lch') (lcid + 1) x where
  decremented := by
    intro j
    cases j with
    | zero => rfl
    | succ j => simpa [pendingBytes] using h.decremented j
  retained := List.Forall₂.cons ⟨le_rfl, le_rfl⟩ h.retained

theorem allocPdu_of_demands (hrem : 0 < remTbs) {d : ℕ} {ds : List ℕ} (i : ℕ)
    (h : demands lch = d :: ds) :
    ∃ lch' lcid, allocPdu remTbs i lch = (lch', some (i + lcid, min d remTbs)) ∧ d ≠ 0 ∧
      Served lch lch' lcid (min d remTbs) ∧ (d ≤ remTbs → demands lch' = ds) := by
  induction lch generalizing i with
  | nil => cases h
  | cons b lch ih =>
    rw [demands] at h
    cases hb : [b.bufRetx, b.bufTx].filter (· ≠ 0) with
    | nil =>
      rw [hb, List.nil_append] at h
      obtain ⟨lch', lcid, heq, hne, hserved, hwhole⟩ := ih (i + 1) h
      refine ⟨b :: lch', lcid + 1, ?_, hne, hserved.cons b, fun hle => ?_⟩
      · rw [allocPdu, takeBytes_of_no_demand hb]
        dsimp only
        rw [if_neg (not_not.2 rfl), heq, Nat.add_right_comm, Nat.add_assoc]
      · rw [demands, hb, List.nil_append, hwhole hle]
    | cons d' es =>
      rw [hb] at h
      obtain ⟨rfl, rfl⟩ := List.cons.inj h
      obtain ⟨hx, hne, htaken, hwhole⟩ := @takeBytes_of_demands remTbs _ _ _ hb
      refine ⟨(takeBytes b remTbs).2 :: lch, 0, ?_, hne, htaken.served, fun hle => ?_⟩
      · rw [allocPdu]
        dsimp only
        rw [hx, if_pos (by omega), Nat.add_zero]
      · rw [demands, hwhole hle]
        rfl

structure Allocated (lch lch' : List DlBearer) (pdu : List DlSchedPdu) : Prop where
  decremented : ∀ lcid, pendingBytes lch' lcid + scheduledBytes pdu lcid = pendingBytes lch lcid
  retained : List.Forall₂ (fun b b' => b'.bufRetx ≤ b.bufRetx ∧ b'.bufTx ≤ b.bufTx) lch lch'

theorem allocated_nil (lch : List DlBearer) : Allocated lch lch [] :=
  ⟨fun _ => rfl, forall₂_retained_refl lch⟩

theorem scheduledBytes_cons_sdu (lcid nbytes : ℕ) (pdu : List DlSchedPdu) (j : ℕ) :
    scheduledBytes (.sdu lcid nbytes :: pdu) j =
      (if lcid = j then nbytes else 0) + scheduledBytes pdu j := by
  unfold scheduledBytes
  rw [List.map_cons, List.sum_cons]

theorem retained_trans {lch lch' lch'' : List DlBearer}
    (h : List.Forall₂ (fun b b' => b'.bufRetx ≤ b.bufRetx ∧ b'.bufTx ≤ b.bufTx) lch lch')
    (h' : List.Forall₂ (fun b b' => b'.bufRetx ≤ b.bufRetx ∧ b'.bufTx ≤ b.bufTx) lch' lch'') :
    List.Forall₂ (fun b b' => b'.bufRetx ≤ b.bufRetx ∧ b'.bufTx ≤ b.bufTx) lch lch'' := by
  induction h generalizing lch'' with
  | nil => exact h'
  | cons hb _ ih =>
    cases h' with
    | cons hb' hrest =>
      exact .cons ⟨hb'.1.trans hb.1, hb'.2.trans hb.2⟩ (ih hrest)

theorem Served.allocated {lch' lch'' : List DlBearer} {lcid x : ℕ} {pdu : List DlSchedPdu}
    (hserved : Served lch lch' lcid x) (hrest : Allocated lch' lch'' pdu) :
    Allocated lch lch'' (.sdu lcid x :: pdu) where
  decremented := by
    intro j
    rw [scheduledBytes_cons_sdu, ← hserved.decremented j, ← hrest.decremented j]
    omega
  retained := retained_trans hserved.retained hrest.retained

theorem two_le_sizeHeaderSdu (nbytes : ℕ) : 2 ≤ sizeHeaderSdu nbytes := by
  unfold sizeHeaderSdu
  split_ifs <;> omega

theorem allocPdus_spec (hheader : header ≤ 2) {rounds : ℕ} (hrounds : remTbs < rounds)
    (hrem : 0 < remTbs) (extra : ℕ) :
    (pduSize (allocPdus header rounds remTbs lch).2 + extra ≤ remTbs ↔
        FitWhole header extra remTbs (demands lch)) ∧
      Allocated lch (allocPdus header rounds remTbs lch).1
        (allocPdus header rounds remTbs lch).2 ∧
      ((allocPdus header rounds remTbs lch).2 = [] ↔ demands lch = []) := by
  induction rounds generalizing remTbs lch extra with
  | zero => exact absurd hrounds (Nat.not_lt_zero _)
  | succ rounds ih =>
    cases hdemands : demands lch with
    | nil =>
      rw [allocPdus, allocPdu_of_no_demand 0 hdemands]
      dsimp only
      exact ⟨by rw [pduSize, Nat.zero_add, FitWhole], allocated_nil lch, iff_of_true rfl rfl⟩
    | cons d ds =>
      obtain ⟨lch', lcid, heq, hne, hserved, hwhole⟩ := allocPdu_of_demands hrem 0 hdemands
      rw [Nat.zero_add] at heq
      rw [allocPdus, heq]
      dsimp only
      have hmin : 0 < min d remTbs := by omega
      have htwo := two_le_sizeHeaderSdu d
      by_cases hmore : remTbs - (min d remTbs + header) ≥ minDataTbs
      · -- the buffer was taken whole
        have hle : d ≤ remTbs := by
          unfold minDataTbs at hmore
          omega
        rw [Nat.min_eq_left hle] at hserved hmore hmin ⊢
        rw [if_pos hmore]
        unfold minDataTbs at hmore
        have hrounds' : remTbs - (d + header) < rounds := by omega
        obtain ⟨hfit, halloc, hnil⟩ :=
          @ih _ lch' hrounds' (by omega) (extra + sizeHeaderSdu d - header)
        rw [hwhole hle] at hfit hnil
        refine ⟨?_, hserved.allocated halloc, iff_of_false (by simp) (by simp)⟩
        dsimp only
        rw [pduSize, FitWhole]
        by_cases hds : ds = []
        · rw [if_pos (hnil.2 hds), hnil.2 hds, pduSize]
          constructor
          · intro h
            exact ⟨by omega, fun h' => absurd hds h'.1⟩
          · rintro ⟨h, -⟩
            omega
        · rw [if_neg (mt hnil.1 hds)]
          constructor
          · intro h
            exact ⟨by omega, fun _ => hfit.1 (by omega)⟩
          · rintro ⟨-, h⟩
            have hsize := hfit.2 (h ⟨hds, hmore⟩)
            omega
      · -- the last SDU, which may be a part of the buffer
        rw [if_neg hmore]
        refine ⟨?_, hserved.allocated (allocated_nil _), iff_of_false (by simp) (by simp)⟩
        dsimp only
        rw [pduSize, if_pos rfl, pduSize, FitWhole]
        by_cases hle : d ≤ remTbs
        · rw [Nat.min_eq_left hle] at hmore ⊢
          constructor
          · intro h
            exact ⟨by omega, fun h' => absurd h'.2 hmore⟩
          · rintro ⟨h, -⟩
            omega
        · rw [Nat.min_eq_right (Nat.le_of_not_le hle)]
          constructor
          · intro h
            omega
          · rintro ⟨h, -⟩
            omega

theorem contentSound_iff {lch' : List DlBearer} {pdu : List DlSchedPdu} {tbs : ℕ}
    (h : Allocated lch lch' pdu) : ContentSound lch lch' tbs pdu ↔ pduSize pdu ≤ tbs :=
  ⟨ContentSound.fits, fun hfits => ⟨hfits, fun lcid => Nat.le.intro
    ((Nat.add_comm _ _).trans (h.decremented lcid)), h.decremented, h.retained⟩⟩

theorem contentSound_nil (lch : List DlBearer) (tbs : ℕ) : ContentSound lch lch tbs [] :=
  (contentSound_iff (allocated_nil lch)).2 (Nat.zero_le _)

theorem taCmds_spec (nofTaCmd remTbs : ℕ) :
    2 * (taCmds nofTaCmd remTbs).1 + (taCmds nofTaCmd remTbs).2 = remTbs ∧
      (0 < remTbs → 0 < (taCmds nofTaCmd remTbs).2) := by
  induction nofTaCmd generalizing remTbs with
  | zero => exact ⟨Nat.zero_add _, id⟩
  | succ n ih =>
    rw [taCmds]
    by_cases hroom : remTbs > 2
    · rw [if_pos hroom]
      obtain ⟨hsum, hpos⟩ := ih (remTbs - 2)
      exact ⟨by dsimp only; omega, fun _ => hpos (by omega)⟩
    · rw [if_neg hroom]
      exact ⟨Nat.zero_add _, id⟩

theorem pduSize_taCmds (cmds : ℕ) (pdu : List DlSchedPdu) :
    pduSize (List.replicate cmds .taCmd ++ pdu) = 2 * cmds + pduSize pdu := by
  induction cmds with
  | zero => rw [List.replicate_zero, List.nil_append, Nat.mul_zero, Nat.zero_add]
  | succ n ih =>
    rw [List.replicate_succ, List.cons_append, pduSize, ih]
    omega

theorem scheduledBytes_taCmds (cmds : ℕ) (pdu : List DlSchedPdu) (lcid : ℕ) :
    scheduledBytes (List.replicate cmds .taCmd ++ pdu) lcid = scheduledBytes pdu lcid := by
  simp [scheduledBytes]

theorem generateFormat1_sound_iff (u : SchedUeDl) (allocTbs : ℕ → ℕ) (retxTbs : Option ℕ) :
    u.Format1Sound allocTbs retxTbs ↔ u.FitsFormat1 allocTbs retxTbs := by
  unfold Format1Sound FitsFormat1 generateFormat1
  cases retxTbs with
  | some tbs => exact iff_of_true (contentSound_nil _ _) nofun
  | none =>
    dsimp only
    generalize allocTbs u.getPendingDlNewDataTotal = tbs
    by_cases hmin : tbs < minDataTbs
    · rw [if_pos hmin]
      exact iff_of_true (contentSound_nil _ _) fun _ h => absurd hmin (Nat.not_lt.2 h)
    rw [if_neg hmin]
    have hle : minDataTbs ≤ tbs := Nat.not_lt.1 hmin
    have htbs : 0 < tbs := Nat.lt_of_lt_of_le (by decide) hle
    rw [forall_prop_of_true rfl, forall_prop_of_true hle]
    unfold fillFormat1
    by_cases hconres : u.isConresCePending = true
    · rw [if_pos hconres, if_pos hconres]
      obtain ⟨hfit, halloc, -⟩ := @allocPdus_spec 2 tbs u.lch le_rfl _ (Nat.lt_add_one tbs) htbs
        (1 + 6)
      have halloc' : Allocated u.lch (allocPdus 2 (tbs + 1) tbs u.lch).1
          (.conRes :: (allocPdus 2 (tbs + 1) tbs u.lch).2) :=
        ⟨fun lcid => by simpa [scheduledBytes] using halloc.decremented lcid, halloc.retained⟩
      refine (contentSound_iff halloc').trans (Iff.trans ?_ hfit)
      rw [pduSize, Nat.add_comm]
    · rw [if_neg hconres, if_neg hconres]
      obtain ⟨hsum, hpos⟩ := taCmds_spec u.nofTaCmd tbs
      dsimp only
      generalize (taCmds u.nofTaCmd tbs).1 = cmds at hsum ⊢
      generalize (taCmds u.nofTaCmd tbs).2 = remTbs at hsum hpos ⊢
      obtain ⟨hfit, halloc, -⟩ := @allocPdus_spec 2 remTbs u.lch le_rfl _ (Nat.lt_add_one remTbs)
        (hpos htbs) 0
      have halloc' : Allocated u.lch (allocPdus 2 (remTbs + 1) remTbs u.lch).1
          (List.replicate cmds .taCmd ++ (allocPdus 2 (remTbs + 1) remTbs u.lch).2) :=
        ⟨fun lcid => by rw [scheduledBytes_taCmds]; exact halloc.decremented lcid,
          halloc.retained⟩
      refine (contentSound_iff halloc').trans (Iff.trans ?_ hfit)
      rw [pduSize_taCmds]
      omega

theorem generateTb_sound_iff (u : SchedUeDl) (allocTbs : ℕ → ℕ) (tb : ℕ) (tbEn noRetx : Bool)
    (retxTbs : Option ℕ) :
    ContentSound u.lch (u.generateTb allocTbs tb tbEn noRetx retxTbs).1.lch
        (u.generateTb allocTbs tb tbEn noRetx retxTbs).2.1
        (u.generateTb allocTbs tb tbEn noRetx retxTbs).2.2 ↔
      u.FitsTb allocTbs tbEn noRetx retxTbs := by
  unfold FitsTb generateTb
  cases retxTbs with
  | some tbs => exact iff_of_true (contentSound_nil _ _) nofun
  | none =>
    dsimp only
    by_cases hnew : tbEn = true ∧ u.getPendingDlNewDataTotal > 0 ∧ noRetx = true
    · rw [if_pos hnew, forall_prop_of_true rfl, forall_prop_of_true hnew]
      generalize allocTbs u.getPendingDlNewDataTotal = tbs
      unfold fillFormat2a
      dsimp only
      by_cases htbs : 0 < tbs
      · obtain ⟨hfit, halloc, -⟩ := @allocPdus_spec 0 tbs u.lch (Nat.zero_le 2) _
          (Nat.lt_add_one tbs) htbs 0
        rw [forall_prop_of_true htbs]
        exact (contentSound_iff halloc).trans hfit
      · obtain rfl : tbs = 0 := Nat.eq_zero_of_not_pos htbs
        rw [allocPdus, allocPdu_zero]
        exact iff_of_true (contentSound_nil _ _) fun h => absurd h htbs
    · rw [if_neg hnew]
      exact iff_of_true (contentSound_nil _ _) fun _ h => absurd h hnew

def sending (lch : List DlBearer) (conresCePending : Bool) : SchedUeDl :=
  ⟨lch, 0, conresCePending, true⟩

end SchedUeDl

end SrsLte
