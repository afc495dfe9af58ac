import Mathlib.Data.Fin.Tuple.Basic
import SrsLte.EventRun
import SrsLte.LengthIndicators

/-!
# Sequence numbers of the HSS

Authentication vectors and resynchronisation of `hss`. A sequence number is six bytes with a part
SEQ and an index IND of five bits. The functions of MILENAGE and the key derivation are parameters;
random numbers come with the calls. Subscribers are those of the database, by their IMSI.
-/

namespace SrsLte

abbrev Octets (n : ℕ) := Fin n → UInt8

abbrev Sqn := Octets 6

namespace Sqn

/-- `LTE_FDD_ENB_IND_HE_N_BITS`. -/
def indBits : ℕ := 5

/-- `LTE_FDD_ENB_IND_HE_MASK`. -/
def indMask : ℕ := 0x1F

/-- `LTE_FDD_ENB_IND_HE_MAX_VALUE`. -/
def indMaxValue : ℕ := 31

/-- `LTE_FDD_ENB_SEQ_HE_MAX_VALUE`. -/
def seqMaxValue : ℕ := 0x07FFFFFFFFFF

def toSqn64 (sqn : Sqn) : ℕ :=
  (List.finRange 6).foldl (fun sqn64 i => sqn64 ||| (sqn i).toNat <<< ((5 - i.val) * 8)) 0

def ofSqn64 (sqn64 : ℕ) : Sqn := fun i => UInt8.ofNat (sqn64 >>> ((5 - i.val) * 8) &&& 0xFF)

def seq (sqn : Sqn) : ℕ := sqn.toSqn64 >>> indBits

def ind (sqn : Sqn) : ℕ := sqn.toSqn64 &&& indMask

/-- `increment_sqn`. -/
def increment (sqn : Sqn) : Sqn :=
  let nextseq := (sqn.seq + 1) % seqMaxValue
  let nextind := (sqn.ind + 1) % indMaxValue
  ofSqn64 (nextseq <<< indBits ||| nextind)

/-- The new value of `increment_seq_after_resync`. -/
def incrementSeq (sqn : Sqn) : Sqn :=
  let nextseq := (sqn.seq + 1) % seqMaxValue
  ofSqn64 (nextseq <<< indBits ||| sqn.ind)

theorem toSqn64_eq (sqn : Sqn) :
    sqn.toSqn64 = (sqn 0).toNat * 2 ^ 40 + (sqn 1).toNat * 2 ^ 32 + (sqn 2).toNat * 2 ^ 24 +
      (sqn 3).toNat * 2 ^ 16 + (sqn 4).toNat * 2 ^ 8 + (sqn 5).toNat := by
  have h := fun i => (sqn i).toNat_lt
  have h0 := h 0
  have h1 := h 1
  have h2 := h 2
  have h3 := h 3
  have h4 := h 4
  have h5 := h 5
  have hloop : sqn.toSqn64 = (sqn 0).toNat <<< 40 ||| ((sqn 1).toNat <<< 32 |||
      ((sqn 2).toNat <<< 24 ||| ((sqn 3).toNat <<< 16 ||| ((sqn 4).toNat <<< 8 |||
        (sqn 5).toNat)))) := by
    have hrange : List.finRange 6 = [0, 1, 2, 3, 4, 5] := rfl
    unfold toSqn64
    rw [hrange]
    change (((((0 ||| (sqn 0).toNat <<< 40) ||| (sqn 1).toNat <<< 32) ||| (sqn 2).toNat <<< 24) |||
      (sqn 3).toNat <<< 16) ||| (sqn 4).toNat <<< 8) ||| (sqn 5).toNat = _
    simp only [Nat.zero_or, Nat.or_assoc]
  rw [hloop, LengthIndicators.or_high (show (sqn 5).toNat < 2 ^ 8 from h5),
    LengthIndicators.or_high (show _ < 2 ^ 16 by omega),
    LengthIndicators.or_high (show _ < 2 ^ 24 by omega),
    LengthIndicators.or_high (show _ < 2 ^ 32 by omega),
    LengthIndicators.or_high (show _ < 2 ^ 40 by omega)]
  omega

theorem toSqn64_lt (sqn : Sqn) : sqn.toSqn64 < 2 ^ 48 := by
  have h0 := (sqn 0).toNat_lt
  have h1 := (sqn 1).toNat_lt
  have h2 := (sqn 2).toNat_lt
  have h3 := (sqn 3).toNat_lt
  have h4 := (sqn 4).toNat_lt
  have h5 := (sqn 5).toNat_lt
  rw [toSqn64_eq]
  omega

theorem toNat_ofSqn64 (n : ℕ) (i : Fin 6) :
    (ofSqn64 n i).toNat = n / 2 ^ ((5 - i.val) * 8) % 256 := by
  unfold ofSqn64
  rw [LengthIndicators.toNat_third, Nat.shiftRight_eq_div_pow]

theorem toSqn64_ofSqn64 {n : ℕ} (h : n < 2 ^ 48) : (ofSqn64 n).toSqn64 = n := by
  rw [toSqn64_eq]
  simp only [toNat_ofSqn64]
  change n / 2 ^ 40 % 256 * 2 ^ 40 + n / 2 ^ 32 % 256 * 2 ^ 32 + n / 2 ^ 24 % 256 * 2 ^ 24 +
    n / 2 ^ 16 % 256 * 2 ^ 16 + n / 2 ^ 8 % 256 * 2 ^ 8 + n / 2 ^ 0 % 256 = n
  omega

theorem seq_eq (sqn : Sqn) : sqn.seq = sqn.toSqn64 / 32 := Nat.shiftRight_eq_div_pow _ 5

theorem ind_lt (sqn : Sqn) : sqn.ind < 32 := by
  have hmask : sqn.ind = sqn.toSqn64 % 32 := LengthIndicators.and_low _ 5
  rw [hmask]
  exact Nat.mod_lt _ (by decide)

theorem seq_ofSqn64 {seq ind : ℕ} (hseq : seq < seqMaxValue) (hind : ind < 32) :
    (ofSqn64 (seq <<< indBits ||| ind)).seq = seq := by
  have hsum : seq <<< indBits ||| ind = seq * 32 + ind :=
    LengthIndicators.or_high (show ind < 2 ^ 5 from hind) seq
  unfold seqMaxValue at hseq
  rw [hsum, seq_eq, toSqn64_ofSqn64 (by omega)]
  omega

theorem seq_increment (sqn : Sqn) : sqn.increment.seq = (sqn.seq + 1) % seqMaxValue := by
  have hind : (sqn.ind + 1) % indMaxValue < 31 := Nat.mod_lt _ (by decide)
  exact seq_ofSqn64 (Nat.mod_lt _ (by decide)) (by omega)

theorem seq_incrementSeq (sqn : Sqn) : sqn.incrementSeq.seq = (sqn.seq + 1) % seqMaxValue :=
  seq_ofSqn64 (Nat.mod_lt _ (by decide)) (ind_lt sqn)

theorem seq_lt_mod_iff (sqn : Sqn) :
    sqn.seq < (sqn.seq + 1) % seqMaxValue ↔ sqn.seq + 1 < seqMaxValue := by
  have hlt := toSqn64_lt sqn
  rw [seq_eq]
  unfold seqMaxValue
  omega

theorem incrementSeq_ne (sqn : Sqn) : sqn.incrementSeq ≠ sqn := by
  intro heq
  have hseq := congrArg seq heq
  have hlt := toSqn64_lt sqn
  rw [seq_incrementSeq, seq_eq] at hseq
  unfold seqMaxValue at hseq
  omega

end Sqn

inductive HssAuthAlgo
  | xor
  | milenage
  deriving DecidableEq

/-- `hss_ue_ctx_t`. -/
structure HssUeCtx where
  algo : HssAuthAlgo
  key : Octets 16
  opc : Octets 16
  amf : Octets 2
  sqn : Sqn
  lastRand : Octets 16

/-- The functions `security_milenage_f1`, `f2345`, `f1_star`, `f5_star` and
`security_generate_k_asme`. -/
structure HssSecurity where
  f1 : Octets 16 → Octets 16 → Octets 16 → Sqn → Octets 2 → Octets 8
  f2345 : Octets 16 → Octets 16 → Octets 16 → Bytes × Octets 16 × Octets 16 × Octets 6
  f1Star : Octets 16 → Octets 16 → Octets 16 → Sqn → Octets 2 → Octets 8
  f5Star : Octets 16 → Octets 16 → Octets 16 → Octets 6
  kAsme : Octets 16 → Octets 16 → Octets 6 → Sqn → Bytes

structure HssAuthVector where
  rand : Octets 16
  xres : Bytes
  autn : Octets 16
  kAsme : Bytes

def Octets.xor {n : ℕ} (a b : Octets n) : Octets n := fun i => a i ^^^ b i

theorem Octets.xor_xor_cancel {n : ℕ} (a b : Octets n) : (a.xor b).xor b = a := by
  funext i
  simp [Octets.xor, UInt8.xor_assoc]

/-- "autn = sqn ^ ak |+| amf |+| mac". -/
def autn (sqn : Sqn) (ak : Octets 6) (amf : Octets 2) (mac : Octets 8) : Octets 16 :=
  Fin.append (Fin.append (Octets.xor sqn ak) amf) mac

structure Hss where
  ueCtx : ℕ → Option HssUeCtx

namespace HssUeCtx

variable (sec : HssSecurity)

/-- `RES`, `CK`, `IK` and `AK` from `RAND` and `K` in `gen_auth_info_answer_xor`. -/
def xorKeys (ctx : HssUeCtx) (rand : Octets 16) :
    Octets 16 × Bytes × Octets 16 × Octets 16 × Octets 6 :=
  let xdout := ctx.key.xor rand
  (xdout, List.ofFn xdout, fun i => xdout (i + 1), fun i => xdout (i + 2),
    fun i => xdout (Fin.castLE (by decide) i + 3))

/-- `gen_auth_info_answer_xor`. -/
def genAuthInfoAnswerXor (ctx : HssUeCtx) (rand : Octets 16) : HssAuthVector :=
  let (xdout, xres, ck, ik, ak) := ctx.xorKeys rand
  let cdout : Octets 8 := Fin.append ctx.sqn ctx.amf
  let mac := Octets.xor (fun i => xdout (Fin.castLE (by decide) i)) cdout
  { rand := rand
    xres := xres
    autn := SrsLte.autn ctx.sqn ak ctx.amf mac
    kAsme := sec.kAsme ck ik ak ctx.sqn }

/-- `gen_auth_info_answer_milenage`. -/
def genAuthInfoAnswerMilenage (ctx : HssUeCtx) (rand : Octets 16) : HssAuthVector :=
  let (xres, ck, ik, ak) := sec.f2345 ctx.key ctx.opc rand
  let mac := sec.f1 ctx.key ctx.opc rand ctx.sqn ctx.amf
  { rand := rand
    xres := xres
    autn := SrsLte.autn ctx.sqn ak ctx.amf mac
    kAsme := sec.kAsme ck ik ak ctx.sqn }

def genVector (ctx : HssUeCtx) (rand : Octets 16) : HssAuthVector :=
  match ctx.algo with
  | .xor => ctx.genAuthInfoAnswerXor sec rand
  | .milenage => ctx.genAuthInfoAnswerMilenage sec rand

def ak (ctx : HssUeCtx) (rand : Octets 16) : Octets 6 :=
  match ctx.algo with
  | .xor => (ctx.xorKeys rand).2.2.2.2
  | .milenage => (sec.f2345 ctx.key ctx.opc rand).2.2.2

/-- The sequence number in a vector, as the UE recovers it from `AUTN`. -/
def vectorSqn (ctx : HssUeCtx) (v : HssAuthVector) : Sqn :=
  Octets.xor (fun i => v.autn (Fin.castLE (by decide) i)) (ctx.ak sec v.rand)

/-- `sqn_ms` in `resync_sqn_milenage`. -/
def sqnMs (ctx : HssUeCtx) (auts : Octets 14) : Sqn :=
  Octets.xor (fun i => auts (Fin.castLE (by decide) i))
    (sec.f5Star ctx.key ctx.opc ctx.lastRand)

/-- `mac_s`. -/
def macS (auts : Octets 14) : Octets 8 := fun i => auts (Fin.natAdd 6 i)

/-- `mac_s_tmp`: computed with an AMF of zeros. -/
def macSTmp (ctx : HssUeCtx) (auts : Octets 14) : Octets 8 :=
  sec.f1Star ctx.key ctx.opc ctx.lastRand (ctx.sqnMs sec auts) fun _ => 0

end HssUeCtx

namespace Hss

variable (sec : HssSecurity)

def setCtx (hss : Hss) (imsi : ℕ) (ctx : HssUeCtx) : Hss :=
  { hss with ueCtx := Function.update hss.ueCtx imsi (some ctx) }

theorem setCtx_self (hss : Hss) (imsi : ℕ) (ctx : HssUeCtx) :
    (hss.setCtx imsi ctx).ueCtx imsi = some ctx := Function.update_self _ _ _

theorem setCtx_of_ne (hss : Hss) {imsi i : ℕ} (ctx : HssUeCtx) (hi : i ≠ imsi) :
    (hss.setCtx imsi ctx).ueCtx i = hss.ueCtx i := Function.update_of_ne hi _ _

/-- `gen_auth_info_answer`, with the random number that `gen_rand` gives. -/
def genAuthInfoAnswer (hss : Hss) (imsi : ℕ) (rand : Octets 16) : Hss × Option HssAuthVector :=
  match hss.ueCtx imsi with
  | none => (hss, none)
  | some ctx =>
    (hss.setCtx imsi { ctx with lastRand := rand, sqn := ctx.sqn.increment },
      some (ctx.genVector sec rand))

/-- `resync_sqn`. What `resync_sqn_milenage` computes for MAC-S goes to the log only. -/
def resyncSqn (hss : Hss) (imsi : ℕ) (auts : Octets 14) : Hss × Bool :=
  match hss.ueCtx imsi with
  | none => (hss, false)
  | some ctx =>
    let (ctx, ret) :=
      match ctx.algo with
      | .xor => (ctx, false)
      | .milenage => ({ ctx with sqn := ctx.sqnMs sec auts }, true)
    (hss.setCtx imsi { ctx with sqn := ctx.sqn.incrementSeq }, ret)

end Hss
end SrsLte

/-!
The vectors of a subscriber have increasing SEQ from one resynchronisation to the next, until the
SEQ range is exhausted. A resynchronisation does not check where AUTS comes from.
-/

namespace SrsLte

variable (sec : HssSecurity)

namespace HssUeCtx

variable {sec} {ctx : HssUeCtx}

theorem autn_low (sqn : Sqn) (ak : Octets 6) (amf : Octets 2) (mac : Octets 8) :
    (fun i : Fin 6 => autn sqn ak amf mac (Fin.castLE (by decide) i)) = Octets.xor sqn ak := by
  funext i
  have hcast : (Fin.castLE (by decide) i : Fin 16) = Fin.castAdd 8 (Fin.castAdd 2 i) := rfl
  unfold autn
  rw [hcast, Fin.append_left, Fin.append_left]

theorem vectorSqn_genVector (ctx : HssUeCtx) (rand : Octets 16) :
    ctx.vectorSqn sec (ctx.genVector sec rand) = ctx.sqn := by
  unfold vectorSqn genVector ak
  cases ctx.algo with
  | xor =>
    change Octets.xor (fun i => autn ctx.sqn (ctx.xorKeys rand).2.2.2.2 ctx.amf _ _) _ = _
    rw [autn_low]
    exact Octets.xor_xor_cancel _ _
  | milenage =>
    change Octets.xor
      (fun i => autn ctx.sqn (sec.f2345 ctx.key ctx.opc rand).2.2.2 ctx.amf _ _) _ = _
    rw [autn_low]
    exact Octets.xor_xor_cancel _ _

end HssUeCtx

inductive HssCall
  | genAuthInfoAnswer (imsi : ℕ) (rand : Octets 16)
  | resyncSqn (imsi : ℕ) (auts : Octets 14)

/-- The sequence number of a vector, or the `SQN_MS` of a successful resynchronisation. -/
structure HssRecord where
  imsi : ℕ
  resync : Bool
  sqn : Sqn

/-- The HSS with the records of the calls so far, the latest one first. -/
structure HssHistory where
  hss : Hss
  log : List HssRecord

namespace HssHistory

def step (h : HssHistory) : HssCall → HssHistory
  | .genAuthInfoAnswer imsi rand =>
    match h.hss.ueCtx imsi, h.hss.genAuthInfoAnswer sec imsi rand with
    | some ctx, (hss, some v) => ⟨hss, ⟨imsi, false, ctx.vectorSqn sec v⟩ :: h.log⟩
    | _, (hss, _) => ⟨hss, h.log⟩
  | .resyncSqn imsi auts =>
    match h.hss.ueCtx imsi, h.hss.resyncSqn sec imsi auts with
    | some ctx, (hss, true) => ⟨hss, ⟨imsi, true, ctx.sqnMs sec auts⟩ :: h.log⟩
    | _, (hss, _) => ⟨hss, h.log⟩

def sinceResync (imsi : ℕ) : List HssRecord → List HssRecord
  | [] => []
  | r :: older =>
    if r.imsi = imsi then r :: if r.resync then [] else sinceResync imsi older
    else sinceResync imsi older

/-- Each vector has a greater SEQ than the vectors of its subscriber since the last successful
resynchronisation, and than the `SQN_MS` of that one. -/
def Increasing : List HssRecord → Prop
  | [] => True
  | v :: older =>
    (v.resync = false → ∀ r ∈ sinceResync v.imsi older, r.sqn.seq < v.sqn.seq) ∧ Increasing older

def NotExhausted (h : HssHistory) : HssCall → Prop
  | .genAuthInfoAnswer imsi _ => ∀ ctx, h.hss.ueCtx imsi = some ctx →
      ctx.sqn.seq + 1 < Sqn.seqMaxValue
  | .resyncSqn imsi auts => ∀ ctx, h.hss.ueCtx imsi = some ctx →
      (match ctx.algo with
        | .xor => ctx.sqn
        | .milenage => ctx.sqnMs sec auts).seq + 1 < Sqn.seqMaxValue

/-- A resynchronisation that succeeds has checked MAC-S, and the next vector has a greater SEQ than
`SQN_MS`; one that fails leaves the subscribers as they are. -/
def ResyncSound (h : HssHistory) : HssCall → Prop
  | .genAuthInfoAnswer _ _ => True
  | .resyncSqn imsi auts =>
    ((h.hss.resyncSqn sec imsi auts).2 = true → ∃ ctx, h.hss.ueCtx imsi = some ctx ∧
      HssUeCtx.macS auts = ctx.macSTmp sec auts ∧
      ∀ rand, ∃ v, ((h.hss.resyncSqn sec imsi auts).1.genAuthInfoAnswer sec imsi rand).2 = some v ∧
        (ctx.sqnMs sec auts).seq < (ctx.vectorSqn sec v).seq) ∧
    ((h.hss.resyncSqn sec imsi auts).2 = false → (h.hss.resyncSqn sec imsi auts).1 = h.hss)

/-- Resynchronisations are for subscribers with MILENAGE, with the MAC-S of the subscriber and a
SEQ that is not the last one. -/
def Authentic (h : HssHistory) : HssCall → Prop
  | .genAuthInfoAnswer _ _ => True
  | .resyncSqn imsi auts => ∀ ctx, h.hss.ueCtx imsi = some ctx →
      ctx.algo = .milenage ∧ HssUeCtx.macS auts = ctx.macSTmp sec auts ∧
        (ctx.sqnMs sec auts).seq + 1 < Sqn.seqMaxValue

variable {sec} {h : HssHistory}

variable {imsi : ℕ} {ctx ctx' : HssUeCtx}

section

variable (hctx : h.hss.ueCtx imsi = some ctx)
include hctx

theorem step_genAuthInfoAnswer (rand : Octets 16) : h.step sec (.genAuthInfoAnswer imsi rand) =
      ⟨h.hss.setCtx imsi { ctx with lastRand := rand, sqn := ctx.sqn.increment },
        ⟨imsi, false, ctx.sqn⟩ :: h.log⟩ := by
  unfold step Hss.genAuthInfoAnswer
  simp only [hctx, HssUeCtx.vectorSqn_genVector]

theorem resyncSqn_xor (halgo : ctx.algo = .xor) (auts : Octets 14) : h.hss.resyncSqn sec imsi auts =
      (h.hss.setCtx imsi { ctx with sqn := ctx.sqn.incrementSeq }, false) := by
  obtain ⟨algo, key, opc, amf, sqn, lastRand⟩ := ctx
  subst halgo
  unfold Hss.resyncSqn
  rw [hctx]

theorem resyncSqn_milenage
    (halgo : ctx.algo = .milenage) (auts : Octets 14) : h.hss.resyncSqn sec imsi auts =
      (h.hss.setCtx imsi { ctx with sqn := (ctx.sqnMs sec auts).incrementSeq }, true) := by
  obtain ⟨algo, key, opc, amf, sqn, lastRand⟩ := ctx
  subst halgo
  unfold Hss.resyncSqn
  rw [hctx]

theorem step_resyncSqn_xor
    (halgo : ctx.algo = .xor) (auts : Octets 14) : h.step sec (.resyncSqn imsi auts) =
      ⟨h.hss.setCtx imsi { ctx with sqn := ctx.sqn.incrementSeq }, h.log⟩ := by
  simp only [step, hctx, resyncSqn_xor hctx halgo]

theorem step_resyncSqn_milenage
    (halgo : ctx.algo = .milenage) (auts : Octets 14) : h.step sec (.resyncSqn imsi auts) =
      ⟨h.hss.setCtx imsi { ctx with sqn := (ctx.sqnMs sec auts).incrementSeq },
        ⟨imsi, true, ctx.sqnMs sec auts⟩ :: h.log⟩ := by
  simp only [step, hctx, resyncSqn_milenage hctx halgo]

end

theorem step_none {call : HssCall} (hctx : h.hss.ueCtx imsi = none)
    (hcall : (∃ rand, call = .genAuthInfoAnswer imsi rand) ∨ ∃ auts, call = .resyncSqn imsi auts) :
    h.step sec call = h := by
  rcases hcall with ⟨rand, rfl⟩ | ⟨auts, rfl⟩
  · simp [step, hctx, Hss.genAuthInfoAnswer]
  · simp [step, hctx, Hss.resyncSqn]

/-- The records since the last resynchronisation are below what is stored. -/
structure Settled (h : HssHistory) : Prop where
  increasing : Increasing h.log
  below : ∀ imsi, ∀ r ∈ sinceResync imsi h.log,
    ∃ ctx, h.hss.ueCtx imsi = some ctx ∧ r.sqn.seq < ctx.sqn.seq

theorem Settled.update (hs : Settled h)
    (hctx : h.hss.ueCtx imsi = some ctx) (hseq : ctx.sqn.seq < ctx'.sqn.seq) :
    ∀ i, ∀ r ∈ sinceResync i h.log,
      ∃ c, (h.hss.setCtx imsi ctx').ueCtx i = some c ∧ r.sqn.seq < c.sqn.seq := by
  intro i r hr
  obtain ⟨c, hc, hlt⟩ := hs.below i r hr
  by_cases hi : i = imsi
  · subst hi
    obtain rfl : ctx = c := Option.some.inj (hctx.symm.trans hc)
    exact ⟨ctx', Hss.setCtx_self _ _ _, hlt.trans hseq⟩
  · exact ⟨c, (Hss.setCtx_of_ne _ _ hi).trans hc, hlt⟩

theorem seq_lt_increment {sqn : Sqn} (h : sqn.seq + 1 < Sqn.seqMaxValue) :
    sqn.seq < sqn.increment.seq := by
  rw [Sqn.seq_increment]
  exact (Sqn.seq_lt_mod_iff sqn).mpr h

theorem seq_lt_incrementSeq {sqn : Sqn} (h : sqn.seq + 1 < Sqn.seqMaxValue) :
    sqn.seq < sqn.incrementSeq.seq := by
  rw [Sqn.seq_incrementSeq]
  exact (Sqn.seq_lt_mod_iff sqn).mpr h

theorem sinceResync_vector (imsi i : ℕ) (sqn : Sqn) (log : List HssRecord) {r : HssRecord}
    (hr : r ∈ sinceResync i (⟨imsi, false, sqn⟩ :: log)) :
    (imsi = i ∧ r = ⟨imsi, false, sqn⟩) ∨ r ∈ sinceResync i log := by
  rw [sinceResync] at hr
  by_cases hi : imsi = i
  · rw [if_pos hi, if_neg Bool.false_ne_true] at hr
    exact (List.mem_cons.mp hr).imp_left fun hr => ⟨hi, hr⟩
  · rw [if_neg hi] at hr
    exact Or.inr hr

theorem sinceResync_resync (imsi i : ℕ) (sqn : Sqn) (log : List HssRecord) {r : HssRecord}
    (hr : r ∈ sinceResync i (⟨imsi, true, sqn⟩ :: log)) :
    (imsi = i ∧ r = ⟨imsi, true, sqn⟩) ∨ (imsi ≠ i ∧ r ∈ sinceResync i log) := by
  rw [sinceResync] at hr
  by_cases hi : imsi = i
  · rw [if_pos hi, if_pos rfl] at hr
    exact Or.inl ⟨hi, List.mem_singleton.mp hr⟩
  · rw [if_neg hi] at hr
    exact Or.inr ⟨hi, hr⟩

theorem Settled.vector (hs : Settled h)
    (hctx : h.hss.ueCtx imsi = some ctx) (hseq : ctx.sqn.seq < ctx'.sqn.seq) :
    Settled ⟨h.hss.setCtx imsi ctx', ⟨imsi, false, ctx.sqn⟩ :: h.log⟩ where
  increasing := by
    refine ⟨fun _ r hr => ?_, hs.increasing⟩
    obtain ⟨c, hc, hrc⟩ := hs.below imsi r hr
    rwa [Option.some.inj (hctx.symm.trans hc)]
  below := fun i r hr => by
    rcases sinceResync_vector imsi i ctx.sqn h.log hr with ⟨rfl, rfl⟩ | hr
    · exact ⟨ctx', Hss.setCtx_self _ _ _, hseq⟩
    · exact hs.update hctx hseq i r hr

theorem Settled.resync (hs : Settled h) {sqnMs : Sqn} (hseq : sqnMs.seq < ctx'.sqn.seq) :
    Settled ⟨h.hss.setCtx imsi ctx', ⟨imsi, true, sqnMs⟩ :: h.log⟩ where
  increasing := ⟨fun hfalse => absurd hfalse (by simp), hs.increasing⟩
  below := fun i r hr => by
    rcases sinceResync_resync imsi i sqnMs h.log hr with ⟨rfl, rfl⟩ | ⟨hi, hr⟩
    · exact ⟨ctx', Hss.setCtx_self _ _ _, hseq⟩
    · obtain ⟨c, hc, hlt⟩ := hs.below i r hr
      exact ⟨c, (Hss.setCtx_of_ne _ _ (Ne.symm hi)).trans hc, hlt⟩

theorem Settled.step (hs : Settled h) {call : HssCall} (hcall : h.NotExhausted sec call) :
    Settled (h.step sec call) := by
  cases call with
  | genAuthInfoAnswer imsi rand =>
    cases hctx : h.hss.ueCtx imsi with
    | none => rwa [step_none hctx (Or.inl ⟨rand, rfl⟩)]
    | some ctx =>
      rw [step_genAuthInfoAnswer hctx]
      exact hs.vector hctx (seq_lt_increment (hcall ctx hctx))
  | resyncSqn imsi auts =>
    cases hctx : h.hss.ueCtx imsi with
    | none => rwa [step_none hctx (Or.inr ⟨auts, rfl⟩)]
    | some ctx =>
      have hseq := hcall ctx hctx
      cases halgo : ctx.algo with
      | xor =>
        rw [halgo] at hseq
        rw [step_resyncSqn_xor hctx halgo]
        exact ⟨hs.increasing, hs.update hctx (seq_lt_incrementSeq hseq)⟩
      | milenage =>
        rw [halgo] at hseq
        rw [step_resyncSqn_milenage hctx halgo]
        exact hs.resync (seq_lt_incrementSeq hseq)

theorem increasing_run {calls : List HssCall} (hs : Settled h)
    (hcalls : EventRun.Along (step sec) (NotExhausted sec) h calls) :
    Increasing (calls.foldl (step sec) h).log := by
  refine (EventRun.Along.invariant (I := Settled) ?_ hs hcalls).increasing
  exact fun _ _ hs hcall => hs.step hcall

theorem setCtx_ne {hss : Hss} (hctx : hss.ueCtx imsi = some ctx)
    (hne : ctx'.sqn ≠ ctx.sqn) : hss.setCtx imsi ctx' ≠ hss := by
  intro heq
  have hself := hss.setCtx_self imsi ctx'
  rw [heq, hctx] at hself
  exact hne (congrArg HssUeCtx.sqn (Option.some.inj hself)).symm

theorem vector_after (sec : HssSecurity) (hss : Hss) (imsi : ℕ) (ctx : HssUeCtx) (sqn : Sqn)
    (rand : Octets 16) :
    ∃ v, ((hss.setCtx imsi { ctx with sqn := sqn }).genAuthInfoAnswer sec imsi rand).2 = some v ∧
      ctx.vectorSqn sec v = sqn := by
  refine ⟨HssUeCtx.genVector sec { ctx with sqn := sqn } rand, ?_, ?_⟩
  · unfold Hss.genAuthInfoAnswer
    rw [Hss.setCtx_self]
  · exact HssUeCtx.vectorSqn_genVector { ctx with sqn := sqn } rand

theorem resyncSound_iff (h : HssHistory) (call : HssCall) :
    h.ResyncSound sec call ↔ h.Authentic sec call := by
  cases call with
  | genAuthInfoAnswer imsi rand => exact Iff.rfl
  | resyncSqn imsi auts =>
    unfold ResyncSound Authentic
    dsimp only
    cases hctx : h.hss.ueCtx imsi with
    | none => simp [Hss.resyncSqn, hctx]
    | some ctx =>
      cases halgo : ctx.algo with
      | xor =>
        rw [resyncSqn_xor hctx halgo]
        -- the call fails, and the stored number changes nevertheless
        refine ⟨fun hsound => ?_, fun hauth => ?_⟩
        · exact absurd (hsound.2 rfl) (setCtx_ne hctx (Sqn.incrementSeq_ne ctx.sqn))
        · exact absurd ((hauth ctx rfl).1) (by simp [halgo])
      | milenage =>
        rw [resyncSqn_milenage hctx halgo]
        have hseq := Sqn.seq_lt_mod_iff (ctx.sqnMs sec auts)
        rw [← Sqn.seq_incrementSeq] at hseq
        have hafter := vector_after sec h.hss imsi ctx (ctx.sqnMs sec auts).incrementSeq
        constructor
        · rintro ⟨hsucceeds, -⟩ c hc
          obtain ⟨c', hc', hmac, hvector⟩ := hsucceeds rfl
          obtain rfl : ctx = c := Option.some.inj hc
          obtain rfl : ctx = c' := Option.some.inj hc'
          obtain ⟨v, hv, hlt⟩ := hvector fun _ => 0
          obtain ⟨v', hv', hsqn⟩ := hafter fun _ => 0
          obtain rfl : v = v' := Option.some.inj (hv.symm.trans hv')
          rw [hsqn] at hlt
          exact ⟨halgo, hmac, hseq.mp hlt⟩
        · intro hauth
          obtain ⟨-, hmac, hlt⟩ := hauth ctx rfl
          refine ⟨fun _ => ⟨ctx, rfl, hmac, fun rand => ?_⟩, fun hfalse => by cases hfalse⟩
          obtain ⟨v, hv, hsqn⟩ := hafter rand
          exact ⟨v, hv, by rw [hsqn]; exact hseq.mpr hlt⟩

/-- In every sequence of calls SEQ increases between resynchronisations, and these are sound exactly
when each of them is authentic. -/
theorem sequence_numbers_exact (hss : Hss) (calls : List HssCall) :
    ((EventRun.Along (step sec) (NotExhausted sec) ⟨hss, []⟩ calls →
        Increasing (calls.foldl (step sec) ⟨hss, []⟩).log) ∧
      EventRun.Along (step sec) (ResyncSound sec) ⟨hss, []⟩ calls) ↔
      EventRun.Along (step sec) (Authentic sec) ⟨hss, []⟩ calls := by
  have hstart : Settled ⟨hss, []⟩ := ⟨trivial, fun _ _ hr => absurd hr List.not_mem_nil⟩
  have hsound : EventRun.Along (step sec) (ResyncSound sec) ⟨hss, []⟩ calls ↔
      EventRun.Along (step sec) (Authentic sec) ⟨hss, []⟩ calls :=
    EventRun.along_congr (I := fun _ => True) (fun _ _ _ _ => trivial)
      (fun h call _ => resyncSound_iff h call) trivial
  rw [← hsound]
  exact and_iff_right fun hcalls => increasing_run hstart hcalls

def zeroSecurity : HssSecurity where
  f1 := fun _ _ _ _ _ _ => 0
  f2345 := fun _ _ _ => ([0, 0, 0, 0, 0, 0, 0, 0], fun _ => 0, fun _ => 0, fun _ => 0)
  f1Star := fun _ _ _ _ _ _ => 1
  f5Star := fun _ _ _ _ => 0
  kAsme := fun _ _ _ _ => []

def milenageHss : Hss where
  ueCtx := fun imsi =>
    if imsi = 1 then
      some
        { algo := .milenage
          key := fun _ => 0
          opc := fun _ => 0
          amf := fun _ => 0
          sqn := fun _ => 9
          lastRand := fun _ => 0 }
    else none

/-- The subscriber's sequence number is set from an AUTS of zeros, whose MAC-S is wrong. -/
theorem forged_auts_accepted :
    ¬ EventRun.Along (step zeroSecurity) (ResyncSound zeroSecurity) ⟨milenageHss, []⟩
      [.resyncSqn 1 fun _ => 0] := by
  rintro ⟨hsound, -⟩
  obtain ⟨ctx, -, hmac, -⟩ := hsound.1 rfl
  have hzero : (0 : UInt8) = 1 := congrFun hmac 0
  exact absurd hzero (by decide)

end HssHistory
end SrsLte
