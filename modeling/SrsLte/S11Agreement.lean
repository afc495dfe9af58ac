import SrsLte.S11

/-!
# Agreement on control TEIDs

As long as no request to create a session is sent after one that was lost, the MME and the SPGW
count alike, and each request of the MME reaches the session it is meant for.
-/

namespace SrsLte

open EventRun

def MmeGtpc.allocated (m : MmeGtpc) : ℕ := if m.nextCtrlTeid = 0 then 2 ^ 32 else m.nextCtrlTeid

namespace S11

variable {s : S11} {imsi : ℕ}

def pending (s : S11) : S11Registry := s.toSpgw.foldl S11Registry.step s.spgw.registry

theorem le_pending (s : S11) : s.spgw.nextCtrlTeid ≤ s.pending.next :=
  S11Registry.next_le_run s.spgw.registry s.toSpgw

structure CtxFits (s : S11) (imsi : ℕ) (ctx : GtpcCtx) : Prop where
  pos : 1 ≤ ctx.mmeCtrFteid.teid
  lt : ctx.mmeCtrFteid.teid < s.mme.allocated
  owner : ctx.mmeCtrFteid.teid < s.pending.next →
    s.pending.owner ctx.mmeCtrFteid.teid = some imsi
  answered : s.answered imsi = true → ctx.sgwCtrFteid.teid = ctx.mmeCtrFteid.teid ∧
    ctx.mmeCtrFteid.teid < s.spgw.nextCtrlTeid
  silent : s.answered imsi = false → ctx.sgwCtrFteid.teid = 0

structure Coupled (s : S11) : Prop where
  issued : Spgw.Issued s.spgw
  fits : Along S11Registry.step S11Registry.Fits s.spgw.registry s.toSpgw
  indexed : s.mme.Indexed
  below : s.mme.nextCtrlTeid < 2 ^ 32
  bound : s.pending.next ≤ s.mme.allocated
  even : s.lost = false → s.pending.next = s.mme.allocated
  ctx : ∀ imsi ctx, s.mme.imsiToGtpcCtx.find? imsi = some ctx → s.CtxFits imsi ctx
  responses : ∀ teid resp, .createSessionResponse teid resp ∈ s.toMme → teid < s.spgw.nextCtrlTeid

theorem Coupled.agree (h : Coupled s) : Agree s where
  stored := fun imsi ctx hctx hans => by
    have hfit := h.ctx imsi ctx hctx
    obtain ⟨heq, hlt⟩ := hfit.answered hans
    rw [heq, Spgw.storedUnder_iff h.issued.registered]
    refine S11Registry.owner_of_run hlt (hfit.owner ?_)
    exact hlt.trans_le s.le_pending
  reaches := fun r rest hq hans => by
    have hfits := h.fits
    rw [hq] at hfits
    have hr := hfits.1
    rw [Spgw.storedUnder_iff h.issued.registered]
    unfold S11Registry.Fits at hr
    split at hr
    · rw [hr.1] at hans
      cases hans
    · rwa [if_pos hans] at hr
  silent := fun r rest hq hans => by
    have hfits := h.fits
    rw [hq] at hfits
    have hr := hfits.1
    have hzero : r.pdu.teid = 0 := by
      unfold S11Registry.Fits at hr
      split at hr
      next heq =>
        rw [heq]
        rfl
      next => rwa [hans] at hr
    rw [hzero, ← Spgw.session_eq_none]
    cases hx : s.spgw.session 0 with
    | none => rfl
    | some x => exact absurd (h.issued.range 0 x hx).1 (by decide)

def Plain (pdu : GtpcPdu) : Prop := ∀ (R : S11Registry) i b, R.step ⟨i, b, pdu⟩ = R

theorem CtxFits.fits {ctx : GtpcCtx} (hfit : s.CtxFits imsi ctx) {pdu : GtpcPdu}
    (hcreate : ∀ i f, pdu ≠ .createSessionRequest i f) (hteid : pdu.teid = ctx.sgwCtrFteid.teid) :
    S11Registry.Fits s.pending ⟨imsi, s.answered imsi, pdu⟩ := by
  have hgoal : if s.answered imsi then s.pending.owner pdu.teid = some imsi else pdu.teid = 0 := by
    cases hans : s.answered imsi with
    | true =>
      obtain ⟨heq, hlt⟩ := hfit.answered hans
      rw [if_pos rfl, hteid, heq]
      exact hfit.owner (hlt.trans_le s.le_pending)
    | false =>
      rw [if_neg Bool.false_ne_true, hteid]
      exact hfit.silent hans
  cases pdu with
  | createSessionRequest i f => exact absurd rfl (hcreate i f)
  | _ => exact hgoal

theorem Coupled.enqueue (h : Coupled s) {ctx : GtpcCtx} {pdu : GtpcPdu} (hplain : Plain pdu)
    (hctx : s.mme.imsiToGtpcCtx.find? imsi = some ctx)
    (hcreate : ∀ i f, pdu ≠ .createSessionRequest i f) (hteid : pdu.teid = ctx.sgwCtrFteid.teid)
    (sent : Bool) : Coupled (s.enqueue imsi sent (some pdu)) := by
  unfold S11.enqueue
  split_ifs
  · have hpending :
        ({ s with toSpgw := s.toSpgw ++ [⟨imsi, s.answered imsi, pdu⟩] } : S11).pending =
        s.pending := by
      unfold pending
      rw [List.foldl_append]
      exact hplain _ _ _
    constructor
    · exact h.issued
    · exact along_append.mpr ⟨h.fits, (h.ctx imsi ctx hctx).fits hcreate hteid, trivial⟩
    · exact h.indexed
    · exact h.below
    · rw [hpending]
      exact h.bound
    · rw [hpending]
      exact h.even
    · intro i c hc
      have hfit := h.ctx i c hc
      exact ⟨hfit.pos, hfit.lt, by rw [hpending]; exact hfit.owner, hfit.answered, hfit.silent⟩
    · exact h.responses
  · exact h

theorem allocated_sendCreate (hbelow : s.mme.nextCtrlTeid < 2 ^ 32) (imsi : ℕ) :
    (s.mme.sendCreateSessionRequest imsi).1.allocated = s.mme.nextCtrlTeid + 1 := by
  unfold MmeGtpc.allocated
  change (if (s.mme.nextCtrlTeid + 1) % 2 ^ 32 = 0 then _
    else (s.mme.nextCtrlTeid + 1) % 2 ^ 32) = _
  split_ifs <;> omega

theorem Coupled.ctxCreate (h : Coupled s) (hzero : s.mme.nextCtrlTeid ≠ 0) {s' : S11}
    (hmme : s'.mme = (s.mme.sendCreateSessionRequest imsi).1) (hspgw : s'.spgw = s.spgw)
    (hanswered : s'.answered = Function.update s.answered imsi false)
    (hnew : s.mme.nextCtrlTeid < s'.pending.next →
      s'.pending.owner s.mme.nextCtrlTeid = some imsi)
    (hothers : ∀ i ctx, i ≠ imsi → s.mme.imsiToGtpcCtx.find? i = some ctx →
      ctx.mmeCtrFteid.teid < s'.pending.next →
        s'.pending.owner ctx.mmeCtrFteid.teid = some i) (i : ℕ) (ctx : GtpcCtx)
    (hctx : s'.mme.imsiToGtpcCtx.find? i = some ctx) : s'.CtxFits i ctx := by
  have halloc : s'.mme.allocated = s.mme.nextCtrlTeid + 1 := by
    rw [hmme]
    exact allocated_sendCreate h.below imsi
  rw [hmme, s.mme.find?_sendCreate imsi] at hctx
  split_ifs at hctx with hi
  · rw [← Option.some.inj hctx, hi]
    constructor
    · exact Nat.one_le_iff_ne_zero.mpr hzero
    · exact (Nat.lt_succ_self _).trans_eq halloc.symm
    · exact hnew
    · intro htrue
      rw [hanswered, Function.update_self] at htrue
      cases htrue
    · exact fun _ => rfl
  · have hfit := h.ctx i ctx hctx
    have hlt : ctx.mmeCtrFteid.teid < s.mme.nextCtrlTeid := hfit.lt.trans_eq (if_neg hzero)
    have hold : s'.answered i = s.answered i := by
      rw [hanswered]
      exact Function.update_of_ne hi _ _
    constructor
    · exact hfit.pos
    · exact hlt.trans ((Nat.lt_succ_self _).trans_eq halloc.symm)
    · exact hothers i ctx hi hctx
    · rw [hold, hspgw]
      exact hfit.answered
    · rw [hold]
      exact hfit.silent

theorem Coupled.create (h : Coupled s) {sent : Bool} (hord : s.CreateOrdered (.create imsi sent)) :
    Coupled (s.step (.create imsi sent)) := by
  obtain ⟨hlost, hzero⟩ := hord
  have halloc : s.mme.allocated = s.mme.nextCtrlTeid := if_neg hzero
  have halloc' := allocated_sendCreate h.below imsi
  have hindexed : (s.mme.sendCreateSessionRequest imsi).1.Indexed := by
    refine h.indexed.sendCreate ?_ imsi
    intro i ctx hctx
    have hlt := (h.ctx i ctx hctx).lt
    rw [halloc] at hlt
    exact hlt.ne
  have hnext : (s.mme.sendCreateSessionRequest imsi).1.nextCtrlTeid < 2 ^ 32 :=
    Nat.mod_lt _ (by decide)
  cases sent with
  | false =>
    have hpending : (s.step (.create imsi false)).pending = s.pending := rfl
    have hle : s.pending.next ≤ s.mme.nextCtrlTeid := h.bound.trans_eq halloc
    refine ⟨h.issued, h.fits, hindexed, hnext, ?_, ?_, ?_, h.responses⟩
    · rw [hpending]
      exact hle.trans ((Nat.le_succ _).trans_eq halloc'.symm)
    · intro hfalse
      change (s.lost || true) = false at hfalse
      rw [Bool.or_true] at hfalse
      cases hfalse
    · refine h.ctxCreate hzero rfl rfl rfl ?_ ?_
      · exact fun hlt => absurd hlt (Nat.not_lt.mpr hle)
      · exact fun i ctx _ hctx => (h.ctx i ctx hctx).owner
  | true =>
    have heven : s.pending.next = s.mme.nextCtrlTeid := (h.even (hlost rfl)).trans halloc
    have hpending : (s.step (.create imsi true)).pending =
        s.pending.step ⟨imsi, false, .createSessionRequest imsi s.mme.newCtrFteid⟩ :=
      List.foldl_append
    have hpnext : (s.step (.create imsi true)).pending.next = s.mme.nextCtrlTeid + 1 := by
      rw [hpending, ← heven]
      rfl
    have howner : ∀ t, (s.step (.create imsi true)).pending.owner t =
        if t = s.mme.nextCtrlTeid then some imsi
        else (s.pending.owner t).filter fun i => i ≠ imsi := by
      intro t
      rw [hpending, ← heven]
      rfl
    refine ⟨h.issued, ?_, hindexed, hnext, ?_, ?_, ?_, h.responses⟩
    · exact along_append.mpr ⟨h.fits, ⟨rfl, heven.symm, heven.trans_lt h.below⟩, trivial⟩
    · rw [hpnext]
      exact halloc'.ge
    · intro _
      rw [hpnext]
      exact halloc'.symm
    · refine h.ctxCreate hzero rfl rfl rfl ?_ ?_
      · exact fun _ => (howner _).trans (if_pos rfl)
      · intro i ctx hi hctx _
        have hfit := h.ctx i ctx hctx
        have hlt : ctx.mmeCtrFteid.teid < s.mme.nextCtrlTeid := hfit.lt.trans_eq halloc
        rw [howner, if_neg hlt.ne, hfit.owner (hlt.trans_eq heven.symm)]
        exact Option.filter_some_pos (decide_eq_true hi)

theorem nextCtrlTeid_withoutCtx (mme : MmeGtpc) (imsi : ℕ) :
    (mme.withoutCtx imsi).nextCtrlTeid = mme.nextCtrlTeid := by
  unfold MmeGtpc.withoutCtx
  cases mme.imsiToGtpcCtx.find? imsi <;> rfl

theorem allocated_withoutCtx (mme : MmeGtpc) (imsi : ℕ) :
    (mme.withoutCtx imsi).allocated = mme.allocated := by
  unfold MmeGtpc.allocated
  rw [nextCtrlTeid_withoutCtx]

theorem Coupled.ctxDelete (h : Coupled s) {s' : S11} (hspgw : s'.spgw = s.spgw)
    (hmme : s'.mme = s.mme.withoutCtx imsi)
    (hanswered : s'.answered = Function.update s.answered imsi false) (hlost : s'.lost = s.lost)
    (htoMme : s'.toMme = s.toMme)
    (hfits : Along S11Registry.step S11Registry.Fits s.spgw.registry s'.toSpgw)
    (hnext : s'.pending.next = s.pending.next)
    (howner : ∀ i ctx, i ≠ imsi → s.mme.imsiToGtpcCtx.find? i = some ctx →
      ctx.mmeCtrFteid.teid < s.pending.next →
        s'.pending.owner ctx.mmeCtrFteid.teid = some i) : Coupled s' := by
  constructor
  · rw [hspgw]
    exact h.issued
  · rwa [hspgw]
  · rw [hmme]
    exact h.indexed.withoutCtx imsi
  · rw [hmme, nextCtrlTeid_withoutCtx]
    exact h.below
  · rw [hmme, hnext, allocated_withoutCtx]
    exact h.bound
  · rw [hmme, hnext, hlost, allocated_withoutCtx]
    exact h.even
  · intro i ctx hctx
    rw [hmme, s.mme.find?_withoutCtx imsi] at hctx
    split_ifs at hctx with hi
    have hfit := h.ctx i ctx hctx
    have hold : s'.answered i = s.answered i := by
      rw [hanswered]
      exact Function.update_of_ne hi _ _
    constructor
    · exact hfit.pos
    · rw [hmme, allocated_withoutCtx]
      exact hfit.lt
    · rw [hnext]
      exact howner i ctx hi hctx
    · rw [hold, hspgw]
      exact hfit.answered
    · rw [hold]
      exact hfit.silent
  · rw [htoMme, hspgw]
    exact h.responses

theorem Coupled.teid_ne (h : Coupled s) {i : ℕ} {c ctx : GtpcCtx} (hi : i ≠ imsi)
    (hc : s.mme.imsiToGtpcCtx.find? i = some c)
    (hctx : s.mme.imsiToGtpcCtx.find? imsi = some ctx) :
    c.mmeCtrFteid.teid ≠ ctx.sgwCtrFteid.teid := by
  cases hans : s.answered imsi with
  | false =>
    rw [(h.ctx imsi ctx hctx).silent hans]
    exact Nat.one_le_iff_ne_zero.mp (h.ctx i c hc).pos
  | true =>
    rw [((h.ctx imsi ctx hctx).answered hans).1]
    intro heq
    have hteid := (h.indexed _ i).mpr ⟨c, hc, heq⟩
    rw [(h.indexed _ imsi).mpr ⟨ctx, hctx, rfl⟩] at hteid
    exact hi (Option.some.inj hteid).symm

theorem Coupled.delete (h : Coupled s) (imsi : ℕ) (sent : Bool) :
    Coupled (s.step (.delete imsi sent)) := by
  have hunsent : s.enqueue imsi sent (s.mme.sendDeleteSessionRequest imsi).2 = s →
      Coupled (s.step (.delete imsi sent)) := by
    intro hsame
    unfold S11.step
    dsimp only
    rw [hsame]
    exact h.ctxDelete rfl rfl rfl rfl rfl h.fits rfl fun i ctx _ hctx => (h.ctx i ctx hctx).owner
  cases hctx : s.mme.imsiToGtpcCtx.find? imsi with
  | none =>
    refine hunsent ?_
    unfold MmeGtpc.sendDeleteSessionRequest
    rw [hctx]
    rfl
  | some ctx =>
    cases sent with
    | false =>
      refine hunsent ?_
      unfold MmeGtpc.sendDeleteSessionRequest
      rw [hctx]
      rfl
    | true =>
      have hfit := h.ctx imsi ctx hctx
      have hstep : s.step (.delete imsi true) = { s with
          mme := s.mme.withoutCtx imsi
          toSpgw := s.toSpgw ++
            [⟨imsi, s.answered imsi, .deleteSessionRequest ctx.sgwCtrFteid.teid .isrDeactivation⟩]
          answered := Function.update s.answered imsi false } := by
        simp only [S11.step, MmeGtpc.sendDeleteSessionRequest, hctx, Option.map_some, S11.enqueue,
          if_true]
      have hpending : (s.step (.delete imsi true)).pending = s.pending.step
          ⟨imsi, s.answered imsi, .deleteSessionRequest ctx.sgwCtrFteid.teid .isrDeactivation⟩ := by
        rw [hstep]
        exact List.foldl_append
      have hfits : Along S11Registry.step S11Registry.Fits s.spgw.registry (s.toSpgw ++
          [⟨imsi, s.answered imsi,
            .deleteSessionRequest ctx.sgwCtrFteid.teid .isrDeactivation⟩]) :=
        along_append.mpr ⟨h.fits, hfit.fits (fun i f heq => by cases heq) rfl, trivial⟩
      have hmme : (s.step (.delete imsi true)).mme = s.mme.withoutCtx imsi := by rw [hstep]
      refine h.ctxDelete ?_ hmme ?_ ?_ ?_ ?_ ?_ ?_
      · rw [hstep]
      · rw [hstep]
      · rw [hstep]
      · rw [hstep]
      · rw [hstep]
        exact hfits
      · rw [hpending]
        rfl
      · intro i c hi hc hlt
        rw [hpending]
        exact (if_neg (h.teid_ne hi hc hctx)).trans ((h.ctx i c hc).owner hlt)

theorem Coupled.mmeReceives (h : Coupled s) (nasKnown : ℕ → Bool) :
    Coupled (s.step (.mmeReceives nasKnown)) := by
  unfold S11.step
  cases hq : s.toMme with
  | nil => exact h
  | cons pdu rest =>
    have hrest : ∀ teid resp, .createSessionResponse teid resp ∈ rest →
        teid < s.spgw.nextCtrlTeid := by
      intro teid resp hmem
      refine h.responses teid resp ?_
      rw [hq]
      exact List.mem_cons_of_mem _ hmem
    have hkeep : ∀ (mme : MmeGtpc) (outs : List MmeGtpcOutput), mme = s.mme →
        (∀ i ebi ip fteid, .initialContextSetupRequest i ebi ip fteid ∉ outs) →
        Coupled { s with
          mme := mme
          toMme := rest
          answered := fun i => s.answered i || outs.any (MmeGtpcOutput.isSetup i) } := by
      rintro mme outs rfl houts
      have hany : ∀ i, outs.any (MmeGtpcOutput.isSetup i) = false := by
        intro i
        rw [List.any_eq_false]
        intro out hout
        cases out with
        | initialContextSetupRequest j ebi ip fteid => exact absurd hout (houts j ebi ip fteid)
        | _ => exact Bool.false_ne_true
      have hans : (fun i => s.answered i || outs.any (MmeGtpcOutput.isSetup i)) = s.answered := by
        funext i
        rw [hany, Bool.or_false]
      rw [hans]
      exact ⟨h.issued, h.fits, h.indexed, h.below, h.bound, h.even,
        fun i c hc => ⟨(h.ctx i c hc).pos, (h.ctx i c hc).lt, (h.ctx i c hc).owner,
          (h.ctx i c hc).answered, (h.ctx i c hc).silent⟩, hrest⟩
    cases pdu with
    | createSessionResponse teid resp =>
      rcases s.mme.handleCreateSessionResponse_cases nasKnown teid resp with
        ⟨hsame, houts⟩ | ⟨imsi, ctx, hteid, hctx, hhandle⟩
      · exact hkeep _ _ hsame houts
      · have hlt : teid < s.spgw.nextCtrlTeid :=
          h.responses teid resp (by rw [hq]; exact List.mem_cons_self)
        obtain ⟨c, hc, hct⟩ := (h.indexed teid imsi).mp hteid
        rw [hctx] at hc
        obtain rfl := Option.some.inj hc
        change Coupled { s with
          mme := (s.mme.handleCreateSessionResponse nasKnown teid resp).1
          toMme := rest
          answered := fun i => s.answered i ||
            (s.mme.handleCreateSessionResponse nasKnown teid resp).2.any
              (MmeGtpcOutput.isSetup i) }
        rw [hhandle]
        refine ⟨h.issued, h.fits, h.indexed.setSgw hctx _, h.below, h.bound, h.even, ?_, hrest⟩
        intro i c hc
        change (s.mme.imsiToGtpcCtx.insert imsi _).find? i = some c at hc
        rw [OrderedMap.find?_insert] at hc
        split_ifs at hc with hi
        · have hfit := h.ctx imsi ctx hctx
          rw [← Option.some.inj hc, hi]
          refine ⟨hfit.pos, hfit.lt, hfit.owner, fun _ => ⟨hct.symm, hct.trans_lt hlt⟩, ?_⟩
          intro hfalse
          simp [MmeGtpcOutput.isSetup] at hfalse
        · have hfit := h.ctx i c hc
          have hans : ∀ ip fteid, (s.answered i ||
              [.ueIp imsi ip, .initialContextSetupRequest imsi 5 ip fteid].any
                (MmeGtpcOutput.isSetup i)) = s.answered i := by
            intro ip fteid
            simp [MmeGtpcOutput.isSetup, Ne.symm hi]
          refine ⟨hfit.pos, hfit.lt, hfit.owner, ?_, ?_⟩
          · intro htrue
            exact hfit.answered ((hans _ _).symm.trans htrue)
          · intro hfalse
            exact hfit.silent ((hans _ _).symm.trans hfalse)
    | modifyBearerResponse teid ebi cause =>
      refine hkeep _ _ rfl fun i e ip fteid hmem => ?_
      change _ ∈ s.mme.handleModifyBearerResponse teid ebi at hmem
      unfold MmeGtpc.handleModifyBearerResponse at hmem
      cases hfind : s.mme.mmeCtrTeidToImsi.find? teid with
      | none => simp [hfind] at hmem
      | some imsi => simp [hfind] at hmem
    | downlinkDataNotification teid ebi =>
      refine hkeep _ _ rfl fun i e ip fteid hmem => ?_
      change _ ∈ s.mme.handleDownlinkDataNotification teid ebi at hmem
      unfold MmeGtpc.handleDownlinkDataNotification at hmem
      split at hmem
      · cases List.mem_singleton.mp hmem
      · cases hmem
    | _ => exact hkeep _ _ rfl fun _ _ _ _ => List.not_mem_nil

theorem Coupled.spgw (h : Coupled s) {s' : S11} (hmme : s'.mme = s.mme)
    (hans : s'.answered = s.answered) (hlost : s'.lost = s.lost) (hissued : Spgw.Issued s'.spgw)
    (hfits : Along S11Registry.step S11Registry.Fits s'.spgw.registry s'.toSpgw)
    (hpending : s'.pending = s.pending) (hnext : s.spgw.nextCtrlTeid ≤ s'.spgw.nextCtrlTeid)
    (hresp : ∀ teid resp, .createSessionResponse teid resp ∈ s'.toMme →
      .createSessionResponse teid resp ∈ s.toMme ∨ teid < s'.spgw.nextCtrlTeid) : Coupled s' := by
  constructor
  · exact hissued
  · exact hfits
  · rw [hmme]
    exact h.indexed
  · rw [hmme]
    exact h.below
  · rw [hmme, hpending]
    exact h.bound
  · rw [hmme, hpending, hlost]
    exact h.even
  · intro i c hc
    rw [hmme] at hc
    have hfit := h.ctx i c hc
    constructor
    · exact hfit.pos
    · rw [hmme]
      exact hfit.lt
    · rw [hpending]
      exact hfit.owner
    · rw [hans]
      exact fun ha => ⟨(hfit.answered ha).1, (hfit.answered ha).2.trans_le hnext⟩
    · rw [hans]
      exact hfit.silent
  · intro teid resp hmem
    exact (hresp teid resp hmem).elim (fun hold => (h.responses teid resp hold).trans_le hnext) id

theorem createSessionResponse_mem {spgw : Spgw} {e : SpgwEvent} {teid : ℕ}
    {resp : CreateSessionResponse}
    (hmem : .createSessionResponse teid resp ∈ (spgw.handle e).2.filterMap SpgwOutput.s11Pdu) :
    ∃ uninit imsi fteid, e = .s11 uninit (.createSessionRequest imsi fteid) ∧
      fteid.teid = teid := by
  obtain ⟨out, hout, hpdu⟩ := List.mem_filterMap.mp hmem
  cases out with
  | s1u fteid msg => cases hpdu
  | s11 pdu =>
    cases Option.some.inj hpdu
    cases e with
    | sgi msg =>
      rcases Spgw.mem_handleSgiPdu hout with ⟨_, heq, -⟩ | ⟨_, _, heq⟩
      · cases heq
      · cases heq
    | s11 uninit pdu =>
      cases pdu with
      | createSessionRequest imsi fteid =>
        cases List.mem_singleton.mp hout
        exact ⟨uninit, imsi, fteid, rfl, rfl⟩
      | modifyBearerRequest t ebi fteid =>
        change _ ∈ (spgw.handleModifyBearerRequest t fteid).2 at hout
        cases hctx : spgw.teidToTunnelCtx.find? t with
        | none =>
          unfold Spgw.handleModifyBearerRequest at hout
          rw [hctx] at hout
          cases hout
        | some ctx =>
          rw [Spgw.handleModifyBearerRequest_some hctx] at hout
          rcases List.mem_append.mp hout with hqueued | hlast
          · obtain ⟨m, -, heq⟩ := List.mem_map.mp hqueued
            cases heq
          · cases List.mem_singleton.mp hlast
      | _ => cases hout

theorem Coupled.spgwReceives (h : Coupled s) (uninit sent : Bool) :
    Coupled (s.step (.spgwReceives uninit sent)) := by
  unfold S11.step
  cases hq : s.toSpgw with
  | nil => exact h
  | cons r rest =>
    have hfits := h.fits
    rw [hq] at hfits
    obtain ⟨hr, hrest⟩ := hfits
    obtain ⟨hissued, hreg⟩ : Spgw.Issued (s.spgw.step (.s11 uninit r.pdu)) ∧
        (s.spgw.step (.s11 uninit r.pdu)).registry = s.spgw.registry.step r :=
      h.issued.receive hr
    have hnext : s.spgw.nextCtrlTeid ≤ (s.spgw.step (.s11 uninit r.pdu)).nextCtrlTeid := by
      have hle := s.spgw.registry.next_le_step r
      rwa [← hreg] at hle
    refine h.spgw rfl rfl rfl hissued ?_ ?_ hnext ?_
    · change Along _ _ (s.spgw.step (.s11 uninit r.pdu)).registry rest
      rwa [hreg]
    · unfold pending
      rw [hq, List.foldl_cons, ← hreg]
      rfl
    · intro teid resp hmem
      refine (List.mem_append.mp hmem).imp_right fun hout => ?_
      split_ifs at hout
      · obtain ⟨u, imsi, fteid, heq, rfl⟩ := createSessionResponse_mem hout
        injection heq with _ hpdu
        unfold S11Registry.Fits at hr
        rw [hpdu] at hr
        obtain ⟨-, hteid, hlt⟩ := hr
        rw [hteid]
        change s.spgw.nextCtrlTeid < (s.spgw.step (.s11 uninit r.pdu)).nextCtrlTeid
        rw [hpdu]
        exact (Nat.lt_succ_self _).trans_eq (Spgw.nextCtrlTeid_create hlt).symm
      · cases hout

theorem Coupled.sgi (h : Coupled s) (msg : SgiPdu) (sent : Bool) :
    Coupled (s.step (.sgi msg sent)) := by
  have hsame := (Spgw.onlyPaging_handleSgiPdu s.spgw msg).same
  have hreg := Spgw.registry_of_same hsame
  refine h.spgw rfl rfl rfl (h.issued.of_same hsame) ?_ ?_ hsame.nextCtrlTeid.ge ?_
  · change Along _ _ (s.spgw.handleSgiPdu msg).1.registry s.toSpgw
    rw [hreg]
    exact h.fits
  · change s.toSpgw.foldl _ (s.spgw.handleSgiPdu msg).1.registry = _
    rw [hreg]
    rfl
  · intro teid resp hmem
    refine Or.inl ((List.mem_append.mp hmem).resolve_right fun hout => ?_)
    split_ifs at hout
    · obtain ⟨u, imsi, fteid, heq, -⟩ := createSessionResponse_mem hout
      cases heq
    · cases hout

theorem Coupled.step (h : Coupled s) {e : S11Event} (hord : s.CreateOrdered e) :
    Coupled (s.step e) := by
  have hplain : ∀ {pdu : GtpcPdu}, (∀ i f, pdu ≠ .createSessionRequest i f) →
      (∀ t c, pdu ≠ .deleteSessionRequest t c) → Plain pdu := by
    intro pdu hc hd R i b
    cases pdu with
    | createSessionRequest i f => exact absurd rfl (hc i f)
    | deleteSessionRequest t c => exact absurd rfl (hd t c)
    | _ => rfl
  have hrequest : ∀ imsi sent (pdu : GtpcCtx → GtpcPdu),
      (∀ ctx i f, pdu ctx ≠ .createSessionRequest i f) →
      (∀ ctx t c, pdu ctx ≠ .deleteSessionRequest t c) →
      (∀ ctx, (pdu ctx).teid = ctx.sgwCtrFteid.teid) →
      Coupled (s.enqueue imsi sent ((s.mme.imsiToGtpcCtx.find? imsi).map pdu)) := by
    intro imsi sent pdu hc hd ht
    cases hctx : s.mme.imsiToGtpcCtx.find? imsi with
    | none => exact h
    | some ctx => exact h.enqueue (hplain (hc ctx) (hd ctx)) hctx (hc ctx) (ht ctx) sent
  cases e with
  | create imsi sent => exact h.create hord
  | modify imsi erab enbFteid sent =>
    exact hrequest imsi sent (fun ctx => .modifyBearerRequest ctx.sgwCtrFteid.teid erab enbFteid)
      (fun _ _ _ heq => by cases heq) (fun _ _ _ heq => by cases heq) fun _ => rfl
  | delete imsi sent => exact h.delete imsi sent
  | release imsi sent =>
    exact hrequest imsi sent (fun ctx => .releaseAccessBearersRequest ctx.sgwCtrFteid.teid)
      (fun _ _ _ heq => by cases heq) (fun _ _ _ heq => by cases heq) fun _ => rfl
  | acknowledge imsi cause sent =>
    exact hrequest imsi sent
      (fun ctx => .downlinkDataNotificationAcknowledge ctx.sgwCtrFteid.teid cause)
      (fun _ _ _ heq => by cases heq) (fun _ _ _ heq => by cases heq) fun _ => rfl
  | failure imsi cause sent =>
    exact hrequest imsi sent
      (fun ctx => .downlinkDataNotificationFailureIndication ctx.sgwCtrFteid.teid cause)
      (fun _ _ _ heq => by cases heq) (fun _ _ _ heq => by cases heq) fun _ => rfl
  | spgwReceives uninit sent => exact h.spgwReceives uninit sent
  | sgi msg sent => exact h.sgi msg sent
  | mmeReceives nasKnown => exact h.mmeReceives nasKnown

theorem coupled_start {args : SpgwArgs} {ipToImsi : OrderedMap ℕ ℕ} {spgw : Spgw}
    (hinit : Spgw.init args ipToImsi = some spgw) (ip : ℕ) :
    Coupled (start (MmeGtpc.start ip) spgw) := by
  have hnone := Spgw.session_init hinit
  have hnext : spgw.nextCtrlTeid = 1 := by
    unfold Spgw.init at hinit
    split_ifs at hinit
    obtain ⟨m, -, rfl⟩ := Option.map_eq_some_iff.mp hinit
    rfl
  have hpending : (start (MmeGtpc.start ip) spgw).pending.next = 1 := hnext
  constructor
  · constructor
    · exact Spgw.registered_init hinit
    · exact hnext.ge
    · exact hnext.trans_le (by decide)
    · intro t x hx
      cases (hnone t).symm.trans hx
    · intro t x hx
      cases (hnone t).symm.trans hx
  · trivial
  · intro t i
    constructor
    · intro hfalse
      cases (OrderedMap.find?_empty t).symm.trans hfalse
    · rintro ⟨ctx, hctx, -⟩
      cases (OrderedMap.find?_empty i).symm.trans hctx
  · exact (by decide : 1 < 2 ^ 32)
  · exact hpending.le
  · exact fun _ => hpending
  · intro i ctx hctx
    cases (OrderedMap.find?_empty i).symm.trans hctx
  · intro teid resp hmem
    cases hmem

/-- In every state that a run reaches in which no request to create a session is sent after a lost
one, and in which the control TEIDs of the MME have not come round, both sides agree. -/
theorem teids_agree {args : SpgwArgs} {ipToImsi : OrderedMap ℕ ℕ} {spgw : Spgw}
    (hinit : Spgw.init args ipToImsi = some spgw) (ip : ℕ) (events : List S11Event)
    (hord : Along S11.step CreateOrdered (start (MmeGtpc.start ip) spgw) events) :
    Agree (events.foldl S11.step (start (MmeGtpc.start ip) spgw)) := by
  have hcoupled : Coupled (events.foldl S11.step (start (MmeGtpc.start ip) spgw)) :=
    hord.invariant (fun s e h hstep => h.step hstep) (coupled_start hinit ip)
  exact hcoupled.agree

/-- A subscriber attaches, and attaches again before the SPGW answers. -/
theorem teids_agree_twice : Agree ([.create 7 true, .create 7 true, .spgwReceives false true,
    .spgwReceives false true, .mmeReceives fun _ => true, .mmeReceives fun _ => true,
    .modify 7 5 ⟨0, 9⟩ true].foldl S11.step (start (MmeGtpc.start 0) Spgw.epc)) := by
  have hinit : Spgw.init Spgw.epcArgs Spgw.oneStatic = some Spgw.epc := rfl
  refine teids_agree hinit 0 _ ?_
  exact ⟨⟨fun _ => rfl, by decide⟩, ⟨fun _ => rfl, by decide⟩, trivial, trivial, trivial, trivial,
    trivial, trivial⟩

/-- The first request of a subscriber is lost, and the second one is answered. -/
theorem teids_differ : ¬ Agree ([.create 7 false, .create 7 true, .spgwReceives false true,
    .mmeReceives fun _ => true].foldl S11.step (start (MmeGtpc.start 0) Spgw.epc)) := by
  intro h
  have hstored := (h.stored 7 ⟨⟨0, 2⟩, ⟨0, 2⟩⟩ rfl rfl).1
  cases hstored

end S11

end SrsLte
