import SrsLte.UlMuxSdus

/-!
# Logical channel prioritisation

A CE whose setter fails leaves its subheader, for which `write_packet` finds no space. Without such
a CE the PDU has the size of the grant, and it holds what the rounds gave to the channels if and
only if their SDUs fit with the subheaders they have in the end: the rounds count the header of
a channel once, for the bytes that it gets first.
-/

namespace SrsLte

namespace Mux

open SchPdu SchSetting

variable {ρ : Type*} {rlc : RlcMac ρ} {pduSz : ℕ} {p : SchPdu} {ss : List SchSetting}

theorem built_opened {start : SchPdu} {missed : ℕ} (h : Built start ss missed p)
    (hfew : ss.length + 1 < start.maxSubheaders) :
    Built start (ss ++ [.sdu 0 []]) (missed + 2) (opened p ss) := by
  have hsub : (opened p ss).subheaders = (ss ++ [SchSetting.sdu 0 []]).map SchSetting.subh := by
    rw [List.map_append]
    rfl
  have hset : Sets p ss (.sdu 0 []) (opened p ss) := ⟨rfl, rfl, rfl, rfl, hsub, rfl⟩
  refine h.of_sets hfew hset ?_ (h.lastIdx_concat _) ?_ ?_
  · rw [sduBytes_concat_sdu ss rfl, ← h.msg]
    exact (List.append_nil _).symm
  · have haccount := h.account
    rw [cost_concat, h.lastSduGrowth_opened (q := opened p ss) rfl rfl]
    change p.remLen + (cost ss + 2) = _
    omega
  · intro hzero
    omega

def Spoiled (pduSz : ℕ) (p : SchPdu) : Prop :=
  ∃ ss missed, Built (startPdu pduSz) ss missed p ∧ 0 < missed

theorem Spoiled.writePacket (h : Spoiled pduSz p) : p.writePacket = none := by
  obtain ⟨ss, missed, hbuilt, hmissed⟩ := h
  by_contra hsome
  exact Nat.ne_of_gt hmissed (hbuilt.writePacket_isSome.mp hsome).1

theorem Filled.addCe_spoils (h : Filled pduSz ss p) (ce : CeSetting)
    (hfew : ss.length + 1 < maxNofSubheaders) (hpos : 0 < p.remLen)
    (hspace : p.remLen < ce.bytes.length + 1) : Spoiled pduSz (Mux.addCe p ce) := by
  have hnone : (opened p ss).setCe ce = none := by
    have hhas : ¬ (opened p ss).hasSpaceCe ce.bytes.length = true := fun hle =>
      absurd (of_decide_eq_true hle) (Nat.not_le.mpr hspace)
    unfold setCe
    dsimp only
    rw [if_neg hhas]
  unfold Mux.addCe
  rw [h.newSubh, if_pos ⟨hfew, hpos⟩]
  change Spoiled pduSz (((opened p ss).setCe ce).getD _)
  rw [hnone]
  exact ⟨_, 0 + 2, built_opened h.built hfew, Nat.zero_lt_succ 1⟩

theorem Spoiled.addCe (h : Spoiled pduSz p) (ce : CeSetting) :
    Spoiled pduSz (Mux.addCe p ce) := by
  obtain ⟨ss, missed, hbuilt, hmissed⟩ := h
  unfold Mux.addCe
  cases hnew : p.newSubh with
  | none => exact ⟨ss, missed, hbuilt, hmissed⟩
  | some q =>
    obtain ⟨hopened, hfew⟩ := hbuilt.newSubh hnew
    change q = opened p ss at hopened
    subst hopened
    change Spoiled pduSz (((opened p ss).setCe ce).getD _)
    cases hset : (opened p ss).setCe ce with
    | none => exact ⟨_, missed + 2, built_opened hbuilt hfew, Nat.add_pos_left hmissed 2⟩
    | some p' => exact ⟨_, missed, (hbuilt.setCe hfew hset).1, hmissed⟩

theorem Spoiled.allocateLoop (h : Spoiled pduSz p) {lcid : ℕ} (hlcid : lcid < Lcid.phrReport)
    (fuel : ℕ) (r : ρ) (sduSpace : ℕ) :
    Spoiled pduSz (Mux.allocateLoop rlc lcid fuel p r sduSpace).1 := by
  induction fuel generalizing p r sduSpace with
  | zero => exact h
  | succ fuel ih =>
    unfold Mux.allocateLoop
    dsimp only
    split_ifs with hmore
    · obtain ⟨ss, missed, hbuilt, hmissed⟩ := h
      cases hnew : p.newSubh with
      | none => exact ⟨ss, missed, hbuilt, hmissed⟩
      | some q =>
        obtain ⟨hopened, hfew⟩ := hbuilt.newSubh hnew
        change q = opened p ss at hopened
        subst hopened
        dsimp only
        split_ifs with hspace
        · cases hset : (opened p ss).setSduItf lcid (min (rlc.getBufferState r lcid) sduSpace)
            (rlc.readPdu r lcid (min (rlc.getBufferState r lcid) sduSpace)).1 with
          | none => exact ⟨ss, missed, hbuilt, hmissed⟩
          | some p' =>
            have hsdu : ∀ n reply, (SchSetting.sduItf lcid n reply).isSdu = true :=
              fun _ _ => decide_eq_true hlcid
            obtain ⟨missed', hbuilt', hzero⟩ :=
              hbuilt.setsSdu hfew (hsdu _ _) (setSduItf_opened hbuilt hset)
            refine ih ⟨_, missed', hbuilt', Nat.pos_of_ne_zero fun hc => ?_⟩ _ _
            exact Nat.ne_of_gt hmissed (hzero.mp hc).1
        · exact ⟨ss, missed, hbuilt, hmissed⟩
    · exact h

theorem Spoiled.allocateAll (h : Spoiled pduSz p) (channels : List LogicalChannel) (r : ρ) :
    Spoiled pduSz (Mux.allocateAll rlc channels p r).1 := by
  induction channels generalizing p r with
  | nil => exact h
  | cons ch channels ih =>
    unfold Mux.allocateAll
    dsimp only
    split_ifs with hsched
    · exact ih (h.allocateLoop ch.isData _ r _) _
    · exact ih h r

end Mux

namespace MacEntry

/-- The entries have the LCIDs and sizes that subheaders can give; the last entry reaches to the
end of the PDU. -/
structure Readable (es : List MacEntry) : Prop where
  codable : ∀ e ∈ es.dropLast, e.Codable true
  lcid : ∀ e ∈ es, e.lcid < 32

theorem readOut_injective : Function.Injective readOut := by
  rintro ⟨lcid, payload⟩ ⟨lcid', payload'⟩ h
  obtain ⟨rfl, -, rfl⟩ : lcid = lcid' ∧ payload.length = payload'.length ∧ payload = payload' := by
    simpa [readOut] using h
  rfl

theorem content_eq_of_encode {es es' : List MacEntry} (h : Readable es) (h' : Readable es')
    (heq : encode es = encode es') : content es = content es' := by
  have hempty : ∀ (front : List MacEntry) (e : MacEntry), encode (front ++ [e]) ≠ [] := by
    intro front e hnil
    have hlen := length_encode_concat front e
    rw [hnil] at hlen
    exact absurd hlen (by simp; omega)
  rcases List.eq_nil_or_concat' es with rfl | ⟨front, e, rfl⟩
  · rcases List.eq_nil_or_concat' es' with rfl | ⟨front', e', rfl⟩
    · rfl
    · exact absurd heq.symm (hempty front' e')
  · rcases List.eq_nil_or_concat' es' with rfl | ⟨front', e', rfl⟩
    · exact absurd heq (hempty front e)
    · obtain ⟨hcod, hlcid⟩ := h
      obtain ⟨hcod', hlcid'⟩ := h'
      rw [List.dropLast_concat] at hcod hcod'
      -- a parser that takes more subheaders than either list has reads both
      let limit := front.length + front'.length + 2
      obtain ⟨subhs, hparse, hread⟩ := @parsePacket_encode e true limit front hcod
        (hlcid e (List.mem_append_right _ List.mem_cons_self)) (Nat.zero_lt_succ _)
        (Or.inr (by omega))
      obtain ⟨subhs', hparse', hread'⟩ := @parsePacket_encode e' true limit front' hcod'
        (hlcid' e' (List.mem_append_right _ List.mem_cons_self)) (Nat.zero_lt_succ _)
        (Or.inr (by omega))
      rw [← heq, hparse] at hparse'
      obtain rfl := Option.some.inj hparse'
      rw [← heq, hread] at hread'
      exact List.map_injective_iff.mpr readOut_injective hread'

end MacEntry

namespace Mux

open SchPdu SchSetting

variable {pduSz : ℕ} {p : SchPdu} {ss : List SchSetting}

theorem Filled.eq_start (h : Filled pduSz [] p) : p = startPdu pduSz := by
  have hrem := h.built.remLen_eq
  have hlast := h.built.last rfl
  have hcur := h.built.curIdx
  have hmax := h.built.maxSubheaders
  have hlen := h.built.pduLen
  have hul := h.built.isUl
  have hhead := h.built.headroom
  have hsub := h.built.subheaders
  have hmsg := h.built.msg
  obtain ⟨maxSubheaders, subheaders, pduLen, remLen, curIdx, lastSduIdx, isUl, headroom, msg,
    fits⟩ := p
  dsimp only at *
  subst hmax hlen hul hhead hsub hmsg hrem
  cases curIdx with
  | some i => exact absurd hcur (Nat.succ_ne_zero i)
  | none =>
    cases lastSduIdx with
    | some i =>
      obtain ⟨a, s, b, hsplit, -⟩ := hlast
      exact absurd hsplit (by simp)
    | none => rfl

theorem Filled.packet (h : Filled pduSz ss p) (hsize : pduSz ≤ clearedBuffer.tailroom) :
    ∃ es, p.writePacket = some (MacEntry.encode es) ∧ (MacEntry.encode es).length = pduSz ∧
      MacEntry.Readable es ∧ MacEntry.content es = entries ss := by
  have hroom := h.room hsize
  by_cases hss : ss = []
  · subst hss
    obtain rfl := h.eq_start
    rcases writePacket_empty maxNofSubheaders pduSz true rfl hroom with
      ⟨hzero, hwrite⟩ | ⟨tail, hlen, hwrite⟩
    · refine ⟨[], hwrite, hzero.symm, ⟨?_, ?_⟩, rfl⟩
      · exact List.forall_mem_nil _
      · exact List.forall_mem_nil _
    · refine ⟨[⟨Lcid.padding, tail⟩], hwrite, ?_, ⟨?_, ?_⟩, rfl⟩
      · rw [encode_padding]
        exact hlen
      · exact List.forall_mem_nil _
      · intro e he
        rw [List.mem_singleton.mp he]
        exact Nat.lt_of_sub_eq_succ rfl
  · have hwrite := h.built.writePacket_eq hss h.valid hroom
    obtain ⟨es, e, hes, hcod, hlcid, -⟩ := h.built.packet_concat hss h.valid
    have hpacket : packetEntries pduSz ss = es ++ [e] := hes
    refine ⟨packetEntries pduSz ss, hwrite, ?_, ⟨?_, ?_⟩, content_packet pduSz h.valid⟩
    · exact (length_writePacket (h.built.length_headerBytes hss h.valid) hwrite).trans
        h.built.pduLen
    · rw [hpacket, List.dropLast_concat]
      exact hcod
    · rw [hpacket]
      intro x hx
      rcases List.mem_append.mp hx with hx | hx
      · exact (hcod x hx).1
      · rw [List.mem_singleton.mp hx]
        exact hlcid

end Mux

namespace UlMac

open Mux SchPdu SchSetting

variable {ρ : Type*} {rlc : RlcMac ρ} {s : UlMac} {r : ρ} {pduSz phrValue : ℕ}

structure CesFit (rlc : RlcMac ρ) (s : UlMac) (r : ρ) (pduSz : ℕ) : Prop where
  cRnti : s.CRntiFits rlc r pduSz
  bsr : s.Included rlc r pduSz →
    BsrProc.bsrSz (s.bsr.generateBsr 0) + 1 ≤ (s.firstPdu rlc r pduSz).remLen
  phr : s.phr = true → (s.firstPdu rlc r pduSz).remLen - s.bsrSpace rlc r pduSz ≠ 1

def firstRlc (rlc : RlcMac ρ) (s : UlMac) (r : ρ) (pduSz : ℕ) : ρ :=
  (s.mux.ccchOrCRnti rlc r pduSz).2

def OnlyCcch (rlc : RlcMac ρ) (r : ρ) (ss : List SchSetting) : Prop :=
  ∀ x ∈ ss, x.isSdu = true → x.entry.lcid = 0 ∧ rlc.getBufferState r 0 = 0

theorem OnlyCcch.concat_ce {ss : List SchSetting} (h : OnlyCcch rlc r ss) (ce : CeSetting) :
    OnlyCcch rlc r (ss ++ [.ce ce]) := by
  intro x hx hsdu
  rcases List.mem_append.mp hx with hx | hx
  · exact h x hx hsdu
  · rw [List.mem_singleton.mp hx, isSdu_ce] at hsdu
    exact absurd hsdu nofun

theorem ccchOrCRnti_eq (m : Mux) : m.ccchOrCRnti rlc r pduSz =
    if (!(allocateSdu rlc 0 (startPdu pduSz) r pduSz).2.2) = true ∧ m.pendingCrntiCe ≠ 0 then
      (addCe (allocateSdu rlc 0 (startPdu pduSz) r pduSz).1 (.cRnti m.pendingCrntiCe),
        (allocateSdu rlc 0 (startPdu pduSz) r pduSz).2.1)
    else ((allocateSdu rlc 0 (startPdu pduSz) r pduSz).1,
      (allocateSdu rlc 0 (startPdu pduSz) r pduSz).2.1) := rfl

theorem firstPdu_fits (hrlc : rlc.Exact) (hsize : pduSz ≤ clearedBuffer.tailroom)
    (h : s.CRntiFits rlc r pduSz) : ∃ ss, Filled pduSz ss (s.firstPdu rlc r pduSz) ∧
      ss.length ≤ 1 ∧ OnlyCcch rlc (s.firstRlc rlc r pduSz) ss := by
  have hstart := filled_start pduSz
  have hnone : OnlyCcch rlc r [] := List.forall_mem_nil _
  unfold firstPdu firstRlc
  rw [ccchOrCRnti_eq]
  by_cases hfits : SduFits [] (startPdu pduSz) (min (rlc.getBufferState r 0) pduSz)
  · obtain ⟨data, p', hdata, heq, hfilled⟩ :=
      hstart.allocateSdu_fits hrlc (Nat.zero_lt_succ _) r pduSz hfits
    rw [heq, if_neg fun hc => absurd hc.1 nofun]
    refine ⟨_, hfilled, Nat.le_refl 1, fun x hx _ => ?_⟩
    rw [List.nil_append, List.mem_singleton] at hx
    have hspace := hfits.2.2
    rw [hstart.getSduSpace_eq hsize] at hspace
    have htakes := hrlc.takes r 0 (min (rlc.getBufferState r 0) pduSz) (Nat.min_le_left _ _)
    have hpos := hfits.1
    refine ⟨hx ▸ rfl, ?_⟩
    rw [htakes]
    omega
  · have heq : allocateSdu rlc 0 (startPdu pduSz) r pduSz = (startPdu pduSz, r, false) :=
      hstart.allocateSdu_not r pduSz hfits
    unfold CRntiFits at h
    rw [heq] at h ⊢
    by_cases hpending : s.mux.pendingCrntiCe ≠ 0
    · rw [if_pos ⟨rfl, hpending⟩]
      rcases h hpending rfl with hzero | hthree
      · rw [hstart.addCe_of_full _ fun hc => absurd hzero (Nat.ne_of_gt hc.2)]
        exact ⟨[], hstart, Nat.zero_le 1, hnone⟩
      · exact ⟨_, (hstart.addCe (.cRnti s.mux.pendingCrntiCe) rfl
          (Nat.lt_of_sub_eq_succ rfl) hthree).1, Nat.le_refl 1, hnone.concat_ce _⟩
    · rw [if_neg fun hc => hpending hc.2]
      exact ⟨[], hstart, Nat.zero_le 1, hnone⟩

theorem firstPdu_spoiled (h : ¬ s.CRntiFits rlc r pduSz) :
    Spoiled pduSz (s.firstPdu rlc r pduSz) := by
  unfold CRntiFits at h
  push Not at h
  obtain ⟨hpending, hnone, hzero, hthree⟩ := h
  have hstart : (allocateSdu rlc 0 (startPdu pduSz) r pduSz).1 = startPdu pduSz :=
    allocateLoop_unchanged 0 _ r pduSz hnone
  unfold firstPdu
  rw [ccchOrCRnti_eq, if_pos ⟨by rw [hnone]; rfl, hpending⟩, hstart]
  exact (filled_start pduSz).addCe_spoils (.cRnti s.mux.pendingCrntiCe)
    (Nat.lt_of_sub_eq_succ rfl) (Nat.pos_of_ne_zero hzero) hthree

theorem addCe_few {p : SchPdu} {ss : List SchSetting} (h : Filled pduSz ss p)
    (hfew : ss.length ≤ 2) (ce : CeSetting) (hsize : sizeofCe ce.lcid true = ce.bytes.length) :
    (ce.bytes.length + 1 ≤ p.remLen ∨ p.remLen = 0 →
      ∃ more, Filled pduSz (ss ++ more) (addCe p ce) ∧ (more = [] ∨ more = [.ce ce]) ∧
        (addCe p ce).remLen = p.remLen - (ce.bytes.length + 1)) ∧
      (¬ (ce.bytes.length + 1 ≤ p.remLen ∨ p.remLen = 0) → Spoiled pduSz (addCe p ce)) := by
  have hopen : ss.length + 1 < maxNofSubheaders := Nat.lt_of_le_of_lt (Nat.succ_le_succ hfew)
    (Nat.lt_of_sub_eq_succ rfl)
  constructor
  · rintro (hspace | hzero)
    · obtain ⟨hfilled, hrem⟩ := h.addCe ce hsize hopen hspace
      exact ⟨[.ce ce], hfilled, Or.inr rfl, hrem⟩
    · rw [h.addCe_of_full ce fun hc => absurd hzero (Nat.ne_of_gt hc.2)]
      exact ⟨[], by rwa [List.append_nil], Or.inl rfl, by omega⟩
  · intro hnot
    push Not at hnot
    exact h.addCe_spoils ce hopen (Nat.pos_of_ne_zero hnot.2) hnot.1

theorem OnlyCcch.append_few {ss more : List SchSetting} {ce : CeSetting}
    (h : OnlyCcch rlc r ss) (hmore : more = [] ∨ more = [.ce ce]) :
    OnlyCcch rlc r (ss ++ more) ∧ (ss ++ more).length ≤ ss.length + 1 := by
  rcases hmore with rfl | rfl
  · rw [List.append_nil]
    exact ⟨h, Nat.le_succ _⟩
  · exact ⟨h.concat_ce ce, Nat.le_of_eq List.length_append⟩

section

variable (hrlc : rlc.Exact) (hsize : pduSz ≤ clearedBuffer.tailroom)
include hrlc hsize

theorem bsrPdu_fits (hcrnti : s.CRntiFits rlc r pduSz)
    (hbsr : s.Included rlc r pduSz →
      BsrProc.bsrSz (s.bsr.generateBsr 0) + 1 ≤ (s.firstPdu rlc r pduSz).remLen) :
    ∃ ss, Filled pduSz ss (s.bsrPdu rlc r pduSz) ∧ ss.length ≤ 2 ∧
      OnlyCcch rlc (s.firstRlc rlc r pduSz) ss ∧ (s.bsrPdu rlc r pduSz).remLen =
        (s.firstPdu rlc r pduSz).remLen - s.bsrSpace rlc r pduSz := by
  obtain ⟨ss, hfilled, hone, hccch⟩ := firstPdu_fits hrlc hsize hcrnti
  unfold bsrPdu bsrSpace
  by_cases hinc : s.Included rlc r pduSz
  · rw [regularBsr_included hinc, if_pos hinc]
    dsimp only
    have hbytes := length_bytes_bsr (s.bsr.generateBsr 0)
    obtain ⟨more, hmore, hfew, hrem⟩ := (addCe_few hfilled (Nat.le_succ_of_le hone) _
      (sizeofCe_bsr (s.bsr.generateBsr 0).format (s.bsr.generateBsr 0).buffSize)).1
        (Or.inl (hbytes ▸ hbsr hinc))
    obtain ⟨hccch', hlen⟩ := hccch.append_few hfew
    exact ⟨_, hmore, by omega, hccch', hbytes ▸ hrem⟩
  · rw [regularBsr_not_included hinc, if_neg hinc]
    exact ⟨ss, hfilled, Nat.le_succ_of_le hone, hccch, rfl⟩

theorem bsrPdu_spoiled (h : ¬ (s.CRntiFits rlc r pduSz ∧ (s.Included rlc r pduSz →
      BsrProc.bsrSz (s.bsr.generateBsr 0) + 1 ≤ (s.firstPdu rlc r pduSz).remLen))) :
    Spoiled pduSz (s.bsrPdu rlc r pduSz) := by
  unfold bsrPdu
  by_cases hcrnti : s.CRntiFits rlc r pduSz
  · have hbsr : ¬ (s.Included rlc r pduSz →
        BsrProc.bsrSz (s.bsr.generateBsr 0) + 1 ≤ (s.firstPdu rlc r pduSz).remLen) :=
      fun hbsr => h ⟨hcrnti, hbsr⟩
    push Not at hbsr
    obtain ⟨hinc, hspace⟩ := hbsr
    obtain ⟨ss, hfilled, hone, -⟩ := firstPdu_fits hrlc hsize hcrnti
    have hbytes := length_bytes_bsr (s.bsr.generateBsr 0)
    have hle := hinc.2
    have hpos : 0 < BsrProc.bsrSz (s.bsr.generateBsr 0) := by
      unfold BsrProc.bsrSz
      split_ifs <;> omega
    rw [regularBsr_included hinc]
    refine (addCe_few hfilled (Nat.le_succ_of_le hone) _
      (sizeofCe_bsr (s.bsr.generateBsr 0).format (s.bsr.generateBsr 0).buffSize)).2 ?_
    rw [hbytes]
    omega
  · have hspoiled := firstPdu_spoiled hcrnti
    cases (s.regularBsr rlc r pduSz).1 with
    | none => exact hspoiled
    | some report => exact hspoiled.addCe _

theorem phrPdu_fits (h : s.CesFit rlc r pduSz) (phrValue : ℕ) :
    ∃ ss, Filled pduSz ss (s.phrPdu rlc r pduSz phrValue) ∧
      OnlyCcch rlc (s.firstRlc rlc r pduSz) ss := by
  obtain ⟨ss, hfilled, htwo, hccch, hrem⟩ := bsrPdu_fits hrlc hsize h.cRnti h.bsr
  unfold phrPdu
  split_ifs with hphr
  · have hone := h.phr hphr
    rw [← hrem] at hone
    obtain ⟨more, hmore, hfew, -⟩ := (addCe_few hfilled htwo (.phr phrValue) rfl).1
      (show 2 ≤ _ ∨ _ by omega)
    exact ⟨_, hmore, (hccch.append_few hfew).1⟩
  · exact ⟨ss, hfilled, hccch⟩

theorem phrPdu_spoiled (h : ¬ s.CesFit rlc r pduSz) (phrValue : ℕ) :
    Spoiled pduSz (s.phrPdu rlc r pduSz phrValue) := by
  unfold phrPdu
  by_cases hbsr : s.CRntiFits rlc r pduSz ∧ (s.Included rlc r pduSz →
      BsrProc.bsrSz (s.bsr.generateBsr 0) + 1 ≤ (s.firstPdu rlc r pduSz).remLen)
  · obtain ⟨ss, hfilled, htwo, -, hrem⟩ := bsrPdu_fits hrlc hsize hbsr.1 hbsr.2
    have hphr : ¬ (s.phr = true → (s.firstPdu rlc r pduSz).remLen - s.bsrSpace rlc r pduSz ≠ 1) :=
      fun hphr => h ⟨hbsr.1, hbsr.2, hphr⟩
    push Not at hphr
    rw [if_pos hphr.1]
    refine (addCe_few hfilled htwo (.phr phrValue) rfl).2 ?_
    rw [hrem, hphr.2]
    change ¬ (2 ≤ 1 ∨ 1 = 0)
    omega
  · have hspoiled := bsrPdu_spoiled hrlc hsize hbsr
    split_ifs with hphr
    · exact hspoiled.addCe _
    · exact hspoiled

end

theorem lastPdu_spoiled (h : Spoiled pduSz (s.dataPdu rlc r pduSz phrValue)) :
    Spoiled pduSz (s.lastPdu rlc r pduSz phrValue) := by
  unfold lastPdu
  cases (s.paddingBsr rlc r pduSz phrValue).1 with
  | none => exact h
  | some report => exact h.addCe _

theorem lastPdu_appends {ss : List SchSetting}
    (h : Filled pduSz ss (s.dataPdu rlc r pduSz phrValue)) :
    ∃ more, Filled pduSz (ss ++ more) (s.lastPdu rlc r pduSz phrValue) ∧
      ∀ x ∈ more, x.isSdu = false := by
  have hsame : ∃ more, Filled pduSz (ss ++ more) (s.dataPdu rlc r pduSz phrValue) ∧
      ∀ x ∈ more, x.isSdu = false :=
    ⟨[], by rwa [List.append_nil], List.forall_mem_nil _⟩
  unfold lastPdu
  cases hreport : (s.paddingBsr rlc r pduSz phrValue).1 with
  | none => exact hsame
  | some report =>
    dsimp only
    have hspace : BsrProc.bsrSz report + 1 ≤ (s.dataPdu rlc r pduSz phrValue).remLen := by
      unfold paddingBsr BsrProc.generatePaddingBsr at hreport
      split_ifs at hreport with hregular htwo
      obtain rfl := Option.some.inj hreport
      exact BsrProc.bsrSz_generateBsr_padding htwo
    rw [← length_bytes_bsr] at hspace
    by_cases hfew : ss.length + 1 < maxNofSubheaders
    · refine ⟨_, (h.addCe _ (sizeofCe_bsr report.format report.buffSize) hfew hspace).1,
        fun x hx => ?_⟩
      rw [List.mem_singleton.mp hx]
      exact isSdu_ce _
    · rwa [h.addCe_of_full _ fun hc => hfew hc.1]

def dataSpace (rlc : RlcMac ρ) (s : UlMac) (r : ρ) (pduSz phrValue : ℕ) : ℕ :=
  (s.phrPdu rlc r pduSz phrValue).getSduSpace

def firstServed (rlc : RlcMac ρ) (s : UlMac) (r : ρ) (pduSz phrValue : ℕ) : List LogicalChannel :=
  (s.mux.firstRound rlc (s.firstRlc rlc r pduSz) (s.dataSpace rlc r pduSz phrValue)).1

def scheduled (rlc : RlcMac ρ) (s : UlMac) (r : ρ) (pduSz phrValue : ℕ) : List LogicalChannel :=
  s.mux.schedule rlc (s.firstRlc rlc r pduSz) (s.dataSpace rlc r pduSz phrValue)

/-- A PDU of the size of the grant, with an SDU of its scheduled length for every scheduled
channel. -/
structure HoldsShares (bytes : Bytes) (pduSz : ℕ) (channels : List LogicalChannel)
    (es : List MacEntry) : Prop where
  coded : bytes = MacEntry.encode es
  readable : MacEntry.Readable es
  size : bytes.length = pduSz
  inside : (MacEntry.subheaders es).length + (MacEntry.payloads es).length ≤ pduSz
  sdus : ∀ ch ∈ channels, ch.schedLen ≠ 0 →
    ∃ e ∈ es, e.lcid = ch.lcid ∧ (e.payload.length : ℤ) = ch.schedLen

/-- The channels are served in order of priority, in the first round with at most `Bj` where the
PBR is finite, and the PDU holds what they are given. -/
structure Prioritised (rlc : RlcMac ρ) (s : UlMac) (r : ρ) (pduSz phrValue : ℕ) : Prop where
  first : ∀ ch ∈ s.mux.logicalChannels, ∀ c₁ ∈ s.firstServed rlc r pduSz phrValue,
    c₁.lcid = ch.lcid → 0 ≤ ch.pbr → c₁.schedLen ≤ ch.bj
  firstOrder : ∀ d ∈ s.mux.logicalChannels, ∀ d₁ ∈ s.firstServed rlc r pduSz phrValue,
    ∀ c₁ ∈ s.firstServed rlc r pduSz phrValue, d₁.lcid = d.lcid → d.priority < c₁.priority →
      0 < c₁.schedLen → d₁.schedLen = (offer rlc (s.firstRlc rlc r pduSz) d).firstShare
  second : ∀ c₁ ∈ s.firstServed rlc r pduSz phrValue, ∀ c₂ ∈ s.scheduled rlc r pduSz phrValue,
    c₂.lcid = c₁.lcid → c₁.schedLen < c₂.schedLen →
      ∀ d ∈ s.mux.logicalChannels, d.priority < c₂.priority →
        rlc.getBufferState (s.pduGet rlc r pduSz phrValue).2.2 d.lcid = 0
  pdu : ∃ bytes es, (s.pduGet rlc r pduSz phrValue).1 = some bytes ∧
    HoldsShares bytes pduSz (s.scheduled rlc r pduSz phrValue) es

/-- Every CE that is begun fits, and the SDUs fit the space that the CEs leave, with the
subheaders that they have in the end. -/
structure SharesFit (rlc : RlcMac ρ) (s : UlMac) (r : ρ) (pduSz phrValue : ℕ) : Prop where
  ces : s.CesFit rlc r pduSz
  sdus : SdusFit (s.phrPdu rlc r pduSz phrValue).subheaders.length
    (s.dataSpace rlc r pduSz phrValue) (schedLens (s.scheduled rlc r pduSz phrValue))

theorem dataPdu_eq : s.dataPdu rlc r pduSz phrValue =
    (allocateAll rlc (s.scheduled rlc r pduSz phrValue) (s.phrPdu rlc r pduSz phrValue)
      (s.firstRlc rlc r pduSz)).1 := rfl

theorem pduGet_rlc : (s.pduGet rlc r pduSz phrValue).2.2 =
    (allocateAll rlc (s.scheduled rlc r pduSz phrValue) (s.phrPdu rlc r pduSz phrValue)
      (s.firstRlc rlc r pduSz)).2 := rfl

theorem lcid_scheduled (hconf : s.mux.Configured) :
    (s.scheduled rlc r pduSz phrValue).map LogicalChannel.lcid =
      s.mux.logicalChannels.map LogicalChannel.lcid :=
  hconf.lcid_schedule

theorem cesFit_of_packet (hrlc : rlc.Exact) (hsize : pduSz ≤ clearedBuffer.tailroom)
    (hpacket : (s.pduGet rlc r pduSz phrValue).1 ≠ none) : s.CesFit rlc r pduSz := by
  by_contra hces
  have hphr := phrPdu_spoiled hrlc hsize hces phrValue
  have hdata : Spoiled pduSz (s.dataPdu rlc r pduSz phrValue) := by
    rw [dataPdu_eq]
    exact hphr.allocateAll _ _
  exact hpacket (lastPdu_spoiled hdata).writePacket

theorem pduGet_settings (hrlc : rlc.Exact) (hsize : pduSz ≤ clearedBuffer.tailroom)
    (hconf : s.mux.Configured) (hces : s.CesFit rlc r pduSz) (phrValue : ℕ) :
    ∃ ss more padding, OnlyCcch rlc (s.firstRlc rlc r pduSz) ss ∧
      (∀ x ∈ padding, x.isSdu = false) ∧
      Filled pduSz (ss ++ more ++ padding) (s.lastPdu rlc r pduSz phrValue) ∧
      (Complete (s.scheduled rlc r pduSz phrValue) more ↔
        SdusFit (s.phrPdu rlc r pduSz phrValue).subheaders.length
          (s.dataSpace rlc r pduSz phrValue) (schedLens (s.scheduled rlc r pduSz phrValue))) ∧
      (Complete (s.scheduled rlc r pduSz phrValue) more →
        ∀ ch ∈ s.scheduled rlc r pduSz phrValue,
          (rlc.getBufferState (s.pduGet rlc r pduSz phrValue).2.2 ch.lcid : ℤ) =
            ch.bufferLen) := by
  obtain ⟨ss, hphr, hccch⟩ := phrPdu_fits hrlc hsize hces phrValue
  have hnodup : ((s.scheduled rlc r pduSz phrValue).map LogicalChannel.lcid).Nodup := by
    rw [lcid_scheduled hconf]
    exact hconf.nodup
  have hdata : ∀ ch ∈ s.scheduled rlc r pduSz phrValue, 0 ≤ ch.schedLen ∧ 0 ≤ ch.bufferLen ∧
      ch.bufferLen + ch.schedLen = rlc.getBufferState (s.firstRlc rlc r pduSz) ch.lcid :=
    fun ch hch => hconf.schedule_data hch
  have hsched : ∀ ch ∈ s.scheduled rlc r pduSz phrValue, 0 ≤ ch.schedLen ∧
      ch.schedLen ≤ rlc.getBufferState (s.firstRlc rlc r pduSz) ch.lcid := by
    intro ch hch
    have h := hdata ch hch
    omega
  obtain ⟨more, hmore, -, hiff, hbuffers⟩ := allocateAll_complete hrlc hsize
    (s.scheduled rlc r pduSz phrValue) hphr (s.firstRlc rlc r pduSz) hnodup hsched
  rw [← dataPdu_eq] at hmore
  obtain ⟨padding, hlast, hpadding⟩ := lastPdu_appends hmore
  refine ⟨ss, more, padding, hccch, hpadding, hlast, ?_, fun hcomplete ch hch => ?_⟩
  · rw [hphr.length_subheaders]
    exact hiff
  · rw [pduGet_rlc, hbuffers hcomplete ch hch]
    have h := hdata ch hch
    omega

theorem complete_of_entries (hconf : s.mux.Configured) {ss more padding : List SchSetting}
    (hccch : OnlyCcch rlc (s.firstRlc rlc r pduSz) ss)
    (hpadding : ∀ x ∈ padding, x.isSdu = false)
    (hsdus : ∀ ch ∈ s.scheduled rlc r pduSz phrValue, ch.schedLen ≠ 0 →
      ∃ x ∈ ss ++ more ++ padding,
        x.entry.lcid = ch.lcid ∧ (x.entry.payload.length : ℤ) = ch.schedLen) :
    Complete (s.scheduled rlc r pduSz phrValue) more := by
  intro ch hch hne
  obtain ⟨x, hx, hlcid, hlen⟩ := hsdus ch hch hne
  have hsdu : x.isSdu = true := decide_eq_true (hlcid ▸ ch.isData)
  rcases List.mem_append.mp hx with hx | hx
  · rcases List.mem_append.mp hx with hx | hx
    · obtain ⟨hzero, hempty⟩ := hccch x hx hsdu
      obtain ⟨hnonneg, hleft, hdata⟩ := hconf.schedule_data hch
      rw [← hlcid, hzero, hempty] at hdata
      omega
    · exact ⟨x, hx, hlcid, hlen⟩
  · rw [hpadding x hx] at hsdu
    exact absurd hsdu nofun

theorem prioritised_iff (hrlc : rlc.Exact) (hconf : s.mux.Configured)
    (hsize : pduSz ≤ clearedBuffer.tailroom) :
    s.Prioritised rlc r pduSz phrValue ↔ s.SharesFit rlc r pduSz phrValue := by
  constructor
  · intro h
    obtain ⟨bytes, es, hpacket, hholds⟩ := h.pdu
    have hces : s.CesFit rlc r pduSz :=
      cesFit_of_packet hrlc hsize fun hnone => absurd (hpacket.symm.trans hnone) nofun
    obtain ⟨ss, more, padding, hccch, hpadding, hlast, hiff, -⟩ :=
      pduGet_settings hrlc hsize hconf hces phrValue
    obtain ⟨es', hwrite, -, hreadable, hcontent⟩ := hlast.packet hsize
    have hbytes : MacEntry.encode es = MacEntry.encode es' := by
      rw [← hholds.coded]
      exact Option.some.inj (hpacket.symm.trans hwrite)
    have hsame := MacEntry.content_eq_of_encode hholds.readable hreadable hbytes
    refine ⟨hces, hiff.mp (complete_of_entries hconf hccch hpadding fun ch hch hne => ?_)⟩
    obtain ⟨e, he, hlcid, hlen⟩ := hholds.sdus ch hch hne
    have hmem : e ∈ MacEntry.content es := by
      refine List.mem_filter.mpr ⟨he, decide_eq_true (Nat.ne_of_lt ?_)⟩
      rw [hlcid]
      exact ch.isData.trans (by decide)
    rw [hsame, hcontent] at hmem
    obtain ⟨x, hx, rfl⟩ := List.mem_map.mp ((entries_perm _).mem_iff.mp hmem)
    exact ⟨x, hx, hlcid, hlen⟩
  · intro h
    obtain ⟨ss, more, padding, -, -, hlast, hiff, hbuffers⟩ :=
      pduGet_settings hrlc hsize hconf h.ces phrValue
    obtain ⟨es, hwrite, hlen, hreadable, hcontent⟩ := hlast.packet hsize
    have hcomplete := hiff.mpr h.sdus
    refine ⟨fun ch hch c₁ hc₁ => hconf.first_le hch hc₁,
      fun d hd d₁ hd₁ c₁ hc₁ => hconf.first_order hd hd₁ hc₁,
      fun c₁ hc₁ c₂ hc₂ hlcid hgain d hd hlt => ?_,
      MacEntry.encode es, es, hwrite, rfl, hreadable, hlen, ?_, fun ch hch hne => ?_⟩
    · obtain ⟨d₂, hd₂, hlcid₂, hpriority⟩ := hconf.exists_scheduled hd
      have hempty : d₂.bufferLen = 0 :=
        hconf.second_order hc₁ hc₂ hlcid hgain hd₂ (hpriority.trans_lt hlt)
      have hbuffer := hbuffers hcomplete d₂ hd₂
      rw [hlcid₂, hempty] at hbuffer
      exact Int.natCast_eq_zero.mp hbuffer
    · exact Nat.le_of_eq (List.length_append.symm.trans hlen)
    · obtain ⟨x, hx, hlcid, hxlen⟩ := hcomplete ch hch hne
      have hmem : x.entry ∈ MacEntry.content es := by
        rw [hcontent]
        exact (entries_perm _).mem_iff.mpr (List.mem_map_of_mem
          (List.mem_append_left _ (List.mem_append_right _ hx)))
      exact ⟨x.entry, List.mem_of_mem_filter hmem, hlcid, hxlen⟩

theorem plainRlc_exact : plainRlc.Exact where
  gives _ _ _ _ hn := ⟨_, rfl, List.length_replicate.trans (Nat.min_eq_left hn)⟩
  takes _ _ _ _ := if_pos rfl
  keeps _ _ _ _ hne := if_neg hne

def noRateBearer : LogicalChannel where
  lcid := 3
  lcg := 1
  bj := 0
  pbr := 0
  bucketSize := 0
  priority := 9
  schedLen := 0
  bufferLen := 0
  isData := three_isData

def anyRateBearer : LogicalChannel where
  lcid := 4
  lcg := 1
  bj := 0
  pbr := -1
  bucketSize := 0
  priority := 10
  schedLen := 0
  bufferLen := 0
  isData := by decide

def bearersSetUp : List (Event (ℕ → ℕ)) := [.setupLcid noRateBearer, .setupLcid anyRateBearer]

def bearerData (lcid : ℕ) : ℕ := if lcid = 3 then 300 else if lcid = 4 then 10 else 0

theorem proper_bearersSetUp : ∀ e ∈ bearersSetUp, e.Proper := by
  intro e he
  rcases List.mem_cons.mp he with rfl | he
  · exact ⟨fun _ => Int.le_refl 0, fun _ => by decide, fun hccch => absurd hccch (by decide)⟩
  · rw [List.mem_singleton.mp he]
    exact ⟨fun _ => Int.le_refl 0, fun _ => by decide, fun hccch => absurd hccch (by decide)⟩

end UlMac
end SrsLte
