import SrsLte.MacPduWriter
import Mathlib.Algebra.Order.BigOperators.Group.List
import Mathlib.Algebra.Order.Group.Nat

/-!
# The packet of the MAC PDU writer

When no SDU escapes the accounting of `rem_len`, the packet is the encoding of short padding, CEs,
SDUs and long padding; otherwise the length check of `write_packet` fails.
-/

namespace SrsLte

open SchSetting

namespace SchPdu

def ceEntries (ss : List SchSetting) : List MacEntry := (ss.filter fun s => !s.isSdu).map entry

def sduEntries (ss : List SchSetting) : List MacEntry := (ss.filter SchSetting.isSdu).map entry

def entries (ss : List SchSetting) : List MacEntry := ceEntries ss ++ sduEntries ss

def lastSaving (ss : List SchSetting) : ℕ :=
  ((sduEntries ss).getLast?.map fun e => e.headerSize - 1).getD 0

def bytesLeft (pduLen : ℕ) (ss : List SchSetting) : ℕ := pduLen + lastSaving ss - cost ss

def shortPadding (pduLen : ℕ) (ss : List SchSetting) : ℕ :=
  if bytesLeft pduLen ss > 2 then 0 else bytesLeft pduLen ss

def longPadding (pduLen : ℕ) (ss : List SchSetting) : ℕ :=
  if bytesLeft pduLen ss > 2 then bytesLeft pduLen ss - 1 - lastSaving ss else 0

def padEntry (n : ℕ) : MacEntry := ⟨Lcid.padding, List.replicate n 0⟩

def packetEntries (pduLen : ℕ) (ss : List SchSetting) : List MacEntry :=
  List.replicate (shortPadding pduLen ss) (padEntry 0) ++ entries ss ++
    if bytesLeft pduLen ss > 2 then [padEntry (longPadding pduLen ss)] else []

theorem entries_perm (ss : List SchSetting) : (entries ss).Perm (ss.map entry) := by
  unfold entries ceEntries sduEntries
  rw [← List.map_append]
  exact (List.perm_append_comm.trans (List.filter_append_perm SchSetting.isSdu ss)).map entry

theorem cost_eq (ss : List SchSetting) :
    cost ss = ((entries ss).map fun e => e.headerSize + e.payload.length).sum := by
  rw [((entries_perm ss).map _).sum_eq, List.map_map]
  rfl

theorem length_entries (ss : List SchSetting) : (entries ss).length = ss.length := by
  rw [(entries_perm ss).length_eq, List.length_map]

theorem length_payloads_entries (ss : List SchSetting) :
    (MacEntry.payloads (entries ss)).length =
      (MacEntry.payloads (ceEntries ss)).length + (sduBytes ss).length := by
  unfold entries MacEntry.payloads
  rw [List.flatMap_append, List.length_append]
  rfl

theorem cost_split (ss : List SchSetting) :
    cost ss = ((entries ss).map MacEntry.headerSize).sum +
      (MacEntry.payloads (entries ss)).length := by
  rw [cost_eq, MacEntry.payloads, List.length_flatMap]
  exact List.sum_map_add

theorem sduEntries_append (ss ss' : List SchSetting) :
    sduEntries (ss ++ ss') = sduEntries ss ++ sduEntries ss' := by
  unfold sduEntries
  rw [List.filter_append, List.map_append]

theorem sduEntries_eq_nil {ss : List SchSetting} (h : ∀ s ∈ ss, s.isSdu = false) :
    sduEntries ss = [] := by
  unfold sduEntries
  rw [List.filter_eq_nil_iff.mpr fun s hs => by simp [h s hs]]
  rfl

variable {a : List SchSetting} {s : SchSetting} {g : ℕ → Bool}

theorem sduEntries_last {b : List SchSetting} (hs : s.isSdu = true)
    (hb : ∀ s' ∈ b, s'.isSdu = false) : sduEntries (a ++ s :: b) = sduEntries a ++ [s.entry] := by
  rw [sduEntries_append, show s :: b = [s] ++ b from rfl, sduEntries_append, sduEntries_eq_nil hb,
    List.append_nil]
  unfold sduEntries
  rw [List.filter_cons_of_pos hs]
  rfl

variable {start p : SchPdu} {ss : List SchSetting} {missed : ℕ}

theorem Built.lastSduGrowth_eq (h : Built start ss 0 p) : p.lastSduGrowth = lastSaving ss := by
  have hlast := h.last rfl
  unfold lastSduGrowth lastSaving
  cases hj : p.lastSduIdx with
  | none =>
    rw [hj] at hlast
    rw [sduEntries_eq_nil hlast]
    rfl
  | some i =>
    rw [hj] at hlast
    obtain ⟨a, s, b, rfl, rfl, hs, hb⟩ := hlast
    change sizeHeaderSdu (p.payloadSize a.length) - 1 = _
    rw [payloadSize_eq h.subheaders, sduEntries_last hs hb, List.getLast?_concat]
    simp [headerSize_sdu hs]

theorem Built.remLen_eq (h : Built start ss 0 p) : p.remLen = bytesLeft start.pduLen ss := by
  have haccount := h.account
  rw [h.lastSduGrowth_eq] at haccount
  unfold bytesLeft
  omega

theorem Built.onetwoPadding_eq (h : Built start ss 0 p) :
    p.onetwoPadding = shortPadding start.pduLen ss := by
  unfold onetwoPadding isMultibytePadding shortPadding
  rw [h.remLen_eq]
  simp only [decide_eq_true_eq]

theorem Built.lastSduHeaderGrowth_eq (h : Built start ss missed p) :
    p.lastSduHeaderGrowth = p.lastSduGrowth := by
  unfold lastSduHeaderGrowth lastSduGrowth
  cases hj : p.lastSduIdx with
  | none => rfl
  | some i =>
    obtain ⟨s, hs, hsdu⟩ := h.lastIdx i hj
    change ((p.subheaders[i]?.map fun s => s.getHeaderSize false).getD 1) - 1 =
      sizeHeaderSdu (p.payloadSize i) - 1
    rw [payloadSize_eq h.subheaders, h.subheaders, List.getElem?_map, hs]
    change s.subh.getHeaderSize false - 1 = sizeHeaderSdu s.entry.payload.length - 1
    rw [subh_getHeaderSize, headerSize_sdu hsdu]

theorem Built.numPadding_eq (h : Built start ss 0 p) :
    p.numPadding = longPadding start.pduLen ss := by
  unfold numPadding isMultibytePadding longPadding
  rw [h.lastSduHeaderGrowth_eq, h.lastSduGrowth_eq, h.remLen_eq]
  simp only [decide_eq_true_eq]

theorem mapIdx_getHeaderSize (ss : List SchSetting) (h : ∀ j < ss.length, g j = false) :
    ((ss.map subh).mapIdx fun j s => s.getHeaderSize (g j)) =
      ss.map fun s => s.entry.headerSize := by
  induction ss generalizing g with
  | nil => rfl
  | cons s ss ih =>
    rw [List.map_cons, List.mapIdx_cons, List.map_cons, h 0 (by simp), subh_getHeaderSize,
      ih fun j hj => h (j + 1) (by simpa using hj)]

theorem Built.sum_getHeaderSize (h : Built start ss missed p) :
    (p.subheaders.mapIdx fun i s => s.getHeaderSize (p.isLastSdu i)).sum +
        (if p.isMultibytePadding then 0 else p.lastSduGrowth) =
      ((entries ss).map MacEntry.headerSize).sum := by
  rw [((entries_perm ss).map _).sum_eq, List.map_map, h.subheaders]
  change _ = (ss.map fun s => s.entry.headerSize).sum
  by_cases hflag : p.isMultibytePadding = true ∨ p.lastSduIdx = none
  · rw [mapIdx_getHeaderSize ss]
    · rcases hflag with hmulti | hnone
      · rw [if_pos hmulti, Nat.add_zero]
      · unfold lastSduGrowth
        rw [hnone]
        simp
    · intro j _
      unfold isLastSdu
      rcases hflag with hmulti | hnone
      · simp [hmulti]
      · simp [hnone]
  · rw [not_or, Bool.not_eq_true] at hflag
    obtain ⟨hmulti, hsome⟩ := hflag
    obtain ⟨i, hi⟩ := Option.ne_none_iff_exists'.mp hsome
    obtain ⟨s, hs, hsdu⟩ := h.lastIdx i hi
    have hgrowth : p.lastSduGrowth = s.entry.headerSize - 1 := by
      unfold lastSduGrowth
      rw [hi]
      change sizeHeaderSdu (p.payloadSize i) - 1 = _
      rw [payloadSize_eq h.subheaders, hs, headerSize_sdu hsdu]
      rfl
    obtain ⟨a, b, hab, hlen⟩ : ∃ a b, ss = a ++ s :: b ∧ a.length = i := by
      obtain ⟨hlt, hget⟩ := List.getElem?_eq_some_iff.mp hs
      exact ⟨ss.take i, ss.drop (i + 1), by
        rw [← hget, List.getElem_cons_drop, List.take_append_drop], by simp; omega⟩
    have hpos := s.entry.headerSize_pos
    rw [hmulti, hgrowth, hab]
    have hflags : ∀ j, p.isLastSdu j = decide (i = j) := by
      intro j
      unfold isLastSdu
      simp [hmulti, hi]
    simp only [hflags, List.map_append, List.map_cons, List.mapIdx_append, List.mapIdx_cons,
      List.length_map, List.sum_append, List.sum_cons, hlen, Nat.zero_add, decide_true]
    rw [mapIdx_getHeaderSize a (g := fun j => decide (i = j)),
      mapIdx_getHeaderSize b (g := fun j => decide (i = j + 1 + i))]
    · change _ + (1 + _) + _ = _
      simp only [Bool.false_eq_true, if_false]
      omega
    · intro j _
      exact decide_eq_false (by omega)
    · intro j hj
      exact decide_eq_false (by omega)

theorem ces_eq (h : p.subheaders = ss.map subh) :
    p.ces = (ss.filter fun s => !s.isSdu).map subh := by
  unfold ces
  rw [h, List.filter_map]
  congr 2
  exact funext fun s => congrArg (fun l => !SrsLte.isSdu l) s.subh_lcid

theorem sum_ces_nofBytes (h : p.subheaders = ss.map subh) :
    (p.ces.map SchSubh.nofBytes).sum = (MacEntry.payloads (ceEntries ss)).length := by
  rw [ces_eq h, MacEntry.payloads, List.length_flatMap, ceEntries, List.map_map, List.map_map]
  congr 2
  exact funext fun s => s.subh_nofBytes

theorem Built.total (h : Built start ss missed p) :
    p.totalHeaderSize + p.buffer.nBytes + p.numPadding = start.pduLen + missed := by
  have hsum := h.sum_getHeaderSize
  have haccount := h.account
  have hgrowth := h.lastSduHeaderGrowth_eq
  have hle : p.lastSduGrowth ≤ 2 := by
    unfold lastSduGrowth sizeHeaderSdu
    split
    · exact Nat.zero_le _
    · split_ifs <;> omega
  rw [cost_split, length_payloads_entries] at haccount
  unfold totalHeaderSize headerSz numPadding onetwoPadding ByteBuffer.nBytes
  rw [sum_ces_nofBytes h.subheaders, h.msg, hgrowth]
  by_cases hmulti : p.isMultibytePadding = true
  · have hrem : p.remLen > 2 := of_decide_eq_true hmulti
    simp only [hmulti, if_true] at hsum ⊢
    omega
  · simp only [hmulti, Bool.false_eq_true, if_false] at hsum ⊢
    omega

theorem writeSubheader_subh (s : SchSetting) (isLast : Bool) :
    SchSubh.writeSubheader s.subh.lcid s.subh.nofBytes isLast = s.entry.subheader isLast := by
  rw [subh_lcid, subh_nofBytes]
  rfl

theorem flatMap_writeSubheader {q : SchSubh → Bool} (ss : List SchSetting)
    {k : ℕ} (h : ∀ j, k ≤ j → j < k + ss.length → g j = false) :
    ((((ss.map subh).zipIdx k).filter fun a => q a.1).flatMap fun a =>
        SchSubh.writeSubheader a.1.lcid a.1.nofBytes (g a.2)) =
      ((ss.filter fun s => q s.subh).map entry).flatMap (MacEntry.subheader false) := by
  induction ss generalizing k with
  | nil => rfl
  | cons s ss ih =>
    have hfirst : g k = false := h k le_rfl (by simp)
    have htail := ih (k := k + 1) fun j hj hlt => h j (by omega) (by
      rw [List.length_cons]
      omega)
    rw [List.map_cons, List.zipIdx_cons]
    by_cases hq : q s.subh = true
    · rw [List.filter_cons_of_pos (by exact hq), 
        List.filter_cons_of_pos (p := fun s : SchSetting => q s.subh) hq, List.flatMap_cons,
        List.map_cons, List.flatMap_cons, htail]
      change SchSubh.writeSubheader s.subh.lcid s.subh.nofBytes (g k) ++ _ = _
      rw [writeSubheader_subh, hfirst]
    · rw [List.filter_cons_of_neg (by exact hq), 
        List.filter_cons_of_neg (p := fun s : SchSetting => q s.subh) hq, htail]

theorem filter_ce (ss : List SchSetting) :
    (ss.filter fun s => !SrsLte.isSdu s.subh.lcid) = ss.filter fun s => !s.isSdu := by
  congr 1
  exact funext fun s => congrArg (fun l => !SrsLte.isSdu l) s.subh_lcid

theorem filter_sdu (ss : List SchSetting) :
    (ss.filter fun s => SrsLte.isSdu s.subh.lcid) = ss.filter SchSetting.isSdu := by
  congr 1
  exact funext fun s => congrArg SrsLte.isSdu s.subh_lcid

theorem flatMap_ce (ss : List SchSetting) (h : ∀ j < ss.length, g j = false) :
    (((ss.map subh).zipIdx.filter fun a => !SrsLte.isSdu a.1.lcid).flatMap fun a =>
        SchSubh.writeSubheader a.1.lcid a.1.nofBytes (g a.2)) =
      (ceEntries ss).flatMap (MacEntry.subheader false) := by
  rw [flatMap_writeSubheader (q := fun s => !SrsLte.isSdu s.lcid) ss
    fun j _ hj => h j (by omega), filter_ce]
  rfl

theorem flatMap_sdu (ss : List SchSetting) (h : ∀ j < ss.length, g j = false) :
    (((ss.map subh).zipIdx.filter fun a => SrsLte.isSdu a.1.lcid).flatMap fun a =>
        SchSubh.writeSubheader a.1.lcid a.1.nofBytes (g a.2)) =
      (sduEntries ss).flatMap (MacEntry.subheader false) := by
  rw [flatMap_writeSubheader (q := fun s => SrsLte.isSdu s.lcid) ss
    fun j _ hj => h j (by omega), filter_sdu]
  rfl

theorem writePayloads {isUl : Bool} (hvalid : ∀ s ∈ ss, s.Valid isUl) :
    (((ss.filter fun s => !s.isSdu).map subh).flatMap fun s => s.writePayload isUl) =
      MacEntry.payloads (ceEntries ss) := by
  unfold ceEntries MacEntry.payloads
  rw [List.flatMap_map, List.flatMap_map]
  refine List.flatMap_congr fun s hs => ?_
  obtain ⟨hmem, hce⟩ := List.mem_filter.mp hs
  cases s with
  | ce c =>
    change (c.bytes ++ (List.replicate 64 0).drop c.bytes.length).take (sizeofCe c.lcid isUl) =
      c.bytes
    rw [hvalid _ hmem, List.take_left]
  | sdu lcid _ =>
    rw [show (SchSetting.sdu lcid _).isSdu = true from decide_eq_true (hvalid _ hmem)] at hce
    exact absurd hce (by simp)
  | sduItf lcid _ _ =>
    rw [show (SchSetting.sduItf lcid _ _).isSdu = true from decide_eq_true (hvalid _ hmem)] at hce
    exact absurd hce (by simp)

theorem lastSaving_lt_cost (h : ss ≠ []) : lastSaving ss < cost ss := by
  unfold lastSaving
  cases hlast : (sduEntries ss).getLast? with
  | none =>
    obtain ⟨s, ss', rfl⟩ := List.exists_cons_of_ne_nil h
    have := s.entry.headerSize_pos
    change 0 < (s.entry.headerSize + s.entry.payload.length) + cost ss'
    omega
  | some e =>
    have hmem : e ∈ entries ss := List.mem_append_right _ (List.mem_of_getLast? hlast)
    have hle := List.le_sum_of_mem
      (List.mem_map_of_mem (f := fun e : MacEntry => e.headerSize + e.payload.length) hmem)
    have := e.headerSize_pos
    rw [cost_eq]
    change e.headerSize - 1 < _
    omega

theorem Built.shortPadding_lt (h : Built start ss 0 p) (hss : ss ≠ []) :
    shortPadding start.pduLen ss < start.pduLen := by
  have hlt := lastSaving_lt_cost hss
  have haccount := h.account
  rw [h.lastSduGrowth_eq, h.remLen_eq] at haccount
  unfold shortPadding
  split_ifs <;> omega

/-- The subheaders of the SDUs. -/
def sduHeader (p : SchPdu) (ss : List SchSetting) : Bytes :=
  if decide (p.lastSduIdx = none) then []
  else
    ((ss.map subh).zipIdx.filter fun a => SrsLte.isSdu a.1.lcid).flatMap fun a =>
      SchSubh.writeSubheader a.1.lcid a.1.nofBytes (p.isLastSdu a.2)

theorem Built.headerBytes_of_parts (h : Built start ss 0 p) (hss : ss ≠ [])
    (hvalid : ∀ s ∈ ss, s.Valid start.pduIsUl) {ce sdu : Bytes}
    (hce : (((ss.map subh).zipIdx.filter fun a => !SrsLte.isSdu a.1.lcid).flatMap fun a =>
      SchSubh.writeSubheader a.1.lcid a.1.nofBytes (decide (p.lastSduIdx = none) &&
        !p.isMultibytePadding && decide (a.2 + 1 = ss.length))) = ce)
    (hsdu : p.sduHeader ss = sdu) :
    p.headerBytes =
      (List.replicate (shortPadding start.pduLen ss) (padEntry 0)).flatMap
          (MacEntry.subheader false) ++ ce ++ sdu ++
        (if p.isMultibytePadding then
          (padEntry (longPadding start.pduLen ss)).subheader true else []) ++
            MacEntry.payloads (ceEntries ss) := by
  have hshort : (!decide (p.pduLen > p.onetwoPadding)) = false := by
    rw [h.onetwoPadding_eq, h.pduLen, decide_eq_true (h.shortPadding_lt hss)]
    rfl
  have hpads (n : ℕ) : (List.replicate n (SchSubh.writeSubheader Lcid.padding 0 false)).flatten =
      (List.replicate n (padEntry 0)).flatMap (MacEntry.subheader false) := by
    rw [List.flatMap_def, List.map_replicate]
    rfl
  have hpad : SchSubh.writeSubheader Lcid.padding p.numPadding true =
      (padEntry (longPadding start.pduLen ss)).subheader true := rfl
  unfold headerBytes
  dsimp only
  rw [hshort, hpads, h.onetwoPadding_eq, ces_eq h.subheaders, h.isUl, writePayloads hvalid,
    h.subheaders, List.length_map, hce, ← hsdu, sduHeader, hpad]

theorem isMultibytePadding_iff (h : Built start ss 0 p) :
    p.isMultibytePadding = true ↔ bytesLeft start.pduLen ss > 2 := by
  unfold isMultibytePadding
  rw [h.remLen_eq, decide_eq_true_iff]

theorem subheaders_concat (es : List MacEntry) (e : MacEntry) :
    MacEntry.subheaders (es ++ [e]) = es.flatMap (MacEntry.subheader false) ++ e.subheader true :=
  MacEntry.subheaders_append es (List.cons_ne_nil e [])

theorem exists_concat_of_no_sdu (hss : ss ≠ []) (h : ∀ s ∈ ss, s.isSdu = false) :
    ∃ a s, ss = a ++ [s] ∧ ceEntries ss = ceEntries a ++ [s.entry] := by
  obtain ⟨a, s, rfl⟩ := List.eq_nil_or_concat ss |>.resolve_left hss
  rw [List.concat_eq_append] at h ⊢
  refine ⟨a, s, rfl, ?_⟩
  unfold ceEntries
  rw [List.filter_append, List.filter_cons_of_pos (by simp [h s (by simp)]), List.map_append]
  rfl

theorem flatMap_ce_last (hs : s.isSdu = false) :
    (((((a ++ [s]).map subh).zipIdx.filter fun x => !SrsLte.isSdu x.1.lcid).flatMap fun x =>
        SchSubh.writeSubheader x.1.lcid x.1.nofBytes (decide (x.2 + 1 = (a ++ [s]).length)))) =
      (ceEntries a).flatMap (MacEntry.subheader false) ++ s.entry.subheader true := by
  have hlcid : (!SrsLte.isSdu s.subh.lcid) = true := by
    rw [subh_lcid]
    exact congrArg (!·) hs
  rw [List.map_append, List.zipIdx_append, List.filter_append, List.flatMap_append]
  congr 1
  · exact flatMap_ce (g := fun j => decide (j + 1 = (a ++ [s]).length)) a fun j hj =>
      decide_eq_false (by simp; omega)
  · rw [List.map_cons, List.map_nil, List.zipIdx_cons, List.zipIdx_nil, List.length_map,
      List.filter_cons_of_pos (by exact hlcid)]
    simp only [List.filter_nil, List.flatMap_cons, List.flatMap_nil, List.append_nil,
      writeSubheader_subh, List.length_append, List.length_singleton, Nat.zero_add, decide_true]

theorem flatMap_sdu_last {b : List SchSetting} (hs : s.isSdu = true)
    (hb : ∀ s' ∈ b, s'.isSdu = false) :
    (((((a ++ s :: b).map subh).zipIdx.filter fun x => SrsLte.isSdu x.1.lcid).flatMap fun x =>
        SchSubh.writeSubheader x.1.lcid x.1.nofBytes (decide (a.length = x.2)))) =
      (sduEntries a).flatMap (MacEntry.subheader false) ++ s.entry.subheader true := by
  have hlcid : SrsLte.isSdu s.subh.lcid = true := by
    rw [subh_lcid]
    exact hs
  rw [List.map_append, List.zipIdx_append, List.filter_append, List.flatMap_append]
  congr 1
  · exact flatMap_sdu (g := fun j => decide (a.length = j)) a fun j hj =>
      decide_eq_false (by omega)
  · rw [List.map_cons, List.zipIdx_cons, List.length_map,
      List.filter_cons_of_pos (by exact hlcid), List.flatMap_cons]
    have htail := flatMap_writeSubheader (q := fun s => SrsLte.isSdu s.lcid)
      (g := fun j => decide (a.length = j)) b (k := 0 + a.length + 1) fun j hj _ =>
        decide_eq_false (by omega)
    rw [htail, filter_sdu, List.filter_eq_nil_iff.mpr fun s' hs' => by simp [hb s' hs'],
      writeSubheader_subh, decide_eq_true (Nat.zero_add a.length).symm]
    simp

theorem Built.headerBytes_eq (h : Built start ss 0 p) (hss : ss ≠ [])
    (hvalid : ∀ s ∈ ss, s.Valid start.pduIsUl) :
    p.headerBytes = MacEntry.subheaders (packetEntries start.pduLen ss) ++
      MacEntry.payloads (ceEntries ss) := by
  have hlast := h.last rfl
  by_cases hmulti : bytesLeft start.pduLen ss > 2
  · have hm := (isMultibytePadding_iff h).mpr hmulti
    have hce := flatMap_ce (g := fun j => decide (p.lastSduIdx = none) &&
      !p.isMultibytePadding && decide (j + 1 = ss.length)) ss fun j _ => by simp [hm]
    have hsdu : p.sduHeader ss =
        (sduEntries ss).flatMap (MacEntry.subheader false) := by
      unfold sduHeader
      cases hj : p.lastSduIdx with
      | none =>
        rw [hj] at hlast
        rw [sduEntries_eq_nil hlast]
        rfl
      | some i =>
        exact flatMap_sdu (g := p.isLastSdu) ss fun j _ => by simp [isLastSdu, hm]
    rw [h.headerBytes_of_parts hss hvalid hce hsdu, if_pos hm, packetEntries, if_pos hmulti,
      subheaders_concat, List.flatMap_append, entries, List.flatMap_append]
    simp only [List.append_assoc]
  · have hm : p.isMultibytePadding = false := by
      rw [← Bool.not_eq_true, isMultibytePadding_iff h]
      exact hmulti
    cases hj : p.lastSduIdx with
    | none =>
      rw [hj] at hlast
      obtain ⟨a, s, hsplit, hces⟩ := exists_concat_of_no_sdu hss hlast
      have hce := flatMap_ce_last (a := a) (hlast s (by simp [hsplit]))
      have hsdu : p.sduHeader ss = [] := by
        rw [sduHeader, hj]
        rfl
      rw [← hsplit] at hce
      have hpacket : packetEntries start.pduLen ss =
          List.replicate (shortPadding start.pduLen ss) (padEntry 0) ++ ceEntries a ++
            [s.entry] := by
        unfold packetEntries entries
        rw [if_neg hmulti, sduEntries_eq_nil hlast, hces, List.append_nil, List.append_nil,
          List.append_assoc]
      rw [h.headerBytes_of_parts hss hvalid (by simpa [hj, hm] using hce) hsdu, hm, hpacket,
        subheaders_concat, List.flatMap_append]
      simp only [Bool.false_eq_true, if_false, List.append_nil, List.append_assoc]
    | some i =>
      rw [hj] at hlast
      obtain ⟨a, s, b, hsplit, rfl, hs, hb⟩ := hlast
      have hce := flatMap_ce (g := fun j => decide (p.lastSduIdx = none) &&
        !p.isMultibytePadding && decide (j + 1 = ss.length)) ss fun j _ => by simp [hj]
      have hflag : p.isLastSdu = fun j => decide (a.length = j) := by
        funext j
        simp [isLastSdu, hm, hj]
      have hsdu : p.sduHeader ss =
          (sduEntries a).flatMap (MacEntry.subheader false) ++ s.entry.subheader true := by
        rw [sduHeader, hj, hflag, hsplit]
        exact flatMap_sdu_last hs hb
      have hsdus : sduEntries ss = sduEntries a ++ [s.entry] := by
        rw [hsplit]
        exact sduEntries_last hs hb
      have hpacket : packetEntries start.pduLen ss =
          List.replicate (shortPadding start.pduLen ss) (padEntry 0) ++ ceEntries ss ++
            sduEntries a ++ [s.entry] := by
        unfold packetEntries entries
        rw [if_neg hmulti, hsdus, List.append_nil]
        simp only [List.append_assoc]
      rw [h.headerBytes_of_parts hss hvalid hce hsdu, hm, hpacket, subheaders_concat,
        List.flatMap_append, List.flatMap_append]
      simp only [Bool.false_eq_true, if_false, List.append_nil, List.append_assoc]

theorem length_subheaders_concat (es : List MacEntry) (e : MacEntry) :
    (MacEntry.subheaders (es ++ [e])).length = (es.map MacEntry.headerSize).sum + 1 := by
  rw [subheaders_concat, List.length_append, MacEntry.length_flatMap_subheader,
    e.length_subheader_true]

theorem headerSize_padEntry (n : ℕ) : (padEntry n).headerSize = 1 := rfl

theorem headerSize_ce {e : MacEntry} (he : e ∈ ceEntries ss) : e.headerSize = 1 := by
  obtain ⟨s, hs, rfl⟩ := List.mem_map.mp he
  have hce := (List.mem_filter.mp hs).2
  exact if_neg fun hsdu => by simp [SchSetting.isSdu, hsdu] at hce

theorem entries_concat (hss : ss ≠ []) :
    ∃ es e, entries ss = es ++ [e] ∧ e.headerSize = 1 + lastSaving ss := by
  rcases List.eq_nil_or_concat (sduEntries ss) with hnil | ⟨sdus, e, hconcat⟩
  · have hne : ceEntries ss ≠ [] := by
      intro hce
      have hlen := length_entries ss
      rw [entries, hnil, hce] at hlen
      exact hss (List.length_eq_zero_iff.mp hlen.symm)
    obtain ⟨ces, e, hconcat⟩ := (List.eq_nil_or_concat (ceEntries ss)).resolve_left hne
    rw [List.concat_eq_append] at hconcat
    refine ⟨ces, e, by rw [entries, hnil, hconcat, List.append_nil], ?_⟩
    rw [headerSize_ce (hconcat ▸ List.mem_append_right ces List.mem_cons_self), lastSaving, hnil]
    rfl
  · rw [List.concat_eq_append] at hconcat
    refine ⟨ceEntries ss ++ sdus, e, by rw [entries, hconcat, List.append_assoc], ?_⟩
    have := e.headerSize_pos
    rw [lastSaving, hconcat, List.getLast?_concat]
    change _ = 1 + (e.headerSize - 1)
    omega

theorem sum_headerSize_pads (n : ℕ) :
    ((List.replicate n (padEntry 0)).map MacEntry.headerSize).sum = n := by
  rw [List.map_replicate, headerSize_padEntry]
  simp

theorem length_subheaders_packet (pduLen : ℕ) (hss : ss ≠ []) :
    (MacEntry.subheaders (packetEntries pduLen ss)).length +
        (if bytesLeft pduLen ss > 2 then 0 else lastSaving ss) =
      ((entries ss).map MacEntry.headerSize).sum +
        if bytesLeft pduLen ss > 2 then 1 else shortPadding pduLen ss := by
  unfold packetEntries
  by_cases hmulti : bytesLeft pduLen ss > 2
  · rw [if_pos hmulti, if_pos hmulti, if_pos hmulti, length_subheaders_concat, List.map_append,
      List.sum_append, sum_headerSize_pads, shortPadding, if_pos hmulti, Nat.zero_add]
  · obtain ⟨es, e, hconcat, he⟩ := entries_concat hss
    rw [if_neg hmulti, if_neg hmulti, if_neg hmulti, List.append_nil, hconcat,
      ← List.append_assoc, length_subheaders_concat, List.map_append, List.sum_append,
      sum_headerSize_pads, List.map_append, List.sum_append]
    change _ = _ + (e.headerSize + 0) + _
    omega

theorem Built.length_headerBytes (h : Built start ss 0 p) (hss : ss ≠ [])
    (hvalid : ∀ s ∈ ss, s.Valid start.pduIsUl) : p.headerBytes.length = p.totalHeaderSize := by
  have hpacket := length_subheaders_packet start.pduLen hss
  have hsum := h.sum_getHeaderSize
  rw [h.headerBytes_eq hss hvalid, List.length_append]
  unfold totalHeaderSize headerSz
  rw [sum_ces_nofBytes h.subheaders, h.onetwoPadding_eq]
  rw [h.lastSduGrowth_eq] at hsum
  simp only [isMultibytePadding_iff h] at hsum ⊢
  split_ifs at hsum hpacket ⊢ <;> omega

theorem payloads_packet (pduLen : ℕ) (ss : List SchSetting) :
    MacEntry.payloads (packetEntries pduLen ss) =
      MacEntry.payloads (ceEntries ss) ++ sduBytes ss ++
        List.replicate (longPadding pduLen ss) 0 := by
  have hpads (n : ℕ) : (List.replicate n (padEntry 0)).flatMap MacEntry.payload = [] := by
    induction n with
    | zero => rfl
    | succ n ih => rw [List.replicate_succ, List.flatMap_cons, ih]; rfl
  have hlong : (if bytesLeft pduLen ss > 2 then [padEntry (longPadding pduLen ss)] else []).flatMap
      MacEntry.payload = List.replicate (longPadding pduLen ss) 0 := by
    unfold longPadding
    split_ifs
    · exact List.append_nil _
    · rfl
  unfold packetEntries MacEntry.payloads
  rw [List.flatMap_append, List.flatMap_append, hpads, hlong, entries, List.flatMap_append]
  rfl

/-- The buffer has room for the header in front of the SDUs and for the padding behind them. -/
def RoomInBuffer (p : SchPdu) : Prop :=
  p.totalHeaderSize ≤ p.buffer.headroom ∧ p.numPadding ≤ p.buffer.tailroom

theorem Built.writePacket_isSome (h : Built start ss missed p) :
    (p.writePacket ≠ none) ↔ missed = 0 ∧ RoomInBuffer p := by
  have htotal := h.total
  have hpdu := h.pduLen
  unfold writePacket RoomInBuffer
  split_ifs with h₁ h₂ h₃
  · simp; omega
  · simp; omega
  · simp; omega
  · simp; omega

theorem Built.writePacket_eq (h : Built start ss 0 p) (hss : ss ≠ [])
    (hvalid : ∀ s ∈ ss, s.Valid start.pduIsUl) (hroom : RoomInBuffer p) :
    p.writePacket = some (MacEntry.encode (packetEntries start.pduLen ss)) := by
  have htotal := h.total
  have hpdu := h.pduLen
  unfold writePacket
  rw [if_neg (Nat.not_lt.mpr hroom.1), if_neg (Nat.not_lt.mpr hroom.2), if_neg (by omega),
    h.length_headerBytes hss hvalid, List.drop_left' List.length_replicate,
    h.headerBytes_eq hss hvalid, h.msg, h.numPadding_eq, MacEntry.encode, payloads_packet]
  simp only [List.append_assoc]

theorem length_writePacket {bytes : Bytes} (hlen : p.headerBytes.length = p.totalHeaderSize)
    (hwrite : p.writePacket = some bytes) : bytes.length = p.pduLen := by
  unfold writePacket at hwrite
  split_ifs at hwrite with h₁ h₂ h₃
  obtain rfl := Option.some.inj hwrite
  rw [hlen, List.drop_left' List.length_replicate, List.length_append, List.length_append, hlen,
    List.length_replicate]
  exact not_ne_iff.mp h₃

end SchPdu
end SrsLte
