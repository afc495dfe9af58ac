import SrsLte.MacPduPacket

/-!
# Agreement of the MAC PDU writer and parser

The parser reads a written packet back exactly when its limit leaves room for all subheaders, the
padding included.
-/

namespace SrsLte

open SchSetting

namespace SchPdu

variable {start p : SchPdu} {ss : List SchSetting} {missed : ℕ}

theorem lcid_ce_lt (c : CeSetting) : c.lcid < Lcid.padding := by
  cases c with
  | bsr format _ => cases format <;> exact Nat.le_of_ble_eq_true rfl
  | _ => exact Nat.le_of_ble_eq_true rfl

theorem lcid_lt_padding {isUl : Bool} (hvalid : ∀ s ∈ ss, s.Valid isUl) :
    ∀ e ∈ entries ss, e.lcid < Lcid.padding := by
  intro e he
  obtain ⟨s, hs, rfl⟩ := List.mem_map.mp ((entries_perm ss).mem_iff.mp he)
  cases s with
  | ce c => exact lcid_ce_lt c
  | sdu lcid _ => exact Nat.lt_trans (hvalid _ hs) (by decide)
  | sduItf lcid _ _ => exact Nat.lt_trans (hvalid _ hs) (by decide)

theorem length_payload_le {e : MacEntry} (he : e ∈ sduEntries ss) :
    e.payload.length ≤ (sduBytes ss).length := by
  change _ ≤ (MacEntry.payloads (sduEntries ss)).length
  rw [MacEntry.payloads, List.length_flatMap]
  exact List.le_sum_of_mem (List.mem_map_of_mem (f := fun e => e.payload.length) he)

theorem Built.codable (h : Built start ss missed p) (hvalid : ∀ s ∈ ss, s.Valid start.pduIsUl) :
    ∀ e ∈ entries ss, e.Codable start.pduIsUl := by
  intro e he
  have hlcid : e.lcid < 32 := Nat.lt_trans (lcid_lt_padding hvalid e he) (by decide)
  rcases List.mem_append.mp he with hce | hsdu
  · obtain ⟨s, hs, rfl⟩ := List.mem_map.mp hce
    obtain ⟨hmem, hkind⟩ := List.mem_filter.mp hs
    cases s with
    | ce c =>
      have hlen := length_bytes_ce c
      exact ⟨hlcid, Nat.lt_trans hlen (by decide), fun _ => (hvalid _ hmem).symm⟩
    | sdu lcid _ =>
      rw [show (SchSetting.sdu lcid _).isSdu = true from decide_eq_true (hvalid _ hmem)] at hkind
      exact absurd hkind (by simp)
    | sduItf lcid _ _ =>
      rw [show (SchSetting.sduItf lcid _ _).isSdu = true from decide_eq_true (hvalid _ hmem)]
        at hkind
      exact absurd hkind (by simp)
  · have hle := length_payload_le hsdu
    have hfits := p.buffer.fits
    rw [h.msg] at hfits
    have hmax : maxBufferSizeBytes < 2 ^ 15 := by decide
    obtain ⟨s, hs, rfl⟩ := List.mem_map.mp hsdu
    exact ⟨hlcid, by omega, fun hnot => absurd (List.mem_filter.mp hs).2 hnot⟩

theorem codable_padEntry (isUl : Bool) : (padEntry 0).Codable isUl := by
  refine ⟨by decide, by decide, fun _ => ?_⟩
  cases isUl <;> rfl

theorem content_entries {isUl : Bool} (hvalid : ∀ s ∈ ss, s.Valid isUl) :
    MacEntry.content (entries ss) = entries ss := by
  unfold MacEntry.content
  exact List.filter_eq_self.mpr fun e he =>
    decide_eq_true (Nat.ne_of_lt (lcid_lt_padding hvalid e he))

theorem content_pads (n : ℕ) : MacEntry.content (List.replicate n (padEntry 0)) = [] := by
  unfold MacEntry.content
  exact List.filter_eq_nil_iff.mpr fun e he => by simp [List.eq_of_mem_replicate he, padEntry]

theorem content_append (es es' : List MacEntry) :
    MacEntry.content (es ++ es') = MacEntry.content es ++ MacEntry.content es' :=
  List.filter_append ..

theorem content_packet {isUl : Bool} (pduLen : ℕ) (hvalid : ∀ s ∈ ss, s.Valid isUl) :
    MacEntry.content (packetEntries pduLen ss) = entries ss := by
  have hlong : MacEntry.content
      (if bytesLeft pduLen ss > 2 then [padEntry (longPadding pduLen ss)] else []) = [] := by
    split_ifs <;> rfl
  unfold packetEntries
  rw [content_append, content_append, content_pads, content_entries hvalid, hlong]
  exact List.append_nil _

def paddingSubheaders (pduLen : ℕ) (ss : List SchSetting) : ℕ :=
  if bytesLeft pduLen ss > 2 then 1 else bytesLeft pduLen ss

theorem length_packetEntries (pduLen : ℕ) (ss : List SchSetting) :
    (packetEntries pduLen ss).length = ss.length + paddingSubheaders pduLen ss := by
  unfold packetEntries paddingSubheaders shortPadding
  rw [List.length_append, List.length_append, List.length_replicate, length_entries]
  split_ifs
  · rw [List.length_singleton]
    omega
  · rw [List.length_nil]
    omega

theorem Built.packet_concat (h : Built start ss missed p) (hss : ss ≠ [])
    (hvalid : ∀ s ∈ ss, s.Valid start.pduIsUl) :
    ∃ es e, packetEntries start.pduLen ss = es ++ [e] ∧ (∀ x ∈ es, x.Codable start.pduIsUl) ∧
      e.lcid < 32 ∧
        (if bytesLeft start.pduLen ss > 2 then es = entries ss
          else (MacEntry.content es).length < ss.length) := by
  have hcod := h.codable hvalid
  unfold packetEntries shortPadding
  by_cases hmulti : bytesLeft start.pduLen ss > 2
  · refine ⟨entries ss, padEntry (longPadding start.pduLen ss), ?_, hcod,
      show Lcid.padding < 32 by decide, ?_⟩
    · simp only [hmulti, if_true]
      rfl
    · rw [if_pos hmulti]
  · obtain ⟨es, e, hconcat, -⟩ := entries_concat hss
    refine ⟨List.replicate (bytesLeft start.pduLen ss) (padEntry 0) ++ es, e, ?_, ?_, ?_, ?_⟩
    · simp only [hmulti, if_false, hconcat, List.append_nil, List.append_assoc]
    · intro x hx
      rcases List.mem_append.mp hx with hpad | hx
      · rw [List.eq_of_mem_replicate hpad]
        exact codable_padEntry _
      · exact hcod x (hconcat ▸ List.mem_append_left _ hx)
    · exact (hcod e (hconcat ▸ List.mem_append_right _ List.mem_cons_self)).1
    · rw [if_neg hmulti, content_append, content_pads, List.nil_append]
      have hlen := length_entries ss
      rw [hconcat, List.length_append, List.length_singleton] at hlen
      have := List.length_filter_le (fun e : MacEntry => decide (e.lcid ≠ Lcid.padding)) es
      change (es.filter _).length < _
      omega

theorem map_lcid_readBack (pdu : Bytes) (subhs : List (RxSubh × ℕ)) :
    (RxSubh.readBack pdu subhs).map (fun x => (x.1, x.2.1)) =
      ((subhs.map Prod.fst).filter fun s => s.lcid ≠ Lcid.padding).map
        fun s => (s.lcid, s.nofBytes) := by
  unfold RxSubh.readBack
  rw [List.map_map, List.filter_map, List.map_map]
  rfl

theorem map_lcid_readOut (es : List MacEntry) :
    (es.map MacEntry.readOut).map (fun x => (x.1, x.2.1)) =
      es.map fun e => (e.lcid, e.payload.length) := by
  rw [List.map_map]
  rfl

theorem length_filter_rx (isUl : Bool) (front : List MacEntry) (e : MacEntry) (n : ℕ) :
    ((front.map (MacEntry.rx isUl false) ++ [(⟨e.lcid, n⟩ : RxSubh)]).filter
      fun s => decide (s.lcid ≠ Lcid.padding)).length =
        (MacEntry.content (front ++ [e])).length := by
  have hlcids : (front.map (MacEntry.rx isUl false) ++ [(⟨e.lcid, n⟩ : RxSubh)]).map RxSubh.lcid =
      (front ++ [e]).map MacEntry.lcid := by
    rw [List.map_append, List.map_map, List.map_append]
    rfl
  have hcount := congrArg (List.countP fun lcid => decide (lcid ≠ Lcid.padding)) hlcids
  rw [List.countP_map, List.countP_map, List.countP_eq_length_filter,
    List.countP_eq_length_filter] at hcount
  exact hcount

theorem Built.not_readBack (h : Built start ss missed p)
    (hvalid : ∀ s ∈ ss, s.Valid start.pduIsUl) (hss : ss ≠ [])
    (hmany : start.maxSubheaders ≤ ss.length + paddingSubheaders start.pduLen ss) :
    ¬ ∃ subhs, RxSubh.parsePacket start.pduIsUl start.maxSubheaders
        (MacEntry.encode (packetEntries start.pduLen ss)).length
        (MacEntry.encode (packetEntries start.pduLen ss)) = some subhs ∧
      RxSubh.readBack (MacEntry.encode (packetEntries start.pduLen ss)) subhs =
        (entries ss).map MacEntry.readOut := by
  rintro ⟨subhs, hparse, hread⟩
  obtain ⟨es, e, hpacket, hcod, -, hes⟩ := h.packet_concat hss hvalid
  have hlen := length_packetEntries start.pduLen ss
  rw [hpacket, List.length_append, List.length_singleton] at hlen
  have hpos := List.length_pos_iff.mpr hss
  have hfew := h.few.resolve_left hss
  obtain ⟨k, hk⟩ : ∃ k, start.maxSubheaders = k + 2 := ⟨start.maxSubheaders - 2, by omega⟩
  -- the loop stops after `k + 1` subheaders
  have htake : es.take (k + 1) ≠ [] := by
    rw [← List.length_pos_iff, List.length_take]
    omega
  obtain ⟨front, e', hfront⟩ := (List.eq_nil_or_concat _).resolve_left htake
  rw [List.concat_eq_append] at hfront
  obtain ⟨ptr, htrunc⟩ := MacEntry.parsePacket_encode_truncated hpacket hcod hfront (by omega)
  rw [hk, htrunc] at hparse
  obtain rfl := Option.some.inj hparse
  have hfields := congrArg (List.map fun x : ℕ × ℕ × Bytes => (x.1, x.2.1)) hread
  rw [map_lcid_readBack, map_lcid_readOut, List.map_append,
    MacEntry.payloadStarts_map_fst] at hfields
  by_cases hmulti : bytesLeft start.pduLen ss > 2
  · -- all entries are read, the last of them with the padding
    rw [if_pos hmulti] at hes
    have hall : es.take (k + 1) = es := by
      apply List.take_of_length_le
      rw [hes, length_entries]
      omega
    rw [hall] at hfront
    have he' : e'.lcid ≠ Lcid.padding :=
      Nat.ne_of_lt (lcid_lt_padding hvalid e' (by rw [← hes, hfront]; simp))
    rw [← hes, hfront, List.filter_append, List.map_append, List.map_append] at hfields
    have hlast := congrArg List.getLast? hfields
    rw [List.map_cons, List.map_nil, List.filter_cons_of_pos (by simpa using he')] at hlast
    simp only [List.filter_nil, List.map_cons, List.map_nil, List.getLast?_concat,
      Option.some.injEq, Prod.mk.injEq, true_and] at hlast
    rw [hpacket, MacEntry.length_encode_concat, hfront, List.map_append, List.sum_append] at hlast
    change _ + (e'.headerSize + e'.payload.length + 0) + 1 + _ - _ - 1 = _ at hlast
    have := e'.headerSize_pos
    omega
  · -- an entry is missing
    rw [if_neg hmulti] at hes
    have hcount := congrArg List.length hfields
    rw [List.length_map, List.length_map, length_entries] at hcount
    have hsub := ((List.take_sublist (k + 1) es).filter
      fun e : MacEntry => decide (e.lcid ≠ Lcid.padding)).length_le
    change (MacEntry.content (es.take (k + 1))).length ≤ (MacEntry.content es).length at hsub
    rw [hfront] at hsub
    rw [List.map_cons, List.map_nil, length_filter_rx] at hcount
    omega

theorem writePacket_of_room (h : Built start ss 0 p) (hroom : RoomInBuffer p)
    (hlen : p.headerBytes.length = p.totalHeaderSize) :
    p.writePacket = some (p.headerBytes ++ p.buffer.msg ++ List.replicate p.numPadding 0) := by
  have htotal := h.total
  have hpdu := h.pduLen
  unfold writePacket
  rw [if_neg (Nat.not_lt.mpr hroom.1), if_neg (Nat.not_lt.mpr hroom.2), if_neg (by omega), hlen,
    List.drop_left' List.length_replicate]

theorem encode_padding (tail : Bytes) :
    MacEntry.encode [⟨Lcid.padding, tail⟩] = 0x1F :: tail := by
  simp [MacEntry.encode, MacEntry.payloads, MacEntry.subheaders, MacEntry.subheader,
    SchSubh.writeSubheader, Lcid.padding, isSdu, Lcid.phrReport]

section Empty

variable (maxSubheaders pduLen : ℕ) (isUl : Bool) {buffer : ByteBuffer}

theorem headerBytes_empty : (initTx maxSubheaders pduLen isUl buffer).headerBytes =
    if pduLen > 2 then [0x1F] else List.replicate pduLen 0x1F := by
  unfold headerBytes onetwoPadding isMultibytePadding SchSubh.writeSubheader
  by_cases h : pduLen > 2
  · simp [initTx, ces, h, Lcid.padding, isSdu, Lcid.phrReport]
  · simp [initTx, ces, h, Lcid.padding, isSdu, Lcid.phrReport]

theorem totalHeaderSize_empty : (initTx maxSubheaders pduLen isUl buffer).totalHeaderSize =
    if pduLen > 2 then 1 else pduLen := by
  unfold totalHeaderSize headerSz onetwoPadding isMultibytePadding
  by_cases h : pduLen > 2
  · simp [initTx, ces, h]
  · simp [initTx, ces, h]

theorem numPadding_empty : (initTx maxSubheaders pduLen isUl buffer).numPadding =
    if pduLen > 2 then pduLen - 1 else 0 := by
  unfold numPadding isMultibytePadding lastSduHeaderGrowth
  by_cases h : pduLen > 2
  · simp [initTx, h]
  · simp [initTx, h]

theorem writePacket_empty (hbuf : buffer.msg = [])
    (hroom : RoomInBuffer (initTx maxSubheaders pduLen isUl buffer)) :
    (pduLen = 0 ∧ (initTx maxSubheaders pduLen isUl buffer).writePacket = some []) ∨
      ∃ tail : Bytes, tail.length + 1 = pduLen ∧
        (initTx maxSubheaders pduLen isUl buffer).writePacket =
          some (MacEntry.encode [⟨Lcid.padding, tail⟩]) := by
  have hlen : (initTx maxSubheaders pduLen isUl buffer).headerBytes.length =
      (initTx maxSubheaders pduLen isUl buffer).totalHeaderSize := by
    rw [headerBytes_empty, totalHeaderSize_empty]
    split_ifs <;> simp
  rw [writePacket_of_room (built_initTx maxSubheaders pduLen isUl hbuf) hroom hlen,
    headerBytes_empty, numPadding_empty, show (initTx maxSubheaders pduLen isUl buffer).buffer.msg =
      [] from hbuf, List.append_nil]
  by_cases h : pduLen > 2
  · refine Or.inr ⟨List.replicate (pduLen - 1) 0, by rw [List.length_replicate]; omega, ?_⟩
    rw [if_pos h, if_pos h, encode_padding]
    rfl
  · rw [if_neg h, if_neg h, List.replicate_zero, List.append_nil]
    cases pduLen with
    | zero => exact Or.inl ⟨rfl, rfl⟩
    | succ n =>
      refine Or.inr ⟨List.replicate n 0x1F, by rw [List.length_replicate], ?_⟩
      rw [encode_padding, List.replicate_succ]

end Empty

theorem parsePacket_nothing (isUl : Bool) (maxSubheaders pduLen : ℕ) (pdu : Bytes)
    (h : maxSubheaders = 0 ∨ pduLen = 0 ∧ pdu = []) :
    RxSubh.parsePacket isUl maxSubheaders pduLen pdu = some [] := by
  unfold RxSubh.parsePacket RxSubh.parseLoop
  rcases h with rfl | ⟨rfl, rfl⟩
  · rfl
  · cases maxSubheaders with
    | zero => rfl
    | succ n => simp [RxSubh.readSubheader, RxSubh.payloadStarts, isSdu, Lcid.phrReport]

/-- `write_packet` gives a packet of the length of the PDU, from which the parser reads back the
CEs and SDUs that were set. -/
def ReadsBack (isUl : Bool) (maxSubheaders pduLen : ℕ) (p : SchPdu) (ss : List SchSetting) : Prop :=
  ∃ bytes, p.writePacket = some bytes ∧ bytes.length = pduLen ∧
    ∃ subhs, RxSubh.parsePacket isUl maxSubheaders pduLen bytes = some subhs ∧
      RxSubh.readBack bytes subhs = (entries ss).map MacEntry.readOut

/-- Every SDU given as an array finds its length twice in the tailroom, the buffer holds the
header and the padding, and the subheaders, padding included, stay below the limit. -/
def Agreeable (maxSubheaders pduLen : ℕ) (buffer : ByteBuffer) (ss : List SchSetting) : Prop :=
  Accounted buffer.tailroom ss ∧
    pduLen ≤ buffer.headroom + (sduBytes ss).length + longPadding pduLen ss ∧
    (sduBytes ss).length + longPadding pduLen ss ≤ buffer.tailroom ∧
    (ss = [] ∨ ss.length + paddingSubheaders pduLen ss < maxSubheaders)

theorem Built.roomInBuffer_iff (h : Built start ss 0 p) (hbuf : start.buffer.msg = []) :
    RoomInBuffer p ↔
      start.pduLen ≤ start.buffer.headroom + (sduBytes ss).length + longPadding start.pduLen ss ∧
        (sduBytes ss).length + longPadding start.pduLen ss ≤ start.buffer.tailroom := by
  have htotal := h.total
  have hfits := p.buffer.fits
  unfold RoomInBuffer ByteBuffer.tailroom
  unfold ByteBuffer.nBytes at htotal ⊢
  rw [h.numPadding_eq, h.msg] at htotal
  rw [h.headroom, h.msg] at hfits
  rw [h.numPadding_eq, h.headroom, h.msg, hbuf, List.length_nil]
  constructor
  · rintro ⟨hhead, htail⟩
    exact ⟨by omega, by omega⟩
  · rintro ⟨hhead, htail⟩
    exact ⟨by omega, by omega⟩

theorem Built.readsBack_iff (h : Built start ss 0 p) (hvalid : ∀ s ∈ ss, s.Valid start.pduIsUl)
    (hss : ss ≠ []) (hroom : RoomInBuffer p) :
    ReadsBack start.pduIsUl start.maxSubheaders start.pduLen p ss ↔
      ss.length + paddingSubheaders start.pduLen ss < start.maxSubheaders := by
  have hwrite := h.writePacket_eq hss hvalid hroom
  have hlen := (length_writePacket (h.length_headerBytes hss hvalid) hwrite).trans h.pduLen
  constructor
  · rintro ⟨bytes, hbytes, -, hread⟩
    obtain rfl := Option.some.inj (hwrite.symm.trans hbytes)
    by_contra hmany
    exact h.not_readBack hvalid hss (Nat.le_of_not_lt hmany) (hlen.symm ▸ hread)
  · intro hfew
    obtain ⟨es, e, hpacket, hcod, he, -⟩ := h.packet_concat hss hvalid
    have hcount := length_packetEntries start.pduLen ss
    rw [hpacket, List.length_append, List.length_singleton] at hcount
    have hbelow : es.length + 1 < start.maxSubheaders := by omega
    obtain ⟨subhs, hparse, hread⟩ :=
      MacEntry.parsePacket_encode _ _ hcod he (Nat.zero_lt_of_lt hbelow) (Or.inr hbelow)
    refine ⟨_, hwrite, hlen, subhs, ?_, ?_⟩
    · rw [hpacket] at hlen ⊢
      rwa [hlen] at hparse
    · rw [hpacket, hread, ← hpacket, content_packet start.pduLen hvalid]

theorem readsBack_empty (maxSubheaders pduLen : ℕ) (isUl : Bool) {buffer : ByteBuffer}
    (hbuf : buffer.msg = []) (hroom : RoomInBuffer (initTx maxSubheaders pduLen isUl buffer)) :
    ReadsBack isUl maxSubheaders pduLen (initTx maxSubheaders pduLen isUl buffer) [] := by
  rcases writePacket_empty maxSubheaders pduLen isUl hbuf hroom with
    ⟨rfl, hwrite⟩ | ⟨tail, hlen, hwrite⟩
  · exact ⟨[], hwrite, rfl, [],
      parsePacket_nothing isUl maxSubheaders 0 [] (Or.inr ⟨rfl, rfl⟩), rfl⟩
  · have hlen' : (MacEntry.encode [⟨Lcid.padding, tail⟩]).length = pduLen := by
      rw [encode_padding]
      exact hlen
    by_cases hmax : maxSubheaders = 0
    · exact ⟨_, hwrite, hlen', [], parsePacket_nothing isUl maxSubheaders pduLen _ (Or.inl hmax),
        rfl⟩
    · obtain ⟨subhs, hparse, hread⟩ := MacEntry.parsePacket_encode isUl []
        (e := ⟨Lcid.padding, tail⟩) (List.forall_mem_nil _)
        (show Lcid.padding < 32 by decide) (Nat.pos_of_ne_zero hmax) (Or.inl rfl)
      rw [List.nil_append, hlen'] at hparse
      exact ⟨_, hwrite, hlen', subhs, hparse, hread⟩

/-- For calls that make each subheader by `new_subh` and one setter: the packet is read back
exactly under `Agreeable`. -/
theorem readsBack_iff_agreeable {isUl : Bool} {maxSubheaders pduLen : ℕ} {buffer : ByteBuffer}
    (hbuf : buffer.msg = []) {ss : List SchSetting} (hvalid : ∀ s ∈ ss, s.Valid isUl) {p : SchPdu}
    (hcalls : callAll (initTx maxSubheaders pduLen isUl buffer) (settingCalls ss) = some p) :
    ReadsBack isUl maxSubheaders pduLen p ss ↔ Agreeable maxSubheaders pduLen buffer ss := by
  obtain ⟨missed, hbuilt, hzero⟩ :=
    (built_initTx maxSubheaders pduLen isUl hbuf).run hvalid hcalls
  rw [List.nil_append] at hbuilt
  have haccounted : missed = 0 ↔ Accounted buffer.tailroom ss := by
    rw [hzero]
    exact ⟨fun h => h.2, fun h => ⟨rfl, h⟩⟩
  by_cases hmissed : missed = 0
  · subst hmissed
    have hroom : RoomInBuffer p ↔
        pduLen ≤ buffer.headroom + (sduBytes ss).length + longPadding pduLen ss ∧
          (sduBytes ss).length + longPadding pduLen ss ≤ buffer.tailroom :=
      hbuilt.roomInBuffer_iff hbuf
    unfold Agreeable
    rw [and_iff_right (haccounted.mp rfl), ← @and_assoc (pduLen ≤ _), ← hroom]
    have hwritten : ReadsBack isUl maxSubheaders pduLen p ss → RoomInBuffer p := by
      rintro ⟨bytes, hwrite, -⟩
      exact (hbuilt.writePacket_isSome.mp (by simp [hwrite])).2
    by_cases hss : ss = []
    · subst hss
      obtain rfl := Option.some.inj hcalls
      rw [and_iff_left (Or.inl rfl)]
      exact ⟨hwritten, readsBack_empty maxSubheaders pduLen isUl hbuf⟩
    · constructor
      · intro hread
        have hfit := hwritten hread
        exact ⟨hfit, Or.inr ((hbuilt.readsBack_iff hvalid hss hfit).mp hread)⟩
      · rintro ⟨hfit, hfew⟩
        exact (hbuilt.readsBack_iff hvalid hss hfit).mpr (hfew.resolve_left hss)
  · constructor
    · rintro ⟨bytes, hwrite, -⟩
      exact absurd (hbuilt.writePacket_isSome.mp (by simp [hwrite])).1 hmissed
    · rintro ⟨haccount, -⟩
      exact absurd (haccounted.mpr haccount) hmissed

/-- `byte_buffer_t` after `clear`. -/
def clearedBuffer : ByteBuffer := ⟨1020, [], by decide⟩

theorem readsBack_crnti_sdu :
    ∃ p, callAll (initTx 20 10 true clearedBuffer)
        (settingCalls [.sdu 3 [1, 2], .ce (.cRnti 70)]) = some p ∧
      ReadsBack true 20 10 p [.sdu 3 [1, 2], .ce (.cRnti 70)] := by
  have hvalid : ∀ s ∈ [SchSetting.sdu 3 [1, 2], .ce (.cRnti 70)], s.Valid true := by
    intro s hs
    rcases List.mem_cons.mp hs with rfl | hs
    · exact show 3 < Lcid.phrReport by decide
    · rw [List.mem_singleton.mp hs]
      rfl
  have hagree : Agreeable 20 10 clearedBuffer [.sdu 3 [1, 2], .ce (.cRnti 70)] :=
    ⟨⟨show 2 * 2 ≤ clearedBuffer.tailroom by decide, trivial, trivial⟩, by decide, by decide,
      Or.inr (by decide)⟩
  exact ⟨_, rfl, (readsBack_iff_agreeable rfl hvalid rfl).mpr hagree⟩

/-- 19 SDUs of one byte and padding: the last SDU comes back with the padding. -/
theorem full_pdu_not_readsBack :
    ∃ p, callAll (initTx 20 64 true clearedBuffer)
        (settingCalls (List.replicate 19 (.sdu 3 [7]))) = some p ∧
      ¬ ReadsBack true 20 64 p (List.replicate 19 (.sdu 3 [7])) := by
  refine ⟨_, rfl, ?_⟩
  rintro ⟨bytes, hwrite, -, subhs, hparse, hread⟩
  obtain rfl := Option.some.inj hwrite
  obtain rfl := Option.some.inj hparse
  revert hread
  decide

end SchPdu
end SrsLte
