import SrsLte.MacNrPdu

/-!
# Agreement on NR MAC PDUs

The parser takes the zeros behind the padding subheader for more subPDUs, and it keeps a subPDU
whose payload the PDU does not hold.
-/

namespace SrsLte

open NrSubPdu (readSubheader totalLength)

open NrSdu

section Adding

variable {p p' : NrMacPdu} {sdu : NrSdu} {sdus : List NrSdu}

theorem addSdu_eq_some (h : p.addSdu sdu = some p') :
    p'.ulsch = p.ulsch ∧ p'.buffer = p.buffer ++ sdu.written p.ulsch ∧
      sdu.size p.ulsch ≤ p.remainingLen ∧
      p'.remainingLen =
        (p.remainingLen + 2 ^ 32 - (sdu.sub p.ulsch).totalLength) % 2 ^ 32 := by
  unfold NrMacPdu.addSdu at h
  split_ifs at h with hfit
  obtain rfl := Option.some.inj h
  exact ⟨rfl, rfl, Nat.not_lt.mp hfit, rfl⟩

theorem addSdus_cons_eq_some (h : p.addSdus (sdu :: sdus) = some p') :
    ∃ q, p.addSdu sdu = some q ∧ q.addSdus sdus = some p' :=
  Option.bind_eq_some_iff.mp h

theorem addSdus_buffer (h : p.addSdus sdus = some p') :
    p'.ulsch = p.ulsch ∧ p'.buffer = p.buffer ++ sdus.flatMap (written p.ulsch) := by
  induction sdus generalizing p with
  | nil =>
    obtain rfl := Option.some.inj h
    exact ⟨rfl, (List.append_nil _).symm⟩
  | cons sdu sdus ih =>
    obtain ⟨q, hq, hrest⟩ := addSdus_cons_eq_some h
    obtain ⟨hul, hbuffer, -, -⟩ := addSdu_eq_some hq
    obtain ⟨hul', hbuffer'⟩ := ih hrest
    refine ⟨hul'.trans hul, ?_⟩
    rw [hbuffer', hbuffer, hul, List.flatMap_cons, List.append_assoc]

theorem addSdus_remainingLen (h : p.addSdus sdus = some p') (hlen : p.remainingLen < 2 ^ 32)
    (hsdus : ∀ sdu ∈ sdus, sdu.Announceable p.ulsch) :
    p'.remainingLen + (sdus.map (size p.ulsch)).sum = p.remainingLen := by
  induction sdus generalizing p with
  | nil =>
    obtain rfl := Option.some.inj h
    rfl
  | cons sdu sdus ih =>
    obtain ⟨q, hq, hrest⟩ := addSdus_cons_eq_some h
    obtain ⟨hul, -, hfit, hrem⟩ := addSdu_eq_some hq
    obtain ⟨hsdu, hsdus⟩ := List.forall_mem_cons.mp hsdus
    rw [hsdu.totalLength] at hrem
    have hq' : q.remainingLen = p.remainingLen - sdu.size p.ulsch := by
      rw [hrem]
      omega
    have hsum := ih hrest (by omega) (hul ▸ hsdus)
    rw [hul, hq'] at hsum
    rw [List.map_cons, List.sum_cons]
    omega

end Adding

section Reading

variable {ulsch : Bool} {bytes rest : Bytes} {behind : ℕ → UInt8} {offset : ℕ}
  {sdus : List NrSdu} {pads : List (NrSubPdu × ℕ)}

def nrContent (mem : ℕ → UInt8) (a : NrSubPdu × ℕ) : ℕ × Bytes := (a.1.lcid, nrPayload mem a)

/-- The first subPDUs that are read have the content of the SDUs exactly when each SDU was announced
with its own length, and reading goes on behind them. -/
theorem nrUnpacks_iff (hsdu : ∀ sdu ∈ sdus, MacNr.isSdu ulsch sdu.lcid = true)
    (hdrop : bytes.drop offset = sdus.flatMap (written ulsch) ++ rest) :
    (∃ subs, NrUnpacks ulsch (memory bytes behind) bytes.length offset (subs ++ pads) ∧
      subs.map (nrContent (memory bytes behind)) = sdus.map fun sdu => (sdu.lcid, sdu.data)) ↔
      (∀ sdu ∈ sdus, sdu.Announceable ulsch) ∧ NrUnpacks ulsch (memory bytes behind) bytes.length
        (offset + (sdus.map (size ulsch)).sum) pads := by
  induction sdus generalizing offset with
  | nil => simp
  | cons sdu sdus ih =>
    obtain ⟨hfirst, hsdu⟩ := List.forall_mem_cons.mp hsdu
    rw [List.flatMap_cons, List.append_assoc] at hdrop
    have hnext (hlen : sdu.Announceable ulsch) :
        bytes.drop (offset + sdu.size ulsch) = sdus.flatMap (written ulsch) ++ rest := by
      rw [← List.drop_drop, hdrop, ← hlen.length_written, List.drop_left]
    rw [List.forall_mem_cons, List.map_cons, List.map_cons, List.sum_cons, ← Nat.add_assoc]
    constructor
    · rintro ⟨_ | ⟨a, subs⟩, hunpacks, hcontent⟩
      · cases hcontent
      · obtain ⟨ha, hsubs⟩ := List.cons.inj hcontent
        have hread := readSubheader_setSdu hfirst behind hdrop
        have hlen : sdu.Announceable ulsch := by
          rw [announceable_iff]
          cases hunpacks with
          | next hlt hread' hrest =>
            obtain rfl := Option.some.inj (hread.symm.trans hread')
            have hdata := congrArg (fun c => c.2.length) ha
            exact (length_bytesAt _ _ _).symm.trans hdata
        have hsub := hlen.readSubheader hfirst behind hdrop
        cases hunpacks with
        | next hlt hread' hrest =>
          obtain rfl := Option.some.inj (hsub.symm.trans hread')
          rw [hlen.totalLength] at hrest
          obtain ⟨hall, hpads⟩ := (ih hsdu (hnext hlen)).mp ⟨subs, hrest, hsubs⟩
          exact ⟨⟨hlen, hall⟩, hpads⟩
    · rintro ⟨⟨hlen, hall⟩, hpads⟩
      obtain ⟨subs, hunpacks, hcontent⟩ := (ih hsdu (hnext hlen)).mpr ⟨hall, hpads⟩
      have hhead : bytes.drop offset = _ :: _ := hdrop
      have hsub := hlen.readSubheader hfirst behind hdrop
      rw [← hlen.totalLength] at hunpacks
      refine ⟨(sdu.sub ulsch, offset) :: subs,
        NrUnpacks.next (lt_length_of_drop hhead) hsub hunpacks, ?_⟩
      rw [List.map_cons, hcontent]
      unfold nrContent
      rw [hlen.nrPayload_eq hdrop, (sub_cases ulsch sdu).1]

end Reading

section Padding

variable {ulsch : Bool} {bytes rest : Bytes} {behind : ℕ → UInt8} {offset : ℕ}
  {pads : List (NrSubPdu × ℕ)}

theorem readSubheader_padding (ulsch : Bool) (behind : ℕ → UInt8)
    (hdrop : bytes.drop offset = 0x3F :: rest) :
    readSubheader ulsch (memory bytes behind) offset =
      some ⟨NrLcid.padding, false, 1, 0⟩ := by
  unfold readSubheader
  dsimp only
  simp only [memory_of_drop hdrop]
  cases ulsch <;> rfl

theorem readSubheader_zero (ulsch : Bool) (behind : ℕ → UInt8)
    (hdrop : bytes.drop offset = 0 :: rest) :
    ∃ s, readSubheader ulsch (memory bytes behind) offset = some s ∧ s.lcid = 0 := by
  unfold readSubheader
  dsimp only
  simp only [memory_of_drop hdrop]
  cases ulsch with
  | false => exact ⟨_, rfl, rfl⟩
  | true => exact ⟨_, rfl, rfl⟩

theorem exists_pads_iff {n : ℕ} (hdrop : bytes.drop offset = NrMacPdu.pack ⟨ulsch, [], n⟩) :
    (∃ pads, NrUnpacks ulsch (memory bytes behind) bytes.length offset pads ∧
      ∀ a ∈ pads, a.1.lcid = NrLcid.padding) ↔ n ≤ 1 := by
  cases n with
  | zero =>
    have hnil : bytes.drop offset = [] := hdrop
    refine ⟨fun _ => Nat.zero_le 1, fun _ => ⟨[], ?_, List.forall_mem_nil _⟩⟩
    exact NrUnpacks.done (List.drop_eq_nil_iff.mp hnil)
  | succ n =>
    have hpad : bytes.drop offset = 0x3F :: List.replicate n 0 := by
      rw [hdrop, NrMacPdu.pack, if_pos (Nat.succ_ne_zero n)]
      simp [NrSubPdu.setPadding, NrSubPdu.writeSubpdu, NrLcid.padding]
    have hlt := lt_length_of_drop hpad
    have hread := readSubheader_padding ulsch behind hpad
    have hnext := drop_succ_of_drop hpad
    constructor
    · rintro ⟨pads, hunpacks, hpads⟩
      by_contra hmore
      obtain ⟨m, rfl⟩ : ∃ m, n = m + 1 := ⟨n - 1, by omega⟩
      have hzero : bytes.drop (offset + 1) = 0 :: List.replicate m 0 := hnext
      obtain ⟨s, hs, hlcid⟩ := readSubheader_zero ulsch behind hzero
      cases hunpacks with
      | done hend => omega
      | invalid _ hread' =>
        rw [hread] at hread'
        cases hread'
      | next _ hread' hrest =>
        obtain rfl := Option.some.inj (hread.symm.trans hread')
        have hlt' := lt_length_of_drop hzero
        cases hrest with
        | done hend => exact absurd hend (Nat.not_le.mpr hlt')
        | invalid _ hread'' =>
          rw [show offset + totalLength ⟨NrLcid.padding, false, 1, 0⟩ = offset + 1
            from rfl, hs] at hread''
          cases hread''
        | next _ hread'' _ =>
          obtain rfl := Option.some.inj (hs.symm.trans hread'')
          have hmem := hpads _ (List.mem_cons_of_mem _ List.mem_cons_self)
          exact absurd (hlcid.symm.trans hmem) (by decide)
    · intro hle
      obtain rfl : n = 0 := by omega
      refine ⟨[(⟨NrLcid.padding, false, 1, 0⟩, offset)], ?_, ?_⟩
      · exact NrUnpacks.next hlt hread (NrUnpacks.done (List.drop_eq_nil_iff.mp hnext))
      · intro a ha
        rw [List.mem_singleton.mp ha]

end Padding

/-- `unpack` parses the packed PDU into the SDUs that were added, and behind them only padding. -/
def NrReadsBack (p : NrMacPdu) (sdus : List NrSdu) (behind : ℕ → UInt8) : Prop :=
  ∃ subs pads, nrUnpack p.ulsch (memory p.pack behind) p.pack.length = some (subs ++ pads) ∧
    subs.map (nrContent (memory p.pack behind)) = sdus.map (fun sdu => (sdu.lcid, sdu.data)) ∧
    ∀ a ∈ pads, a.1.lcid = NrLcid.padding

theorem pack_eq (p : NrMacPdu) :
    p.pack = p.buffer ++ NrMacPdu.pack ⟨p.ulsch, [], p.remainingLen⟩ := by
  unfold NrMacPdu.pack
  split_ifs
  · rfl
  · exact (List.append_nil _).symm

theorem nrReadsBack_iff {ulsch : Bool} {pduLen : ℕ} {sdus : List NrSdu} {p : NrMacPdu}
    (hadded : (NrMacPdu.initTx pduLen ulsch).addSdus sdus = some p) (hlen : pduLen < 2 ^ 32)
    (hsdu : ∀ sdu ∈ sdus, MacNr.isSdu ulsch sdu.lcid = true) (behind : ℕ → UInt8) :
    NrReadsBack p sdus behind ↔ (∀ sdu ∈ sdus, sdu.Announceable ulsch) ∧
      pduLen ≤ (sdus.map (size ulsch)).sum + 1 := by
  obtain ⟨hul, hbuffer⟩ := addSdus_buffer hadded
  have hdrop : p.pack.drop 0 = sdus.flatMap (written ulsch) ++
      NrMacPdu.pack ⟨ulsch, [], p.remainingLen⟩ := by
    rw [List.drop_zero, pack_eq, hbuffer, hul]
    rfl
  unfold NrReadsBack
  rw [hul]
  change (∃ subs pads, nrUnpack ulsch _ _ = _ ∧ _) ↔ _
  have hrem : (∀ sdu ∈ sdus, sdu.Announceable ulsch) →
      p.remainingLen + (sdus.map (size ulsch)).sum = pduLen :=
    fun hall => addSdus_remainingLen hadded hlen hall
  have htail (hall : ∀ sdu ∈ sdus, sdu.Announceable ulsch) :
      p.pack.drop (0 + (sdus.map (size ulsch)).sum) =
        NrMacPdu.pack ⟨ulsch, [], p.remainingLen⟩ := by
    have hflat : (sdus.flatMap (written ulsch)).length = (sdus.map (size ulsch)).sum := by
      rw [List.length_flatMap]
      exact congrArg List.sum (List.map_congr_left fun sdu h => (hall sdu h).length_written)
    rw [← List.drop_drop, hdrop, ← hflat, List.drop_left]
  constructor
  · rintro ⟨subs, pads, hunpack, hcontent, hpads⟩
    obtain ⟨hall, hrest⟩ :=
      (nrUnpacks_iff hsdu hdrop).mp ⟨subs, nrUnpack_eq_some_iff.mp hunpack, hcontent⟩
    have hone := (exists_pads_iff (htail hall)).mp ⟨pads, hrest, hpads⟩
    have hsum := hrem hall
    exact ⟨hall, by omega⟩
  · rintro ⟨hall, hle⟩
    have hsum := hrem hall
    obtain ⟨pads, hrest, hpads⟩ := (exists_pads_iff (htail hall)).mpr (by omega)
    obtain ⟨subs, hunpacks, hcontent⟩ := (nrUnpacks_iff hsdu hdrop).mpr ⟨hall, hrest⟩
    exact ⟨subs, pads, nrUnpack_eq_some_iff.mpr hunpacks, hcontent, hpads⟩

/-- The subheaders of 38.321: the first byte, with a length of one or two bytes for an SDU other
than uplink CCCH, and none for the LCIDs of a fixed size. -/
inductive NrSubheader (ulsch : Bool) : Bytes → ℕ → Prop
  | fixed {b : UInt8} (hvalid : MacNr.isValidLcid ulsch (b.toNat &&& 0x3F) = true)
      (hfixed : ¬ (MacNr.isSdu ulsch (b.toNat &&& 0x3F) = true ∧
        MacNr.isUlCcch ulsch (b.toNat &&& 0x3F) = false)) :
      NrSubheader ulsch [b] (MacNr.sizeofCe (b.toNat &&& 0x3F) ulsch)
  | short {b l : UInt8} (hvalid : MacNr.isValidLcid ulsch (b.toNat &&& 0x3F) = true)
      (hsdu : MacNr.isSdu ulsch (b.toNat &&& 0x3F) = true)
      (hccch : MacNr.isUlCcch ulsch (b.toNat &&& 0x3F) = false) (hf : b.toNat &&& 0x40 = 0) :
      NrSubheader ulsch [b, l] l.toNat
  | long {b l l' : UInt8} (hvalid : MacNr.isValidLcid ulsch (b.toNat &&& 0x3F) = true)
      (hsdu : MacNr.isSdu ulsch (b.toNat &&& 0x3F) = true)
      (hccch : MacNr.isUlCcch ulsch (b.toNat &&& 0x3F) = false) (hf : b.toNat &&& 0x40 ≠ 0) :
      NrSubheader ulsch [b, l, l'] (l.toNat * 256 + l'.toNat)

/-- The string is cut into whole subPDUs, up to its end or to a reserved LCID. -/
inductive NrWellCut (ulsch : Bool) : Bytes → Prop
  | done : NrWellCut ulsch []
  | reserved {b : UInt8} {rest : Bytes}
      (hreserved : MacNr.isValidLcid ulsch (b.toNat &&& 0x3F) = false) : NrWellCut ulsch (b :: rest)
  | subPdu {header payload rest : Bytes} (hheader : NrSubheader ulsch header payload.length)
      (hrest : NrWellCut ulsch rest) : NrWellCut ulsch (header ++ payload ++ rest)

/-- `unpack` keeps only subPDUs whose payload lies inside the string. -/
def NrPayloadsInside (ulsch : Bool) (bytes : Bytes) (behind : ℕ → UInt8) : Prop :=
  ∃ subs, nrUnpack ulsch (memory bytes behind) bytes.length = some subs ∧
    ∀ a ∈ subs, nrPayloadEnd a ≤ bytes.length

section Inside

variable {ulsch : Bool} {bytes header rest : Bytes} {b : UInt8} {behind : ℕ → UInt8}
  {offset n : ℕ} {s : NrSubPdu} {subs : List (NrSubPdu × ℕ)}

theorem readSubheader_eq_none_iff (hdrop : bytes.drop offset = b :: rest) :
    readSubheader ulsch (memory bytes behind) offset = none ↔
      MacNr.isValidLcid ulsch (b.toNat &&& 0x3F) = false := by
  unfold readSubheader
  simp only [memory_of_drop hdrop]
  constructor
  · intro h
    by_contra hvalid
    rw [if_pos (Bool.eq_true_of_not_eq_false hvalid)] at h
    split_ifs at h
  · intro h
    rw [if_neg (Bool.eq_false_iff.mp h)]

theorem lengthBytes (l l' : UInt8) :
    l.toNat <<< 8 ||| (l'.toNat &&& 0xFF) = l.toNat * 256 + l'.toNat := by
  have hlow : l'.toNat &&& 0xFF = l'.toNat % 256 := LengthIndicators.and_low _ 8
  rw [hlow, Nat.mod_eq_of_lt l'.toNat_lt]
  exact LengthIndicators.or_high (k := 8) l'.toNat_lt _

theorem readSubheader_of_subheader (hheader : NrSubheader ulsch header n) (behind : ℕ → UInt8)
    (hdrop : bytes.drop offset = header ++ rest) :
    ∃ s, readSubheader ulsch (memory bytes behind) offset = some s ∧
      s.headerLength = header.length ∧ s.sduLength = n := by
  cases hheader with
  | @fixed b hvalid hfixed =>
    have hfirst : bytes.drop offset = b :: rest := hdrop
    have hfixed' : ¬ (MacNr.isSdu ulsch (b.toNat &&& 0x3F) = true ∧
        ¬ MacNr.isUlCcch ulsch (b.toNat &&& 0x3F) = true) :=
      fun h => hfixed ⟨h.1, Bool.eq_false_iff.mpr h.2⟩
    unfold readSubheader
    simp only [memory_of_drop hfirst]
    rw [if_pos hvalid, if_neg hfixed']
    exact ⟨_, rfl, rfl, rfl⟩
  | @short b l hvalid hsdu hccch hf =>
    have hfirst : bytes.drop offset = b :: l :: rest := hdrop
    have hsecond := drop_succ_of_drop hfirst
    unfold readSubheader
    simp only [memory_of_drop hfirst, memory_of_drop hsecond, hf]
    rw [if_pos hvalid, if_pos ⟨hsdu, Bool.eq_false_iff.mp hccch⟩]
    exact ⟨_, rfl, rfl, rfl⟩
  | @long b l l' hvalid hsdu hccch hf =>
    have hfirst : bytes.drop offset = b :: l :: l' :: rest := hdrop
    have hsecond := drop_succ_of_drop hfirst
    have hthird := drop_succ_of_drop hsecond
    unfold readSubheader
    simp only [memory_of_drop hfirst, memory_of_drop hsecond, memory_of_drop hthird]
    rw [if_pos hvalid, if_pos ⟨hsdu, Bool.eq_false_iff.mp hccch⟩, if_pos (decide_eq_true hf)]
    exact ⟨_, rfl, rfl, lengthBytes l l'⟩

theorem subheader_of_readSubheader
    (hread : readSubheader ulsch (memory bytes behind) offset = some s)
    (hlt : offset < bytes.length) (hend : offset + s.totalLength ≤ bytes.length) :
    ∃ header rest, bytes.drop offset = header ++ rest ∧ header.length = s.headerLength ∧
      NrSubheader ulsch header s.sduLength := by
  obtain ⟨b, rest, hfirst⟩ :=
    List.exists_cons_of_ne_nil (mt List.drop_eq_nil_iff.mp (Nat.not_le.mpr hlt))
  have hlength := congrArg List.length hfirst
  rw [List.length_drop, List.length_cons] at hlength
  unfold totalLength at hend
  unfold readSubheader at hread
  simp only [memory_of_drop hfirst] at hread
  split_ifs at hread with hvalid hsdu hf
  · obtain rfl := Option.some.inj hread
    dsimp only at hend
    rcases rest with - | ⟨l, - | ⟨l', rest⟩⟩
    · rw [List.length_nil] at hlength
      omega
    · rw [List.length_singleton] at hlength
      omega
    have hsecond := drop_succ_of_drop hfirst
    have hthird := drop_succ_of_drop hsecond
    refine ⟨[b, l, l'], rest, hfirst, rfl, ?_⟩
    dsimp only
    rw [memory_of_drop hsecond, memory_of_drop hthird, lengthBytes]
    exact NrSubheader.long hvalid hsdu.1 (Bool.eq_false_iff.mpr hsdu.2) (of_decide_eq_true hf)
  · obtain rfl := Option.some.inj hread
    dsimp only at hend
    rcases rest with - | ⟨l, rest⟩
    · rw [List.length_nil] at hlength
      omega
    have hsecond := drop_succ_of_drop hfirst
    refine ⟨[b, l], rest, hfirst, rfl, ?_⟩
    dsimp only
    rw [memory_of_drop hsecond]
    exact NrSubheader.short hvalid hsdu.1 (Bool.eq_false_iff.mpr hsdu.2)
      (not_not.mp fun h => hf (decide_eq_true h))
  · obtain rfl := Option.some.inj hread
    exact ⟨[b], rest, hfirst, rfl, NrSubheader.fixed hvalid fun h =>
      hsdu ⟨h.1, Bool.eq_false_iff.mp h.2⟩⟩

end Inside

theorem NrUnpacks.wellCut {ulsch : Bool} {bytes : Bytes} {behind : ℕ → UInt8} {offset : ℕ}
    {subs : List (NrSubPdu × ℕ)}
    (h : NrUnpacks ulsch (memory bytes behind) bytes.length offset subs)
    (hinside : ∀ a ∈ subs, nrPayloadEnd a ≤ bytes.length) :
    NrWellCut ulsch (bytes.drop offset) := by
  induction h with
  | done hend =>
    rw [List.drop_eq_nil_of_le hend]
    exact NrWellCut.done
  | invalid hlt hread =>
    obtain ⟨b, rest, hdrop⟩ :=
      List.exists_cons_of_ne_nil (mt List.drop_eq_nil_iff.mp (Nat.not_le.mpr hlt))
    rw [hdrop]
    exact NrWellCut.reserved ((readSubheader_eq_none_iff hdrop).mp hread)
  | @next offset s subs hlt hread hrest ih =>
    obtain ⟨hend, hinside⟩ := List.forall_mem_cons.mp hinside
    obtain ⟨header, rest, hdrop, hlength, hheader⟩ := subheader_of_readSubheader hread hlt hend
    have hsize := congrArg List.length hdrop
    rw [List.length_drop, List.length_append, hlength] at hsize
    unfold nrPayloadEnd totalLength at hend
    dsimp only at hend
    have htake : (rest.take s.sduLength).length = s.sduLength := by
      rw [List.length_take]
      omega
    have hnext : bytes.drop (offset + s.totalLength) = rest.drop s.sduLength := by
      rw [totalLength, ← Nat.add_assoc, ← List.drop_drop, ← List.drop_drop, hdrop,
        ← hlength, List.drop_left]
    rw [hnext] at ih
    have hcut := NrWellCut.subPdu (htake.symm ▸ hheader) (ih hinside)
    rwa [List.append_assoc, List.take_append_drop, ← hdrop] at hcut

theorem NrWellCut.exists_unpacks {ulsch : Bool} {bytes tail : Bytes} (behind : ℕ → UInt8)
    {offset : ℕ} (h : NrWellCut ulsch tail) (hdrop : bytes.drop offset = tail) :
    ∃ subs, NrUnpacks ulsch (memory bytes behind) bytes.length offset subs ∧
      ∀ a ∈ subs, nrPayloadEnd a ≤ bytes.length := by
  induction h generalizing offset with
  | done =>
    exact ⟨[], NrUnpacks.done (List.drop_eq_nil_iff.mp hdrop), List.forall_mem_nil _⟩
  | reserved hreserved =>
    have hread := (@readSubheader_eq_none_iff ulsch _ _ _ behind _ hdrop).mpr hreserved
    exact ⟨[], NrUnpacks.invalid (lt_length_of_drop hdrop) hread,
      List.forall_mem_nil _⟩
  | @subPdu header payload rest hheader hrest ih =>
    rw [List.append_assoc] at hdrop
    obtain ⟨s, hread, hlength, hsdu⟩ := readSubheader_of_subheader hheader behind hdrop
    have hpos := headerLength_pos hread
    have hsize := congrArg List.length hdrop
    rw [List.length_drop, List.length_append, List.length_append] at hsize
    have htotal : s.totalLength = header.length + payload.length := by
      rw [totalLength, hlength, hsdu]
    have hnext : bytes.drop (offset + s.totalLength) = rest := by
      rw [htotal, ← Nat.add_assoc, ← List.drop_drop, ← List.drop_drop, hdrop, List.drop_left,
        List.drop_left]
    obtain ⟨subs, hunpacks, hinside⟩ := ih hnext
    refine ⟨(s, offset) :: subs, NrUnpacks.next (by omega) hread hunpacks, ?_⟩
    refine List.forall_mem_cons.mpr ⟨?_, hinside⟩
    unfold nrPayloadEnd
    dsimp only
    omega

theorem nrPayloadsInside_iff (ulsch : Bool) (bytes : Bytes) (behind : ℕ → UInt8) :
    NrPayloadsInside ulsch bytes behind ↔ NrWellCut ulsch bytes := by
  constructor
  · rintro ⟨subs, hunpack, hinside⟩
    exact (nrUnpack_eq_some_iff.mp hunpack).wellCut hinside
  · intro h
    obtain ⟨subs, hunpacks, hinside⟩ := h.exists_unpacks behind List.drop_zero
    exact ⟨subs, nrUnpack_eq_some_iff.mpr hunpacks, hinside⟩

end SrsLte
