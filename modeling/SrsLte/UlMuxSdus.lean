import SrsLte.UlMuxReports
import SrsLte.UlMuxRounds

/-!
# SDUs of the scheduled channels

With an RLC that gives the bytes asked for, `allocate_sdu` adds one SDU or none. The SDUs of all
scheduled channels are added when their bytes and subheaders, of the size that the whole SDU has,
fit the space.
-/

namespace SrsLte

/-- The RLC gives exactly the bytes asked for, of what the channel has, and takes them from it. -/
structure RlcMac.Exact {ρ : Type*} (rlc : RlcMac ρ) : Prop where
  gives : ∀ r lcid n, 0 < n → n ≤ rlc.getBufferState r lcid →
    ∃ data, (rlc.readPdu r lcid n).1 = some data ∧ data.length = n
  takes : ∀ r lcid n, n ≤ rlc.getBufferState r lcid →
    rlc.getBufferState (rlc.readPdu r lcid n).2 lcid = rlc.getBufferState r lcid - n
  keeps : ∀ r lcid n lcid', lcid' ≠ lcid →
    rlc.getBufferState (rlc.readPdu r lcid n).2 lcid' = rlc.getBufferState r lcid'

namespace Mux

open SchPdu SchSetting

variable {ρ : Type*} {rlc : RlcMac ρ} {pduSz : ℕ} {p : SchPdu} {ss : List SchSetting}

theorem length_sduBytes_le (ss : List SchSetting) : (sduBytes ss).length ≤ cost ss := by
  have hsplit := cost_split ss
  have hpayloads := length_payloads_entries ss
  omega

theorem Filled.getSduSpace_eq (h : Filled pduSz ss p) (hsize : pduSz ≤ clearedBuffer.tailroom) :
    p.getSduSpace = pduSz - cost ss - 1 := by
  have haccount := h.built.account
  have hbytes := length_sduBytes_le ss
  have hlen : (startPdu pduSz).pduLen = pduSz := rfl
  have hhead : p.buffer.headroom = 1020 := h.built.headroom
  have htail : clearedBuffer.tailroom = maxBufferSizeBytes - 1020 := rfl
  unfold getSduSpace ByteBuffer.tailroom ByteBuffer.nBytes
  rw [h.built.msg, hhead]
  rw [hlen] at haccount
  omega

variable {lcid : ℕ} {channels : List LogicalChannel}

theorem cost_sdu {requested : ℕ} {data : Bytes} (hlcid : lcid < Lcid.phrReport) :
    cost (ss ++ [.sduItf lcid requested (some data)]) =
      cost ss + (sizeHeaderSdu data.length + data.length) := by
  have hsdu : (SchSetting.sduItf lcid requested (some data)).isSdu = true := decide_eq_true hlcid
  rw [cost_concat, headerSize_sdu hsdu]
  rfl

theorem allocateLoop_done {fuel sduSpace : ℕ} {r : ρ}
    (h : ¬ (rlc.getBufferState r lcid > 0 ∧ sduSpace > 0)) :
    allocateLoop rlc lcid fuel p r sduSpace = (p, r, false) := by
  cases fuel with
  | zero => rfl
  | succ fuel =>
    unfold allocateLoop
    dsimp only
    rw [if_neg h]

/-- The SDU of `n` bytes finds a subheader and the space. -/
def SduFits (ss : List SchSetting) (p : SchPdu) (n : ℕ) : Prop :=
  0 < n ∧ ss.length + 1 < maxNofSubheaders ∧ n ≤ p.getSduSpace

section

variable (h : Filled pduSz ss p)
include h

theorem Filled.hasSpaceSdu_opened (n : ℕ) :
    (opened p ss).hasSpaceSdu n = true ↔ n ≤ p.getSduSpace := by
  unfold hasSpaceSdu getSduSpace
  rw [h.built.lastSduGrowth_opened (q := opened p ss) rfl rfl]
  exact decide_eq_true_iff

theorem Filled.setSduItf_fits {n : ℕ} (hfits : SduFits ss p n) (lcid : ℕ)
    {data : Bytes} (hdata : data.length = n) :
    ∃ p', (opened p ss).setSduItf lcid n (some data) = some p' := by
  have hne : data ≠ [] := by
    rw [← List.length_pos_iff, hdata]
    exact hfits.1
  unfold SchPdu.setSduItf
  rw [if_pos ((h.hasSpaceSdu_opened n).mpr hfits.2.2)]
  simp only [Option.bind_eq_bind, Option.bind_some]
  rw [if_pos ⟨hne, Nat.le_of_eq hdata⟩]
  exact ⟨_, rfl⟩

theorem Filled.allocateSdu_fits (hrlc : rlc.Exact)
    (hlcid : lcid < Lcid.phrReport) (r : ρ) (sduSpace : ℕ)
    (hfits : SduFits ss p (min (rlc.getBufferState r lcid) sduSpace)) :
    ∃ data p', data.length = min (rlc.getBufferState r lcid) sduSpace ∧
      allocateSdu rlc lcid p r sduSpace =
        (p', (rlc.readPdu r lcid (min (rlc.getBufferState r lcid) sduSpace)).2, true) ∧
      Filled pduSz
        (ss ++ [.sduItf lcid (min (rlc.getBufferState r lcid) sduSpace) (some data)]) p' := by
  generalize hn : min (rlc.getBufferState r lcid) sduSpace = n at hfits
  obtain ⟨hpos, hfew, hspace⟩ := hfits
  obtain ⟨data, hreply, hdata⟩ := hrlc.gives r lcid n hpos (by omega)
  have htakes := hrlc.takes r lcid n (by omega)
  obtain ⟨p', hset⟩ := h.setSduItf_fits ⟨hpos, hfew, hspace⟩ lcid hdata
  have hrem : p.remLen > 0 := by
    unfold getSduSpace at hspace
    omega
  refine ⟨data, p', hdata, ?_, (h.setSduItf hfew hlcid hset).1⟩
  unfold allocateSdu
  obtain ⟨fuel, rfl⟩ : ∃ fuel, sduSpace = fuel + 1 := ⟨sduSpace - 1, by omega⟩
  unfold allocateLoop
  dsimp only
  rw [if_pos (by omega), h.newSubh, if_pos ⟨hfew, hrem⟩, hn]
  dsimp only
  rw [if_pos ((h.hasSpaceSdu_opened n).mpr hspace), hreply, hset]
  dsimp only
  rw [allocateLoop_done]
  rw [htakes]
  change ¬ (_ ∧ fuel + 1 - data.length > 0)
  omega

theorem Filled.allocateSdu_not (r : ρ) (sduSpace : ℕ)
    (hfits : ¬ SduFits ss p (min (rlc.getBufferState r lcid) sduSpace)) :
    allocateSdu rlc lcid p r sduSpace = (p, r, false) := by
  unfold allocateSdu
  by_cases hmore : rlc.getBufferState r lcid > 0 ∧ sduSpace > 0
  · obtain ⟨fuel, rfl⟩ : ∃ fuel, sduSpace = fuel + 1 := ⟨sduSpace - 1, by omega⟩
    unfold allocateLoop
    dsimp only
    rw [if_pos hmore, h.newSubh]
    by_cases hopen : ss.length + 1 < maxNofSubheaders ∧ p.remLen > 0
    · rw [if_pos hopen]
      dsimp only
      rw [if_neg fun hspace => hfits ⟨by omega, hopen.1, (h.hasSpaceSdu_opened _).mp hspace⟩]
    · rw [if_neg hopen]
  · exact allocateLoop_done hmore

end

def schedLens (channels : List LogicalChannel) : List ℕ :=
  (channels.filter fun ch => ch.schedLen ≠ 0).map fun ch => ch.schedLen.toNat

/-- Bytes of SDUs of these lengths with the subheaders of all but the last, whose subheader the
space leaves out. -/
def neededSpace : List ℕ → ℕ
  | [] => 0
  | [n] => n
  | n :: n' :: lens => n + sizeHeaderSdu n + neededSpace (n' :: lens)

/-- SDUs of these lengths fit the space behind `nofSubheaders` subheaders. -/
def SdusFit (nofSubheaders sduSpace : ℕ) (lens : List ℕ) : Prop :=
  lens = [] ∨ nofSubheaders + lens.length < maxNofSubheaders ∧ neededSpace lens ≤ sduSpace

instance (nofSubheaders sduSpace : ℕ) (lens : List ℕ) :
    Decidable (SdusFit nofSubheaders sduSpace lens) :=
  inferInstanceAs (Decidable (_ ∨ _))

theorem sdusFit_cons {nofSubheaders sduSpace n : ℕ} {lens : List ℕ} (hpos : ∀ m ∈ lens, 0 < m) :
    SdusFit nofSubheaders sduSpace (n :: lens) ↔
      nofSubheaders + 1 < maxNofSubheaders ∧ n ≤ sduSpace ∧
        SdusFit (nofSubheaders + 1) (sduSpace - (sizeHeaderSdu n + n)) lens := by
  cases lens with
  | nil =>
    constructor
    · rintro (hnil | ⟨hfew, hspace⟩)
      · exact absurd hnil nofun
      · exact ⟨hfew, hspace, Or.inl rfl⟩
    · rintro ⟨hfew, hspace, -⟩
      exact Or.inr ⟨hfew, hspace⟩
  | cons m lens =>
    have hm := hpos m List.mem_cons_self
    have hneeded : 0 < neededSpace (m :: lens) := by
      cases lens with
      | nil => exact hm
      | cons m' lens => exact Nat.add_pos_left (Nat.add_pos_left hm _) _
    constructor
    · rintro (hnil | ⟨hfew, hspace⟩)
      · exact absurd hnil nofun
      · unfold neededSpace at hspace
        simp only [List.length_cons] at hfew
        exact ⟨by omega, by omega, Or.inr ⟨by simp only [List.length_cons]; omega, by omega⟩⟩
    · rintro ⟨-, -, hnil | ⟨hfew, hspace⟩⟩
      · exact absurd hnil nofun
      · refine Or.inr ⟨?_, ?_⟩
        · simp only [List.length_cons] at hfew ⊢
          omega
        · unfold neededSpace
          omega

theorem schedLens_pos (h : ∀ ch ∈ channels, 0 ≤ ch.schedLen) :
    ∀ n ∈ schedLens channels, 0 < n := by
  intro n hn
  obtain ⟨ch, hch, rfl⟩ := List.mem_map.mp hn
  obtain ⟨hmem, hne⟩ := List.mem_filter.mp hch
  have hnonneg := h ch hmem
  have hne := of_decide_eq_true hne
  omega

theorem schedLens_cons (ch : LogicalChannel) (channels : List LogicalChannel) :
    schedLens (ch :: channels) =
      if ch.schedLen ≠ 0 then ch.schedLen.toNat :: schedLens channels else schedLens channels := by
  unfold schedLens
  rw [List.filter_cons]
  by_cases hzero : ch.schedLen ≠ 0
  · rw [if_pos (decide_eq_true hzero), if_pos hzero, List.map_cons]
  · rw [if_neg (by simpa using hzero), if_neg hzero]

def Complete (channels : List LogicalChannel) (ss : List SchSetting) : Prop :=
  ∀ ch ∈ channels, ch.schedLen ≠ 0 →
    ∃ s ∈ ss, s.entry.lcid = ch.lcid ∧ (s.entry.payload.length : ℤ) = ch.schedLen

theorem allocateAll_keeps (hrlc : rlc.Exact) (channels : List LogicalChannel)
    (h : Filled pduSz ss p) (r : ρ) (hlcid : ∀ ch ∈ channels, ch.lcid ≠ lcid) :
    rlc.getBufferState (allocateAll rlc channels p r).2 lcid = rlc.getBufferState r lcid := by
  induction channels generalizing ss p r with
  | nil => rfl
  | cons ch channels ih =>
    have hne := hlcid ch List.mem_cons_self
    have hrest := (List.forall_mem_cons.mp hlcid).2
    unfold allocateAll
    dsimp only
    split_ifs with hsched
    · by_cases hfits : SduFits ss p (min (rlc.getBufferState r ch.lcid) ch.schedLen.toNat)
      · obtain ⟨data, p', -, heq, hfilled⟩ := h.allocateSdu_fits hrlc ch.isData r _ hfits
        rw [heq, ih hfilled _ hrest]
        exact hrlc.keeps r ch.lcid _ lcid (Ne.symm hne)
      · rw [h.allocateSdu_not r _ hfits]
        exact ih h r hrest
    · exact ih h r hrest

theorem complete_cons_of_zero {ch : LogicalChannel}
    (hzero : ch.schedLen = 0) : Complete (ch :: channels) ss ↔ Complete channels ss := by
  constructor
  · exact fun h c hc => h c (List.mem_cons_of_mem ch hc)
  · intro h c hc hne
    rcases List.mem_cons.mp hc with rfl | hc
    · exact absurd hzero hne
    · exact h c hc hne

theorem complete_cons_of_sdu {ch : LogicalChannel} {s : SchSetting} (hlcid : s.entry.lcid = ch.lcid)
    (hlen : (s.entry.payload.length : ℤ) = ch.schedLen)
    (hother : ∀ c ∈ channels, c.lcid ≠ ch.lcid) :
    Complete (ch :: channels) (s :: ss) ↔ Complete channels ss := by
  constructor
  · intro h c hc hne
    obtain ⟨s', hs', hlcid', hlen'⟩ := h c (List.mem_cons_of_mem ch hc) hne
    rcases List.mem_cons.mp hs' with rfl | hs'
    · exact absurd (hlcid'.symm.trans hlcid) (hother c hc)
    · exact ⟨s', hs', hlcid', hlen'⟩
  · intro h c hc hne
    rcases List.mem_cons.mp hc with rfl | hc
    · exact ⟨s, List.mem_cons_self, hlcid, hlen⟩
    · obtain ⟨s', hs', hlcid', hlen'⟩ := h c hc hne
      exact ⟨s', List.mem_cons_of_mem s hs', hlcid', hlen'⟩

/-- What the loop over the channels has done: `more` are the SDUs it added. -/
structure SdusAdded (rlc : RlcMac ρ) (pduSz : ℕ) (ss : List SchSetting) (p : SchPdu)
    (channels : List LogicalChannel) (r : ρ) (more : List SchSetting) (out : SchPdu × ρ) :
    Prop where
  filled : Filled pduSz (ss ++ more) out.1
  lcids : ∀ s ∈ more, ∃ ch ∈ channels, s.entry.lcid = ch.lcid
  complete_iff :
    Complete channels more ↔ SdusFit ss.length p.getSduSpace (schedLens channels)
  buffers : Complete channels more → ∀ ch ∈ channels,
    (rlc.getBufferState out.2 ch.lcid : ℤ) = rlc.getBufferState r ch.lcid - ch.schedLen

section SdusAdded

variable {ch : LogicalChannel} {channels : List LogicalChannel} {more : List SchSetting} {r : ρ}
  {out : SchPdu × ρ}

section

variable (h : SdusAdded rlc pduSz ss p channels r more out)
include h

theorem SdusAdded.lcids_cons :
    ∀ s ∈ more, ∃ c ∈ ch :: channels, s.entry.lcid = c.lcid := by
  intro s hs
  obtain ⟨c, hc, hlcid⟩ := h.lcids s hs
  exact ⟨c, List.mem_cons_of_mem ch hc, hlcid⟩

theorem SdusAdded.cons_of_zero (hzero : ch.schedLen = 0)
    (hkeeps : rlc.getBufferState out.2 ch.lcid = rlc.getBufferState r ch.lcid) :
    SdusAdded rlc pduSz ss p (ch :: channels) r more out where
  filled := h.filled
  lcids := h.lcids_cons
  complete_iff := by
    rw [schedLens_cons, if_neg (not_not.mpr hzero)]
    exact (complete_cons_of_zero hzero).trans h.complete_iff
  buffers := by
    intro hcomplete c hc
    rcases List.mem_cons.mp hc with rfl | hc
    · rw [hkeeps, hzero, Int.sub_zero]
    · exact h.buffers ((complete_cons_of_zero hzero).mp hcomplete) c hc

theorem SdusAdded.cons_of_missed
    (hother : ∀ c ∈ channels, c.lcid ≠ ch.lcid) (hsched : 0 < ch.schedLen)
    (hpos : ∀ n ∈ schedLens channels, 0 < n) (hfits : ¬ SduFits ss p ch.schedLen.toNat) :
    SdusAdded rlc pduSz ss p (ch :: channels) r more out := by
  have hne : ch.schedLen ≠ 0 := Int.ne_of_gt hsched
  have hnone : ¬ Complete (ch :: channels) more := by
    intro hcomplete
    obtain ⟨s, hs, hlcid, -⟩ := hcomplete ch List.mem_cons_self hne
    obtain ⟨c, hc, hlcid'⟩ := h.lcids s hs
    exact hother c hc (hlcid'.symm.trans hlcid)
  refine ⟨h.filled, h.lcids_cons, iff_of_false hnone ?_, fun hcomplete =>
    absurd hcomplete hnone⟩
  rw [schedLens_cons, if_pos hne, sdusFit_cons hpos]
  rintro ⟨hfew, hspace, -⟩
  exact hfits ⟨by omega, hfew, hspace⟩

end

theorem SdusAdded.cons_of_added {p' : SchPdu} {r' : ρ} {data : Bytes}
    (h : SdusAdded rlc pduSz (ss ++ [.sduItf ch.lcid ch.schedLen.toNat (some data)]) p' channels
      r' more out)
    (hother : ∀ c ∈ channels, c.lcid ≠ ch.lcid) (hsched : 0 < ch.schedLen)
    (hpos : ∀ n ∈ schedLens channels, 0 < n) (hfits : SduFits ss p ch.schedLen.toNat)
    (hdata : data.length = ch.schedLen.toNat)
    (hspace : p'.getSduSpace =
      p.getSduSpace - (sizeHeaderSdu ch.schedLen.toNat + ch.schedLen.toNat))
    (hkeep : ∀ c ∈ channels, rlc.getBufferState r' c.lcid = rlc.getBufferState r c.lcid)
    (htakes : (rlc.getBufferState out.2 ch.lcid : ℤ) =
      rlc.getBufferState r ch.lcid - ch.schedLen) :
    SdusAdded rlc pduSz ss p (ch :: channels) r
      (.sduItf ch.lcid ch.schedLen.toNat (some data) :: more) out := by
  have hlen : ((SchSetting.sduItf ch.lcid ch.schedLen.toNat
      (some data)).entry.payload.length : ℤ) = ch.schedLen := by
    change (data.length : ℤ) = _
    omega
  have hcons : Complete (ch :: channels)
      (.sduItf ch.lcid ch.schedLen.toNat (some data) :: more) ↔ Complete channels more :=
    complete_cons_of_sdu rfl hlen hother
  refine ⟨?_, fun s hs => ?_, ?_, fun hcomplete c hc => ?_⟩
  · have hfilled := h.filled
    rwa [List.append_assoc] at hfilled
  · rcases List.mem_cons.mp hs with rfl | hs
    · exact ⟨ch, List.mem_cons_self, rfl⟩
    · exact h.lcids_cons s hs
  · rw [hcons, h.complete_iff, List.length_append, List.length_singleton, hspace, schedLens_cons,
      if_pos (Int.ne_of_gt hsched), sdusFit_cons hpos]
    exact ⟨fun hrest => ⟨hfits.2.1, hfits.2.2, hrest⟩, fun hall => hall.2.2⟩
  · rcases List.mem_cons.mp hc with rfl | hc
    · exact htakes
    · rw [h.buffers (hcons.mp hcomplete) c hc, hkeep c hc]

end SdusAdded

theorem allocateAll_complete (hrlc : rlc.Exact) (hsize : pduSz ≤ clearedBuffer.tailroom)
    (channels : List LogicalChannel) (h : Filled pduSz ss p) (r : ρ)
    (hnodup : (channels.map LogicalChannel.lcid).Nodup)
    (hsched : ∀ ch ∈ channels,
      0 ≤ ch.schedLen ∧ ch.schedLen ≤ rlc.getBufferState r ch.lcid) :
    ∃ more, SdusAdded rlc pduSz ss p channels r more (allocateAll rlc channels p r) := by
  induction channels generalizing ss p r with
  | nil =>
    exact ⟨[], by rwa [List.append_nil], List.forall_mem_nil _,
      iff_of_true (List.forall_mem_nil _) (Or.inl rfl),
      fun _ _ hc => absurd hc List.not_mem_nil⟩
  | cons ch channels ih =>
    rw [List.map_cons, List.nodup_cons] at hnodup
    obtain ⟨hnot, hnodup⟩ := hnodup
    have hother : ∀ c ∈ channels, c.lcid ≠ ch.lcid := fun c hc heq =>
      hnot (heq ▸ List.mem_map_of_mem hc)
    obtain ⟨hnonneg, hle⟩ := hsched ch List.mem_cons_self
    have hrest := (List.forall_mem_cons.mp hsched).2
    have hpos := schedLens_pos fun c hc => (hrest c hc).1
    unfold allocateAll
    dsimp only
    by_cases hzero : ch.schedLen = 0
    · rw [if_neg (not_not.mpr hzero)]
      obtain ⟨more, hadded⟩ := ih h r hnodup hrest
      exact ⟨more, hadded.cons_of_zero hzero (allocateAll_keeps hrlc channels h r hother)⟩
    · rw [if_pos hzero]
      have hmin : min (rlc.getBufferState r ch.lcid) ch.schedLen.toNat = ch.schedLen.toNat := by
        omega
      by_cases hfits : SduFits ss p ch.schedLen.toNat
      · obtain ⟨data, p', hdata, heq, hfilled⟩ :=
          h.allocateSdu_fits hrlc ch.isData r ch.schedLen.toNat (hmin.symm ▸ hfits)
        rw [hmin] at hdata heq hfilled
        have hkeep : ∀ c ∈ channels, rlc.getBufferState
            (rlc.readPdu r ch.lcid ch.schedLen.toNat).2 c.lcid = rlc.getBufferState r c.lcid :=
          fun c hc => hrlc.keeps r ch.lcid _ c.lcid (hother c hc)
        obtain ⟨more, hadded⟩ := ih hfilled (rlc.readPdu r ch.lcid ch.schedLen.toNat).2 hnodup
          fun c hc => (hkeep c hc).symm ▸ hrest c hc
        rw [heq]
        refine ⟨_, hadded.cons_of_added hother (by omega) hpos hfits hdata ?_ hkeep ?_⟩
        · rw [hfilled.getSduSpace_eq hsize, h.getSduSpace_eq hsize, cost_sdu ch.isData, hdata]
          omega
        · rw [allocateAll_keeps hrlc channels hfilled _ hother, hrlc.takes r _ _ (by omega)]
          omega
      · obtain ⟨more, hadded⟩ := ih h r hnodup hrest
        rw [h.allocateSdu_not r ch.schedLen.toNat (hmin.symm ▸ hfits)]
        exact ⟨more, hadded.cons_of_missed hother (by omega) hpos hfits⟩

end Mux
end SrsLte
