import SrsLte.MacPduFormat

/-!
# The MAC PDU writer

Each subheader of a PDU is made by `new_subh` and one setter. `Built` relates the state after such
calls to the settings: the subheaders, the SDU bytes in the buffer, and the accounting of
`rem_len`, which misses an SDU when `set_sdu` finds, after adding the bytes, less tailroom than
the SDU has bytes. When nothing is missed the packet is the encoding of padding, CEs and SDUs.
-/

namespace SrsLte

namespace SchSetting

def entry : SchSetting → MacEntry
  | .ce c => ⟨c.lcid, c.bytes⟩
  | .sdu lcid data => ⟨lcid, data⟩
  | .sduItf lcid _ reply => ⟨lcid, reply.getD []⟩

/-- The CE has the size that its LCID stands for on the channel, and an SDU has the LCID of a
logical channel. -/
def Valid (isUl : Bool) : SchSetting → Prop
  | .ce c => sizeofCe c.lcid isUl = c.bytes.length
  | .sdu lcid _ => lcid < Lcid.phrReport
  | .sduItf lcid _ _ => lcid < Lcid.phrReport

def isSdu (s : SchSetting) : Bool := SrsLte.isSdu s.entry.lcid

def subh : SchSetting → SchSubh
  | .ce c => ⟨c.lcid, c.bytes.length, c.bytes ++ (List.replicate 64 0).drop c.bytes.length⟩
  | .sdu lcid data => ⟨lcid, data.length, List.replicate 64 0⟩
  | .sduItf lcid _ reply => ⟨lcid, (reply.getD []).length, List.replicate 64 0⟩

theorem subh_lcid (s : SchSetting) : s.subh.lcid = s.entry.lcid := by cases s <;> rfl

theorem subh_nofBytes (s : SchSetting) : s.subh.nofBytes = s.entry.payload.length := by
  cases s <;> rfl

theorem subh_getHeaderSize (s : SchSetting) : s.subh.getHeaderSize false = s.entry.headerSize := by
  unfold SchSubh.getHeaderSize MacEntry.headerSize
  rw [subh_lcid, subh_nofBytes]
  rfl

theorem isSdu_ce (c : CeSetting) : isSdu (.ce c) = false := by
  cases c with
  | bsr format _ => cases format <;> rfl
  | _ => rfl

theorem length_bytes_ce (c : CeSetting) : c.bytes.length < 7 := by
  cases c with
  | bsr format _ => cases format <;> simp [CeSetting.bytes]
  | _ => simp [CeSetting.bytes]

end SchSetting

namespace SchPdu

open SchSetting

/-- `new_subh` followed by a setter, for each setting. -/
def settingCalls (ss : List SchSetting) : List SchCall := ss.flatMap fun s => [.newSubh, .set s]

def sduBytes (ss : List SchSetting) : Bytes :=
  MacEntry.payloads ((ss.filter SchSetting.isSdu).map SchSetting.entry)

def cost (ss : List SchSetting) : ℕ :=
  (ss.map fun s => s.entry.headerSize + s.entry.payload.length).sum

/-- `i` is the index of the last SDU, `none` if there is none. -/
def LastSdu (ss : List SchSetting) : Option ℕ → Prop
  | none => ∀ s ∈ ss, s.isSdu = false
  | some i => ∃ a s b, ss = a ++ s :: b ∧ i = a.length ∧ s.isSdu = true ∧ ∀ s' ∈ b, s'.isSdu = false

/-- State after the settings `ss` on an empty buffer; `missed` bytes are not accounted for. -/
structure Built (start : SchPdu) (ss : List SchSetting) (missed : ℕ) (p : SchPdu) : Prop where
  maxSubheaders : p.maxSubheaders = start.maxSubheaders
  pduLen : p.pduLen = start.pduLen
  isUl : p.pduIsUl = start.pduIsUl
  headroom : p.buffer.headroom = start.buffer.headroom
  subheaders : p.subheaders = ss.map SchSetting.subh
  curIdx : (p.curIdx.map (· + 1)).getD 0 = ss.length
  few : ss = [] ∨ ss.length < start.maxSubheaders
  msg : p.buffer.msg = sduBytes ss
  lastIdx : ∀ i, p.lastSduIdx = some i → ∃ s, ss[i]? = some s ∧ s.isSdu = true
  account : p.remLen + cost ss = start.pduLen + p.lastSduGrowth + missed
  last : missed = 0 → LastSdu ss p.lastSduIdx

theorem built_initTx (maxSubheaders pduLen : ℕ) (isUl : Bool) {buffer : ByteBuffer}
    (hbuf : buffer.msg = []) :
    Built (initTx maxSubheaders pduLen isUl buffer) [] 0 (initTx maxSubheaders pduLen isUl buffer)
    where
  maxSubheaders := rfl
  pduLen := rfl
  isUl := rfl
  headroom := rfl
  subheaders := rfl
  curIdx := rfl
  few := Or.inl rfl
  msg := hbuf
  lastIdx := fun i h => absurd h (by simp [initTx])
  account := rfl
  last := fun _ s hs => absurd hs List.not_mem_nil

variable {start p : SchPdu} {ss : List SchSetting} {missed : ℕ}

theorem payloadSize_eq (h : p.subheaders = ss.map SchSetting.subh) (i : ℕ) :
    p.payloadSize i = (ss[i]?.map fun s => s.entry.payload.length).getD 0 := by
  unfold payloadSize
  rw [h, List.getElem?_map, Option.map_map]
  congr 2
  exact funext fun s => s.subh_nofBytes

variable {p' q : SchPdu} {s : SchSetting}

theorem Built.newSubh (h : Built start ss missed p) (hcall : p.newSubh = some p') :
    p' = { p with
      subheaders := ss.map SchSetting.subh ++ [SchSubh.init], curIdx := some ss.length } ∧
      ss.length + 1 < start.maxSubheaders := by
  unfold SchPdu.newSubh at hcall
  split_ifs at hcall with hfree
  unfold next at hcall
  simp only [h.curIdx, List.length_append, h.subheaders, List.length_map] at hcall
  rw [if_pos (by simp)] at hcall
  refine ⟨(Option.some.inj hcall).symm, ?_⟩
  have := hfree.1
  rw [h.subheaders, List.length_map, h.maxSubheaders] at this
  exact this

theorem lastSduGrowth_congr (hlast : q.lastSduIdx = p.lastSduIdx)
    (hget : ∀ i, p.lastSduIdx = some i → q.subheaders[i]? = p.subheaders[i]?) :
    q.lastSduGrowth = p.lastSduGrowth := by
  unfold lastSduGrowth payloadSize
  rw [hlast]
  cases hj : p.lastSduIdx with
  | none => rfl
  | some i =>
    change sizeHeaderSdu ((q.subheaders[i]?.map _).getD 0) - 1 = _
    rw [hget i hj]

theorem Built.last_lt (h : Built start ss missed p) :
    ∀ i, p.lastSduIdx = some i → i < ss.length := by
  intro i hi
  obtain ⟨s, hs, -⟩ := h.lastIdx i hi
  exact (List.getElem?_eq_some_iff.mp hs).1

theorem LastSdu.concat_ce {j : Option ℕ} (h : LastSdu ss j)
    (hs : s.isSdu = false) : LastSdu (ss ++ [s]) j := by
  cases j with
  | none =>
    intro x hx
    rcases List.mem_append.mp hx with hx | hx
    · exact h x hx
    · rw [List.mem_singleton.mp hx]
      exact hs
  | some i =>
    obtain ⟨a, x, b, rfl, hi, hx, hb⟩ := h
    refine ⟨a, x, b ++ [s], by simp, hi, hx, fun y hy => ?_⟩
    rcases List.mem_append.mp hy with hy | hy
    · exact hb y hy
    · rw [List.mem_singleton.mp hy]
      exact hs

theorem cost_concat (ss : List SchSetting) (s : SchSetting) :
    cost (ss ++ [s]) = cost ss + (s.entry.headerSize + s.entry.payload.length) := by
  unfold cost
  rw [List.map_append, List.sum_append]
  rfl

theorem sduBytes_concat_ce (ss : List SchSetting) (hs : s.isSdu = false) :
    sduBytes (ss ++ [s]) = sduBytes ss := by
  unfold sduBytes
  rw [List.filter_append, List.filter_cons_of_neg (by simp [hs]), List.filter_nil, List.append_nil]

theorem sduBytes_concat_sdu (ss : List SchSetting) (hs : s.isSdu = true) :
    sduBytes (ss ++ [s]) = sduBytes ss ++ s.entry.payload := by
  unfold sduBytes MacEntry.payloads
  rw [List.filter_append, List.filter_cons_of_pos hs, List.map_append, List.flatMap_append]
  simp

/-- `new_subh`, seen from the state after the settings `ss`. -/
def opened (p : SchPdu) (ss : List SchSetting) : SchPdu :=
  { p with subheaders := ss.map SchSetting.subh ++ [SchSubh.init], curIdx := some ss.length }

theorem modify_concat {α : Type*} (l : List α) (x : α) (f : α → α) :
    (l ++ [x]).modify l.length f = l ++ [f x] := by
  induction l with
  | nil => rfl
  | cons y l ih => simp [ih]

theorem modify_opened (ss : List SchSetting) (f : SchSubh → SchSubh) :
    (ss.map SchSetting.subh ++ [SchSubh.init]).modify ss.length f =
      ss.map SchSetting.subh ++ [f SchSubh.init] := by
  have h := modify_concat (ss.map SchSetting.subh) SchSubh.init f
  rwa [List.length_map] at h

theorem Built.lastSduGrowth_opened (h : Built start ss missed p) {x : SchSubh}
    (hsub : q.subheaders = ss.map SchSetting.subh ++ [x]) (hlast : q.lastSduIdx = p.lastSduIdx) :
    q.lastSduGrowth = p.lastSduGrowth := by
  refine lastSduGrowth_congr hlast fun i hi => ?_
  rw [hsub, h.subheaders, List.getElem?_append_left]
  rw [List.length_map]
  exact h.last_lt i hi

/-- The setting `s` has been made on the subheader opened after `ss`. -/
structure Sets (p : SchPdu) (ss : List SchSetting) (s : SchSetting) (p' : SchPdu) : Prop where
  maxSubheaders : p'.maxSubheaders = p.maxSubheaders
  pduLen : p'.pduLen = p.pduLen
  isUl : p'.pduIsUl = p.pduIsUl
  headroom : p'.buffer.headroom = p.buffer.headroom
  subheaders : p'.subheaders = (ss ++ [s]).map SchSetting.subh
  curIdx : p'.curIdx = some ss.length

theorem setCe_opened {c : CeSetting} (hcall : (opened p ss).setCe c = some p') :
    Sets p ss (.ce c) p' ∧ c.bytes.length + 1 ≤ p.remLen ∧
      p'.remLen = p.remLen - (c.bytes.length + 1) ∧ p'.lastSduIdx = p.lastSduIdx ∧
      p'.buffer = p.buffer := by
  unfold SchPdu.setCe at hcall
  dsimp only at hcall
  split_ifs at hcall with hspace
  have hrem : p.remLen ≥ c.bytes.length + 1 := by simpa [hasSpaceCe, opened] using hspace
  rw [updateSpaceCe, if_pos hspace] at hcall
  obtain rfl := Option.some.inj hcall
  refine ⟨⟨rfl, rfl, rfl, rfl, ?_, rfl⟩, hrem, rfl, rfl, rfl⟩
  change (ss.map SchSetting.subh ++ [SchSubh.init]).modify ss.length _ = _
  rw [modify_opened, List.map_append]
  rfl

/-- What an SDU setter needs and does: the bytes are appended; the space is accounted for if
`recheck` holds. -/
structure SetsSdu (p : SchPdu) (ss : List SchSetting) (s : SchSetting) (recheck : Prop)
    (p' : SchPdu) : Prop extends Sets p ss s p' where
  nonempty : s.entry.payload ≠ []
  space : s.entry.payload.length + 1 + p.lastSduGrowth ≤ p.remLen
  room : s.entry.payload.length ≤ p.buffer.tailroom
  msg : p'.buffer.msg = p.buffer.msg ++ s.entry.payload
  counted : recheck → p'.remLen = p.remLen - (s.entry.payload.length + 1 + p.lastSduGrowth) ∧
    p'.lastSduIdx = some ss.length
  missed : ¬ recheck → p'.remLen = p.remLen ∧ p'.lastSduIdx = p.lastSduIdx

theorem hasSpaceSdu_iff {n : ℕ} (hn : 0 < n) :
    q.hasSpaceSdu n = true ↔ n + 1 + q.lastSduGrowth ≤ q.remLen ∧ n ≤ q.buffer.tailroom := by
  unfold hasSpaceSdu getSduSpace
  rw [decide_eq_true_iff, ge_iff_le, Nat.le_min]
  constructor
  · exact fun h => ⟨by omega, h.2⟩
  · exact fun h => ⟨by omega, h.2⟩

theorem setSdu_opened (h : Built start ss missed p) {lcid : ℕ} {data : Bytes}
    (hcall : (opened p ss).setSdu lcid data = some p') :
    SetsSdu p ss (.sdu lcid data) (2 * data.length ≤ p.buffer.tailroom) p' := by
  unfold SchPdu.setSdu at hcall
  split_ifs at hcall with hok
  obtain ⟨hspace, hne⟩ := hok
  have hpos := List.length_pos_iff.mpr hne
  have hgrowth : (opened p ss).lastSduGrowth = p.lastSduGrowth := h.lastSduGrowth_opened rfl rfl
  obtain ⟨hrem, hroom⟩ := (hasSpaceSdu_iff hpos).mp hspace
  rw [hgrowth] at hrem
  have hadd : (opened p ss).addSdu data =
      { opened p ss with buffer := p.buffer.append data hroom } := dif_pos hroom
  rw [hadd] at hcall
  -- the state in which the space is checked again
  have htail := p.buffer.tailroom_append data hroom
  have hcheck : ({ opened p ss with buffer := p.buffer.append data hroom } : SchPdu).hasSpaceSdu
      data.length = true ↔ 2 * data.length ≤ p.buffer.tailroom := by
    have hgrowth' : ({ opened p ss with buffer := p.buffer.append data hroom } :
        SchPdu).lastSduGrowth = p.lastSduGrowth := h.lastSduGrowth_opened rfl rfl
    rw [hasSpaceSdu_iff hpos, hgrowth']
    change _ ∧ data.length ≤ (p.buffer.append data hroom).tailroom ↔ _
    rw [htail]
    constructor
    · intro hle
      have := hle.2
      have : data.length ≤ p.buffer.tailroom := hroom
      omega
    · exact fun hle => ⟨hrem, by omega⟩
  have hsub : ((ss.map SchSetting.subh ++ [SchSubh.init]).modify ss.length fun s =>
      { s with lcid := lcid, nofBytes := data.length }) =
        (ss ++ [SchSetting.sdu lcid data]).map SchSetting.subh := by
    rw [modify_opened, List.map_append]
    rfl
  by_cases hre : 2 * data.length ≤ p.buffer.tailroom
  · rw [updateSpaceSdu, if_pos (hcheck.mpr hre)] at hcall
    obtain rfl := Option.some.inj hcall
    refine ⟨⟨rfl, rfl, rfl, rfl, hsub, rfl⟩, hne, hrem, hroom, rfl, fun _ => ⟨?_, rfl⟩,
      fun h => absurd hre h⟩
    change p.remLen - (data.length + 1 + _) = _
    rw [h.lastSduGrowth_opened (q := { opened p ss with buffer := p.buffer.append data hroom })
      rfl rfl]
    rfl
  · rw [updateSpaceSdu, if_neg (fun h => hre (hcheck.mp h))] at hcall
    obtain rfl := Option.some.inj hcall
    exact ⟨⟨rfl, rfl, rfl, rfl, hsub, rfl⟩, hne, hrem, hroom, rfl, fun h => absurd h hre,
      fun _ => ⟨rfl, rfl⟩⟩

theorem addSdu_updateSpaceSdu {data : Bytes}
    (hcheck : q.hasSpaceSdu data.length = true) (hroom : data.length ≤ q.buffer.tailroom) :
    (q.updateSpaceSdu data.length).addSdu data =
      { q with
        remLen := q.remLen - (data.length + 1 + q.lastSduGrowth)
        lastSduIdx := q.curIdx
        buffer := q.buffer.append data hroom } := by
  rw [updateSpaceSdu, if_pos hcheck]
  exact dif_pos hroom

theorem setSduItf_opened (h : Built start ss missed p) {lcid requested : ℕ} {reply : Option Bytes}
    (hcall : (opened p ss).setSduItf lcid requested reply = some p') :
    SetsSdu p ss (.sduItf lcid requested reply) True p' := by
  unfold SchPdu.setSduItf at hcall
  split_ifs at hcall with hspace
  cases reply with
  | none => exact absurd hcall (by simp)
  | some data =>
    simp only [Option.bind_eq_bind, Option.bind_some] at hcall
    split_ifs at hcall with hok
    obtain ⟨hne, hle⟩ := hok
    have hpos := List.length_pos_iff.mpr hne
    have hspace' := (hasSpaceSdu_iff (Nat.lt_of_lt_of_le hpos hle)).mp hspace
    rw [h.lastSduGrowth_opened (q := opened p ss) rfl rfl] at hspace'
    obtain ⟨hrem, hroom⟩ : requested + 1 + p.lastSduGrowth ≤ p.remLen ∧
        requested ≤ p.buffer.tailroom := hspace'
    have hfits : data.length ≤ p.buffer.tailroom := hle.trans hroom
    obtain ⟨q, hmod, hq, hbuf, hremq, hlastq⟩ : ∃ q, (opened p ss).modifyCur (fun s =>
        { s with lcid := lcid, nofBytes := data.length }) = some q ∧
        Sets p ss (.sduItf lcid requested (some data)) q ∧ q.buffer = p.buffer ∧
        q.remLen = p.remLen ∧ q.lastSduIdx = p.lastSduIdx := by
      refine ⟨_, rfl, ⟨rfl, rfl, rfl, rfl, ?_, rfl⟩, rfl, rfl, rfl⟩
      change (ss.map SchSetting.subh ++ [SchSubh.init]).modify ss.length _ = _
      rw [modify_opened, List.map_append]
      rfl
    rw [hmod, Option.bind_some] at hcall
    have hgrowth : q.lastSduGrowth = p.lastSduGrowth :=
      h.lastSduGrowth_opened (by rw [hq.subheaders, List.map_append]; rfl) hlastq
    have hcheck : q.hasSpaceSdu data.length = true := by
      rw [hasSpaceSdu_iff hpos, hgrowth, hremq, hbuf]
      exact ⟨by omega, hfits⟩
    rw [addSdu_updateSpaceSdu hcheck (hbuf ▸ hfits)] at hcall
    obtain rfl := Option.some.inj hcall
    refine ⟨⟨hq.maxSubheaders, hq.pduLen, hq.isUl, hq.headroom, hq.subheaders, hq.curIdx⟩, hne, ?_,
      hfits, congrArg (fun b : ByteBuffer => b.msg ++ data) hbuf, fun _ => ⟨?_, hq.curIdx⟩,
      fun h => absurd trivial h⟩
    · change data.length + 1 + p.lastSduGrowth ≤ p.remLen
      omega
    · change q.remLen - (data.length + 1 + q.lastSduGrowth) = _
      rw [hgrowth, hremq]
      rfl

def sduLen (s : SchSetting) : ℕ := if s.isSdu then s.entry.payload.length else 0

def Counted (tailroom : ℕ) : SchSetting → Prop
  | .sdu _ data => 2 * data.length ≤ tailroom
  | _ => True

def Accounted : ℕ → List SchSetting → Prop
  | _, [] => True
  | tailroom, s :: ss => Counted tailroom s ∧ Accounted (tailroom - sduLen s) ss

theorem LastSdu.concat_sdu (hs : s.isSdu = true) :
    LastSdu (ss ++ [s]) (some ss.length) :=
  ⟨ss, s, [], rfl, rfl, hs, List.forall_mem_nil _⟩

theorem headerSize_sdu (hs : s.isSdu = true) :
    s.entry.headerSize = sizeHeaderSdu s.entry.payload.length := if_pos hs

theorem one_le_sizeHeaderSdu (n : ℕ) : 1 ≤ sizeHeaderSdu n := by
  unfold sizeHeaderSdu
  split_ifs <;> omega

section

variable (h : Built start ss missed p)
include h

theorem Built.of_sets (hfew : ss.length + 1 < start.maxSubheaders)
    (hset : Sets p ss s p') {missed' : ℕ}
    (hmsg : p'.buffer.msg = sduBytes (ss ++ [s]))
    (hlastIdx : ∀ i, p'.lastSduIdx = some i → ∃ s', (ss ++ [s])[i]? = some s' ∧ s'.isSdu = true)
    (haccount : p'.remLen + cost (ss ++ [s]) = start.pduLen + p'.lastSduGrowth + missed')
    (hlast : missed' = 0 → LastSdu (ss ++ [s]) p'.lastSduIdx) :
    Built start (ss ++ [s]) missed' p' where
  maxSubheaders := hset.maxSubheaders.trans h.maxSubheaders
  pduLen := hset.pduLen.trans h.pduLen
  isUl := hset.isUl.trans h.isUl
  headroom := hset.headroom.trans h.headroom
  subheaders := hset.subheaders
  curIdx := by simp [hset.curIdx]
  few := Or.inr (by simpa using hfew)
  msg := hmsg
  lastIdx := hlastIdx
  account := haccount
  last := hlast

theorem Built.lastIdx_concat (s : SchSetting) (i : ℕ)
    (hi : p.lastSduIdx = some i) : ∃ s', (ss ++ [s])[i]? = some s' ∧ s'.isSdu = true := by
  obtain ⟨s', hs', hsdu⟩ := h.lastIdx i hi
  exact ⟨s', by rw [List.getElem?_append_left (h.last_lt i hi), hs'], hsdu⟩

theorem Built.setCe (hfew : ss.length + 1 < start.maxSubheaders)
    {c : CeSetting} (hcall : (opened p ss).setCe c = some p') :
    Built start (ss ++ [.ce c]) missed p' ∧ p'.buffer = p.buffer := by
  obtain ⟨hset, hspace, hrem, hlast, hbuf⟩ := setCe_opened hcall
  have hsdu := isSdu_ce c
  refine ⟨h.of_sets hfew hset ?_ ?_ ?_ ?_, hbuf⟩
  · rw [hbuf, sduBytes_concat_ce ss hsdu]
    exact h.msg
  · rw [hlast]
    exact h.lastIdx_concat _
  · have hgrowth : p'.lastSduGrowth = p.lastSduGrowth :=
      h.lastSduGrowth_opened (hset.subheaders.trans (List.map_append ..)) hlast
    have hheader : (SchSetting.ce c).entry.headerSize = 1 := if_neg (Bool.not_eq_true _ ▸ hsdu)
    have haccount := h.account
    rw [cost_concat, hheader, hgrowth, hrem]
    change _ + (cost ss + (1 + c.bytes.length)) = _
    omega
  · intro hzero
    rw [hlast]
    exact (h.last hzero).concat_ce hsdu

theorem Built.setsSdu (hfew : ss.length + 1 < start.maxSubheaders)
    (hs : s.isSdu = true) {recheck : Prop}
    (hset : SetsSdu p ss s recheck p') :
    ∃ missed', Built start (ss ++ [s]) missed' p' ∧ (missed' = 0 ↔ missed = 0 ∧ recheck) := by
  have hheader := headerSize_sdu hs
  have hone := one_le_sizeHeaderSdu s.entry.payload.length
  have hpos := List.length_pos_iff.mpr hset.nonempty
  have hspace := hset.space
  have haccount := h.account
  have hmsg : p'.buffer.msg = sduBytes (ss ++ [s]) := by
    rw [hset.msg, h.msg, sduBytes_concat_sdu ss hs]
  have hself : (ss ++ [s])[ss.length]? = some s := by simp
  by_cases hre : recheck
  · obtain ⟨hrem, hlast⟩ := hset.counted hre
    refine ⟨missed, h.of_sets hfew hset.toSets hmsg ?_ ?_ ?_, by simp [hre]⟩
    · intro i hi
      rw [hlast] at hi
      exact Option.some.inj hi ▸ ⟨s, hself, hs⟩
    · have hgrowth : p'.lastSduGrowth = sizeHeaderSdu s.entry.payload.length - 1 := by
        unfold lastSduGrowth
        rw [hlast]
        change sizeHeaderSdu (p'.payloadSize ss.length) - 1 = _
        rw [payloadSize_eq hset.subheaders, hself]
        rfl
      rw [cost_concat, hheader, hgrowth, hrem]
      omega
    · intro _
      rw [hlast]
      exact LastSdu.concat_sdu hs
  · obtain ⟨hrem, hlast⟩ := hset.missed hre
    refine ⟨missed + (s.entry.headerSize + s.entry.payload.length),
      h.of_sets hfew hset.toSets hmsg ?_ ?_ ?_, ?_⟩
    · rw [hlast]
      exact h.lastIdx_concat s
    · have hgrowth : p'.lastSduGrowth = p.lastSduGrowth :=
        h.lastSduGrowth_opened (hset.subheaders.trans (List.map_append ..)) hlast
      rw [cost_concat, hgrowth, hrem]
      omega
    · intro hzero
      omega
    · simp only [hre, and_false, iff_false]
      omega

end

theorem sduLen_ce (c : CeSetting) : sduLen (.ce c) = 0 := by
  unfold sduLen
  rw [isSdu_ce]
  rfl

theorem SetsSdu.tailroom (hs : s.isSdu = true) {recheck : Prop}
    (hset : SetsSdu p ss s recheck p') : p'.buffer.tailroom = p.buffer.tailroom - sduLen s := by
  unfold ByteBuffer.tailroom ByteBuffer.nBytes sduLen
  rw [hset.msg, hset.headroom, List.length_append, if_pos hs, Nat.sub_add_eq]

theorem Built.step (h : Built start ss missed p) (hs : s.Valid start.pduIsUl)
    (hcall : callAll p [.newSubh, .set s] = some p') :
    ∃ missed', Built start (ss ++ [s]) missed' p' ∧
      (missed' = 0 ↔ missed = 0 ∧ Counted p.buffer.tailroom s) ∧
        p'.buffer.tailroom = p.buffer.tailroom - sduLen s := by
  simp only [callAll, Option.bind_eq_some_iff] at hcall
  obtain ⟨q, hnew, q', hset, hq⟩ := hcall
  obtain rfl := Option.some.inj hq
  obtain ⟨hopened, hfew⟩ := h.newSubh hnew
  change q = opened p ss at hopened
  subst hopened
  cases s with
  | ce c =>
    obtain ⟨hbuilt, hbuf⟩ := h.setCe hfew hset
    refine ⟨missed, hbuilt, by simp [Counted], ?_⟩
    rw [hbuf, sduLen_ce]
    rfl
  | sdu lcid data =>
    have hsdu : (SchSetting.sdu lcid data).isSdu = true := decide_eq_true hs
    have hsets := setSdu_opened h hset
    obtain ⟨missed', hbuilt, hzero⟩ := h.setsSdu hfew hsdu hsets
    exact ⟨missed', hbuilt, hzero, hsets.tailroom hsdu⟩
  | sduItf lcid requested reply =>
    have hsdu : (SchSetting.sduItf lcid requested reply).isSdu = true := decide_eq_true hs
    have hsets := setSduItf_opened h hset
    obtain ⟨missed', hbuilt, hzero⟩ := h.setsSdu hfew hsdu hsets
    exact ⟨missed', hbuilt, hzero, hsets.tailroom hsdu⟩

theorem callAll_append (cs cs' : List SchCall) (p : SchPdu) :
    callAll p (cs ++ cs') = (callAll p cs).bind fun p => callAll p cs' := by
  induction cs generalizing p with
  | nil => rfl
  | cons c cs ih =>
    rw [List.cons_append, callAll, callAll, Option.bind_assoc]
    exact congrArg _ (funext fun p => ih p)

theorem Built.run (h : Built start ss missed p) {rest : List SchSetting}
    (hvalid : ∀ s ∈ rest, s.Valid start.pduIsUl)
    (hcall : callAll p (settingCalls rest) = some p') :
    ∃ missed', Built start (ss ++ rest) missed' p' ∧
      (missed' = 0 ↔ missed = 0 ∧ Accounted p.buffer.tailroom rest) := by
  induction rest generalizing ss missed p with
  | nil =>
    obtain rfl := Option.some.inj hcall
    exact ⟨missed, by rwa [List.append_nil], by simp [Accounted]⟩
  | cons s rest ih =>
    rw [show settingCalls (s :: rest) = [.newSubh, .set s] ++ settingCalls rest from rfl,
      callAll_append, Option.bind_eq_some_iff] at hcall
    obtain ⟨q, hstep, hrest⟩ := hcall
    obtain ⟨missed₁, hbuilt, hzero, htail⟩ := h.step (hvalid s List.mem_cons_self) hstep
    obtain ⟨missed₂, hbuilt₂, hzero₂⟩ :=
      ih hbuilt (List.forall_mem_cons.mp hvalid).2 hrest
    refine ⟨missed₂, by simpa using hbuilt₂, ?_⟩
    rw [hzero₂, hzero, htail, and_assoc]
    rfl

end SchPdu
end SrsLte
