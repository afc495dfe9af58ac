import SrsLte.UlMux

/-!
# The rounds of the mux

Both rounds serve the channels in order of priority, each with what it asks for as long as there
is space. In the first round a channel with a finite PBR asks for at most `Bj`.
-/

namespace SrsLte

namespace LogicalChannel

def firstShare (ch : LogicalChannel) : ℤ :=
  if ch.pbr < 0 then ch.bufferLen else min ch.bufferLen ch.bj

theorem firstShare_le (ch : LogicalChannel) : ch.firstShare ≤ ch.bufferLen := by
  unfold firstShare
  split_ifs
  · exact Int.le_refl _
  · exact min_le_left _ _

variable {ch ch' : LogicalChannel} {want : LogicalChannel → ℤ} {space space' maxSduSz : ℤ}

theorem firstShare_le_bj (hpbr : 0 ≤ ch.pbr) : ch.firstShare ≤ ch.bj := by
  unfold firstShare
  rw [if_neg (Int.not_lt.mpr hpbr)]
  exact min_le_right _ _

def secondShare (ch : LogicalChannel) : ℤ := if ch.lcid ≠ 0 then ch.bufferLen else 0

/-- A channel is served with at most what it asks for, and with all of it if space is left. -/
structure Served (want : LogicalChannel → ℤ) (ch ch' : LogicalChannel) (space space' : ℤ) : Prop
    where
  lcid : ch'.lcid = ch.lcid
  priority : ch'.priority = ch.priority
  pbr : ch'.pbr = ch.pbr
  bucketSize : ch'.bucketSize = ch.bucketSize
  data : ch'.bufferLen + ch'.schedLen = ch.bufferLen + ch.schedLen
  grows : ch.schedLen ≤ ch'.schedLen
  share : ch'.schedLen - ch.schedLen ≤ want ch
  spaceLe : space' ≤ space
  spacePos : ch.schedLen < ch'.schedLen → 0 < space
  full : 0 < space' → ch'.schedLen - ch.schedLen = want ch

theorem Served.unserved
    (hwant : 0 ≤ want ch) (hfull : 0 < space → want ch = 0) : Served want ch ch space space where
  lcid := rfl
  priority := rfl
  pbr := rfl
  bucketSize := rfl
  data := rfl
  grows := Int.le_refl _
  share := (Int.sub_self _).trans_le hwant
  spaceLe := Int.le_refl _
  spacePos := fun h => absurd h (Int.lt_irrefl _)
  full := fun h => (Int.sub_self _).trans (hfull h).symm

/-- The bytes that `sched_sdu` takes. -/
def taken (ch : LogicalChannel) (sduSpace maxSduSz : ℤ) : ℤ :=
  min (if maxSduSz < 0 then ch.bufferLen else min ch.bufferLen maxSduSz) sduSpace

theorem schedSdu_eq (ch : LogicalChannel) (sduSpace maxSduSz : ℤ) :
    ch.schedSdu sduSpace maxSduSz =
      if sduSpace > 0 ∧ ch.bufferLen > 0 then
        some ({ ch with
            bufferLen := ch.bufferLen - ch.taken sduSpace maxSduSz
            schedLen := ch.schedLen + ch.taken sduSpace maxSduSz },
          sduSpace - ch.taken sduSpace maxSduSz -
            (if ch.schedLen = 0 then (sizeHeaderSdu (ch.taken sduSpace maxSduSz).toNat : ℤ) else 0))
      else none := by
  have htaken : (if (if ch.bufferLen > maxSduSz ∧ maxSduSz ≥ 0 then maxSduSz else ch.bufferLen) >
        sduSpace then sduSpace
      else if ch.bufferLen > maxSduSz ∧ maxSduSz ≥ 0 then maxSduSz else ch.bufferLen) =
        ch.taken sduSpace maxSduSz := by
    unfold taken
    split_ifs <;> omega
  unfold schedSdu
  dsimp only
  rw [htaken]

theorem served_schedSdu (hmax : maxSduSz < 0 ∧ want ch = ch.bufferLen ∨
      0 ≤ maxSduSz ∧ want ch = min ch.bufferLen maxSduSz)
    (h : ch.schedSdu space maxSduSz = some (ch', space')) : Served want ch ch' space space' := by
  rw [schedSdu_eq] at h
  by_cases hok : space > 0 ∧ ch.bufferLen > 0
  · rw [if_pos hok] at h
    obtain ⟨hspace, hbuffer⟩ := hok
    obtain ⟨rfl, rfl⟩ := Prod.mk.inj (Option.some.inj h)
    have htaken : ch.taken space maxSduSz = min (want ch) space := by
      unfold taken
      rcases hmax with ⟨hneg, hwant⟩ | ⟨hnonneg, hwant⟩
      · rw [if_pos hneg, hwant]
      · rw [if_neg (Int.not_lt.mpr hnonneg), hwant]
    have hwant : 0 ≤ want ch := by
      rcases hmax with ⟨-, hwant⟩ | ⟨hnonneg, hwant⟩
      · omega
      · rw [hwant]
        exact le_min (Int.le_of_lt hbuffer) hnonneg
    rw [htaken]
    have hheader : (0 : ℤ) ≤ if ch.schedLen = 0 then
        (sizeHeaderSdu (min (want ch) space).toNat : ℤ) else 0 := by
      split_ifs
      · exact Int.natCast_nonneg _
      · exact Int.le_refl 0
    generalize (if ch.schedLen = 0 then
      (sizeHeaderSdu (min (want ch) space).toNat : ℤ) else 0) = header at hheader
    refine ⟨rfl, rfl, rfl, rfl, ?_, ?_, ?_, ?_, fun _ => hspace, ?_⟩
    · change ch.bufferLen - _ + (ch.schedLen + _) = _
      omega
    · change _ ≤ ch.schedLen + _
      omega
    · change ch.schedLen + _ - _ ≤ _
      omega
    · omega
    · intro hleft
      change ch.schedLen + _ - _ = _
      omega
  · rw [if_neg hok] at h
    exact absurd h nofun

theorem schedSdu_none
    (h : ch.schedSdu space maxSduSz = none) : ¬ (0 < space ∧ 0 < ch.bufferLen) := by
  rw [schedSdu_eq] at h
  split_ifs at h with hok
  exact hok

theorem bj_schedSdu (h : ch.schedSdu space maxSduSz = some (ch', space')) : ch'.bj = ch.bj := by
  rw [schedSdu_eq] at h
  by_cases hok : space > 0 ∧ ch.bufferLen > 0
  · rw [if_pos hok] at h
    obtain ⟨rfl, -⟩ := Prod.mk.inj (Option.some.inj h)
    rfl
  · rw [if_neg hok] at h
    exact absurd h nofun

theorem served_schedFirst (hsched : ch.schedLen = 0)
    (hbuffer : 0 ≤ ch.bufferLen) (hbj : 0 ≤ ch.pbr → 0 ≤ ch.bj) (space : ℤ) :
    Served firstShare ch (ch.schedFirst space).1 space (ch.schedFirst space).2 ∧
      (0 ≤ ch.pbr → 0 ≤ (ch.schedFirst space).1.bj) := by
  have hshare : 0 ≤ ch.firstShare := by
    unfold firstShare
    split_ifs with hpbr
    · exact hbuffer
    · exact le_min hbuffer (hbj (Int.not_lt.mp hpbr))
  have hlimit : (if ch.pbr < 0 then -1 else ch.bj) < 0 ∧ ch.firstShare = ch.bufferLen ∨
      0 ≤ (if ch.pbr < 0 then -1 else ch.bj) ∧
        ch.firstShare = min ch.bufferLen (if ch.pbr < 0 then -1 else ch.bj) := by
    unfold firstShare
    split_ifs with hpbr
    · exact Or.inl ⟨by decide, rfl⟩
    · exact Or.inr ⟨hbj (Int.not_lt.mp hpbr), rfl⟩
  unfold schedFirst
  dsimp only
  generalize (if ch.pbr < 0 then -1 else ch.bj) = limit at hlimit
  by_cases hzero : limit ≠ 0
  · rw [if_pos hzero]
    cases h : ch.schedSdu space limit with
    | none =>
      refine ⟨Served.unserved hshare fun hspace => ?_, hbj⟩
      have hempty := schedSdu_none h
      rcases hlimit with ⟨-, hwant⟩ | ⟨-, hwant⟩ <;> omega
    | some result =>
      obtain ⟨ch', space'⟩ := result
      have hserved := served_schedSdu hlimit h
      have hbj' := bj_schedSdu h
      refine ⟨⟨hserved.lcid, hserved.priority, hserved.pbr, hserved.bucketSize, hserved.data,
        hserved.grows, hserved.share, hserved.spaceLe, hserved.spacePos, hserved.full⟩,
        fun hpbr => ?_⟩
      have hle := hserved.share
      have hwant := firstShare_le_bj hpbr
      change 0 ≤ ch'.bj - ch'.schedLen
      omega
  · rw [if_neg hzero]
    refine ⟨Served.unserved hshare fun _ => ?_, hbj⟩
    rcases hlimit with ⟨hneg, -⟩ | ⟨-, hwant⟩ <;> omega

theorem served_schedSecond (hbuffer : 0 ≤ ch.bufferLen) (space : ℤ) :
    Served secondShare ch (ch.schedSecond space).1 space (ch.schedSecond space).2 ∧
      (ch.schedSecond space).1.bj = ch.bj := by
  unfold schedSecond
  split_ifs with hlcid
  · have hshare : ch.secondShare = ch.bufferLen := if_pos hlcid
    cases h : ch.schedSdu space (-1) with
    | none =>
      refine ⟨Served.unserved (hshare ▸ hbuffer) fun hspace => ?_, rfl⟩
      have hempty := schedSdu_none h
      omega
    | some result => exact ⟨served_schedSdu (Or.inl ⟨by decide, hshare⟩) h, bj_schedSdu h⟩
  · have hshare : ch.secondShare = 0 := if_neg hlcid
    exact ⟨Served.unserved (Int.le_of_eq hshare.symm) fun _ => hshare, rfl⟩

/-- Every channel is served with the space that those before it leave. -/
inductive Round (want : LogicalChannel → ℤ) :
    List LogicalChannel → List LogicalChannel → ℤ → ℤ → Prop
  | nil (space : ℤ) : Round want [] [] space space
  | cons {ch ch' : LogicalChannel} {chs chs' : List LogicalChannel} {space space₁ space' : ℤ} :
    Served want ch ch' space space₁ → Round want chs chs' space₁ space' →
      Round want (ch :: chs) (ch' :: chs') space space'

theorem round_schedRound
    {sched : LogicalChannel → ℤ → LogicalChannel × ℤ} {chs : List LogicalChannel}
    (hsched : ∀ ch ∈ chs, ∀ space, Served want ch (sched ch space).1 space (sched ch space).2)
    (space : ℤ) :
    Round want chs (schedRound sched chs space).1 space (schedRound sched chs space).2 := by
  induction chs generalizing space with
  | nil => exact Round.nil space
  | cons ch chs ih =>
    exact Round.cons (hsched ch List.mem_cons_self space)
      (ih (List.forall_mem_cons.mp hsched).2 _)

section Round

variable {want : LogicalChannel → ℤ} {chs chs' : List LogicalChannel} {space space' : ℤ}

theorem Round.spaceLe (h : Round want chs chs' space space') : space' ≤ space := by
  induction h with
  | nil => exact Int.le_refl _
  | cons hserved _ ih => exact Int.le_trans ih hserved.spaceLe

theorem Round.served (h : Round want chs chs' space space') :
    ∀ x ∈ chs.zip chs', ∃ s s', Served want x.1 x.2 s s' ∧ s ≤ space ∧ space' ≤ s' := by
  induction h with
  | nil => exact List.forall_mem_nil _
  | cons hserved hround ih =>
    intro x hx
    rcases List.mem_cons.mp hx with rfl | hx
    · exact ⟨_, _, hserved, Int.le_refl _, hround.spaceLe⟩
    · obtain ⟨s, s', hx, hle, hle'⟩ := ih x hx
      exact ⟨s, s', hx, Int.le_trans hle hserved.spaceLe, hle'⟩

theorem Round.map_eq {α : Type*} {f : LogicalChannel → α}
    (hf : ∀ ch ch' s s', Served want ch ch' s s' → f ch' = f ch)
    (h : Round want chs chs' space space') : chs'.map f = chs.map f := by
  induction h with
  | nil => rfl
  | cons hserved _ ih => rw [List.map_cons, List.map_cons, ih, hf _ _ _ _ hserved]

section

variable (h : Round want chs chs' space space')
include h

theorem Round.exists_right {ch : LogicalChannel}
    (hch : ch ∈ chs) : ∃ ch' ∈ chs', (ch, ch') ∈ chs.zip chs' := by
  induction h with
  | nil => exact absurd hch List.not_mem_nil
  | cons _ _ ih =>
    rcases List.mem_cons.mp hch with rfl | hch
    · exact ⟨_, List.mem_cons_self, List.mem_cons_self⟩
    · obtain ⟨ch', hmem, hzip⟩ := ih hch
      exact ⟨ch', List.mem_cons_of_mem _ hmem, List.mem_cons_of_mem _ hzip⟩

theorem Round.exists_left {ch' : LogicalChannel}
    (hch : ch' ∈ chs') : ∃ ch ∈ chs, (ch, ch') ∈ chs.zip chs' := by
  induction h with
  | nil => exact absurd hch List.not_mem_nil
  | cons _ _ ih =>
    rcases List.mem_cons.mp hch with rfl | hch
    · exact ⟨_, List.mem_cons_self, List.mem_cons_self⟩
    · obtain ⟨ch, hmem, hzip⟩ := ih hch
      exact ⟨ch, List.mem_cons_of_mem _ hmem, List.mem_cons_of_mem _ hzip⟩

theorem Round.mem_zip
    (hnodup : (chs.map LogicalChannel.lcid).Nodup) {ch ch' : LogicalChannel} (hch : ch ∈ chs)
    (hch' : ch' ∈ chs') (hlcid : ch'.lcid = ch.lcid) : (ch, ch') ∈ chs.zip chs' := by
  obtain ⟨c, hc, hzip⟩ := h.exists_left hch'
  obtain ⟨s, s', hserved, -⟩ := h.served _ hzip
  obtain rfl := List.inj_on_of_nodup_map hnodup hc hch (hserved.lcid.symm.trans hlcid)
  exact hzip

/-- With channels in order of priority, one is served only when all of higher priority got what
they ask for. -/
theorem Round.priority (hsorted : chs.Pairwise fun d ch => d.priority ≤ ch.priority)
    {x y : LogicalChannel × LogicalChannel} (hx : x ∈ chs.zip chs') (hy : y ∈ chs.zip chs')
    (hlt : x.1.priority < y.1.priority) (hgain : y.1.schedLen < y.2.schedLen) :
    x.2.schedLen - x.1.schedLen = want x.1 := by
  induction h with
  | nil => exact absurd hx List.not_mem_nil
  | cons hserved hround ih =>
    obtain ⟨hfirst, hrest⟩ := List.pairwise_cons.mp hsorted
    rcases List.mem_cons.mp hx with rfl | hx
    · rcases List.mem_cons.mp hy with rfl | hy
      · exact absurd hlt (Nat.lt_irrefl _)
      · obtain ⟨s, s', hy, hle, -⟩ := hround.served y hy
        exact hserved.full (Int.lt_of_lt_of_le (hy.spacePos hgain) hle)
    · rcases List.mem_cons.mp hy with rfl | hy
      · exact absurd hlt (Nat.not_lt.mpr (hfirst x.1 (List.of_mem_zip hx).1))
      · exact ih hrest hx hy

end

end Round

theorem mem_schedRound {sched : LogicalChannel → ℤ → LogicalChannel × ℤ} {chs : List LogicalChannel}
    (h : ch' ∈ (schedRound sched chs space).1) : ∃ ch ∈ chs, ∃ s, ch' = (sched ch s).1 := by
  induction chs generalizing space with
  | nil => exact absurd h List.not_mem_nil
  | cons ch chs ih =>
    rcases List.mem_cons.mp h with rfl | h
    · exact ⟨ch, List.mem_cons_self, space, rfl⟩
    · obtain ⟨c, hc, hs⟩ := ih h
      exact ⟨c, List.mem_cons_of_mem _ hc, hs⟩

theorem Served.bufferLen_nonneg
    (h : Served firstShare ch ch' space space') : 0 ≤ ch'.bufferLen := by
  have hdata := h.data
  have hshare := h.share.trans ch.firstShare_le
  omega

/-- A channel as `setup_lcid` gets it: the bucket of a finite PBR is an `int32_t` that is not
negative, and CCCH, which only `mac::reset` sets up, has no finite PBR. -/
structure Proper (ch : LogicalChannel) : Prop where
  bj : 0 ≤ ch.pbr → 0 ≤ ch.bj
  bucket : 0 ≤ ch.pbr → ch.bucketSize < 2 ^ 31
  ccch : ch.lcid = 0 → ch.pbr < 0

theorem Proper.stepBj (h : ch.Proper) : ch.stepBj.Proper where
  bj := by
    intro hpbr
    have hbucket := h.bucket hpbr
    have hmod : (0 : ℤ) ≤ (if ch.pbr ≥ 0 then ch.bj + ch.pbr else ch.bj) % 2 ^ 32 :=
      Int.emod_nonneg _ (by decide)
    change 0 ≤ (min ((if ch.pbr ≥ 0 then ch.bj + ch.pbr else ch.bj) % 2 ^ 32)
      (ch.bucketSize : ℤ)).bmod (2 ^ 32)
    rw [Int.bmod_eq_of_le] <;> omega
  bucket := h.bucket
  ccch := h.ccch

end LogicalChannel

namespace Mux

open LogicalChannel

variable {ρ : Type*} (rlc : RlcMac ρ) (m : Mux) (r : ρ) (sduSpace : ℕ)

def offer (rlc : RlcMac ρ) (r : ρ) (ch : LogicalChannel) : LogicalChannel :=
  { ch with schedLen := 0, bufferLen := rlc.getBufferState r ch.lcid }

def firstRound : List LogicalChannel × ℤ :=
  schedRound schedFirst (m.logicalChannels.map (offer rlc r)) sduSpace

theorem schedule_eq : m.schedule rlc r sduSpace =
    (schedRound schedSecond (m.firstRound rlc r sduSpace).1 (m.firstRound rlc r sduSpace).2).1 :=
  rfl

structure Configured : Prop where
  sorted : m.logicalChannels.Pairwise fun d ch => d.priority ≤ ch.priority
  nodup : (m.logicalChannels.map LogicalChannel.lcid).Nodup
  proper : ∀ ch ∈ m.logicalChannels, ch.Proper

variable {rlc m r sduSpace}

theorem Configured.of_maps (h : m.Configured) {channels : List LogicalChannel} (crnti : ℕ)
    (hlcid : channels.map LogicalChannel.lcid = m.logicalChannels.map LogicalChannel.lcid)
    (hpriority :
      channels.map LogicalChannel.priority = m.logicalChannels.map LogicalChannel.priority)
    (hproper : ∀ ch ∈ channels, ch.Proper) : Configured ⟨channels, crnti⟩ where
  sorted := by
    have hsorted := List.pairwise_map.mpr h.sorted
    rw [← hpriority] at hsorted
    exact List.pairwise_map.mp hsorted
  nodup := by
    rw [hlcid]
    exact h.nodup
  proper := hproper

variable {ch d c₁ config : LogicalChannel}

theorem served_offer (hproper : ch.Proper) (space : ℤ) :
    Served firstShare (offer rlc r ch) ((offer rlc r ch).schedFirst space).1 space
      ((offer rlc r ch).schedFirst space).2 ∧
      (0 ≤ ch.pbr → 0 ≤ ((offer rlc r ch).schedFirst space).1.bj) :=
  @served_schedFirst (offer rlc r ch) rfl (Int.natCast_nonneg _) hproper.bj space

theorem Configured.round_first (h : m.Configured) :
    Round firstShare (m.logicalChannels.map (offer rlc r)) (m.firstRound rlc r sduSpace).1
      sduSpace (m.firstRound rlc r sduSpace).2 := by
  refine round_schedRound (fun ch hch space => ?_) _
  obtain ⟨d, hd, rfl⟩ := List.mem_map.mp hch
  exact (served_offer (h.proper d hd) space).1

theorem Configured.map_first {α : Type*} (h : m.Configured) {f : LogicalChannel → α}
    (hf : ∀ ch ch' s s', Served firstShare ch ch' s s' → f ch' = f ch)
    (hoffer : ∀ ch, f (offer rlc r ch) = f ch) :
    (m.firstRound rlc r sduSpace).1.map f = m.logicalChannels.map f := by
  rw [h.round_first.map_eq hf, List.map_map]
  exact List.map_congr_left fun ch _ => hoffer ch

section

variable (h : m.Configured)
include h

theorem Configured.first (crnti : ℕ) :
    Configured ⟨(m.firstRound rlc r sduSpace).1, crnti⟩ := by
  refine h.of_maps crnti (h.map_first (fun _ _ _ _ hs => hs.lcid) fun _ => rfl)
    (h.map_first (fun _ _ _ _ hs => hs.priority) fun _ => rfl) fun c₁ hc₁ => ?_
  obtain ⟨c₀, hc₀, space, rfl⟩ := mem_schedRound hc₁
  obtain ⟨d, hd, rfl⟩ := List.mem_map.mp hc₀
  obtain ⟨hserved, hbj⟩ := @served_offer _ rlc r d (h.proper d hd) space
  refine ⟨fun hpbr => hbj (hserved.pbr ▸ hpbr), fun hpbr => ?_, fun hlcid => ?_⟩
  · rw [hserved.bucketSize]
    exact (h.proper d hd).bucket (hserved.pbr ▸ hpbr)
  · rw [hserved.pbr]
    exact (h.proper d hd).ccch (hserved.lcid ▸ hlcid)

theorem Configured.bufferLen_first
    (hch : ch ∈ (m.firstRound rlc r sduSpace).1) : 0 ≤ ch.bufferLen := by
  obtain ⟨c₀, hc₀, space, rfl⟩ := mem_schedRound hch
  obtain ⟨d, hd, rfl⟩ := List.mem_map.mp hc₀
  exact (served_offer (h.proper d hd) space).1.bufferLen_nonneg

theorem Configured.round_second :
    Round secondShare (m.firstRound rlc r sduSpace).1 (m.schedule rlc r sduSpace)
      (m.firstRound rlc r sduSpace).2 (schedRound schedSecond (m.firstRound rlc r sduSpace).1
        (m.firstRound rlc r sduSpace).2).2 := by
  rw [schedule_eq]
  exact round_schedRound
    (fun ch hch space => (served_schedSecond (h.bufferLen_first hch) space).1) _

theorem Configured.lcid_schedule :
    (m.schedule rlc r sduSpace).map LogicalChannel.lcid =
      m.logicalChannels.map LogicalChannel.lcid := by
  rw [h.round_second.map_eq fun _ _ _ _ hs => hs.lcid]
  exact h.map_first (fun _ _ _ _ hs => hs.lcid) fun _ => rfl

theorem Configured.schedule (crnti : ℕ) :
    Configured ⟨m.schedule rlc r sduSpace, crnti⟩ := by
  have hfirst : Configured ⟨(m.firstRound rlc r sduSpace).1, crnti⟩ := h.first crnti
  refine hfirst.of_maps crnti (h.round_second.map_eq fun _ _ _ _ hs => hs.lcid)
    (h.round_second.map_eq fun _ _ _ _ hs => hs.priority) fun c₂ hc₂ => ?_
  rw [schedule_eq] at hc₂
  obtain ⟨c₁, hc₁, space, rfl⟩ := mem_schedRound hc₂
  obtain ⟨hserved, hbj⟩ := served_schedSecond (h.bufferLen_first hc₁) space
  have hproper := hfirst.proper c₁ hc₁
  refine ⟨fun hpbr => ?_, fun hpbr => ?_, fun hlcid => ?_⟩
  · rw [hbj]
    exact hproper.bj (hserved.pbr ▸ hpbr)
  · rw [hserved.bucketSize]
    exact hproper.bucket (hserved.pbr ▸ hpbr)
  · rw [hserved.pbr]
    exact hproper.ccch (hserved.lcid ▸ hlcid)

theorem Configured.exists_scheduled (hd : d ∈ m.logicalChannels) : ∃ d₂ ∈ m.schedule rlc r sduSpace,
      d₂.lcid = d.lcid ∧ d₂.priority = d.priority := by
  obtain ⟨d₁, hd₁, hzip₁⟩ := h.round_first.exists_right (List.mem_map_of_mem hd)
  obtain ⟨d₂, hd₂, hzip₂⟩ := h.round_second.exists_right hd₁
  obtain ⟨s₁, s₁', hserved₁, -⟩ := h.round_first.served _ hzip₁
  obtain ⟨s₂, s₂', hserved₂, -⟩ := h.round_second.served _ hzip₂
  exact ⟨d₂, hd₂, hserved₂.lcid.trans hserved₁.lcid, hserved₂.priority.trans hserved₁.priority⟩

section

variable (hch : ch ∈ m.logicalChannels) (hc₁ : c₁ ∈ (m.firstRound rlc r sduSpace).1)
  (hlcid : c₁.lcid = ch.lcid)
include hch hc₁ hlcid

theorem Configured.zip_first : (offer rlc r ch, c₁) ∈
      (m.logicalChannels.map (offer rlc r)).zip (m.firstRound rlc r sduSpace).1 := by
  refine h.round_first.mem_zip ?_ (List.mem_map_of_mem hch) hc₁ hlcid
  rw [List.map_map]
  exact h.nodup

theorem Configured.first_le (hpbr : 0 ≤ ch.pbr) : c₁.schedLen ≤ ch.bj := by
  obtain ⟨s, s', hserved, -⟩ := h.round_first.served _ (h.zip_first hch hc₁ hlcid)
  calc c₁.schedLen = c₁.schedLen - (offer rlc r ch).schedLen := (Int.sub_zero _).symm
    _ ≤ (offer rlc r ch).firstShare := hserved.share
    _ ≤ ch.bj := firstShare_le_bj hpbr

end

theorem Configured.first_order {d₁ : LogicalChannel}
    (hd : d ∈ m.logicalChannels) (hd₁ : d₁ ∈ (m.firstRound rlc r sduSpace).1)
    (hc₁ : c₁ ∈ (m.firstRound rlc r sduSpace).1) (hlcid : d₁.lcid = d.lcid)
    (hlt : d.priority < c₁.priority) (hgain : 0 < c₁.schedLen) :
    d₁.schedLen = (offer rlc r d).firstShare := by
  obtain ⟨c₀, hc₀, hzip⟩ := h.round_first.exists_left hc₁
  obtain ⟨s, s', hserved, -⟩ := h.round_first.served _ hzip
  obtain ⟨c, -, rfl⟩ := List.mem_map.mp hc₀
  calc d₁.schedLen = d₁.schedLen - (offer rlc r d).schedLen := (Int.sub_zero _).symm
    _ = (offer rlc r d).firstShare :=
      h.round_first.priority (List.pairwise_map.mpr h.sorted) (h.zip_first hd hd₁ hlcid) hzip
        (hlt.trans_eq hserved.priority) hgain

theorem Configured.schedule_data {c₂ : LogicalChannel}
    (hc₂ : c₂ ∈ m.schedule rlc r sduSpace) : 0 ≤ c₂.schedLen ∧ 0 ≤ c₂.bufferLen ∧
      c₂.bufferLen + c₂.schedLen = rlc.getBufferState r c₂.lcid := by
  obtain ⟨c₁, hc₁, hzip₂⟩ := h.round_second.exists_left hc₂
  obtain ⟨s₂, s₂', hsecond, -⟩ := h.round_second.served _ hzip₂
  obtain ⟨c₀, hc₀, hzip₁⟩ := h.round_first.exists_left hc₁
  obtain ⟨s₁, s₁', hfirst, -⟩ := h.round_first.served _ hzip₁
  obtain ⟨d, -, rfl⟩ := List.mem_map.mp hc₀
  have hleft := h.bufferLen_first hc₁
  have hshare : c₁.secondShare ≤ c₁.bufferLen := by
    unfold secondShare
    split_ifs
    · exact Int.le_refl _
    · exact hleft
  have hgrows₁ : 0 ≤ c₁.schedLen := hfirst.grows
  have hgrows₂ : c₁.schedLen ≤ c₂.schedLen := hsecond.grows
  have hdata₁ : c₁.bufferLen + c₁.schedLen = rlc.getBufferState r d.lcid + 0 := hfirst.data
  have hdata₂ : c₂.bufferLen + c₂.schedLen = c₁.bufferLen + c₁.schedLen := hsecond.data
  have hgain : c₂.schedLen - c₁.schedLen ≤ c₁.secondShare := hsecond.share
  refine ⟨by omega, by omega, ?_⟩
  rw [show c₂.lcid = d.lcid from hsecond.lcid.trans hfirst.lcid]
  omega

/-- A channel gets bytes in the second round only if no channel of higher priority has any left:
CCCH, which has no finite PBR, got all of them in the first round. -/
theorem Configured.second_order {c₂ d₂ : LogicalChannel}
    (hc₁ : c₁ ∈ (m.firstRound rlc r sduSpace).1) (hc₂ : c₂ ∈ m.schedule rlc r sduSpace)
    (hlcid : c₂.lcid = c₁.lcid) (hgain : c₁.schedLen < c₂.schedLen)
    (hd₂ : d₂ ∈ m.schedule rlc r sduSpace) (hlt : d₂.priority < c₂.priority) :
    d₂.bufferLen = 0 := by
  have hfirst : Configured ⟨(m.firstRound rlc r sduSpace).1, 0⟩ := h.first 0
  have hzip := h.round_second.mem_zip hfirst.nodup hc₁ hc₂ hlcid
  obtain ⟨s₂, s₂', hserved, hle, -⟩ := h.round_second.served _ hzip
  obtain ⟨d₁, hd₁, hzipd⟩ := h.round_second.exists_left hd₂
  obtain ⟨t₂, t₂', hservedd, -⟩ := h.round_second.served _ hzipd
  have hfull : d₂.schedLen - d₁.schedLen = d₁.secondShare :=
    h.round_second.priority hfirst.sorted hzipd hzip
      ((hservedd.priority.symm.trans_lt hlt).trans_eq hserved.priority) hgain
  have hdata : d₂.bufferLen + d₂.schedLen = d₁.bufferLen + d₁.schedLen := hservedd.data
  by_cases hccch : d₁.lcid = 0
  · have hshare : d₁.secondShare = 0 := if_neg (not_not.mpr hccch)
    obtain ⟨d₀, hd₀, hzip₀⟩ := h.round_first.exists_left hd₁
    obtain ⟨t₁, t₁', hserved₁, -, hleft⟩ := h.round_first.served _ hzip₀
    obtain ⟨d, hd, rfl⟩ := List.mem_map.mp hd₀
    have hpbr : d.pbr < 0 := (h.proper d hd).ccch (hserved₁.lcid.symm.trans hccch)
    have hall : d₁.schedLen - 0 = (offer rlc r d).firstShare :=
      hserved₁.full (Int.lt_of_lt_of_le (Int.lt_of_lt_of_le (hserved.spacePos hgain) hle) hleft)
    rw [show (offer rlc r d).firstShare = _ from if_pos hpbr] at hall
    have hdata₁ : d₁.bufferLen + d₁.schedLen = (offer rlc r d).bufferLen + 0 := hserved₁.data
    omega
  · rw [show d₁.secondShare = d₁.bufferLen from if_pos hccch] at hfull
    omega

theorem Configured.step : m.step.Configured := by
  refine h.of_maps _ (List.map_map ..) (List.map_map ..) fun ch hch => ?_
  obtain ⟨d, hd, rfl⟩ := List.mem_map.mp hch
  exact (h.proper d hd).stepBj

theorem Configured.reset : m.reset.Configured := by
  refine h.of_maps _ (List.map_map ..) (List.map_map ..) fun ch hch => ?_
  obtain ⟨d, hd, rfl⟩ := List.mem_map.mp hch
  exact ⟨fun _ => Int.le_refl 0, (h.proper d hd).bucket, (h.proper d hd).ccch⟩

end

theorem configured_insertionSort {channels : List LogicalChannel} (crnti : ℕ)
    (hnodup : (channels.map LogicalChannel.lcid).Nodup) (hproper : ∀ ch ∈ channels, ch.Proper) :
    Configured ⟨channels.insertionSort fun a b => a.priority ≤ b.priority, crnti⟩ := by
  have : Std.Total fun a b : LogicalChannel => a.priority ≤ b.priority :=
    ⟨fun a b => Nat.le_total a.priority b.priority⟩
  have : IsTrans LogicalChannel fun a b => a.priority ≤ b.priority := ⟨fun _ _ _ => Nat.le_trans⟩
  have hperm :=
    List.perm_insertionSort (fun a b : LogicalChannel => a.priority ≤ b.priority) channels
  exact ⟨List.pairwise_insertionSort _ channels, (hperm.map _).nodup_iff.mpr hnodup,
    fun ch hch => hproper ch (hperm.mem_iff.mp hch)⟩

section

variable (h : m.Configured) (hconfig : config.Proper)
include h hconfig

theorem Configured.replaced (hd : d ∈ m.logicalChannels) (hlcid : d.lcid = config.lcid) :
    ((m.logicalChannels.replaceF fun ch =>
        if ch.lcid = config.lcid then some config else none).map LogicalChannel.lcid).Nodup ∧
      ∀ ch ∈ m.logicalChannels.replaceF fun ch =>
        if ch.lcid = config.lcid then some config else none, ch.Proper := by
  let replace := fun ch : LogicalChannel => if ch.lcid = config.lcid then some config else none
  have hsome : replace d = some config := if_pos hlcid
  obtain ⟨a, a', l₁, l₂, -, ha, hsplit, hreplaced⟩ := List.exists_of_replaceF hd hsome
  obtain ⟨hlcid, rfl⟩ : a.lcid = config.lcid ∧ config = a' := by
    by_cases heq : a.lcid = config.lcid
    · exact ⟨heq, Option.some.inj ((if_pos heq).symm.trans ha)⟩
    · exact absurd ((if_neg heq).symm.trans ha) nofun
  have hnodup := h.nodup
  have hproper := h.proper
  rw [hsplit, List.map_append, List.map_cons, hlcid] at hnodup
  rw [hsplit] at hproper
  rw [hreplaced]
  refine ⟨by rwa [List.map_append, List.map_cons], fun ch hch => ?_⟩
  rcases List.mem_append.mp hch with hch | hch
  · exact hproper ch (List.mem_append_left _ hch)
  · rcases List.mem_cons.mp hch with rfl | hch
    · exact hconfig
    · exact hproper ch (List.mem_append_right _ (List.mem_cons_of_mem _ hch))

theorem Configured.appended (hnew : ∀ d ∈ m.logicalChannels, d.lcid ≠ config.lcid) :
    ((m.logicalChannels ++ [config]).map LogicalChannel.lcid).Nodup ∧
      ∀ ch ∈ m.logicalChannels ++ [config], ch.Proper := by
  constructor
  · rw [List.map_append]
    refine List.nodup_append.mpr ⟨h.nodup, List.nodup_singleton _, fun a ha b hb => ?_⟩
    obtain ⟨d, hd, rfl⟩ := List.mem_map.mp ha
    rw [List.mem_singleton.mp hb]
    exact hnew d hd
  · intro ch hch
    rcases List.mem_append.mp hch with hch | hch
    · exact h.proper ch hch
    · rw [List.mem_singleton.mp hch]
      exact hconfig

theorem Configured.setupLcid : (m.setupLcid config).Configured := by
  unfold Mux.setupLcid
  dsimp only
  by_cases hany : (m.logicalChannels.any fun ch => ch.lcid = config.lcid) = true
  · rw [if_pos hany]
    obtain ⟨d, hd, hlcid⟩ := List.any_eq_true.mp hany
    obtain ⟨hnodup, hproper⟩ := h.replaced hconfig hd (of_decide_eq_true hlcid)
    exact configured_insertionSort _ hnodup hproper
  · rw [if_neg hany]
    obtain ⟨hnodup, hproper⟩ := h.appended hconfig fun d hd heq =>
      hany (List.any_eq_true.mpr ⟨d, hd, decide_eq_true heq⟩)
    exact configured_insertionSort _ hnodup hproper

end

end Mux

namespace UlMac

open LogicalChannel

variable {ρ : Type*} {rlc : RlcMac ρ} {s : UlMac}

theorem proper_defaultChannel (lcid : Fin 2) : (defaultChannel lcid).Proper :=
  ⟨fun _ => Int.le_refl 0, fun _ => Nat.zero_lt_succ _, fun _ => Int.negSucc_lt_zero 0⟩

theorem configured_reset (h : s.mux.Configured) : s.reset.mux.Configured :=
  (h.reset.setupLcid (proper_defaultChannel 0)).setupLcid (proper_defaultChannel 1)

theorem configured_init : init.mux.Configured :=
  configured_reset ⟨List.Pairwise.nil, List.nodup_nil, List.forall_mem_nil _⟩

def Event.Proper : Event ρ → Prop
  | .setupLcid config => config.Proper
  | _ => True

theorem configured_step (h : s.mux.Configured) {e : Event ρ} (he : e.Proper) :
    (s.step rlc e).mux.Configured := by
  cases e with
  | runTti r => exact h.step
  | reset => exact configured_reset h
  | setupLcid config => exact h.setupLcid he
  | timerPeriodicExpired => exact h
  | timerRetxExpired => exact h
  | phrTriggered => exact h
  | appendCrntiCe crnti => exact ⟨h.sorted, h.nodup, h.proper⟩
  | pduGet r pduSz phrValue => exact h.schedule 0

theorem configured_run {events : List (Event ρ)} (h : ∀ e ∈ events, e.Proper) :
    (events.foldl (step rlc) init).mux.Configured :=
  List.foldlRecOn (motive := fun s => s.mux.Configured) events (step rlc) configured_init
    fun _ hs e he => configured_step hs (h e he)

end UlMac
end SrsLte
