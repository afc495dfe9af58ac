import Mathlib.Data.List.Induction
import Mathlib.Tactic.Tauto
import SrsLte.EnbRrcChanges
import SrsLte.EventRun

/-!
# Security before connection

A UE context opens what needs security when it becomes registered and when it configures SRB2 or a
data bearer. The handlers do not look at the state, so that the order of the key, the command and
its completion rests with the UE and the MME. The theorem says which runs keep it.
-/

namespace SrsLte

inductive Milestone
  | key
  | command
  | complete
  deriving DecidableEq

def RrcEntry.milestone : RrcEntry → Option Milestone
  | .securityKey => some .key
  | .securityModeCommand _ _ _ => some .command
  | .securityModeComplete => some .complete
  | _ => none

abbrev RrcTrace := List RrcEntry

namespace RrcTrace

def milestones (t : RrcTrace) : List Milestone := t.filterMap RrcEntry.milestone

def Commanded (t : RrcTrace) : Prop := [.key, .command].Sublist t.milestones

def Secured (t : RrcTrace) : Prop := [.key, .command, .complete].Sublist t.milestones

end RrcTrace

/-- The first algorithms of the preference lists that the UE supports, with integrity. -/
def RrcEnv.SelectedFrom (env : RrcEnv) (caps : UeSecurityCapabilities) (cipher : CipheringAlgorithm)
    (integ : IntegrityAlgorithm) : Prop :=
  env.eeaPreferenceList.find? caps.supportsEea = some cipher ∧
    env.eiaPreferenceList.find? caps.supportsEia = some integ ∧ integ ≠ .eia0

/-- An entry that is as it must be behind the entries of `t`. -/
def RrcEnv.Allowed (env : RrcEnv) (t : RrcTrace) : RrcEntry → Prop
  | .securityModeCommand caps cipher integ => env.SelectedFrom caps cipher integ
  | .registered => t.Secured
  | .bearer lcid => lcid ≠ 1 → t.Secured
  | _ => True

def RrcEnv.InOrder (env : RrcEnv) (t : RrcTrace) : Prop :=
  ∀ pre entry post, t = pre ++ entry :: post → env.Allowed pre entry

/-- What is opened is opened behind the security procedure, and what is registered or has a bearer
besides SRB1 has come to its end. -/
structure RrcEnv.SecurityOrdered (env : RrcEnv) (s : EnbRrcUe) : Prop where
  inOrder : env.InOrder s.trace
  registered : s.state = .registered → RrcTrace.Secured s.trace
  bearers : ∀ lcid e, s.pdcp.find? lcid = some e → lcid ≠ 1 → RrcTrace.Secured s.trace

def RrcEnv.Selects (env : RrcEnv) (caps : UeSecurityCapabilities) : Prop :=
  (∃ cipher ∈ env.eeaPreferenceList, caps.supportsEea cipher) ∧
    ∃ integ ∈ env.eiaPreferenceList, caps.supportsEia integ

namespace EnbRrcUe

variable {env : RrcEnv} {s : EnbRrcUe}

/-- An event comes where the procedure allows it. A message that PDCP stops may come at any time.
Bearers are configured for a QCI of the configuration only. -/
def Orderly (env : RrcEnv) (s : EnbRrcUe) : Event → Prop
  | .ulDcch srb2 isProtected msg =>
    s.pdcpPasses (if srb2 then 2 else 1) isProtected = true →
      match msg with
      | .rrcConnRecfgComplete => RrcTrace.Secured s.trace
      | .securityModeComplete =>
        (env.qciConfig (s.erabQci 5)).isSome → RrcTrace.Commanded s.trace
      | .ueCapInfo containers =>
        handleUeCapInfo env containers = true → (env.qciConfig (s.erabQci 5)).isSome →
          RrcTrace.Secured s.trace
      | _ => True
  | .setupUeCtxt msg => env.Selects msg.ueSecurityCapabilities
  | .modifyUeCtxt msg =>
    msg.unhandled = false → msg.securityKey.isSome →
      env.Selects (msg.ueSecurityCapabilities.getD s.securityCapabilities)
  | .setupUeErabs items =>
    (∀ item ∈ items, item.1.transportLayerAddress.length ≤ 32) →
      ∀ item ∈ items.head?, ((lastQci items item.1.erabId).bind env.qciConfig).isSome →
        RrcTrace.Secured s.trace
  | _ => True

end EnbRrcUe

theorem concat_sublist_concat_iff {α : Type*} {l t : List α} {a b : α} :
    (l ++ [a]).Sublist (t ++ [b]) ↔ (l ++ [a]).Sublist t ∨ a = b ∧ l.Sublist t := by
  constructor
  · intro h
    obtain ⟨l₁, l₂, hl, h₁, h₂⟩ := List.sublist_append_iff.mp h
    rcases List.eq_nil_or_concat l₂ with rfl | ⟨l₃, c, rfl⟩
    · rw [hl, List.append_nil]
      exact Or.inl h₁
    · rw [List.concat_eq_append, ← List.append_assoc] at hl
      obtain ⟨hl, hac⟩ := List.append_inj' hl rfl
      obtain rfl := List.singleton_injective hac
      have hlength := h₂.length_le
      rw [List.concat_eq_append, List.length_append, List.length_singleton,
        List.length_singleton] at hlength
      have hnil : l₃ = [] := List.length_eq_zero_iff.mp (by omega)
      subst hnil
      rw [List.append_nil] at hl
      exact Or.inr ⟨List.mem_singleton.mp (h₂.subset List.mem_cons_self),
        (List.append_cancel_right hl) ▸ h₁⟩
  · rintro (h | ⟨rfl, h⟩)
    · exact h.trans (List.sublist_append_left _ _)
    · exact h.append_right _

namespace RrcTrace

variable {t t' : RrcTrace} {entry : RrcEntry}

theorem milestones_concat : RrcTrace.milestones (t ++ [entry]) =
    t.milestones ++ entry.milestone.toList := by
  unfold milestones
  rw [List.filterMap_append]
  cases h : entry.milestone <;> simp [h]

theorem Secured.commanded (h : t.Secured) : t.Commanded :=
  (List.sublist_append_left [Milestone.key, .command] [.complete]).trans h

theorem Secured.append (h : t.Secured) : RrcTrace.Secured (t ++ t') := by
  unfold Secured milestones at h ⊢
  rw [List.filterMap_append]
  exact h.trans (List.sublist_append_left _ _)

theorem secured_concat (h : entry.milestone ≠ some .complete) :
    RrcTrace.Secured (t ++ [entry]) ↔ t.Secured := by
  unfold Secured
  rw [milestones_concat]
  cases hm : entry.milestone with
  | none => rw [Option.toList_none, List.append_nil]
  | some m =>
    have hne : Milestone.complete ≠ m := fun heq => h (hm.trans (congrArg some heq.symm))
    have hiff := concat_sublist_concat_iff (l := [Milestone.key, .command]) (t := t.milestones)
      (a := .complete) (b := m)
    exact hiff.trans (or_iff_left fun hboth => hne hboth.1)

theorem secured_complete :
    RrcTrace.Secured (t ++ [.securityModeComplete]) ↔ t.Commanded := by
  have hiff := concat_sublist_concat_iff (l := [Milestone.key, .command]) (t := t.milestones)
    (a := .complete) (b := .complete)
  have hcommanded : t.Secured ∨ t.Commanded ↔ t.Commanded := or_iff_right_of_imp Secured.commanded
  unfold Secured
  rw [milestones_concat]
  exact hiff.trans ((or_congr_right (and_iff_right rfl)).trans hcommanded)

end RrcTrace

namespace RrcEnv

variable {env : RrcEnv} {t : RrcTrace} {entry : RrcEntry}

theorem inOrder_concat : env.InOrder (t ++ [entry]) ↔ env.InOrder t ∧ env.Allowed t entry := by
  constructor
  · intro h
    refine ⟨fun pre x post heq => h pre x (post ++ [entry]) ?_, h t entry [] rfl⟩
    rw [heq, List.append_assoc, List.cons_append]
  · rintro ⟨h, hallowed⟩ pre x post heq
    rcases List.eq_nil_or_concat post with rfl | ⟨post, y, rfl⟩
    · obtain ⟨rfl, hx⟩ := List.append_inj' heq rfl
      rwa [← List.singleton_injective hx]
    · rw [List.concat_eq_append, ← List.cons_append, ← List.append_assoc] at heq
      exact h pre x post (List.append_inj' heq rfl).1

theorem inOrder_free (h : ∀ t, env.Allowed t entry) : env.InOrder (t ++ [entry]) ↔ env.InOrder t :=
  inOrder_concat.trans (and_iff_left (h t))

theorem find?_isSome_of_selected {α : Type*} {supports : α → Bool} {items : List α} {algo : α} :
    items.find? supports = some (selectAlgorithm supports items algo).1 ↔
      ∃ item ∈ items, supports item := by
  induction items with
  | nil => simp
  | cons item items ih =>
    unfold selectAlgorithm
    cases hsupports : supports item with
    | true => simp [hsupports]
    | false =>
      rw [if_neg Bool.false_ne_true, List.find?_cons_of_neg (by simp [hsupports]), ih]
      simp [hsupports]

theorem selectedFrom_iff {caps : UeSecurityCapabilities} {cipher : CipheringAlgorithm}
    {integ : IntegrityAlgorithm} :
    env.SelectedFrom caps (selectAlgorithm caps.supportsEea env.eeaPreferenceList cipher).1
        (selectAlgorithm caps.supportsEia env.eiaPreferenceList integ).1 ↔ env.Selects caps := by
  unfold SelectedFrom Selects
  rw [find?_isSome_of_selected, find?_isSome_of_selected]
  refine and_congr_right fun _ => and_iff_left_of_imp fun hfound heq => ?_
  have hsome : env.eiaPreferenceList.find? caps.supportsEia = some .eia0 := by
    rw [find?_isSome_of_selected.mpr hfound, heq]
  exact absurd (List.find?_some hsome) Bool.false_ne_true

end RrcEnv

namespace EnbRrcUe

variable {env : RrcEnv} {s : EnbRrcUe}

theorem inOrder_recfg {t : RrcTrace} {recfg : RrcConnRecfg} :
    env.InOrder (t ++ if env.packs recfg then [.rrcConnRecfg recfg] else []) ↔
      env.InOrder t := by
  split_ifs
  · exact RrcEnv.inOrder_free fun _ => trivial
  · rw [List.append_nil]

theorem inOrder_bearer {lcid : ℕ} (h : lcid ≠ 1) {t : RrcTrace} :
    env.InOrder (t ++ [.bearer lcid]) ↔ env.InOrder t ∧ t.Secured :=
  RrcEnv.inOrder_concat.trans (and_congr_right fun _ => forall_prop_of_true h)

theorem secured_bearer {lcid : ℕ} {t : RrcTrace} :
    RrcTrace.Secured (t ++ [.bearer lcid]) ↔ t.Secured :=
  RrcTrace.secured_concat (by simp [RrcEntry.milestone])

theorem inOrder_sendConnectionReconf :
    env.InOrder (s.sendConnectionReconf env).trace ↔
      env.InOrder s.trace ∧ ((env.qciConfig (s.erabQci 5)).isSome → RrcTrace.Secured s.trace) := by
  cases hqci : env.qciConfig (s.erabQci 5) with
  | none =>
    rw [sendConnectionReconf_of_none env s hqci]
    simp
  | some cfg =>
    rw [sendConnectionReconf_of_some env s hqci]
    rw [inOrder_recfg, inOrder_bearer (by decide), inOrder_bearer (by decide), secured_bearer]
    simp only [Option.isSome_some, forall_const]
    tauto

theorem inOrder_addNewBearers {ids : List ℕ} (hids : ∀ id ∈ ids, 5 ≤ id)
    (drbs : List DrbToAddMod) (nas : List Bytes) :
    env.InOrder (s.addNewBearers env drbs nas ids).1.trace ↔ env.InOrder s.trace ∧
      ∀ id ∈ ids.head?, (env.qciConfig (s.erabQci id)).isSome → RrcTrace.Secured s.trace := by
  induction ids generalizing s drbs nas with
  | nil => simp [addNewBearers]
  | cons id ids ih =>
    obtain ⟨hid, hids⟩ := List.forall_mem_cons.mp hids
    cases hqci : env.qciConfig (s.erabQci id) with
    | none =>
      rw [addNewBearers_cons_of_none env s hid hqci]
      simp [hqci]
    | some cfg =>
      rw [addNewBearers_cons_of_some env s hid hqci,
        ih hids]
      unfold withBearer
      dsimp only
      rw [inOrder_bearer (by omega), secured_bearer]
      simp only [List.head?_cons, Option.mem_some_iff, forall_eq', hqci, Option.isSome_some,
        forall_const]
      tauto

theorem inOrder_sendConnectionReconfNewBearer {ids : List ℕ} (hids : ∀ id ∈ ids, 5 ≤ id) :
    env.InOrder (s.sendConnectionReconfNewBearer env ids).trace ↔ env.InOrder s.trace ∧
      ∀ id ∈ ids.head?, (env.qciConfig (s.erabQci id)).isSome → RrcTrace.Secured s.trace := by
  rw [← inOrder_addNewBearers hids [] []]
  unfold sendConnectionReconfNewBearer
  rcases s.addNewBearers env [] [] ids with ⟨s', drbs, nas, _ | _⟩
  · exact Iff.rfl
  · dsimp only
    rw [sendRrcConnRecfg_eq]
    exact inOrder_recfg

theorem erabQci_setupErabList {items : List (ErabToBeSetup × Option Bytes)}
    (h : ∀ item ∈ items, item.1.transportLayerAddress.length ≤ 32) (id : ℕ) :
    (s.setupErabList items).1.erabQci id = (lastQci items id).getD (s.erabQci id) := by
  unfold erabQci lastQci
  rw [find?_setupErabList s h]
  cases (items.filter fun item => item.1.erabId = id).getLast? <;> rfl

theorem lastQci_isSome {ν : Type*} {items : List (ErabToBeSetup × ν)} {item : ErabToBeSetup × ν}
    (h : item ∈ items) : (lastQci items item.1.erabId).isSome := by
  unfold lastQci
  have hmem : item ∈ items.filter fun other => other.1.erabId = item.1.erabId :=
    List.mem_filter.mpr ⟨h, by simp⟩
  rw [Option.isSome_map, List.getLast?_eq_some_getLast (List.ne_nil_of_mem hmem)]
  rfl

theorem trace_setupErabList (items : List (ErabToBeSetup × Option Bytes)) :
    (s.setupErabList items).1.trace = s.trace := by
  obtain ⟨_, _, _, _, heq⟩ := s.setupErabList_frame items
  rw [heq]

theorem inOrder_setupErabsBearer {items : List (ErabToBeSetup × Bytes)} :
    env.InOrder (s.setupErabsBearer env items).trace ↔
      env.InOrder s.trace ∧ Orderly env s (.setupUeErabs items) := by
  have htrace := s.trace_setupErabList (bearerItems items)
  by_cases hshort : ∀ item ∈ items, item.1.transportLayerAddress.length ≤ 32
  · have hids : ∀ id ∈ items.map fun item => item.1.erabId, 5 ≤ id := by
      intro id hid
      obtain ⟨item, -, rfl⟩ := List.mem_map.mp hid
      exact item.1.valid.1
    have hbearer : ∀ item ∈ bearerItems items, item.1.transportLayerAddress.length ≤ 32 := by
      rw [bearerItems, List.forall_mem_map]
      exact hshort
    have hqci := erabQci_setupErabList (s := s) hbearer
    rw [setupErabsBearer_of_short env s hshort]
    dsimp only
    rw [inOrder_sendConnectionReconfNewBearer hids]
    unfold note Orderly
    dsimp only
    rw [RrcEnv.inOrder_concat, RrcTrace.secured_concat (by simp [RrcEntry.milestone]), htrace]
    simp only [RrcEnv.Allowed, and_true]
    refine and_congr_right fun _ => ?_
    rw [forall_prop_of_true hshort, List.head?_map]
    cases items with
    | nil => simp
    | cons item items =>
      have hsome := lastQci_isSome (List.mem_cons_self : item ∈ item :: items)
      obtain ⟨qci, hlast⟩ := Option.isSome_iff_exists.mp hsome
      have hq := hqci item.1.erabId
      rw [lastQci_bearerItems, hlast, Option.getD_some] at hq
      simp only [List.head?_cons, Option.map_some, Option.mem_some_iff, forall_eq', hlast,
        Option.bind_some]
      rw [← hq]
      rfl
  · rw [setupErabsBearer_of_long env s hshort, htrace]
    exact (and_iff_left fun h => absurd h hshort).symm

theorem setSecurityKey_eq (env : RrcEnv) (s : EnbRrcUe) (key : Bytes) :
    ∃ (kEnb : Bytes) (keys : SecurityConfig) (pdcp : PdcpBearers), s.setSecurityKey env key =
    { s with
      kEnb := kEnb
      security := { keys with
        cipherAlgo := (selectAlgorithm s.securityCapabilities.supportsEea env.eeaPreferenceList
          s.security.cipherAlgo).1
        integAlgo := (selectAlgorithm s.securityCapabilities.supportsEia env.eiaPreferenceList
          s.security.integAlgo).1 }
      pdcp := pdcp } :=
  ⟨key, (s.setSecurityKey env key).security, (s.setSecurityKey env key).pdcp, rfl⟩

theorem inOrder_sendSecurityModeCommand (key : Bytes) :
    env.InOrder (s.setSecurityKey env key).sendSecurityModeCommand.trace ↔
      env.InOrder s.trace ∧ env.Selects s.securityCapabilities := by
  obtain ⟨_, _, _, heq⟩ := setSecurityKey_eq env s key
  rw [heq]
  exact RrcEnv.inOrder_concat.trans (and_congr_right fun _ => RrcEnv.selectedFrom_iff)

theorem inOrder_setupUeCtxt (msg : InitialContextSetupRequest) :
    env.InOrder (s.setupUeCtxt env msg).trace ↔
      env.InOrder s.trace ∧ env.Selects msg.ueSecurityCapabilities := by
  obtain ⟨_, _, _, heq⟩ := setSecurityKey_eq env
    { s with securityCapabilities := msg.ueSecurityCapabilities } msg.securityKey
  unfold setupUeCtxt
  dsimp only
  rw [trace_setupErabList, heq]
  exact RrcEnv.inOrder_concat.trans (and_congr (RrcEnv.inOrder_free (by exact fun _ => trivial))
    RrcEnv.selectedFrom_iff)

theorem inOrder_modifyUeCtxt (msg : UeContextModificationRequest) :
    env.InOrder (s.modifyUeCtxt env msg).trace ↔
      env.InOrder s.trace ∧ Orderly env s (.modifyUeCtxt msg) := by
  obtain ⟨unhandled, caps, securityKey⟩ := msg
  unfold modifyUeCtxt Orderly
  cases unhandled with
  | true => simp
  | false =>
    cases securityKey with
    | none => simp
    | some key => simp [inOrder_sendSecurityModeCommand]

theorem inOrder_handleRrcConReq (sTmsi : Option (ℕ × ℕ)) (mmeConnected allocated : Bool) :
    env.InOrder (s.handleRrcConReq sTmsi mmeConnected allocated).trace ↔
      env.InOrder s.trace := by
  have hreject : env.InOrder (if mmeConnected then s else s.note .rrcConnReject).trace ↔
      env.InOrder s.trace := by
    cases mmeConnected with
    | true => exact Iff.rfl
    | false => exact RrcEnv.inOrder_free (by exact fun _ => trivial)
  rw [← hreject]
  unfold handleRrcConReq sendConnectionSetup
  cases allocated with
  | false => exact Iff.rfl
  | true =>
    refine (RrcEnv.inOrder_free (by exact fun _ => trivial)).trans (RrcEnv.inOrder_free fun t => ?_)
    exact fun hne => absurd rfl hne

theorem inOrder_parseUlDcch (srb2 isProtected : Bool) (msg : UlDcchMsg)
    (h : s.pdcpPasses (if srb2 then 2 else 1) isProtected = true) :
    env.InOrder (s.parseUlDcch env msg).trace ↔
      env.InOrder s.trace ∧ Orderly env s (.ulDcch srb2 isProtected msg) := by
  unfold Orderly
  dsimp only
  rw [forall_prop_of_true h]
  cases msg with
  | rrcConnSetupComplete nas =>
    exact (RrcEnv.inOrder_free (by exact fun _ => trivial)).trans (and_iff_left trivial).symm
  | ulInfoTransfer nas =>
    exact (RrcEnv.inOrder_free (by exact fun _ => trivial)).trans (and_iff_left trivial).symm
  | rrcConnRecfgComplete => exact RrcEnv.inOrder_concat
  | securityModeComplete =>
    -- the completion and the report of the E-RABs precede the bearers
    refine inOrder_sendConnectionReconf.trans (and_congr ?_ ?_)
    · exact (RrcEnv.inOrder_free (by exact fun _ => trivial)).trans
        (RrcEnv.inOrder_free (by exact fun _ => trivial))
    · refine forall_congr' fun _ => ?_
      exact (RrcTrace.secured_concat (by simp [RrcEntry.milestone])).trans RrcTrace.secured_complete
  | ueCapInfo containers =>
    unfold parseUlDcch
    dsimp only
    cases hunpacked : handleUeCapInfo env containers with
    | true =>
      rw [if_pos rfl, forall_prop_of_true rfl]
      exact inOrder_sendConnectionReconf
    | false =>
      rw [if_neg Bool.false_ne_true]
      exact (RrcEnv.inOrder_free (by exact fun _ => trivial)).trans
        (and_iff_left fun hfalse => absurd hfalse Bool.false_ne_true).symm
  | securityModeFail | measReport | other => exact (and_iff_left trivial).symm

theorem inOrder_step (e : Event) :
    env.InOrder (s.step env e).trace ↔ env.InOrder s.trace ∧ Orderly env s e := by
  cases e with
  | rrcConReq sTmsi mmeConnected allocated =>
    exact (inOrder_handleRrcConReq sTmsi mmeConnected allocated).trans (and_iff_left trivial).symm
  | ulDcch srb2 isProtected msg =>
    unfold step
    dsimp only
    by_cases h : s.pdcpPasses (if srb2 then 2 else 1) isProtected = true
    · rw [if_pos h]
      exact inOrder_parseUlDcch srb2 isProtected msg h
    · rw [if_neg h]
      exact (and_iff_left fun hpasses => absurd hpasses h).symm
  | setupUeCtxt msg => exact inOrder_setupUeCtxt msg
  | modifyUeCtxt msg => exact inOrder_modifyUeCtxt msg
  | setupUeErabs items => exact inOrder_setupErabsBearer
  | releaseErabs => exact (and_iff_left trivial).symm

structure Recorded (s : EnbRrcUe) : Prop where
  registered : s.state = .registered → .registered ∈ s.trace
  bearers : ∀ lcid, (s.pdcp.find? lcid).isSome → .bearer lcid ∈ s.trace

theorem Recorded.mono {s' : EnbRrcUe} (h : s.Recorded)
    (hstate : s'.state = .registered → s.state = .registered ∨ .registered ∈ s'.trace)
    (hpdcp : ∀ lcid, (s'.pdcp.find? lcid).isSome →
      (s.pdcp.find? lcid).isSome ∨ .bearer lcid ∈ s'.trace)
    (htrace : s.trace ⊆ s'.trace) : s'.Recorded where
  registered hreg := (hstate hreg).elim (fun hold => htrace (h.registered hold)) id
  bearers lcid hsome := (hpdcp lcid hsome).elim (fun hold => htrace (h.bearers lcid hold)) id

theorem Recorded.keep {s' : EnbRrcUe} (h : s.Recorded)
    (hstate : s'.state = s.state ∨ s'.state ≠ .registered) (hpdcp : s'.pdcp = s.pdcp)
    (htrace : s.trace ⊆ s'.trace) : s'.Recorded := by
  refine h.mono (fun hreg => ?_) (fun lcid hsome => Or.inl (hpdcp ▸ hsome)) htrace
  rcases hstate with heq | hne
  · exact Or.inl (heq ▸ hreg)
  · exact absurd hreg hne

theorem Recorded.changes {s' : EnbRrcUe} {ids : List ℕ} (h : s.Recorded) (hc : Changes s ids s') :
    s'.Recorded := by
  induction hc with
  | refl s => exact h
  | trans _ _ ih ih' => exact ih' (ih h)
  | fields hstate hpdcp _ _ htrace => exact h.keep hstate hpdcp (htrace ▸ List.Subset.refl _)
  | note s entry _ => exact h.keep (Or.inl rfl) rfl (List.subset_append_left _ _)
  | register s =>
    exact h.mono (fun _ => Or.inr (List.mem_append_right _ List.mem_cons_self))
      (fun _ => Or.inl) (List.subset_append_left _ _)
  | addBearer s lcid cfg _ =>
    refine h.mono Or.inl (fun k hsome => ?_) (List.subset_append_left _ _)
    by_cases hk : k = lcid
    · exact Or.inr (hk ▸ List.mem_append_right _ List.mem_cons_self)
    · have hfind : (s.pdcpAddBearer lcid cfg).pdcp.find? k = s.pdcp.find? k :=
        (OrderedMap.find?_emplace _ _ _ _).trans (if_neg hk)
      exact Or.inl (hfind ▸ hsome)
  | change s _ _ =>
    refine h.mono Or.inl (fun k hsome => Or.inl ?_) (List.Subset.refl _)
    rw [PdcpBearers.find?_change, Option.isSome_map] at hsome
    exact hsome
  | emptyErab s _ => exact h.keep (Or.inl rfl) rfl (List.Subset.refl _)
  | setupErab s _ =>
    rw [setupErab_eq]
    exact h.keep (Or.inl rfl) rfl (List.Subset.refl _)
  | releaseErabs s => exact h.keep (Or.inl rfl) rfl (List.Subset.refl _)

theorem inOrder_run (events : List Event) (hs : env.InOrder s.trace) :
    env.InOrder (events.foldl (step env) s).trace ↔
      EventRun.Along (step env) (Orderly env) s events := by
  induction events using List.reverseRecOn with
  | nil => exact iff_of_true hs trivial
  | append_singleton events e ih =>
    rw [List.foldl_append, EventRun.along_append, ← ih]
    exact (inOrder_step e).trans (and_congr_right fun _ => (and_iff_left trivial).symm)

theorem recorded_run (h : s.Recorded) (events : List Event) :
    (events.foldl (EnbRrcUe.step env) s).Recorded := by
  induction events generalizing s with
  | nil => exact h
  | cons e events ih => exact ih (h.changes (changes_step e))

theorem Recorded.securityOrdered (h : s.Recorded) (hs : env.InOrder s.trace) :
    env.SecurityOrdered s where
  inOrder := hs
  registered hreg := by
    obtain ⟨pre, post, heq⟩ := List.append_of_mem (h.registered hreg)
    rw [heq]
    exact RrcTrace.Secured.append (hs pre .registered post heq)
  bearers lcid e hfind hne := by
    obtain ⟨pre, post, heq⟩ := List.append_of_mem (h.bearers lcid (hfind ▸ rfl))
    rw [heq]
    exact RrcTrace.Secured.append (hs pre (.bearer lcid) post heq hne)

/-- A run keeps the order of the security procedure exactly when every event of it comes where the
procedure allows it. -/
theorem securityOrdered_iff_orderly (env : RrcEnv) (rnti : ℕ) (caps : UeSecurityCapabilities)
    (keys : SecurityConfig) (events : List Event) :
    env.SecurityOrdered (events.foldl (EnbRrcUe.step env) (init rnti caps keys)) ↔
      EventRun.Along (EnbRrcUe.step env) (Orderly env) (init rnti caps keys) events := by
  have hinit : (init rnti caps keys).Recorded :=
    { registered := fun h => nomatch h
      bearers := fun _ h => absurd h (by simp [init]) }
  have hnil : env.InOrder (init rnti caps keys).trace := by
    intro pre entry post heq
    exact absurd heq (by simp [init])
  rw [← inOrder_run events hnil]
  exact ⟨RrcEnv.SecurityOrdered.inOrder, (recorded_run hinit events).securityOrdered⟩

def sampleRrcEnv : RrcEnv where
  qciCfg qci := if qci.val = 9 then some ⟨0, false, ⟨.lte, .am⟩, am_supported⟩ else none
  eeaPreferenceList := [.eea2, .eea1]
  eiaPreferenceList := [.eia2, .eia1]
  generateKRrc key _ _ := (key, key)
  generateKUp key _ _ := (key, key)
  packs _ := true
  unpacksEutraCap _ := true

/-- A UE is registered by its first message behind the connection setup, and a UE without a common
algorithm is commanded to use EIA0. -/
theorem registered_without_security :
    let start := init 0x46 ⟨[], []⟩ ⟨[], [], [], .eea0, .eia0⟩
    ¬ sampleRrcEnv.SecurityOrdered ([.rrcConReq none true true,
        .ulDcch false false .rrcConnRecfgComplete].foldl (step sampleRrcEnv) start) ∧
      ¬ sampleRrcEnv.SecurityOrdered ([.rrcConReq none true true,
        .setupUeCtxt ⟨⟨[false, false, true], [false, false, true]⟩, [], []⟩].foldl
          (step sampleRrcEnv) start) := by
  refine ⟨fun h => ?_, fun h => ?_⟩
  · have hsecured := h.registered rfl
    unfold RrcTrace.Secured at hsecured
    revert hsecured
    decide
  · have hallowed := h.inOrder [.bearer 1, .rrcConnSetup, .securityKey]
      (.securityModeCommand ⟨[false, false, true], [false, false, true]⟩ .eea0 .eia0) [] rfl
    exact hallowed.2.2 rfl

end EnbRrcUe
end SrsLte
