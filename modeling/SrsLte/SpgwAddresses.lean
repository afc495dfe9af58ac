import SrsLte.Spgw

/-!
# Addresses of the UEs

An address of the pool is assigned once: no message puts it back. While no session with such an
address ends, every address is in the pool or held by one session.
-/

namespace SrsLte.Spgw

open EventRun

variable {s s' s₀ : Spgw} {teid imsi t t' a : ℕ} {x : SpgwSession} {ctx : SpgwTunnelCtx}

/-- Each IMSI has one static address, each static address one IMSI, and none is in the pool. -/
structure Configured (s : Spgw) : Prop where
  static_inj : ∀ i j a, s.imsiToIp.find? i = some a → s.imsiToIp.find? j = some a → i = j
  not_pool : ∀ i a, s.imsiToIp.find? i = some a → s.ueIpAddrPool.find? a = none

theorem find?_loadImsiToIp_aux {es : List (ℕ × ℕ)} {m m' : OrderedMap ℕ ℕ}
    (h : es.foldlM (fun imsiToIp e =>
      if (imsiToIp.find? e.2).isSome then none else some (imsiToIp.insert e.2 e.1)) m = some m')
    (i a : ℕ) : m'.find? i = some a ↔ m.find? i = some a ∨ (a, i) ∈ es := by
  induction es generalizing m with
  | nil =>
    cases h
    simp
  | cons e es ih =>
    rw [List.foldlM_cons] at h
    cases hfound : m.find? e.2 with
    | some b =>
      rw [hfound] at h
      cases h
    | none =>
      rw [hfound] at h
      rw [ih h, OrderedMap.find?_insert, List.mem_cons, ← or_assoc]
      refine or_congr_left ?_
      split_ifs with hi
      · subst hi
        rw [hfound]
        constructor
        · intro heq
          exact Or.inr (by rw [← Option.some.inj heq])
        · rintro (hfalse | heq)
          · cases hfalse
          · rw [← heq]
      · constructor
        · exact Or.inl
        · rintro (hsome | heq)
          · exact hsome
          · exact absurd (by rw [← heq]) hi

theorem find?_loadImsiToIp {ipToImsi m : OrderedMap ℕ ℕ} (h : loadImsiToIp ipToImsi = some m)
    (i a : ℕ) : m.find? i = some a ↔ ipToImsi.find? a = some i := by
  rw [find?_loadImsiToIp_aux h, OrderedMap.find?_empty, OrderedMap.find?_eq_some_iff]
  simp

theorem find?_loadPool {sgiIfAddr : ℕ} {ipToImsi : OrderedMap ℕ ℕ}
    (h : (ipToImsi.find? a).isSome) : (loadPool sgiIfAddr ipToImsi).find? a = none := by
  unfold loadPool
  suffices hfold : ∀ (ns : List ℕ) (pool : OrderedMap ℕ Unit), pool.find? a = none →
      (ns.foldl (fun pool n =>
        if (ipToImsi.find? (ueAddr sgiIfAddr n)).isSome then pool
        else pool.insert (ueAddr sgiIfAddr n) ()) pool).find? a = none from
    hfold _ _ (OrderedMap.find?_empty a)
  intro ns
  induction ns with
  | nil => exact fun _ hpool => hpool
  | cons n ns ih =>
    intro pool hpool
    refine ih _ ?_
    beta_reduce
    split_ifs with hn
    · exact hpool
    · rw [OrderedMap.find?_insert, if_neg, hpool]
      intro heq
      rw [heq] at h
      exact hn h

section Init

variable {args : SpgwArgs} {ipToImsi : OrderedMap ℕ ℕ}

theorem configured_init (h : init args ipToImsi = some s) : Configured s := by
  unfold init at h
  split_ifs at h
  obtain ⟨m, hm, rfl⟩ := Option.map_eq_some_iff.mp h
  have hfind := find?_loadImsiToIp hm
  constructor
  · intro i j a hi hj
    have hi := (hfind i a).mp hi
    have hj := (hfind j a).mp hj
    exact Option.some.inj (hi.symm.trans hj)
  · intro i a hi
    have hi := (hfind i a).mp hi
    have hsome : (ipToImsi.find? a).isSome := Option.isSome_iff_exists.mpr ⟨i, hi⟩
    unfold started
    dsimp only
    exact find?_loadPool hsome

theorem session_init (h : init args ipToImsi = some s) (t : ℕ) : s.session t = none := by
  unfold init at h
  split_ifs at h
  obtain ⟨m, -, rfl⟩ := Option.map_eq_some_iff.mp h
  rfl

theorem registered_init (h : init args ipToImsi = some s) : Registered s := by
  have hnone := session_init h
  have himsi : ∀ i, s.imsiToCtrTeid.find? i = none := by
    unfold init at h
    split_ifs at h
    obtain ⟨m, -, rfl⟩ := Option.map_eq_some_iff.mp h
    exact OrderedMap.find?_empty
  constructor
  · intro i t
    rw [himsi, hnone]
    simp
  · intro t x hx
    rw [hnone] at hx
    cases hx

end Init

def Holds (s : Spgw) (teid a : ℕ) : Prop :=
  ∃ ctx, s.teidToTunnelCtx.find? teid = some ctx ∧ ctx.ueIpv4 = a

/-- An address of the pool of `s₀` is free or held by one session. -/
structure AddressesSound (s₀ s : Spgw) : Prop where
  distinct : ∀ t t' a, s.Holds t a → s.Holds t' a → t = t'
  not_both : ∀ t a, s.Holds t a → s.ueIpAddrPool.find? a = none
  conserved : ∀ a, s₀.ueIpAddrPool.find? a = some () →
    s.ueIpAddrPool.find? a = some () ∨ ∃ t, s.Holds t a
  nonzero : ∀ t, ¬ s.Holds t 0

structure SameMaps (s s' : Spgw) : Prop where
  imsiToCtrTeid : s'.imsiToCtrTeid = s.imsiToCtrTeid
  teidToTunnelCtx : s'.teidToTunnelCtx = s.teidToTunnelCtx
  ueIpAddrPool : s'.ueIpAddrPool = s.ueIpAddrPool
  imsiToIp : s'.imsiToIp = s.imsiToIp
  ipToUsrTeid : s'.ipToUsrTeid = s.ipToUsrTeid
  ipToCtrTeid : s'.ipToCtrTeid = s.ipToCtrTeid

/-- A deleted session gives its dynamic address back; without a free address nothing is created. -/
def RequestSound (s : Spgw) (e : SpgwEvent) : Prop :=
  match e with
  | .s11 _ (.deleteSessionRequest teid _) =>
    ∀ ctx, s.teidToTunnelCtx.find? teid = some ctx → s.imsiToIp.find? ctx.imsi = none →
      (s.step e).ueIpAddrPool.find? ctx.ueIpv4 = some ()
  | .s11 _ (.createSessionRequest imsi _) =>
    s.imsiToIp.find? imsi = none → s.imsiToCtrTeid.find? imsi = none →
      s.ueIpAddrPool.entries = [] → SameMaps s (s.step e)
  | _ => True

def AddressStep (s₀ s : Spgw) (e : SpgwEvent) : Prop :=
  s.RequestSound e ∧ AddressesSound s₀ (s.step e)

/-- No session with an address of the pool ends, and one begins only with an address other than
`0.0.0.0` to be had. -/
def KeepsAddress (s : Spgw) : SpgwEvent → Prop
  | .s11 _ (.createSessionRequest imsi _) =>
    match s.imsiToIp.find? imsi with
    | some ip => ip ≠ 0
    | none => s.imsiToCtrTeid.find? imsi = none ∧ ∃ e ∈ s.ueIpAddrPool.entries.head?, e.1 ≠ 0
  | .s11 _ (.deleteSessionRequest teid _) =>
    ∀ ctx, s.teidToTunnelCtx.find? teid = some ctx → s.imsiToIp.find? ctx.imsi ≠ none
  | _ => True

section Create

variable {uninit : Bool} {senderFteid : GtpFteid}

theorem keepsAddress_static (h : s.imsiToIp.find? imsi = some a) :
    s.KeepsAddress (.s11 uninit (.createSessionRequest imsi senderFteid)) ↔ a ≠ 0 := by
  simp only [KeepsAddress, h]

theorem keepsAddress_dynamic (h : s.imsiToIp.find? imsi = none) :
    s.KeepsAddress (.s11 uninit (.createSessionRequest imsi senderFteid)) ↔
      s.imsiToCtrTeid.find? imsi = none ∧ ∃ e ∈ s.ueIpAddrPool.entries.head?, e.1 ≠ 0 := by
  simp only [KeepsAddress, h]

end Create

theorem holds_iff : s.Holds t a ↔ ∃ x, s.session t = some x ∧ x.ueIpv4 = a := by
  constructor
  · rintro ⟨ctx, hctx, rfl⟩
    exact ⟨ctx.session, session_of_find hctx, rfl⟩
  · rintro ⟨x, hx, rfl⟩
    obtain ⟨ctx, hctx, rfl⟩ := session_eq_some hx
    exact ⟨ctx, hctx, rfl⟩

theorem newUeIpv4_static (h : s.imsiToIp.find? imsi = some a) : s.newUeIpv4 imsi = a := by
  unfold newUeIpv4
  rw [h]

theorem newUeIpv4_dynamic (h : s.imsiToIp.find? imsi = none)
    (hhead : s.ueIpAddrPool.entries.head? = some (a, ())) : s.newUeIpv4 imsi = a := by
  unfold newUeIpv4
  rw [h, hhead]
  rfl

theorem newUeIpv4_exhausted (h : s.imsiToIp.find? imsi = none)
    (hempty : s.ueIpAddrPool.entries = []) : s.newUeIpv4 imsi = 0 := by
  unfold newUeIpv4
  rw [h, hempty]
  rfl

theorem find?_poolAfter (hstatic : ∀ a, s.imsiToIp.find? imsi = some a →
    s.ueIpAddrPool.find? a = none) (b : ℕ) : (s.poolAfter imsi).find? b =
      if b = s.newUeIpv4 imsi then none else s.ueIpAddrPool.find? b := by
  unfold poolAfter
  cases h : s.imsiToIp.find? imsi with
  | none => exact OrderedMap.find?_erase _ _ _
  | some a =>
    rw [newUeIpv4_static h]
    split_ifs with hb
    · rw [hb]
      exact hstatic a h
    · rfl

/-- Static addresses are held as they are configured, all others come from the pool. -/
structure Allocated (s₀ s : Spgw) : Prop where
  registered : Registered s
  imsiToIp : s.imsiToIp = s₀.imsiToIp
  pool : ∀ a, s.ueIpAddrPool.find? a = some () → s₀.ueIpAddrPool.find? a = some ()
  static : ∀ t x a, s.session t = some x → s.imsiToIp.find? x.imsi = some a → x.ueIpv4 = a
  dynamic : ∀ t x, s.session t = some x → s.imsiToIp.find? x.imsi = none →
    s₀.ueIpAddrPool.find? x.ueIpv4 = some ()
  sound : AddressesSound s₀ s

theorem AddressesSound.of_same (h : AddressesSound s₀ s) (hsame : SameSessions s s') :
    AddressesSound s₀ s' := by
  have hholds : ∀ t a, s'.Holds t a ↔ s.Holds t a := by
    intro t a
    rw [holds_iff, holds_iff, hsame.session]
  constructor
  · simpa only [hholds] using h.distinct
  · simpa only [hholds, hsame.ueIpAddrPool] using h.not_both
  · simpa only [hholds, hsame.ueIpAddrPool] using h.conserved
  · simpa only [hholds] using h.nonzero

theorem Allocated.of_same (h : Allocated s₀ s) (hsame : SameSessions s s') : Allocated s₀ s' where
  registered := h.registered.of_same hsame
  imsiToIp := hsame.imsiToIp.trans h.imsiToIp
  pool := by
    rw [hsame.ueIpAddrPool]
    exact h.pool
  static := by
    rw [hsame.session, hsame.imsiToIp]
    exact h.static
  dynamic := by
    rw [hsame.session, hsame.imsiToIp]
    exact h.dynamic
  sound := h.sound.of_same hsame

variable {uninit : Bool} {senderFteid : GtpFteid}

theorem Registered.holds_create (h : Registered s) (hnew : s.NewTeid imsi) :
    (s.handleCreateSessionRequest imsi senderFteid uninit).1.Holds t a ↔
      (t = s.newCtrlTeid ∧ s.newUeIpv4 imsi = a) ∨
        t ≠ s.newCtrlTeid ∧ ∃ x, s.session t = some x ∧ x.imsi ≠ imsi ∧ x.ueIpv4 = a := by
  rw [holds_iff, h.session_create hnew]
  split_ifs with ht
  · constructor
    · rintro ⟨x, hx, rfl⟩
      rw [← Option.some.inj hx]
      exact Or.inl ⟨ht, rfl⟩
    · rintro (⟨-, heq⟩ | ⟨hne, -⟩)
      · exact ⟨_, rfl, heq⟩
      · exact absurd ht hne
  · constructor
    · rintro ⟨x, hx, heq⟩
      obtain ⟨hx, hne⟩ := Option.filter_eq_some_iff.mp hx
      exact Or.inr ⟨ht, x, hx, of_decide_eq_true hne, heq⟩
    · rintro (⟨heq, -⟩ | ⟨-, x, hx, hne, heq⟩)
      · exact absurd heq ht
      · exact ⟨x, Option.filter_eq_some_iff.mpr ⟨hx, decide_eq_true hne⟩, heq⟩

section Steps

variable (hconf : Configured s₀) (h : Allocated s₀ s)

include hconf h

theorem Allocated.static_not_pool (hi : s.imsiToIp.find? imsi = some a) :
    s₀.ueIpAddrPool.find? a = none := by
  rw [h.imsiToIp] at hi
  exact hconf.not_pool imsi a hi

theorem Allocated.static_not_free (hi : s.imsiToIp.find? imsi = some a) :
    s.ueIpAddrPool.find? a = none := by
  have hnone := h.static_not_pool hconf hi
  cases hfree : s.ueIpAddrPool.find? a with
  | none => rfl
  | some u =>
    rw [h.pool a hfree] at hnone
    cases hnone

theorem Allocated.new_address
    (hkeep : s.KeepsAddress (.s11 uninit (.createSessionRequest imsi senderFteid))) :
    s.newUeIpv4 imsi ≠ 0 ∧
    (∀ t x, s.session t = some x → x.imsi ≠ imsi → x.ueIpv4 ≠ s.newUeIpv4 imsi) ∧
    (∀ t x, s.session t = some x → x.imsi = imsi → x.ueIpv4 = s.newUeIpv4 imsi) ∧
    (s.imsiToIp.find? imsi = none → s₀.ueIpAddrPool.find? (s.newUeIpv4 imsi) = some ()) := by
  cases hip : s.imsiToIp.find? imsi with
  | some ip =>
    rw [keepsAddress_static hip] at hkeep
    rw [newUeIpv4_static hip]
    refine ⟨hkeep, ?_, ?_, fun hnone => by cases hnone⟩
    · intro t x hx hne heq
      cases hxi : s.imsiToIp.find? x.imsi with
      | none =>
        have hpool := h.dynamic t x hx hxi
        rw [heq, h.static_not_pool hconf hip] at hpool
        cases hpool
      | some b =>
        have hb := h.static t x b hx hxi
        rw [← hb, heq, h.imsiToIp] at hxi
        rw [h.imsiToIp] at hip
        exact hne (hconf.static_inj _ _ _ hxi hip)
    · intro t x hx himsi
      rw [← himsi] at hip
      exact h.static t x ip hx hip
  | none =>
    rw [keepsAddress_dynamic hip] at hkeep
    obtain ⟨hnone, ⟨a, u⟩, hhead, hzero⟩ := hkeep
    have hfree : s.ueIpAddrPool.find? a = some () :=
      OrderedMap.find?_eq_some_iff.mpr (List.mem_of_mem_head? hhead)
    rw [newUeIpv4_dynamic hip hhead]
    refine ⟨hzero, ?_, ?_, fun _ => h.pool a hfree⟩
    · intro t x hx _ heq
      have hheld := h.sound.not_both t a (holds_iff.mpr ⟨x, hx, heq⟩)
      rw [hfree] at hheld
      cases hheld
    · intro t x hx himsi
      have hfound := (h.registered.inverse imsi t).mpr ⟨x, hx, himsi⟩
      rw [hnone] at hfound
      cases hfound

theorem Allocated.find?_pool_create (b : ℕ) :
    (s.handleCreateSessionRequest imsi senderFteid uninit).1.ueIpAddrPool.find? b =
      if b = s.newUeIpv4 imsi then none else s.ueIpAddrPool.find? b := by
  change ((s.withoutSession imsi).poolAfter imsi).find? b = _
  rw [poolAfter_withoutSession]
  exact find?_poolAfter (fun a hi => h.static_not_free hconf hi) b

theorem Allocated.create (hnew : s.NewTeid imsi)
    (hkeep : s.KeepsAddress (.s11 uninit (.createSessionRequest imsi senderFteid))) :
    Allocated s₀ (s.handleCreateSessionRequest imsi senderFteid uninit).1 := by
  obtain ⟨hzero, hothers, hown, hpool⟩ := h.new_address hconf hkeep
  have hip : (s.handleCreateSessionRequest imsi senderFteid uninit).1.imsiToIp = s.imsiToIp :=
    (sameAllocator_withoutSession s imsi).imsiToIp
  have hteid : ∀ t x, s.session t = some x → x.imsi ≠ imsi → t ≠ s.newCtrlTeid := by
    rintro t x hx hne rfl
    obtain ⟨ctx, hctx, rfl⟩ := session_eq_some hx
    exact hne (hnew ctx hctx)
  constructor
  · exact h.registered.create hnew
  · exact hip.trans h.imsiToIp
  · intro b hb
    rw [h.find?_pool_create hconf] at hb
    split_ifs at hb
    exact h.pool b hb
  · intro t x b hx hb
    rw [h.registered.session_create hnew] at hx
    rw [hip] at hb
    split_ifs at hx
    · rw [← Option.some.inj hx] at hb ⊢
      exact newUeIpv4_static hb
    · exact h.static t x b (Option.filter_eq_some_iff.mp hx).1 hb
  · intro t x hx hi
    rw [h.registered.session_create hnew] at hx
    rw [hip] at hi
    split_ifs at hx
    · rw [← Option.some.inj hx] at hi ⊢
      exact hpool hi
    · exact h.dynamic t x (Option.filter_eq_some_iff.mp hx).1 hi
  · constructor
    · intro t t' b ht ht'
      rcases (h.registered.holds_create hnew).mp ht with ⟨rfl, rfl⟩ | ⟨-, x, hx, hne, hxb⟩ <;>
        rcases (h.registered.holds_create hnew).mp ht' with ⟨rfl, hb⟩ | ⟨-, y, hy, hney, hyb⟩
      · rfl
      · exact absurd hyb (hothers t' y hy hney)
      · exact absurd (hxb.trans hb.symm) (hothers t x hx hne)
      · exact h.sound.distinct t t' b (holds_iff.mpr ⟨x, hx, hxb⟩) (holds_iff.mpr ⟨y, hy, hyb⟩)
    · intro t b ht
      rw [h.find?_pool_create hconf]
      rcases (h.registered.holds_create hnew).mp ht with ⟨-, rfl⟩ | ⟨-, x, hx, -, hxb⟩
      · exact if_pos rfl
      · split_ifs
        · rfl
        · exact h.sound.not_both t b (holds_iff.mpr ⟨x, hx, hxb⟩)
    · intro b hb
      by_cases hnb : b = s.newUeIpv4 imsi
      · exact Or.inr ⟨s.newCtrlTeid, (h.registered.holds_create hnew).mpr (Or.inl ⟨rfl, hnb.symm⟩)⟩
      · rw [h.find?_pool_create hconf, if_neg hnb]
        refine (h.sound.conserved b hb).imp_right ?_
        rintro ⟨t, ht⟩
        obtain ⟨x, hx, rfl⟩ := holds_iff.mp ht
        have hne : x.imsi ≠ imsi := fun himsi => hnb (hown t x hx himsi)
        exact ⟨t, (h.registered.holds_create hnew).mpr (Or.inr ⟨hteid t x hx hne, x, hx, hne, rfl⟩)⟩
    · intro t ht
      rcases (h.registered.holds_create hnew).mp ht with ⟨-, hz⟩ | ⟨-, x, hx, -, hxz⟩
      · exact hzero hz
      · exact h.sound.nonzero t (holds_iff.mpr ⟨x, hx, hxz⟩)

theorem Allocated.delete (hctx : s.teidToTunnelCtx.find? teid = some ctx)
    (hstatic : s.imsiToIp.find? ctx.imsi ≠ none) :
    Allocated s₀ (s.handleDeleteSessionRequest teid) := by
  have hsession : ∀ u x, (s.handleDeleteSessionRequest teid).session u = some x →
      u ≠ teid ∧ s.session u = some x := by
    intro u x hx
    rw [session_handleDeleteSessionRequest] at hx
    split_ifs at hx with hu
    exact ⟨hu, hx⟩
  have hholds : ∀ u b, (s.handleDeleteSessionRequest teid).Holds u b → s.Holds u b := by
    intro u b hu
    obtain ⟨x, hx, hb⟩ := holds_iff.mp hu
    exact holds_iff.mpr ⟨x, (hsession u x hx).2, hb⟩
  have halloc :
      SameAllocator (s.deleteGtpuTunnel ctx.ueIpv4) (s.handleDeleteSessionRequest teid) := by
    rw [handleDeleteSessionRequest_some hctx]
    exact sameAllocator_deleteGtpcCtx _ teid
  have hpool : (s.handleDeleteSessionRequest teid).ueIpAddrPool = s.ueIpAddrPool :=
    halloc.ueIpAddrPool
  have hip : (s.handleDeleteSessionRequest teid).imsiToIp = s.imsiToIp := halloc.imsiToIp
  constructor
  · rw [handleDeleteSessionRequest_some hctx]
    exact (h.registered.of_same (sameSessions_deleteGtpuTunnel s _)).delete teid
  · exact hip.trans h.imsiToIp
  · rw [hpool]
    exact h.pool
  · intro t x b hx hb
    rw [hip] at hb
    exact h.static t x b (hsession t x hx).2 hb
  · intro t x hx hi
    rw [hip] at hi
    exact h.dynamic t x (hsession t x hx).2 hi
  · constructor
    · exact fun t t' b ht ht' => h.sound.distinct t t' b (hholds t b ht) (hholds t' b ht')
    · intro t b ht
      rw [hpool]
      exact h.sound.not_both t b (hholds t b ht)
    · intro b hb
      rw [hpool]
      refine (h.sound.conserved b hb).imp_right ?_
      rintro ⟨t, ht⟩
      obtain ⟨x, hx, rfl⟩ := holds_iff.mp ht
      refine ⟨t, holds_iff.mpr ⟨x, ?_, rfl⟩⟩
      rw [session_handleDeleteSessionRequest, if_neg]
      · exact hx
      · rintro rfl
        have hxctx := Option.some.inj (hx.symm.trans (session_of_find hctx))
        obtain ⟨a, ha⟩ := Option.ne_none_iff_exists'.mp hstatic
        have hheld : x.ueIpv4 = a := h.static _ x a hx (by rwa [hxctx])
        rw [hheld, h.static_not_pool hconf ha] at hb
        cases hb
    · exact fun t ht => h.sound.nonzero t (hholds t 0 ht)

theorem Allocated.step {e : SpgwEvent} (hfree : s.TeidFree e) (hkeep : s.KeepsAddress e) :
    Allocated s₀ (s.step e) := by
  rcases s.step_cases e with
    ⟨uninit, imsi, senderFteid, rfl, heq⟩ | ⟨uninit, teid, cause, rfl, heq⟩ | hsame
  · rw [heq]
    exact h.create hconf hfree hkeep
  · rw [heq]
    cases hctx : s.teidToTunnelCtx.find? teid with
    | none => rwa [handleDeleteSessionRequest_none hctx]
    | some ctx => exact h.delete hconf hctx (hkeep ctx hctx)
  · exact h.of_same hsame

end Steps

theorem AddressesSound.lost_delete (h : AddressesSound s₀ s) {uninit : Bool} {cause : GtpcCause}
    (hctx : s.teidToTunnelCtx.find? teid = some ctx) (hdynamic : s.imsiToIp.find? ctx.imsi = none) :
    ¬ s.RequestSound (.s11 uninit (.deleteSessionRequest teid cause)) := by
  intro hsound
  have hback := hsound ctx hctx hdynamic
  have halloc :
      SameAllocator (s.deleteGtpuTunnel ctx.ueIpv4) (s.handleDeleteSessionRequest teid) := by
    rw [handleDeleteSessionRequest_some hctx]
    exact sameAllocator_deleteGtpcCtx _ teid
  change (s.handleDeleteSessionRequest teid).ueIpAddrPool.find? ctx.ueIpv4 = some () at hback
  rw [halloc.ueIpAddrPool] at hback
  change s.ueIpAddrPool.find? ctx.ueIpv4 = some () at hback
  rw [h.not_both teid ctx.ueIpv4 ⟨ctx, hctx, rfl⟩] at hback
  cases hback

section Lost

variable (hconf : Configured s₀) (h : Allocated s₀ s)

include h

theorem Allocated.lost_zero {uninit : Bool} {senderFteid : GtpFteid} (hnew : s.NewTeid imsi)
    (hzero : s.newUeIpv4 imsi = 0) :
    ¬ AddressesSound s₀ (s.handleCreateSessionRequest imsi senderFteid uninit).1 := fun hsound =>
  hsound.nonzero s.newCtrlTeid ((h.registered.holds_create hnew).mpr (Or.inl ⟨rfl, hzero⟩))

include hconf

theorem Allocated.lost_recreate {uninit : Bool} {senderFteid : GtpFteid} (hnew : s.NewTeid imsi)
    (hdynamic : s.imsiToIp.find? imsi = none) (hteid : s.imsiToCtrTeid.find? imsi = some teid) :
    ¬ AddressesSound s₀ (s.handleCreateSessionRequest imsi senderFteid uninit).1 := by
  intro hsound
  obtain ⟨x, hx, himsi⟩ := (h.registered.inverse imsi teid).mp hteid
  have hheld := holds_iff.mpr ⟨x, hx, rfl⟩
  have hused := h.sound.not_both teid x.ueIpv4 hheld
  have hpool := h.dynamic teid x hx (by rwa [himsi])
  rcases hsound.conserved x.ueIpv4 hpool with hfree | ⟨t, ht⟩
  · rw [h.find?_pool_create hconf, hused] at hfree
    split_ifs at hfree
  · rcases (h.registered.holds_create hnew).mp ht with ⟨-, heq⟩ | ⟨-, y, hy, hne, hyx⟩
    · cases hentries : s.ueIpAddrPool.entries with
      | nil =>
        rw [newUeIpv4_exhausted hdynamic hentries] at heq
        exact h.sound.nonzero teid (heq ▸ hheld)
      | cons e es =>
        have hhead : s.ueIpAddrPool.entries.head? = some (e.1, ()) := by
          rw [hentries]
          rfl
        rw [newUeIpv4_dynamic hdynamic hhead] at heq
        have hfree : s.ueIpAddrPool.find? e.1 = some () :=
          OrderedMap.find?_eq_some_iff.mpr (List.mem_of_mem_head? hhead)
        rw [heq, hused] at hfree
        cases hfree
    · have htt := h.sound.distinct t teid _ (holds_iff.mpr ⟨y, hy, hyx⟩) hheld
      subst htt
      exact hne (by rw [Option.some.inj (hy.symm.trans hx), himsi])

theorem Allocated.keepsAddress {e : SpgwEvent} (hfree : s.TeidFree e)
    (hstep : AddressStep s₀ s e) : s.KeepsAddress e := by
  obtain ⟨hrequest, hsound⟩ := hstep
  cases e with
  | sgi msg => trivial
  | s11 uninit pdu =>
    cases pdu with
    | createSessionRequest imsi senderFteid =>
      cases hip : s.imsiToIp.find? imsi with
      | some ip =>
        refine (keepsAddress_static hip).mpr ?_
        rintro rfl
        exact h.lost_zero hfree (newUeIpv4_static hip) hsound
      | none =>
        rw [keepsAddress_dynamic hip]
        cases hteid : s.imsiToCtrTeid.find? imsi with
        | some teid => exact absurd hsound (h.lost_recreate hconf hfree hip hteid)
        | none =>
          refine ⟨rfl, ?_⟩
          cases hentries : s.ueIpAddrPool.entries with
          | nil =>
            exact absurd hsound (h.lost_zero hfree (newUeIpv4_exhausted hip hentries))
          | cons e es =>
            refine ⟨e, rfl, fun hzero => ?_⟩
            refine absurd hsound (h.lost_zero hfree ?_)
            refine newUeIpv4_dynamic hip ?_
            rw [hentries, ← hzero]
            rfl
    | deleteSessionRequest teid cause =>
      intro ctx hctx hdynamic
      exact h.sound.lost_delete hctx hdynamic hrequest
    | _ => trivial

theorem Allocated.addressStep {e : SpgwEvent} (hfree : s.TeidFree e) (hkeep : s.KeepsAddress e) :
    AddressStep s₀ s e := by
  refine ⟨?_, (h.step hconf hfree hkeep).sound⟩
  cases e with
  | sgi msg => trivial
  | s11 uninit pdu =>
    cases pdu with
    | createSessionRequest imsi senderFteid =>
      intro hip _ hempty
      obtain ⟨-, e, he, -⟩ := (keepsAddress_dynamic hip).mp hkeep
      rw [hempty] at he
      cases he
    | deleteSessionRequest teid cause =>
      intro ctx hctx hdynamic
      exact absurd hdynamic (hkeep ctx hctx)
    | _ => trivial

end Lost

theorem allocated_init {args : SpgwArgs} {ipToImsi : OrderedMap ℕ ℕ}
    (h : init args ipToImsi = some s) : Allocated s s := by
  have hnone := session_init h
  have hholds : ∀ t a, ¬ s.Holds t a := by
    intro t a ht
    obtain ⟨x, hx, -⟩ := holds_iff.mp ht
    rw [hnone] at hx
    cases hx
  constructor
  · exact registered_init h
  · rfl
  · exact fun _ ha => ha
  · intro t x a hx
    rw [hnone] at hx
    cases hx
  · intro t x hx
    rw [hnone] at hx
    cases hx
  · exact ⟨fun t _ a ht => absurd ht (hholds t a), fun t a ht => absurd ht (hholds t a),
      fun _ ha => Or.inl ha, fun t => hholds t 0⟩

/-- In a run without a reuse of TEIDs, what is claimed of addresses holds all along if and only if
no session with an address of the pool ends, and none begins without an address other than
`0.0.0.0`. -/
theorem addresses_conserved_iff {args : SpgwArgs} {ipToImsi : OrderedMap ℕ ℕ} {s₀ : Spgw}
    (hinit : init args ipToImsi = some s₀) (events : List SpgwEvent)
    (hteids : Along Spgw.step TeidFree s₀ events) :
    AddressesSound s₀ s₀ ∧ Along Spgw.step (AddressStep s₀) s₀ events ↔
      Along Spgw.step KeepsAddress s₀ events := by
  have hconf := configured_init hinit
  have hbase := allocated_init hinit
  have hboth : Along Spgw.step (fun s e => KeepsAddress s e ∧ TeidFree s e) s₀ events ↔
      Along Spgw.step (fun s e => AddressStep s₀ s e ∧ TeidFree s e) s₀ events := by
    refine along_congr (I := Allocated s₀) ?_ ?_ hbase
    · exact fun s e h hstep => h.step hconf hstep.2 hstep.1
    · intro s e h
      constructor
      · exact fun hstep => ⟨h.addressStep hconf hstep.2 hstep.1, hstep.2⟩
      · exact fun hstep => ⟨h.keepsAddress hconf hstep.2 hstep.1, hstep.2⟩
  rw [along_and, along_and, and_iff_left hteids, and_iff_left hteids] at hboth
  rw [and_iff_right hbase.sound, hboth]

def oneStatic : OrderedMap ℕ ℕ := OrderedMap.empty.insert (172 + 16 * 2 ^ 8 + 2 * 2 ^ 24) 7

def epcArgs : SpgwArgs := ⟨172 + 16 * 2 ^ 8 + 1 * 2 ^ 24, 127 + 1 * 2 ^ 24, 5⟩

def attach (imsi mmeTeid : ℕ) : SpgwEvent := .s11 false (.createSessionRequest imsi ⟨0, mmeTeid⟩)

def detach (teid : ℕ) : SpgwEvent := .s11 false (.deleteSessionRequest teid .isrDeactivation)

def epc : Spgw :=
  started epcArgs oneStatic (OrderedMap.empty.insert 7 (172 + 16 * 2 ^ 8 + 2 * 2 ^ 24))

theorem addresses_conserved_static : AddressesSound epc epc ∧
    Along Spgw.step (AddressStep epc) epc [attach 7 1, attach 7 2, detach 2, attach 7 3] := by
  have hinit : init epcArgs oneStatic = some epc := rfl
  have hteids : Along Spgw.step TeidFree epc [attach 7 1, attach 7 2, detach 2, attach 7 3] := by
    refine ⟨?_, ?_, trivial, ?_, trivial⟩ <;>
    · intro ctx hctx
      cases hctx
  refine (addresses_conserved_iff hinit _ hteids).mpr ⟨?_, ?_, ?_, ?_, trivial⟩
  · exact (keepsAddress_static (a := 172 + 16 * 2 ^ 8 + 2 * 2 ^ 24) rfl).mpr (by decide)
  · exact (keepsAddress_static (a := 172 + 16 * 2 ^ 8 + 2 * 2 ^ 24) rfl).mpr (by decide)
  · intro ctx hctx
    cases hctx
    exact Option.some_ne_none _
  · exact (keepsAddress_static (a := 172 + 16 * 2 ^ 8 + 2 * 2 ^ 24) rfl).mpr (by decide)

/-- A subscriber without a static address attaches and detaches. -/
theorem address_lost : ¬ (AddressesSound epc epc ∧
    Along Spgw.step (AddressStep epc) epc [attach 1 1, detach 1]) := by
  rintro ⟨-, hattach, hdetach, -⟩
  exact hattach.2.lost_delete rfl rfl hdetach.1

end SrsLte.Spgw
