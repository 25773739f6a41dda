import MirageNode.RenewalRuns

/-!
# Invariants over runs of the chain

The expiry index is written where a subscription is sold, ends or is deleted, and it is all that
the processing of a block looks at. From a state where it agrees with the profile of an account
(`IndexAgrees`; an account without profile and entries is one, `IndexAgrees.of_unpaid`) it stays so
(`subscription_index_agrees`) unless governance ends the subscription, which leaves its entry
behind. A migrated store need not agree: the entries of the old version are kept as they are, also
those of accounts whose profile has no expiry. A subscriber stays paid for
the time that the profile shows (`subscription_lasts`), under whatever parameters governance sets,
since it can set valid ones only (`KeeperCall.params_valid`).
-/

namespace MirageNode

open OrderedStore Fallible

/-! ## 1. The expiry index -/

section Index

variable {env : ChainEnv} {s s' : ChainState} {a : Addr}

/-- The index has the expiry of a paid account, and nothing else of it. -/
structure IndexAgrees (s : ChainState) (a : Addr) : Prop where
  expiry_pos : (s.profileOf a).effectivePaid = true → 0 < (s.profileOf a).subscriptionExpiry
  entry_iff : ∀ x, s.subs.has (toLex (x, a)) = true ↔
    (s.profileOf a).effectivePaid = true ∧ (s.profileOf a).subscriptionExpiry = x

theorem IndexAgrees.of_unpaid (hpaid : (s.profileOf a).effectivePaid = false)
    (hnone : ∀ x, ¬ s.subs.has (toLex (x, a)) = true) : IndexAgrees s a := by
  refine ⟨fun h => ?_, fun x => iff_of_false (hnone x) fun h => ?_⟩
  · rw [hpaid] at h
    cases h
  · rw [hpaid] at h
    cases h.1

/-- In a run that keeps the agreement no entry ends a subscription ahead of its expiry. -/
theorem IndexAgrees.indexedAtExpiry (h : IndexAgrees s a) : IndexedAtExpiry s a :=
  fun x hx => ((h.entry_iff x).mp hx).2.symm

theorem IndexAgrees.step {k : KeeperCall} (hs : IndexAgrees s a) (hk : k ≠ .unsubscribe a)
    (h : AccountChange s s' a k) : IndexAgrees s' a := by
  cases h with
  | same hpaid hexpiry hsubs =>
    exact ⟨by rw [hpaid, hexpiry]; exact hs.expiry_pos, fun x => by
      rw [hsubs, hpaid, hexpiry]
      exact hs.entry_iff x⟩
  | @extended k core autoRenew stop _ hcore hpos hprofile hsubs =>
    subst hcore
    refine ⟨fun _ => ?_, fun x => ?_⟩
    · rwa [hprofile, ProfileCore.extended_subscriptionExpiry]
    · rw [hsubs, hprofile, ProfileCore.extended_effectivePaid,
        ProfileCore.extended_subscriptionExpiry, hs.entry_iff]
      -- the old entry goes, since the expiry of a paid account is positive
      have hpos' := hs.expiry_pos
      constructor
      · rintro (rfl | ⟨⟨hpaid, rfl⟩, hnot⟩)
        · exact ⟨rfl, rfl⟩
        · exact absurd ⟨hpos' hpaid, rfl⟩ hnot
      · rintro ⟨-, rfl⟩
        exact .inl rfl
  | unsubscribed => exact absurd rfl hk
  | @expired x₀ hprofile hsubs hdue =>
    refine .of_unpaid (by rw [hprofile]; rfl) fun x hx => ?_
    obtain ⟨hx, hne⟩ := (hsubs x).mp hx
    exact hne (((hs.entry_iff x).mp hx).2.symm.trans ((hs.entry_iff x₀).mp hdue).2)
  | deleted hcore hprofile hsubs =>
    subst hcore
    refine .of_unpaid (by rw [hprofile]; rfl) fun x hx => ?_
    obtain ⟨hx, hnot⟩ := (hsubs x).mp hx
    obtain ⟨hpaid, rfl⟩ := (hs.entry_iff x).mp hx
    exact hnot ⟨hs.expiry_pos hpaid, rfl⟩

theorem indexAgrees_sound (env : ChainEnv) (ctx : BlockCtx) (a : Addr) :
    Sound env ctx (IndexAgrees · a) (fun _ => False) fun k _ => k ≠ .unsubscribe a := by
  refine .of_step (fun _ _ _ => id) fun k s s' hs hready hallow h => ?_
  have hk : k ≠ .unsubscribe a := fun hk => hallow (hk ▸ trivial) hk
  exact hs.step hk (k.account_cases hready h a)

/-- The inputs by which governance does not end the subscription of an account. -/
def ChainInput.LeavesSubscribed (a : Addr) : ChainInput → Prop
  | gov (.setSubscriptionState user subscribed _ _) => user = a → subscribed = true
  | _ => True

theorem ChainInput.LeavesSubscribed.allowed {input : ChainInput} (h : input.LeavesSubscribed a) :
    input.Allowed (fun k _ => k ≠ .unsubscribe a) env s := by
  cases input with
  | relay actor msg => cases msg <;> simp [ChainInput.Allowed, RelayMsg.Allowed]
  | gov msg =>
    cases msg with
    | setSubscriptionState user subscribed expiry autoRenew =>
      intro core _
      cases subscribed with
      | true => simp
      | false =>
        rintro ⟨⟩
        cases h rfl
    | _ => simp [ChainInput.Allowed, GovMsg.Allowed]
  | _ => trivial

/-- The expiry index agrees with the profile of an account in every run in which governance
does not end its subscription: it has one entry, at the expiry in the profile, while the
account is paid, and otherwise none. -/
theorem subscription_index_agrees {s₀ : ChainState} {t₀ t : ℤ} (hs₀ : IndexAgrees s₀ a)
    (hrun : ChainRun env (fun _ _ input => input.LeavesSubscribed a) s₀ t₀ s t) (x : ℤ) :
    s.subs.has (toLex (x, a)) = true ↔ ∃ core, s.profiles.get a = some core ∧
      core.effectivePaid = true ∧ core.subscriptionExpiry = x := by
  have hs : IndexAgrees s a :=
    hrun.keeps (fun ctx _ => indexAgrees_sound env ctx a) (fun _ _ _ h => h.allowed) hs₀
  rw [hs.entry_iff, ChainState.profileOf]
  cases s.profiles.get a with
  | none => simp [ProfileCore.blank]
  | some core => simp

/-- A store with a subscriber, whose entry stands at the expiry of the profile. -/
def paidStore : ChainState :=
  { subscriberStore with
    profiles := OrderedMap.empty.set 7 ⟨none, levelSubscriber, 2000, true, true, 0⟩ }

theorem paidStore_agrees : IndexAgrees paidStore 7 := by
  refine ⟨fun _ => by decide, fun x => ?_⟩
  rw [show paidStore.subs = OrderedMap.empty.set (toLex (2000, 7)) levelSubscriber from rfl,
    OrderedMap.has_set_iff, toLex_inj, Prod.mk.injEq]
  constructor
  · rintro (⟨rfl, -⟩ | h)
    · exact ⟨rfl, rfl⟩
    · cases h
  · rintro ⟨-, rfl⟩
    exact .inl ⟨rfl, rfl⟩

/-- Governance moves the expiry of the subscriber from 2000 to 3000. -/
def laterExpiry : ChainInput := .gov (.setSubscriptionState 7 true 3000 true)

theorem laterExpiry_runs (cond : BlockCtx → ChainState → ChainInput → Prop)
    (hcond : cond ⟨1000, 1, 0⟩ paidStore laterExpiry) :
    ∃ s, ChainRun plainEnv.toChainEnv cond paidStore 0 s 1000 := by
  have hok : (laterExpiry.exec plainEnv.toChainEnv ⟨1000, 1, 0⟩ paidStore).toOption.isSome =
    true := by decide +kernel
  obtain ⟨s, hs⟩ := Option.isSome_iff_exists.mp hok
  exact ⟨s, .step _ _ .start (by decide) ⟨by decide, by decide, by decide⟩ hcond
    (toOption_eq_some.mp hs)⟩

theorem subscription_index_agrees_subscriber : ∃ s,
    ChainRun plainEnv.toChainEnv (fun _ _ input => input.LeavesSubscribed 7) paidStore 0 s 1000 ∧
    ∀ x, s.subs.has (toLex (x, (7 : Addr))) = true ↔ ∃ core, s.profiles.get 7 = some core ∧
      core.effectivePaid = true ∧ core.subscriptionExpiry = x := by
  obtain ⟨s, hrun⟩ := laterExpiry_runs (fun _ _ input => input.LeavesSubscribed 7) fun _ => rfl
  exact ⟨s, hrun, subscription_index_agrees paidStore_agrees hrun⟩

end Index

/-! ## 2. Paid time -/

section Lasting

variable {env : ChainEnv} {s₀ s s' : ChainState} {t₀ t : ℤ} {a : Addr}

theorem KeeperCall.params_valid {k : KeeperCall} {ctx : BlockCtx}
    (hs : s.params.validateGovernanceUpdate = .ok ()) (hready : k.Ready ctx s)
    (h : k.exec env ctx s = .ok s') : s'.params.validateGovernanceUpdate = .ok () := by
  cases k with
  | updateParams q =>
    obtain rfl := Except.ok.inj h
    have hcheck : checkParams s.upgraded q = .ok () := hready
    simp only [checkParams, bind_eq_ok] at hcheck
    obtain ⟨-, -, hcheck⟩ := hcheck
    split at hcheck
    · exact (bind_eq_ok.mp hcheck).choose_spec.2
    · exact hcheck
  | _ => exact (KeeperCall.params_eq hready (fun _ => by simp) h).symm ▸ hs

/-- An account is paid until `E`, no index entry ends it before, and the parameters are valid. -/
structure Lasting (a : Addr) (E : ℤ) (s : ChainState) : Prop where
  params : s.params.validateGovernanceUpdate = .ok ()
  index : IndexedAtExpiry s a
  reaches : E ≤ (s.profileOf a).subscriptionExpiry
  paid : (s.profileOf a).effectivePaid = true

theorem lasting_sound {ctx : BlockCtx} {E : ℤ} (hvalid : ctx.Valid) (htime : ctx.time < E) :
    Sound env ctx (Lasting a E) (fun _ => False) fun k s => ∃ q, k.Spares q a s := by
  refine .of_step (fun _ _ _ => id) fun k s s' hs hready hallow h => ?_
  have hp : s.params.Sellable :=
    Params.sellable_of_validateV139 (bind_eq_ok.mp hs.params).choose_spec.1
  obtain ⟨hindex, hreach, hpaid⟩ :=
    KeeperCall.keeps_subscription hs.index hs.reaches hvalid hp htime hready hallow h
  exact ⟨KeeperCall.params_valid hs.params hready h, hindex, hreach, hpaid hs.paid⟩

/-- The inputs that do not end or shorten the subscription of an account ahead of time. -/
def ChainInput.SparesAccount (a : Addr) (s : ChainState) (input : ChainInput) : Prop :=
  ∃ q, input.Spares q a s

/-- A subscriber stays paid as long as the expiry that they have paid for is not reached. -/
theorem subscription_lasts {core₀ : ProfileCore}
    (hvalid : s₀.params.validateGovernanceUpdate = .ok ()) (hindex : IndexedAtExpiry s₀ a)
    (hcore₀ : s₀.profiles.get a = some core₀) (hpaid : core₀.effectivePaid = true)
    (hrun : ChainRun env (fun _ s input => input.SparesAccount a s) s₀ t₀ s t)
    (ht : t < core₀.subscriptionExpiry) :
    ∃ core, s.profiles.get a = some core ∧ core.effectivePaid = true ∧
      core₀.subscriptionExpiry ≤ core.subscriptionExpiry := by
  have hold := profileOf_of_get hcore₀
  have hs : Lasting a core₀.subscriptionExpiry s :=
    hrun.keeps_until (fun _ hctx hle => lasting_sound hctx (hle.trans_lt ht))
      (fun _ _ _ h => h.choose_spec.allowed.mono fun _ _ hk => ⟨_, hk⟩)
      ⟨hvalid, hindex, by rw [hold], by rw [hold, hpaid]⟩ le_rfl
  have hreach := hs.reaches
  have hpaid' := hs.paid
  rw [ChainState.profileOf] at hreach hpaid'
  cases hcore : s.profiles.get a with
  | none => simp [hcore, ProfileCore.blank] at hpaid'
  | some core =>
    rw [hcore] at hreach hpaid'
    exact ⟨core, rfl, hpaid', hreach⟩

theorem subscription_lasts_later : ∃ s,
    ChainRun plainEnv.toChainEnv (fun _ s input => input.SparesAccount 7 s) paidStore 0 s 1000 ∧
    ∃ core, s.profiles.get 7 = some core ∧ core.effectivePaid = true ∧
      2000 ≤ core.subscriptionExpiry := by
  obtain ⟨s, hrun⟩ := laterExpiry_runs (fun _ s input => input.SparesAccount 7 s)
    ⟨defaultParams, fun _ => ⟨rfl, by decide⟩⟩
  exact ⟨s, hrun, subscription_lasts (by decide +kernel) paidStore_agrees.indexedAtExpiry rfl rfl
    hrun (by decide)⟩

end Lasting

end MirageNode
