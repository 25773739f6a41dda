import MirageNode.ChainRun
import MirageNode.SubscriptionCalls
import MirageNode.MigrationSpec

/-!
# Renewals over whole runs

Every keeper call either leaves the renewal schedules alone or replaces the schedule of one
account (`ScheduleStep`). So every queue entry is the one that the renewal state of its
account names, in every state that a chain can reach. With fixed parameters an entry is not
due before the early-renewal window of the profile's expiry opens, and an automatic renewal
sells exactly one period from there on. The processing of a block ends every subscription with a
due entry in the expiry index, whatever its profile says, so that two renewals of an account may
overlap when the index has another entry of it (`IndexedAtExpiry`, `renewals_overlap`).
-/

namespace MirageNode

open OrderedStore OrderedMap Fallible List

/-! ## 1. Schedules and keeper calls -/

/-- What a keeper call does to the schedules: nothing but losing queue entries, with no new
expiry in a profile, or a new schedule for one account. -/
inductive ScheduleStep (ctx : BlockCtx) (s s' : ChainState) : Prop
  | kept (renewals : s'.renewals = s.renewals)
      (queue : ∀ key, s'.renewalQueue.has key = true → s.renewalQueue.has key = true)
      (expiry : ∀ a, (s'.profileOf a).subscriptionExpiry = (s.profileOf a).subscriptionExpiry ∨
        (s'.profileOf a).subscriptionExpiry ≤ 0)
  | replaced (s₁ : ChainState) (owner : Addr) (renewals : s₁.renewals = s.renewals)
      (queue : ∀ key, s₁.renewalQueue.has key = true → s.renewalQueue.has key = true)
      (params : s₁.params = s.params)
      (profiles : ∀ a, a ≠ owner → s₁.profiles.get a = s.profiles.get a)
      (result : s' = replaceSubscriptionRenewalSchedule ctx.time s₁ owner)

variable {s₁ : ChainState} {owner : Addr} {core : ProfileCore} {rules : TextRules}

section Steps

variable {env : ChainEnv} {ctx : BlockCtx} {s s' : ChainState}

theorem SameSubscriptions.scheduleStep (h : SameSubscriptions s s') : ScheduleStep ctx s s' := by
  refine .kept h.renewals (fun key hkey => ?_) fun a => .inl (h.profile a).subscriptionExpiry
  rwa [h.renewalQueue] at hkey

/-- A new schedule after the profile of its account was written. -/
theorem ScheduleStep.of_set
    (hrenewals : s₁.renewals = s.renewals) (hqueue : s₁.renewalQueue = s.renewalQueue)
    (hparams : s₁.params = s.params) (hprofiles : s₁.profiles = s.profiles.set owner core) :
    ScheduleStep ctx s (replaceSubscriptionRenewalSchedule ctx.time s₁ owner) := by
  refine .replaced s₁ owner hrenewals (fun key hkey => ?_) hparams (fun a ha => ?_) rfl
  · rwa [hqueue] at hkey
  · rw [hprofiles, get_set_of_ne _ ha]

theorem KeeperCall.scheduleStep {k : KeeperCall} (hready : k.Ready ctx s)
    (h : k.exec env ctx s = .ok s') : ScheduleStep ctx s s' := by
  have herase : ∀ key key' : RenewalKey, (s.renewalQueue.erase key).has key' = true →
      s.renewalQueue.has key' = true := by
    intro key key' hkey'
    rw [has_erase, Bool.and_eq_true] at hkey'
    exact hkey'.2
  by_cases hk : k.Subscribing
  · cases k with
    | extend user core autoRenew stop | govExtend user core autoRenew stop =>
      obtain ⟨-, -, c, -, rfl⟩ := extendSubscription_eq_ok h
      exact .of_set rfl rfl rfl rfl
    | unsubscribe user | expire sub =>
      obtain ⟨core, c, -, -, rfl⟩ := deactivatePaidState_eq_ok h
      exact .of_set rfl rfl rfl rfl
    | setAutoRenew owner core autoRenew =>
      obtain rfl := Except.ok.inj h
      exact .of_set rfl rfl rfl rfl
    | reschedule key =>
      obtain rfl := Except.ok.inj h
      exact .replaced { s with renewalQueue := s.renewalQueue.erase key } key.owner rfl
        (herase key) rfl (fun _ _ => rfl) rfl
    | dequeue key =>
      obtain rfl := Except.ok.inj h
      exact .kept rfl (herase key) fun _ => .inl rfl
    | deleteUser target core =>
      have hdel := deleteUserState_deleted h
      refine .kept hdel.renewals (fun key hkey => ?_) fun a => ?_
      · rwa [hdel.renewalQueue] at hkey
      · rw [ChainState.profileOf, hdel.profiles, get_erase]
        split
        next => exact .inr le_rfl
        next => exact .inl rfl
    | _ => exact hk.elim
  · exact (KeeperCall.sameSubscriptions hready hk h).scheduleStep

theorem RenewalsNamed.of_le (h : RenewalsNamed s) (hrenewals : s'.renewals = s.renewals)
    (hqueue : ∀ key, s'.renewalQueue.has key = true → s.renewalQueue.has key = true) :
    RenewalsNamed s' := by
  intro key hkey
  rw [hrenewals]
  exact h key (hqueue key hkey)

theorem RenewalsNamed.step (h : RenewalsNamed s) (hstep : ScheduleStep ctx s s') :
    RenewalsNamed s' := by
  cases hstep with
  | kept hrenewals hqueue hexpiry => exact h.of_le hrenewals hqueue
  | replaced s₁ owner hrenewals hqueue hparams hprofiles hresult =>
    rw [hresult]
    exact (h.of_le hrenewals hqueue).replace ctx.time owner

theorem renewalsNamed_sound (env : ChainEnv) (ctx : BlockCtx) :
    Sound env ctx RenewalsNamed (fun _ => False) (fun _ _ => True) :=
  .of_step (fun _ _ _ => id) fun _ _ _ hs hready _ h => hs.step (KeeperCall.scheduleStep hready h)

end Steps

/-! ## 2. Histories -/

/-- A store without renewal schedules, of a new chain or from before v1.39.0. -/
structure Unscheduled (s : ChainState) : Prop where
  renewals : s.renewals = .empty
  renewalQueue : s.renewalQueue = .empty

/-- The states that inputs and the migration lead to from a store without renewal schedules,
and the time of the last block. Every state after the first one meets `ok`. -/
inductive History (env : ChainEnv) (ok : ChainState → Prop) : ChainState → ℤ → Prop
  | start {s : ChainState} (t : ℤ) : Unscheduled s → History env ok s t
  | input {s s' : ChainState} {t : ℤ} (ctx : BlockCtx) (input : ChainInput) :
      History env ok s t → t ≤ ctx.time → ctx.Valid → input.exec env ctx s = .ok s' → ok s' →
      History env ok s' ctx.time
  | migrate {s s' : ChainState} {t : ℤ} (ctx : BlockCtx) :
      History env ok s t → t ≤ ctx.time → ctx.Valid → migrateV139 ctx s = .ok s' → ok s' →
      History env ok s' ctx.time

section Histories

variable {env : ChainEnv} {ctx : BlockCtx} {ok : ChainState → Prop} {s s' : ChainState} {t : ℤ}

theorem Unscheduled.renewalsNamed (h : Unscheduled s) : RenewalsNamed s := by
  intro key hkey
  rw [h.renewalQueue] at hkey
  cases hkey

theorem migrateRecords_schedules {now : ℤ} (h : migrateRecords now s = .ok s') :
    s'.renewals = s.renewals ∧ s'.renewalQueue = s.renewalQueue ∧ s'.subs = s.subs ∧
      ∀ a, (s'.profileOf a).subscriptionExpiry = (s.profileOf a).subscriptionExpiry := by
  simp only [migrateRecords, bind_eq_ok, pure_eq_ok] at h
  obtain ⟨_, -, _, -, _, -, _, -, _, -, _, -, rfl⟩ := h
  refine ⟨rfl, rfl, rfl, fun a => ?_⟩
  simp only [ChainState.profileOf, get_mapVal]
  cases s.profiles.get a with
  | none => rfl
  | some core => exact core.migrated_subscriptionExpiry

theorem renewalsNamed_migrate (h : RenewalsNamed s) (hrun : migrateV139 ctx s = .ok s') :
    RenewalsNamed s' := by
  by_cases hup : s.upgraded = true
  · simp only [migrateV139, hup, if_true] at hrun
    exact Except.ok.inj hrun ▸ h
  · obtain ⟨s₁, creator, hs₁, -, -, rfl⟩ := migrateV139_eq_ok (Bool.not_eq_true _ ▸ hup) hrun
    obtain ⟨hrenewals, hqueue, -, -⟩ := migrateRecords_schedules hs₁
    have hnamed₁ : RenewalsNamed s₁ := h.of_le hrenewals fun key hkey => by rwa [hqueue] at hkey
    exact (foldl_scheduleRenewal ctx.time (fun e he => mem_entries_iff.mp he) hnamed₁).1

/-- Every queue entry is named by its account, whatever happened before. -/
theorem History.renewalsNamed (h : History env ok s t) : RenewalsNamed s := by
  induction h with
  | start t hs => exact hs.renewalsNamed
  | input ctx input _ _ _ hexec _ ih =>
    exact (ChainInput.keeps (renewalsNamed_sound env ctx) ih
      (input.allowed_of_forall fun _ _ => trivial)).of_eq_ok hexec
  | migrate ctx _ _ _ hrun _ ih => exact renewalsNamed_migrate ih hrun

end Histories

/-! ## 3. Fixed parameters -/

/-- The early-renewal window in seconds. -/
def Params.renewalWindow (p : Params) : ℤ := p.subscriptionEarlyRenewalDays * 86400

/-- The subscription period in seconds. -/
def Params.periodSeconds (p : Params) : ℤ := p.subscriptionPeriod * 60

/-- No renewal state is due before the window of its expiry opens, and its expiry is that of the
profile, unless the profile has none. -/
structure RenewalsTimely (p : Params) (s : ChainState) : Prop where
  named : RenewalsNamed s
  early : ∀ a st, s.renewals.get a = some st → st.expiry - p.renewalWindow ≤ st.nextAttemptUnix
  expiry : ∀ a st, s.renewals.get a = some st →
    (s.profileOf a).subscriptionExpiry = st.expiry ∨ (s.profileOf a).subscriptionExpiry ≤ 0

section Fixed

variable {env : ChainEnv} {ctx : BlockCtx} {p : Params} {s s' : ChainState} {t : ℤ}

theorem Unscheduled.renewalsTimely (h : Unscheduled s) : RenewalsTimely p s := by
  refine ⟨h.renewalsNamed, fun a st hst => ?_, fun a st hst => ?_⟩ <;>
  · rw [h.renewals] at hst
    cases hst

theorem RenewalsTimely.kept (h : RenewalsTimely p s) (hrenewals : s'.renewals = s.renewals)
    (hqueue : ∀ key, s'.renewalQueue.has key = true → s.renewalQueue.has key = true)
    (hexpiry : ∀ a, (s'.profileOf a).subscriptionExpiry = (s.profileOf a).subscriptionExpiry ∨
      (s'.profileOf a).subscriptionExpiry ≤ 0) : RenewalsTimely p s' := by
  refine ⟨h.named.of_le hrenewals hqueue, fun a st hst => ?_, fun a st hst => ?_⟩
  · rw [hrenewals] at hst
    exact h.early a st hst
  · rw [hrenewals] at hst
    rcases hexpiry a with heq | hle
    · rw [heq]
      exact h.expiry a st hst
    · exact .inr hle

theorem nextRenewal_early (s : ChainState) (now : ℤ) (owner : Addr) (expiry : ℤ) :
    expiry - s.params.renewalWindow ≤ (s.nextRenewal now owner expiry).nextAttemptUnix := by
  show _ ≤ if _ < now then now else _
  split
  next hlt => exact hlt.le
  next => exact le_rfl

/-- A new schedule of an account is made of its profile. -/
theorem RenewalsTimely.replace (h : RenewalsTimely p s) (now : ℤ)
    (hrenewals : s₁.renewals = s.renewals)
    (hqueue : ∀ key, s₁.renewalQueue.has key = true → s.renewalQueue.has key = true)
    (hparams : s₁.params = p) (hprofiles : ∀ a, a ≠ owner → s₁.profiles.get a = s.profiles.get a) :
    RenewalsTimely p (replaceSubscriptionRenewalSchedule now s₁ owner) := by
  have hnamed₁ := h.named.of_le hrenewals hqueue
  have hother : ∀ a, a ≠ owner → s₁.profileOf a = s.profileOf a := fun a ha => by
    rw [ChainState.profileOf, hprofiles a ha, ChainState.profileOf]
  obtain ⟨renewals, queue, hframe⟩ := replaceSubscriptionRenewalSchedule_frame now s₁ owner
  have hprofile : ∀ a, (replaceSubscriptionRenewalSchedule now s₁ owner).profileOf a =
      s₁.profileOf a := by
    rw [hframe]
    exact fun _ => rfl
  -- of every state afterwards: it is an old one of another account, or the new one
  have hget : ∀ a st, (replaceSubscriptionRenewalSchedule now s₁ owner).renewals.get a = some st →
      a ≠ owner ∧ s.renewals.get a = some st ∨
        a = owner ∧ st = s₁.nextRenewal now owner (s₁.profileOf owner).subscriptionExpiry := by
    intro a st hst
    by_cases hpos : ∃ core, s₁.profiles.get owner = some core ∧ 0 < core.subscriptionExpiry
    · obtain ⟨core, hcore, hpos⟩ := hpos
      rw [replaceSubscriptionRenewalSchedule_scheduled now hcore hpos] at hst
      rw [profileOf_of_get hcore, ← hrenewals]
      exact (get_set_cases hst).symm
    · push Not at hpos
      rw [replaceSubscriptionRenewalSchedule_unscheduled now hpos, get_erase] at hst
      split at hst
      · cases hst
      next ha =>
        rw [hrenewals] at hst
        exact .inl ⟨ha, hst⟩
  refine ⟨hnamed₁.replace now owner, fun a st hst => ?_, fun a st hst => ?_⟩
  · rcases hget a st hst with ⟨-, hst⟩ | ⟨-, rfl⟩
    · exact h.early a st hst
    · rw [← hparams]
      exact nextRenewal_early s₁ now owner _
  · rw [hprofile]
    rcases hget a st hst with ⟨ha, hst⟩ | ⟨rfl, rfl⟩
    · rw [hother a ha]
      exact h.expiry a st hst
    · exact .inl rfl

theorem RenewalsTimely.step (h : RenewalsTimely p s) (hp : s.params = p)
    (hstep : ScheduleStep ctx s s') : RenewalsTimely p s' := by
  cases hstep with
  | kept hrenewals hqueue hexpiry => exact h.kept hrenewals hqueue hexpiry
  | replaced s₁ owner hrenewals hqueue hparams hprofiles hresult =>
    rw [hresult]
    exact h.replace ctx.time hrenewals hqueue (hparams.trans hp) hprofiles

/-- Calls other than an update of the parameters. -/
def KeeperCall.KeepsParams (k : KeeperCall) (_ : ChainState) : Prop := ∀ q, k ≠ .updateParams q

theorem renewalsTimely_sound (env : ChainEnv) (ctx : BlockCtx) (p q : Params) :
    Sound env ctx (fun s => s.params = q ∧ (q = p → RenewalsTimely p s)) (fun _ => False)
      KeeperCall.KeepsParams := by
  refine .of_step (fun _ _ _ => id) fun k s s' hs hready hallow h => ?_
  have hk : ∀ r, k ≠ .updateParams r := fun r hr => hallow (hr ▸ trivial) r hr
  exact ⟨(KeeperCall.params_eq hready hk h).trans hs.1,
    fun hq => (hs.2 hq).step (hs.1.trans hq) (KeeperCall.scheduleStep hready h)⟩

theorem ChainInput.allowed_keepsParams {input : ChainInput}
    (h : ∀ q, input ≠ .gov (.updateParams q)) : input.Allowed KeeperCall.KeepsParams env s := by
  cases input with
  | relay actor msg =>
    cases msg <;> simp [ChainInput.Allowed, RelayMsg.Allowed, KeeperCall.KeepsParams]
  | gov msg =>
    cases msg with
    | updateParams q => exact absurd rfl (h q)
    | _ => simp [ChainInput.Allowed, GovMsg.Allowed, KeeperCall.KeepsParams]
  | _ => trivial

theorem handleUpdateParams_frame {q : Params} (h : handleUpdateParams ctx s q = .ok s') :
    ∃ creator, s' = { s with creator := creator, params := q } := by
  simp only [handleUpdateParams, regridIfChanged, bind_eq_ok, pure_eq_ok] at h
  obtain ⟨_, -, s₁, hs₁, rfl⟩ := h
  split at hs₁
  · simp only [onCreator, bind_eq_ok, pure_eq_ok] at hs₁
    obtain ⟨creator, -, rfl⟩ := hs₁
    exact ⟨creator, rfl⟩
  · obtain rfl := Except.ok.inj hs₁
    exact ⟨_, rfl⟩

theorem RenewalsTimely.input (h : RenewalsTimely p s) {input : ChainInput}
    (hexec : input.exec env ctx s = .ok s') (hp : s'.params = p) : RenewalsTimely p s' := by
  by_cases hupdate : ∃ q, input = .gov (.updateParams q)
  · obtain ⟨q, rfl⟩ := hupdate
    obtain ⟨creator, rfl⟩ := handleUpdateParams_frame hexec
    exact h.kept rfl (fun _ hkey => hkey) fun _ => .inl rfl
  · have hallow : input.Allowed KeeperCall.KeepsParams env s :=
      ChainInput.allowed_keepsParams fun q hq => hupdate ⟨q, hq⟩
    obtain ⟨hsame, htimely⟩ := (ChainInput.keeps (renewalsTimely_sound env ctx p s.params)
      ⟨rfl, fun _ => h⟩ hallow).of_eq_ok hexec
    exact htimely (hsame.symm.trans hp)

theorem RenewalsTimely.foldl_scheduleRenewal (now : ℤ) {es : List (Addr × ProfileCore)}
    (h : RenewalsTimely p s) (hp : s.params = p) :
    RenewalsTimely p (es.foldl (scheduleRenewal now) s) := by
  induction es generalizing s with
  | nil => exact h
  | cons e es ih =>
    rw [foldl_cons]
    unfold scheduleRenewal
    split
    · refine ih (h.replace now rfl (fun _ hkey => hkey) hp fun _ _ => rfl) ?_
      obtain ⟨_, _, hframe⟩ := replaceSubscriptionRenewalSchedule_frame now s e.1
      rw [hframe]
      exact hp
    · exact ih h hp

theorem RenewalsTimely.migrate (h : RenewalsTimely p s) (hrun : migrateV139 ctx s = .ok s')
    (hp : s'.params = p) : RenewalsTimely p s' := by
  by_cases hup : s.upgraded = true
  · simp only [migrateV139, hup, if_true] at hrun
    exact Except.ok.inj hrun ▸ h
  · obtain ⟨s₁, creator, hs₁, -, -, rfl⟩ := migrateV139_eq_ok (Bool.not_eq_true _ ▸ hup) hrun
    obtain ⟨hrenewals, hqueue, -, hexpiry⟩ := migrateRecords_schedules hs₁
    have h₁ : RenewalsTimely p s₁ := h.kept hrenewals (fun key hkey => by rwa [hqueue] at hkey)
      fun a => .inl (hexpiry a)
    obtain ⟨_, _, hframe⟩ := foldl_scheduleRenewal_frame ctx.time s₁.profiles.entries s₁
    have hp₁ : s₁.params = p := by
      rw [← hp, hframe]
    have hdone : RenewalsTimely p (s₁.profiles.entries.foldl (scheduleRenewal ctx.time) s₁) :=
      h₁.foldl_scheduleRenewal ctx.time hp₁
    exact ⟨hdone.named, hdone.early, hdone.expiry⟩

/-- With fixed parameters the renewal states keep to their window. -/
theorem History.renewalsTimely (h : History env (fun s => s.params = p) s t) :
    RenewalsTimely p s := by
  induction h with
  | start t hs => exact hs.renewalsTimely
  | input ctx input _ _ _ hexec hp ih => exact ih.input hexec hp
  | migrate ctx _ _ _ hrun hp ih => exact ih.migrate hrun hp

end Fixed

/-! ## 4. The attempts of a block -/

/-- In the processing of a block that starts in `s`, the attempt for a queue entry takes `s₁` to
`s₂`. -/
def BlockAttempt (env : ChainEnv) (ctx : BlockCtx) (s : ChainState) (key : RenewalKey)
    (s₁ s₂ : ChainState) : Prop :=
  s.upgraded = true ∧ ∃ pinned advanced before after,
    ensureCurationTeamFoundersSubscribed env.toTextRules s = .ok pinned ∧
    onCreator pinned (advanceCreatorClock pinned.params ctx.time) = .ok advanced ∧
    dueRenewals ctx.time advanced = before ++ key :: after ∧
    before.foldlM (attemptRenewalFromQueueKey env.toTextRules ctx) advanced = .ok s₁ ∧
    attemptRenewalFromQueueKey env.toTextRules ctx s₁ key = .ok s₂

/-- An automatic renewal of an account. -/
structure Renewed (p : Params) (ctx : BlockCtx) (owner : Addr) (s₁ s₂ : ChainState) : Prop where
  /-- It charges one period fee. -/
  fee : ∃ tier, p.getTierConfig levelSubscriber = some tier ∧
    s₁.creator.bank.spendable owner = s₂.creator.bank.spendable owner + tier.periodFee
  /-- It sells one period after the later of block time and expiry. -/
  expiry : (s₂.profileOf owner).subscriptionExpiry =
    max ctx.time (s₁.profileOf owner).subscriptionExpiry + p.periodSeconds
  /-- The window is open. -/
  early : (s₁.profileOf owner).subscriptionExpiry - p.renewalWindow ≤ ctx.time
  /-- The new expiry is at most one period and the window ahead. -/
  ahead : (s₂.profileOf owner).subscriptionExpiry ≤
    ctx.time + p.periodSeconds + p.renewalWindow

/-- An attempt that charges nothing and sells nothing. -/
structure Skipped (s₁ s₂ : ChainState) : Prop where
  profiles : s₂.profiles = s₁.profiles
  subs : s₂.subs = s₁.subs
  creator : s₂.creator = s₁.creator

/-- What a purchase by an account for itself does to its records and coins. -/
structure Bought (p : Params) (ctx : BlockCtx) (owner : Addr) (n : ℕ) (s s' : ChainState) :
    Prop where
  profile : ∃ core, s.profiles.get owner = some core ∧ ∃ autoRenew, s'.profiles =
    s.profiles.set owner (core.extended autoRenew
      (max ctx.time core.subscriptionExpiry + p.periodSeconds * n))
  subs : s'.subs = s.resubscribed owner (s.profileOf owner)
    (max ctx.time (s.profileOf owner).subscriptionExpiry + p.periodSeconds * n)
  fee : ∃ tier, p.getTierConfig levelSubscriber = some tier ∧
    s.creator.bank.spendable owner = s'.creator.bank.spendable owner + tier.periodFee * n

section Attempts

variable {env : ChainEnv} {ctx : BlockCtx} {p : Params} {s s' s₁ s₂ : ChainState} {t : ℤ}
  {key : RenewalKey}

theorem createTranche_bought {source : TrancheSource} {n : ℕ}
    (hp : s.params.Sellable) (h : createTranche rules ctx s owner owner source n = .ok s') :
    Bought s.params ctx owner n s s' := by
  obtain ⟨-, hn, core, tr, c, c', s₁, hcore, htr, hc, hs₁, hc', rfl⟩ := createTranche_eq_ok h
  have hoffer := quoteTranche_eq_ok hp hn htr
  have hstop : tr.endTime = max ctx.time core.subscriptionExpiry + s.params.periodSeconds * n := by
    rw [hoffer.stop, hoffer.start, Params.periodSeconds]
  obtain ⟨hprofiles, hsubs, hcreator⟩ := extendSubscription_writes hs₁
  refine ⟨⟨core, hcore, _, hstop ▸ hprofiles⟩, ?_, ?_⟩
  · rw [profileOf_of_get hcore, ← hstop]
    refine hsubs.trans ?_
    simp only [ChainState.resubscribed, dropSubscription_subs]
  · obtain ⟨tier, htier, hfee⟩ := hoffer.fee
    have hpaid := (takeTrancheFee_eq_ok hc).1.debited
    refine ⟨tier, htier, ?_⟩
    rw [← hfee, hpaid]
    have hbank : c'.bank = c.bank := by
      rw [recordTranche_bank hc', hcreator]
    show _ = c'.bank.spendable owner + _
    rw [hbank]

/-- An attempt sells one period to the account of the entry, or does nothing but reschedule. -/
theorem attemptRenewalFromQueueKey_cases (hp : s₁.params.Sellable)
    (h : attemptRenewalFromQueueKey rules ctx s₁ key = .ok s₂) :
    Skipped s₁ s₂ ∨ 0 < (s₁.profileOf key.owner).subscriptionExpiry ∧
      Bought s₁.params ctx key.owner 1 s₁ s₂ := by
  have hrescheduled : Skipped s₁ (replaceSubscriptionRenewalSchedule ctx.time
      { s₁ with renewalQueue := s₁.renewalQueue.erase key } key.owner) :=
    have hsame := replaceSubscriptionRenewalSchedule_same ctx.time
      { s₁ with renewalQueue := s₁.renewalQueue.erase key } key.owner
    ⟨hsame.1, hsame.2.1, hsame.2.2⟩
  unfold attemptRenewalFromQueueKey at h
  dsimp only at h
  split at h
  · obtain rfl := Except.ok.inj h
    exact .inl ⟨rfl, rfl, rfl⟩
  next core hcore =>
    split at h
    · obtain rfl := Except.ok.inj h
      exact .inl hrescheduled
    next hrenew =>
      split at h
      · cases h
      · split at h
        · obtain rfl := Except.ok.inj h
          exact .inl hrescheduled
        · obtain ⟨hprofile, hsubs, hfee⟩ := createTranche_bought
            (s := { s₁ with renewalQueue := s₁.renewalQueue.erase key }) hp h
          refine .inr ⟨?_, hprofile, ?_, hfee⟩
          · rw [profileOf_of_get hcore]
            push Not at hrenew
            exact hrenew.2
          · refine hsubs.trans ?_
            simp only [ChainState.resubscribed, dropSubscription_subs]
            rfl

/-- An attempt leaves the profile and the index entries of other accounts alone. -/
theorem attemptRenewalFromQueueKey_of_ne (hp : s₁.params.Sellable)
    (h : attemptRenewalFromQueueKey rules ctx s₁ key = .ok s₂) {a : Addr} (ha : a ≠ key.owner) :
    s₂.profileOf a = s₁.profileOf a ∧
      ∀ x, s₂.subs.has (toLex (x, a)) = s₁.subs.has (toLex (x, a)) := by
  rcases attemptRenewalFromQueueKey_cases hp h with hskip | ⟨-, hbought⟩
  · rw [ChainState.profileOf, hskip.profiles, hskip.subs]
    exact ⟨rfl, fun _ => rfl⟩
  · obtain ⟨core, hcore, autoRenew, hprofiles⟩ := hbought.profile
    refine ⟨profileOf_of_get_eq ?_, fun x => ?_⟩
    · rw [hprofiles, get_set_of_ne _ ha]
    · rw [Bool.eq_iff_iff, hbought.subs, has_resubscribed]
      simp [ha]

theorem mem_dueRenewals {now : ℤ} (h : key ∈ dueRenewals now s) :
    s.renewalQueue.has key = true ∧ key.attempt ≤ now := by
  obtain ⟨hmem, hdue⟩ := mem_filter.mp (mem_of_mem_take h)
  obtain ⟨⟨k, v⟩, he, rfl⟩ := mem_map.mp (mem_of_mem_take hmem)
  exact ⟨has_iff.mpr ⟨v, mem_entries_iff.mp he⟩, of_decide_eq_true hdue⟩

theorem nodup_dueRenewals (now : ℤ) (s : ChainState) : (dueRenewals now s).Nodup :=
  ((s.renewalQueue.nodup_keys.sublist (take_sublist _ _)).filter _).sublist
    (take_sublist _ _)

/-- The due entries before one of an account are those of other accounts. -/
theorem owner_ne_of_dueRenewals {now : ℤ} {before after : List RenewalKey}
    (hnamed : RenewalsNamed s) (h : dueRenewals now s = before ++ key :: after) :
    (∀ k ∈ before, key.owner ≠ k.owner) ∧ ∀ k ∈ after, key.owner ≠ k.owner := by
  have hnodup := nodup_dueRenewals now s
  rw [h, nodup_append] at hnodup
  obtain ⟨-, hafter, hdisjoint⟩ := hnodup
  have hhas : ∀ k ∈ before ++ key :: after, s.renewalQueue.has k = true :=
    fun k hk => (mem_dueRenewals (h ▸ hk)).1
  have hkey := hhas key (mem_append_right _ mem_cons_self)
  refine ⟨fun k hk heq => ?_, fun k hk heq => ?_⟩
  · have hsame := hnamed.unique hkey (hhas k (mem_append_left _ hk)) heq
    exact hdisjoint k hk key mem_cons_self hsame.symm
  · have hsame := hnamed.unique hkey
      (hhas k (mem_append_right _ (mem_cons_of_mem _ hk))) heq
    exact (nodup_cons.mp hafter).1 (hsame ▸ hk)

theorem ensureCurationTeamFoundersSubscribed_frame
    (h : ensureCurationTeamFoundersSubscribed rules s = .ok s') :
    ∃ curation pinned, s' = { s with curation := curation, foundersPinned := pinned } := by
  unfold ensureCurationTeamFoundersSubscribed at h
  split at h
  · exact ⟨_, _, (Except.ok.inj h).symm⟩
  · simp only [bind_eq_ok, pure_eq_ok] at h
    obtain ⟨r, -, rfl⟩ := h
    exact ⟨_, _, rfl⟩

theorem onCreator_frame {f : CreatorState → Except CoreError CreatorState}
    (h : onCreator s f = .ok s') : ∃ creator, s' = { s with creator := creator } := by
  simp only [onCreator, bind_eq_ok, pure_eq_ok] at h
  obtain ⟨creator, -, rfl⟩ := h
  exact ⟨creator, rfl⟩

/-- Attempts for other accounts leave the profile and the index entries of an account alone. -/
theorem attempts_of_ne {keys : List RenewalKey} {a : Addr} (hp : p.Sellable)
    (hs : s.params = p ∧ RenewalsTimely p s) (hkeys : ∀ k ∈ keys, a ≠ k.owner)
    (h : keys.foldlM (attemptRenewalFromQueueKey env.toTextRules ctx) s = .ok s') :
    (s'.params = p ∧ RenewalsTimely p s') ∧ s'.profileOf a = s.profileOf a ∧
      ∀ x, s'.subs.has (toLex (x, a)) = s.subs.has (toLex (x, a)) := by
  refine foldlM_ok_induction (P := fun s' => (s'.params = p ∧ RenewalsTimely p s') ∧
    s'.profileOf a = s.profileOf a ∧ ∀ x, s'.subs.has (toLex (x, a)) = s.subs.has (toLex (x, a)))
    ?_ h ⟨hs, rfl, fun _ => rfl⟩
  rintro k hk s₁ s₂ hstep ⟨hs₁, hprofile, hsubs⟩
  obtain ⟨hparams, htimely⟩ := (attemptRenewalFromQueueKey_keeps (renewalsTimely_sound env ctx p p)
    ⟨hs₁.1, fun _ => hs₁.2⟩ k).of_eq_ok hstep
  obtain ⟨hprofile', hsubs'⟩ := attemptRenewalFromQueueKey_of_ne (hs₁.1 ▸ hp) hstep (hkeys k hk)
  exact ⟨⟨hparams, htimely rfl⟩, hprofile'.trans hprofile, fun x => (hsubs' x).trans (hsubs x)⟩

/-- Where an attempt of a block starts: the schedules still keep to their window, the account of
the entry has the profile and the index entries of before the block, and the entry is due for the
expiry in the profile. -/
structure AttemptReady (p : Params) (ctx : BlockCtx) (s s₁ : ChainState) (owner : Addr) :
    Prop where
  params : s₁.params = p
  timely : RenewalsTimely p s₁
  profile : s₁.profileOf owner = s.profileOf owner
  subs : ∀ x, s₁.subs.has (toLex (x, owner)) = s.subs.has (toLex (x, owner))
  due : 0 < (s.profileOf owner).subscriptionExpiry →
    (s.profileOf owner).subscriptionExpiry - p.renewalWindow ≤ ctx.time

/-- The entry of an attempt is due before the block. -/
theorem BlockAttempt.due (h : BlockAttempt env ctx s key s₁ s₂) :
    s.renewalQueue.has key = true ∧ key.attempt ≤ ctx.time := by
  obtain ⟨-, pinned, advanced, before, after, hpin, hadvance, hdue, -, -⟩ := h
  obtain ⟨curation, flag, rfl⟩ := ensureCurationTeamFoundersSubscribed_frame hpin
  obtain ⟨creator, rfl⟩ := onCreator_frame hadvance
  have hkey := mem_append_right before (mem_cons_self (a := key) (l := after))
  rw [← hdue] at hkey
  exact mem_dueRenewals hkey

theorem BlockAttempt.ready (hp : p.Sellable) (hs : s.params = p ∧ RenewalsTimely p s)
    (h : BlockAttempt env ctx s key s₁ s₂) : AttemptReady p ctx s s₁ key.owner := by
  obtain ⟨hhas, hattempt⟩ := h.due
  obtain ⟨-, pinned, advanced, before, after, hpin, hadvance, hdue, hbefore, -⟩ := h
  obtain ⟨curation, flag, rfl⟩ := ensureCurationTeamFoundersSubscribed_frame hpin
  obtain ⟨creator, rfl⟩ := onCreator_frame hadvance
  have hs' : s.params = p ∧ RenewalsTimely p { s with
      curation := curation, foundersPinned := flag, creator := creator } :=
    ⟨hs.1, hs.2.kept rfl (fun _ hkey => hkey) fun _ => .inl rfl⟩
  have howners := (owner_ne_of_dueRenewals hs'.2.named hdue).1
  obtain ⟨⟨hparams, htimely⟩, hprofile, hsubs⟩ := attempts_of_ne hp hs' howners hbefore
  refine ⟨hparams, htimely, hprofile, hsubs, fun hpos => ?_⟩
  obtain ⟨st, hst, hname⟩ := hs.2.named key hhas
  have hexpiry := (hs.2.expiry _ st hst).resolve_right (not_le.mpr hpos)
  have hearly := hs.2.early _ st hst
  rw [hname, RenewalState.attempt_key] at hattempt
  rw [hexpiry]
  exact hearly.trans hattempt

/-- A purchase of one period at an open window is a renewal. -/
theorem Bought.renewed (h : Bought p ctx owner 1 s₁ s₂)
    (hearly : (s₁.profileOf owner).subscriptionExpiry - p.renewalWindow ≤ ctx.time) :
    Renewed p ctx owner s₁ s₂ := by
  have hexpiry : (s₂.profileOf owner).subscriptionExpiry =
      max ctx.time (s₁.profileOf owner).subscriptionExpiry + p.periodSeconds := by
    obtain ⟨core, hcore, autoRenew, hprofiles⟩ := h.profile
    rw [ChainState.profileOf, hprofiles, get_set_self, profileOf_of_get hcore]
    simp
  obtain ⟨tier, htier, hfee⟩ := h.fee
  have hwindow : 0 ≤ p.renewalWindow := by
    rw [Params.renewalWindow]
    omega
  refine ⟨⟨tier, htier, by rwa [mul_one] at hfee⟩, hexpiry, hearly, ?_⟩
  rw [hexpiry]
  omega

theorem BlockAttempt.outcome (hp : p.Sellable) (hs : s.params = p ∧ RenewalsTimely p s)
    (h : BlockAttempt env ctx s key s₁ s₂) :
    Skipped s₁ s₂ ∨ Bought p ctx key.owner 1 s₁ s₂ ∧ Renewed p ctx key.owner s₁ s₂ := by
  have hready := h.ready hp hs
  obtain ⟨-, _, _, _, _, -, -, -, -, hattempt⟩ := h
  rcases attemptRenewalFromQueueKey_cases (hready.params ▸ hp) hattempt with hskip | ⟨hpos, hbought⟩
  · exact .inl hskip
  · rw [hready.params] at hbought
    rw [hready.profile] at hpos
    exact .inr ⟨hbought, hbought.renewed (hready.profile ▸ hready.due hpos)⟩

/-- Without schedules there are no attempts. -/
theorem BlockAttempt.scheduled (h : BlockAttempt env ctx s key s₁ s₂) : ¬ Unscheduled s := by
  intro hun
  have hhas := h.due.1
  rw [hun.renewalQueue] at hhas
  cases hhas

theorem History.params_or (h : History env (fun s => s.params = p) s t) :
    Unscheduled s ∨ s.params = p := by
  cases h with
  | start _ hs => exact .inl hs
  | input _ _ _ _ _ _ hp => exact .inr hp
  | migrate _ _ _ _ _ hp => exact .inr hp

theorem History.ready (h : History env (fun s => s.params = p) s t)
    (hattempt : BlockAttempt env ctx s key s₁ s₂) : s.params = p ∧ RenewalsTimely p s :=
  ⟨h.params_or.resolve_left hattempt.scheduled, h.renewalsTimely⟩

end Attempts

/-! ## 5. Renewals of one account -/

/-- The index entries of an account are at the expiry in its profile. -/
def IndexedAtExpiry (s : ChainState) (a : Addr) : Prop :=
  ∀ x, s.subs.has (toLex (x, a)) = true → x = (s.profileOf a).subscriptionExpiry

theorem indexedAtExpiry_of_single {s : ChainState} {a : Addr} {e : ℤ}
    (hentries : s.subs.entries.map Prod.fst = [toLex (e, a)])
    (he : e = (s.profileOf a).subscriptionExpiry) : IndexedAtExpiry s a := by
  intro x hx
  obtain ⟨level, hlevel⟩ := has_iff.mp hx
  have hmem : toLex (x, a) ∈ s.subs.entries.map Prod.fst :=
    mem_map.mpr ⟨_, mem_entries_iff.mpr hlevel, rfl⟩
  rw [hentries, mem_singleton] at hmem
  exact (Prod.mk.inj (toLex.injective hmem)).1.trans he

/-- The subscription of an account reaches to `E`, and no index entry ends it before. -/
structure PaidUntil (p : Params) (a : Addr) (E : ℤ) (s : ChainState) : Prop where
  params : s.params = p
  index : IndexedAtExpiry s a
  reaches : E ≤ (s.profileOf a).subscriptionExpiry

/-- The calls that neither change the parameters nor end or shorten the subscription of an
account ahead of time. -/
def KeeperCall.Spares (p : Params) (a : Addr) (k : KeeperCall) (_ : ChainState) : Prop :=
  match k with
  | updateParams q => q = p
  | govExtend user core _ stop => user = a → core.subscriptionExpiry ≤ stop
  | unsubscribe user => user ≠ a
  | deleteUser target _ => target ≠ a
  | _ => True

section Account

variable {env : ChainEnv} {ctx : BlockCtx} {p : Params} {a : Addr} {E : ℤ} {s s' : ChainState}

theorem Purchased.le (hp : p.Sellable) {user : Addr} {stop : ℤ}
    (h : Purchased ctx p user core stop) : core.subscriptionExpiry ≤ stop := by
  obtain ⟨id, payer, source, n, tr, -, hn, hquote, rfl⟩ := h
  have hoffer := quoteTranche_eq_ok hp hn hquote
  rw [hoffer.stop, hoffer.start]
  have hpos : (0 : ℤ) ≤ p.subscriptionPeriod * 60 * n := by positivity
  have hmax := le_max_right ctx.time core.subscriptionExpiry
  omega

/-- Until the subscription ends, no call but the excluded ones ends or shortens it. -/
theorem KeeperCall.keeps_subscription {k : KeeperCall} (hindex : IndexedAtExpiry s a)
    (hreach : E ≤ (s.profileOf a).subscriptionExpiry) (hvalid : ctx.Valid) (hp : s.params.Sellable)
    (htime : ctx.time < E) (hready : k.Ready ctx s) (hallow : k.Special → ∃ q, k.Spares q a s)
    (h : k.exec env ctx s = .ok s') :
    IndexedAtExpiry s' a ∧ E ≤ (s'.profileOf a).subscriptionExpiry ∧
      ((s.profileOf a).effectivePaid = true → (s'.profileOf a).effectivePaid = true) := by
  have hE : 0 < E := hvalid.time_nonneg.trans_lt htime
  cases k.account_cases hready h a with
  | same hpaid hexpiry hsubs =>
    exact ⟨fun x hx => hexpiry ▸ hindex x (hsubs x ▸ hx), hexpiry ▸ hreach, hpaid.trans⟩
  | @extended _ core autoRenew stop hk hcore _ hprofile hsubs =>
    subst hcore
    have hlater : (s.profileOf a).subscriptionExpiry ≤ stop := by
      rcases hk with rfl | rfl
      · exact hready.2.le hp
      · obtain ⟨_, hspares⟩ := hallow trivial
        exact hspares rfl
    have hnew : (s'.profileOf a).subscriptionExpiry = stop := by
      rw [hprofile, ProfileCore.extended_subscriptionExpiry]
    refine ⟨fun x hx => ?_, hnew ▸ hreach.trans hlater, fun _ => ?_⟩
    · rcases (hsubs x).mp hx with rfl | ⟨hhas, hnot⟩
      · exact hnew.symm
      · exact absurd ⟨hE.trans_le hreach, hindex x hhas⟩ hnot
    · rw [hprofile, ProfileCore.extended_effectivePaid]
  | unsubscribed =>
    obtain ⟨_, hspares⟩ := hallow trivial
    exact absurd rfl hspares
  | @expired x₀ _ _ hdue =>
    -- an entry of the account is at its expiry, which is not reached
    have hexpiry := hindex x₀ hdue
    have hdue : x₀ ≤ ctx.time := hready.2
    omega
  | deleted =>
    obtain ⟨_, hspares⟩ := hallow trivial
    exact absurd rfl hspares

theorem paidUntil_sound (env : ChainEnv) (hvalid : ctx.Valid) (hp : p.Sellable)
    (htime : ctx.time < E) :
    Sound env ctx (PaidUntil p a E) (fun _ => False) (KeeperCall.Spares p a) := by
  refine .of_step (fun _ _ _ => id) fun k s s' hs hready hallow h => ?_
  have hparams : s'.params = p := by
    cases k with
    | updateParams q =>
      obtain rfl := Except.ok.inj h
      exact hallow trivial
    | _ => exact (KeeperCall.params_eq hready (fun _ => by simp) h).trans hs.params
  obtain ⟨hindex, hreach, -⟩ := KeeperCall.keeps_subscription hs.index hs.reaches hvalid
    (hs.params ▸ hp) htime hready (fun hk => ⟨p, hallow hk⟩) h
  exact ⟨hparams, hindex, hreach⟩

variable {key : RenewalKey} {s₁ s₂ : ChainState}

/-- What holds before a block holds before its attempts. -/
theorem BlockAttempt.before {I : ChainState → Prop} {bad : ChainError → Prop}
    {allow : KeeperCall → ChainState → Prop} (hk : Sound env ctx I bad allow)
    (h : BlockAttempt env ctx s key s₁ s₂) (hs : I s) : I s₁ := by
  obtain ⟨-, pinned, advanced, before, after, hpin, hadvance, -, hbefore, -⟩ := h
  have hpinned := (ensureCurationTeamFoundersSubscribed_keeps hk hs).of_eq_ok hpin
  have hadvanced : I advanced := (hk.last hpinned (onCreator_passes _ _)).of_eq_ok hadvance
  exact foldlM_ok_induction (fun k _ _ _ hstep hs =>
    (attemptRenewalFromQueueKey_keeps hk hs k).of_eq_ok hstep) hbefore hadvanced

/-- What holds after an attempt of a block holds after the block. -/
theorem BlockAttempt.after {I : ChainState → Prop} {bad : ChainError → Prop}
    {allow : KeeperCall → ChainState → Prop} (hk : Sound env ctx I bad allow)
    (h : BlockAttempt env ctx s key s₁ s₂) (hs₂ : I s₂)
    (hblock : processBeginBlockV139 env.toTextRules ctx s = .ok s') : I s' := by
  obtain ⟨hup, pinned, advanced, before, after, hpin, hadvance, hdue, hbefore, hattempt⟩ := h
  have hnot : ¬ ¬ s.upgraded = true := not_not.mpr hup
  rw [processBeginBlockV139, if_neg hnot, hpin, ok_bind, hadvance, ok_bind, bind_eq_ok] at hblock
  obtain ⟨s₃, hrenewals, hrest⟩ := hblock
  rw [processEarlyRenewals, hdue, foldlM_append, hbefore, ok_bind, foldlM_cons, hattempt,
    ok_bind] at hrenewals
  have hs₃ : I s₃ := foldlM_ok_induction (fun k _ _ _ hstep hs =>
    (attemptRenewalFromQueueKey_keeps hk hs k).of_eq_ok hstep) hrenewals hs₂
  exact (afterRenewals_keeps hk hs₃).of_eq_ok hrest

/-- The inputs that neither change the parameters nor end or shorten the subscription of an
account. -/
def ChainInput.Spares (p : Params) (a : Addr) (s : ChainState) : ChainInput → Prop
  | gov (.updateParams q) => q = p
  | gov (.setSubscriptionState user subscribed expiry _) => user = a →
      subscribed = true ∧ (s.profileOf a).subscriptionExpiry ≤ expiry
  | relay _ (.deleteUser target) => target ≠ a
  | _ => True

theorem ChainInput.Spares.allowed {input : ChainInput} (h : input.Spares p a s) :
    input.Allowed (KeeperCall.Spares p a) env s := by
  cases input with
  | relay actor msg =>
    cases msg with
    | deleteUser target => exact fun _ _ => h
    | _ => simp [ChainInput.Allowed, RelayMsg.Allowed, KeeperCall.Spares]
  | gov msg =>
    cases msg with
    | updateParams q => exact h
    | setSubscriptionState user subscribed expiry autoRenew =>
      intro core hcore
      cases subscribed with
      | true =>
        rintro rfl
        exact profileOf_of_get hcore ▸ (h rfl).2
      | false =>
        rintro rfl
        exact absurd (h rfl).1 (by decide)
    | _ => simp [ChainInput.Allowed, GovMsg.Allowed, KeeperCall.Spares]
  | _ => trivial

/-- After a renewal the subscription reaches to the new expiry. -/
theorem BlockAttempt.paidUntil (hp : p.Sellable) (hs : s.params = p ∧ RenewalsTimely p s)
    (h : BlockAttempt env ctx s key s₁ s₂) (hrenewed : Renewed p ctx key.owner s₁ s₂)
    (hindex : IndexedAtExpiry s key.owner) :
    PaidUntil p key.owner (s₂.profileOf key.owner).subscriptionExpiry s₂ := by
  have hready := h.ready hp hs
  have hattempt := h
  obtain ⟨-, _, _, _, _, -, -, -, -, hattempt⟩ := hattempt
  rcases attemptRenewalFromQueueKey_cases (hready.params ▸ hp) hattempt with hskip | ⟨hpos, hbought⟩
  · -- a renewal moves the expiry, so it is not skipped
    have hperiod : 0 < p.periodSeconds := by
      have := hp.period_pos
      rw [Params.periodSeconds]
      omega
    have hexpiry := hrenewed.expiry
    have hmax := le_max_right ctx.time (s₁.profileOf key.owner).subscriptionExpiry
    have hsame : s₂.profileOf key.owner = s₁.profileOf key.owner := by
      rw [ChainState.profileOf, hskip.profiles, ChainState.profileOf]
    rw [hsame] at hexpiry
    omega
  · rw [hready.params] at hbought
    have hindex₁ : IndexedAtExpiry s₁ key.owner := fun x hx =>
      hready.profile ▸ hindex x (hready.subs x ▸ hx)
    have hparams₂ : s₂.params = p :=
      ((attemptRenewalFromQueueKey_keeps (renewalsTimely_sound env ctx p p)
        ⟨hready.params, fun _ => hready.timely⟩ key).of_eq_ok hattempt).1
    obtain ⟨core, hcore, autoRenew, hprofiles⟩ := hbought.profile
    refine ⟨hparams₂, fun x hx => ?_, le_rfl⟩
    rw [profileOf_set_self hprofiles, ProfileCore.extended_subscriptionExpiry,
      ← profileOf_of_get hcore]
    rw [hbought.subs, has_resubscribed] at hx
    rcases hx with ⟨-, rfl⟩ | ⟨hhas, hnot⟩
    · rfl
    · exact absurd ⟨rfl, hpos, hindex₁ x hhas⟩ hnot

end Account

/-! ## 6. A subscriber who renews twice -/

/-- The first attempt of a block, with the states before and after it. -/
def firstAttempt (env : ChainEnv) (ctx : BlockCtx) (s : ChainState) :
    Option (RenewalKey × ChainState × ChainState) := do
  let pinned ← (ensureCurationTeamFoundersSubscribed env.toTextRules s).toOption
  let advanced ← (onCreator pinned (advanceCreatorClock pinned.params ctx.time)).toOption
  let key ← (dueRenewals ctx.time advanced).head?
  let after ← (attemptRenewalFromQueueKey env.toTextRules ctx advanced key).toOption
  return (key, advanced, after)

theorem blockAttempt_of_firstAttempt {env : ChainEnv} {ctx : BlockCtx} {s s₂ : ChainState}
    {key : RenewalKey} (hup : s.upgraded = true) (h : firstAttempt env ctx s = some (key, s₁, s₂)) :
    BlockAttempt env ctx s key s₁ s₂ := by
  simp only [firstAttempt, Option.bind_eq_bind, Option.bind_eq_some_iff, toOption_eq_some,
    Option.pure_def, Option.some.injEq, Prod.mk.injEq] at h
  obtain ⟨pinned, hpin, advanced, hadvance, k, hhead, after, hattempt, rfl, rfl, rfl⟩ := h
  obtain ⟨rest, hdue⟩ := List.head?_eq_some_iff.mp hhead
  exact ⟨hup, pinned, advanced, [], rest, hpin, hadvance, hdue, rfl, hattempt⟩

/-- A store from before v1.39.0 with a subscriber who renews automatically and has the coins for
four periods. -/
def subscriberStore : ChainState :=
  { ChainState.fresh ⟨OrderedMap.empty.set 7 400000000000, 0, 0⟩ .empty defaultParams with
    profiles := OrderedMap.empty.set 7 ⟨some 1, levelSubscriber, 2000, true, false, 0⟩
    subs := OrderedMap.empty.set (toLex (2000, 7)) levelSubscriber }

/-- The states around the first attempts of two blocks: before the first block, around its attempt,
after that block, before the second block and around its attempt. -/
structure RenewalTrace where
  start : ChainState
  key : RenewalKey
  s₁ : ChainState
  s₂ : ChainState
  block : ChainState
  handled : ChainState
  key' : RenewalKey
  s₃ : ChainState
  s₄ : ChainState

/-- Migrates `subscriberStore` and runs two blocks, with inputs before and between them. -/
def renewalTrace (before : List (BlockCtx × ChainInput)) (ctx : BlockCtx)
    (between : List (BlockCtx × ChainInput)) (ctx' : BlockCtx) : Option RenewalTrace := do
  let migrated ← (migrateV139 ⟨1000, 1, 0⟩ subscriberStore).toOption
  let start ← runInputs plainEnv.toChainEnv before migrated
  let (key, s₁, s₂) ← firstAttempt plainEnv.toChainEnv ctx start
  let block ← (processBeginBlockV139 plainRules ctx start).toOption
  let handled ← runInputs plainEnv.toChainEnv between block
  let (key', s₃, s₄) ← firstAttempt plainEnv.toChainEnv ctx' handled
  return ⟨start, key, s₁, s₂, block, handled, key', s₃, s₄⟩

namespace RenewalTrace

/-- Expiry and coins of account 7. -/
def subscriber (s : ChainState) : ℤ × ℕ :=
  ((s.profileOf 7).subscriptionExpiry, s.creator.bank.spendable 7)

/-- The account before and after its two attempts. -/
def renewals (tr : RenewalTrace) : List (ℤ × ℕ) :=
  [subscriber tr.s₁, subscriber tr.s₂, subscriber tr.s₃, subscriber tr.s₄]

/-- Both attempts are the account's, under the default parameters, and before them its entry is at
2000. -/
def regular (tr : RenewalTrace) : Bool :=
  tr.start.upgraded && tr.handled.upgraded && tr.start.params = defaultParams &&
    tr.block.params = defaultParams && tr.handled.params = defaultParams &&
    tr.start.subs.entries.map Prod.fst = [toLex (2000, 7)] && tr.key.owner = 7 && tr.key'.owner = 7

/-- An attempt that changes what the account has is a renewal. -/
theorem renewed {p : Params} {env : ChainEnv} {ctx : BlockCtx} {s s₂ : ChainState} {t : ℤ}
    {key : RenewalKey} (hp : p.Sellable) (hhistory : History env (fun s => s.params = p) s t)
    (h : BlockAttempt env ctx s key s₁ s₂) (hne : subscriber s₁ ≠ subscriber s₂) :
    Renewed p ctx key.owner s₁ s₂ := by
  rcases h.outcome hp (hhistory.ready h) with hskip | ⟨-, hdone⟩
  · refine absurd ?_ hne
    rw [subscriber, subscriber, ChainState.profileOf, ChainState.profileOf, hskip.profiles,
      hskip.creator]
  · exact hdone

end RenewalTrace

/-! ## 7. The result -/

/-- Every queue entry is the one its account's renewal state names, so an account has at most one.
With fixed valid parameters an attempt of a block charges nothing, or it renews: one period fee
for one period, and not before the window opens. As long as nothing else ends or shortens the
subscription, what the next renewal sells starts where the period sold before has ended. -/
theorem renewals_charge_once (env : ChainEnv) :
    (∀ s t, History env (fun _ => True) s t → RenewalsNamed s ∧
      ∀ key key', s.renewalQueue.has key = true → s.renewalQueue.has key' = true →
        key.owner = key'.owner → key = key') ∧
    ∀ p : Params, p.validateV139 = .ok () →
      ∀ s t, History env (fun s => s.params = p) s t →
      ∀ ctx : BlockCtx, ctx.Valid → t ≤ ctx.time →
      ∀ key s₁ s₂, BlockAttempt env ctx s key s₁ s₂ →
        (Skipped s₁ s₂ ∨ Renewed p ctx key.owner s₁ s₂) ∧
        (Renewed p ctx key.owner s₁ s₂ → IndexedAtExpiry s key.owner →
          ∀ s', processBeginBlockV139 env.toTextRules ctx s = .ok s' →
          ∀ s'' t'', ChainRun env (fun _ s input => input.Spares p key.owner s) s' ctx.time
            s'' t'' →
          ∀ ctx' : BlockCtx, ctx'.Valid → t'' ≤ ctx'.time →
          ∀ key' s₃ s₄, BlockAttempt env ctx' s'' key' s₃ s₄ → key'.owner = key.owner →
            Renewed p ctx' key.owner s₃ s₄ →
            (s₂.profileOf key.owner).subscriptionExpiry ≤
              max ctx'.time (s₃.profileOf key.owner).subscriptionExpiry) := by
  refine ⟨fun s t h => ⟨h.renewalsNamed, fun _ _ => h.renewalsNamed.unique⟩, ?_⟩
  intro p hvalid s t hhistory ctx hctx _ key s₁ s₂ hattempt
  have hp := Params.sellable_of_validateV139 hvalid
  have hs := hhistory.ready hattempt
  refine ⟨(hattempt.outcome hp hs).imp_right And.right, ?_⟩
  intro hrenewed hindex s' hblock s'' t'' hrun ctx' hctx' ht'' key' s₃ s₄ hattempt' _ _
  rcases le_or_gt (s₂.profileOf key.owner).subscriptionExpiry ctx'.time with hover | hwithin
  · exact hover.trans (le_max_left _ _)
  · -- the subscription reaches over the whole time in between
    have hsound : ∀ c : BlockCtx, c.Valid → c.time ≤ ctx'.time → Sound env c
        (PaidUntil p key.owner (s₂.profileOf key.owner).subscriptionExpiry) (fun _ => False)
        (KeeperCall.Spares p key.owner) :=
      fun c hc hle => paidUntil_sound env hc hp (hle.trans_lt hwithin)
    have hle : ctx.time ≤ ctx'.time := hrun.time_le.trans ht''
    have hpaid' := hattempt.after (hsound ctx hctx hle)
      (hattempt.paidUntil hp hs hrenewed hindex) hblock
    have hpaid'' := hrun.keeps_until (fun c hc hct => hsound c hc (hct.trans ht''))
      (fun _ _ _ => ChainInput.Spares.allowed) hpaid' le_rfl
    have hpaid₃ := hattempt'.before (hsound ctx' hctx' le_rfl) hpaid''
    exact hpaid₃.reaches.trans (le_max_right _ _)

/-- Two renewals with nothing in between but a gift of coins: the second one sells the period that
starts where the first one ends. -/
theorem renewals_charge_once_subscriber :
    ∃ tr : RenewalTrace,
      tr.renewals = [(2000, 400000000000), (2594000, 300000000000), (2594000, 400000000000),
        (5186000, 300000000000)] ∧
      BlockAttempt plainEnv.toChainEnv ⟨1000, 2, 0⟩ tr.start tr.key tr.s₁ tr.s₂ ∧
      Renewed defaultParams ⟨1000, 2, 0⟩ tr.key.owner tr.s₁ tr.s₂ ∧
      BlockAttempt plainEnv.toChainEnv ⟨1989200, 3, 0⟩ tr.handled tr.key' tr.s₃ tr.s₄ ∧
      Renewed defaultParams ⟨1989200, 3, 0⟩ tr.key.owner tr.s₃ tr.s₄ ∧
      (tr.s₂.profileOf tr.key.owner).subscriptionExpiry ≤
        max 1989200 (tr.s₃.profileOf tr.key.owner).subscriptionExpiry := by
  have htrace : (renewalTrace [] ⟨1000, 2, 0⟩
      [(⟨1000, 2, 0⟩, .gov (.mintTokens 7 100000000000))] ⟨1989200, 3, 0⟩).map
        (fun tr => (tr.regular, tr.renewals)) =
      some (true, [(2000, 400000000000), (2594000, 300000000000), (2594000, 400000000000),
        (5186000, 300000000000)]) := by decide +kernel
  obtain ⟨tr, htr, hview⟩ := Option.map_eq_some_iff.mp htrace
  obtain ⟨hregular, hrenewals⟩ := Prod.mk.inj hview
  simp only [RenewalTrace.regular, Bool.and_eq_true, decide_eq_true_eq] at hregular
  obtain ⟨⟨⟨⟨⟨⟨⟨hup, hup'⟩, hparams⟩, hparamsBlock⟩, hparams'⟩, hentry⟩, howner⟩, howner'⟩ :=
    hregular
  have hall := hrenewals
  simp only [RenewalTrace.renewals, List.cons.injEq] at hrenewals
  obtain ⟨h₁, h₂, h₃, h₄, -⟩ := hrenewals
  simp only [renewalTrace, runInputs, Option.pure_def, Option.bind_eq_bind,
    Option.bind_eq_some_iff, toOption_eq_some, Option.some.injEq] at htr
  obtain ⟨migrated, hmigrated, _, rfl, ⟨key, s₁, s₂⟩, hfirst, block, hblock, _,
    ⟨handled, hhandled, rfl⟩, ⟨key', s₃, s₄⟩, hfirst', rfl⟩ := htr
  have hvalid : ∀ n : ℤ, 0 < n → (⟨1000, n, 0⟩ : BlockCtx).Valid :=
    fun n hn => ⟨hn, Int.natCast_nonneg 1000, (by decide : (1000 : ℤ) ≤ maxBlockTime)⟩
  have hhistory : History plainEnv.toChainEnv (fun s => s.params = defaultParams) migrated 1000 :=
    .migrate ⟨1000, 1, 0⟩ (.start 1000 ⟨rfl, rfl⟩) le_rfl (hvalid 1 (by decide)) hmigrated hparams
  have hhistory' := History.input ⟨1000, 2, 0⟩ (.gov (.mintTokens 7 100000000000))
    (.input ⟨1000, 2, 0⟩ .beginBlock hhistory le_rfl (hvalid 2 (by decide)) hblock hparamsBlock)
    le_rfl (hvalid 2 (by decide)) hhandled hparams'
  have hattempt := blockAttempt_of_firstAttempt hup hfirst
  have hattempt' := blockAttempt_of_firstAttempt hup' hfirst'
  have hp : defaultParams.Sellable := Params.sellable_of_validateV139 defaultParams_validateV139
  have hrenewed := RenewalTrace.renewed hp hhistory hattempt (by rw [h₁, h₂]; decide)
  have hrenewed' := RenewalTrace.renewed hp hhistory' hattempt' (by rw [h₃, h₄]; decide)
  have hsame : key'.owner = key.owner := howner'.trans howner.symm
  rw [hsame] at hrenewed'
  have hindex : IndexedAtExpiry migrated key.owner := by
    -- the attempt finds the profile as the migration has left it
    have hprofile := (hattempt.ready hp (hhistory.ready hattempt)).profile
    rw [show key.owner = 7 from howner] at hprofile ⊢
    exact indexedAtExpiry_of_single hentry (hprofile ▸ (Prod.mk.inj h₁).1.symm)
  have hrun : ChainRun plainEnv.toChainEnv
      (fun _ s input => input.Spares defaultParams key.owner s) block 1000 handled 1000 :=
    .step ⟨1000, 2, 0⟩ (.gov (.mintTokens 7 100000000000)) .start le_rfl (hvalid 2 (by decide))
      trivial hhandled
  exact ⟨_, hall, hattempt, hrenewed, hattempt', hrenewed',
    ((renewals_charge_once plainEnv.toChainEnv).2 defaultParams defaultParams_validateV139 migrated
      1000 hhistory ⟨1000, 2, 0⟩ (hvalid 2 (by decide)) le_rfl key s₁ s₂ hattempt).2 hrenewed
      hindex block hblock handled 1000 hrun ⟨1989200, 3, 0⟩ ⟨by decide, by decide, by decide⟩
      (by decide) key' s₃ s₄ hattempt' hsame hrenewed'⟩

/-- Two ways to pay twice. Governance can set the expiry back: the first renewal sells the time
until 2594000 and the next one a period from 3000 on. And an entry that governance leaves in the
index when it ends a subscription ends the next one as well: the account buys again and is renewed
until 5185000, the old entry for 2000 takes that away in the same block, and when the account has
bought once more the next renewal sells a period from 4580200 on. -/
theorem renewals_overlap :
    (renewalTrace [] ⟨1000, 2, 0⟩
        [(⟨1000, 2, 0⟩, .gov (.setSubscriptionState 7 true 3000 true))] ⟨1001, 3, 0⟩).map
      RenewalTrace.renewals = some [(2000, 400000000000), (2594000, 300000000000),
        (3000, 300000000000), (2595000, 200000000000)] ∧
    (renewalTrace [(⟨1000, 1, 0⟩, .gov (.setSubscriptionState 7 false 0 false)),
          (⟨1000, 1, 0⟩, .relay (.user 7 0) (.subscribe none 1 1))] ⟨1988200, 2, 0⟩
        [(⟨1988200, 2, 0⟩, .relay (.user 7 0) (.subscribe none 1 1))] ⟨3975400, 3, 0⟩).map
      RenewalTrace.renewals = some [(2593000, 300000000000), (5185000, 200000000000),
        (4580200, 100000000000), (7172200, 0)] := by
  decide +kernel

end MirageNode
