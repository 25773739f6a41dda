import MirageNode.SubscriptionSpec

/-!
# The renewal queue

An account that may renew has a renewal state and one queue entry, whose key is made of
that state. `RenewalsNamed` says that no other entry is left behind. The lemmas describe
`ReplaceSubscriptionRenewalSchedule` on a queue of that form.
-/

namespace MirageNode

open OrderedStore OrderedMap Fallible

variable {now : ℤ} {s : ChainState} {owner : Addr}

/-- The queue entry that a renewal state names. -/
def RenewalState.key (st : RenewalState) (owner : Addr) : RenewalKey :=
  renewalKey st.nextAttemptUnix owner st.expiry st.generation

@[simp] theorem RenewalState.owner_key (st : RenewalState) (owner : Addr) :
    (st.key owner).owner = owner := rfl

@[simp] theorem RenewalState.attempt_key (st : RenewalState) (owner : Addr) :
    (st.key owner).attempt = st.nextAttemptUnix := rfl

/-- Every queue entry is the one that the renewal state of its account names. -/
def RenewalsNamed (s : ChainState) : Prop :=
  ∀ key, s.renewalQueue.has key = true →
    ∃ st, s.renewals.get key.owner = some st ∧ key = st.key key.owner

theorem RenewalsNamed.unique (h : RenewalsNamed s) {key key' : RenewalKey}
    (hkey : s.renewalQueue.has key = true) (hkey' : s.renewalQueue.has key' = true)
    (howner : key.owner = key'.owner) : key = key' := by
  obtain ⟨st, hst, hk⟩ := h key hkey
  obtain ⟨st', hst', hk'⟩ := h key' hkey'
  obtain rfl : st = st' := Option.some.inj (hst.symm.trans (howner ▸ hst'))
  rw [hk, hk', howner]

/-- Taking an account out of the queue takes all its entries. -/
theorem RenewalsNamed.dequeued (h : RenewalsNamed s) {key : RenewalKey} :
    (s.dequeued owner).has key = true ↔ s.renewalQueue.has key = true ∧ key.owner ≠ owner := by
  unfold ChainState.dequeued
  cases hst : s.renewals.get owner with
  | none =>
    refine ⟨fun hkey => ⟨hkey, ?_⟩, And.left⟩
    rintro rfl
    obtain ⟨st, hst', -⟩ := h key hkey
    exact absurd (hst.symm.trans hst') (Option.some_ne_none st).symm
  | some st =>
    simp only [has_erase, Bool.and_eq_true, Bool.not_eq_true', decide_eq_false_iff_not]
    constructor
    · rintro ⟨hne, hkey⟩
      refine ⟨hkey, ?_⟩
      rintro rfl
      obtain ⟨st', hst', hk⟩ := h key hkey
      obtain rfl : st' = st := Option.some.inj (hst'.symm.trans hst)
      exact hne hk
    · rintro ⟨hkey, hne⟩
      refine ⟨?_, hkey⟩
      rintro rfl
      exact hne rfl

/-! ## Scheduling -/

/-- An account without a subscription is taken out of the schedule. -/
theorem replaceSubscriptionRenewalSchedule_unscheduled (now : ℤ)
    (h : ∀ core, s.profiles.get owner = some core → core.subscriptionExpiry ≤ 0) :
    replaceSubscriptionRenewalSchedule now s owner =
      { s with renewalQueue := s.dequeued owner, renewals := s.renewals.erase owner } := by
  unfold replaceSubscriptionRenewalSchedule
  cases hcore : s.profiles.get owner with
  | none => rfl
  | some core => exact if_pos (h core hcore)

/-- The renewal state that an account with a subscription gets. -/
def ChainState.nextRenewal (s : ChainState) (now : ℤ) (owner : Addr) (expiry : ℤ) : RenewalState :=
  let early : ℤ := expiry - s.params.subscriptionEarlyRenewalDays * 86400
  ⟨expiry, if early < now then now else early, false,
    ((s.renewals.get owner).map RenewalState.generation).getD 0 + 1⟩

theorem replaceSubscriptionRenewalSchedule_scheduled (now : ℤ) {core : ProfileCore}
    (hcore : s.profiles.get owner = some core) (hpos : 0 < core.subscriptionExpiry) :
    replaceSubscriptionRenewalSchedule now s owner =
      { s with
        renewals := s.renewals.set owner (s.nextRenewal now owner core.subscriptionExpiry)
        renewalQueue := (s.dequeued owner).set
          ((s.nextRenewal now owner core.subscriptionExpiry).key owner) () } := by
  unfold replaceSubscriptionRenewalSchedule
  simp only [hcore]
  exact if_neg (not_le.mpr hpos)

theorem RenewalsNamed.replace (h : RenewalsNamed s) (now : ℤ) (owner : Addr) :
    RenewalsNamed (replaceSubscriptionRenewalSchedule now s owner) := by
  by_cases hpos : ∃ core, s.profiles.get owner = some core ∧ 0 < core.subscriptionExpiry
  · obtain ⟨core, hcore, hpos⟩ := hpos
    rw [replaceSubscriptionRenewalSchedule_scheduled now hcore hpos]
    intro key hkey
    rcases has_set_iff.mp hkey with rfl | hkey
    · exact ⟨_, get_set_self _ _ _, rfl⟩
    · obtain ⟨hkey, hne⟩ := h.dequeued.mp hkey
      obtain ⟨st, hst, hk⟩ := h key hkey
      exact ⟨st, (get_set_of_ne _ hne).trans hst, hk⟩
  · push Not at hpos
    rw [replaceSubscriptionRenewalSchedule_unscheduled now hpos]
    intro key hkey
    obtain ⟨hkey, hne⟩ := h.dequeued.mp hkey
    obtain ⟨st, hst, hk⟩ := h key hkey
    exact ⟨st, (get_erase_of_ne hne).trans hst, hk⟩

/-- The queue entries of other accounts stay. -/
theorem RenewalsNamed.has_replace_of_ne (h : RenewalsNamed s) (now : ℤ) {key : RenewalKey}
    (hne : key.owner ≠ owner) :
    (replaceSubscriptionRenewalSchedule now s owner).renewalQueue.has key = true ↔
      s.renewalQueue.has key = true := by
  by_cases hpos : ∃ core, s.profiles.get owner = some core ∧ 0 < core.subscriptionExpiry
  · obtain ⟨core, hcore, hpos⟩ := hpos
    rw [replaceSubscriptionRenewalSchedule_scheduled now hcore hpos, has_set_iff,
      h.dequeued]
    refine ⟨?_, fun hkey => .inr ⟨hkey, hne⟩⟩
    rintro (rfl | ⟨hkey, -⟩)
    · exact absurd rfl hne
    · exact hkey
  · push Not at hpos
    rw [replaceSubscriptionRenewalSchedule_unscheduled now hpos, h.dequeued]
    exact and_iff_left hne

/-- An account with a subscription has the one queue entry that its new state names. -/
theorem RenewalsNamed.has_replace_self (h : RenewalsNamed s) (now : ℤ) {core : ProfileCore}
    (hcore : s.profiles.get owner = some core) (hpos : 0 < core.subscriptionExpiry)
    {key : RenewalKey} (howner : key.owner = owner) :
    (replaceSubscriptionRenewalSchedule now s owner).renewalQueue.has key = true ↔
      key = (s.nextRenewal now owner core.subscriptionExpiry).key owner := by
  rw [replaceSubscriptionRenewalSchedule_scheduled now hcore hpos, has_set_iff,
    h.dequeued]
  exact ⟨fun hkey => hkey.resolve_right fun hkey => hkey.2 howner, .inl⟩

end MirageNode
