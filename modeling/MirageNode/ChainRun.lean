import MirageNode.HandlerCalls
import MirageNode.SubscriptionSpec

/-!
# Blocks and runs

`processBeginBlockV139` makes keeper calls as the handlers do (`beginBlock_keeps`). A run of
the chain is any sequence of messages and block starts that succeed, with coins moving
elsewhere in between (`ChainRun`). An invariant that the keeper calls keep holds in every
state of a run, and no input after it returns an excluded error (`ChainRun.keeps`,
`ChainRun.avoids`).
-/

namespace MirageNode

open OrderedStore OrderedMap Fallible

/-! ## 1. The start of a block -/

variable {s s₀ : ChainState} {t₀ t : ℤ}

section BeginBlock

variable {env : ChainEnv} {ctx : BlockCtx} {I : ChainState → Prop} {bad : ChainError → Prop}
  {allow : KeeperCall → ChainState → Prop} (hk : Sound env ctx I bad allow)

include hk

omit hk in
/-- An error that a caller has put into its own context. -/
theorem Keeps.wrapped {call : CurationCall} {wrap : ChainError → ChainError}
    (hwrap : ∀ e, bad (wrap e) → bad e)
    (hcall : Keeps I bad ((KeeperCall.curate call).exec env ctx s)) :
    Ensures ((call.exec env ctx s).mapError wrap) (fun c => I { s with curation := c })
      (fun e => ¬ bad e) := by
  have hexec : (KeeperCall.curate call).exec env ctx s =
      call.exec env ctx s >>= fun c => .ok { s with curation := c } := rfl
  rw [hexec] at hcall
  cases hrun : call.exec env ctx s with
  | ok c =>
    rw [hrun] at hcall
    exact hcall
  | error e =>
    rw [hrun] at hcall
    exact mt (hwrap e) hcall

/-- Pinning the founders joins each of them to their community and sets the preference. -/
theorem pinFounders_keeps {teams : List CurationTeam} (hs : I s) :
    Ensures (pinFounders env.toTextRules s.params s.profiles s.curation teams)
      (fun r => I { s with curation := r.1 }) (fun e => ¬ bad e) := by
  induction teams generalizing s with
  | nil => exact hs
  | cons team rest ih =>
    unfold pinFounders
    cases hcore : s.profiles.get team.owner with
    | none => exact hs
    | some core =>
      dsimp only
      split
      · exact hs
      next hcan =>
      split
      · exact mt (hk.serious _) id
      next tier _ =>
      have hjoin := Keeps.wrapped (hk.founderJoin team.owner team.community)
        (hk.plain (.curate (.join team.owner team.community (uint32 tier.maxJoinedCommunities)))
          hs trivial id)
      refine hjoin.bind fun c hc => ?_
      have hpin := Keeps.wrapped (hk.founderPin team.owner team.community team.teamId)
        (hk.plain (.curate (.prefer team.owner core team.community 1 team.teamId)) hc hcore id)
      have hpaid : canCurate core = true := not_not.mp hcan
      simp only [CurationCall.exec, hpaid] at hpin
      exact hpin.bind fun c' hc' => ih hc'

theorem ensureCurationTeamFoundersSubscribed_keeps (hs : I s) :
    Keeps I bad (ensureCurationTeamFoundersSubscribed env.toTextRules s) := by
  unfold ensureCurationTeamFoundersSubscribed
  split
  · exact hs
  · next hopen =>
    exact (pinFounders_keeps hk hs).bind fun r hr => hk.other hr
      ⟨rfl, rfl, rfl, rfl, rfl, rfl, rfl, rfl, rfl, fun hpinned => absurd hpinned hopen⟩

theorem attemptRenewalFromQueueKey_keeps (hs : I s) (key : RenewalKey) :
    Keeps I bad (attemptRenewalFromQueueKey env.toTextRules ctx s key) := by
  have hdequeued : I { s with renewalQueue := s.renewalQueue.erase key } :=
    hk.plain (.dequeue key) hs trivial id
  have hrescheduled : Keeps I bad (.ok (replaceSubscriptionRenewalSchedule ctx.time
      { s with renewalQueue := s.renewalQueue.erase key } key.owner)) :=
    hk.plain (.reschedule key) hs trivial id
  unfold attemptRenewalFromQueueKey
  dsimp only
  split
  · exact hdequeued
  · split
    · exact hrescheduled
    · split
      · exact hk.error id
      · split
        · exact hrescheduled
        · exact createTranche_keeps hk hdequeued

theorem processEarlyRenewals_keeps (hs : I s) :
    Keeps I bad (processEarlyRenewals env.toTextRules ctx s) :=
  Ensures.foldlM (I := fun _ => I)
    (fun key _ _ hs₁ => attemptRenewalFromQueueKey_keeps hk hs₁ key) hs

theorem processSubscriptionExpiries_keeps (hs : I s) :
    Keeps I bad (processSubscriptionExpiries env.toTextRules ctx s) := by
  have hscan : Quiet (getExpiredSubscriptions ctx.time s) :=
    (Avoids.failIf fun _ => id).bind fun _ _ =>
      (Avoids.mapError fun _ _ => id).bind fun _ _ => .ok _
  refine hk.read hscan fun expired hexpired => ?_
  simp only [getExpiredSubscriptions, bind_eq_ok, failIf_eq_ok, exists_const, mapError_eq_ok,
    pure_eq_ok] at hexpired
  obtain ⟨-, -, -, rfl⟩ := hexpired
  -- what is still to come is in the index, as the entries before it were others
  have hloop : ∀ (subs : List (ℤ × Addr)) (s₁ : ChainState), subs.Nodup →
      (∀ sub ∈ subs, s₁.subs.has (toLex sub) = true ∧ sub.1 ≤ ctx.time) → I s₁ →
      Keeps I bad (subs.foldlM (expireSubscription env.toTextRules ctx) s₁) := by
    intro subs
    induction subs with
    | nil => exact fun s₁ _ _ hs₁ => hs₁
    | cons sub subs ih =>
      intro s₁ hnodup hin hs₁
      obtain ⟨hnot, hnodup⟩ := List.nodup_cons.mp hnodup
      rw [List.foldlM_cons]
      refine (hk.plain (.expire sub) hs₁ (hin sub List.mem_cons_self) id).bind
        fun s₂ hs₂eq hs₂ => ?_
      obtain ⟨-, -, -, hsubs, -⟩ := deactivatePaidState_writes hs₂eq
      refine ih s₂ hnodup (fun sub' hsub' => ?_) hs₂
      obtain ⟨hhas, hle⟩ := hin sub' (List.mem_cons_of_mem sub hsub')
      have hne : toLex sub' ≠ toLex sub := fun h => hnot (toLex_inj.mp h ▸ hsub')
      refine ⟨?_, hle⟩
      rw [hsubs, removeSubscription, has_erase, hhas]
      simpa using hne
  have hkeys : (s.subs.entries.map fun e => ofLex e.1).Nodup := by
    have h := s.subs.nodup_keys.map (f := ofLex) ofLex.injective
    rwa [List.map_map] at h
  refine hloop _ s (((hkeys.filter _).sublist (List.take_sublist _ _))) (fun sub hsub => ?_) hs
  obtain ⟨hmem, hle⟩ := List.mem_filter.mp (List.mem_of_mem_take hsub)
  obtain ⟨⟨k, level⟩, he, rfl⟩ := List.mem_map.mp hmem
  exact ⟨has_iff.mpr ⟨level, mem_entries_iff.mp he⟩, by simpa using hle⟩

/-- The part of a block after the renewals. -/
theorem afterRenewals_keeps (hs : I s) :
    Keeps I bad (processSubscriptionExpiries env.toTextRules ctx s >>= fun s =>
      onCreator s (processCreatorSettlement s.params ctx.time) >>= fun s =>
      onCreator s (processCreatorExpiries s.params ctx.time) >>= fun s =>
      onCreator s (processCreatorPruning s.params)) := by
  exact (processSubscriptionExpiries_keeps hk hs).bind fun s₄ _ hs₄ =>
    hk.pass hs₄ (onCreator_passes _ _) fun s₅ _ hs₅ =>
    hk.pass hs₅ (onCreator_passes _ _) fun s₆ _ hs₆ => hk.last hs₆ (onCreator_passes _ _)

theorem beginBlock_keeps (hs : I s) :
    Keeps I bad (processBeginBlockV139 env.toTextRules ctx s) := by
  unfold processBeginBlockV139
  split
  · exact hs
  refine (ensureCurationTeamFoundersSubscribed_keeps hk hs).bind fun s₁ _ hs₁ => ?_
  refine hk.pass hs₁ (onCreator_passes _ _) fun s₂ _ hs₂ => ?_
  exact (processEarlyRenewals_keeps hk hs₂).bind fun s₃ _ hs₃ => afterRenewals_keeps hk hs₃

end BeginBlock

/-! ## 2. Runs -/

/-- What can happen to the chain. `transfer` stands for coins that move elsewhere. -/
inductive ChainInput where
  | relay (actor : Actor) (msg : RelayMsg)
  | gov (msg : GovMsg)
  | beginBlock
  | transfer (bank : Bank) (locked : OrderedMap Addr ℕ)

/-- Handles an input in a block. -/
def ChainInput.exec (env : ChainEnv) (ctx : BlockCtx) (s : ChainState) :
    ChainInput → Except ChainError ChainState
  | relay actor msg => msg.exec env ctx s actor
  | gov msg => msg.exec env ctx s
  | beginBlock => processBeginBlockV139 env.toTextRules ctx s
  | transfer bank locked =>
    .ok { s with creator := { s.creator with bank := bank }, locked := locked }

/-- The last second that a block time can name. -/
def maxBlockTime : ℤ := 253402300799

/-- A block that consensus can produce: blocks are numbered from one, and block times lie
in the range of a timestamp. -/
structure BlockCtx.Valid (ctx : BlockCtx) : Prop where
  height : 0 < ctx.height
  time_nonneg : 0 ≤ ctx.time
  time_le : ctx.time ≤ maxBlockTime

/-- The states that successful inputs lead to from a store at a time, and the time of the
last block. Every input meets the condition `cond`. -/
inductive ChainRun (env : ChainEnv) (cond : BlockCtx → ChainState → ChainInput → Prop)
    (s₀ : ChainState) (t₀ : ℤ) : ChainState → ℤ → Prop
  | start : ChainRun env cond s₀ t₀ s₀ t₀
  | step {s s' : ChainState} {t : ℤ} (ctx : BlockCtx) (input : ChainInput) :
      ChainRun env cond s₀ t₀ s t → t ≤ ctx.time → ctx.Valid → cond ctx s input →
      input.exec env ctx s = .ok s' → ChainRun env cond s₀ t₀ s' ctx.time

instance BlockCtx.decidableValid (ctx : BlockCtx) : Decidable ctx.Valid :=
  decidable_of_iff (0 < ctx.height ∧ 0 ≤ ctx.time ∧ ctx.time ≤ maxBlockTime)
    ⟨fun h => ⟨h.1, h.2.1, h.2.2⟩, fun h => ⟨h.height, h.time_nonneg, h.time_le⟩⟩

/-- Runs inputs in their blocks, one after the other. -/
def runInputs (env : ChainEnv) : List (BlockCtx × ChainInput) → ChainState → Option ChainState
  | [], s => some s
  | (ctx, input) :: rest, s => (input.exec env ctx s).toOption.bind (runInputs env rest)

/-- Inputs that all succeed, in valid blocks whose times do not decrease, extend a run. -/
theorem ChainRun.append {env : ChainEnv} {cond : BlockCtx → ChainState → ChainInput → Prop}
    {s₀ : ChainState} {t₀ : ℤ} (inputs : List (BlockCtx × ChainInput)) {s s' : ChainState} {t : ℤ}
    (hrun : ChainRun env cond s₀ t₀ s t) (h : runInputs env inputs s = some s')
    (hvalid : ∀ e ∈ inputs, e.1.Valid)
    (htimes : (t :: inputs.map fun e => e.1.time).IsChain (· ≤ ·))
    (hcond : ∀ e ∈ inputs, ∀ s, cond e.1 s e.2) :
    ChainRun env cond s₀ t₀ s' (inputs.foldl (fun _ e => e.1.time) t) := by
  induction inputs generalizing s t with
  | nil =>
    obtain rfl := Option.some.inj h
    exact hrun
  | cons e rest ih =>
    obtain ⟨next, hnext, hrest⟩ := Option.bind_eq_some_iff.mp h
    rw [List.forall_mem_cons] at hvalid hcond
    obtain ⟨hle, htimes⟩ := List.isChain_cons_cons.mp htimes
    exact ih (.step e.1 e.2 hrun hle hvalid.1 (hcond.1 s) (toOption_eq_some.mp hnext)) hrest
      hvalid.2 htimes hcond.2

/-- The condition on the special calls of an input. -/
def ChainInput.Allowed (allow : KeeperCall → ChainState → Prop) (env : ChainEnv) (s : ChainState) :
    ChainInput → Prop
  | relay actor msg => msg.Allowed allow env s actor
  | gov msg => msg.Allowed allow s
  | _ => True

/-- A condition that every call meets. -/
theorem ChainInput.allowed_of_forall {env : ChainEnv} {allow : KeeperCall → ChainState → Prop}
    (h : ∀ k s, allow k s) (input : ChainInput) : input.Allowed allow env s := by
  cases input with
  | relay actor msg => cases msg <;> simp [ChainInput.Allowed, RelayMsg.Allowed, h]
  | gov msg => cases msg <;> simp [ChainInput.Allowed, GovMsg.Allowed, h]
  | _ => trivial

theorem ChainInput.Allowed.mono {env : ChainEnv} {allow allow' : KeeperCall → ChainState → Prop}
    (h : ∀ k s, allow k s → allow' k s) {input : ChainInput} (hin : input.Allowed allow env s) :
    input.Allowed allow' env s := by
  cases input with
  | relay actor msg => cases msg <;> grind [ChainInput.Allowed, RelayMsg.Allowed]
  | gov msg => cases msg <;> grind [ChainInput.Allowed, GovMsg.Allowed]
  | _ => trivial

section Run

variable {env : ChainEnv} {I : ChainState → Prop} {bad : ChainError → Prop}
  {allow : KeeperCall → ChainState → Prop} {cond : BlockCtx → ChainState → ChainInput → Prop}

theorem ChainInput.keeps {ctx : BlockCtx} (hk : Sound env ctx I bad allow)
    (hs : I s) {input : ChainInput} (hallow : input.Allowed allow env s) :
    Keeps I bad (input.exec env ctx s) := by
  cases input with
  | relay actor msg => exact RelayMsg.keeps hk hs hallow
  | gov msg => exact GovMsg.keeps hk hs hallow
  | beginBlock => exact beginBlock_keeps hk hs
  | transfer bank locked => exact hk.other hs ⟨rfl, rfl, rfl, rfl, rfl, rfl, rfl, rfl, rfl, id⟩

theorem ChainRun.time_le (hrun : ChainRun env cond s₀ t₀ s t) : t₀ ≤ t := by
  induction hrun with
  | start => exact le_rfl
  | step _ _ _ hle _ _ _ ih => exact ih.trans hle

/-- What the keeper calls keep until some time holds in every state of a run until then. -/
theorem ChainRun.keeps_until {T : ℤ}
    (hk : ∀ ctx : BlockCtx, ctx.Valid → ctx.time ≤ T → Sound env ctx I bad allow)
    (hcond : ∀ ctx s input, cond ctx s input → input.Allowed allow env s) (hs₀ : I s₀)
    (hrun : ChainRun env cond s₀ t₀ s t) (ht : t ≤ T) : I s := by
  induction hrun with
  | start => exact hs₀
  | step ctx input _ hle hvalid hc hexec ih =>
    exact (ChainInput.keeps (hk ctx hvalid ht) (ih (hle.trans ht))
      (hcond ctx _ input hc)).of_eq_ok hexec

/-- What the keeper calls keep holds in every state of a run. -/
theorem ChainRun.keeps (hk : ∀ ctx : BlockCtx, ctx.Valid → Sound env ctx I bad allow)
    (hcond : ∀ ctx s input, cond ctx s input → input.Allowed allow env s) (hs₀ : I s₀)
    (hrun : ChainRun env cond s₀ t₀ s t) : I s :=
  hrun.keeps_until (fun ctx hvalid _ => hk ctx hvalid) hcond hs₀ le_rfl

/-- No input after a run returns an excluded error. -/
theorem ChainRun.avoids (hk : ∀ ctx : BlockCtx, ctx.Valid → Sound env ctx I bad allow)
    (hcond : ∀ ctx s input, cond ctx s input → input.Allowed allow env s) (hs₀ : I s₀)
    (hrun : ChainRun env cond s₀ t₀ s t) {ctx : BlockCtx} (hvalid : ctx.Valid) {input : ChainInput}
    (hc : cond ctx s input) : Avoids bad (input.exec env ctx s) := by
  intro e he
  have hkeeps := ChainInput.keeps (hk ctx hvalid) (hrun.keeps hk hcond hs₀) (hcond ctx s input hc)
  rw [he] at hkeeps
  exact hkeeps

end Run

end MirageNode
