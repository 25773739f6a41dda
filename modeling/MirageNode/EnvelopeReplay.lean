import MirageNode.RelayAuth

/-!
# Envelope replay

Runs of blocks with any transactions and any values of `max_envelope_age`. A nonce
record is pruned five minutes after the timestamp it guards has gone stale under the
limit that was in force when it was written. A later limit may be larger: then a message
whose record is gone can pass the timestamp check again (`raised_limit_replays`). In a
run that never revives a pruned message so, no message is admitted while an earlier one
with its public key and nonce is still timely (`envelope_admitted_once`); this covers all
runs whose limits never exceed an earlier one by 300 seconds (`guarded_of_limits`).
-/

namespace MirageNode

open TaggedFields Fallible Finset

/-- The relay messages of a transaction, and whether the decorators behind
`RelaySigDecorator` let it pass. -/
structure RelayTx where
  msgs : List RelayMessage.OnChain
  admitted : Bool

/-- A block with the limit in force while its transactions run. -/
structure EnvelopeBlock where
  time : ℤ
  maxEnvelopeAge : UInt64
  txs : List RelayTx

/-- A user's message that passed the ante chain. -/
structure Accepted where
  time : ℤ
  maxAge : UInt64
  msg : RelayMessage.OnChain

/-- The nonce records, the time of the last finished block and the messages admitted so
far, newest first. -/
structure EnvelopeChain where
  store : NonceStore
  lastTime : ℤ
  log : List Accepted

section runs

variable (crypto : RelayCrypto)

/-- The key of a message's nonce record. -/
def Accepted.key (a : Accepted) : Bytes × UInt64 :=
  (crypto.pubHash a.msg.env.pubkey, a.msg.env.nonce)

def Accepted.expiry (a : Accepted) : ℤ := recordExpiry a.time a.maxAge a.msg.env.timestamp

/-- Notes a message of a user. -/
def EnvelopeBlock.note (b : EnvelopeBlock) (log : List Accepted) (m : RelayMessage.OnChain) :
    List Accepted :=
  if m.env.authority = crypto.govAuthority then log else ⟨b.time, b.maxEnvelopeAge, m⟩ :: log

/-- A transaction. When its ante chain fails, none of its writes stay. -/
def EnvelopeChain.deliver (b : EnvelopeBlock) (c : EnvelopeChain) (tx : RelayTx) : EnvelopeChain :=
  match relaySig crypto b.time b.maxEnvelopeAge c.store tx.msgs with
  | .ok store =>
    if tx.admitted then { c with store, log := tx.msgs.foldl (b.note crypto) c.log } else c
  | .error _ => c

/-- The transactions of a block, then `PruneExpiredNonces` in `EndBlock`. -/
def EnvelopeChain.block (c : EnvelopeChain) (b : EnvelopeBlock) :
    Except EnvelopeError EnvelopeChain := do
  let c := b.txs.foldl (EnvelopeChain.deliver crypto b) c
  let store ← c.store.prune (unixSeconds b.time)
  return { c with store, lastTime := b.time }

/-- Before the first block. -/
def EnvelopeChain.genesis (time : ℤ) : EnvelopeChain := ⟨⟨∅, ∅⟩, time, []⟩

def EnvelopeChain.run (c : EnvelopeChain) (blocks : List EnvelopeBlock) :
    Except EnvelopeError EnvelopeChain :=
  blocks.foldlM (EnvelopeChain.block crypto) c

/-! ## The guarantee and its condition -/

/-- No admitted message has the public key and nonce of an earlier one that is still
timely when it is admitted. -/
def Protected (log : List Accepted) : Prop :=
  log.Pairwise fun later earlier =>
    earlier.msg.env.pubkey = later.msg.env.pubkey → earlier.msg.env.nonce = later.msg.env.nonce →
      ¬ Timely later.time later.maxAge earlier.msg.env.timestamp

/-- The block's limit does not let a message pass whose nonce record has been pruned. -/
def EnvelopeBlock.RevivesNone (b : EnvelopeBlock) (c : EnvelopeChain) : Prop :=
  ∀ a ∈ c.log, a.expiry ≤ unixSeconds c.lastTime →
    ¬ Timely b.time b.maxEnvelopeAge a.msg.env.timestamp

/-- Block times do not decrease. -/
def TimesFrom : ℤ → List EnvelopeBlock → Prop
  | _, [] => True
  | t, b :: bs => t ≤ b.time ∧ TimesFrom b.time bs

/-- Every block of the run meets `RevivesNone` in the state it finds. -/
def Guarded : EnvelopeChain → List EnvelopeBlock → Prop
  | _, [] => True
  | c, b :: bs => b.RevivesNone c ∧ ∀ c', c.block crypto b = .ok c' → Guarded c' bs

/-! ## The records follow the log -/

/-- Every admitted message is recorded with its expiry, or its record was due by `until_`;
the index names used nonces, each once. -/
structure Tracked (store : NonceStore) (log : List Accepted) (until_ : ℤ) : Prop where
  recorded : ∀ a ∈ log,
    (a.expiry, a.key crypto) ∈ store.expiries ∨ a.expiry ≤ unixSeconds until_
  indexed : ∀ e k, (e, k) ∈ store.expiries → k ∈ store.used
  single : ∀ e e' k, (e, k) ∈ store.expiries → (e', k) ∈ store.expiries → e = e'
  timely : ∀ a ∈ log, Timely a.time a.maxAge a.msg.env.timestamp

variable {crypto}

theorem Tracked.genesis (time : ℤ) : Tracked crypto ⟨∅, ∅⟩ [] time where
  recorded := by simp
  indexed := by simp
  single := by simp
  timely := by simp

/-- A record outlives the block that wrote it. -/
theorem lt_recordExpiry {blockTime : ℤ} {maxAge timestamp : UInt64} :
    unixSeconds blockTime < recordExpiry blockTime maxAge timestamp := by
  have hage : (0 : ℤ) ≤ maxAge.toNat := Int.natCast_nonneg _
  simp only [recordExpiry, unixSeconds, second, millisecond]
  omega

section step

variable {b : EnvelopeBlock} {store store' : NonceStore} {log : List Accepted} {until_ : ℤ}
  {m : RelayMessage.OnChain}

/-- What holds while the transactions of a block run: the pruned messages stay stale. -/
structure InBlock (crypto : RelayCrypto) (b : EnvelopeBlock) (until_ : ℤ) (store : NonceStore)
    (log : List Accepted) : Prop where
  tracked : Tracked crypto store log until_
  revivesNone : ∀ a ∈ log, a.expiry ≤ unixSeconds until_ →
    ¬ Timely b.time b.maxEnvelopeAge a.msg.env.timestamp
  safe : Protected log

theorem InBlock.note (hle : until_ ≤ b.time) (hin : InBlock crypto b until_ store log)
    (h : authEnvelope crypto b.time b.maxEnvelopeAge store m = .ok store') :
    InBlock crypto b until_ store' (b.note crypto log m) := by
  by_cases hgov : m.env.authority = crypto.govAuthority
  · rw [authEnvelope_gov h hgov, EnvelopeBlock.note, if_pos hgov]
    exact hin
  obtain ⟨htimely, -, hfresh, -, rfl⟩ := authEnvelope_eq_ok h hgov
  rw [EnvelopeBlock.note, if_neg hgov]
  have hunused : (crypto.pubHash m.env.pubkey, m.env.nonce) ∉ store.used := hfresh
  have hunlisted : ∀ e, (e, crypto.pubHash m.env.pubkey, m.env.nonce) ∉ store.expiries :=
    fun e he => hunused (hin.tracked.indexed e _ he)
  refine ⟨⟨?_, ?_, ?_, ?_⟩, ?_, ?_⟩
  · intro a ha
    rcases List.mem_cons.mp ha with rfl | ha
    · exact Or.inl (mem_insert_self _ _)
    · exact (hin.tracked.recorded a ha).imp_left (mem_insert_of_mem ·)
  · intro e k he
    rcases mem_insert.mp he with heq | he
    · rw [(Prod.mk.inj heq).2]
      exact mem_insert_self _ _
    · exact mem_insert_of_mem (hin.tracked.indexed e k he)
  · intro e e' k he he'
    rcases mem_insert.mp he with heq | he <;> rcases mem_insert.mp he' with heq' | he'
    · rw [(Prod.mk.inj heq).1, (Prod.mk.inj heq').1]
    · rw [(Prod.mk.inj heq).2] at he'
      exact absurd he' (hunlisted e')
    · rw [(Prod.mk.inj heq').2] at he
      exact absurd he (hunlisted e)
    · exact hin.tracked.single e e' k he he'
  · intro a ha
    rcases List.mem_cons.mp ha with rfl | ha
    · exact htimely
    · exact hin.tracked.timely a ha
  · intro a ha hdue
    rcases List.mem_cons.mp ha with rfl | ha
    · -- A record written in this block is not due yet.
      have hlt : unixSeconds b.time < recordExpiry b.time b.maxEnvelopeAge m.env.timestamp :=
        lt_recordExpiry
      have hmono : unixSeconds until_ ≤ unixSeconds b.time := Int.ediv_le_ediv (by decide) hle
      exact absurd (hdue.trans hmono) (not_le.mpr hlt)
    · exact hin.revivesNone a ha hdue
  · refine List.pairwise_cons.mpr ⟨?_, hin.safe⟩
    intro a ha hkey hnonce
    -- The nonce is not recorded, so the earlier message's record has been pruned.
    rcases hin.tracked.recorded a ha with hlisted | hdue
    · rw [Accepted.key, hkey, hnonce] at hlisted
      exact absurd hlisted (hunlisted a.expiry)
    · exact hin.revivesNone a ha hdue

theorem InBlock.relaySig {msgs : List RelayMessage.OnChain} (hle : until_ ≤ b.time)
    (hin : InBlock crypto b until_ store log)
    (h : MirageNode.relaySig crypto b.time b.maxEnvelopeAge store msgs = .ok store') :
    InBlock crypto b until_ store' (msgs.foldl (b.note crypto) log) := by
  induction msgs generalizing store log with
  | nil =>
    cases h
    exact hin
  | cons m msgs ih =>
    rw [MirageNode.relaySig, List.foldlM_cons, bind_eq_ok] at h
    obtain ⟨mid, hm, hrest⟩ := h
    exact ih (hin.note hle hm) hrest

theorem InBlock.deliver {c : EnvelopeChain} {tx : RelayTx} (hle : until_ ≤ b.time)
    (hin : InBlock crypto b until_ c.store c.log) :
    InBlock crypto b until_ (c.deliver crypto b tx).store (c.deliver crypto b tx).log := by
  unfold EnvelopeChain.deliver
  split
  · rename_i mid hmid
    split
    · exact hin.relaySig hle hmid
    · exact hin
  · exact hin

theorem InBlock.txs {txs : List RelayTx} {c : EnvelopeChain} (hle : until_ ≤ b.time)
    (hin : InBlock crypto b until_ c.store c.log) :
    InBlock crypto b until_ (txs.foldl (EnvelopeChain.deliver crypto b) c).store
      (txs.foldl (EnvelopeChain.deliver crypto b) c).log := by
  induction txs generalizing c with
  | nil => exact hin
  | cons tx txs ih => exact ih (hin.deliver hle)

/-- Pruning removes the records that are due, and no other. -/
theorem Tracked.prune {now : ℤ} (ht : Tracked crypto store log until_) (hle : until_ ≤ now)
    (h : store.prune (unixSeconds now) = .ok store') : Tracked crypto store' log now := by
  rw [NonceStore.prune_eq_ok h]
  have hmono : unixSeconds until_ ≤ unixSeconds now := Int.ediv_le_ediv (by decide) hle
  refine ⟨fun a ha => ?_, fun e k he => ?_, fun e e' k he he' => ?_, ht.timely⟩
  · rcases ht.recorded a ha with hlisted | hdue
    · by_cases hnow : a.expiry ≤ unixSeconds now
      · exact Or.inr hnow
      · refine Or.inl (mem_sdiff.mpr ⟨hlisted, fun hdel => ?_⟩)
        exact hnow (mem_filter.mp hdel).2
    · exact Or.inr (hdue.trans hmono)
  · obtain ⟨hlisted, hkept⟩ := mem_sdiff.mp he
    refine mem_sdiff.mpr ⟨ht.indexed e k hlisted, fun hdel => hkept ?_⟩
    -- The only index entry of the nonce is the one that was kept.
    obtain ⟨⟨e', k'⟩, hdue, rfl⟩ := mem_image.mp hdel
    rw [ht.single e e' k' hlisted (mem_filter.mp hdue).1]
    exact hdue
  · exact ht.single e e' k (mem_sdiff.mp he).1 (mem_sdiff.mp he').1

end step

theorem EnvelopeChain.block_eq_ok {c c' : EnvelopeChain} {b : EnvelopeBlock}
    (h : c.block crypto b = .ok c') :
    (b.txs.foldl (EnvelopeChain.deliver crypto b) c).store.prune (unixSeconds b.time) =
      .ok c'.store ∧
      c'.log = (b.txs.foldl (EnvelopeChain.deliver crypto b) c).log ∧ c'.lastTime = b.time := by
  simp only [EnvelopeChain.block, bind_eq_ok, pure_eq_ok] at h
  obtain ⟨store, hprune, rfl⟩ := h
  exact ⟨hprune, rfl, rfl⟩

/-- One block keeps the records and the guarantee. -/
theorem Tracked.block {c c' : EnvelopeChain} {b : EnvelopeBlock}
    (ht : Tracked crypto c.store c.log c.lastTime) (hsafe : Protected c.log)
    (htime : c.lastTime ≤ b.time) (hrevives : b.RevivesNone c) (h : c.block crypto b = .ok c') :
    Tracked crypto c'.store c'.log c'.lastTime ∧ Protected c'.log := by
  obtain ⟨hprune, hlog, hlast⟩ := EnvelopeChain.block_eq_ok h
  have hin : InBlock crypto b c.lastTime c.store c.log := ⟨ht, hrevives, hsafe⟩
  have hend : InBlock crypto b c.lastTime (b.txs.foldl (EnvelopeChain.deliver crypto b) c).store
      (b.txs.foldl (EnvelopeChain.deliver crypto b) c).log := hin.txs htime
  rw [hlog, hlast]
  exact ⟨hend.tracked.prune htime hprune, hend.safe⟩

theorem Tracked.run {blocks : List EnvelopeBlock} {c c' : EnvelopeChain}
    (ht : Tracked crypto c.store c.log c.lastTime) (hsafe : Protected c.log)
    (htimes : TimesFrom c.lastTime blocks) (hguard : Guarded crypto c blocks)
    (h : c.run crypto blocks = .ok c') :
    Tracked crypto c'.store c'.log c'.lastTime ∧ Protected c'.log := by
  induction blocks generalizing c with
  | nil =>
    cases h
    exact ⟨ht, hsafe⟩
  | cons b blocks ih =>
    rw [EnvelopeChain.run, List.foldlM_cons, bind_eq_ok] at h
    obtain ⟨mid, hb, hrest⟩ := h
    obtain ⟨htmid, hsafemid⟩ := ht.block hsafe htimes.1 hguard.1 hb
    refine ih htmid hsafemid ?_ (hguard.2 mid hb) hrest
    rw [(EnvelopeChain.block_eq_ok hb).2.2]
    exact htimes.2

/-- In a run that revives no pruned message, no message is admitted while an earlier one
with its public key and nonce is still timely; so the same signed bytes are never admitted
twice. -/
theorem envelope_admitted_once (crypto : RelayCrypto) (time : ℤ) (blocks : List EnvelopeBlock)
    (c : EnvelopeChain) (htimes : TimesFrom time blocks)
    (hguard : Guarded crypto (EnvelopeChain.genesis time) blocks)
    (h : (EnvelopeChain.genesis time).run crypto blocks = .ok c) :
    Protected c.log ∧
      c.log.Pairwise fun later earlier => later.msg.signBytes ≠ earlier.msg.signBytes := by
  have hstart : Protected (EnvelopeChain.genesis time).log := List.Pairwise.nil
  obtain ⟨ht, hsafe⟩ := Tracked.run (Tracked.genesis time) hstart htimes hguard h
  refine ⟨hsafe, hsafe.imp_of_mem ?_⟩
  intro later earlier hlater _ hstale hbytes
  have hsame := congrArg RelayMessage.env (signBytes_inj hbytes)
  simp only [RelayMessage.unsigned, Envelope.mk.injEq] at hsame
  obtain ⟨-, hkey, -, -, -, htime, hnonce, -⟩ := hsame
  refine hstale hkey.symm hnonce.symm ?_
  rw [← htime]
  exact ht.timely later hlater

/-! ## Limits that are raised slowly -/

/-- A message whose record is due is stale for every limit less than 300 seconds above the
one it was admitted under. -/
theorem stale_of_due {admitted now : ℤ} {maxAge later timestamp : UInt64}
    (hdue : recordExpiry admitted maxAge timestamp ≤ unixSeconds now)
    (hlimit : later.toNat < maxAge.toNat + 300) : ¬ Timely now later timestamp := by
  intro htimely
  obtain ⟨-, -, -, hmax, hold, -⟩ := timely_iff.mp htimely
  simp only [recordExpiry, unixSeconds, timeSub, second, millisecond, maxEnvelopeAgeSeconds] at *
  omega

theorem mem_foldl_note {b : EnvelopeBlock} {msgs : List RelayMessage.OnChain} {log : List Accepted}
    {a : Accepted} (ha : a ∈ msgs.foldl (b.note crypto) log) :
    a ∈ log ∨ a.maxAge = b.maxEnvelopeAge := by
  induction msgs generalizing log with
  | nil => exact Or.inl ha
  | cons m msgs ih =>
    rcases ih ha with hmem | hage
    · unfold EnvelopeBlock.note at hmem
      split at hmem
      · exact Or.inl hmem
      · rcases List.mem_cons.mp hmem with rfl | hmem
        · exact Or.inr rfl
        · exact Or.inl hmem
    · exact Or.inr hage

theorem mem_foldl_deliver {b : EnvelopeBlock} {txs : List RelayTx} {c : EnvelopeChain}
    {a : Accepted} (ha : a ∈ (txs.foldl (EnvelopeChain.deliver crypto b) c).log) :
    a ∈ c.log ∨ a.maxAge = b.maxEnvelopeAge := by
  induction txs generalizing c with
  | nil => exact Or.inl ha
  | cons tx txs ih =>
    rcases ih ha with hmem | hage
    · unfold EnvelopeChain.deliver at hmem
      split at hmem
      · split at hmem
        · exact mem_foldl_note hmem
        · exact Or.inl hmem
      · exact Or.inl hmem
    · exact Or.inr hage

/-- No limit is 300 seconds or more above an earlier one. -/
def SlowlyRaised (blocks : List EnvelopeBlock) : Prop :=
  blocks.Pairwise fun b b' => b'.maxEnvelopeAge.toNat < b.maxEnvelopeAge.toNat + 300

theorem guarded_of_limits {blocks : List EnvelopeBlock} {c : EnvelopeChain}
    (htimes : TimesFrom c.lastTime blocks) (hslow : SlowlyRaised blocks)
    (hlog : ∀ a ∈ c.log, ∀ b ∈ blocks, b.maxEnvelopeAge.toNat < a.maxAge.toNat + 300) :
    Guarded crypto c blocks := by
  induction blocks generalizing c with
  | nil => trivial
  | cons b blocks ih =>
    obtain ⟨hlater, hrest⟩ := List.pairwise_cons.mp hslow
    constructor
    · intro a ha hdue
      have hmono : unixSeconds c.lastTime ≤ unixSeconds b.time :=
        Int.ediv_le_ediv (by decide) htimes.1
      exact stale_of_due (hdue.trans hmono) (hlog a ha b List.mem_cons_self)
    · intro c' hc'
      obtain ⟨-, hlog', hlast⟩ := EnvelopeChain.block_eq_ok hc'
      refine ih (by rw [hlast]; exact htimes.2) hrest ?_
      intro a ha b' hb'
      rw [hlog'] at ha
      rcases mem_foldl_deliver ha with hold | hage
      · exact hlog a hold b' (List.mem_cons_of_mem _ hb')
      · rw [hage]
        exact hlater b' hb'

end runs

/-! ## A limit raised too far -/

/-- The vote is relayed, its record is pruned, and it is relayed again under the given
limit. -/
def replayBlocks (limit : UInt64) : List EnvelopeBlock :=
  [⟨1000 * second, 60, [⟨[stampedVote], true⟩]⟩, ⟨1360 * second, 60, []⟩,
    ⟨1361 * second, limit, [⟨[stampedVote], true⟩]⟩]

/-- After governance raises the limit from one minute to an hour, the bytes of a vote whose
record has been pruned are admitted again. -/
theorem raised_limit_replays :
    TimesFrom 0 (replayBlocks 3600) ∧
    (∀ b ∈ replayBlocks 3600, 1 ≤ b.maxEnvelopeAge.toNat ∧
      b.maxEnvelopeAge.toNat ≤ maxEnvelopeAgeSeconds) ∧
    ∃ c, (EnvelopeChain.genesis 0).run trustingCrypto (replayBlocks 3600) = .ok c ∧
      c.log.map Accepted.msg = [stampedVote, stampedVote] ∧ ¬ Protected c.log := by
  refine ⟨⟨by decide, by decide, by decide, trivial⟩, by decide, _, rfl, rfl, ?_⟩
  intro hsafe
  exact (List.pairwise_cons.mp hsafe).1 _ List.mem_cons_self rfl rfl (by decide)

theorem envelope_admitted_once_slowlyRaised :
    TimesFrom 0 (replayBlocks 359) ∧
      Guarded trustingCrypto (EnvelopeChain.genesis 0) (replayBlocks 359) ∧
    ∃ c, (EnvelopeChain.genesis 0).run trustingCrypto (replayBlocks 359) = .ok c ∧
      c.log.map Accepted.msg = [stampedVote] ∧ Protected c.log := by
  have htimes : TimesFrom 0 (replayBlocks 359) := ⟨by decide, by decide, by decide, trivial⟩
  have hguard : Guarded trustingCrypto (EnvelopeChain.genesis 0) (replayBlocks 359) :=
    guarded_of_limits htimes (by unfold SlowlyRaised; decide) (by intro a ha; cases ha)
  refine ⟨htimes, hguard, _, rfl, rfl, ?_⟩
  exact (envelope_admitted_once trustingCrypto 0 (replayBlocks 359) _ htimes hguard rfl).1

end MirageNode
